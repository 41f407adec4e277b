import Schurfer.Journal.Model
import Schurfer.Lib.Dict
import Schurfer.Lib.Txn

/-!
# The episodes of the early-momentum strategy

Each call of `episodes.py`, and `open_trade_for_episode` of `journal.py`, is one transaction with its own `now()`. A
reaper reads the overdue rows first and writes them later, without looking at them again, so what other workers do to
such a row in between is overwritten.
-/

namespace Schurfer.Episodes

inductive Status
  | armed
  | claimed
  | opened
  | closed
  | expired
  | rejected
  | suppressed
deriving DecidableEq

namespace Status

def live : Status → Bool
  | armed | claimed => true
  | _ => false

def reasoned : Status → Bool
  | expired | rejected | suppressed => true
  | _ => false

end Status

structure Row where
  sourceExchange : String
  sourceNativeId : String
  exchange : String
  nativeMarketId : String
  createdAt : ℤ
  expiresAt : ℤ
  status : Status
  terminalReason : Option String := none
  claimToken : Option String := none
  claimedAt : Option ℤ := none
  claimExpiresAt : Option ℤ := none
  claimAttempts : ℕ := 0

def Row.checked (r : Row) : Bool :=
  (r.status.reasoned == r.terminalReason.isSome) &&
    (r.status != .claimed || r.claimToken.isSome && r.claimedAt.isSome && r.claimExpiresAt.isSome)

structure Episode extends Row where
  isChecked : toRow.checked = true

def Row.write? (r : Row) : Option Episode := if h : r.checked then some ⟨r, h⟩ else none

structure TradeRow where
  strategyId : ℕ
  symbol : String
  episodeId : String
  entryIdempotencyKey : String

structure Db where
  episodes : Dict String Episode := ∅
  trades : List TradeRow := []
  strategies : List (String × String) := []

namespace Db

def watched (db : Db) (exchange nativeMarketId : String) : Bool :=
  db.episodes.entries.any fun x =>
    x.2.status.live && decide (x.2.exchange = exchange) && decide (x.2.nativeMarketId = nativeMarketId)

def insert (db : Db) (episodeId : String) (r : Row) : Option (Db × Episode) :=
  match db.episodes.lookup episodeId with
  | some _ => none
  | none => r.write?.map fun e => ({ db with episodes := AList.insert episodeId e db.episodes }, e)

/-- `UPDATE … WHERE episode_id = … AND …`: nothing if no row matches, or if the row would not pass its checks. -/
def update (db : Db) (episodeId : String) (matching : Row → Bool) (change : Row → Row) : Option (Db × Episode) := do
  let e ← (db.episodes.lookup episodeId).filter fun e => matching e.toRow
  let e' ← (change e.toRow).write?
  return ({ db with episodes := AList.insert episodeId e' db.episodes }, e')

end Db

structure ArmRequest where
  episodeId : String
  sourceExchange : String
  sourceNativeId : String
  exchange : String
  nativeMarketId : String
  ttlSeconds : ℤ

def createEpisode (now : ℤ) (req : ArmRequest) (db : Db) : Db × Option Episode :=
  -- ON CONFLICT DO NOTHING on the partial index of the live episodes
  if db.watched req.exchange req.nativeMarketId then (db, none)
  else
    match db.insert req.episodeId
      { sourceExchange := req.sourceExchange
        sourceNativeId := req.sourceNativeId
        exchange := req.exchange
        nativeMarketId := req.nativeMarketId
        createdAt := now
        expiresAt := now + seconds req.ttlSeconds
        status := .armed } with
    | some (db, e) => (db, some e)
    | none => (db, none)

structure RejectRequest where
  episodeId : String
  sourceExchange : String
  sourceNativeId : String
  exchange : String
  nativeMarketId : String
  reason : String
  dedupWindowSeconds : ℤ := 3600

def createRejectedEpisode (now : ℤ) (req : RejectRequest) (db : Db) : Db × Bool :=
  if db.episodes.entries.any fun x =>
      decide (x.2.sourceExchange = req.sourceExchange) && decide (x.2.sourceNativeId = req.sourceNativeId) &&
        decide (x.2.terminalReason = some req.reason) &&
        decide (now - seconds req.dedupWindowSeconds < x.2.createdAt) then (db, true)
  else
    match db.insert req.episodeId
      { sourceExchange := req.sourceExchange
        sourceNativeId := req.sourceNativeId
        exchange := req.exchange
        nativeMarketId := if req.nativeMarketId = "" then req.sourceNativeId else req.nativeMarketId
        createdAt := now
        expiresAt := now
        status := .rejected
        terminalReason := some req.reason } with
    | some (db, _) => (db, true)
    | none => (db, false)

def Row.claimable (r : Row) (now : ℤ) : Bool :=
  decide (now < r.expiresAt) && (r.status == .armed || r.status == .claimed && r.claimExpiresAt.any (· < now))

def Row.claim (r : Row) (now : ℤ) (token : String) (leaseSeconds : ℤ) : Row :=
  { r with
    status := .claimed
    claimToken := some token
    claimedAt := some now
    claimExpiresAt := some (now + seconds leaseSeconds)
    claimAttempts := r.claimAttempts + 1 }

structure ClaimOutcome where
  claimed : Bool
  episode : Option Episode
  claimToken : Option String

def claimEpisode (now : ℤ) (episodeId token : String) (leaseSeconds : ℤ) (db : Db) : Db × ClaimOutcome :=
  match db.update episodeId (·.claimable now) (·.claim now token leaseSeconds) with
  | some (db, e) => (db, ⟨true, some e, some token⟩)
  | none => (db, ⟨false, none, none⟩)

def Row.finish (r : Row) (status : Status) (reason : String) : Row :=
  { r with status, terminalReason := some reason }

def Row.terminable (r : Row) (claimToken : Option String) : Bool :=
  match claimToken with
  | some token => r.claimToken == some token
  | none => r.status == .armed

def terminateEpisode (episodeId reason : String) (claimToken : Option String) (status : Status) (db : Db) : Db × Bool :=
  match db.update episodeId (·.terminable claimToken) (·.finish status reason) with
  | some (db, _) => (db, true)
  | none => (db, false)

def markClosed (episodeId : String) (db : Db) : Db × Bool :=
  match db.update episodeId (·.status == .opened) fun r => { r with status := .closed } with
  | some (db, _) => (db, true)
  | none => (db, false)

inductive ReapKind
  | expiredArmed
  | expiredWhileClaimed
  | infrastructureFailed

namespace ReapKind

def source : ReapKind → Status
  | expiredArmed => .armed
  | expiredWhileClaimed => .claimed
  | infrastructureFailed => .claimed

def status : ReapKind → Status
  | expiredArmed => .expired
  | expiredWhileClaimed => .expired
  | infrastructureFailed => .rejected

def reason : ReapKind → String
  | expiredArmed => "expired_without_breakout"
  | expiredWhileClaimed => "expired_while_claimed"
  | infrastructureFailed => "infrastructure_failure"

def overdue (kind : ReapKind) (now : ℤ) (maxClaimAttempts : ℕ) (r : Row) : Bool :=
  r.status == kind.source &&
    match kind with
    | expiredArmed => decide (r.expiresAt < now)
    | expiredWhileClaimed => decide (r.expiresAt < now)
    | infrastructureFailed =>
      decide (now < r.expiresAt) && r.claimExpiresAt.any (· < now) && decide (maxClaimAttempts ≤ r.claimAttempts)

end ReapKind

/-- The transaction of a reaper that has not committed: the updates to come and the rows that it writes. -/
structure Reap where
  now : ℤ
  batchSize : ℕ := 200
  maxClaimAttempts : ℕ := 5
  remaining : List ReapKind := [.expiredArmed, .expiredWhileClaimed, .infrastructureFailed]
  pending : List (String × ReapKind) := []

namespace Reap

def candidates (r : Reap) (kind : ReapKind) (db : Db) : List String :=
  (db.episodes.entries.filter fun x =>
    kind.overdue r.now r.maxClaimAttempts x.2.toRow && !decide (x.1 ∈ r.pending.map Prod.fst)).map (·.1)

def select (r : Reap) (ids : List String) (db : Db) : Reap :=
  match r.remaining with
  | [] => r
  | kind :: rest =>
    if ids.Nodup ∧ (∀ id ∈ ids, id ∈ r.candidates kind db) ∧
        ids.length = min r.batchSize (r.candidates kind db).length then
      { r with remaining := rest, pending := r.pending ++ ids.map fun id => (id, kind) }
    else r

def apply (db : Db) (x : String × ReapKind) : Db :=
  match db.update x.1 (fun _ => true) (·.finish x.2.status x.2.reason) with
  | some (db, _) => db
  | none => db

def commit (r : Reap) (db : Db) : Db := r.pending.foldl apply db

end Reap

structure OpenRequest where
  episodeId : String
  claimToken : String
  symbol : String
  side : String
  strategyName : String
  strategyVersion : String

structure OpenTradeOutcome where
  tradeId : Option ℕ
  created : Bool
  recovered : Bool
  claimValid : Bool

def entryKey (episodeId : String) : String := episodeId ++ ":entry:base"

def Row.claimStillLive (r : Row) (now : ℤ) (claimToken : String) : Bool :=
  r.claimToken == some claimToken &&
    (r.status == .opened ||
      r.status == .claimed && r.claimExpiresAt.any (now < ·) && decide (now < r.expiresAt))

def Db.upsertStrategy (db : Db) (name version : String) : Db × ℕ :=
  match db.strategies.findIdx? (· = (name, version)) with
  | some i => (db, i)
  | none => ({ db with strategies := db.strategies ++ [(name, version)] }, db.strategies.length)

def Db.markOpened (db : Db) (episodeId claimToken : String) : Db :=
  match db.update episodeId (·.claimToken == some claimToken) fun r => { r with status := .opened } with
  | some (db, _) => db
  | none => db

def openTradeForEpisode (now : ℤ) (req : OpenRequest) (key : String) (db : Db) :
    Db × Except String OpenTradeOutcome :=
  if (Side.ofText req.side).isNone then (db, .error ("invalid side: " ++ req.side))
  -- no such episode, or the claim is gone: nothing is written
  else if (db.episodes.lookup req.episodeId).all fun e => !e.claimStillLive now req.claimToken then
    (db, .ok ⟨none, false, false, false⟩)
  else
    let (db, strategyId) := db.upsertStrategy req.strategyName req.strategyVersion
    match db.trades.findIdx? (·.entryIdempotencyKey = key) with
    | none =>
      let trade : TradeRow := ⟨strategyId, req.symbol, req.episodeId, key⟩
      ({ db with trades := db.trades ++ [trade] }.markOpened req.episodeId req.claimToken,
        .ok ⟨some db.trades.length, true, false, true⟩)
    | some existingId =>
      -- the key alone is not trusted
      if db.trades[existingId]?.all fun t =>
          decide (t.episodeId ≠ req.episodeId ∨ t.strategyId ≠ strategyId ∨ t.symbol ≠ req.symbol) then
        (db, .ok ⟨none, false, false, true⟩)
      else (db.markOpened req.episodeId req.claimToken, .ok ⟨some existingId, false, true, true⟩)

structure State where
  db : Db := {}
  reaps : Dict ℕ Reap := ∅

inductive Call
  | createEpisode (now : ℤ) (req : ArmRequest)
  | createRejectedEpisode (now : ℤ) (req : RejectRequest)
  | claimEpisode (now : ℤ) (episodeId token : String) (leaseSeconds : ℤ)
  | terminateEpisode (episodeId reason : String) (claimToken : Option String) (status : Status)
  | markClosed (episodeId : String)
  | reapBegin (worker : ℕ) (now : ℤ) (batchSize maxClaimAttempts : ℕ)
  | reapSelect (worker : ℕ) (ids : List String)
  | reapCommit (worker : ℕ)
  | reapAbort (worker : ℕ)
  | openTradeForEpisode (now : ℤ) (req : OpenRequest)

def State.step (s : State) : Call → State
  | .createEpisode now req => { s with db := (Episodes.createEpisode now req s.db).1 }
  | .createRejectedEpisode now req => { s with db := (Episodes.createRejectedEpisode now req s.db).1 }
  | .claimEpisode now episodeId token leaseSeconds =>
    { s with db := (Episodes.claimEpisode now episodeId token leaseSeconds s.db).1 }
  | .terminateEpisode episodeId reason claimToken status =>
    { s with db := (Episodes.terminateEpisode episodeId reason claimToken status s.db).1 }
  | .markClosed episodeId => { s with db := (Episodes.markClosed episodeId s.db).1 }
  | .reapBegin worker now batchSize maxClaimAttempts =>
    { s with reaps := AList.insert worker { now, batchSize, maxClaimAttempts } s.reaps }
  | .reapSelect worker ids =>
    match s.reaps.lookup worker with
    | some r => { s with reaps := AList.insert worker (r.select ids s.db) s.reaps }
    | none => s
  | .reapCommit worker =>
    match s.reaps.lookup worker with
    | some r => if r.remaining = [] then ⟨r.commit s.db, s.reaps.erase worker⟩ else s
    | none => s
  | .reapAbort worker => { s with reaps := s.reaps.erase worker }
  | .openTradeForEpisode now req =>
    { s with db := (Episodes.openTradeForEpisode now req (entryKey req.episodeId) s.db).1 }

def stateAfter (calls : List Call) (n : ℕ) : State := Run.stateAt State.step {} calls n

theorem stateAfter_succ {calls : List Call} {n : ℕ} {c : Call} (hc : calls[n]? = some c) :
    stateAfter calls (n + 1) = (stateAfter calls n).step c := Run.stateAt_succ hc

end Schurfer.Episodes
