import Schurfer.Journal.Model
import Schurfer.Lib.Txn

/-!
# LIVE_PROBE records and reservations

Columns that a trigger compares as one group are one structure here. No row of the two tables is ever deleted, so a
row is named by its position.
-/

namespace Schurfer.Probe

open Except (raiseIf)

inductive Environment
  | testnet
  | mainnet
deriving DecidableEq

namespace Environment

def text : Environment → String
  | testnet => "testnet"
  | mainnet => "mainnet"

def ofText : String → Option Environment
  | "testnet" => some testnet
  | "mainnet" => some mainnet
  | _ => none

end Environment

def maxNotionalUsd : ℚ := 50

def slots : ℕ := 1

def serviceActor : String := "execution-service"

structure DateTime where
  instant : Time
  zoned : Bool

structure Terms where
  probeId : String
  environment : String
  accountKey : String
  strategy : String
  contractVersion : String
  contractSha256 : String
  instruments : List String
  maxEntries : ℤ
  notionalUsd : ℚ
  lossThresholdUsd : ℚ
  entriesUntil : DateTime
  flatBy : DateTime

def Terms.validate (t : Terms) : Except Exn Unit := do
  raiseIf (Environment.ofText t.environment = none)
    (.valueError "environment must be one of ('testnet', 'mainnet')")
  raiseIf (t.accountKey = "" ∨ t.strategy = "" ∨ t.contractVersion = "")
    (.valueError "account key, strategy and contract version are required")
  raiseIf (t.instruments = [] ∨ "" ∈ t.instruments)
    (.valueError "at least one instrument is required")
  raiseIf (t.maxEntries < 1) (.valueError "N must be at least 1")
  raiseIf (¬ (0 < t.notionalUsd ∧ t.notionalUsd ≤ maxNotionalUsd))
    (.valueError "the notional per entry must be in (0, 50]")
  raiseIf (t.lossThresholdUsd ≤ 0) (.valueError "L must be positive")
  raiseIf (t.entriesUntil.zoned = false ∨ t.flatBy.zoned = false)
    (.valueError "entries_until and flat_by need a time zone")
  raiseIf (t.flatBy.instant < t.entriesUntil.instant)
    (.valueError "flat_by must not be before entries_until")

structure RecordTerms where
  probeId : String
  environment : Environment
  accountKey : String
  exchange : String
  strategy : String
  contractVersion : String
  contractSha256 : String
  instruments : List String
  maxEntries : ℤ
  notionalUsd : ℚ
  lossThresholdUsd : ℚ
  entriesUntil : Time
  flatBy : Time
  issuedAt : Time
  issuedBy : String
deriving DecidableEq

structure Revocation where
  revokedAt : Option Time := none
  revokedBy : Option String := none
  revokeReason : Option String := none
deriving DecidableEq

structure LReached where
  lReachedAt : Option Time := none
  lReachedLossUsd : Option ℚ := none
  lReachedInputs : Option Detail := none
deriving DecidableEq

structure Record where
  terms : RecordTerms
  revocation : Revocation := {}
  suspendedAt : Option Time := none
  suspendedReason : Option String := none
  costsIncidentAt : Option Time := none
  costsIncidentReason : Option String := none
  lReached : LReached := {}

abbrev Record.probeId (rec : Record) : String := rec.terms.probeId
abbrev Record.entriesUntil (rec : Record) : Time := rec.terms.entriesUntil
abbrev Record.revokedAt (rec : Record) : Option Time := rec.revocation.revokedAt
abbrev Record.lReachedAt (rec : Record) : Option Time := rec.lReached.lReachedAt

inductive EventKind
  | issued
  | revoked
  | suspended
  | resumed
  | costsIncident
  | costsIncidentCleared
  | lReached

structure Event where
  probeId : String
  event : EventKind
  actor : String
  detail : Detail

structure ReserveInputs where
  initialSlPct : ℚ
  takerRate : ℚ
  fundingRate : ℚ
  settlementsInMaxHold : ℤ
deriving DecidableEq

def entryReserve (notional : ℚ) (inputs : ReserveInputs) : Except Exn ℚ := do
  raiseIf (notional ≤ 0 ∨ inputs.initialSlPct ≤ 0)
    (.valueError "an entry reserve needs a positive notional and stop distance")
  raiseIf (inputs.takerRate < 0 ∨ inputs.settlementsInMaxHold < 1)
    (.valueError "an entry reserve needs a taker rate and at least one settlement")
  return notional * (inputs.initialSlPct / 100 + 2 * inputs.takerRate)
    + notional * |inputs.fundingRate| * inputs.settlementsInMaxHold

def admits (realizedClosed reservedOpen reserve threshold : ℚ) : Bool :=
  decide (-realizedClosed + reservedOpen + reserve ≤ threshold)

inductive State
  | reserved
  | sending
  | refusedBeforeSend
  | placed
  | released
deriving DecidableEq

def State.text : State → String
  | .reserved => "reserved"
  | .sending => "sending"
  | .refusedBeforeSend => "refused_before_send"
  | .placed => "placed"
  | .released => "released"

structure Chain where
  probeId : String
  idempotencyKey : String
  decisionId : String
  clientOrderId : String
  nativeMarketId : String
  side : Side
  notionalUsd : ℚ
  reserveUsd : ℚ
  reserveInputs : ReserveInputs
  createdAt : Time
deriving DecidableEq

structure Row where
  chain : Chain
  state : State := .reserved
  stateReason : Option String := none
  attemptId : Option ℕ := none
  tradeId : Option ℕ := none
  sendingAt : Option Time := none
  finishedAt : Option Time := none

abbrev Row.probeId (r : Row) : String := r.chain.probeId

structure EntryRequest where
  probeId : String
  decisionId : String
  environment : String
  accountKey : String
  nativeMarketId : String
  side : String
  reserveInputs : ReserveInputs

structure Reservation where
  id : ℕ
  probeId : String
  idempotencyKey : String
  decisionId : String
  clientOrderId : String
  nativeMarketId : String
  side : Side
  notionalUsd : ℚ
  reserveUsd : ℚ
  state : State
  stateReason : Option String
  attemptId : Option ℕ
  tradeId : Option ℕ
  created : Bool

def Row.reservation (id : ℕ) (r : Row) (created : Bool := true) : Reservation where
  id := id
  probeId := r.chain.probeId
  idempotencyKey := r.chain.idempotencyKey
  decisionId := r.chain.decisionId
  clientOrderId := r.chain.clientOrderId
  nativeMarketId := r.chain.nativeMarketId
  side := r.chain.side
  notionalUsd := r.chain.notionalUsd
  reserveUsd := r.chain.reserveUsd
  state := r.state
  stateReason := r.stateReason
  attemptId := r.attemptId
  tradeId := r.tradeId
  created := created

inductive RefusalReason
  | noAuthorization
  | foreignAccount
  | revoked
  | suspended
  | lReached
  | costsIncident
  | entriesClosed
  | instrumentNotAllowed
  | probeTradeCostsPending
  | slotBusy
  | maxEntriesSpent
  | lHeadroom
  | other (text : String)

def RefusalReason.text : RefusalReason → String
  | .noAuthorization => "no_authorization"
  | .foreignAccount => "foreign_account"
  | .revoked => "revoked"
  | .suspended => "suspended"
  | .lReached => "l_reached"
  | .costsIncident => "costs_incident"
  | .entriesClosed => "entries_closed"
  | .instrumentNotAllowed => "instrument_not_allowed"
  | .probeTradeCostsPending => "probe_trade_costs_pending"
  | .slotBusy => "slot_busy"
  | .maxEntriesSpent => "max_entries_spent"
  | .lHeadroom => "l_headroom"
  | .other text => text

structure Refusal where
  probeId : String
  idempotencyKey : Option String
  decisionId : Option String
  reservationId : Option ℕ
  reason : String
  detail : Detail

structure Refused where
  reason : String
  detail : Detail

structure Db where
  records : List Record := []
  events : List Event := []
  reservations : List Row := []
  refusals : List Refusal := []
  attempts : ℕ → Option Attempt := fun _ => none
  trades : ℕ → Option Trade := fun _ => none

abbrev Tx := Txn Exn Db

def Db.record? (db : Db) (probeId : String) : Option Record :=
  db.records.find? (·.probeId = probeId)

def Db.tradeOf (db : Db) (r : Row) : Option Trade :=
  r.tradeId.bind db.trades

def settled (t : Trade) : Bool :=
  t.status = .closed ∧ t.accountingVersion = .liveExchangeCostsV1 ∧
    (t.accountingStatus = .complete ∨ t.accountingStatus = .operatorSettled)

def spendsEntry (r : Row) : Bool :=
  r.state = .reserved ∨ r.state = .sending ∨ r.state = .placed

variable (r : Row) (t : Option Trade)

def holdsSlot : Bool :=
  r.state = .reserved ∨ r.state = .sending ∨
    (r.state = .placed ∧ ∀ x ∈ t, x.status ≠ .closed)

def holdsReserve : Bool :=
  r.state = .reserved ∨ r.state = .sending ∨
    (r.state = .placed ∧ ∀ x ∈ t, settled x = false)

def isRealized : Bool :=
  r.state = .placed ∧ ∃ x ∈ t, settled x = true

def isUnsettled : Bool :=
  r.state = .placed ∧ ∃ x ∈ t, x.status = .closed ∧ settled x = false

structure Ledger where
  entriesSpent : ℕ
  slotsHeld : ℕ
  reservedOpen : ℚ
  realizedClosed : ℚ
  closedUnsettled : ℕ
deriving DecidableEq

def pnlOf (t : Option Trade) : ℚ := (t.bind (·.pnlUsd)).getD 0

def Db.ledger (db : Db) (probeId : String) : Ledger :=
  let rows := db.reservations.filter (·.probeId = probeId)
  { entriesSpent := rows.countP spendsEntry
    slotsHeld := rows.countP fun r => holdsSlot r (db.tradeOf r)
    reservedOpen := ((rows.filter fun r => holdsReserve r (db.tradeOf r)).map (·.chain.reserveUsd)).sum
    realizedClosed := ((rows.filter fun r => isRealized r (db.tradeOf r)).map
      fun r => pnlOf (db.tradeOf r)).sum
    closedUnsettled := rows.countP fun r => isUnsettled r (db.tradeOf r) }

end Schurfer.Probe
