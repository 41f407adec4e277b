import Mathlib.Data.String.Basic
import Schurfer.Journal.Model
import Schurfer.Lib.Dict

/-!
# The reconciliation scan

`reconciliation.py` and one scan of `reconciliation_worker.py`: the sources are folded into dictionaries by instrument
identity, and an identity that is not safely owned is an incident.
-/

namespace Schurfer.Reconciliation

structure FullIdentity where
  exchange : String
  symbol : String
  nativeMarketId : String
  marketType : String
  side : String
deriving DecidableEq

def FullIdentity.complete (i : FullIdentity) : Bool :=
  i.exchange ≠ "" && i.symbol ≠ "" && i.nativeMarketId ≠ "" && i.marketType ≠ "" &&
    (i.side = "long" || i.side = "short")

def FullIdentity.fields (i : FullIdentity) : List String :=
  [i.exchange, i.symbol, i.nativeMarketId, i.marketType, i.side]

def FullIdentity.le (i j : FullIdentity) : Prop := i.fields ≤ j.fields

instance : DecidableRel FullIdentity.le := fun i j => inferInstanceAs (Decidable (i.fields ≤ j.fields))

structure ExchangePositionSnapshot where
  identity : FullIdentity
  contracts : ℚ
  entryPrice : Option ℚ

structure OwnedTradeSnapshot where
  identity : FullIdentity
  tradeId : ℕ
  attemptId : Option ℕ
  base : String
  contracts : Option ℚ
  entryPrice : ℚ

structure OrderAttemptSnapshot where
  identity : FullIdentity
  attemptId : ℕ
  base : String
  clientOrderId : String
  orderId : Option String
  status : AttemptStatus
  requestedAmount : Option ℚ
  filledAmount : Option ℚ
  tradeId : Option ℕ

def isActive (status : AttemptStatus) : Bool :=
  status = .pending || status = .accepted || status = .submissionUnknown || status = .manualRequired

def OrderAttemptSnapshot.unresolved (a : OrderAttemptSnapshot) : Bool := isActive a.status

structure RedisPositionSnapshot where
  identity : FullIdentity
  tradeId : ℤ
  exchange : String
  base : String

inductive DiscrepancyType
  | healthy
  | unresolvedOrderAttempt
  | missingRedis
  | missingTradeExactAttempt
  | exchangeOnlyOrphan
  | dbOnlyOrphan
  | redisOnlyStale
  | positionSizeMismatch
  | incompleteIdentity
  | unknownMismatch

inductive ActionDirective
  | allowEntry
  | quarantineIncident
  | manualInterventionRequired

structure ReconciliationDecision where
  discrepancy : DiscrepancyType
  directive : ActionDirective
  allowEntry : Bool
  incidentRequired : Bool
  manualRequired : Bool
  reason : String

def contractsTolerance : ℚ := 1 / 100000000

def sameContracts (left right : Option ℚ) : Bool :=
  match left, right with
  | some left, some right => |left - right| ≤ contractsTolerance
  | _, _ => false

def OrderAttemptSnapshot.hasNoPosition (a : OrderAttemptSnapshot) : Bool :=
  a.status = .noFill || a.status = .failed

def attemptsFilled (attempts : List OrderAttemptSnapshot) : Option ℚ :=
  attempts.foldl (fun total a => if a.hasNoPosition then total else do return (← total) + (← a.filledAmount)) (some 0)

def quarantine (discrepancy : DiscrepancyType) (reason : String) (manualRequired : Bool) : ReconciliationDecision :=
  { discrepancy
    directive := if manualRequired then .manualInterventionRequired else .quarantineIncident
    allowEntry := false
    incidentRequired := true
    manualRequired
    reason }

def healthy (reason : String) : ReconciliationDecision :=
  { discrepancy := .healthy, directive := .allowEntry, allowEntry := true, incidentRequired := false
    manualRequired := false, reason }

def classifyPositionState (identity : FullIdentity) (exchangeSnap : Option ExchangePositionSnapshot)
    (dbTrade : Option OwnedTradeSnapshot) (dbAttempts : List OrderAttemptSnapshot)
    (redisSnap : Option RedisPositionSnapshot) : ReconciliationDecision :=
  if identity.complete = false then
    quarantine .incompleteIdentity "At least one source lacks the exact exchange instrument identity." true
  else if dbAttempts.any (·.unresolved) = true then
    quarantine .unresolvedOrderAttempt
      "An order attempt has no terminal, durably reconciled exchange result." false
  else if exchangeSnap = none ∧ dbTrade = none ∧ redisSnap = none ∧ dbAttempts ≠ [] ∧
      dbAttempts.all (·.hasNoPosition) = true then
    healthy "Every durable order attempt has an explicit terminal no-position result."
  else
    match exchangeSnap, dbTrade, redisSnap with
    | some position, some trade, some _ =>
      if sameContracts (some position.contracts) trade.contracts = true then
        healthy "Exchange, journal, and Redis point to the same owned position."
      else
        quarantine .positionSizeMismatch "Exchange contracts do not match the exact durable order fill." true
    | some _, some _, none =>
      quarantine .missingRedis "The owned exchange position has no complete Redis monitoring projection." true
    | some position, none, _ =>
      if dbAttempts = [] then
        quarantine .exchangeOnlyOrphan "An exchange position is not owned by an exact durable order attempt." true
      else if sameContracts (some position.contracts) (attemptsFilled dbAttempts) = false then
        quarantine .positionSizeMismatch
          "Exchange contracts do not equal the filled amount of the exact attempts." true
      else
        quarantine .missingTradeExactAttempt
          "An exact order attempt exists, but its exchange position has no journal trade." true
    | none, some _, _ =>
      quarantine .dbOnlyOrphan "An open journal trade has no matching exchange position." true
    | none, none, some _ =>
      quarantine .redisOnlyStale "Redis position state has no matching exchange position or journal trade." true
    | none, none, none =>
      quarantine .unknownMismatch "The source combination is not a safe, fully-owned position state." true

structure Market where
  id : String
  type : String

structure Position where
  symbol : Option String
  contracts : Option ℚ
  side : Option String
  entryPrice : Option ℚ

structure TradeRow where
  id : ℕ
  exchange : String
  symbol : String
  side : String
  status : TradeStatus
  paper : Bool
  entryPrice : ℚ
deriving DecidableEq

structure AttemptRow where
  id : ℕ
  clientOrderId : String
  operation : Operation
  exchange : String
  base : String
  symbol : String
  nativeMarketId : Option String
  marketType : Option String
  side : String
  status : AttemptStatus
  orderId : Option String
  requestedAmount : Option ℚ
  filledAmount : Option ℚ
  tradeId : Option ℕ
deriving DecidableEq

structure Journal where
  trades : List TradeRow
  attempts : List AttemptRow
  trade_ids : (trades.map TradeRow.id).Nodup
  attempt_ids : (attempts.map AttemptRow.id).Nodup
  one_entry : ∀ a ∈ attempts, ∀ a' ∈ attempts, a.operation = .entry → a'.operation = .entry →
    a.tradeId ≠ none → a.tradeId = a'.tradeId → a = a'

/-- Everything one scan reads. `parse` is `int` of a text, and `resolve` what the exchange's orders say
about an attempt: its status, order id and filled amount, when its order is found. -/
structure Sources where
  exchanges : List String
  markets : String → String → Option Market
  positions : String → List Position
  journal : Journal
  redis : List (String × String)
  parse : String → Option ℤ
  resolve : OrderAttemptSnapshot → Option (AttemptStatus × Option String × Option ℚ)

def positionIdentity (s : Sources) (exchange : String) (p : Position) : FullIdentity :=
  let symbol := p.symbol.getD ""
  let market := if symbol = "" then none else s.markets exchange symbol
  { exchange
    symbol
    nativeMarketId := (market.map (·.id)).getD ""
    marketType := (market.map (·.type)).getD ""
    side := (p.side.getD "").toLower }

structure Held where
  identity : FullIdentity
  contracts : ℚ
  entryPrice : Option ℚ

def held (s : Sources) : List Held :=
  s.exchanges.flatMap fun exchange => (s.positions exchange).filterMap fun p =>
    match p.contracts with
    | none => none
    | some contracts => if contracts = 0 then none else some ⟨positionIdentity s exchange p, contracts, p.entryPrice⟩

def addPosition (snapshots : Dict FullIdentity ExchangePositionSnapshot) (p : Held) :
    Dict FullIdentity ExchangePositionSnapshot :=
  let contracts := match snapshots.lookup p.identity with
    | some existing => p.contracts + existing.contracts
    | none => p.contracts
  AList.insert p.identity ⟨p.identity, |contracts|, p.entryPrice⟩ snapshots

def fetchExchangeSnapshots (s : Sources) : Dict FullIdentity ExchangePositionSnapshot :=
  (held s).foldl addPosition ∅

variable (j : Journal)

def AttemptRow.isRead (a : AttemptRow) : Bool :=
  a.operation = .entry && (isActive a.status || a.status = .completed &&
    (a.tradeId = none || (∃ t ∈ j.trades, a.tradeId = some t.id ∧ t.status = .open)))

def attemptsSql : List AttemptRow := j.attempts.filter (·.isRead j)

def TradeRow.isOpen (t : TradeRow) : Bool := t.status = .open && t.paper = false

structure OpenRow where
  trade : TradeRow
  attempt : Option AttemptRow
deriving DecidableEq

def entryAttempts (t : TradeRow) : List AttemptRow :=
  j.attempts.filter fun a => a.tradeId = some t.id ∧ a.operation = .entry

def openTradesSql : List OpenRow :=
  (j.trades.filter (·.isOpen)).flatMap fun t =>
    match entryAttempts j t with
    | [] => [⟨t, none⟩]
    | attempts => attempts.map fun a => ⟨t, some a⟩

def attemptFromRow (a : AttemptRow) (exchange symbol side : String) : OrderAttemptSnapshot where
  identity := ⟨exchange, symbol, a.nativeMarketId.getD "", a.marketType.getD "", side⟩
  attemptId := a.id
  base := a.base.toUpper
  clientOrderId := a.clientOrderId
  orderId := a.orderId
  status := a.status
  requestedAmount := a.requestedAmount
  filledAmount := a.filledAmount
  tradeId := a.tradeId

def AttemptRow.snapshot (a : AttemptRow) : OrderAttemptSnapshot := attemptFromRow a a.exchange a.symbol a.side

def OpenRow.attemptSnapshot (r : OpenRow) : Option OrderAttemptSnapshot :=
  r.attempt.map fun a => attemptFromRow a r.trade.exchange r.trade.symbol r.trade.side

def OpenRow.identity (r : OpenRow) : FullIdentity :=
  match r.attemptSnapshot with
  | some a => a.identity
  | none => ⟨r.trade.exchange, r.trade.symbol, "", "", r.trade.side⟩

def OpenRow.snapshot (r : OpenRow) : OwnedTradeSnapshot where
  identity := r.identity
  tradeId := r.trade.id
  attemptId := r.attempt.map (·.id)
  base := ((r.attempt.map (·.base)).getD "").toUpper
  contracts := r.attempt.bind (·.filledAmount)
  entryPrice := r.trade.entryPrice

abbrev Attempts := Dict FullIdentity (List OrderAttemptSnapshot)

def addAttempt (attempts : Attempts) (a : OrderAttemptSnapshot) : Attempts := Dict.push attempts a.identity a

def addTradeAttempt (attempts : Attempts) (r : OpenRow) : Attempts :=
  match r.attemptSnapshot with
  | none => attempts
  | some a =>
    if (Dict.group attempts a.identity).all (·.attemptId ≠ a.attemptId) then addAttempt attempts a else attempts

def dbTrades : Dict FullIdentity OwnedTradeSnapshot :=
  Dict.ofRows OpenRow.identity OpenRow.snapshot (openTradesSql j)

def tradesById : Dict ℕ OwnedTradeSnapshot :=
  Dict.ofRows (·.trade.id) OpenRow.snapshot (openTradesSql j)

def dbAttempts : Attempts :=
  (openTradesSql j).foldl addTradeAttempt (((attemptsSql j).map AttemptRow.snapshot).foldl addAttempt ∅)

def redisGet (s : Sources) (key : String) : Option String := s.redis.lookup key

def afterPrefix (start key : String) : Option String :=
  if start.toList.isPrefixOf key.toList then some (String.ofList (key.toList.drop start.toList.length)) else none

def keysByPosition (s : Sources) : List (String × String) :=
  (s.exchanges.flatMap fun exchange =>
    [s!"trade:id:{exchange}:", s!"position:opened_at:{exchange}:"].flatMap fun pattern =>
      s.redis.filterMap fun entry => (afterPrefix pattern entry.1).map fun base => (exchange, base.toUpper)).dedup

def requiredKeys (exchange base : String) : List String :=
  [s!"position:opened_at:{exchange}:{base}", s!"position:sl_order_id:{exchange}:{base}",
    s!"exit:params:{exchange}:{base.toUpper}", s!"position:entry:{exchange}:{base.toUpper}",
    s!"position:side:{exchange}:{base.toUpper}", s!"position:size_usd:{exchange}:{base.toUpper}"]

def redisTradeId (s : Sources) (exchange base : String) : ℤ :=
  ((redisGet s s!"trade:id:{exchange}:{base}").bind s.parse).getD (-1)

def tradeById (tradeId : ℤ) : Option OwnedTradeSnapshot :=
  if 0 ≤ tradeId then (tradesById j).lookup tradeId.toNat else none

variable (s : Sources)

def redisSnapshot (exchange base : String) : Option RedisPositionSnapshot :=
  let tradeId := redisTradeId s exchange base
  let stale := some ⟨⟨exchange, s!"redis-key:{base}", "", "", ""⟩, tradeId, exchange, base⟩
  match tradeById s.journal tradeId with
  | none => stale
  | some trade =>
    if trade.identity.exchange ≠ exchange ∨ trade.base ≠ base then stale
    else if (requiredKeys exchange base).all fun key => (redisGet s key).isSome then
      some ⟨trade.identity, tradeId, exchange, base⟩
    else none

def fetchRedisSnapshots : Dict FullIdentity RedisPositionSnapshot :=
  Dict.ofRows RedisPositionSnapshot.identity id
    ((keysByPosition s).filterMap fun position => redisSnapshot s position.1 position.2)

def needsResolution (a : OrderAttemptSnapshot) : Bool :=
  isActive a.status || a.status = .completed && a.filledAmount = none

def resolveAttempt (a : OrderAttemptSnapshot) : OrderAttemptSnapshot :=
  if a.identity.exchange ∉ s.exchanges ∨ needsResolution a = false then a
  else
    match s.resolve a with
    | none => a
    | some (status, orderId, filledAmount) => { a with status, orderId, filledAmount }

def allIdentities : List FullIdentity :=
  ((fetchExchangeSnapshots s).keys ++ (dbTrades s.journal).keys ++ (dbAttempts s.journal).keys ++
    (fetchRedisSnapshots s).keys).dedup.insertionSort FullIdentity.le

def decisionFor (identity : FullIdentity) : ReconciliationDecision :=
  classifyPositionState identity ((fetchExchangeSnapshots s).lookup identity)
    ((dbTrades s.journal).lookup identity)
    ((Dict.group (dbAttempts s.journal) identity).map (resolveAttempt s))
    ((fetchRedisSnapshots s).lookup identity)

def runScan : List (FullIdentity × ReconciliationDecision) :=
  ((allIdentities s).map fun identity => (identity, decisionFor s identity)).filter (·.2.incidentRequired)

end Schurfer.Reconciliation
