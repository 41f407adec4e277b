import Schurfer.LateFill.Stops

/-!
# The calls of the order desk

Everything `orders.py`, `monitor.py`, `incident_worker.py` and the journal functions they use ask of Redis, the
exchanges and the database. The admission checks that do not read positions, the exit rule and the emergency close of
an entry without a stop are answers of the surroundings. Logs, alerts and timestamps are left out.
-/

namespace Schurfer.Desk

open Orders LateFill

abbrev Pair := String × String

def pairOf (exchange base : String) : Pair := (exchange, base.toUpper)

def baseOf (symbol : String) : String := String.ofList (symbol.toList.takeWhile (· ≠ '/'))

structure Market where
  id : String
  symbol : String
  base : String
  quote : String
  settle : String
  type : String
  active : Bool

def resolveExecutionInstrument (markets : List Market) (source : String) : Option String :=
  match markets.filter fun m => m.active && (source = m.id || source = m.symbol || source.toUpper = m.base) &&
    m.quote = "USDT" && m.settle = "USDT" && m.type = "swap" with
  | [m] => some m.symbol
  | _ => none

structure Setup where
  exchanges : List String
  nodup : exchanges.Nodup := by decide
  markets : String → List Market
  has : String → Has
  hasFetchOrder : String → Bool
  /-- `fetchOrderTrades` or `fetchMyTrades` -/
  hasFetchTrades : String → Bool
  amountToPrecision : String → String → ℚ → ℚ

/-- One exchange with every capability that takes amounts as they are; the sample runs use it. -/
def Setup.bybit (markets : List Market) : Setup where
  exchanges := ["bybit"]
  markets _ := markets
  has _ _ := true
  hasFetchOrder _ := true
  hasFetchTrades _ := true
  amountToPrecision _ _ amount := amount

inductive Direction
  | buy
  | sell

def Direction.text : Direction → String
  | .buy => "buy"
  | .sell => "sell"

def entryDirection : Side → Direction
  | .short => .sell
  | .long => .buy

def closeDirection : Side → Direction
  | .short => .buy
  | .long => .sell

structure Position where
  symbol : String
  side : Option Side
  contracts : ℚ

structure MarketOrder where
  exchange : String
  symbol : String
  direction : Direction
  amount : ℚ
  clientOrderId : String
  reduceOnly : Bool

structure StopOrder where
  exchange : String
  entryClientOrderId : String
  symbol : String
  direction : String
  amount : ℚ
  triggerPrice : ℚ
  clientOrderId : String

structure CloseContext where
  reason : String
  positionSide : Side
  slOrderId : Option String

structure NewClose where
  clientOrderId : String
  exchange : String
  base : String
  symbol : String
  requestedAmount : ℚ
  tradeId : Option ℕ
  context : CloseContext

structure CloseAttempt where
  id : ℕ
  clientOrderId : String
  exchange : String
  base : String
  symbol : String
  status : AttemptStatus
  orderId : Option String
  requestedAmount : ℚ
  tradeId : Option ℕ
  context : CloseContext

structure NewEntry where
  clientOrderId : String
  exchange : String
  base : String
  symbol : String
  side : Side
  requestedAmount : ℚ

structure NewTrade where
  exchange : String
  symbol : String
  side : Side
  orderId : Option String
  entryPrice : ℚ

structure CloseFill where
  tradeId : ℕ
  exchange : String
  orderId : String
  fillPrice : ℚ
  filledAmount : ℚ
  requestedAmount : ℚ
  remainingAmount : ℚ
  terminal : Bool

structure PendingClose where
  pair : Pair
  tradeId : ℕ
  exitOrderId : Option String
  exitPrice : ℚ

inductive IncidentOperation
  | opening
  | closing
deriving DecidableEq

inductive IncidentStatus
  | pending
  | resolving
  | resolved
  | manualRequired
deriving DecidableEq

structure CloseLeg where
  requestedAmount : ℚ
  filledAmount : Option ℚ
  remainingAmount : Option ℚ
  terminal : Bool

structure IncidentContext where
  reason : Option String := none
  leg : Option CloseLeg := none
  orderTerminal : Option Bool := none
  side : Option Side := none

structure NewIncident where
  exchange : String
  base : String
  operation : IncidentOperation
  orderId : String
  tradeId : Option ℕ
  context : IncidentContext

structure Incident where
  id : ℕ
  exchange : String
  base : String
  operation : IncidentOperation
  orderId : String
  tradeId : Option ℕ
  status : IncidentStatus
  attemptCount : ℕ
  context : IncidentContext

/-- Who reads: the entry path, the tick's snapshot, the recovery of close attempts, a close before it is
sent and after, or the reconciliation of vanished positions. -/
inductive Reader
  | entry
  | snapshot
  | recovery
  | close
  | residual
  | reconcile
deriving DecidableEq

inductive Op
  | acquireLock (pair : Pair)
  | releaseLock (pair : Pair)
  | getStopKey (reader : Reader) (pair : Pair)
  | setStopKey (pair : Pair) (orderId : String)
  | deleteStopKey (pair : Pair)
  | scanStopKeys
  | getTradeKey (order : Option String) (pair : Pair)
  | setTradeKey (pair : Pair) (tradeId : ℕ)
  | deleteTradeKeyIfMatches (pair : Pair) (tradeId : ℕ)
  | getPendingClose (pair : Pair) (tradeId : ℕ)
  | setPendingClose (pending : PendingClose)
  | deletePendingClose (pair : Pair) (tradeId : ℕ)
  | scanPendingCloses
  | exitKeys (pair : Pair)
  | revokePnlReadiness
  | fetchPositions (reader : Reader) (exchange : String)
  | createMarketOrder (order : MarketOrder)
  | createStopMarketOrder (stop : StopOrder)
  | fetchOrder (exchange orderId symbol : String)
  | fetchOrders (exchange symbol : String) (listing : Listing) (trigger : Bool)
  | fetchTrades (exchange orderId symbol : String)
  | cancelOrder (exchange : String) (orderId : Option String) (symbol : String)
  | fetchTicker (exchange symbol : String)
  | priceToPrecision (exchange symbol : String) (price : ℚ)
  | monotonic
  | sleep (seconds : ℚ)
  | newClientOrderId
  | gateIsOpen
  | admission (exchange symbol : String)
  | finalChecks
  | flatten (exchange base symbol : String)
  | decideExit (exchange : String) (position : Position)
  | hasActiveTask (exchange base : String)
  | createAttempt (entry : NewEntry)
  | createCloseAttempt (close : NewClose)
  | markAccepted (attemptId : ℕ) (orderId : String)
  | markSubmissionUnknown (attemptId : ℕ)
  | markFailed (attemptId : ℕ)
  | markCompleted (attemptId : ℕ) (tradeId : Option ℕ) (filledAmount : Option ℚ)
  | markPartial (attemptId tradeId : ℕ) (filledAmount : ℚ)
  | linkCompletedTrade (exchange orderId : String) (tradeId : ℕ) (filledAmount : Option ℚ)
  | loadRecoverableCloseAttempts
  | findOpenTradeId (order : Option String) (exchange symbol : String)
  | openTrade (trade : NewTrade)
  | recordCloseFill (fill : CloseFill)
  | closeTrade (tradeId : ℕ) (exchange : String) (exitOrderId : Option String) (exitPrice : ℚ)
  | aggregateCloseFillPrice (tradeId : ℕ)
  | remainingTradeAmount (tradeId : ℕ)
  | createIncident (incident : NewIncident)
  | loadOpenIncidents
  | hasPendingOpen (exchange base : String)
  | markAttempt (incidentId : ℕ) (status : IncidentStatus)
  | markResolved (incidentId : ℕ)

abbrev Ans : Op → Type
  | .acquireLock _ => Bool
  | .getStopKey _ _ => Option String
  | .scanStopKeys => List Pair
  | .getTradeKey _ _ => Option ℕ
  | .deleteTradeKeyIfMatches _ _ => Bool
  | .getPendingClose _ _ => Option PendingClose
  | .scanPendingCloses => List (Pair × ℕ)
  | .fetchPositions _ _ => List Position
  | .createMarketOrder _ => Order
  | .createStopMarketOrder _ => Order
  | .fetchOrder _ _ _ => Order
  | .fetchOrders _ _ _ _ => List Order
  | .fetchTrades _ _ _ => List (ℚ × ℚ)
  | .fetchTicker _ _ => Option ℚ
  | .priceToPrecision _ _ _ => ℚ
  | .monotonic => ℚ
  | .newClientOrderId => String
  | .gateIsOpen => Bool
  | .admission _ _ => Option (ℚ × ℚ)
  | .finalChecks => Bool
  | .decideExit _ _ => Option String
  | .hasActiveTask _ _ => Bool
  | .createAttempt _ => Option ℕ
  | .createCloseAttempt _ => Option ℕ
  | .markPartial _ _ _ => Bool
  | .linkCompletedTrade _ _ _ _ => Bool
  | .loadRecoverableCloseAttempts => List CloseAttempt
  | .findOpenTradeId _ _ _ => Option ℕ
  | .openTrade _ => Option ℕ
  | .recordCloseFill _ => Option ℚ
  | .closeTrade _ _ _ _ => Bool
  | .aggregateCloseFillPrice _ => Option ℚ
  | .remainingTradeAmount _ => Option ℚ
  | .createIncident _ => Option ℕ
  | .loadOpenIncidents => List Incident
  | .hasPendingOpen _ _ => Bool
  | .markResolved _ => Bool
  | _ => Unit

abbrev Program := Prog Failure Op Ans

def call (o : Op) : Program (Ans o) := Prog.perform o

def tryCall (o : Op) : Program (Except Failure (Ans o)) := Prog.attempt o

end Schurfer.Desk
