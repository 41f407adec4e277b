import Schurfer.Journal.Model
import Schurfer.Lib.Except

/-!
# Executions, orders and ownership

The rows of the exchange's execution list, what the journal knows about one live trade, and the split of the
executions by owner (`live_costs.py`, `_partition`). Ownership is decided by orders, never by time alone.
-/

namespace Schurfer.Costs

inductive ExecType
  | trade
  | funding
  | other (text : String)
deriving DecidableEq

structure Execution where
  execId : String
  execType : ExecType
  orderId : Option String
  orderLinkId : Option String
  side : Option String
  quantity : ℚ
  price : Option ℚ
  value : Option ℚ
  fee : ℚ
  feeCurrency : Option String
  executedAt : Time
deriving DecidableEq

structure OrderState where
  terminal : Bool
  filled : Option ℚ

/-- What the journal knows about one live trade. `orderIds` are the exchange order ids it links
to the trade, entry and closes, and `clientOrderIds` those of its journalled close attempts. -/
structure TradeFacts where
  tradeId : ℕ
  exchange : String
  nativeMarketId : String
  side : Side
  entryClientOrderId : String
  entryOrderId : Option String
  entryFilled : ℚ
  contractSize : Option ℚ
  orderIds : List String
  clientOrderIds : List String
  sentAt : Time
  exitAt : Option Time

/-- Every other live trade and order of ours on the same instrument, with the interval of each
other trade; the exit is `none` while it is open. -/
structure Neighbours where
  orderIds : List String
  clientOrderIds : List String
  entryClientOrderIds : List String
  intervals : List (Time × Option Time)

structure Leg where
  tradeId : ℕ
  execType : ExecType
  execution : Execution

def boundary : ℤ := seconds 5

def settleDelay : ℤ := seconds 300

def fundingRowMatch : ℤ := seconds 5

def neighbourMargin : ℤ := seconds 60

def windowMargin : ℤ := seconds 60

def usdt : String := "USDT"

inductive Status
  | complete
  | pending
  | incomplete
deriving DecidableEq

inductive Reason
  | contractSize (size : ℚ)
  | noFilledQuantity
  | noEntryListed
  | side (execId : String) (side : Option String) (expected : String)
  | entryListed (entered filled : ℚ)
  | entryExceeds (entered filled : ℚ)
  | exitExceeds (exited filled : ℚ)
  | exitListed (exited filled : ℚ)
  | noOrderId (execId : String)
  | orderNotRead (orderId : String)
  | orderNoFilled (orderId : String)
  | orderNotTerminal (orderId : String)
  | orderListed (orderId : String) (rows filled : ℚ)
  | orderExceeds (orderId : String) (rows filled : ℚ)
  | unknownInHolding (execId : String) (execType : ExecType)
  | feeCurrency (execId : String) (currency : String)
  | waitAfterExit
  | noSettlementPublished
  | listedAfterWindow (at_ : Time)
  | publishedTo (at_ end_ : Time)
  | manyFundingRows (n : ℕ) (at_ : Time)
  | fundingNotListed (at_ : Time)
  | fundingQuantity (at_ : Time) (quantity held : ℚ)
  | boundaryNoRow (at_ : Time)
  | boundaryQuantity (at_ : Time) (quantity : ℚ) (held : List ℚ)
  | fundingCurrency (execId : String) (currency : String)
  | unmatchedFunding (execId : String)
  | neighbourOwner (at_ : Time)
  | foreignExecution (execId : String) (at_ : Time)
  | noValue (execId : String)
deriving DecidableEq

inductive Stop
  | pending (error : Reason)
  | incomplete (error : Reason)

def Stop.status : Stop → Status
  | .pending _ => .pending
  | .incomplete _ => .incomplete

def Stop.error : Stop → Reason
  | .pending error => error
  | .incomplete error => error

structure CostResult where
  status : Status
  error : Option Reason := none
  feesUsd : Option ℚ := none
  fundingUsd : Option ℚ := none
  entryValue : Option ℚ := none
  exitValue : Option ℚ := none
  grossPnlUsd : Option ℚ := none
  legs : List Leg := []

def CostResult.netPnlUsd (r : CostResult) : Option ℚ :=
  match r.grossPnlUsd, r.feesUsd, r.fundingUsd with
  | some gross, some fees, some funding => some (gross - fees - funding)
  | _, _, _ => none

def cost (row : Execution) : ℚ := row.fee

def entrySide : Side → String
  | .long => "Buy"
  | .short => "Sell"

def exitSide : Side → String
  | .long => "Sell"
  | .short => "Buy"

def given (s : Option String) : Option String := s.filter (· ≠ "")

def isDigits (cs : List Char) : Bool := cs ≠ [] && cs.all Char.isDigit

def isDerivedFrom (link entry : String) : Bool :=
  ((entry ++ "s").toList.isPrefixOf link.toList || (entry ++ "c").toList.isPrefixOf link.toList) &&
    isDigits (link.toList.drop (entry.length + 1))

def ownedBy (row : Execution) (knownOrderIds knownClientOrderIds entryClientOrderIds : List String) : Bool :=
  (∃ id ∈ given row.orderId, id ∈ knownOrderIds) ||
    match given row.orderLinkId with
    | none => false
    | some link => link ∈ knownClientOrderIds || link ∈ entryClientOrderIds ||
        entryClientOrderIds.any (isDerivedFrom link)

variable (facts : TradeFacts)

def TradeFacts.owns (row : Execution) : Bool :=
  ownedBy row facts.orderIds facts.clientOrderIds [facts.entryClientOrderId]

def Neighbours.owns (neighbours : Neighbours) (row : Execution) : Bool :=
  ownedBy row neighbours.orderIds neighbours.clientOrderIds neighbours.entryClientOrderIds

def TradeFacts.isEntry (row : Execution) : Bool :=
  (∃ id ∈ given facts.entryOrderId, row.orderId = some id) ||
    row.orderLinkId = some facts.entryClientOrderId

inductive Owner
  | funding
  | odd
  | owned
  | others
  | unknown
deriving DecidableEq

def ownerOf (neighbours : Neighbours) (row : Execution) : Owner :=
  if row.execType = .funding then .funding
  else if row.execType ≠ .trade then .odd
  else if facts.owns row then .owned
  else if neighbours.owns row then .others
  else .unknown

structure Partition where
  owned : List Execution
  others : List Execution
  unknown : List Execution
  odd : List Execution

def partition (executions : List Execution) (neighbours : Neighbours) : Partition where
  owned := executions.filter (ownerOf facts neighbours · = .owned)
  others := executions.filter (ownerOf facts neighbours · = .others)
  unknown := executions.filter (ownerOf facts neighbours · = .unknown)
  odd := executions.filter (ownerOf facts neighbours · = .odd)

def sumQuantity (rows : List Execution) : ℚ := (rows.map (·.quantity)).sum

end Schurfer.Costs
