import Schurfer.Costs.Model

/-!
# The settlement of a trade's costs

`live_costs.settle`. Every check that fails stops the settlement with a reason; only a settlement that passed all of
them is complete.
-/

namespace Schurfer.Costs

open Except (raiseIf)

variable (facts : TradeFacts)

def checkSides (entryRows exitRows : List Execution) : Except Stop Unit := do
  entryRows.forM fun row => raiseIf (row.side ≠ some (entrySide facts.side))
    (.incomplete (.side row.execId row.side (entrySide facts.side)))
  exitRows.forM fun row => raiseIf (row.side ≠ some (exitSide facts.side))
    (.incomplete (.side row.execId row.side (exitSide facts.side)))

def checkQuantities (entryRows exitRows : List Execution) (openPosition : Bool) : Except Stop Unit := do
  let entered := sumQuantity entryRows
  raiseIf (entered < facts.entryFilled) (.pending (.entryListed entered facts.entryFilled))
  raiseIf (entered > facts.entryFilled) (.incomplete (.entryExceeds entered facts.entryFilled))
  let exited := sumQuantity exitRows
  raiseIf (exited > facts.entryFilled) (.incomplete (.exitExceeds exited facts.entryFilled))
  raiseIf (openPosition = false ∧ exited < facts.entryFilled)
    (.pending (.exitListed exited facts.entryFilled))

def listedOf (owned : List Execution) (orderId : String) : ℚ :=
  sumQuantity (owned.filter (·.orderId = some orderId))

def checkOrder (owned : List Execution) (orders : String → Option OrderState)
    (openPosition : Bool) (orderId : String) : Except Stop Unit := do
  match orders orderId with
  | none => throw (.pending (.orderNotRead orderId))
  | some state =>
    let rows := listedOf owned orderId
    match state.filled with
    | none => throw (.pending (.orderNoFilled orderId))
    | some filled =>
      if state.terminal = false ∧ (openPosition = false ∨ some orderId = facts.entryOrderId) then
        -- a resting order without fills is passed over
        raiseIf (rows ≠ 0 ∨ filled ≠ 0) (.pending (.orderNotTerminal orderId))
      else
        raiseIf (rows < filled) (.pending (.orderListed orderId rows filled))
        raiseIf (rows > filled) (.incomplete (.orderExceeds orderId rows filled))

def orderIdsOf (owned : List Execution) : List String :=
  (owned.filterMap (·.orderId) ++ facts.orderIds).dedup.insertionSort (· ≤ ·)

def checkOrders (owned : List Execution) (orders : String → Option OrderState)
    (openPosition : Bool) : Except Stop Unit := do
  owned.forM fun row => raiseIf (given row.orderId = none) (.incomplete (.noOrderId row.execId))
  (orderIdsOf facts owned).forM (checkOrder facts owned orders openPosition)

def firstEntry (entryRows : List Execution) (now : Time) : Time :=
  ((entryRows.map (·.executedAt)).min?).getD now

def lastExit (exitRows : List Execution) (now : Time) (openPosition : Bool) : Time :=
  if openPosition then now else ((exitRows.map (·.executedAt)).max?).getD now

def currencyOf (row : Execution) : Option String :=
  (given row.feeCurrency).filter (· ≠ usdt)

structure Fills where
  entryRows : List Execution
  exitRows : List Execution
  others : List Execution
  unknown : List Execution

def checkedFills (executions : List Execution)
    (orders : String → Option OrderState) (neighbours : Neighbours) (now : Time)
    (openPosition : Bool) : Except Stop Fills := do
  raiseIf (∃ size ∈ facts.contractSize, size ≠ 1)
    (.incomplete (.contractSize (facts.contractSize.getD 1)))
  raiseIf (facts.entryFilled ≤ 0) (.incomplete .noFilledQuantity)
  let part := partition facts executions neighbours
  let entryRows := part.owned.filter facts.isEntry
  let exitRows := part.owned.filter fun row => facts.isEntry row = false
  raiseIf (entryRows = []) (.pending .noEntryListed)
  checkSides facts entryRows exitRows
  checkQuantities facts entryRows exitRows openPosition
  checkOrders facts part.owned orders openPosition
  let first := firstEntry entryRows now
  let last := lastExit exitRows now openPosition
  (part.unknown ++ part.odd).forM fun row =>
    raiseIf (first ≤ row.executedAt ∧ row.executedAt ≤ last)
      (.incomplete (.unknownInHolding row.execId row.execType))
  part.owned.forM fun row => raiseIf (currencyOf row ≠ none)
    (.incomplete (.feeCurrency row.execId ((currencyOf row).getD "")))
  return ⟨entryRows, exitRows, part.others, part.unknown⟩

/-- Every settlement in `[start, end_]`, both included, must be in `settlements`: the history is
complete up to the newest settlement it lists, and only up to it. -/
def checkPublished (publishedTo : Option Time) (settlements : List Time) (start end_ : Time) :
    Except Stop Unit := do
  match publishedTo with
  | none => throw (.pending .noSettlementPublished)
  | some published =>
    raiseIf (start ≤ published ∧ published ≤ end_ ∧ published ∉ settlements)
      (.pending (.listedAfterWindow published))
    raiseIf (published < end_) (.pending (.publishedTo published end_))

def isNear (margin t s : ℤ) : Bool := |t - s| ≤ margin

def heldBefore (entryRows exitRows : List Execution) (moment : Time) : ℚ :=
  sumQuantity (entryRows.filter (·.executedAt < moment)) -
    sumQuantity (exitRows.filter (·.executedAt < moment))

def Execution.le (r r' : Execution) : Prop :=
  r.executedAt < r'.executedAt ∨ (r.executedAt = r'.executedAt ∧ r.execId ≤ r'.execId)

instance : DecidableRel Execution.le := fun r r' =>
  inferInstanceAs (Decidable (r.executedAt < r'.executedAt ∨ (r.executedAt = r'.executedAt ∧ r.execId ≤ r'.execId)))

def nearFills (entries exits : List Execution) (at_ : Time) : List Execution :=
  ((entries ++ exits).filter fun r => isNear boundary r.executedAt at_).insertionSort Execution.le

def signedQuantity (entries : List Execution) (row : Execution) : ℚ :=
  if row.execId ∈ entries.map (·.execId) then row.quantity else -row.quantity

def heldAfter (entries : List Execution) : ℚ → List Execution → List ℚ
  | held, [] => [held]
  | held, row :: fills => held :: heldAfter entries (held + signedQuantity entries row) fills

def heldQuantities (entries exits : List Execution) (at_ : Time) : List ℚ :=
  heldAfter entries (heldBefore entries exits (at_ - boundary)) (nearFills entries exits at_)

def overlaps (interval : Time × Option Time) (at_ : Time) : Bool :=
  interval.1 - neighbourMargin ≤ at_ && (∀ exit ∈ interval.2, at_ ≤ exit + neighbourMargin)

def checkSingleOwner (at_ : Time) (foreignRows : List Execution) (neighbours : Neighbours) :
    Except Stop Unit := do
  neighbours.intervals.forM fun interval =>
    raiseIf (overlaps interval at_ = true) (.incomplete (.neighbourOwner at_))
  foreignRows.forM fun row =>
    raiseIf (isNear boundary row.executedAt at_ = true) (.incomplete (.foreignExecution row.execId at_))

inductive Funded
  | none
  | counted (row : Execution)
  | unlisted (at_ : Time)

structure FundingInputs where
  entryRows : List Execution
  exitRows : List Execution
  fundingRows : List Execution
  foreignRows : List Execution
  neighbours : Neighbours
  now : Time
  /-- whether settlements without a row are collected, not refused -/
  collect : Bool

def maxQuantity (qs : List ℚ) : ℚ := qs.max?.getD 0

def countRow (inp : FundingInputs) (at_ : Time) (row : Execution) : Except Stop Funded := do
  raiseIf (currencyOf row ≠ none)
    (.incomplete (.fundingCurrency row.execId ((currencyOf row).getD "")))
  checkSingleOwner at_ inp.foreignRows inp.neighbours
  return .counted row

def fundingAt (inp : FundingInputs) (at_ : Time) : Except Stop Funded := do
  let rows := inp.fundingRows.filter fun row => isNear fundingRowMatch row.executedAt at_
  raiseIf (1 < rows.length) (.incomplete (.manyFundingRows rows.length at_))
  let near := (inp.entryRows ++ inp.exitRows).filter fun fill => isNear boundary fill.executedAt at_
  let held := heldBefore inp.entryRows inp.exitRows at_
  let states := heldQuantities inp.entryRows inp.exitRows at_
  match rows.head? with
  | none =>
    if inp.collect then
      let quantities := if near = [] then [held] else states
      if maxQuantity quantities > 0 then
        checkSingleOwner at_ inp.foreignRows inp.neighbours
        return .unlisted at_
      else return .none
    else if near = [] then
      if held = 0 then
        return .none
      else throw (.pending (.fundingNotListed at_))
    else if inp.now < at_ + settleDelay then
      throw (.pending (.fundingNotListed at_))
    else throw (.incomplete (.boundaryNoRow at_))
  | some row =>
    if near = [] then
      if held = 0 then
        -- clearly not held: a row at this time is not this trade's
        return .none
      else if row.quantity ≠ held then
        throw (.incomplete (.fundingQuantity at_ row.quantity held))
      else countRow inp at_ row
    else if row.quantity = 0 ∨ row.quantity ∉ states then
      throw (.incomplete (.boundaryQuantity at_ row.quantity states))
    else countRow inp at_ row

def checkedSettlements (settlements : List Time) (first last : Time) : List Time :=
  (settlements.filter fun at_ => first - boundary ≤ at_ ∧ at_ ≤ last + boundary).dedup.insertionSort (· ≤ ·)

def Funded.row? : Funded → Option Execution
  | .counted row => some row
  | _ => Option.none

def Funded.unlisted? : Funded → Option Time
  | .unlisted at_ => some at_
  | _ => Option.none

def matchFunding (inp : FundingInputs) (settlements : List Time) (first last : Time) :
    Except Stop (List Execution × List Time) := do
  let checked := checkedSettlements settlements first last
  let funded ← checked.mapM (fundingAt inp)
  let windowRows := inp.fundingRows.filter fun row =>
    first - boundary ≤ row.executedAt ∧ row.executedAt ≤ last + boundary
  let unmatched := windowRows.filter fun row =>
    checked.all fun at_ => !isNear fundingRowMatch row.executedAt at_
  match unmatched with
  | row :: _ => throw (.incomplete (.unmatchedFunding row.execId))
  | [] => return (funded.filterMap Funded.row?, funded.filterMap Funded.unlisted?)

def sumValue (rows : List Execution) : Except Stop ℚ := do
  let values ← rows.mapM fun row => match row.value with
    | some value => pure value
    | none => throw (.incomplete (.noValue row.execId))
  return values.sum

def grossOf (side : Side) (entryValue exitValue : ℚ) : ℚ :=
  match side with
  | .long => exitValue - entryValue
  | .short => entryValue - exitValue

def fundingInputs (executions : List Execution) (neighbours : Neighbours) (now : Time) (fills : Fills) :
    FundingInputs where
  entryRows := fills.entryRows
  exitRows := fills.exitRows
  fundingRows := executions.filter (·.execType = .funding)
  foreignRows := fills.others ++ fills.unknown
  neighbours := neighbours
  now := now
  collect := false

def settleRows (executions : List Execution) (settlements : List Time)
    (orders : String → Option OrderState) (neighbours : Neighbours) (publishedTo : Option Time)
    (now : Time) (openPosition : Bool) : Except Stop CostResult := do
  let fills ← checkedFills facts executions orders neighbours now openPosition
  let owned := fills.entryRows ++ fills.exitRows
  let first := firstEntry fills.entryRows now
  let last := lastExit fills.exitRows now openPosition
  raiseIf (openPosition = false ∧ now < last + settleDelay) (.pending .waitAfterExit)
  checkPublished publishedTo settlements (first - boundary) (last + boundary)
  let (fundingRows, _) ← matchFunding (fundingInputs executions neighbours now fills) settlements first last
  let entryValue ← sumValue fills.entryRows
  let exitValue ← sumValue fills.exitRows
  return {
    status := .complete
    feesUsd := some (owned.map cost).sum
    fundingUsd := some (fundingRows.map cost).sum
    entryValue := some entryValue
    exitValue := some exitValue
    grossPnlUsd := if openPosition then none else some (grossOf facts.side entryValue exitValue)
    legs := owned.map (Leg.mk facts.tradeId .trade) ++ fundingRows.map (Leg.mk facts.tradeId .funding) }

def settle (executions : List Execution) (settlements : List Time)
    (orders : String → Option OrderState) (neighbours : Neighbours) (publishedTo : Option Time)
    (now : Time) (openPosition : Bool) : CostResult :=
  match settleRows facts executions settlements orders neighbours publishedTo now openPosition with
  | .ok result => result
  | .error stop => { status := stop.status, error := some stop.error }

end Schurfer.Costs
