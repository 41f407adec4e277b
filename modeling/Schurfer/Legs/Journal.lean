import Schurfer.EmergencyClose.Executor
import Schurfer.Legs.Performance
import Schurfer.Lib.Txn

/-!
# Close legs and closes

A writer of legs holds the trade row until it commits, so each transaction is one step; the plain `SELECT` of a close
may have read its row at any earlier moment. The journal carries what the database enforces.
-/

namespace Schurfer.Legs

open EmergencyClose List

structure Close extends Accounting where
  exitOrderId : Option String
  exitPrice : ℚ
  exitAt : Time
  exitSlippageBps : Option ℚ
  outcomeLabel : Outcome
  notes : String

structure TradeRow where
  id : ℕ
  strategy : String × String
  symbol : String
  exchange : String
  side : Side
  entryOrderId : Option String
  sizeUsd : ℚ
  leverage : ℕ
  entryPrice : ℚ
  entryAt : Time
  entrySlippageBps : Option ℚ
  accountingVersion : AccountingVersion
  status : TradeStatus := .open
  close : Option Close := none

structure Leg where
  tradeId : ℕ
  exchange : String
  orderId : String
  fillPrice : ℚ
  filledAmount : ℚ
  requestedAmount : ℚ
  remainingAmount : ℚ
  terminal : Bool
  fillSource : String
  executedAt : Option Time := none
  executionTimeSource : Option String := none

namespace Leg

def key (l : Leg) : String × String := (l.exchange, l.orderId)

def isValid (l : Leg) : Bool :=
  0 < l.fillPrice && 0 < l.filledAmount && 0 < l.requestedAmount && 0 ≤ l.remainingAmount

def agrees (recorded evidence : Leg) : Bool :=
  recorded.tradeId = evidence.tradeId && recorded.terminal = evidence.terminal &&
    isClose recorded.fillPrice evidence.fillPrice && isClose recorded.filledAmount evidence.filledAmount &&
    isClose recorded.requestedAmount evidence.requestedAmount &&
    isClose recorded.remainingAmount evidence.remainingAmount

def timesConflict (recorded evidence : Leg) : Bool :=
  recorded.executedAt ≠ none && evidence.executedAt ≠ none && recorded.executedAt ≠ evidence.executedAt

def enriched (recorded evidence : Leg) : Leg :=
  if recorded.executedAt = none ∧ evidence.executedAt ≠ none then
    { recorded with executedAt := evidence.executedAt, executionTimeSource := evidence.executionTimeSource }
  else recorded

end Leg

structure TaskRow where
  id : ℕ
  status : TaskStatus
  claimOwner : Option String
  tradeId : Option ℕ

structure AttemptRow where
  id : ℕ
  operation : Operation
  status : AttemptStatus
  tradeId : Option ℕ
  taskId : Option ℕ

structure Journal where
  trades : List TradeRow
  nextTradeId : ℕ
  legs : List Leg
  tasks : List TaskRow
  attempts : List AttemptRow
  trade_ids : (trades.map (·.id)).Nodup
  trade_fresh : ∀ t ∈ trades, t.id < nextTradeId
  leg_keys : (legs.map Leg.key).Nodup
  leg_valid : ∀ l ∈ legs, l.isValid = true

namespace Journal

variable (j : Journal)

def findTrade (tradeId : ℕ) : Option TradeRow := j.trades.find? (·.id = tradeId)

def lockTradeForLegsIn (tradeId : ℕ) : Option TradeStatus := (j.findTrade tradeId).map (·.status)

def findLeg (exchange orderId : String) : Option Leg := j.legs.find? (·.key = (exchange, orderId))

def legsOf (tradeId : ℕ) : List Leg := j.legs.filter (·.tradeId = tradeId)

def aggregateCloseFillPriceIn (tradeId : ℕ) : Option ℚ :=
  let legs := j.legsOf tradeId
  let amount := (legs.map (·.filledAmount)).sum
  if amount = 0 then none else some ((legs.map fun l => l.fillPrice * l.filledAmount).sum / amount)

def addTrade (row : ℕ → TradeRow) (hid : ∀ id, (row id).id = id) : Journal :=
  { j with
    trades := j.trades ++ [row j.nextTradeId]
    nextTradeId := j.nextTradeId + 1
    trade_ids := by
      rw [map_append, map_singleton, hid, nodup_append]
      refine ⟨j.trade_ids, nodup_singleton _, ?_⟩
      rintro a ha b hb rfl
      obtain ⟨t, ht, rfl⟩ := mem_map.1 ha
      rw [mem_singleton] at hb
      exact absurd hb (j.trade_fresh t ht).ne
    trade_fresh := by
      intro t ht
      rcases mem_append.1 ht with ht | ht
      · exact Nat.lt_succ_of_lt (j.trade_fresh t ht)
      · rw [mem_singleton.1 ht, hid]
        exact Nat.lt_succ_self _ }

def mapTrades (f : TradeRow → TradeRow) (hid : ∀ t, (f t).id = t.id) : Journal :=
  { j with
    trades := j.trades.map f
    trade_ids := by
      have hids : (j.trades.map f).map (·.id) = j.trades.map (·.id) := by
        rw [map_map]
        exact map_congr_left fun t _ => hid t
      rw [hids]
      exact j.trade_ids
    trade_fresh := by
      intro t' ht'
      obtain ⟨t, ht, rfl⟩ := mem_map.1 ht'
      rw [hid]
      exact j.trade_fresh t ht }

def addLeg (leg : Leg) (hvalid : leg.isValid = true) (hnew : leg.key ∉ j.legs.map Leg.key) : Journal :=
  { j with
    legs := j.legs ++ [leg]
    leg_keys := by
      rw [map_append, map_singleton, nodup_append]
      refine ⟨j.leg_keys, nodup_singleton _, ?_⟩
      rintro a ha b hb rfl
      rw [mem_singleton] at hb
      exact hnew (hb ▸ ha)
    leg_valid := by
      intro l hl
      rcases mem_append.1 hl with hl | hl
      · exact j.leg_valid l hl
      · rw [mem_singleton.1 hl]
        exact hvalid }

def enrichLeg (evidence : Leg) : Journal :=
  { j with
    legs := j.legs.map fun l => if l.key = evidence.key then l.enriched evidence else l
    leg_keys := by
      have hkeys : (j.legs.map fun l => if l.key = evidence.key then l.enriched evidence else l).map Leg.key =
          j.legs.map Leg.key := by
        rw [map_map]
        refine map_congr_left fun l _ => ?_
        simp only [Function.comp_apply]
        split
        · unfold Leg.enriched
          split <;> rfl
        · rfl
      rw [hkeys]
      exact j.leg_keys
    leg_valid := by
      intro l' hl'
      obtain ⟨l, hl, rfl⟩ := mem_map.1 hl'
      have hvalid := j.leg_valid l hl
      split
      · unfold Leg.enriched
        split
        · exact hvalid
        · exact hvalid
      · exact hvalid }

def repeatedCloseFill (evidence : Leg) : Option ℚ × Journal :=
  match j.findLeg evidence.exchange evidence.orderId with
  | none => (none, j)
  | some recorded =>
    if recorded.agrees evidence = false ∨ recorded.timesConflict evidence = true then (none, j)
    else
      let j' := j.enrichLeg evidence
      (j'.aggregateCloseFillPriceIn evidence.tradeId, j')

def recordCloseFillIn (evidence : Leg) : Option ℚ × Journal :=
  if hvalid : evidence.isValid = true then
    match j.lockTradeForLegsIn evidence.tradeId with
    | none => (none, j)
    | some status =>
      if hnew : status ≠ .closed ∧ evidence.key ∉ j.legs.map Leg.key then
        let j' := j.addLeg evidence hvalid hnew.2
        (j'.aggregateCloseFillPriceIn evidence.tradeId, j')
      else j.repeatedCloseFill evidence
  else (none, j)

end Journal

structure CloseArgs where
  tradeId : ℕ
  exitOrderId : Option String
  exitPrice : ℚ
  reason : String
  executedAt : Option Time := none
  freshExitSlippageBps : Option ℚ := none
  now : Time

structure CloseOutcome where
  committed : Bool
  newlyClosed : Bool := true
  accounting : Option Accounting := none

def closeAccounting (row : TradeRow) (a : CloseArgs) (closedAt : Time) : Except Exn Accounting :=
  let durationMinutes : ℚ := max 0 ((closedAt - row.entryAt : ℤ) / 60000000)
  match row.accountingVersion with
  | .paperConservativeCostsV1 => do
    let performance ← calculatePerformance row.sizeUsd row.entryPrice a.exitPrice row.side durationMinutes
      row.entrySlippageBps a.freshExitSlippageBps
    return paperAccounting performance
  | .liveExchangeCostsV1 => do
    let estimate ← calculatePerformance row.sizeUsd row.entryPrice a.exitPrice row.side durationMinutes
      (some 0) (some 0)
    return liveAccounting row.sizeUsd estimate
  | .legacyPriceOnlyV1 =>
    if row.entryPrice = 0 then throw (.raised "float division by zero")
    else return legacyAccounting row.sizeUsd (grossReturnPct row.side row.entryPrice a.exitPrice)

def closeRow (row : TradeRow) (a : CloseArgs) : Except Exn Close := do
  let closedAt := a.executedAt.getD a.now
  let accounting ← closeAccounting row a closedAt
  return {
    toAccounting := accounting
    exitOrderId := a.exitOrderId
    exitPrice := a.exitPrice
    exitAt := closedAt
    exitSlippageBps := a.freshExitSlippageBps
    outcomeLabel := accounting.outcome
    notes := a.reason }

def TradeRow.closedBy (tradeId : ℕ) (c : Close) (t : TradeRow) : TradeRow :=
  if t.id = tradeId ∧ t.status = .open then { t with status := .closed, close := some c } else t

theorem TradeRow.closedBy_id (tradeId : ℕ) (c : Close) (t : TradeRow) : (t.closedBy tradeId c).id = t.id := by
  unfold TradeRow.closedBy
  split <;> rfl

inductive Refusal
  | needsOpen
  | openNotTaken
  | notInJournal (tradeId : ℕ)
  | legNotTaken (orderId : String)
  | noLeg
  | notClosed (tradeId : ℕ)
deriving DecidableEq

inductive Conflict
  | foreignLeg (orderId : String) (tradeId : ℕ)
  | mismatch (orderId : String) (tradeId : ℕ)
  | terminalNotLast (orderId : String) (tradeId : ℕ)
  | alreadyTerminal (tradeId : ℕ) (missing : List String)
  | lastNotTerminal (tradeId : ℕ)
  | noneTerminal (tradeId : ℕ)
deriving DecidableEq

inductive Error
  | python (e : Exn)
  | refused (r : Refusal)
  | conflict (c : Conflict)
  | claimLost (taskId : ℕ)

abbrev Tx := Txn Error Journal

def liftExn {α : Type} (x : Except Exn α) : Except Error α := x.mapError .python

def closeTradeIn (read : Option TradeRow) (a : CloseArgs) : Tx CloseOutcome := do
  match read with
  | none => return { committed := false }
  | some row =>
    if row.status = .closed then
      -- an earlier close is never recomputed against this call's price
      return { committed := true, newlyClosed := false, accounting := row.close.map (·.toAccounting) }
    else
      let c ← liftM (liftExn (closeRow row a))
      let j ← get
      if j.trades.any fun t => t.id = a.tradeId && t.status = .open then
        set (j.mapTrades (TradeRow.closedBy a.tradeId c) (TradeRow.closedBy_id a.tradeId c))
        return { committed := true, accounting := some c.toAccounting }
      else return { committed := false }

structure SetupContext where
  strategy : String × String
  paper : Bool
  entryPriceIncludesImpact : Bool
  bidImpactBps : Option ℚ
  askImpactBps : Option ℚ

def SetupContext.entrySlippageBps (context : SetupContext) (side : Side) : Option ℚ :=
  if context.entryPriceIncludesImpact then some 0
  else (match side with
    | .short => context.bidImpactBps
    | .long => context.askImpactBps).filter (0 ≤ ·)

structure TradeOpen where
  orderId : Option String
  symbol : String
  exchange : String
  side : Side
  sizeUsd : ℚ
  leverage : ℕ
  entryPrice : ℚ
  setupContext : SetupContext
  entryAt : Time

def TradeOpen.row (opening : TradeOpen) (id : ℕ) : TradeRow where
  id
  strategy := opening.setupContext.strategy
  symbol := opening.symbol
  exchange := opening.exchange
  side := opening.side
  entryOrderId := opening.orderId
  sizeUsd := opening.sizeUsd
  leverage := opening.leverage
  entryPrice := opening.entryPrice
  entryAt := opening.entryAt
  entrySlippageBps := opening.setupContext.entrySlippageBps opening.side
  accountingVersion := if opening.setupContext.paper then .paperConservativeCostsV1 else .liveExchangeCostsV1

def Journal.openTradeIn (j : Journal) (opening : TradeOpen) : Option ℕ × Journal :=
  match opening.orderId.bind fun orderId =>
      j.trades.find? fun t => t.exchange = opening.exchange && t.entryOrderId = some orderId with
  | some t =>
    (if t.symbol = opening.symbol ∧ t.side = opening.side ∧ t.strategy = opening.setupContext.strategy then
      some t.id else none, j)
  | none => (some j.nextTradeId, j.addTrade opening.row fun _ => rfl)

structure TaskRef where
  id : ℕ
  sourceAttemptId : ℕ
  exchange : String

structure CloseLeg where
  orderId : String
  price : ℚ
  filledAmount : ℚ
  requestedAmount : ℚ
  remainingAmount : ℚ
  terminal : Bool
  source : String
  executedAt : Option Time
  executionTimeSource : Option String

/-- Everything one publish writes. The legs are of different orders, and the last one is the terminal
one. -/
structure RoundTrip where
  tradeId : Option ℕ
  opening : Option TradeOpen
  first : List CloseLeg
  last : CloseLeg
  reason : String
  distinct : ((first ++ [last]).map (·.orderId)).Nodup
  first_open : ∀ leg ∈ first, leg.terminal = false
  last_terminal : last.terminal = true

def RoundTrip.legs (trip : RoundTrip) : List CloseLeg := trip.first ++ [trip.last]

def CloseLeg.evidence (leg : CloseLeg) (exchange : String) (tradeId : ℕ) : Leg where
  tradeId
  exchange
  orderId := leg.orderId
  fillPrice := leg.price
  filledAmount := leg.filledAmount
  requestedAmount := leg.requestedAmount
  remainingAmount := leg.remainingAmount
  terminal := leg.terminal
  fillSource := leg.source
  executedAt := leg.executedAt
  executionTimeSource := leg.executionTimeSource

def tolerance : ℚ := 1 / 10 ^ 8

def CloseLeg.isJournalled (leg : CloseLeg) (exchange : String) (l : Leg) : Bool :=
  l.exchange = exchange && |l.filledAmount - leg.filledAmount| ≤ tolerance && isClose l.fillPrice leg.price

def journalledLeg (exchange : String) (trip : RoundTrip) (l : Leg) : Except Error (String × Bool) :=
  match trip.legs.find? (·.orderId = l.orderId) with
  | none => throw (.conflict (.foreignLeg l.orderId l.tradeId))
  | some leg =>
    if leg.isJournalled exchange l = false then throw (.conflict (.mismatch l.orderId l.tradeId))
    else if l.terminal = true ∧ l.orderId ≠ trip.last.orderId then
      throw (.conflict (.terminalNotLast l.orderId l.tradeId))
    else return (l.orderId, l.terminal)

def recordLegs (exchange : String) (tradeId : ℕ) (aggregate : Option ℚ) : List CloseLeg → Tx (Option ℚ)
  | [] => return aggregate
  | leg :: legs => do
    let j ← get
    let out := j.recordCloseFillIn (leg.evidence exchange tradeId)
    set out.2
    match out.1 with
    | none => throw (.refused (.legNotTaken leg.orderId))
    | some price => recordLegs exchange tradeId (some price) legs

def publishLegs (exchange : String) (tradeId : ℕ) (status : TradeStatus) (journalled : List (String × Bool))
    (trip : RoundTrip) : Tx (Option ℚ) := do
  let newLegs := trip.legs.filter fun leg => leg.orderId ∉ journalled.map Prod.fst
  match newLegs.getLast? with
  | some lastNew =>
    if status = .closed ∨ (journalled.any Prod.snd) = true then
      throw (.conflict (.alreadyTerminal tradeId (newLegs.map (·.orderId))))
    else if lastNew.terminal = false then throw (.conflict (.lastNotTerminal tradeId))
    else recordLegs exchange tradeId none newLegs
  | none =>
    if (trip.last.orderId, true) ∉ journalled then throw (.conflict (.noneTerminal tradeId))
    else
      let j ← get
      return j.aggregateCloseFillPriceIn tradeId

def publishTrade (trip : RoundTrip) : Tx ℕ := do
  match trip.tradeId with
  | some tradeId => return tradeId
  | none =>
    match trip.opening with
    | none => throw (.refused .needsOpen)
    | some opening => do
      let j ← get
      let out := j.openTradeIn opening
      set out.2
      match out.1 with
      | none => throw (.refused .openNotTaken)
      | some tradeId => return tradeId

def TaskRow.isClaimed (taskId : ℕ) (owner : String) (t : TaskRow) : Bool :=
  t.id = taskId && t.status = .confirmedFlat && t.claimOwner = some owner

def Journal.linked (j : Journal) (task : TaskRef) (owner : String) (tradeId : ℕ) : Journal :=
  { j with
    tasks := j.tasks.map fun t =>
      if t.isClaimed task.id owner then
        { t with status := .accounted, tradeId := some tradeId, claimOwner := none }
      else t
    attempts := j.attempts.map fun a =>
      if a.id = task.sourceAttemptId ∧ a.operation = .entry then
        { a with status := .completed, tradeId := some tradeId }
      else if a.taskId = some task.id then { a with tradeId := some tradeId }
      else a }

def linkTask (task : TaskRef) (owner : String) (tradeId : ℕ) : Tx Unit := do
  let j ← get
  if (j.tasks.filter (·.isClaimed task.id owner)).length ≠ 1 then throw (.claimLost task.id)
  else set (j.linked task owner tradeId)

def publish (task : TaskRef) (owner : String) (trip : RoundTrip) (now : Time) : Tx ℕ := do
  let tradeId ← publishTrade trip
  let j ← get
  match j.lockTradeForLegsIn tradeId with
  | none => throw (.refused (.notInJournal tradeId))
  | some status => do
    let journalled ← liftM ((j.legsOf tradeId).mapM (journalledLeg task.exchange trip))
    let aggregate ← publishLegs task.exchange tradeId status journalled trip
    match aggregate with
    | none => throw (.refused .noLeg)
    | some exitPrice => do
      let j ← get
      let closed ← closeTradeIn (j.findTrade tradeId)
        { tradeId, exitOrderId := some trip.last.orderId, exitPrice, reason := trip.reason
          executedAt := trip.last.executedAt, now }
      if closed.committed = false then throw (.refused (.notClosed tradeId))
      else
        linkTask task owner tradeId
        return tradeId

end Schurfer.Legs
