import Schurfer.Costs.Conservation

/-!
# The loss of an open trade

`probe_loss.py` and `live_costs.collect_open`: what an open trade has lost so far. The settlement of the same trade,
once closed, adds up execution values instead.
-/

namespace Schurfer.Costs

open List

open Except (raiseIf bind_ok pure_ok)

variable {rows : List Execution}

def sideSign : Side → ℚ
  | .long => 1
  | .short => -1

structure ProbeFill where
  quantity : ℚ
  price : ℚ

def entryVwap (entries : List ProbeFill) : Except Exn ℚ :=
  let quantity := (entries.map (·.quantity)).sum
  if quantity ≤ 0 then .error (.valueError "an open trade needs a positive entry quantity")
  else .ok ((entries.map fun f => f.quantity * f.price).sum / quantity)

def realizedOpenParts (side : Side) (vwap : ℚ) (exits : List ProbeFill) : ℚ :=
  sideSign side * (exits.map fun f => f.quantity * (f.price - vwap)).sum

def settlementEstimate (side : Side) (quantityHeld mark rate : ℚ) : ℚ :=
  max 0 (sideSign side * quantityHeld * mark * rate)

structure UnlistedSettlement where
  at_ : Time
  rate : Option ℚ
  quantityHeld : Option ℚ
  mark : Option ℚ
deriving DecidableEq

def UnlistedSettlement.estimate (u : UnlistedSettlement) (side : Side) : Option ℚ :=
  match u.rate, u.quantityHeld, u.mark with
  | some rate, some quantityHeld, some mark => some (settlementEstimate side quantityHeld mark rate)
  | _, _, _ => none

structure ProbePosition where
  side : Side
  entryVwap : ℚ
  openQty : ℚ
  realizedOpenParts : ℚ
  feesPaidOpen : ℚ
  fundingPaidOpen : ℚ
  unlisted : List UnlistedSettlement
deriving DecidableEq

variable {position : ProbePosition}

structure Loss where
  loss : ℚ
  lowerBound : Bool
  terms : List (String × ℚ)
  unknownSettlements : List Time

def probeLoss (realizedClosed : ℚ) (position : Option ProbePosition) (mark takerRate : Option ℚ) : Except Exn Loss :=
  match position with
  | none => .ok
      { loss := -realizedClosed, lowerBound := false, terms := [("realized_closed", realizedClosed)]
        unknownSettlements := [] }
  | some position =>
    match mark, takerRate with
    | some mark, some takerRate =>
      if position.openQty ≤ 0 then
        .error (.valueError "an open probe position needs a positive open quantity")
      else if takerRate < 0 then .error (.valueError "a negative taker rate would understate the close")
      else
        let unrealized := sideSign position.side * position.openQty * (mark - position.entryVwap)
        let estimated := (position.unlisted.filterMap (·.estimate position.side)).sum
        let exitFee := position.openQty * mark * takerRate
        .ok
          { loss := -realizedClosed - position.realizedOpenParts - unrealized + position.feesPaidOpen +
              position.fundingPaidOpen + estimated + exitFee
            lowerBound := true
            terms :=
              [("realized_closed", realizedClosed), ("realized_open_parts", position.realizedOpenParts),
                ("unrealized_at_mark", unrealized), ("fees_paid_open", position.feesPaidOpen),
                ("funding_paid_open", position.fundingPaidOpen), ("funding_unlisted_estimate", estimated),
                ("exit_fee_estimate", exitFee)]
            unknownSettlements :=
              (position.unlisted.filter fun u => u.estimate position.side = none).map (·.at_) }
    | _, _ => .error (.valueError "an open probe position needs a fresh mark and the taker rate")

structure FundingSettlement where
  at_ : Time
  rate : Option ℚ

inductive OpenStatus
  | unprovenTail
  | pending
  | incomplete
deriving DecidableEq

inductive OpenReason
  | quantityMismatch
deriving DecidableEq

inductive OpenError
  | stop (error : Reason)
  | alreadyClosed
  | fillAfterNow
  | noPositivePrice (execId : String)
  | quantities (quantity journal : ℚ)
deriving DecidableEq

structure OpenStop where
  status : OpenStatus
  error : OpenError

def Stop.open : Stop → OpenStop
  | .pending error => ⟨.pending, .stop error⟩
  | .incomplete error => ⟨.incomplete, .stop error⟩

structure OpenCostResult where
  status : OpenStatus
  error : Option OpenError := none
  position : Option ProbePosition := none
  publishedTo : Option Time := none
  reason : Option OpenReason := none
  observedQuantity : Option ℚ := none
deriving DecidableEq

variable {result : OpenCostResult}

def OpenCostResult.stopped (stop : OpenStop) (publishedTo : Option Time) : OpenCostResult :=
  { status := stop.status, error := some stop.error, publishedTo }

variable (facts : TradeFacts) (executions : List Execution)

def openFills (orders : String → Option OrderState)
    (neighbours : Neighbours) (now : Time) : Except OpenStop Fills := do
  raiseIf (facts.exitAt ≠ none) ⟨.incomplete, .alreadyClosed⟩
  let fills ← (checkedFills facts executions orders neighbours now true).mapError Stop.open
  raiseIf (∃ row ∈ fills.entryRows ++ fills.exitRows, now < row.executedAt) ⟨.pending, .fillAfterNow⟩
  (checkOrders facts (fills.entryRows ++ fills.exitRows) orders false).mapError Stop.open
  return fills

def Execution.isPriced (row : Execution) : Bool := (∃ price ∈ row.price, 0 < price) && 0 < row.quantity

def checkOpen (fills : Fills) (settlements : List FundingSettlement) (publishedTo : Option Time) (now : Time) :
    Except OpenStop Unit := do
  (fills.entryRows ++ fills.exitRows).forM fun row =>
    raiseIf (row.isPriced = false) ⟨.incomplete, .noPositivePrice row.execId⟩
  match publishedTo with
  | none => return
  | some published =>
    (checkPublished publishedTo (settlements.map (·.at_)) (firstEntry fills.entryRows now - boundary)
      published).mapError Stop.open

def latestPublished (settlements : List FundingSettlement) (publishedTo : Option Time) (now : Time) : Option Time :=
  (publishedTo.toList ++ (settlements.map (·.at_)).filter (· ≤ now)).max?

def openRates (settlements observed : List FundingSettlement) (publishedTo : Option Time) (now : Time) :
    List FundingSettlement :=
  let listed := settlements.filter (·.at_ ≤ now)
  let announced := observed.filter fun s =>
    s.at_ ≤ now ∧ ((∀ published ∈ publishedTo, published < s.at_) ∨ s.at_ ∈ listed.map (·.at_))
  announced ++ listed

def rateAt (rates : List FundingSettlement) (at_ : Time) : Option ℚ :=
  (rates.reverse.find? (·.at_ = at_)).bind (·.rate)

def openFundingInputs (executions : List Execution) (neighbours : Neighbours) (now : Time) (fills : Fills) :
    FundingInputs :=
  { fundingInputs executions neighbours now fills with collect := true }

def openFunding (executions : List Execution) (neighbours : Neighbours) (now : Time) (fills : Fills)
    (rates : List FundingSettlement) : Except OpenStop (List Execution × List Time) :=
  (matchFunding (openFundingInputs executions neighbours now fills) (rates.map (·.at_))
    (firstEntry fills.entryRows now) now).mapError Stop.open

def Execution.probeFill? (row : Execution) : Option ProbeFill := row.price.map (ProbeFill.mk row.quantity)

def openPosition (facts : TradeFacts) (fills : Fills) (rates : List FundingSettlement)
    (marks : Time → Option ℚ) (funding : List Execution) (missing : List Time) : Except Exn ProbePosition := do
  let vwap ← entryVwap (fills.entryRows.filterMap (·.probeFill?))
  return {
    side := facts.side
    entryVwap := vwap
    openQty := sumQuantity fills.entryRows - sumQuantity fills.exitRows
    realizedOpenParts := Costs.realizedOpenParts facts.side vwap (fills.exitRows.filterMap (·.probeFill?))
    feesPaidOpen := ((fills.entryRows ++ fills.exitRows).map cost).sum
    fundingPaidOpen := (funding.map cost).sum
    unlisted := missing.map fun at_ =>
      ⟨at_, rateAt rates at_, some (maxQuantity (heldQuantities fills.entryRows fills.exitRows at_)), marks at_⟩ }

def collectOpen (settlements : List FundingSettlement)
    (orders : String → Option OrderState) (neighbours : Neighbours) (journalQuantity : ℚ)
    (publishedTo : Option Time) (observed : List FundingSettlement) (marks : Time → Option ℚ) (now : Time) :
    Except Exn OpenCostResult :=
  match openFills facts executions orders neighbours now with
  | .error stop => .ok (.stopped stop publishedTo)
  | .ok fills =>
    let quantity := sumQuantity fills.entryRows - sumQuantity fills.exitRows
    if quantity ≤ 0 ∨ quantity ≠ journalQuantity then
      .ok
        { status := .incomplete, error := some (.quantities quantity journalQuantity), publishedTo
          reason := some .quantityMismatch, observedQuantity := some quantity }
    else
      match checkOpen fills settlements publishedTo now with
      | .error stop => .ok (.stopped stop publishedTo)
      | .ok _ =>
        let publishedTo := latestPublished settlements publishedTo now
        let rates := openRates settlements observed publishedTo now
        match openFunding executions neighbours now fills rates with
        | .error stop => .ok (.stopped stop publishedTo)
        | .ok (funding, missing) => do
          let position ← openPosition facts fills rates marks funding missing
          return { status := .unprovenTail, position := some position, publishedTo }

def openCounted (settlements : List FundingSettlement)
    (orders : String → Option OrderState) (neighbours : Neighbours) (publishedTo : Option Time)
    (observed : List FundingSettlement) (now : Time) : List Execution :=
  match openFills facts executions orders neighbours now with
  | .error _ => []
  | .ok fills =>
    let published := latestPublished settlements publishedTo now
    match openFunding executions neighbours now fills (openRates settlements observed published now) with
    | .error _ => []
    | .ok (funding, _) => funding

section

variable {facts : TradeFacts} {executions : List Execution} {settlements observed : List FundingSettlement}
  {orders : String → Option OrderState} {neighbours : Neighbours} {journalQuantity : ℚ}
  {publishedTo : Option Time} {marks : Time → Option ℚ} {now : Time}

/-- The trade's own fills of one role: the entry's (`true`) or the exit's. -/
def TradeFacts.fills (facts : TradeFacts) (entry : Bool) (executions : List Execution) : List Execution :=
  executions.filter fun row => row.execType = .trade ∧ facts.owns row = true ∧ facts.isEntry row = entry

variable (facts) (executions)

structure Collected (position : ProbePosition) (funding : List Execution) where
  entryRows : List Execution
  exitRows : List Execution
  vwap : ℚ
  entry : entryRows = facts.fills true executions
  exit : exitRows = facts.fills false executions
  priced : ∀ row ∈ entryRows ++ exitRows, row.isPriced = true
  averaged : entryVwap (entryRows.filterMap (·.probeFill?)) = .ok vwap
  openPositive : 0 < position.openQty
  side : position.side = facts.side
  entryVwap_eq : position.entryVwap = vwap
  openQty : position.openQty = sumQuantity entryRows - sumQuantity exitRows
  realized : position.realizedOpenParts =
    Costs.realizedOpenParts facts.side vwap (exitRows.filterMap (·.probeFill?))
  fees : position.feesPaidOpen = ((entryRows ++ exitRows).map cost).sum
  fundingPaid : position.fundingPaidOpen = (funding.map cost).sum

theorem partition_roles (neighbours : Neighbours) :
    (partition facts executions neighbours).owned.filter facts.isEntry = facts.fills true executions ∧
      ((partition facts executions neighbours).owned.filter fun row => facts.isEntry row = false) =
        facts.fills false executions := by
  simp only [partition, filter_filter, ownerOf_owned, TradeFacts.fills]
  constructor
  · refine filter_congr fun row _ => ?_
    cases facts.isEntry row <;> simp
  · refine filter_congr fun row _ => ?_
    cases facts.isEntry row <;> simp

variable {facts} {executions}

theorem checkedFills_rows {fills : Fills} {openPosition : Bool}
    (h : checkedFills facts executions orders neighbours now openPosition = .ok fills) :
    fills.entryRows = (partition facts executions neighbours).owned.filter facts.isEntry ∧
      fills.exitRows = (partition facts executions neighbours).owned.filter fun row => facts.isEntry row = false := by
  simp only [checkedFills, bind_ok] at h
  obtain ⟨_, -, _, -, _, -, _, -, _, -, _, -, _, -, _, -, hret⟩ := h
  obtain rfl := pure_ok.1 hret
  exact ⟨rfl, rfl⟩

theorem collectOpen_position
    (h : collectOpen facts executions settlements orders neighbours journalQuantity publishedTo observed marks
      now = .ok result) (hps : result.position = some position) : Nonempty (Collected facts executions position
      (openCounted facts executions settlements orders neighbours publishedTo observed now)) := by
  unfold collectOpen at h
  unfold openCounted
  split at h
  · cases h
    cases hps
  · rename_i fills hfl
    dsimp only at h
    split at h
    · cases h
      cases hps
    · rename_i hqn
      split at h
      · cases h
        cases hps
      · rename_i hop
        split at h
        · cases h
          cases hps
        · rename_i funding missing hfn
          dsimp only
          rw [hfn]
          rw [Except.bind_ok] at h
          obtain ⟨found, hfo, hret⟩ := h
          obtain rfl := Except.pure_ok.1 hret
          cases hps
          simp only [openFills, Except.bind_ok, Except.mapError_ok] at hfl
          obtain ⟨_, -, fills', hch, _, -, _, -, hret⟩ := hfl
          obtain rfl := Except.pure_ok.1 hret
          obtain ⟨het, hexit⟩ := checkedFills_rows hch
          obtain ⟨hen, hexi⟩ := partition_roles facts executions neighbours
          simp only [checkOpen, Except.bind_ok, Except.forM_ok, Except.raiseIf_ok] at hop
          obtain ⟨_, hpr, -⟩ := hop
          simp only [openPosition, Except.bind_ok, Except.pure_ok] at hfo
          obtain ⟨vwap, hvw, rfl⟩ := hfo
          rw [not_or, not_le] at hqn
          exact ⟨⟨fills'.entryRows, fills'.exitRows, vwap, het.trans hen, hexit.trans hexi,
            fun row hrow => by simpa using hpr row hrow, hvw, hqn.1, rfl, rfl, rfl, rfl, rfl, rfl⟩⟩

end

def Execution.Valued (row : Execution) : Prop :=
  ∃ price, row.price = some price ∧ row.value = some (row.quantity * price)

theorem sum_probeFill (h : ∀ row ∈ rows, row.Valued) (vwap : ℚ) :
    ((rows.filterMap (·.probeFill?)).map (·.quantity)).sum = sumQuantity rows ∧
      ((rows.filterMap (·.probeFill?)).map fun f => f.quantity * f.price).sum =
        (rows.map fun row => row.value.getD 0).sum ∧
      ((rows.filterMap (·.probeFill?)).map fun f => f.quantity * (f.price - vwap)).sum =
        (rows.map fun row => row.value.getD 0).sum - sumQuantity rows * vwap := by
  induction rows with
  | nil => simp [sumQuantity]
  | cons row rows ih =>
    obtain ⟨price, hpc, hvl⟩ := h row mem_cons_self
    obtain ⟨hqn, hsum, hpa⟩ := ih fun r hr => h r (mem_cons_of_mem row hr)
    have hfi : row.probeFill? = some ⟨row.quantity, price⟩ := by
      rw [Execution.probeFill?, hpc]
      rfl
    have hcn : sumQuantity (row :: rows) = row.quantity + sumQuantity rows := by
      simp [sumQuantity]
    rw [filterMap_cons_some hfi]
    simp only [map_cons, sum_cons]
    rw [hqn, hsum, hpa, hvl, hcn]
    refine ⟨rfl, rfl, ?_⟩
    rw [Option.getD_some]
    ring

theorem entryVwap_mul (h : ∀ row ∈ rows, row.Valued) {vwap : ℚ}
    (hvw : entryVwap (rows.filterMap (·.probeFill?)) = .ok vwap) :
    sumQuantity rows * vwap = (rows.map fun row => row.value.getD 0).sum := by
  obtain ⟨hqn, hsum, -⟩ := sum_probeFill h 0
  simp only [entryVwap, hqn, hsum] at hvw
  split at hvw
  · cases hvw
  · rename_i hpos
    cases hvw
    rw [not_le] at hpos
    exact mul_div_cancel₀ _ hpos.ne'

theorem gross_eq (side : Side) (exitValue mark : ℚ) {entryQty exitQty entryValue vwap openQty : ℚ}
    (hvw : entryQty * vwap = entryValue) (hop : openQty = entryQty - exitQty) :
    sideSign side * (exitValue - exitQty * vwap) + sideSign side * openQty * (mark - vwap) =
      grossOf side entryValue (exitValue + openQty * mark) := by
  subst hvw hop
  cases side <;> simp only [sideSign, grossOf] <;> ring

theorem probeLoss_listed (hop : 0 < position.openQty)
    (hls : position.unlisted = []) {takerRate : ℚ} (hrt : 0 ≤ takerRate) (realizedClosed mark : ℚ) :
    ∃ loss, probeLoss realizedClosed (some position) (some mark) (some takerRate) = .ok loss ∧
      loss.loss = -realizedClosed -
        (position.realizedOpenParts + sideSign position.side * position.openQty * (mark - position.entryVwap)) +
        (position.feesPaidOpen + position.openQty * mark * takerRate) + position.fundingPaidOpen := by
  unfold probeLoss
  dsimp only
  rw [if_neg (not_le.2 hop), if_neg (not_lt.2 hrt)]
  refine ⟨_, rfl, ?_⟩
  rw [hls, filterMap_nil, sum_nil]
  ring

structure ClosedBy (facts closed : TradeFacts) (executions : List Execution) (fill : Execution) : Prop where
  side : closed.side = facts.side
  rows : ∀ row ∈ executions, closed.owns row = facts.owns row ∧ closed.isEntry row = facts.isEntry row
  own : closed.owns fill = true
  exit : closed.isEntry fill = false

structure ClosesAt (fill : Execution) (openQty mark takerRate : ℚ) : Prop where
  execType : fill.execType = .trade
  quantity : fill.quantity = openQty
  value : fill.value = some (openQty * mark)
  fee : fill.fee = openQty * mark * takerRate

section

variable {facts closed : TradeFacts} {executions extended : List Execution} {fill : Execution}

theorem ClosedBy.rows_perm (h : ClosedBy facts closed executions fill) (hty : fill.execType = .trade)
    (hext : extended.Perm (executions ++ [fill])) :
    (closed.fills true extended).Perm (facts.fills true executions) ∧
      (closed.fills false extended).Perm (facts.fills false executions ++ [fill]) := by
  unfold TradeFacts.fills
  constructor
  · refine (hext.filter _).trans (.of_eq ?_)
    rw [filter_append, filter_singleton]
    simp only [h.exit, Bool.false_eq_true, and_false, decide_false, cond_false, append_nil]
    refine filter_congr fun row hrow => ?_
    rw [(h.rows row hrow).1, (h.rows row hrow).2]
  · refine (hext.filter _).trans (.of_eq ?_)
    rw [filter_append, filter_singleton]
    simp only [h.exit, h.own, hty, and_self, decide_true, cond_true]
    congr 1
    refine filter_congr fun row hrow => ?_
    rw [(h.rows row hrow).1, (h.rows row hrow).2]

/-- **The open loss is the loss of the settled close**, when the remainder is closed at the mark for the taker's fee
and the closed trade settles with the same funding rows. -/
theorem probeLoss_eq_settled {settlements observed : List FundingSettlement}
    {orders : String → Option OrderState} {neighbours : Neighbours} {journalQuantity : ℚ}
    {publishedTo : Option Time} {marks : Time → Option ℚ} {now : Time} {result : OpenCostResult}
    {position : ProbePosition}
    (hcollect : collectOpen facts executions settlements orders neighbours journalQuantity publishedTo observed
      marks now = .ok result)
    (hposition : result.position = some position) (hlisted : position.unlisted = [])
    (hvalued : ∀ row ∈ executions, row.execType = .trade → facts.owns row = true → row.Valued)
    {mark takerRate : ℚ} (hrate : 0 ≤ takerRate) (hfill : ClosesAt fill position.openQty mark takerRate)
    (hclosed : ClosedBy facts closed executions fill) (hext : extended.Perm (executions ++ [fill]))
    {settlementsC : List Time} {ordersC : String → Option OrderState} {neighboursC : Neighbours}
    {publishedC : Option Time} {nowC : Time}
    (hcomplete : (settle closed extended settlementsC ordersC neighboursC publishedC nowC false).status = .complete)
    (hfunding : ((settle closed extended settlementsC ordersC neighboursC publishedC nowC false).rowsOf .funding).Perm
      (openCounted facts executions settlements orders neighbours publishedTo observed now))
    (realizedClosed : ℚ) :
    ∃ loss net, probeLoss realizedClosed (some position) (some mark) (some takerRate) = .ok loss ∧
      (settle closed extended settlementsC ordersC neighboursC publishedC nowC false).netPnlUsd = some net ∧
      loss.loss = -(realizedClosed + net) := by
  obtain ⟨c⟩ := collectOpen_position hcollect hposition
  obtain ⟨fills, counted, hC⟩ := settle_complete hcomplete
  rw [hC.fundingRows] at hfunding
  generalize settle closed extended settlementsC ordersC neighboursC publishedC nowC false = settled at hC
  -- the rows of the settled trade are those of the open one and the closing fill
  obtain ⟨hentry, hexit⟩ := hclosed.rows_perm hfill.execType hext
  obtain ⟨hentries, hexits⟩ := partition_roles closed extended neighboursC
  rw [← hentries, ← hC.checked.entry, ← c.entry] at hentry
  rw [← hexits, ← hC.checked.exit, ← c.exit] at hexit
  have hrows : ∀ row ∈ c.entryRows ++ c.exitRows, row.Valued := by
    intro row hrow
    rw [c.entry, c.exit, mem_append, TradeFacts.fills, TradeFacts.fills, mem_filter, mem_filter] at hrow
    simp only [decide_eq_true_eq] at hrow
    rcases hrow with ⟨hmem, htype, howns, -⟩ | ⟨hmem, htype, howns, -⟩ <;> exact hvalued row hmem htype howns
  -- its three figures, in terms of the open position
  have hfees : settled.feesUsd = some (position.feesPaidOpen + position.openQty * mark * takerRate) := by
    rw [hC.fees, c.fees, ((hentry.append hexit).map cost).sum_eq]
    simp only [map_append, sum_append, map_singleton, sum_singleton, cost, hfill.fee]
    rw [add_assoc]
  have hpaid : settled.fundingUsd = some position.fundingPaidOpen := by
    rw [hC.fundingUsd, c.fundingPaid, (hfunding.map cost).sum_eq]
  obtain ⟨entryValue, exitValue, hev, hxv, hgross⟩ := hC.gross
  obtain ⟨v, hv, hvsum⟩ := hC.entryValue
  obtain ⟨x, hx, hxsum⟩ := hC.exitValue
  obtain rfl : entryValue = v := Option.some.inj (hev.symm.trans hv)
  obtain rfl : exitValue = x := Option.some.inj (hxv.symm.trans hx)
  have hentryValue : entryValue = (c.entryRows.map fun row => row.value.getD 0).sum := by
    rw [(sumValue_ok hvsum).2, (hentry.map _).sum_eq]
  have hexitValue : exitValue = (c.exitRows.map fun row => row.value.getD 0).sum + position.openQty * mark := by
    rw [(sumValue_ok hxsum).2, (hexit.map _).sum_eq]
    simp only [map_append, sum_append, map_singleton, sum_singleton, hfill.value,
      Option.getD_some]
  have hparts := (sum_probeFill (fun row hr => hrows row (mem_append_right _ hr)) c.vwap).2.2
  have hvwap := entryVwap_mul (fun row hr => hrows row (mem_append_left _ hr)) c.averaged
  have hsides := gross_eq facts.side (c.exitRows.map fun row => row.value.getD 0).sum mark hvwap c.openQty
  rw [← hexitValue, ← hentryValue] at hsides
  obtain ⟨loss, hloss, hsum⟩ := probeLoss_listed c.openPositive hlisted hrate realizedClosed mark
  refine ⟨loss, grossOf facts.side entryValue exitValue -
    (position.feesPaidOpen + position.openQty * mark * takerRate) - position.fundingPaidOpen, hloss, ?_, ?_⟩
  · rw [CostResult.netPnlUsd, hgross, hfees, hpaid, hclosed.side]
  · rw [hsum, c.realized, c.side, c.entryVwap_eq, Costs.realizedOpenParts, hparts, hsides]
    ring

end

def openFacts : TradeFacts := { sampleFacts with exitAt := none }

def openExecutions : List Execution :=
  sampleExecutions.take 2 ++
    [⟨"x3", .trade, some "o2", some "e1s1", some "Sell", 1, some 11, some 11, 1 / 200, none, seconds 5000⟩]

def openOrders (orderId : String) : Option OrderState :=
  if orderId = "o1" then some ⟨true, some 2⟩ else if orderId ∈ ["o2", "o3"] then some ⟨true, some 1⟩ else none

def samplePosition : ProbePosition :=
  { side := .long, entryVwap := 10, openQty := 1, realizedOpenParts := 1, feesPaidOpen := 3 / 200
    fundingPaidOpen := 1 / 50, unlisted := [] }

def closingFill : Execution :=
  ⟨"x4", .trade, some "o3", some "e1c1", some "Sell", 1, some 12, some 12, 12 / 1000, none, seconds 7200⟩

theorem samplePosition_loss :
    ∃ loss net, probeLoss 5 (some samplePosition) (some 12) (some (1 / 1000)) = .ok loss ∧
      (settle sampleFacts (openExecutions ++ [closingFill]) sampleSettlements openOrders sampleNeighbours
        (some (seconds 28800)) (seconds 30000) false).netPnlUsd = some net ∧ loss.loss = -(5 + net) := by
  have hcollect : collectOpen openFacts openExecutions [⟨seconds 3600, none⟩] openOrders sampleNeighbours 1
      (some (seconds 3600)) [] (fun _ => none) (seconds 7000) =
      .ok { status := .unprovenTail, position := some samplePosition, publishedTo := some (seconds 3600) } := by
    decide +kernel
  refine probeLoss_eq_settled hcollect rfl rfl ?_ (by norm_num) ⟨rfl, rfl, ?_, ?_⟩
    ⟨rfl, by decide, by decide, by decide⟩ (.refl _) (by decide +kernel) ?_ 5
  · intro row hrow
    fin_cases hrow
    · exact fun _ _ => ⟨10, rfl, by decide +kernel⟩
    · exact fun htype => absurd htype (by decide)
    · exact fun _ _ => ⟨11, rfl, by decide +kernel⟩
  · decide +kernel
  · decide +kernel
  · decide +kernel

end Schurfer.Costs
