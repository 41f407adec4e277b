import Schurfer.Costs.Conservation

/-!
# Funding completeness

A funding row is accepted when its quantity is one the position had around the settlement. The code signs the fills
near it by execution id, so a prefix of them is the position's own only when no two executions share an id.
-/

namespace Schurfer.Costs

open List

variable {row : Execution} {fills : List Execution}

section

variable {facts : TradeFacts} {entries exits : List Execution} {at_ : Time}

def heldThrough (facts : TradeFacts) (entries exits : List Execution) (at_ : Time) (fills : List Execution) : ℚ :=
  heldBefore entries exits (at_ - boundary) + sumQuantity (fills.filter facts.isEntry) -
    sumQuantity (fills.filter fun row => facts.isEntry row = false)

theorem mem_heldAfter {held q : ℚ} (h : q ∈ heldAfter entries held fills) :
    ∃ taken, taken <+: fills ∧ q = held + (taken.map (signedQuantity entries)).sum := by
  induction fills generalizing held with
  | nil =>
    simp only [heldAfter, mem_singleton] at h
    exact ⟨[], prefix_rfl, by simp [h]⟩
  | cons row fills ih =>
    simp only [heldAfter, mem_cons] at h
    rcases h with rfl | h
    · exact ⟨[], nil_prefix, by simp⟩
    · obtain ⟨taken, hpre, rfl⟩ := ih h
      refine ⟨row :: taken, (prefix_cons_inj row).2 hpre, ?_⟩
      rw [map_cons, sum_cons]
      ring

def SignedByRole (facts : TradeFacts) (entries : List Execution) (row : Execution) : Prop :=
  signedQuantity entries row = if facts.isEntry row then row.quantity else -row.quantity

theorem sum_signedQuantity (h : ∀ row ∈ fills, SignedByRole facts entries row) :
    (fills.map (signedQuantity entries)).sum = sumQuantity (fills.filter facts.isEntry) -
      sumQuantity (fills.filter fun row => facts.isEntry row = false) := by
  induction fills with
  | nil => simp [sumQuantity]
  | cons row fills ih =>
    have hrow := h row mem_cons_self
    have hrs := ih fun r hr => h r (mem_cons_of_mem row hr)
    rw [map_cons, sum_cons, hrow, hrs]
    cases hen : facts.isEntry row
    · simp [hen, sumQuantity]
      ring
    · simp [hen, sumQuantity]
      ring

theorem mem_nearFills : row ∈ nearFills entries exits at_ ↔
      (row ∈ entries ∨ row ∈ exits) ∧ isNear boundary row.executedAt at_ = true := by
  unfold nearFills
  rw [mem_insertionSort, mem_filter, mem_append]

theorem mem_heldQuantities {q : ℚ} (hrl : ∀ row, row ∈ entries ∨ row ∈ exits → SignedByRole facts entries row)
    (h : q ∈ heldQuantities entries exits at_) :
    ∃ taken, taken <+: nearFills entries exits at_ ∧ q = heldThrough facts entries exits at_ taken := by
  obtain ⟨taken, hpre, rfl⟩ := mem_heldAfter h
  refine ⟨taken, hpre, ?_⟩
  have hsg : ∀ row ∈ taken, SignedByRole facts entries row := by
    intro row hrow
    exact hrl row (mem_nearFills.1 (hpre.subset hrow)).1
  unfold heldThrough
  rw [sum_signedQuantity hsg]
  ring

end

theorem checkSingleOwner_ok {at_ : Time} {foreignRows : List Execution} {neighbours : Neighbours}
    {u : Unit} (h : checkSingleOwner at_ foreignRows neighbours = .ok u) :
    (∀ interval ∈ neighbours.intervals, overlaps interval at_ = false) ∧
      ∀ row ∈ foreignRows, isNear boundary row.executedAt at_ = false := by
  simp only [checkSingleOwner, Except.bind_ok, Except.forM_ok, Except.raiseIf_ok, Bool.not_eq_true] at h
  obtain ⟨-, hit, hrw⟩ := h
  exact ⟨hit, hrw⟩

section

variable {facts : TradeFacts} {executions counted : List Execution} {settlements : List Time}
  {orders : String → Option OrderState} {neighbours : Neighbours} {publishedTo : Option Time} {now : Time}
  {result : CostResult} {fills : Fills}

section

variable (h : Completed facts executions settlements orders neighbours publishedTo now result fills counted) {s : Time}

include h

theorem Completed.signedByRole (hids : (executions.map (·.execId)).Nodup)
    (hrow : row ∈ fills.entryRows ∨ row ∈ fills.exitRows) : SignedByRole facts fills.entryRows row := by
  have hmem : ∀ r, r ∈ fills.entryRows ∨ r ∈ fills.exitRows → r ∈ executions := by
    intro r hr
    exact (h.trade_mem (by rw [h.tradeRows, mem_append]; exact hr)).1
  have het : ∀ r ∈ fills.entryRows, facts.isEntry r = true := by
    intro r hr
    rw [h.checked.entry] at hr
    exact (mem_filter.1 hr).2
  unfold SignedByRole signedQuantity
  rcases hrow with hrow | hrow
  · rw [if_pos (mem_map_of_mem hrow), if_pos (het row hrow)]
  · have hext : facts.isEntry row = false := by
      rw [h.checked.exit] at hrow
      exact of_decide_eq_true (mem_filter.1 hrow).2
    have hnot : row.execId ∉ fills.entryRows.map (·.execId) := by
      intro hin
      obtain ⟨e, he, heq⟩ := mem_map.1 hin
      -- the entry with this id would be the exit itself
      have hsame := inj_on_of_nodup_map hids (hmem e (.inl he)) (hmem row (.inr hrow)) heq
      have hen := het e he
      rw [hsame, hext] at hen
      exact Bool.false_ne_true hen
    rw [if_neg hnot, hext]
    rfl

/-- The times from 5 s before an entry of the trade to 5 s after an exit. -/
def Window (entryRows exitRows : List Execution) (t : ℤ) : Prop :=
  (∃ e ∈ entryRows, e.executedAt - boundary ≤ t) ∧ ∃ x ∈ exitRows, t ≤ x.executedAt + boundary

instance (entryRows exitRows : List Execution) (t : ℤ) : Decidable (Window entryRows exitRows t) :=
  inferInstanceAs (Decidable ((∃ e ∈ entryRows, e.executedAt - boundary ≤ t) ∧
    ∃ x ∈ exitRows, t ≤ x.executedAt + boundary))

theorem Completed.window {t : ℤ} (ht : Window fills.entryRows fills.exitRows t) :
    firstEntry fills.entryRows now - boundary ≤ t ∧ t ≤ lastExit fills.exitRows now false + boundary := by
  obtain ⟨⟨e, he, hle⟩, x, hx, hge⟩ := ht
  have hfi : firstEntry fills.entryRows now ≤ e.executedAt :=
    (firstEntry_spec h.checked.nonempty now).2 e he
  have hlast : x.executedAt ≤ lastExit fills.exitRows now false :=
    (lastExit_spec h.checked.exits_nonempty now).2 x hx
  exact ⟨(sub_le_sub_right hfi boundary).trans hle, hge.trans (add_le_add_left hlast boundary)⟩

theorem Completed.quiet (hsep : Separated settlements) (hs : s ∈ settlements)
    (hw : Window fills.entryRows fills.exitRows s)
    (hnr : ∀ fill ∈ fills.entryRows ++ fills.exitRows, isNear boundary fill.executedAt s = false) :
    (heldBefore fills.entryRows fills.exitRows s = 0 ∧
      ∀ row ∈ counted, isNear fundingRowMatch row.executedAt s = false) ∨
    ∃ row, (fundingInputs executions neighbours now fills).rowsAt s = [row] ∧ row ∈ counted ∧
      row.quantity = heldBefore fills.entryRows fills.exitRows s := by
  have hch := mem_checkedSettlements.2 ⟨hs, h.window hw⟩
  obtain ⟨f, hf, hco⟩ := h.funding.decided hch
  have hno : (fundingInputs executions neighbours now fills).fillsAt s = [] := by
    refine filter_eq_nil_iff.2 fun fill hfl => ?_
    rw [hnr fill hfl]
    exact Bool.false_ne_true
  rcases fundingAt_ok rfl hf with ⟨rfl, -, hhl⟩ | ⟨row, rfl, hrw, -, hqn, -⟩
  · refine .inl ⟨hhl, fun row hrow => ?_⟩
    by_contra hn
    rw [Bool.not_eq_false] at hn
    obtain ⟨t, ht, hcn, hrw⟩ := h.funding.of_mem rfl hrow
    -- a row counted near this settlement was counted for it, and nothing was
    have hst := hsep.eq_of_near hs (mem_checkedSettlements.1 ht).1 hn (rowsAt_near hrw).2
    rw [← hst, hf] at hcn
    simp at hcn
  · exact .inr ⟨row, hrw, hco row rfl, hqn hno⟩

theorem Completed.boundary (hids : (executions.map (·.execId)).Nodup) (hs : s ∈ settlements)
    (hw : Window fills.entryRows fills.exitRows s) {fill : Execution}
    (hfl : fill ∈ fills.entryRows ++ fills.exitRows) (hnr : isNear boundary fill.executedAt s = true) :
    ∃ row, (fundingInputs executions neighbours now fills).rowsAt s = [row] ∧ row ∈ counted ∧
      row.quantity ≠ 0 ∧ ∃ taken, taken <+: nearFills fills.entryRows fills.exitRows s ∧
        row.quantity = heldThrough facts fills.entryRows fills.exitRows s taken := by
  have hch := mem_checkedSettlements.2 ⟨hs, h.window hw⟩
  obtain ⟨f, hf, hco⟩ := h.funding.decided hch
  have hsm : (fundingInputs executions neighbours now fills).fillsAt s ≠ [] :=
    ne_nil_of_mem (mem_filter.2 ⟨hfl, hnr⟩)
  rcases fundingAt_ok rfl hf with ⟨-, hnn, -⟩ | ⟨row, rfl, hrw, -, -, hqn⟩
  · exact absurd hnn hsm
  · obtain ⟨hne, hstt⟩ := hqn hsm
    exact ⟨row, hrw, hco row rfl, hne, mem_heldQuantities (fun r hr => h.signedByRole hids hr) hstt⟩

theorem Completed.owner (hrow : row ∈ counted) : ∃ s ∈ settlements, isNear fundingRowMatch row.executedAt s = true ∧
      (∀ interval ∈ neighbours.intervals, overlaps interval s = false) ∧
      ∀ fill ∈ executions, fill.execType = .trade → facts.owns fill = false →
        isNear Costs.boundary fill.executedAt s = false := by
  obtain ⟨s, hs, hf, hrw⟩ := h.funding.of_mem rfl hrow
  rcases fundingAt_ok rfl hf with ⟨hnn, -⟩ | ⟨row', -, -, howner, -⟩
  · simp at hnn
  obtain ⟨hit, hfr⟩ := checkSingleOwner_ok howner
  refine ⟨s, (mem_checkedSettlements.1 hs).1, (rowsAt_near hrw).2, hit, ?_⟩
  intro fill hfl hty hon
  refine hfr fill ?_
  -- a fill that is not ours is a neighbour's or unknown
  change fill ∈ fills.others ++ fills.unknown
  rw [h.checked.others, h.checked.unknown, mem_append]
  cases hn : neighbours.owns fill
  · exact .inr (mem_filter.2 ⟨hfl, decide_eq_true (ownerOf_unknown.2 ⟨hty, hon, hn⟩)⟩)
  · exact .inl (mem_filter.2 ⟨hfl, decide_eq_true (ownerOf_others.2 ⟨hty, hon, hn⟩)⟩)

end

def fundingNear (executions : List Execution) (s : Time) : List Execution :=
  executions.filter fun row => row.execType = .funding ∧ isNear fundingRowMatch row.executedAt s = true

theorem fundingNear_eq (fills : Fills) (s : Time) :
    fundingNear executions s = (fundingInputs executions neighbours now fills).rowsAt s := by
  unfold fundingNear FundingInputs.rowsAt fundingInputs
  rw [filter_filter]
  refine filter_congr fun row _ => ?_
  rw [Bool.decide_and, Bool.decide_eq_true, Bool.and_comm]

/-- **Funding completeness.** Whenever the settlement of a closed trade is complete and no two executions share an id,
every listed settlement of the window is decided: nothing was held and nothing is counted, or its single funding row is
counted for a quantity the trade held around it. -/
theorem settle_funding_complete (hids : (executions.map (·.execId)).Nodup) (hsep : Separated settlements)
    (hc : (settle facts executions settlements orders neighbours publishedTo now false).status = .complete) :
    let r := settle facts executions settlements orders neighbours publishedTo now false
    let entryRows := (r.rowsOf .trade).filter facts.isEntry
    let exitRows := (r.rowsOf .trade).filter fun row => facts.isEntry row = false
    let counted := r.rowsOf .funding
    (∀ s ∈ settlements, Window entryRows exitRows s →
      (∀ fill ∈ r.rowsOf .trade, isNear Costs.boundary fill.executedAt s = false) →
      (heldBefore entryRows exitRows s = 0 ∧
        ∀ row ∈ counted, isNear fundingRowMatch row.executedAt s = false) ∨
      ∃ row, fundingNear executions s = [row] ∧ row ∈ counted ∧
        row.quantity = heldBefore entryRows exitRows s) ∧
    (∀ s ∈ settlements, Window entryRows exitRows s →
      (∃ fill ∈ r.rowsOf .trade, isNear Costs.boundary fill.executedAt s = true) →
      ∃ row, fundingNear executions s = [row] ∧ row ∈ counted ∧ row.quantity ≠ 0 ∧
        ∃ taken, taken <+: nearFills entryRows exitRows s ∧
          row.quantity = heldThrough facts entryRows exitRows s taken) ∧
    (∀ row ∈ executions, row.execType = .funding → Window entryRows exitRows row.executedAt →
      ∃ s ∈ settlements, isNear fundingRowMatch row.executedAt s = true) ∧
    ∀ row ∈ counted, ∃ s ∈ settlements, isNear fundingRowMatch row.executedAt s = true ∧
      (∀ interval ∈ neighbours.intervals, overlaps interval s = false) ∧
      ∀ fill ∈ executions, fill.execType = .trade → facts.owns fill = false →
        isNear Costs.boundary fill.executedAt s = false := by
  intro r entryRows exitRows counted
  obtain ⟨fills, rows, h⟩ := settle_complete hc
  have hentry : entryRows = fills.entryRows := h.entryRows
  have hexit : exitRows = fills.exitRows := h.exitRows
  have hcounted : counted = rows := h.fundingRows
  have htrade : r.rowsOf .trade = fills.entryRows ++ fills.exitRows := h.tradeRows
  rw [hentry, hexit, hcounted, htrade]
  refine ⟨?_, ?_, ?_, fun row hrow => h.owner hrow⟩
  · intro s hs hw hnear
    rw [fundingNear_eq fills s]
    exact h.quiet hsep hs hw hnear
  · rintro s hs hw ⟨fill, hfill, hnear⟩
    rw [fundingNear_eq fills s]
    exact h.boundary hids hs hw hfill hnear
  · intro row hrow htype hw
    obtain ⟨hfirst, hlast⟩ := h.window hw
    obtain ⟨s, hs, hnear⟩ := h.funding.matched row
      (mem_filter.2 ⟨hrow, decide_eq_true htype⟩) hfirst hlast
    exact ⟨s, (mem_checkedSettlements.1 hs).1, hnear⟩

end

theorem sampleResult_funding :
    ∃ row, fundingNear sampleExecutions (seconds 3600) = [row] ∧ row ∈ sampleResult.rowsOf .funding := by
  have hids : (sampleExecutions.map (·.execId)).Nodup := by decide
  have hsep : Separated sampleSettlements := by decide
  have hc : sampleResult.status = .complete := by decide +kernel
  obtain ⟨hquiet, -, -, -⟩ := settle_funding_complete hids hsep hc
  have hheld := hquiet (seconds 3600) (by decide) (by decide +kernel) (by decide +kernel)
  rcases hheld with ⟨hzero, -⟩ | ⟨row, hrow, hmem, -⟩
  · exact absurd hzero (by decide +kernel)
  · exact ⟨row, hrow, hmem⟩

def sharedIdExecutions : List Execution :=
  sampleExecutions.take 1 ++
    [⟨"x2", .funding, none, none, some "Sell", 4, some 10, some 40, 1 / 25, some usdt, seconds 3600⟩,
      ⟨"x1", .trade, some "o2", some "e1s1", some "Sell", 2, some 11, some 22, 1 / 100, none, seconds 3602⟩]

def sharedIdResult : CostResult :=
  settle sampleFacts sharedIdExecutions sampleSettlements sampleOrders sampleNeighbours
    (some (seconds 28800)) (seconds 30000) false

/-- Without distinct ids the exit is added to the position, and funding for four contracts is
counted on a position that never held more than two. -/
theorem sharedId_overcounts :
    Separated sampleSettlements ∧ sharedIdResult.status = .complete ∧
    let entryRows := (sharedIdResult.rowsOf .trade).filter sampleFacts.isEntry
    let exitRows := (sharedIdResult.rowsOf .trade).filter fun row => sampleFacts.isEntry row = false
    Window entryRows exitRows (seconds 3600) ∧ seconds 3600 ∈ sampleSettlements ∧
    (∃ fill ∈ sharedIdResult.rowsOf .trade, isNear boundary fill.executedAt (seconds 3600) = true) ∧
    (sharedIdResult.rowsOf .funding).map (·.quantity) = [4] ∧
    ∀ row ∈ sharedIdResult.rowsOf .funding, ∀ taken, taken <+: nearFills entryRows exitRows (seconds 3600) →
      row.quantity ≠ heldThrough sampleFacts entryRows exitRows (seconds 3600) taken := by
  refine ⟨by decide, by decide +kernel, by decide +kernel, by decide, by decide +kernel,
    by decide +kernel, ?_⟩
  simp only [← mem_inits]
  decide +kernel

end Schurfer.Costs
