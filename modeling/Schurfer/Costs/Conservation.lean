import Schurfer.Costs.Settle

/-!
# Settlement conservation

What a complete settlement of a closed trade says about its rows: `FillsChecked` for the fills, `FundingChecked` for
the funding match.
-/

namespace Schurfer.Costs

open List Except

variable {row : Execution} {rows : List Execution} {settlements : List Time} {f : Funded} {orderId : String}

section

variable {facts : TradeFacts} {executions owned : List Execution} {orders : String → Option OrderState}
  {neighbours : Neighbours} {now : Time} {fills : Fills} {u : Unit}

theorem ownerOf_owned : ownerOf facts neighbours row = .owned ↔ row.execType = .trade ∧ facts.owns row = true := by
  unfold ownerOf
  cases row.execType <;> cases facts.owns row <;> cases neighbours.owns row <;> simp

theorem ownerOf_others : ownerOf facts neighbours row = .others ↔
      row.execType = .trade ∧ facts.owns row = false ∧ neighbours.owns row = true := by
  unfold ownerOf
  cases row.execType <;> cases facts.owns row <;> cases neighbours.owns row <;> simp

theorem ownerOf_unknown : ownerOf facts neighbours row = .unknown ↔
      row.execType = .trade ∧ facts.owns row = false ∧ neighbours.owns row = false := by
  unfold ownerOf
  cases row.execType <;> cases facts.owns row <;> cases neighbours.owns row <;> simp

theorem ownerOf_odd : ownerOf facts neighbours row = .odd ↔ row.execType ≠ .trade ∧ row.execType ≠ .funding := by
  unfold ownerOf
  cases row.execType <;> cases facts.owns row <;> cases neighbours.owns row <;> simp

theorem checkOrder_ok (h : checkOrder facts owned orders false orderId = .ok ()) :
    ∃ state filled, orders orderId = some state ∧ state.filled = some filled ∧
      listedOf owned orderId = filled ∧ (filled ≠ 0 → state.terminal = true) := by
  unfold checkOrder at h
  split at h
  · exact absurd h throw_ne_ok
  rename_i state hst
  simp only at h
  split at h
  · exact absurd h throw_ne_ok
  rename_i filled hfl
  refine ⟨state, filled, hst, hfl, ?_⟩
  split at h
  · -- a resting order without fills
    rw [raiseIf_ok, not_or, not_not, not_not] at h
    exact ⟨h.1.trans h.2.symm, fun hne => absurd h.2 hne⟩
  · rename_i hte
    simp only [bind_ok, raiseIf_ok] at h
    obtain ⟨-, hlt, hgt⟩ := h
    refine ⟨le_antisymm (not_lt.1 hgt) (not_lt.1 hlt), fun _ => ?_⟩
    simpa using hte

structure FillsChecked (facts : TradeFacts) (executions : List Execution)
    (orders : String → Option OrderState) (neighbours : Neighbours) (now : Time) (fills : Fills) :
    Prop where
  entry : fills.entryRows = (partition facts executions neighbours).owned.filter facts.isEntry
  exit : fills.exitRows =
    (partition facts executions neighbours).owned.filter fun row => facts.isEntry row = false
  others : fills.others = (partition facts executions neighbours).others
  unknown : fills.unknown = (partition facts executions neighbours).unknown
  nonempty : fills.entryRows ≠ []
  positive : 0 < facts.entryFilled
  entrySide : ∀ row ∈ fills.entryRows, row.side = some (Costs.entrySide facts.side)
  exitSide : ∀ row ∈ fills.exitRows, row.side = some (Costs.exitSide facts.side)
  entered : sumQuantity fills.entryRows = facts.entryFilled
  exited : sumQuantity fills.exitRows = facts.entryFilled
  orders : ∀ id ∈ orderIdsOf facts (partition facts executions neighbours).owned,
    checkOrder facts (partition facts executions neighbours).owned orders false id = .ok ()
  clean : ∀ row ∈ (partition facts executions neighbours).unknown ++
      (partition facts executions neighbours).odd,
    ¬ (firstEntry fills.entryRows now ≤ row.executedAt ∧
      row.executedAt ≤ lastExit fills.exitRows now false)

theorem checkSides_ok {entryRows exitRows : List Execution}
    (h : checkSides facts entryRows exitRows = .ok u) : (∀ row ∈ entryRows, row.side = some (entrySide facts.side)) ∧
      ∀ row ∈ exitRows, row.side = some (exitSide facts.side) := by
  simp only [checkSides, bind_ok, forM_ok, raiseIf_ok, not_not] at h
  obtain ⟨-, hen, het⟩ := h
  exact ⟨hen, het⟩

theorem checkQuantities_ok {entryRows exitRows : List Execution}
    (h : checkQuantities facts entryRows exitRows false = .ok u) :
    sumQuantity entryRows = facts.entryFilled ∧ sumQuantity exitRows = facts.entryFilled := by
  simp only [checkQuantities, bind_ok, raiseIf_ok, true_and] at h
  obtain ⟨-, h1, -, h2, -, h3, h4⟩ := h
  exact ⟨le_antisymm (not_lt.1 h2) (not_lt.1 h1), le_antisymm (not_lt.1 h3) (not_lt.1 h4)⟩

theorem checkedFills_ok (h : checkedFills facts executions orders neighbours now false = .ok fills) :
    FillsChecked facts executions orders neighbours now fills := by
  simp only [checkedFills, checkOrders, bind_ok, raiseIf_ok, forM_ok] at h
  obtain ⟨_, -, _, hpos, _, hne, _, hsd, _, hqty, _, ⟨_, -, hor⟩, _, hcln, _, -, hret⟩ := h
  obtain rfl := pure_ok.1 hret
  obtain ⟨hes, hxs⟩ := checkSides_ok hsd
  obtain ⟨hent, hexi⟩ := checkQuantities_ok hqty
  exact ⟨rfl, rfl, rfl, rfl, hne, not_le.1 hpos, hes, hxs, hent, hexi, hor, hcln⟩

theorem firstEntry_spec (h : rows ≠ []) (now : Time) : (∃ e ∈ rows, firstEntry rows now = e.executedAt) ∧
      ∀ e ∈ rows, firstEntry rows now ≤ e.executedAt := by
  unfold firstEntry
  cases hm : (rows.map (·.executedAt)).min? with
  | none =>
    rw [min?_eq_none_iff, map_eq_nil_iff] at hm
    exact absurd hm h
  | some a =>
    obtain ⟨hmem, hle⟩ := min?_eq_some_iff.1 hm
    obtain ⟨e, he, hea⟩ := mem_map.1 hmem
    exact ⟨⟨e, he, hea.symm⟩, fun e he => hle _ (mem_map_of_mem he)⟩

theorem lastExit_spec (h : rows ≠ []) (now : Time) : (∃ x ∈ rows, lastExit rows now false = x.executedAt) ∧
      ∀ x ∈ rows, x.executedAt ≤ lastExit rows now false := by
  unfold lastExit
  rw [if_neg (by simp)]
  cases hm : (rows.map (·.executedAt)).max? with
  | none =>
    rw [max?_eq_none_iff, map_eq_nil_iff] at hm
    exact absurd hm h
  | some a =>
    obtain ⟨hmem, hle⟩ := max?_eq_some_iff.1 hm
    obtain ⟨x, hx, hxa⟩ := mem_map.1 hmem
    exact ⟨⟨x, hx, hxa.symm⟩, fun x hx => hle _ (mem_map_of_mem hx)⟩

theorem FillsChecked.exits_nonempty
    (h : FillsChecked facts executions orders neighbours now fills) : fills.exitRows ≠ [] := by
  intro hnil
  have hsum := h.exited
  rw [hnil] at hsum
  have hpos := h.positive
  rw [← hsum] at hpos
  simp [sumQuantity] at hpos

end

section

variable {inp : FundingInputs} {at_ : Time}

def FundingInputs.rowsAt (inp : FundingInputs) (at_ : Time) : List Execution :=
  inp.fundingRows.filter fun row => isNear fundingRowMatch row.executedAt at_

def FundingInputs.fillsAt (inp : FundingInputs) (at_ : Time) : List Execution :=
  (inp.entryRows ++ inp.exitRows).filter fun fill => isNear boundary fill.executedAt at_

theorem countRow_ok (h : countRow inp at_ row = .ok f) :
    f = .counted row ∧ checkSingleOwner at_ inp.foreignRows inp.neighbours = .ok () := by
  simp only [countRow, bind_ok, pure_ok] at h
  obtain ⟨_, -, _, howner, rfl⟩ := h
  exact ⟨rfl, howner⟩

theorem fundingAt_ok (hcl : inp.collect = false) (h : fundingAt inp at_ = .ok f) :
    (f = .none ∧ inp.fillsAt at_ = [] ∧ heldBefore inp.entryRows inp.exitRows at_ = 0) ∨
    ∃ row, f = .counted row ∧ inp.rowsAt at_ = [row] ∧ checkSingleOwner at_ inp.foreignRows inp.neighbours = .ok () ∧
      (inp.fillsAt at_ = [] → row.quantity = heldBefore inp.entryRows inp.exitRows at_) ∧
      (inp.fillsAt at_ ≠ [] → row.quantity ≠ 0 ∧ row.quantity ∈ heldQuantities inp.entryRows inp.exitRows at_) := by
  unfold fundingAt at h
  rw [bind_ok] at h
  obtain ⟨_, hone, h⟩ := h
  rw [raiseIf_ok, not_lt] at hone
  change (inp.rowsAt at_).length ≤ 1 at hone
  simp only [hcl, Bool.false_eq_true, if_false] at h
  split at h
  · -- no row
    split at h
    · rename_i hnr
      split at h
      · rename_i hhl
        exact .inl ⟨(pure_ok.1 h).symm, hnr, hhl⟩
      · exact absurd h throw_ne_ok
    · split at h <;> exact absurd h throw_ne_ok
  · rename_i row hrow
    have hrw : inp.rowsAt at_ = [row] := by
      change (inp.rowsAt at_).head? = some row at hrow
      cases hli : inp.rowsAt at_ with
      | nil => rw [hli] at hrow; simp at hrow
      | cons x xs =>
        rw [hli] at hrow hone
        simp only [head?_cons, Option.some.injEq] at hrow
        simp only [length_cons] at hone
        rw [hrow, length_eq_zero_iff.1 (by omega : xs.length = 0)]
    split at h
    · rename_i hnr
      split at h
      · rename_i hhl
        exact .inl ⟨(pure_ok.1 h).symm, hnr, hhl⟩
      split at h
      · exact absurd h throw_ne_ok
      rename_i hqty
      obtain ⟨rfl, howner⟩ := countRow_ok h
      exact .inr ⟨row, rfl, hrw, howner, fun _ => not_not.1 hqty, fun hne => absurd hnr hne⟩
    · rename_i hnr
      split at h
      · exact absurd h throw_ne_ok
      rename_i hqty
      obtain ⟨rfl, howner⟩ := countRow_ok h
      rw [not_or, not_not] at hqty
      exact .inr ⟨row, rfl, hrw, howner, fun he => absurd he hnr, fun _ => hqty⟩

structure FundingChecked (inp : FundingInputs) (settlements : List Time) (first last : Time)
    (counted : List Execution) : Prop where
  funded : ∃ funded, (checkedSettlements settlements first last).mapM (fundingAt inp) = .ok funded ∧
    counted = funded.filterMap Funded.row?
  matched : ∀ row ∈ inp.fundingRows, first - boundary ≤ row.executedAt →
    row.executedAt ≤ last + boundary →
    ∃ at_ ∈ checkedSettlements settlements first last, isNear fundingRowMatch row.executedAt at_ = true

theorem matchFunding_ok {first last : Time}
    {out : List Execution × List Time} (h : matchFunding inp settlements first last = .ok out) :
    FundingChecked inp settlements first last out.1 := by
  unfold matchFunding at h
  rw [bind_ok] at h
  obtain ⟨funded, hfn, h⟩ := h
  simp only at h
  split at h
  · exact absurd h throw_ne_ok
  rename_i hun
  obtain rfl := pure_ok.1 h
  refine ⟨⟨funded, hfn, rfl⟩, fun row hrow hfi hlast => ?_⟩
  by_contra hno
  have hmem := filter_eq_nil_iff.1 hun row (mem_filter.2 ⟨hrow, decide_eq_true ⟨hfi, hlast⟩⟩)
  apply hmem
  rw [all_eq_true]
  intro at_ hat
  by_contra hnr
  exact hno ⟨at_, hat, by simpa using hnr⟩

theorem mem_checkedSettlements {first last : Time} : at_ ∈ checkedSettlements settlements first last ↔
      at_ ∈ settlements ∧ first - boundary ≤ at_ ∧ at_ ≤ last + boundary := by
  unfold checkedSettlements
  rw [mem_insertionSort, mem_dedup, mem_filter, decide_eq_true_eq]

def Separated (settlements : List Time) : Prop :=
  ∀ s ∈ settlements, ∀ t ∈ settlements, s ≠ t → seconds 10 < |s - t|

instance (settlements : List Time) : Decidable (Separated settlements) :=
  inferInstanceAs (Decidable (∀ s ∈ settlements, ∀ t ∈ settlements, s ≠ t → seconds 10 < |s - t|))

theorem Separated.eq_of_near (hsep : Separated settlements) {s t r : ℤ} (hs : s ∈ settlements) (ht : t ∈ settlements)
    (hsr : isNear fundingRowMatch r s = true) (htr : isNear fundingRowMatch r t = true) : s = t := by
  by_contra hne
  have hfar := hsep s hs t ht hne
  rw [isNear, decide_eq_true_iff] at hsr htr
  have htri : |s - t| ≤ |s - r| + |r - t| := abs_sub_le s r t
  rw [abs_sub_comm s r] at htri
  have hten : fundingRowMatch + fundingRowMatch = seconds 10 := by decide
  omega

section

variable {first last : Time} {counted : List Execution}

theorem row?_eq_some : f.row? = some row ↔ f = .counted row := by
  cases f <;> simp [Funded.row?]

section

variable (hf : FundingChecked inp settlements first last counted)

include hf

theorem FundingChecked.of_mem (hcl : inp.collect = false) (hrow : row ∈ counted) :
    ∃ s ∈ checkedSettlements settlements first last, fundingAt inp s = .ok (.counted row) ∧ inp.rowsAt s = [row] := by
  obtain ⟨funded, hmap, rfl⟩ := hf.funded
  obtain ⟨f, hfm, hfr⟩ := mem_filterMap.1 hrow
  obtain ⟨s, hs, hok⟩ := (mapM_mem hmap).1 f hfm
  rw [row?_eq_some.1 hfr] at hok
  refine ⟨s, hs, hok, ?_⟩
  rcases fundingAt_ok hcl hok with ⟨hnn, -⟩ | ⟨row', heq, hrw, -⟩
  · simp at hnn
  · rw [Funded.counted.injEq] at heq
    rw [heq, hrw]

theorem FundingChecked.decided (hs : at_ ∈ checkedSettlements settlements first last) :
    ∃ f, fundingAt inp at_ = .ok f ∧ ∀ row, f = .counted row → row ∈ counted := by
  obtain ⟨funded, hmap, rfl⟩ := hf.funded
  obtain ⟨f, hfm, hok⟩ := (mapM_mem hmap).2 at_ hs
  exact ⟨f, hok, fun row hrow => mem_filterMap.2 ⟨f, hfm, row?_eq_some.2 hrow⟩⟩

end

theorem rowsAt_near (h : inp.rowsAt at_ = [row]) :
    row ∈ inp.fundingRows ∧ isNear fundingRowMatch row.executedAt at_ = true := by
  have hmem : row ∈ inp.rowsAt at_ := by rw [h]; exact mem_singleton_self row
  exact mem_filter.1 hmem

theorem FundingChecked.nodup (hf : FundingChecked inp settlements first last counted)
    (hcl : inp.collect = false) (hsep : Separated settlements) : counted.Nodup := by
  obtain ⟨funded, hmap, rfl⟩ := hf.funded
  have hdf : (checkedSettlements settlements first last).Pairwise fun s t =>
      s ∈ settlements ∧ t ∈ settlements ∧ s ≠ t := by
    refine (nodup_iff_pairwise_ne.1 ((perm_insertionSort _ _).nodup_iff.2 (nodup_dedup _))).imp_of_mem ?_
    intro s t hs ht hne
    exact ⟨(mem_checkedSettlements.1 hs).1, (mem_checkedSettlements.1 ht).1, hne⟩
  have hpair := mapM_pairwise (S := fun f f' => ∀ row, f = Funded.counted row → f' ≠ .counted row) hmap hdf ?_
  · rw [nodup_iff_pairwise_ne, pairwise_filterMap]
    refine hpair.imp ?_
    intro f f' h row hrow row' hrow' heq
    rw [row?_eq_some] at hrow hrow'
    exact h row hrow (heq ▸ hrow')
  · rintro s t f f' ⟨hs, ht, hne⟩ hf hf' row rfl rfl
    have hnr : ∀ {u}, fundingAt inp u = .ok (.counted row) → isNear fundingRowMatch row.executedAt u = true := by
      intro u hu
      rcases fundingAt_ok hcl hu with ⟨hnn, -⟩ | ⟨row', heq, hrw, -⟩
      · simp at hnn
      · rw [Funded.counted.injEq] at heq
        exact (rowsAt_near (heq ▸ hrw)).2
    -- one row near two settlements would make them one
    exact hne (hsep.eq_of_near hs ht (hnr hf) (hnr hf'))

end

end

section

variable {facts : TradeFacts} {executions : List Execution} {orders : String → Option OrderState}
  {neighbours : Neighbours} {publishedTo : Option Time} {now : Time}

theorem sumValue_ok {total : ℚ} (h : sumValue rows = .ok total) :
    (∀ row ∈ rows, row.value ≠ none) ∧ total = (rows.map fun row => row.value.getD 0).sum := by
  simp only [sumValue, bind_ok, pure_ok] at h
  obtain ⟨values, hvl, rfl⟩ := h
  have hf := mapM_ok.1 hvl
  clear hvl
  induction hf with
  | nil => simp
  | @cons row value rows values hrow _ ih =>
    have hva : row.value = some value := by
      cases hv : row.value with
      | none => rw [hv] at hrow; exact absurd hrow throw_ne_ok
      | some => rw [hv] at hrow; rw [pure_ok.1 hrow]
    refine ⟨?_, ?_⟩
    · intro r hr
      rcases mem_cons.1 hr with rfl | hr
      · rw [hva]; simp
      · exact ih.1 r hr
    · rw [sum_cons, ih.2, map_cons, sum_cons, hva]
      rfl

structure Completed (facts : TradeFacts) (executions : List Execution) (settlements : List Time)
    (orders : String → Option OrderState) (neighbours : Neighbours) (publishedTo : Option Time)
    (now : Time) (result : CostResult) (fills : Fills) (counted : List Execution) : Prop where
  checked : FillsChecked facts executions orders neighbours now fills
  waited : lastExit fills.exitRows now false + settleDelay ≤ now
  published : checkPublished publishedTo settlements (firstEntry fills.entryRows now - boundary)
    (lastExit fills.exitRows now false + boundary) = .ok ()
  funding : FundingChecked (fundingInputs executions neighbours now fills) settlements
    (firstEntry fills.entryRows now) (lastExit fills.exitRows now false) counted
  entryValue : ∃ v, result.entryValue = some v ∧ sumValue fills.entryRows = .ok v
  exitValue : ∃ v, result.exitValue = some v ∧ sumValue fills.exitRows = .ok v
  fees : result.feesUsd = some ((fills.entryRows ++ fills.exitRows).map cost).sum
  fundingUsd : result.fundingUsd = some (counted.map cost).sum
  gross : ∃ v w, result.entryValue = some v ∧ result.exitValue = some w ∧
    result.grossPnlUsd = some (grossOf facts.side v w)
  legs : result.legs = (fills.entryRows ++ fills.exitRows).map (Leg.mk facts.tradeId .trade) ++
    counted.map (Leg.mk facts.tradeId .funding)

theorem settle_complete
    (h : (settle facts executions settlements orders neighbours publishedTo now false).status = .complete) :
    ∃ fills counted, Completed facts executions settlements orders neighbours publishedTo now
      (settle facts executions settlements orders neighbours publishedTo now false) fills counted := by
  unfold settle at h ⊢
  split at h
  · rename_i result hrun
    simp only [settleRows, bind_ok, raiseIf_ok, true_and, not_lt, pure_ok] at hrun
    obtain ⟨fills, hfll, _, hwt, _, hpub, ⟨counted, unlisted⟩, hmt, ev, hev, xv, hxv, rfl⟩ := hrun
    exact ⟨fills, counted, checkedFills_ok hfll, hwt, hpub, matchFunding_ok hmt, ⟨ev, rfl, hev⟩,
      ⟨xv, rfl, hxv⟩, rfl, rfl, ⟨ev, xv, rfl, rfl, rfl⟩, rfl⟩
  · rename_i stop hrun
    cases stop <;> simp [Stop.status] at h

def CostResult.rowsOf (r : CostResult) (execType : ExecType) : List Execution :=
  (r.legs.filter (·.execType = execType)).map (·.execution)

section

variable {result : CostResult} {fills : Fills} {counted : List Execution}
  (h : Completed facts executions settlements orders neighbours publishedTo now result fills counted)

include h

theorem Completed.tradeRows : result.rowsOf .trade = fills.entryRows ++ fills.exitRows := by
  unfold CostResult.rowsOf
  rw [h.legs]
  simp [filter_append, filter_map, Function.comp_def]

theorem Completed.fundingRows : result.rowsOf .funding = counted := by
  unfold CostResult.rowsOf
  rw [h.legs]
  simp [filter_append, filter_map, Function.comp_def]

theorem Completed.entryRows : (result.rowsOf .trade).filter facts.isEntry = fills.entryRows := by
  rw [h.tradeRows, filter_append, h.checked.entry, h.checked.exit]
  simp [filter_filter]

theorem Completed.exitRows : (result.rowsOf .trade).filter (fun row => facts.isEntry row = false) = fills.exitRows := by
  rw [h.tradeRows, filter_append, h.checked.entry, h.checked.exit]
  simp [filter_filter]

omit h in
theorem split_perm (facts : TradeFacts) (rows : List Execution) :
    (rows.filter facts.isEntry ++ rows.filter fun row => facts.isEntry row = false) ~ rows := by
  have hneg : (fun row => decide (facts.isEntry row = false)) = fun row => !facts.isEntry row := by
    funext row
    cases facts.isEntry row <;> rfl
  rw [hneg]
  exact filter_append_perm facts.isEntry rows

theorem Completed.perm :
    (result.rowsOf .trade).Perm (executions.filter fun row => row.execType = .trade ∧ facts.owns row = true) := by
  have hon : (partition facts executions neighbours).owned =
      executions.filter fun row => row.execType = .trade ∧ facts.owns row = true := by
    refine filter_congr fun row _ => ?_
    simp only [ownerOf_owned]
  rw [h.tradeRows, h.checked.entry, h.checked.exit, ← hon]
  exact split_perm facts _

theorem Completed.trade_mem (hrow : row ∈ result.rowsOf .trade) : row ∈ executions ∧ row.execType = .trade := by
  have hmem := mem_filter.1 (h.perm.subset hrow)
  exact ⟨hmem.1, (of_decide_eq_true hmem.2).1⟩

theorem Completed.counted_mem (hrow : row ∈ counted) : row ∈ executions ∧ row.execType = .funding := by
  obtain ⟨s, -, -, hrw⟩ := h.funding.of_mem rfl hrow
  have hmem := (rowsAt_near hrw).1
  simpa [fundingInputs] using hmem

theorem Completed.nodup (hids : (executions.map (·.execId)).Nodup) (hsep : Separated settlements) :
    (result.legs.map (·.execution.execId)).Nodup := by
  have hinj : ∀ r ∈ executions, ∀ r' ∈ executions, r.execId = r'.execId → r = r' :=
    fun r hr r' hr' heq => inj_on_of_nodup_map hids hr hr' heq
  have hcn : ∀ row ∈ counted, row ∈ executions ∧ row.execType = .funding := fun _ => h.counted_mem
  have htrade : ∀ row ∈ result.rowsOf .trade, row ∈ executions ∧ row.execType = .trade :=
    fun _ => h.trade_mem
  have hlg : result.legs.map (·.execution.execId) =
      (result.rowsOf .trade).map (·.execId) ++ counted.map (·.execId) := by
    rw [h.tradeRows, h.legs]
    simp [Function.comp_def]
  rw [hlg, nodup_append]
  refine ⟨?_, ?_, ?_⟩
  · rw [(h.perm.map (·.execId)).nodup_iff]
    exact hids.sublist (filter_sublist.map _)
  · exact .map_on (fun r hr r' hr' heq => hinj r (hcn r hr).1 r' (hcn r' hr').1 heq)
      (h.funding.nodup rfl hsep)
  · intro a ha b hb heq
    obtain ⟨r, hr, rfl⟩ := mem_map.1 ha
    obtain ⟨r', hr', rfl⟩ := mem_map.1 hb
    -- a fill is no funding row
    have hsame := hinj r (htrade r hr).1 r' (hcn r' hr').1 heq
    have hty := (htrade r hr).2
    rw [hsame, (hcn r' hr').2] at hty
    simp at hty

theorem Completed.clean {e x : Execution} (hrow : row ∈ executions)
    (hkind : (row.execType = .trade ∧ facts.owns row = false ∧ neighbours.owns row = false) ∨
      (row.execType ≠ .trade ∧ row.execType ≠ .funding)) (he : e ∈ fills.entryRows) (hx : x ∈ fills.exitRows) :
    ¬ (e.executedAt ≤ row.executedAt ∧ row.executedAt ≤ x.executedAt) := by
  rintro ⟨hle, hge⟩
  have hmem : row ∈ (partition facts executions neighbours).unknown ++ (partition facts executions neighbours).odd := by
    rw [mem_append]
    rcases hkind with hk | hk
    · exact .inl (mem_filter.2 ⟨hrow, decide_eq_true (ownerOf_unknown.2 hk)⟩)
    · exact .inr (mem_filter.2 ⟨hrow, decide_eq_true (ownerOf_odd.2 hk)⟩)
  have hfi := (firstEntry_spec h.checked.nonempty now).2 e he
  have hlast := (lastExit_spec h.checked.exits_nonempty now).2 x hx
  exact h.checked.clean row hmem ⟨hfi.trans hle, hge.trans hlast⟩

omit h in
theorem sumQuantity_pos (hne : rows ≠ []) (hpos : ∀ row ∈ rows, 0 < row.quantity) : 0 < sumQuantity rows := by
  refine sum_pos _ ?_ (by simpa using hne)
  intro q hq
  obtain ⟨row, hrow, rfl⟩ := mem_map.1 hq
  exact hpos row hrow

theorem Completed.order (hid : orderId ∈ facts.orderIds ∨ ∃ row ∈ result.rowsOf .trade, row.orderId = some orderId) :
    ∃ state filled, orders orderId = some state ∧ state.filled = some filled ∧
      sumQuantity ((result.rowsOf .trade).filter (·.orderId = some orderId)) = filled ∧
      (filled ≠ 0 → state.terminal = true) ∧
      ((∀ row ∈ result.rowsOf .trade, 0 < row.quantity) →
        (∃ row ∈ result.rowsOf .trade, row.orderId = some orderId) → state.terminal = true) := by
  have hpr : (result.rowsOf .trade).Perm (partition facts executions neighbours).owned := by
    refine h.perm.trans (.of_eq ?_)
    refine (filter_congr fun row _ => ?_).symm
    simp only [ownerOf_owned]
  have hmem : orderId ∈ orderIdsOf facts (partition facts executions neighbours).owned := by
    unfold orderIdsOf
    rw [mem_insertionSort, mem_dedup, mem_append]
    rcases hid with hid | ⟨row, hrow, heq⟩
    · exact .inr hid
    · exact .inl (mem_filterMap.2 ⟨row, hpr.subset hrow, heq⟩)
  obtain ⟨state, filled, hst, hfl, hls, hte⟩ := checkOrder_ok (h.checked.orders orderId hmem)
  have hsum : sumQuantity ((result.rowsOf .trade).filter (·.orderId = some orderId)) = filled := by
    rw [← hls]
    exact ((hpr.filter _).map _).sum_eq
  refine ⟨state, filled, hst, hfl, hsum, hte, ?_⟩
  rintro hpos ⟨row, hrow, heq⟩
  have hli : row ∈ (result.rowsOf .trade).filter (·.orderId = some orderId) :=
    mem_filter.2 ⟨hrow, decide_eq_true heq⟩
  have hfil : 0 < sumQuantity ((result.rowsOf .trade).filter (·.orderId = some orderId)) :=
    sumQuantity_pos (ne_nil_of_mem hli) fun r hr => hpos r (mem_of_mem_filter hr)
  exact hte (hsum ▸ hfil).ne'

end

/-- **Settlement conservation.** Whenever the settlement of a closed trade is complete, its legs are exactly the fills
its ids own, both sides and every order add up, nothing of an unknown order lies in the holding period, no execution is
in two legs, and the figures are the sums over the legs. -/
theorem settle_conserves (hids : (executions.map (·.execId)).Nodup) (hsep : Separated settlements)
    (hc : (settle facts executions settlements orders neighbours publishedTo now false).status = .complete) :
    let r := settle facts executions settlements orders neighbours publishedTo now false
    let entryRows := (r.rowsOf .trade).filter facts.isEntry
    let exitRows := (r.rowsOf .trade).filter fun row => facts.isEntry row = false
    (r.rowsOf .trade).Perm (executions.filter fun row => row.execType = .trade ∧ facts.owns row = true) ∧
    (∀ leg ∈ r.legs, leg.tradeId = facts.tradeId ∧ leg.execution ∈ executions ∧
      leg.execType = leg.execution.execType ∧ (leg.execType = .trade ∨ leg.execType = .funding)) ∧
    (∀ row ∈ entryRows, row.side = some (entrySide facts.side)) ∧
    (∀ row ∈ exitRows, row.side = some (exitSide facts.side)) ∧
    sumQuantity entryRows = facts.entryFilled ∧ sumQuantity exitRows = facts.entryFilled ∧
    (∀ orderId, (orderId ∈ facts.orderIds ∨ ∃ row ∈ r.rowsOf .trade, row.orderId = some orderId) →
      ∃ state filled, orders orderId = some state ∧ state.filled = some filled ∧
        sumQuantity ((r.rowsOf .trade).filter (·.orderId = some orderId)) = filled ∧
        (filled ≠ 0 → state.terminal = true) ∧
        ((∀ row ∈ r.rowsOf .trade, 0 < row.quantity) →
          (∃ row ∈ r.rowsOf .trade, row.orderId = some orderId) → state.terminal = true)) ∧
    (∀ row ∈ executions, ((row.execType = .trade ∧ facts.owns row = false ∧ neighbours.owns row = false) ∨
        (row.execType ≠ .trade ∧ row.execType ≠ .funding)) →
      ∀ e ∈ entryRows, ∀ x ∈ exitRows, ¬ (e.executedAt ≤ row.executedAt ∧ row.executedAt ≤ x.executedAt)) ∧
    (r.legs.map (·.execution.execId)).Nodup ∧
    r.feesUsd = some ((r.rowsOf .trade).map cost).sum ∧
    r.fundingUsd = some ((r.rowsOf .funding).map cost).sum ∧
    (∀ row ∈ r.rowsOf .trade, row.value ≠ none) ∧
    ∃ entryValue exitValue fees funding,
      r.entryValue = some entryValue ∧ entryValue = (entryRows.map fun row => row.value.getD 0).sum ∧
      r.exitValue = some exitValue ∧ exitValue = (exitRows.map fun row => row.value.getD 0).sum ∧
      r.feesUsd = some fees ∧ r.fundingUsd = some funding ∧
      r.grossPnlUsd = some (grossOf facts.side entryValue exitValue) ∧
      r.netPnlUsd = some (grossOf facts.side entryValue exitValue - fees - funding) := by
  intro r entryRows exitRows
  obtain ⟨fills, counted, h⟩ := settle_complete hc
  have hentry : entryRows = fills.entryRows := h.entryRows
  have hexit : exitRows = fills.exitRows := h.exitRows
  obtain ⟨ev, hev, hevsum⟩ := h.entryValue
  obtain ⟨xv, hxv, hxvsum⟩ := h.exitValue
  obtain ⟨hevs, hevtotal⟩ := sumValue_ok hevsum
  obtain ⟨hxvs, hxvtotal⟩ := sumValue_ok hxvsum
  have hgross : r.grossPnlUsd = some (grossOf facts.side ev xv) := by
    obtain ⟨v, w, hv, hw, hg⟩ := h.gross
    rw [hev, Option.some.injEq] at hv
    rw [hxv, Option.some.injEq] at hw
    rw [hv, hw]
    exact hg
  rw [hentry, hexit]
  refine ⟨h.perm, ?_, h.checked.entrySide, h.checked.exitSide, h.checked.entered, h.checked.exited,
    fun orderId hid => h.order hid, fun row hrow hkind e he x hx => h.clean hrow hkind he hx,
    h.nodup hids hsep, ?_, ?_, ?_, ev, xv, _, _, hev, hevtotal, hxv, hxvtotal, h.fees, h.fundingUsd, ?_, ?_⟩
  · intro leg hleg
    rw [h.legs, mem_append] at hleg
    rcases hleg with hleg | hleg
    · obtain ⟨row, hrow, rfl⟩ := mem_map.1 hleg
      rw [← h.tradeRows] at hrow
      obtain ⟨hmem, htype⟩ := h.trade_mem hrow
      exact ⟨rfl, hmem, htype.symm, .inl rfl⟩
    · obtain ⟨row, hrow, rfl⟩ := mem_map.1 hleg
      obtain ⟨hmem, htype⟩ := h.counted_mem hrow
      exact ⟨rfl, hmem, htype.symm, .inr rfl⟩
  · rw [h.tradeRows]
    exact h.fees
  · rw [h.fundingRows]
    exact h.fundingUsd
  · intro row hrow
    rw [h.tradeRows, mem_append] at hrow
    exact hrow.elim (hevs row) (hxvs row)
  · exact hgross
  · unfold CostResult.netPnlUsd
    rw [hgross, h.fees, h.fundingUsd]

end

def sampleFacts : TradeFacts where
  tradeId := 7
  exchange := "bybit"
  nativeMarketId := "ABCUSDT"
  side := .long
  entryClientOrderId := "e1"
  entryOrderId := some "o1"
  entryFilled := 2
  contractSize := none
  orderIds := ["o1"]
  clientOrderIds := []
  sentAt := seconds 0
  exitAt := some (seconds 7200)

def sampleExecutions : List Execution :=
  [⟨"x1", .trade, some "o1", some "e1", some "Buy", 2, some 10, some 20, 1 / 100, some usdt, seconds 10⟩,
    ⟨"x2", .funding, none, none, some "Sell", 2, some 10, some 20, 1 / 50, some usdt, seconds 3600⟩,
    ⟨"x3", .trade, some "o2", some "e1s1", some "Sell", 2, some 11, some 22, 1 / 100, none, seconds 7200⟩]

def sampleSettlements : List Time := [seconds 3600, seconds 28800]

def sampleOrders (orderId : String) : Option OrderState :=
  if orderId = "o1" ∨ orderId = "o2" then some ⟨true, some 2⟩ else none

def sampleNeighbours : Neighbours := ⟨[], [], [], []⟩

def sampleResult : CostResult :=
  settle sampleFacts sampleExecutions sampleSettlements sampleOrders sampleNeighbours
    (some (seconds 28800)) (seconds 30000) false

theorem sampleResult_conserves :
    sampleResult.netPnlUsd = some (2 - 1 / 50 - 1 / 50) ∧
      (sampleResult.legs.map (·.execution.execId)).Nodup := by
  have hids : (sampleExecutions.map (·.execId)).Nodup := by decide
  have hsep : Separated sampleSettlements := by decide
  have hc : sampleResult.status = .complete := by decide +kernel
  obtain ⟨-, -, -, -, -, -, -, -, hnodup, -⟩ := settle_conserves hids hsep hc
  exact ⟨by decide +kernel, hnodup⟩

end Schurfer.Costs
