import Schurfer.Costs.Funding

/-!
# Two trades of one instrument

A funding row is charged to one trade. A row is counted at a settlement of the own holding period, five seconds around
it, and the other trade refuses that settlement as soon as the interval it knows, sixty seconds around it, holds it.
-/

namespace Schurfer.Costs

open List

def journalDrift : ℤ := seconds 50

/-- The neighbours list the trade's interval: entered at most 50 s after its first entry fill, and open or
left at most 50 s before its last exit fill. -/
def Neighbours.Lists (neighbours : Neighbours) (executions : List Execution) (facts : TradeFacts) : Prop :=
  ∃ interval ∈ neighbours.intervals, ∀ row ∈ executions, row.execType = .trade → facts.owns row = true →
    if facts.isEntry row = true then interval.1 ≤ row.executedAt + journalDrift
    else ∀ exit ∈ interval.2, row.executedAt - journalDrift ≤ exit

instance (neighbours : Neighbours) (executions : List Execution) (facts : TradeFacts) :
    Decidable (neighbours.Lists executions facts) :=
  inferInstanceAs (Decidable (∃ interval ∈ neighbours.intervals, ∀ row ∈ executions, row.execType = .trade →
    facts.owns row = true → if facts.isEntry row = true then interval.1 ≤ row.executedAt + journalDrift
      else ∀ exit ∈ interval.2, row.executedAt - journalDrift ≤ exit))

section

variable {facts : TradeFacts} {executions counted : List Execution} {settlements : List Time}
  {orders : String → Option OrderState} {neighbours : Neighbours} {publishedTo : Option Time} {now : Time}
  {result : CostResult} {fills : Fills}

theorem Completed.counted_at
    (h : Completed facts executions settlements orders neighbours publishedTo now result fills counted)
    {row : Execution} (hrow : row ∈ counted) : ∃ s ∈ settlements, isNear fundingRowMatch row.executedAt s = true ∧
      firstEntry fills.entryRows now - Costs.boundary ≤ s ∧
      s ≤ lastExit fills.exitRows now false + Costs.boundary := by
  obtain ⟨s, hs, -, hrw⟩ := h.funding.of_mem rfl hrow
  obtain ⟨hmem, hfr, hlast⟩ := mem_checkedSettlements.1 hs
  exact ⟨s, hmem, (rowsAt_near hrw).2, hfr, hlast⟩

theorem Completed.overlaps_of_lists
    (h : Completed facts executions settlements orders neighbours publishedTo now result fills counted)
    {others : Neighbours} (hls : others.Lists executions facts) {s : Time}
    (hfr : firstEntry fills.entryRows now - Costs.boundary ≤ s)
    (hlast : s ≤ lastExit fills.exitRows now false + Costs.boundary) :
    ∃ interval ∈ others.intervals, overlaps interval s = true := by
  obtain ⟨interval, hmem, hdr⟩ := hls
  refine ⟨interval, hmem, ?_⟩
  obtain ⟨e, he, hef⟩ := (firstEntry_spec h.checked.nonempty now).1
  obtain ⟨x, hx, hxl⟩ := (lastExit_spec h.checked.exits_nonempty now).1
  have hen : facts.isEntry e = true := by
    rw [h.checked.entry] at he
    exact (mem_filter.1 he).2
  have hext : facts.isEntry x = false := by
    rw [h.checked.exit] at hx
    exact of_decide_eq_true (mem_filter.1 hx).2
  have hon : ∀ row, row ∈ fills.entryRows ∨ row ∈ fills.exitRows →
      row ∈ executions ∧ row.execType = .trade ∧ facts.owns row = true := by
    intro row hrow
    rw [h.checked.entry, h.checked.exit, ← mem_append] at hrow
    have hpr : row ∈ (partition facts executions neighbours).owned := by
      rcases mem_append.1 hrow with hrow | hrow <;> exact (mem_filter.1 hrow).1
    obtain ⟨hec, howner⟩ := mem_filter.1 hpr
    exact ⟨hec, ownerOf_owned.1 (of_decide_eq_true howner)⟩
  obtain ⟨hee, het, hew⟩ := hon e (.inl he)
  obtain ⟨hxx, hxt, hxw⟩ := hon x (.inr hx)
  have hst := hdr e hee het hew
  have hend := hdr x hxx hxt hxw
  rw [if_pos hen] at hst
  rw [if_neg (by simp [hext])] at hend
  have hmr : journalDrift + Costs.boundary ≤ neighbourMargin := by decide
  simp only [overlaps, Bool.and_eq_true, decide_eq_true_eq]
  refine ⟨by linarith, fun exit hext => ?_⟩
  have hlf := hend exit hext
  linarith

/-- **Two neighbouring trades never both count the same funding row**: on the same executions and the same
settlements, when the one knows the other's interval and both are complete. -/
theorem neighbours_count_disjoint {a b : TradeFacts} {neighboursA neighboursB : Neighbours}
    {ordersA ordersB : String → Option OrderState} {publishedA publishedB : Option Time} {nowA nowB : Time}
    (hsep : Separated settlements) (hlists : neighboursA.Lists executions b)
    (ha : (settle a executions settlements ordersA neighboursA publishedA nowA false).status = .complete)
    (hb : (settle b executions settlements ordersB neighboursB publishedB nowB false).status = .complete) :
    ∀ row ∈ (settle a executions settlements ordersA neighboursA publishedA nowA false).rowsOf .funding,
      row ∉ (settle b executions settlements ordersB neighboursB publishedB nowB false).rowsOf .funding := by
  intro row hrowA hrowB
  obtain ⟨fillsA, countedA, hA⟩ := settle_complete ha
  obtain ⟨fillsB, countedB, hB⟩ := settle_complete hb
  rw [hA.fundingRows] at hrowA
  rw [hB.fundingRows] at hrowB
  obtain ⟨s, hs, hnear, hfree, -⟩ := hA.owner hrowA
  obtain ⟨s', hs', hnear', hfirst, hlast⟩ := hB.counted_at hrowB
  -- both counted the row at the same settlement
  obtain rfl : s = s' := hsep.eq_of_near hs hs' hnear hnear'
  obtain ⟨interval, hmem, hoverlaps⟩ := hB.overlaps_of_lists hlists hfirst hlast
  rw [hfree interval hmem] at hoverlaps
  cases hoverlaps

end

def laterFacts : TradeFacts :=
  { sampleFacts with
    tradeId := 8, entryClientOrderId := "e2", entryOrderId := some "o3", orderIds := ["o3"]
    sentAt := seconds 9999, exitAt := some (seconds 20000) }

def bothExecutions : List Execution :=
  sampleExecutions ++
    [⟨"x4", .trade, some "o3", some "e2", some "Buy", 2, some 10, some 20, 1 / 100, some usdt, seconds 10000⟩,
      ⟨"x5", .funding, none, none, some "Sell", 2, some 10, some 20, 1 / 50, some usdt, seconds 14400⟩,
      ⟨"x6", .trade, some "o4", some "e2s1", some "Sell", 2, some 11, some 22, 1 / 100, none, seconds 20000⟩]

def bothOrders (orderId : String) : Option OrderState :=
  if orderId ∈ ["o1", "o2", "o3", "o4"] then some ⟨true, some 2⟩ else none

def bothResult (facts : TradeFacts) (other : TradeFacts) (entryAt exitAt : Time) : CostResult :=
  settle facts bothExecutions [seconds 3600, seconds 14400, seconds 28800] bothOrders
    ⟨other.orderIds, [], [other.entryClientOrderId], [(entryAt, some exitAt)]⟩ (some (seconds 28800))
    (seconds 30000) false

theorem bothResult_disjoint :
    (∀ row ∈ (bothResult sampleFacts laterFacts (seconds 10020) (seconds 19990)).rowsOf .funding,
      row ∉ (bothResult laterFacts sampleFacts (seconds 20) (seconds 7200)).rowsOf .funding) ∧
    ((bothResult sampleFacts laterFacts (seconds 10020) (seconds 19990)).rowsOf .funding).length = 1 ∧
    ((bothResult laterFacts sampleFacts (seconds 20) (seconds 7200)).rowsOf .funding).length = 1 :=
  ⟨neighbours_count_disjoint (by decide) (by decide +kernel) (by decide +kernel) (by decide +kernel),
    by decide +kernel, by decide +kernel⟩

end Schurfer.Costs
