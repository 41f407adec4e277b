import Schurfer.Costs.Funding
import Schurfer.Lib.Paging

/-!
# Reading a trade's costs

`live_costs.read`. The funding history may grow between any two requests. The newest settlement is read before the
list, so the list holds every settlement up to it.
-/

namespace Schurfer.Costs

open List Except

open Paging (page Growing)

inductive ReadError
  | request (text : String)
  | fundingDidNotEnd
deriving DecidableEq

structure FundingRequest where
  symbol : String
  startTime : Option ℤ
  endTime : Option ℤ
  limit : ℕ

def FundingRequest.covers (req : FundingRequest) (t : ℤ) : Bool :=
  (∀ start ∈ req.startTime, start ≤ t) && (∀ end_ ∈ req.endTime, t ≤ end_)

structure Source where
  executions : String → Time → Time → Except ReadError (List Execution)
  fundingHistory : ℕ → FundingRequest → Except ReadError (List ℤ)
  order : String → String → Except ReadError (Option OrderState)

/-- Times of the years 2004 to 2038 are exact in the source's floating point. -/
def millisOf (moment : Time) : ℤ := moment / 1000

def fromMillis (value : ℤ) : Time := millis value

variable {t : ℤ}

theorem millisOf_le {start : ℤ} (h : start ≤ 1000 * t) : start / 1000 ≤ t := by omega

theorem le_millisOf {pageEnd : ℤ} (h : 1000 * t ≤ pageEnd) : t ≤ pageEnd / 1000 := by omega

theorem le_of_fromMillis_le {u : ℤ} (h : 1000 * t ≤ 1000 * u) : t ≤ u := by omega

theorem fromMillis_lt {u : ℤ} (h : t < u) : 1000 * t ≤ 1000 * u - 1000 * 1 := by omega

def settlementPage : ℕ := 200

def maxPages : ℕ := 1000

section

variable (source : Source)

def fundingPages (symbol : String) (start end_ : Time) :
    (fuel n : ℕ) → (pageEnd : Time) → (found : List Time) → Except ReadError (List Time)
  | 0, _, _, _ => throw .fundingDidNotEnd
  | fuel + 1, n, pageEnd, found => do
    let rows ← source.fundingHistory n
      ⟨symbol, some (millisOf start), some (millisOf pageEnd), settlementPage⟩
    let listed := rows.map fromMillis
    let found := found ++ listed.filter fun at_ => start ≤ at_ ∧ at_ ≤ end_
    if listed.length < settlementPage then return found
    else
      -- a full page has a minimum
      let pageEnd := listed.min?.getD pageEnd - millis 1
      if pageEnd < start then return found
      else fundingPages symbol start end_ fuel (n + 1) pageEnd found

def Source.settlements (symbol : String) (start end_ : Time) : Except ReadError (List Time) := do
  let found ← fundingPages source symbol start end_ maxPages 1 end_ []
  return found.dedup.insertionSort (· ≤ ·)

def Source.publishedTo (symbol : String) : Except ReadError (Option Time) := do
  let rows ← source.fundingHistory 0 ⟨symbol, none, none, 1⟩
  return (rows.map fromMillis).max?

def wantedOrders (facts : TradeFacts) (executions : List Execution) : List String :=
  (facts.orderIds ++ (executions.filter fun row => row.execType = .trade && facts.owns row).filterMap
    fun row => given row.orderId).dedup.insertionSort (· ≤ ·)

def readOrders (facts : TradeFacts) (executions : List Execution) :
    Except ReadError (List (String × OrderState)) := do
  let states ← (wantedOrders facts executions).mapM fun orderId => do
    let state ← source.order facts.nativeMarketId orderId
    return state.map (orderId, ·)
  return states.filterMap id

def read (facts : TradeFacts) (neighbours : Neighbours) (now : Time) (openPosition : Bool) :
    Except ReadError CostResult := do
  let start := facts.sentAt - windowMargin
  let executions ← source.executions facts.nativeMarketId start now
  let publishedTo ← source.publishedTo facts.nativeMarketId
  let settlements ← source.settlements facts.nativeMarketId start now
  let orders ← readOrders source facts executions
  return settle facts executions settlements (orders.lookup ·) neighbours publishedTo now openPosition

end

/-- Every answer on the symbol is a page of what the history lists at that request. -/
def Source.Publishes (source : Source) (symbol : String) (history : ℕ → List ℤ) : Prop :=
  ∀ n req rows, req.symbol = symbol → source.fundingHistory n req = .ok rows →
    rows = page (history n) req.covers req.limit

section

variable {source : Source} {symbol : String} {history : ℕ → List ℤ} {publishedTo : Option Time}
  {settlements : List Time}

/-- **No settlement is lost between pages.** A settlement that every answer's history lists, in the
range and not above the current page, is found. -/
theorem fundingPages_complete (hpub : source.Publishes symbol history)
    (hnd : ∀ n, (history n).Nodup) {start end_ : Time} (ht : ∀ n, 1 ≤ n → t ∈ history n)
    (hst : start ≤ fromMillis t) (hend : fromMillis t ≤ end_) {fuel n : ℕ} {pageEnd : Time}
    {found out : List Time} (hn : 1 ≤ n) (hfn : fromMillis t ∈ found ∨ fromMillis t ≤ pageEnd)
    (h : fundingPages source symbol start end_ fuel n pageEnd found = .ok out) : fromMillis t ∈ out := by
  induction fuel generalizing n pageEnd found with
  | zero => exact absurd h throw_ne_ok
  | succ fuel ih =>
    unfold fundingPages at h
    rw [bind_ok] at h
    obtain ⟨rows, hrw, h⟩ := h
    have hpg := hpub n _ rows rfl hrw
    simp only at h
    -- the row is found by now, or the page is full of newer ones
    have hnx : fromMillis t ∈ found ++ (rows.map fromMillis).filter (fun at_ => start ≤ at_ ∧ at_ ≤ end_) ∨
        (rows.length = settlementPage ∧ ∀ u ∈ rows, t < u) := by
      rcases hfn with hfn | hle
      · exact .inl (mem_append_left _ hfn)
      have hcv : FundingRequest.covers
          ⟨symbol, some (millisOf start), some (millisOf pageEnd), settlementPage⟩ t = true := by
        simp only [FundingRequest.covers, Option.mem_def, Option.some.injEq, forall_eq',
          Bool.and_eq_true, decide_eq_true_eq]
        exact ⟨millisOf_le hst, le_millisOf hle⟩
      rcases Paging.page_or_older (hnd n) (ht n hn) hcv with hmem | holder
      · refine .inl (mem_append_right _ (mem_filter.2 ⟨?_, decide_eq_true ⟨hst, hend⟩⟩))
        rw [hpg]
        exact mem_map_of_mem hmem
      · rw [← hpg] at holder
        exact .inr holder
    split at h
    · rename_i hsh
      rw [length_map] at hsh
      obtain rfl := pure_ok.1 h
      exact hnx.resolve_right fun hfl => hsh.ne hfl.1
    · have hbl : (∀ u ∈ rows, t < u) → rows.length = settlementPage →
          fromMillis t ≤ (rows.map fromMillis).min?.getD pageEnd - millis 1 := by
        intro hne hlen
        cases hmin : (rows.map fromMillis).min? with
        | none =>
          rw [min?_eq_none_iff, map_eq_nil_iff] at hmin
          rw [hmin] at hlen
          exact absurd hlen (by decide)
        | some a =>
          obtain ⟨u, hu, rfl⟩ := mem_map.1 (min?_mem hmin)
          exact fromMillis_lt (hne u hu)
      split at h
      · rename_i hdn
        obtain rfl := pure_ok.1 h
        refine hnx.resolve_right fun hfl => ?_
        -- the next page would still hold the row
        exact absurd (hst.trans (hbl hfl.2 hfl.1)) (not_le.2 hdn)
      · refine ih (Nat.le_succ_of_le hn) ?_ h
        exact hnx.imp_right fun hfl => hbl hfl.2 hfl.1

theorem settlements_complete (hgr : Growing history) (hpub : source.Publishes symbol history) {start end_ : Time}
    {published : Time} (hnw : source.publishedTo symbol = .ok publishedTo) (hp : publishedTo = some published)
    (hli : source.settlements symbol start end_ = .ok settlements) {m : ℕ} (ht : t ∈ history m)
    (hle : fromMillis t ≤ published) (hst : start ≤ fromMillis t) (hend : fromMillis t ≤ end_) :
    fromMillis t ∈ settlements := by
  simp only [Source.publishedTo, Source.settlements, bind_ok, pure_ok] at hnw hli
  obtain ⟨rows, hrw, hmax⟩ := hnw
  obtain ⟨found, hfn, rfl⟩ := hli
  have hu : ∃ u ∈ history 0, published = fromMillis u := by
    rw [hp] at hmax
    obtain ⟨u, hu, hup⟩ := mem_map.1 (max?_mem hmax)
    rw [hpub 0 _ rows rfl hrw] at hu
    exact ⟨u, (Paging.mem_page hu).1, hup.symm⟩
  obtain ⟨u, hu, rfl⟩ := hu
  have hls : ∀ n, 1 ≤ n → t ∈ history n :=
    fun n _ => hgr.listed ht hu (le_of_fromMillis_le hle) (Nat.zero_le n)
  have hmem : fromMillis t ∈ found :=
    fundingPages_complete hpub hgr.nodup hls hst hend le_rfl (.inr hend) hfn
  rw [mem_insertionSort, mem_dedup]
  exact hmem

theorem window_start {sentAt first : ℤ} (hen : sentAt ≤ first) (hfr : first - boundary ≤ t) :
    sentAt - windowMargin ≤ t := by
  unfold boundary at hfr
  unfold windowMargin
  unfold seconds at *
  omega

theorem window_end {last now : ℤ} (hlast : t ≤ last + boundary) (hwt : last + settleDelay ≤ now) : t ≤ now := by
  unfold boundary at hlast
  unfold settleDelay at hwt
  unfold seconds at *
  omega

theorem checkPublished_ok {start end_ : Time}
    {u : Unit} (h : checkPublished publishedTo settlements start end_ = .ok u) :
    ∃ published, publishedTo = some published ∧ end_ ≤ published := by
  cases hp : publishedTo with
  | none =>
    rw [hp] at h
    exact absurd h throw_ne_ok
  | some published =>
    rw [hp] at h
    simp only [checkPublished, bind_ok, raiseIf_ok, not_lt] at h
    obtain ⟨-, -, hle⟩ := h
    exact ⟨published, rfl, hle⟩

/-- **The publication proof is sound.** When `read` is complete, the settlement list it settled with holds every
settlement the history will ever list from 5 s before the first entry to 5 s after the last exit. -/
theorem read_settlements_complete {facts : TradeFacts} {neighbours : Neighbours} {now : Time}
    {r : CostResult} (hgrow : Growing history) (hpub : source.Publishes facts.nativeMarketId history)
    (hsent : ∀ executions, source.executions facts.nativeMarketId (facts.sentAt - windowMargin) now =
        .ok executions →
      ∀ row ∈ executions, row.execType = .trade → facts.owns row = true → facts.sentAt ≤ row.executedAt)
    (hread : read source facts neighbours now false = .ok r) (hc : r.status = .complete) :
    ∃ executions publishedTo settlements orders,
      source.executions facts.nativeMarketId (facts.sentAt - windowMargin) now = .ok executions ∧
      source.publishedTo facts.nativeMarketId = .ok publishedTo ∧
      source.settlements facts.nativeMarketId (facts.sentAt - windowMargin) now = .ok settlements ∧
      readOrders source facts executions = .ok orders ∧
      r = settle facts executions settlements (orders.lookup ·) neighbours publishedTo now false ∧
      ∀ m, ∀ t ∈ history m,
        Window ((r.rowsOf .trade).filter facts.isEntry)
          ((r.rowsOf .trade).filter fun row => facts.isEntry row = false) (fromMillis t) →
        fromMillis t ∈ settlements := by
  simp only [read, bind_ok, pure_ok] at hread
  obtain ⟨executions, hexec, publishedTo, hnewest, settlements, hlist, orders, horders, rfl⟩ := hread
  obtain ⟨fills, counted, h⟩ := settle_complete hc
  refine ⟨executions, publishedTo, settlements, orders, hexec, hnewest, hlist, horders, rfl, ?_⟩
  intro m t ht hw
  rw [h.entryRows, h.exitRows] at hw
  obtain ⟨hfirst, hlast⟩ := h.window hw
  obtain ⟨published, hp, hpublished⟩ := checkPublished_ok h.published
  -- the window lies inside what was downloaded
  have hentry : facts.sentAt ≤ firstEntry fills.entryRows now := by
    obtain ⟨e, he, heq⟩ := (firstEntry_spec h.checked.nonempty now).1
    rw [heq]
    have hmem := h.perm.subset (h.tradeRows ▸ mem_append_left _ he)
    obtain ⟨hin, hown⟩ := mem_filter.1 hmem
    obtain ⟨htype, howns⟩ := of_decide_eq_true hown
    exact hsent executions hexec e hin htype howns
  refine settlements_complete hgrow hpub hnewest hp hlist ht (hlast.trans hpublished) ?_ ?_
  · exact window_start hentry hfirst
  · exact window_end hlast h.waited

end

/-! A history that publishes a settlement while it is being read. -/

def sampleHistory (n : ℕ) : List ℤ :=
  if n = 0 then [3600000, 28800000] else [3600000, 28800000, 29000000]

def sampleSource : Source where
  executions _ _ _ := .ok sampleExecutions
  fundingHistory n req := .ok (page (sampleHistory n) req.covers req.limit)
  order _ orderId := .ok (sampleOrders orderId)

theorem sampleHistory_growing : Growing sampleHistory where
  grows := by
    intro n m hnm t ht
    unfold sampleHistory at ht ⊢
    split at ht <;> split <;> simp at ht ⊢ <;> omega
  complete := by
    intro n m t u ht hu hle
    by_cases hn : n = 0 <;> by_cases hm : m = 0 <;> simp [sampleHistory, hn, hm] at ht hu ⊢ <;> omega
  nodup := by
    intro n
    unfold sampleHistory
    split <;> decide

theorem sampleSource_complete :
    ∃ settlements, sampleSource.settlements sampleFacts.nativeMarketId (sampleFacts.sentAt - windowMargin)
      (seconds 30000) = .ok settlements ∧ fromMillis 3600000 ∈ settlements := by
  have hpub : sampleSource.Publishes sampleFacts.nativeMarketId sampleHistory := by
    intro n req rows _ hrows
    exact (ok.inj hrows).symm
  have hsent : ∀ executions, sampleSource.executions sampleFacts.nativeMarketId
      (sampleFacts.sentAt - windowMargin) (seconds 30000) = .ok executions →
      ∀ row ∈ executions, row.execType = .trade → sampleFacts.owns row = true →
        sampleFacts.sentAt ≤ row.executedAt := by
    intro executions hexec
    cases hexec
    decide +kernel
  have hdone : ((read sampleSource sampleFacts sampleNeighbours (seconds 30000) false).toOption.any
      fun r => r.status = .complete ∧ Window ((r.rowsOf .trade).filter sampleFacts.isEntry)
        ((r.rowsOf .trade).filter fun row => sampleFacts.isEntry row = false)
        (fromMillis 3600000)) = true := by
    decide +kernel
  cases hread : read sampleSource sampleFacts sampleNeighbours (seconds 30000) false with
  | error e =>
    rw [hread] at hdone
    exact absurd hdone (by simp [Except.toOption])
  | ok r =>
    rw [hread] at hdone
    obtain ⟨hc, hw⟩ := of_decide_eq_true hdone
    obtain ⟨-, -, settlements, -, -, -, hlist, -, -, hall⟩ :=
      read_settlements_complete sampleHistory_growing hpub hsent hread hc
    exact ⟨settlements, hlist, hall 0 3600000 (by decide) hw⟩

end Schurfer.Costs
