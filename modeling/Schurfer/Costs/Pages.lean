import Schurfer.Costs.Publication
import Schurfer.Lib.Dict

/-!
# Paging through the funding history and the execution list

`BybitCostSource._funding_history` reads backwards. `executions` reads one window of at most seven days after the
other and follows the cursor of every page; two windows share their boundary, so the rows are kept by their id.
-/

namespace Schurfer.Costs

open List Except

section

variable {source source' : Source} {symbol : String} {start end_ pageEnd : Time} {fuel n : ℕ}
  {found out : List Time}

theorem fundingPages_sound {settlements : List ℤ} (hpub : source.Publishes symbol fun _ => settlements)
    (h : fundingPages source symbol start end_ fuel n pageEnd found = .ok out) :
    ∀ at_ ∈ out, at_ ∈ found ∨ (start ≤ at_ ∧ at_ ≤ end_) ∧ ∃ t ∈ settlements, fromMillis t = at_ := by
  induction fuel generalizing n pageEnd found with
  | zero => exact absurd h throw_ne_ok
  | succ fuel ih =>
    rw [fundingPages, bind_ok] at h
    obtain ⟨rows, hrw, h⟩ := h
    have hpg := hpub n _ rows rfl hrw
    have hlisted : ∀ at_ ∈ found ++ (rows.map fromMillis).filter (fun at_ => start ≤ at_ ∧ at_ ≤ end_),
        at_ ∈ found ∨ (start ≤ at_ ∧ at_ ≤ end_) ∧ ∃ t ∈ settlements, fromMillis t = at_ := by
      intro at_ hat
      rw [mem_append, mem_filter, mem_map] at hat
      obtain hat | ⟨⟨t, ht, rfl⟩, hin⟩ := hat
      · exact .inl hat
      · rw [hpg] at ht
        exact .inr ⟨of_decide_eq_true hin, t, (Paging.mem_page ht).1, rfl⟩
    simp only at h
    split at h
    · obtain rfl := pure_ok.1 h
      exact hlisted
    split at h
    · obtain rfl := pure_ok.1 h
      exact hlisted
    · intro at_ hat
      obtain hat | hin := ih h at_ hat
      · exact hlisted at_ hat
      · exact .inr hin

/-- Only the requests numbered from `n` to `n + fuel - 1` are made. -/
theorem fundingPages_asks
    (h : ∀ k req, n ≤ k → k < n + fuel → source'.fundingHistory k req = source.fundingHistory k req) :
    fundingPages source' symbol start end_ fuel n pageEnd found =
      fundingPages source symbol start end_ fuel n pageEnd found := by
  induction fuel generalizing n pageEnd found with
  | zero => rfl
  | succ fuel ih =>
    have hrest : ∀ pageEnd found, fundingPages source' symbol start end_ fuel (n + 1) pageEnd found =
        fundingPages source symbol start end_ fuel (n + 1) pageEnd found :=
      fun _ _ => ih fun k req hk hk' => h k req (by omega) (by omega)
    simp only [fundingPages, h n _ le_rfl (by omega), hrest]

end

structure ExecutionRequest where
  symbol : String
  startTime : ℤ
  endTime : ℤ
  limit : ℕ
  cursor : Option String

structure ExecutionPage where
  list : List Execution
  nextPageCursor : Option String

def executionPage : ℕ := 100

def maxWindow : ℤ := seconds (7 * 86400)

def windows (start end_ : Time) : List (Time × Time) :=
  if start < end_ then
    (start, min (start + maxWindow) end_) :: windows (min (start + maxWindow) end_) end_
  else []
termination_by (end_ - start).toNat
decreasing_by
  rename_i hlt
  have hnext : start < min (start + maxWindow) end_ := lt_min (lt_add_of_pos_right start (by decide)) hlt
  exact (Int.toNat_lt_toNat (sub_pos.2 hlt)).2 (sub_lt_sub_left hnext end_)

section

-- a page comes with its rows converted: a failed request and a malformed row raise
variable (executionList : ExecutionRequest → Except ReadError ExecutionPage) (symbol : String)

def executionPages (chunkStart chunkEnd : Time) : (fuel : ℕ) → (cursor : Option String) →
    (rows : Dict String Execution) → Except ReadError (Dict String Execution)
  | 0, _, _ => throw (.request "execution list did not end")
  | fuel + 1, cursor, rows => do
    let page ← executionList ⟨symbol, millisOf chunkStart, millisOf chunkEnd, executionPage, cursor⟩
    let rows := Dict.update (·.execId) id rows page.list
    match given page.nextPageCursor with
    | none => return rows
    | some cursor => executionPages chunkStart chunkEnd fuel (some cursor) rows

def executions (start end_ : Time) : Except ReadError (List Execution) := do
  let rows ← (windows start end_).foldlM
    (fun rows chunk => executionPages executionList symbol chunk.1 chunk.2 maxPages none rows) ∅
  return (rows.entries.map (·.2)).insertionSort Execution.le

end

/-- The pages from a cursor on hold the rows. -/
inductive Paged (answer : Option String → ExecutionPage) : Option String → List Execution → Prop
  | last {cursor : Option String} (h : given (answer cursor).nextPageCursor = none) :
    Paged answer cursor (answer cursor).list
  | more {cursor : Option String} {next : String} {rows : List Execution}
    (h : given (answer cursor).nextPageCursor = some next) (hrest : Paged answer (some next) rows) :
    Paged answer cursor ((answer cursor).list ++ rows)

/-- The cursor pages of each window partition the rows the server holds for it; any request may fail. -/
def Serves (executionList : ExecutionRequest → Except ReadError ExecutionPage) (symbol : String)
    (held : ℤ → ℤ → List Execution) : Prop :=
  ∀ startTime endTime, ∃ answer rows, Paged answer none rows ∧ rows.Perm (held startTime endTime) ∧
    ∀ cursor page, executionList ⟨symbol, startTime, endTime, executionPage, cursor⟩ = .ok page → page = answer cursor

/-- The server holds the row for one of the windows of the range. -/
def Held (held : ℤ → ℤ → List Execution) (start end_ : Time) (e : Execution) : Prop :=
  ∃ chunk ∈ windows start end_, e ∈ held (millisOf chunk.1) (millisOf chunk.2)

section

variable {executionList : ExecutionRequest → Except ReadError ExecutionPage} {symbol : String}
  {held : ℤ → ℤ → List Execution} {start end_ : Time}

theorem executionPages_rows {answer : Option String → ExecutionPage} {cursor : Option String} {rows : List Execution}
    (hpages : Paged answer cursor rows) {chunkStart chunkEnd : Time}
    (hlist : ∀ cursor page, executionList ⟨symbol, millisOf chunkStart, millisOf chunkEnd, executionPage, cursor⟩ =
      .ok page → page = answer cursor) {fuel : ℕ} {d d' : Dict String Execution}
    (h : executionPages executionList symbol chunkStart chunkEnd fuel cursor d = .ok d') :
    d' = Dict.update (·.execId) id d rows := by
  induction hpages generalizing fuel d with
  | last hlast =>
    cases fuel with
    | zero => exact absurd h throw_ne_ok
    | succ fuel =>
      rw [executionPages, bind_ok] at h
      obtain ⟨page, hpage, h⟩ := h
      obtain rfl := hlist _ page hpage
      simp only [hlast] at h
      exact (pure_ok.1 h).symm
  | more hnext _ ih =>
    cases fuel with
    | zero => exact absurd h throw_ne_ok
    | succ fuel =>
      rw [executionPages, bind_ok] at h
      obtain ⟨page, hpage, h⟩ := h
      obtain rfl := hlist _ page hpage
      simp only [hnext] at h
      rw [ih h]
      exact foldl_append.symm

/-- The rows of all the windows are stored one after the other. -/
theorem foldlM_rows (hserves : Serves executionList symbol held) {chunks : List (Time × Time)}
    {d d' : Dict String Execution} (h : chunks.foldlM
      (fun rows chunk => executionPages executionList symbol chunk.1 chunk.2 maxPages none rows) d = .ok d') :
    ∃ rows, d' = Dict.update (·.execId) id d rows ∧
      ∀ e, e ∈ rows ↔ ∃ chunk ∈ chunks, e ∈ held (millisOf chunk.1) (millisOf chunk.2) := by
  induction chunks generalizing d with
  | nil => exact ⟨[], (pure_ok.1 h).symm, by simp⟩
  | cons chunk chunks ih =>
    rw [foldlM_cons, bind_ok] at h
    obtain ⟨d1, hfirst, h⟩ := h
    obtain ⟨answer, first, hpages, hperm, hlist⟩ := hserves (millisOf chunk.1) (millisOf chunk.2)
    obtain rfl := executionPages_rows hpages hlist hfirst
    obtain ⟨rest, rfl, hrest⟩ := ih h
    refine ⟨first ++ rest, foldl_append.symm, fun e => ?_⟩
    rw [mem_append, hperm.mem_iff, hrest]
    simp

theorem windows_cover (hlt : start < end_) {t : ℤ} (hst : millisOf start ≤ t) (hend : t ≤ millisOf end_) :
    ∃ chunk ∈ windows start end_, millisOf chunk.1 ≤ t ∧ t ≤ millisOf chunk.2 := by
  fun_induction windows start end_ with
  | case1 start _ ih =>
    by_cases hin : t ≤ millisOf (min (start + maxWindow) end_)
    · exact ⟨_, mem_cons_self, hst, hin⟩
    · have hmore : min (start + maxWindow) end_ < end_ := by
        by_contra hge
        rw [le_antisymm (min_le_right _ _) (not_lt.1 hge)] at hin
        exact hin hend
      obtain ⟨chunk, hmem, hcover⟩ := ih hmore (le_of_not_ge hin)
      exact ⟨chunk, mem_cons_of_mem _ hmem, hcover⟩
  | case2 start hge => exact absurd hlt hge

instance : Std.Total Execution.le := ⟨fun r r' => by unfold Execution.le; grind⟩

instance : IsTrans Execution Execution.le := ⟨fun r r' r'' => by unfold Execution.le; grind⟩

theorem executions_exact (hserves : Serves executionList symbol held)
    (hids : ∀ e e', Held held start end_ e → Held held start end_ e' → e.execId = e'.execId → e = e')
    {out : List Execution} (h : executions executionList symbol start end_ = .ok out) :
    (∀ e, e ∈ out ↔ Held held start end_ e) ∧ (out.map (·.execId)).Nodup ∧ out.Pairwise Execution.le := by
  rw [executions, bind_ok] at h
  obtain ⟨d, hfold, h⟩ := h
  obtain rfl := pure_ok.1 h
  obtain ⟨rows, hd, hrows⟩ := foldlM_rows hserves hfold
  have hmem : ∀ k e, ⟨k, e⟩ ∈ d.entries → e ∈ rows ∧ e.execId = k := by
    intro k e he
    rw [← AList.mem_lookup_iff, hd] at he
    obtain ⟨row, hrow, hk, rfl⟩ := Dict.lookup_ofRows he
    exact ⟨hrow, hk⟩
  have hperm := perm_insertionSort Execution.le (d.entries.map (·.2))
  refine ⟨fun e => ?_, ?_, pairwise_insertionSort _ _⟩
  · rw [mem_insertionSort, mem_map, Held, ← hrows]
    refine ⟨fun ⟨x, hx, hxe⟩ => hxe ▸ (hmem x.1 x.2 hx).1, fun he => ?_⟩
    obtain ⟨e', he', hid, hlookup⟩ := Dict.exists_lookup_ofRows (·.execId) id he
    obtain rfl := hids e' e ((hrows e').1 he') ((hrows e).1 he) hid
    exact ⟨⟨e'.execId, e'⟩, AList.mem_lookup_iff.1 (hd ▸ hlookup), rfl⟩
  · rw [(hperm.map _).nodup_iff, map_map, map_congr_left fun x hx => (hmem x.1 x.2 hx).2]
    exact d.nodupKeys

end

/-- **Paging returns everything or raises.** The funding history is read exactly, in at most 1000 requests, when the
settlements do not change. The execution list is read exactly, each row once and in order of time and id, when no two
rows of its windows share an id. -/
theorem reads_exact {source : Source} {symbol : String} {settlements : List ℤ}
    (hpub : source.Publishes symbol fun _ => settlements) (hnd : settlements.Nodup)
    {executionList : ExecutionRequest → Except ReadError ExecutionPage} {held : ℤ → ℤ → List Execution}
    (hserves : Serves executionList symbol held) (start end_ : Time)
    (hids : ∀ e e', Held held start end_ e → Held held start end_ e' → e.execId = e'.execId → e = e') :
    (∀ found, fundingPages source symbol start end_ maxPages 1 end_ [] = .ok found →
      ∀ at_, at_ ∈ found ↔ (start ≤ at_ ∧ at_ ≤ end_) ∧ ∃ t ∈ settlements, fromMillis t = at_) ∧
    (∀ source' : Source,
      (∀ k req, 1 ≤ k → k < 1 + maxPages → source'.fundingHistory k req = source.fundingHistory k req) →
      fundingPages source' symbol start end_ maxPages 1 end_ [] =
        fundingPages source symbol start end_ maxPages 1 end_ []) ∧
    (∀ out, executions executionList symbol start end_ = .ok out →
      (∀ e, e ∈ out ↔ Held held start end_ e) ∧ (out.map (·.execId)).Nodup ∧ out.Pairwise Execution.le) ∧
    ∀ t, start < end_ → millisOf start ≤ t → t ≤ millisOf end_ →
      ∃ chunk ∈ windows start end_, millisOf chunk.1 ≤ t ∧ t ≤ millisOf chunk.2 := by
  refine ⟨fun found h at_ => ⟨fun hat => ?_, ?_⟩, fun _ h => fundingPages_asks h,
    fun _ h => executions_exact hserves hids h, fun _ hlt => windows_cover hlt⟩
  · obtain hat | hin := fundingPages_sound hpub h at_ hat
    · cases hat
    · exact hin
  · rintro ⟨⟨hst, hend⟩, t, ht, rfl⟩
    exact fundingPages_complete hpub (fun _ => hnd) (fun _ _ => ht) hst hend le_rfl (.inr hend) h

/-! A server that lists the rows of a window on two pages. Of two rows of one id only the later is returned. -/

def between (rows : List Execution) (startTime endTime : ℤ) : List Execution :=
  rows.filter fun e => startTime ≤ millisOf e.executedAt ∧ millisOf e.executedAt ≤ endTime

def twoPages (rows : List Execution) (req : ExecutionRequest) : Except ReadError ExecutionPage :=
  let held := between rows req.startTime req.endTime
  .ok (if req.cursor = none then ⟨held.take 1, some "2"⟩ else ⟨held.drop 1, none⟩)

theorem twoPages_serves (rows : List Execution) (symbol : String) : Serves (twoPages rows) symbol (between rows) := by
  refine fun startTime endTime => ⟨fun cursor => if cursor = none then ⟨_, some "2"⟩ else ⟨_, none⟩, _,
    .more rfl (.last rfl), ?_, fun _ _ h => (ok.inj h).symm⟩
  exact .of_eq (take_append_drop 1 _)

def part (execId : String) (quantity : ℚ) (executedAt : Time) : Execution :=
  ⟨execId, .trade, some "o1", some "e1", some "Buy", quantity, some 10, none, 1 / 100, some usdt, executedAt⟩

theorem windows_two : windows 0 (2 * maxWindow) = [(0, maxWindow), (maxWindow, 2 * maxWindow)] := by
  rw [windows, if_pos (by decide), windows, if_pos (by decide)]
  rw [windows, if_neg (by decide)]
  rfl

theorem shared_id_lost : ∃ executionList held, Serves executionList "BTCUSDT" held ∧
    ∃ out, executions executionList "BTCUSDT" 0 (2 * maxWindow) = .ok out ∧
      ∃ e, Held held 0 (2 * maxWindow) e ∧ e ∉ out := by
  refine ⟨_, _, twoPages_serves [part "x1" 1 0, part "x1" 2 0] "BTCUSDT", [part "x1" 2 0], ?_, part "x1" 1 0, ?_,
    by decide⟩
  · rw [executions, windows_two]
    decide +kernel
  · rw [Held, windows_two]
    exact ⟨_, mem_cons_self, by decide +kernel⟩

/-- More than one page of settlements, one an hour. -/
def hourly : List ℤ := (range 216).map fun (k : ℕ) => (215 - k) * 3600000

theorem hourly_nodup : hourly.Nodup := nodup_range.map fun k k' h => by omega

def steadySource : Source :=
  { sampleSource with fundingHistory := fun _ req => .ok (Paging.page hourly req.covers req.limit) }

/-- Both windows list the third row. -/
def twoWeeks : List Execution := [part "x1" 1 0, part "x2" 1 0, part "x3" 1 maxWindow, part "x4" 1 (2 * maxWindow)]

theorem steadySource_exact : ∃ found,
    fundingPages steadySource "BTCUSDT" 0 (2 * maxWindow) maxPages 1 (2 * maxWindow) [] = .ok found ∧ 0 ∈ found ∧
      executions (twoPages twoWeeks) "BTCUSDT" 0 (2 * maxWindow) = .ok twoWeeks ∧
      ∀ e, e ∈ twoWeeks ↔ Held (between twoWeeks) 0 (2 * maxWindow) e := by
  have hpub : steadySource.Publishes "BTCUSDT" fun _ => hourly := fun _ _ _ _ h => (ok.inj h).symm
  have hids : ∀ e ∈ twoWeeks, ∀ e' ∈ twoWeeks, e.execId = e'.execId → e = e' := by decide +kernel
  have hexact := reads_exact hpub hourly_nodup (twoPages_serves twoWeeks "BTCUSDT") 0 (2 * maxWindow)
    fun e e' ⟨_, _, he⟩ ⟨_, _, he'⟩ => hids e (mem_filter.1 he).1 e' (mem_filter.1 he').1
  have hread : executions (twoPages twoWeeks) "BTCUSDT" 0 (2 * maxWindow) = .ok twoWeeks := by
    rw [executions, windows_two]
    decide +kernel
  have hlisted : (fundingPages steadySource "BTCUSDT" 0 (2 * maxWindow) maxPages 1 (2 * maxWindow) []).isOk := by
    decide +kernel
  cases hfound : fundingPages steadySource "BTCUSDT" 0 (2 * maxWindow) maxPages 1 (2 * maxWindow) [] with
  | error =>
    rw [hfound] at hlisted
    cases hlisted
  | ok found =>
    refine ⟨found, rfl, (hexact.1 found hfound 0).2 ?_, hread, (hexact.2.2.1 twoWeeks hread).1⟩
    exact ⟨by decide, 0, by decide +kernel, by decide⟩

end Schurfer.Costs
