import Mathlib.Tactic
import Schurfer.Lib.Except

/-!
# Reading archived and live history as one

`read_lsr` takes the rows below the fence from the verified archive files and those above it from the table. A prune
may take rows from under the snapshot; the fence, read again at the end, tells.
-/

namespace Schurfer.LsrHistory

open List Except

inductive RowState
  | exported
  | archived
  | verified
  | superseded
deriving DecidableEq

structure CatalogRow where
  state : RowState
  rangeStart : ℤ
  rangeEnd : ℤ
  fileName : String
  nonempty : rangeStart < rangeEnd

inductive ArchiveError
  | notCovered (cursor upTo : ℤ)
  | overlap (rangeStart : ℤ)
  | notFetched (fileNames : List String)
  | fenceKeptMoving

structure Store (ρ : Type) where
  accepted : List ρ
  present : List ρ
  fence : Option ℤ
  catalog : List CatalogRow

inductive Change (ρ : Type)
  | insert (r : ρ)
  | catalog (rows : List CatalogRow)
  | prune (chunks : List (ℤ × ℤ)) (closedBefore : ℤ)

structure Attempt (ρ : Type) where
  before : List (Change ρ)
  during : List (Change ρ)
  seen : List ρ
  fetched : List String
  after : List (Change ρ)

def readAttempts : ℕ := 3

def Store.init (ρ : Type) : Store ρ := ⟨[], [], none, []⟩

variable {ρ : Type} [DecidableEq ρ] (time : ρ → ℤ) (files : String → List ρ)

def Store.below (s : Store ρ) (t : ℤ) : Bool := s.fence.any (t < ·)

def inside (a b : ℤ) (r : ρ) : Bool := a ≤ time r && time r < b

def Store.change (s : Store ρ) : Change ρ → Store ρ
  | .insert r =>
    if s.below (time r) || r ∈ s.present then s
    else { s with accepted := r :: s.accepted, present := r :: s.present }
  | .catalog rows => { s with catalog := rows }
  | .prune chunks closedBefore =>
    -- the guard keeps the fence from moving back, and a prune moves it past its chunks
    if s.below closedBefore || chunks.any (closedBefore < ·.2) then s
    else { s with present := s.present.filter fun r => !chunks.any fun c => inside time c.1 c.2 r,
                  fence := some closedBefore }

def Store.changes (s : Store ρ) (cs : List (Change ρ)) : Store ρ := cs.foldl (Store.change time) s

def liveRows (catalog : List CatalogRow) : List CatalogRow :=
  (catalog.filter (·.state ≠ .superseded)).foldl (fun rows r => rows.filter (·.rangeStart ≠ r.rangeStart) ++ [r]) []

def tile (split : ℤ) (first : Bool) (cursor : ℤ) : List CatalogRow → Except ArchiveError Unit
  | [] => if cursor < split then .error (.notCovered cursor split) else .ok ()
  | row :: rows =>
    if cursor < row.rangeStart then .error (.notCovered cursor row.rangeStart)
    else if !first && row.rangeStart < cursor then .error (.overlap row.rangeStart)
    else tile split false row.rangeEnd rows

def coveringRanges (catalog : List CatalogRow) (start split : ℤ) : Except ArchiveError (List CatalogRow) := do
  let overlapping := catalog.filter fun r => r.state = .verified && r.rangeStart < split && start < r.rangeEnd
  let verified := overlapping.insertionSort (·.rangeStart ≤ ·.rangeStart)
  tile split true start verified
  return verified

def archivedRows (snap : Store ρ) (start split : ℤ) (fetched : List String) : Except ArchiveError (List ρ) := do
  if start < split then
    let ranges ← coveringRanges (liveRows snap.catalog) start split
    let missing := (ranges.map (·.fileName)).filter (· ∉ fetched)
    Except.raiseIf (missing ≠ []) (.notFetched missing)
    return (ranges.flatMap fun r => files r.fileName).filter (inside time start split)
  else return []

def Store.split (s : Store ρ) (start stop : ℤ) : ℤ :=
  match s.fence with
  | none => start
  | some fence => min (max fence start) stop

def readLoop (start stop : ℤ) : Store ρ → List (Attempt ρ) → Except ArchiveError (List ρ × Store ρ)
  | _, [] => .error .fenceKeptMoving
  | s, a :: rest => do
    let snap := s.changes time a.before
    let split := snap.split start stop
    let copied := snap.changes time a.during
    let live := snap.present.filter fun r => inside time split stop r && (r ∈ copied.present || r ∈ a.seen)
    let archived ← archivedRows time files snap start split a.fetched
    let last := copied.changes time a.after
    if last.fence = snap.fence then return (archived ++ live, snap)
    else readLoop start stop last rest

def readLsr (start stop : ℤ) (attempts : Fin readAttempts → Attempt ρ) : Except ArchiveError (List ρ × Store ρ) :=
  readLoop time files start stop (Store.init ρ) (List.ofFn attempts)

/-- The file of a verified range that begins below the fence holds, below the fence, the rows accepted there. -/
def Faithful (s : Store ρ) : Prop :=
  ∀ row ∈ s.catalog, row.state = .verified → s.below row.rangeStart → (files row.fileName).Nodup ∧
    ∀ r, s.below (time r) → (r ∈ files row.fileName ↔ r ∈ s.accepted ∧ inside time row.rangeStart row.rangeEnd r)

/-- The rows of the interval that were accepted, each once and nothing else. -/
def Exact (s : Store ρ) (start stop : ℤ) (rows : List ρ) : Prop :=
  rows.Nodup ∧ ∀ r, r ∈ rows ↔ r ∈ s.accepted ∧ inside time start stop r

structure Store.Ok (s : Store ρ) : Prop where
  nodup : s.present.Nodup
  accepted : ∀ r ∈ s.present, r ∈ s.accepted
  pruned : ∀ r ∈ s.accepted, r ∉ s.present → s.below (time r)

variable {time files} {s : Store ρ} {r : ρ} {start stop split : ℤ} {rows : List ρ}

omit [DecidableEq ρ] in
theorem inside_iff {a b : ℤ} : inside time a b r ↔ a ≤ time r ∧ time r < b := by
  simp [inside]

omit [DecidableEq ρ] in
theorem below_iff {t : ℤ} : s.below t ↔ ∃ f, s.fence = some f ∧ t < f := by
  simp [Store.below, Option.any_eq_true]

theorem change_spec (time : ρ → ℤ) (s : Store ρ) (c : Change ρ) : (∀ t, s.below t → (s.change time c).below t) ∧
      (∀ r ∈ s.present, r ∈ (s.change time c).present ∨ (s.change time c).below (time r)) := by
  cases c with
  | insert r =>
    unfold Store.change
    dsimp only
    split
    · exact ⟨fun _ h => h, fun _ h => .inl h⟩
    · exact ⟨fun _ h => h, fun _ h => .inl (mem_cons_of_mem r h)⟩
  | catalog => exact ⟨fun _ h => h, fun _ h => .inl h⟩
  | prune chunks closedBefore =>
    unfold Store.change
    dsimp only
    split
    · exact ⟨fun _ h => h, fun _ h => .inl h⟩
    · rename_i hok
      simp only [Bool.or_eq_true, below_iff, any_eq_true, decide_eq_true_iff, not_or, not_exists, not_and,
        not_lt] at hok
      refine ⟨fun t ht => ?_, fun r hr => ?_⟩
      · obtain ⟨f, hf, hlt⟩ := below_iff.1 ht
        exact below_iff.2 ⟨closedBefore, rfl, hlt.trans_le (hok.1 f hf)⟩
      · by_cases hin : chunks.any fun c => inside time c.1 c.2 r
        · obtain ⟨c, hc, his⟩ := any_eq_true.1 hin
          exact .inr (below_iff.2 ⟨closedBefore, rfl, (inside_iff.1 his).2.trans_le (hok.2 c hc)⟩)
        · exact .inl (mem_filter.2 ⟨hr, by simpa using hin⟩)

theorem changes_spec (cs : List (Change ρ)) (s : Store ρ) : (∀ t, s.below t → (s.changes time cs).below t) ∧
      (∀ r ∈ s.present, r ∈ (s.changes time cs).present ∨ (s.changes time cs).below (time r)) := by
  induction cs generalizing s with
  | nil => exact ⟨fun _ h => h, fun _ h => .inl h⟩
  | cons c cs ih =>
    obtain ⟨hbl, hpr⟩ := change_spec time s c
    obtain ⟨hbl', hpr'⟩ := ih (s.change time c)
    refine ⟨fun t ht => hbl' t (hbl t ht), fun r hr => ?_⟩
    rcases hpr r hr with hr | hr
    · exact hpr' r hr
    · exact .inr (hbl' _ hr)

theorem Store.Ok.change (hs : s.Ok time) (c : Change ρ) : (s.change time c).Ok time := by
  obtain ⟨hbl, hpr⟩ := change_spec time s c
  have hpn : ∀ r ∈ s.accepted, r ∉ (s.change time c).present → (s.change time c).below (time r) := by
    intro r hr hnot
    by_cases hr' : r ∈ s.present
    · exact (hpr r hr').resolve_left hnot
    · exact hbl _ (hs.pruned r hr hr')
  cases c with
  | insert r =>
    unfold Store.change at hpn ⊢
    dsimp only at hpn ⊢
    split
    · exact hs
    · rename_i hnew
      rw [if_neg hnew] at hpn
      simp only [Bool.or_eq_true, decide_eq_true_iff, not_or] at hnew
      refine ⟨nodup_cons.2 ⟨hnew.2, hs.nodup⟩, fun r' hr' => ?_, fun r' hr' hnot => ?_⟩
      · rcases mem_cons.1 hr' with rfl | hr'
        · exact mem_cons_self
        · exact mem_cons_of_mem r (hs.accepted r' hr')
      · rcases mem_cons.1 hr' with rfl | hr'
        · exact absurd mem_cons_self hnot
        · exact hpn r' hr' hnot
  | catalog => exact ⟨hs.nodup, hs.accepted, hs.pruned⟩
  | prune chunks closedBefore =>
    unfold Store.change at hpn ⊢
    dsimp only at hpn ⊢
    split
    · exact hs
    · rename_i hok
      rw [if_neg hok] at hpn
      exact ⟨hs.nodup.filter _, fun r hr => hs.accepted r (mem_filter.1 hr).1, hpn⟩

theorem Store.Ok.changes (hs : s.Ok time) (cs : List (Change ρ)) : (s.changes time cs).Ok time := by
  induction cs generalizing s with
  | nil => exact hs
  | cons c cs ih => exact ih (hs.change c)

theorem tile_spec {first : Bool} {cursor : ℤ} {rows : List CatalogRow} (h : tile split first cursor rows = .ok ()) :
    (∀ t, cursor ≤ t → t < split → ∃ row ∈ rows, row.rangeStart ≤ t ∧ t < row.rangeEnd) ∧
      rows.Pairwise (·.rangeEnd ≤ ·.rangeStart) ∧ (first = false → ∀ row ∈ rows, cursor ≤ row.rangeStart) := by
  induction rows generalizing first cursor with
  | nil =>
    unfold tile at h
    split at h
    · cases h
    · refine ⟨fun t hle hlt => ?_, .nil, nofun⟩
      omega
  | cons row rows ih =>
    unfold tile at h
    split at h
    · cases h
    split at h
    · cases h
    rename_i hst hov
    obtain ⟨hcv, hsr, hfr⟩ := ih h
    have hne := row.nonempty
    refine ⟨fun t hle hlt => ?_, pairwise_cons.2 ⟨hfr rfl, hsr⟩, ?_⟩
    · by_cases ht : t < row.rangeEnd
      · exact ⟨row, mem_cons_self, by omega, ht⟩
      · obtain ⟨row', hrow', hin⟩ := hcv t (not_lt.1 ht) hlt
        exact ⟨row', mem_cons_of_mem row hrow', hin⟩
    · rintro rfl row' hrow'
      rw [Bool.not_false, Bool.true_and, decide_eq_true_iff, not_lt] at hov
      rcases mem_cons.1 hrow' with rfl | hrow'
      · exact hov
      · have := hfr rfl row' hrow'
        omega

theorem mem_liveRows {catalog : List CatalogRow} {row : CatalogRow} (h : row ∈ liveRows catalog) : row ∈ catalog := by
  suffices hfo : ∀ (l acc : List CatalogRow),
      row ∈ l.foldl (fun rows r => rows.filter (·.rangeStart ≠ r.rangeStart) ++ [r]) acc → row ∈ acc ∨ row ∈ l by
    rcases hfo _ _ h with h | h
    · cases h
    · exact (mem_filter.1 h).1
  intro l
  induction l with
  | nil => exact fun acc h => .inl h
  | cons r l ih =>
    intro acc h
    rcases ih _ h with h | h
    · rcases mem_append.1 h with h | h
      · exact .inl (mem_filter.1 h).1
      · exact .inr (mem_singleton.1 h ▸ mem_cons_self)
    · exact .inr (mem_cons_of_mem r h)

omit [DecidableEq ρ] in
theorem Store.split_below (hlt : start < s.split start stop) : ∀ t < s.split start stop, s.below t := by
  unfold Store.split at hlt ⊢
  split at hlt
  · omega
  · rename_i f hf
    exact fun t ht => below_iff.2 ⟨f, hf, by omega⟩

omit [DecidableEq ρ] in
theorem inside_split : inside time start stop r ↔
    inside time start (s.split start stop) r ∨ inside time (s.split start stop) stop r := by
  rw [inside_iff, inside_iff, inside_iff, Store.split]
  split <;> omega

theorem archivedRows_spec {fetched : List String} (hft : Faithful time files s)
    (h : archivedRows time files s start (s.split start stop) fetched = .ok rows) :
    Exact time s start (s.split start stop) rows := by
  unfold archivedRows at h
  split at h
  · rename_i hlt
    have hbl := s.split_below hlt
    obtain ⟨ranges, hrn, h⟩ := bind_ok.1 h
    obtain ⟨-, -, h⟩ := bind_ok.1 h
    cases h
    obtain ⟨⟨⟩, htl, hvr⟩ := bind_ok.1 hrn
    obtain ⟨hcv, hsr, -⟩ := tile_spec htl
    rw [ok.inj hvr] at hcv hsr
    have hfl : ∀ row ∈ ranges, (files row.fileName).Nodup ∧ ∀ r, s.below (time r) →
        (r ∈ files row.fileName ↔ r ∈ s.accepted ∧ inside time row.rangeStart row.rangeEnd r) := by
      intro row hrow
      rw [← ok.inj hvr, mem_insertionSort, mem_filter] at hrow
      simp only [Bool.and_eq_true, decide_eq_true_iff] at hrow
      exact hft row (mem_liveRows hrow.1) hrow.2.1.1 (hbl _ hrow.2.1.2)
    rw [filter_flatMap]
    refine ⟨nodup_flatMap.2 ⟨fun row hrow => (hfl row hrow).1.filter _, ?_⟩, fun r => ?_⟩
    · refine hsr.imp_of_mem fun {row row'} hrow hrow' hle r hr hr' => ?_
      obtain ⟨hr, hin⟩ := mem_filter.1 hr
      have hb := hbl _ (inside_iff.1 hin).2
      have h1 := inside_iff.1 (((hfl row hrow).2 r hb).1 hr).2
      have h2 := inside_iff.1 (((hfl row' hrow').2 r hb).1 (mem_filter.1 hr').1).2
      omega
    · simp only [mem_flatMap, mem_filter]
      constructor
      · rintro ⟨row, hrow, hr, hin⟩
        exact ⟨(((hfl row hrow).2 r (hbl _ (inside_iff.1 hin).2)).1 hr).1, hin⟩
      · rintro ⟨hr, hin⟩
        obtain ⟨hle, hlt⟩ := inside_iff.1 hin
        obtain ⟨row, hrow, hra⟩ := hcv (time r) hle hlt
        exact ⟨row, hrow, ((hfl row hrow).2 r (hbl _ hlt)).2 ⟨hr, inside_iff.2 hra⟩, hin⟩
  · rename_i hle
    cases h
    refine ⟨nodup_nil, fun r => ⟨nofun, fun ⟨_, hr⟩ => ?_⟩⟩
    rw [inside_iff] at hr
    omega

theorem live_spec (hs : s.Ok time) {copied last : Store ρ} (start stop : ℤ) (seen : List ρ)
    (hcp : ∀ r ∈ s.present, r ∈ copied.present ∨ copied.below (time r))
    (hlast : ∀ t, copied.below t → last.below t) (hfn : last.fence = s.fence) : Exact time s (s.split start stop) stop
      (s.present.filter fun r => inside time (s.split start stop) stop r && (r ∈ copied.present || r ∈ seen)) := by
  refine ⟨hs.nodup.filter _, fun r => ?_⟩
  simp only [mem_filter, Bool.and_eq_true, Bool.or_eq_true, decide_eq_true_iff]
  refine ⟨fun ⟨hr, hin, _⟩ => ⟨hs.accepted r hr, hin⟩, fun ⟨hr, hin⟩ => ?_⟩
  have hav : ¬ s.below (time r) := by
    rw [below_iff]
    rintro ⟨f, hf, hlt⟩
    rw [inside_iff, Store.split, hf] at hin
    dsimp only at hin
    omega
  have hpr : r ∈ s.present := by
    by_contra hnot
    exact hav (hs.pruned r hr hnot)
  refine ⟨hpr, hin, .inl ((hcp r hpr).resolve_right fun hbl => hav ?_)⟩
  rw [Store.below, ← hfn]
  exact hlast _ hbl

theorem readLoop_exact (hs : s.Ok time) {attempts : List (Attempt ρ)} {snap : Store ρ}
    (h : readLoop time files start stop s attempts = .ok (rows, snap)) (hft : Faithful time files snap) :
    Exact time snap start stop rows := by
  induction attempts generalizing s with
  | nil => cases h
  | cons a rest ih =>
    obtain ⟨archived, har, h⟩ := bind_ok.1 h
    dsimp only at h
    split at h
    · rename_i hfn
      cases h
      obtain ⟨hnd, hold⟩ := archivedRows_spec hft har
      obtain ⟨hnd', hlive⟩ := live_spec (hs.changes a.before) start stop a.seen (changes_spec a.during _).2
        (changes_spec a.after _).1 hfn
      refine ⟨nodup_append.2 ⟨hnd, hnd', ?_⟩, fun r => ?_⟩
      · rintro r hr r' hr' rfl
        have h1 := inside_iff.1 ((hold r).1 hr).2
        have h2 := inside_iff.1 ((hlive r).1 hr').2
        omega
      · rw [mem_append, hold, hlive, ← and_or_left, ← inside_split]
    · exact ih (((hs.changes _).changes _).changes _) h

/-- **A joined history read is exact**: what `read_lsr` returns are the rows of the interval that were accepted
before its last snapshot, pruned or not, each once. -/
theorem readLsr_exact (time : ρ → ℤ) (files : String → List ρ) (start stop : ℤ)
    (attempts : Fin readAttempts → Attempt ρ) {rows : List ρ} {snap : Store ρ}
    (h : readLsr time files start stop attempts = .ok (rows, snap)) (hfaithful : Faithful time files snap) :
    Exact time snap start stop rows :=
  readLoop_exact ⟨nodup_nil, nofun, nofun⟩ h hfaithful

def sampleAttempts (before : List (Change ℤ)) (i : Fin readAttempts) : Attempt ℤ :=
  ⟨if i.val = 0 then before else [], [], [], ["w"], []⟩

def week : CatalogRow := ⟨.verified, 0, 10, "w", by decide⟩

def prunedWeek : List (Change ℤ) := [.insert 1, .insert 2, .insert 12, .catalog [week], .prune [(0, 10)] 10]

theorem prunedWeek_read :
    readLsr id (fun _ => [1, 2]) 0 20 (sampleAttempts prunedWeek) =
        .ok ([1, 2, 12], (Store.init ℤ).changes id prunedWeek) ∧
      Exact id ((Store.init ℤ).changes id prunedWeek) 0 20 [1, 2, 12] := by
  have hread : readLsr id (fun _ => [1, 2]) 0 20 (sampleAttempts prunedWeek) =
    .ok ([1, 2, 12], (Store.init ℤ).changes id prunedWeek) := rfl
  refine ⟨hread, readLsr_exact id (fun _ => [1, 2]) 0 20 _ hread fun row hrow _ _ => ⟨?_, fun r hr => ?_⟩⟩
  · exact (by decide : ([1, 2] : List ℤ).Nodup)
  obtain rfl : row = week := mem_singleton.1 hrow
  change r ∈ [1, 2] ↔ r ∈ [12, 2, 1] ∧ inside id 0 10 r
  rw [inside_iff]
  simp only [mem_cons, not_mem_nil, or_false, id]
  omega

def staleWeek : List (Change ℤ) := [.insert 1, .catalog [week], .insert 2, .prune [(-10, 0)] 5]

/-- No verified range lies below the fence as a whole, and the row at 2 is missed. -/
theorem staleWeek_read :
    readLsr id (fun _ => [1]) 0 20 (sampleAttempts staleWeek) = .ok ([1], (Store.init ℤ).changes id staleWeek) ∧
      (∀ row ∈ ((Store.init ℤ).changes id staleWeek).catalog, ∀ fence ∈ ((Store.init ℤ).changes id staleWeek).fence,
        ¬ row.rangeEnd ≤ fence) ∧ 2 ∈ ((Store.init ℤ).changes id staleWeek).accepted :=
  ⟨rfl, by decide, by decide⟩

end Schurfer.LsrHistory
