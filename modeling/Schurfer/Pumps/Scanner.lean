import Schurfer.Lib.Dict
import Schurfer.Pumps.Episodes

/-!
# When a pump episode closes

The scan loop of one process. The miss counter is reset by the upsert alone, so an upsert that fails leaves misses
standing over a scan that lists the base. `upsertPumps_alone`, `closeRetrace_alone`: the two calls of the loop compute
what the transactions of `Schurfer.Pumps.Episodes` commit when no other one has written.
-/

namespace Schurfer.Pumps.Scanner

open Overlay List

variable {β : Type} [DecidableEq β]

structure Scan (β : Type) where
  pumps : List β
  errors : Bool

def runOnce (results : List (Option (List β))) : Option (Scan β) :=
  if results.all Option.isNone then none
  else some ⟨(results.flatMap fun r => r.getD []).dedup, results.any Option.isNone⟩

def upsertPumps : ℕ → List β → List (Row β) → List (Row β)
  | _, [], rows => rows
  | nextId, b :: pumps, rows =>
    match rows.find? (·.isOpen b) with
    | some r => upsertPumps nextId pumps (onto Row.id [r.seen] rows)
    | none => upsertPumps (nextId + 1) pumps (onto Row.id [.new nextId b (maxEpisode b rows + 1)] rows)

variable (closeAfterMisses : ℕ)

def isDue (r : Row β) : Bool := !r.closed && closeAfterMisses ≤ r.missCount

def closeDue (r : Row β) : Row β := if isDue closeAfterMisses r then r.close else r

def closeRetrace (liveBases : List β) (closeAfterMisses : ℕ) (rows : List (Row β)) : List (Row β) × List β :=
  let rows := rows.map fun r => if !r.closed && r.base ∉ liveBases then r.missed else r
  (rows.map (closeDue closeAfterMisses), (rows.filter (isDue closeAfterMisses)).map Row.base)

structure Cycle (β : Type) where
  results : List (Option (List β))
  nextId : ℕ
  upserted : Bool
  retraced : Bool

structure State (β : Type) where
  rows : List (Row β)
  scans : List (Scan β)
  closed : List β

def State.cycle (s : State β) (c : Cycle β) : State β :=
  match runOnce c.results with
  | none => { s with closed := [] }
  | some scan =>
    let rows := if c.upserted then upsertPumps c.nextId scan.pumps s.rows else s.rows
    let after := if !scan.errors && c.retraced then closeRetrace scan.pumps closeAfterMisses rows else (rows, [])
    ⟨after.1, scan :: s.scans, after.2⟩

def stateAfter (rows : List (Row β)) (cycles : List (Cycle β)) (k : ℕ) : State β :=
  Run.stateAt (State.cycle closeAfterMisses) ⟨rows, [], []⟩ cycles k

section

variable {P : ℕ} {i : Fin P} {s : Pumps.State β P} {view ws : List (Row β)} {looked : List β} {ids : List ℕ}
  {episodeIds : List (β × ℕ)} {n : ℕ}

/-- The statements of the transaction of process `i`, one after the other. -/
inductive Runs (i : Fin P) : Pumps.State β P → Pumps.State β P → Prop
  | refl (s : Pumps.State β P) : Runs i s s
  | step {s s' : Pumps.State β P} : Runs i (s.next i 0) s' → Runs i s s'

theorem lt_maxEpisode {r : Row β} (hr : r ∈ view) : r.episode < maxEpisode r.base view + 1 :=
  Nat.lt_succ_of_le (List.le_max_of_le (mem_map_of_mem (mem_filter.2 ⟨hr, decide_eq_true rfl⟩)) le_rfl)

variable (halone : ∀ j, j ≠ i → (s.txns j).writes = [])

include halone

omit [DecidableEq β] in
theorem no_other_writes {t : Txn β} (p : Row β → Prop) :
    ¬ ∃ j, j ≠ i ∧ ∃ w ∈ (Function.update s.txns i t j).writes, p w := by
  rintro ⟨j, hj, w, hw, -⟩
  rw [Function.update_of_ne hj, halone j hj] at hw
  cases hw

theorem runs_selectOpen (hview : onto Row.id ws s.rows = view) (hnodup : (view.map Row.id).Nodup)
    (hbelow : ∀ r ∈ view, r.id < s.nextId) (pumps : List β) : ∃ nextId',
    Runs i (s.setTxn i ⟨.selectOpen pumps, ws, looked, episodeIds⟩)
      (State.setTxn ⟨upsertPumps s.nextId pumps view, nextId', s.txns⟩ i (.begin .idle)) := by
  induction pumps generalizing s view ws looked episodeIds with
  | nil =>
    refine ⟨s.nextId, .step ?_⟩
    simp only [State.next, State.setTxn, Function.update_self, Function.update_idem, Txn.view, hview]
    exact .refl _
  | cons b pumps ih =>
    -- the row of the pump goes over what the transaction sees
    have hput : ∀ (row : Row β) {n : ℕ} {ids : List (β × ℕ)}, row.id < n → s.nextId ≤ n → ∃ nextId',
        Runs i (State.setTxn ⟨s.rows, n, s.txns⟩ i ⟨.selectOpen pumps, onto Row.id [row] ws, b :: looked, ids⟩)
          (State.setTxn ⟨upsertPumps n pumps (onto Row.id [row] view), nextId', s.txns⟩ i (.begin .idle)) := by
      intro row n ids hlt hle
      refine ih halone ?_ (nodup_onto (nodup_singleton _) hnodup) fun r hr => ?_
      · rw [onto_onto, hview]
      · rcases mem_onto.1 hr with hr | ⟨hr, -⟩
        · rwa [mem_singleton.1 hr]
        · exact (hbelow r hr).trans_le hle
    unfold upsertPumps
    split
    · rename_i r hfind
      have hr := mem_of_find?_eq_some hfind
      obtain ⟨n, hrun⟩ := hput r.seen (hbelow r hr) le_rfl
      refine ⟨n, .step (.step ?_)⟩
      simp only [State.next, State.setTxn, State.update, Function.update_self, Function.update_idem, Txn.view, hview,
        rotate_zero, head?_filter, hfind, Dict.filter_key_eq hnodup hr, if_neg (no_other_writes halone _)]
      exact hrun
    · rename_i hfind
      have hnew : ¬ ∃ r ∈ view, r.base = b ∧ r.episode = maxEpisode b view + 1 := by
        rintro ⟨r, hr, rfl, hepisode⟩
        exact (lt_maxEpisode hr).ne hepisode
      obtain ⟨n, hrun⟩ := hput (.new s.nextId b _) (Nat.lt_succ_self _) (Nat.le_succ _)
      refine ⟨n, .step (.step (.step ?_))⟩
      simp only [State.next, State.setTxn, Function.update_self, Function.update_idem, Txn.view, hview, rotate_zero,
        head?_filter, hfind, if_neg hnew, if_neg (no_other_writes halone _)]
      exact hrun

theorem runs_incrementMiss (hview : onto Row.id ws s.rows = view) (hnodup : (view.map Row.id).Nodup)
    (hids : ids.Nodup) : ∃ rows',
    Runs i (s.setTxn i ⟨.incrementMiss ids n, ws, looked, episodeIds⟩)
      (State.setTxn ⟨rows', s.nextId, s.txns⟩ i (.begin .idle)) ∧
    ∀ r, r ∈ rows' ↔ ∃ r0 ∈ view, closeDue n (if r0.id ∈ ids then r0.missed else r0) = r := by
  induction ids generalizing view ws with
  | nil =>
    refine ⟨onto Row.id ((view.filter (isDue n)).map Row.close) view, .step (.step (.step ?_)), fun r => ?_⟩
    · simp only [State.next, State.setTxn, State.update, Function.update_self, Function.update_idem, Txn.view, hview,
        if_neg (no_other_writes halone _), Txn.write, onto_onto]
      exact .refl _
    · rw [mem_onto_map hnodup keeps_close.id]
      simp [closeDue]
  | cons id ids ih =>
    obtain ⟨hid, hids⟩ := nodup_cons.1 hids
    have hrows : ((view.filter (·.id = id)).map Row.missed).map Row.id |>.Nodup := by
      rw [map_map]
      exact hnodup.sublist (filter_sublist.map _)
    obtain ⟨rows', hrun, hmem⟩ := ih (by rw [onto_onto, hview]) (nodup_onto hrows hnodup) hids
    refine ⟨rows', .step ?_, fun r => ?_⟩
    · simp only [State.next, State.setTxn, State.update, Function.update_self, Function.update_idem, Txn.view, hview,
        if_neg (no_other_writes halone _)]
      exact hrun
    · simp only [hmem, mem_onto_map hnodup keeps_missed.id, decide_eq_true_eq, exists_exists_and_eq_and]
      refine exists_congr fun r0 => and_congr_right fun _ => ?_
      by_cases hr0 : r0.id = id
      · simp [hr0, Row.missed, hid]
      · simp [hr0]

variable (hs : s.Ok) (hidle : (s.txns i).stage = .idle)

include hs hidle

/-- A transaction of `upsert_pumps` that runs while no other one has written commits what `upsertPumps` computes. -/
theorem upsertPumps_alone (pumps : List β) : ∃ nextId', Runs i (s.step (.upsertPumps i pumps))
    (State.setTxn ⟨upsertPumps s.nextId pumps s.rows, nextId', s.txns⟩ i (.begin .idle)) := by
  rw [State.step, State.enter, hidle]
  exact runs_selectOpen halone onto_nil hs.nodup hs.rowsBelow pumps

/-- The same of `close_retrace`. -/
theorem closeRetrace_alone (liveBases : List β) (n : ℕ) : ∃ rows', Runs i (s.step (.closeRetrace i liveBases n))
    (State.setTxn ⟨rows', s.nextId, s.txns⟩ i (.begin .idle)) ∧
      ∀ r, r ∈ rows' ↔ r ∈ (closeRetrace liveBases n s.rows).1 := by
  obtain ⟨rows', hrun, hmem⟩ := runs_incrementMiss halone onto_nil hs.nodup (hs.nodup.sublist (filter_sublist.map _))
  refine ⟨rows', ?_, fun r => ?_⟩
  · rw [State.step, State.enter, hidle]
    refine .step ?_
    simp only [State.next, State.setTxn, Function.update_self, Function.update_idem, Txn.view, Txn.begin, onto_nil]
    exact hrun
  · rw [hmem, closeRetrace, map_map, mem_map]
    refine exists_congr fun r0 => and_congr_right fun hr0 => ?_
    simp only [key_mem_filter hs.nodup hr0, Function.comp_apply]

end

/-- The base is absent from the last `n` scans without errors and from every scan since the first of them. -/
def absentFor (b : β) : ℕ → List (Scan β) → Bool
  | 0, _ => true
  | _ + 1, [] => false
  | n + 1, scan :: scans => b ∉ scan.pumps && absentFor b (if scan.errors then n + 1 else n) scans

/-- One open episode a base, none of them with misses. -/
def Fresh (rows : List (Row β)) : Prop := OneOpen rows ∧ ∀ r ∈ rows, r.closed = false → r.missCount = 0

/-- The upsert commits when the scan lists a base whose open episode has misses. -/
def Recorded (s : State β) (c : Cycle β) : Prop :=
  c.upserted = false → ∀ scan ∈ runOnce c.results, ∀ r ∈ s.rows, r.closed = false → r.base ∈ scan.pumps →
    r.missCount = 0

variable {b : β} {n : ℕ} {rows : List (Row β)} {scan : Scan β} {scans : List (Scan β)} {r : Row β} {s : State β}
  {c : Cycle β}

theorem absentFor_zero : absentFor b 0 scans := by
  cases scans with
  | nil | cons => rfl

theorem absentFor_pred (h : absentFor b (n + 1) scans) : absentFor b n scans := by
  induction scans generalizing n with
  | nil => cases h
  | cons scan scans ih =>
    cases n with
    | zero => rfl
    | succ n =>
      unfold absentFor at h ⊢
      rw [Bool.and_eq_true] at h ⊢
      refine ⟨h.1, ?_⟩
      split
      · rw [if_pos ‹_›] at h
        exact ih h.2
      · rw [if_neg ‹_›] at h
        exact ih h.2

theorem absentFor_of_le {m : ℕ} (hnm : n ≤ m) (h : absentFor b m scans) : absentFor b n scans := by
  induction hnm with
  | refl => exact h
  | step _ ih => exact ih (absentFor_pred h)

theorem absentFor_cons (hb : b ∉ scan.pumps) (h : absentFor b n scans) : absentFor b n (scan :: scans) := by
  cases n with
  | zero => rfl
  | succ n =>
    unfold absentFor
    rw [Bool.and_eq_true]
    refine ⟨decide_eq_true hb, ?_⟩
    split
    · exact h
    · exact absentFor_pred h

theorem absentFor_succ (hb : b ∉ scan.pumps) (herrors : scan.errors = false) (h : absentFor b n scans) :
    absentFor b (n + 1) (scan :: scans) := by
  unfold absentFor
  rw [Bool.and_eq_true, herrors]
  exact ⟨decide_eq_true hb, h⟩

theorem upsertPumps_spec {nextId : ℕ} (pumps : List β) (hone : OneOpen rows) :
    OneOpen (upsertPumps nextId pumps rows) ∧
      ∀ r ∈ upsertPumps nextId pumps rows, r.closed = false → r.missCount = 0 ∨ r.base ∉ pumps ∧ r ∈ rows := by
  induction pumps generalizing nextId rows with
  | nil => exact ⟨hone, fun r hr _ => .inr ⟨not_mem_nil, hr⟩⟩
  | cons b pumps ih =>
    -- the row of the pump takes the place of the open row of its base
    have hput : ∀ (row : Row β) {n : ℕ}, row.isOpen b → row.missCount = 0 →
        (∀ r ∈ rows, r.isOpen b → r.id = row.id) → OneOpen (upsertPumps n pumps (onto Row.id [row] rows)) ∧
          ∀ r ∈ upsertPumps n pumps (onto Row.id [row] rows), r.closed = false →
            r.missCount = 0 ∨ r.base ∉ b :: pumps ∧ r ∈ rows := by
      intro row n hopen hzero hid
      obtain ⟨hone', hrest⟩ := @ih _ n (hone.put hopen hid)
      refine ⟨hone', fun r hr hclosed => ?_⟩
      rcases hrest r hr hclosed with hmiss | ⟨hnot, hr⟩
      · exact .inl hmiss
      rcases mem_onto.1 hr with hr | ⟨hr, hne⟩
      · exact .inl (mem_singleton.1 hr ▸ hzero)
      · refine .inr ⟨not_mem_cons_of_ne_of_not_mem (fun hb => hne ?_) hnot, hr⟩
        simp [hid r hr (Row.isOpen_iff.2 ⟨hclosed, hb⟩)]
    unfold upsertPumps
    split
    · rename_i r hfind
      have hopen : r.isOpen b := find?_some hfind
      exact hput r.seen hopen rfl fun r' hr' ho' => hone b r' hr' ho' r (mem_of_find?_eq_some hfind) hopen
    · rename_i hnone
      exact hput _ (Row.isOpen_iff.2 ⟨rfl, rfl⟩) rfl fun r hr ho => absurd ho (find?_eq_none.1 hnone r hr)

structure Counted (n : ℕ) (s : State β) : Prop where
  one : OneOpen s.rows
  absent : ∀ r ∈ s.rows, r.closed = false → absentFor r.base r.missCount s.scans
  closed : ∀ b ∈ s.closed, absentFor b n s.scans

theorem Counted.upserted (h : Counted n s) (hc : Recorded s c) (hscan : runOnce c.results = some scan) :
    OneOpen (if c.upserted then upsertPumps c.nextId scan.pumps s.rows else s.rows) ∧
      ∀ r ∈ if c.upserted then upsertPumps c.nextId scan.pumps s.rows else s.rows, r.closed = false →
        r.missCount = 0 ∨ r.base ∉ scan.pumps ∧ absentFor r.base r.missCount s.scans := by
  split
  · obtain ⟨hone, hspec⟩ := upsertPumps_spec scan.pumps h.one
    refine ⟨hone, fun r hr hclosed => (hspec r hr hclosed).imp_right fun ⟨hnot, hr⟩ => ⟨hnot, h.absent r hr hclosed⟩⟩
  · rename_i hfailed
    refine ⟨h.one, fun r hr hclosed => ?_⟩
    by_cases hlisted : r.base ∈ scan.pumps
    · exact .inl (hc (Bool.not_eq_true _ ▸ hfailed) scan hscan r hr hclosed hlisted)
    · exact .inr ⟨hlisted, h.absent r hr hclosed⟩

theorem Counted.cycle (h : Counted n s) (hc : Recorded s c) : Counted n (s.cycle n c) := by
  unfold State.cycle
  cases hscan : runOnce c.results with
  | none => exact ⟨h.one, h.absent, nofun⟩
  | some scan =>
    obtain ⟨hone, hrows⟩ := h.upserted hc hscan
    dsimp only
    generalize (if c.upserted then upsertPumps c.nextId scan.pumps s.rows else s.rows) = rows at hone hrows
    have hnow : ∀ r ∈ rows, r.closed = false → absentFor r.base r.missCount (scan :: s.scans) := by
      intro r hr hclosed
      rcases hrows r hr hclosed with hmiss | ⟨hnot, habs⟩
      · rw [hmiss]
        rfl
      · exact absentFor_cons hnot habs
    split
    · rename_i hretraced
      simp only [Bool.and_eq_true, Bool.not_eq_true'] at hretraced
      have hkeeps := keeps_missed.ite fun r : Row β => !r.closed && r.base ∉ scan.pumps
      have hcount : ∀ r ∈ rows.map fun r => if !r.closed && r.base ∉ scan.pumps then r.missed else r,
          r.closed = false → absentFor r.base r.missCount (scan :: s.scans) := by
        intro r hr hclosed
        obtain ⟨r0, hr0, rfl⟩ := mem_map.1 hr
        have hclosed0 := hkeeps.closed r0 hclosed
        split
        · rename_i hout
          simp only [Bool.and_eq_true, Bool.not_eq_true', decide_eq_true_iff] at hout
          refine absentFor_succ hout.2 hretraced.1 ?_
          rcases hrows r0 hr0 hclosed0 with hmiss | ⟨-, habs⟩
          · rw [hmiss]
            exact absentFor_zero
          · exact habs
        · exact hnow r0 hr0 hclosed0
      refine ⟨(hone.map hkeeps).map (keeps_close.ite (isDue n)), fun r hr hclosed => ?_, fun b hb => ?_⟩
      · obtain ⟨r0, hr0, rfl⟩ := mem_map.1 hr
        unfold closeDue at hclosed ⊢
        split at hclosed
        · cases hclosed
        · rename_i hdue
          rw [if_neg hdue]
          exact hcount r0 hr0 hclosed
      · obtain ⟨r, hr, rfl⟩ := mem_map.1 hb
        obtain ⟨hr, hdue⟩ := mem_filter.1 hr
        simp only [isDue, Bool.and_eq_true, Bool.not_eq_true', decide_eq_true_iff] at hdue
        exact absentFor_of_le hdue.2 (hcount r hr hdue.1)
    · exact ⟨hone, hnow, nofun⟩

/-- **An episode closes only after consecutive misses**, in every run in which the upsert commits whenever a scan
lists a base whose open episode has misses. -/
theorem closes_after_misses (closeAfterMisses : ℕ) (rows : List (Row β)) (hrows : Fresh rows) (cycles : List (Cycle β))
    (hrecorded : ∀ k c, cycles[k]? = some c → Recorded (stateAfter closeAfterMisses rows cycles k) c) (k : ℕ) :
    ∀ b ∈ (stateAfter closeAfterMisses rows cycles k).closed,
      absentFor b closeAfterMisses (stateAfter closeAfterMisses rows cycles k).scans := by
  have hrun : ∀ k, Counted closeAfterMisses (stateAfter closeAfterMisses rows cycles k) := by
    refine Run.invariant ⟨hrows.1, fun r hr hclosed => ?_, nofun⟩ fun k c hc h => h.cycle (hrecorded k c hc)
    rw [hrows.2 r hr hclosed]
    rfl
  exact (hrun k).closed

def listed (upserted : Bool) : Cycle String := ⟨[some ["ABC"]], 1, upserted, true⟩

def absent : Cycle String := ⟨[some []], 2, true, true⟩

theorem closed_after_two : (stateAfter 2 [] [listed true, absent, absent] 3).closed = ["ABC"] ∧
    absentFor "ABC" 2 (stateAfter 2 [] [listed true, absent, absent] 3).scans := by
  have hclosed : (stateAfter 2 [] [listed true, absent, absent] 3).closed = ["ABC"] := by decide
  have hupserted : ∀ c ∈ [listed true, absent, absent], c.upserted := by decide
  refine ⟨hclosed, closes_after_misses 2 [] ⟨fun _ _ hr => ?_, nofun⟩ _ (fun k c hc hfailed => ?_) 3 "ABC" ?_⟩
  · cases hr
  · rw [hupserted c (mem_of_getElem? hc)] at hfailed
    cases hfailed
  · rw [hclosed]
    exact mem_singleton_self _

/-- The upsert of the third scan fails, so its misses stand. -/
theorem closed_though_listed : (stateAfter 2 [] [listed true, absent, listed false, absent] 4).closed = ["ABC"] ∧
    absentFor "ABC" 2 (stateAfter 2 [] [listed true, absent, listed false, absent] 4).scans = false := by decide

end Schurfer.Pumps.Scanner
