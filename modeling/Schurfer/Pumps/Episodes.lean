import Mathlib.Tactic
import Schurfer.Lib.Txn
import Schurfer.Lib.Overlay

/-!
# Pump episodes

`upsert_pumps` and `close_retrace` by any number of processes at once. A statement sees what was committed before it
and the writes of its own transaction; a step that has to wait leaves the state as it is. The open row of a base is
looked up without a lock.
-/

namespace Schurfer.Pumps

open Overlay List

variable {β : Type} {P : ℕ}

structure Row (β : Type) where
  id : ℕ
  base : β
  episode : ℕ
  closed : Bool
  missCount : ℕ

def Row.isOpen [DecidableEq β] (b : β) (r : Row β) : Bool := !r.closed && r.base = b

def Row.seen (r : Row β) : Row β := { r with missCount := 0 }

def Row.missed (r : Row β) : Row β := { r with missCount := r.missCount + 1 }

def Row.close (r : Row β) : Row β := { r with closed := true }

def Row.new (id : ℕ) (b : β) (episode : ℕ) : Row β := ⟨id, b, episode, false, 0⟩

def maxEpisode [DecidableEq β] (b : β) (rows : List (Row β)) : ℕ :=
  ((rows.filter (·.base = b)).map Row.episode).foldr max 0

inductive Stage (β : Type)
  | idle
  | selectOpen (pumps : List β)
  | updateEpisode (b : β) (id : ℕ) (pumps : List β)
  | numberEpisode (b : β) (pumps : List β)
  | insertEpisode (b : β) (episode : ℕ) (pumps : List β)
  | selectOpenAll (liveBases : List β) (closeAfterMisses : ℕ)
  | incrementMiss (ids : List ℕ) (closeAfterMisses : ℕ)
  | closeDue (closeAfterMisses : ℕ)
  | commit

structure Txn (β : Type) where
  stage : Stage β
  writes : List (Row β)
  looked : List β
  episodeIds : List (β × ℕ)

def Txn.begin (stage : Stage β) : Txn β := ⟨stage, [], [], []⟩

def Txn.view (t : Txn β) (rows : List (Row β)) : List (Row β) := onto Row.id t.writes rows

def Txn.write (t : Txn β) (ws : List (Row β)) : Txn β := { t with writes := onto Row.id ws t.writes }

def Txn.assign [DecidableEq β] (t : Txn β) (b : β) (id : ℕ) (pumps : List β) : Txn β :=
  { t with stage := .selectOpen pumps, episodeIds := (b, id) :: t.episodeIds.filter (·.1 ≠ b) }

structure State (β : Type) (P : ℕ) where
  rows : List (Row β)
  nextId : ℕ
  txns : Fin P → Txn β

def State.init : State β P := ⟨[], 1, fun _ => .begin .idle⟩

variable (s : State β P)

def State.setTxn (i : Fin P) (t : Txn β) : State β P :=
  { s with txns := Function.update s.txns i t }

def State.update (i : Fin P) (t : Txn β) (ws : List (Row β)) : State β P :=
  if ∃ j, j ≠ i ∧ ∃ w ∈ (s.txns j).writes, w.id ∈ ws.map Row.id then s else s.setTxn i (t.write ws)

/-- The transaction of the process makes its next statement. `pick` says which of several open rows the
SELECT returns first. -/
def State.next [DecidableEq β] (s : State β P) (i : Fin P) (pick : ℕ) : State β P :=
  let t := s.txns i
  let view := t.view s.rows
  match t.stage with
  | .idle => s
  | .selectOpen [] | .commit => State.setTxn { s with rows := view } i (.begin .idle)
  | .selectOpen (b :: pumps) =>
    let stage := match ((view.filter (·.isOpen b)).rotate pick).head? with
      | some r => Stage.updateEpisode b r.id pumps
      | none => .numberEpisode b pumps
    s.setTxn i { t with stage, looked := b :: t.looked }
  | .updateEpisode b id pumps => s.update i (t.assign b id pumps) ((view.filter (·.id = id)).map Row.seen)
  | .numberEpisode b pumps => s.setTxn i { t with stage := .insertEpisode b (maxEpisode b view + 1) pumps }
  | .insertEpisode b episode pumps =>
    if ∃ r ∈ view, r.base = b ∧ r.episode = episode then s.setTxn i (.begin .idle)
    else if ∃ j, j ≠ i ∧ ∃ w ∈ (s.txns j).writes, w.base = b ∧ w.episode = episode then s
    else State.setTxn { s with nextId := s.nextId + 1 } i
      ((t.assign b s.nextId pumps).write [.new s.nextId b episode])
  | .selectOpenAll liveBases n =>
    let ids := (view.filter fun r => !r.closed && r.base ∉ liveBases).map Row.id
    s.setTxn i { t with stage := .incrementMiss ids n }
  | .incrementMiss [] n => s.setTxn i { t with stage := .closeDue n }
  | .incrementMiss (id :: ids) n =>
    s.update i { t with stage := .incrementMiss ids n } ((view.filter (·.id = id)).map Row.missed)
  | .closeDue n =>
    s.update i { t with stage := .commit } ((view.filter fun r => !r.closed && n ≤ r.missCount).map Row.close)

inductive Op (β : Type) (P : ℕ)
  | upsertPumps (i : Fin P) (pumps : List β)
  | closeRetrace (i : Fin P) (liveBases : List β) (closeAfterMisses : ℕ)
  | next (i : Fin P) (pick : ℕ)
  | fail (i : Fin P)

def State.enter (i : Fin P) (stage : Stage β) : State β P :=
  match (s.txns i).stage with
  | .idle => s.setTxn i (.begin stage)
  | _ => s

def State.step [DecidableEq β] (s : State β P) : Op β P → State β P
  | .upsertPumps i pumps => s.enter i (.selectOpen pumps)
  | .closeRetrace i liveBases n => s.enter i (.selectOpenAll liveBases n)
  | .next i pick => s.next i pick
  | .fail i => s.setTxn i (.begin .idle)

def State.committing : Op β P → Option (Fin P)
  | .next i _ => match (s.txns i).stage with
    | .selectOpen [] | .commit => some i
    | _ => none
  | _ => none

def stateAfter [DecidableEq β] (ops : List (Op β P)) (n : ℕ) : State β P := Run.stateAt State.step State.init ops n

/-- A commit inserts and closes no row of a base that another transaction has looked up. -/
def Undisturbed (op : Op β P) : Prop :=
  ∀ i ∈ s.committing op, ∀ w ∈ (s.txns i).writes, ∀ j, j ≠ i → w.base ∈ (s.txns j).looked →
    ∃ r ∈ s.rows, r.id = w.id ∧ r.closed = w.closed

instance [DecidableEq β] (s : State β P) : DecidablePred (Undisturbed s) := fun op => by
  unfold Undisturbed
  infer_instance

variable [DecidableEq β]

def OneOpen (rows : List (Row β)) : Prop :=
  ∀ b, ∀ r ∈ rows, r.isOpen b → ∀ r' ∈ rows, r'.isOpen b → r.id = r'.id

def Txn.Sees (t : Txn β) (rows : List (Row β)) (b : β) (id : ℕ) : Prop :=
  b ∈ t.looked ∧ ∃ r ∈ t.view rows, r.id = id ∧ r.isOpen b

def Txn.StageOk (t : Txn β) (rows : List (Row β)) : Prop :=
  match t.stage with
  | .selectOpen _ => True
  | .updateEpisode b id _ => t.Sees rows b id
  | .numberEpisode b _ | .insertEpisode b _ _ => b ∈ t.looked ∧ ∀ r ∈ t.view rows, ¬ r.isOpen b
  | .idle | .selectOpenAll _ _ | .incrementMiss _ _ | .closeDue _ | .commit => t.looked = [] ∧ t.episodeIds = []

structure Written (rows : List (Row β)) (looked : List β) (writes : List (Row β)) : Prop where
  nodup : (writes.map Row.id).Nodup
  kept : ∀ w ∈ writes, ∀ r ∈ rows, r.id = w.id → w.base = r.base ∧ (w.closed = false → r.closed = false)
  added : ∀ w ∈ writes, w.id ∉ rows.map Row.id → w.base ∈ looked
  one : OneOpen (onto Row.id writes rows)

structure Txn.Ok (rows : List (Row β)) (t : Txn β) : Prop extends Written rows t.looked t.writes where
  named : ∀ p ∈ t.episodeIds, t.Sees rows p.1 p.2
  stage : t.StageOk rows

structure State.Ok (s : State β P) : Prop where
  nodup : (s.rows.map Row.id).Nodup
  rowsBelow : ∀ r ∈ s.rows, r.id < s.nextId
  writesBelow : ∀ i, ∀ w ∈ (s.txns i).writes, w.id < s.nextId
  apart : ∀ i j, i ≠ j → ∀ w ∈ (s.txns i).writes, ∀ w' ∈ (s.txns j).writes, w.id ≠ w'.id
  one : OneOpen s.rows
  txns : ∀ i, (s.txns i).Ok s.rows

variable {s : State β P} {t : Txn β} {i : Fin P} {rows : List (Row β)} {r : Row β} {b : β} {f : Row β → Row β}
  {op : Op β P}

theorem Row.isOpen_iff : r.isOpen b ↔ r.closed = false ∧ r.base = b := by
  simp [Row.isOpen]

omit [DecidableEq β] in
theorem mem_view : r ∈ t.view rows ↔ r ∈ t.writes ∨ r ∈ rows ∧ r.id ∉ t.writes.map Row.id := mem_onto

theorem State.Ok.viewBelow (hs : s.Ok) (i : Fin P) : ∀ r ∈ (s.txns i).view s.rows, r.id < s.nextId := by
  intro r hr
  rcases mem_view.1 hr with hr | ⟨hr, -⟩
  · exact hs.writesBelow i r hr
  · exact hs.rowsBelow r hr

theorem Txn.Ok.begin (hone : OneOpen rows) {stage : Stage β} (hsg : (Txn.begin stage).StageOk rows) :
    (Txn.begin stage).Ok rows where
  nodup := nodup_nil
  kept _ hw := by cases hw
  added _ hw := by cases hw
  one := by rwa [Txn.begin, onto_nil]
  named _ hp := by cases hp
  stage := hsg

theorem State.Ok.setTxn (hs : s.Ok) (ht : t.Ok s.rows) (hbe : ∀ w ∈ t.writes, w.id < s.nextId)
    (hap : ∀ j, j ≠ i → ∀ w ∈ t.writes, ∀ w' ∈ (s.txns j).writes, w.id ≠ w'.id) : (s.setTxn i t).Ok := by
  refine { hs with
    writesBelow := (Function.forall_update_iff s.txns fun _ t => ∀ w ∈ t.writes, w.id < s.nextId).2
      ⟨hbe, fun j _ => hs.writesBelow j⟩
    apart := fun j k hjk w hw w' hw' => ?_
    txns := (Function.forall_update_iff s.txns fun _ t => t.Ok s.rows).2 ⟨ht, fun j _ => hs.txns j⟩ }
  simp only [State.setTxn, Function.update_apply] at hw hw'
  split at hw
  · rw [if_neg (by rintro rfl; exact hjk ‹_›)] at hw'
    exact hap k (by rintro rfl; exact hjk ‹_›) w hw w' hw'
  · rename_i hj
    split at hw'
    · exact (hap j hj w' hw' w hw).symm
    · exact hs.apart j k hjk w hw w' hw'

theorem State.Ok.setBegin (hs : s.Ok) (stage : Stage β) (hsg : (Txn.begin stage).StageOk s.rows) :
    (s.setTxn i (.begin stage)).Ok :=
  hs.setTxn (.begin hs.one hsg) nofun nofun

theorem State.Ok.move (hs : s.Ok) (ht : t.Ok s.rows) (hwr : t.writes = (s.txns i).writes) : (s.setTxn i t).Ok :=
  hs.setTxn ht (hwr ▸ hs.writesBelow i) (fun j hj => hwr ▸ hs.apart i j (Ne.symm hj))

structure Keeps (f : Row β → Row β) : Prop where
  id : ∀ r, (f r).id = r.id
  base : ∀ r, (f r).base = r.base
  closed : ∀ r, (f r).closed = false → r.closed = false

omit [DecidableEq β] in
theorem Keeps.ite (hf : Keeps f) (p : Row β → Bool) : Keeps fun r => if p r then f r else r := by
  refine ⟨fun r => ?_, fun r => ?_, fun r h => ?_⟩
  · split
    · exact hf.id r
    · rfl
  · split
    · exact hf.base r
    · rfl
  · split at h
    · exact hf.closed r h
    · exact h

theorem Keeps.isOpen (hf : Keeps f) (h : (f r).isOpen b) : r.isOpen b := by
  rw [Row.isOpen_iff, hf.base] at h
  exact Row.isOpen_iff.2 ⟨hf.closed r h.1, h.2⟩

omit [DecidableEq β] in
theorem keeps_seen : Keeps (Row.seen : Row β → Row β) := ⟨fun _ => rfl, fun _ => rfl, fun _ h => h⟩

omit [DecidableEq β] in
theorem keeps_missed : Keeps (Row.missed : Row β → Row β) := ⟨fun _ => rfl, fun _ => rfl, fun _ h => h⟩

omit [DecidableEq β] in
theorem keeps_close : Keeps (Row.close : Row β → Row β) := ⟨fun _ => rfl, fun _ => rfl, nofun⟩

theorem OneOpen.kept {rows' : List (Row β)} (hone : OneOpen rows) (hf : Keeps f)
    (h : ∀ r ∈ rows', ∃ r0 ∈ rows, f r0 = r) : OneOpen rows' := by
  intro b r hr ho r' hr' ho'
  obtain ⟨r0, hr0, rfl⟩ := h r hr
  obtain ⟨r₀', hr₀', rfl⟩ := h r' hr'
  rw [hf.id, hf.id]
  exact hone b r0 hr0 (hf.isOpen ho) r₀' hr₀' (hf.isOpen ho')

theorem OneOpen.map (hone : OneOpen rows) (hf : Keeps f) : OneOpen (rows.map f) :=
  hone.kept hf fun _ hr => mem_map.1 hr

theorem OneOpen.put {row : Row β} (hone : OneOpen rows) (hopen : row.isOpen b)
    (hid : ∀ r ∈ rows, r.isOpen b → r.id = row.id) : OneOpen (onto Row.id [row] rows) := by
  intro b' r hr ho r' hr' ho'
  have hold : ∀ r ∈ onto Row.id [row] rows, r.isOpen b' → r = row ∨ r ∈ rows ∧ b' ≠ b := by
    intro r hr ho
    rcases mem_onto.1 hr with hr | ⟨hr, hne⟩
    · exact .inl (mem_singleton.1 hr)
    · refine .inr ⟨hr, ?_⟩
      rintro rfl
      simp [hid r hr ho] at hne
  have hbase := (Row.isOpen_iff.1 hopen).2
  rcases hold r hr ho with rfl | ⟨hr, hb⟩
  · rcases hold r' hr' ho' with rfl | ⟨-, hb⟩
    · rfl
    · exact absurd ((Row.isOpen_iff.1 ho).2.symm.trans hbase) hb
  · rcases hold r' hr' ho' with rfl | ⟨hr', -⟩
    · exact absurd ((Row.isOpen_iff.1 ho').2.symm.trans hbase) hb
    · exact hone b' r hr ho r' hr' ho'

theorem Written.nodup_onto {ws : List (Row β)} {looked : List β} (h : Written rows looked ws)
    (hrw : (rows.map Row.id).Nodup) : ((onto Row.id ws rows).map Row.id).Nodup :=
  Overlay.nodup_onto h.nodup hrw

section

variable {p : Row β → Bool} {f : Row β → Row β} {looked : List β} {ws : List (Row β)}

theorem Written.mem_update (h : Written rows looked ws) (hrw : (rows.map Row.id).Nodup) (hf : Keeps f) :
    r ∈ onto Row.id (onto Row.id (((onto Row.id ws rows).filter p).map f) ws) rows ↔
      ∃ r0 ∈ onto Row.id ws rows, (if p r0 then f r0 else r0) = r := by
  rw [onto_onto, mem_onto_map (h.nodup_onto hrw) hf.id]

theorem Written.update (h : Written rows looked ws) (hrw : (rows.map Row.id).Nodup) (hf : Keeps f) :
    Written rows looked (onto Row.id (((onto Row.id ws rows).filter p).map f) ws) := by
  -- each write is a row that was seen, perhaps closed since
  have hfr : ∀ w ∈ onto Row.id (((onto Row.id ws rows).filter p).map f) ws,
      ∃ r ∈ onto Row.id ws rows, r.id = w.id ∧ w.base = r.base ∧ (w.closed = false → r.closed = false) := by
    intro w hw
    rcases mem_onto.1 hw with hw | ⟨hw, -⟩
    · obtain ⟨r, hr, rfl⟩ := mem_map.1 hw
      exact ⟨r, (mem_filter.1 hr).1, (hf.id r).symm, hf.base r, hf.closed r⟩
    · exact ⟨w, mem_onto.2 (.inl hw), rfl, rfl, id⟩
  refine ⟨?_, ?_, ?_, ?_⟩
  · refine Overlay.nodup_onto ?_ h.nodup
    rw [map_map, show Row.id ∘ f = Row.id from funext hf.id]
    exact (h.nodup_onto hrw).sublist (filter_sublist.map _)
  · intro w hw r hr hid
    obtain ⟨r0, hr0, hid0, hbs, hclosed⟩ := hfr w hw
    rcases mem_onto.1 hr0 with hr0 | ⟨hr0, -⟩
    · obtain ⟨hb, hc⟩ := h.kept r0 hr0 r hr (hid.trans hid0.symm)
      exact ⟨hbs.trans hb, fun hw => hc (hclosed hw)⟩
    · obtain rfl := inj_on_of_nodup_map hrw hr0 hr (hid0.trans hid.symm)
      exact ⟨hbs, hclosed⟩
  · intro w hw hnew
    obtain ⟨r0, hr0, hid0, hbs, -⟩ := hfr w hw
    rw [← hid0] at hnew
    rcases mem_onto.1 hr0 with hr0 | ⟨hr0, -⟩
    · exact hbs ▸ h.added r0 hr0 hnew
    · exact absurd (mem_map_of_mem hr0) hnew
  · exact h.one.kept (hf.ite p) fun r hr => (h.mem_update hrw hf).1 hr

end

theorem State.Ok.update {p : Row β → Bool} (hs : s.Ok) (hf : Keeps f)
    (hwr : t.writes = (s.txns i).writes) (hlk : t.looked = (s.txns i).looked)
    (hnm : ∀ q ∈ t.episodeIds, (t.write (((t.view s.rows).filter p).map f)).Sees s.rows q.1 q.2)
    (hsg : (t.write (((t.view s.rows).filter p).map f)).StageOk s.rows) :
    (s.update i t (((t.view s.rows).filter p).map f)).Ok := by
  unfold State.update
  split
  · exact hs
  rename_i hfree
  have hi := (hs.txns i).toWritten
  rw [← hwr, ← hlk] at hi
  refine hs.setTxn ⟨hi.update hs.nodup hf, hnm, hsg⟩ ?_ ?_
  · intro w hw
    rcases mem_onto.1 hw with hw | ⟨hw, -⟩
    · obtain ⟨r, hr, rfl⟩ := mem_map.1 hw
      rw [hf.id]
      exact hs.viewBelow i r (by rw [Txn.view, ← hwr]; exact (mem_filter.1 hr).1)
    · exact hs.writesBelow i w (hwr ▸ hw)
  · intro j hj w hw w' hw' hid
    rcases mem_onto.1 hw with hw | ⟨hw, -⟩
    · exact hfree ⟨j, hj, w', hw', hid ▸ mem_map_of_mem hw⟩
    · exact hs.apart i j (Ne.symm hj) w (hwr ▸ hw) w' hw' hid

theorem Txn.Sees.seen {id id' : ℕ} {t' : Txn β} (h : t.Sees rows b id) (ht : t.Ok rows)
    (hrw : (rows.map Row.id).Nodup) (hwr : t'.writes = t.writes) (hlk : t'.looked = t.looked) :
    (t'.write (((t'.view rows).filter (·.id = id')).map Row.seen)).Sees rows b id := by
  obtain ⟨hb, r, hr, hid, ho⟩ := h
  refine ⟨hlk ▸ hb, if r.id = id' then r.seen else r, ?_, ?_, ?_⟩
  · rw [Txn.write, Txn.view, Txn.view, hwr]
    refine (ht.mem_update hrw keeps_seen).2 ⟨r, hr, ?_⟩
    simp
  · split
    · exact hid
    · exact hid
  · split
    · exact ho
    · exact ho

section

variable {j : Fin P} (hs : s.Ok)
  (hquiet : ∀ w ∈ (s.txns i).writes, w.base ∈ (s.txns j).looked → ∃ r ∈ s.rows, r.id = w.id ∧ r.closed = w.closed)

include hs hquiet

theorem State.Ok.saw (hb : b ∈ (s.txns j).looked) (hr : r ∈ (s.txns j).view ((s.txns i).view s.rows))
    (ho : r.isOpen b) : ∃ r0 ∈ (s.txns j).view s.rows, r0.id = r.id ∧ r0.isOpen b := by
  rcases mem_view.1 hr with hr | ⟨hr, hid⟩
  · exact ⟨r, mem_view.2 (.inl hr), rfl, ho⟩
  rcases mem_view.1 hr with hr | ⟨hr, -⟩
  · rw [Row.isOpen_iff] at ho
    obtain ⟨r0, hr0, hid0, hclosed⟩ := hquiet r hr (ho.2 ▸ hb)
    refine ⟨r0, mem_view.2 (.inr ⟨hr0, hid0 ▸ hid⟩), hid0, Row.isOpen_iff.2 ⟨hclosed.trans ho.1, ?_⟩⟩
    rw [← ho.2]
    exact ((hs.txns i).kept r hr r0 hr0 hid0).1.symm
  · exact ⟨r, mem_view.2 (.inr ⟨hr, hid⟩), rfl, ho⟩

theorem State.Ok.sees {id : ℕ} (h : (s.txns j).Sees s.rows b id) : (s.txns j).Sees ((s.txns i).view s.rows) b id := by
  obtain ⟨hb, r, hr, hid, ho⟩ := h
  refine ⟨hb, ?_⟩
  rcases mem_view.1 hr with hr | ⟨hr, hnew⟩
  · exact ⟨r, mem_view.2 (.inl hr), hid, ho⟩
  by_cases hmem : r.id ∈ (s.txns i).writes.map Row.id
  · obtain ⟨w, hw, hidw⟩ := mem_map.1 hmem
    rw [Row.isOpen_iff] at ho
    have hbs := ((hs.txns i).kept w hw r hr hidw.symm).1.trans ho.2
    obtain ⟨r0, hr0, hid0, hclosed⟩ := hquiet w hw (hbs ▸ hb)
    obtain rfl := inj_on_of_nodup_map hs.nodup hr0 hr (hid0.trans hidw)
    exact ⟨w, mem_view.2 (.inr ⟨mem_view.2 (.inl hw), hidw ▸ hnew⟩), hidw.trans hid,
      Row.isOpen_iff.2 ⟨hclosed.symm.trans ho.1, hbs⟩⟩
  · exact ⟨r, mem_view.2 (.inr ⟨mem_view.2 (.inr ⟨hr, hmem⟩), hnew⟩), hid, ho⟩

variable (hij : i ≠ j)

include hij

omit hquiet in
theorem State.Ok.mem_commit {w : Row β} (hw : w ∈ (s.txns j).writes) :
    r ∈ (s.txns i).view s.rows ∧ r.id = w.id ↔ r ∈ s.rows ∧ r.id = w.id := by
  have hap : ∀ r : Row β, r.id = w.id → r.id ∉ (s.txns i).writes.map Row.id := by
    intro r hid hmem
    obtain ⟨w', hw', hid'⟩ := mem_map.1 hmem
    exact hs.apart i j hij w' hw' w hw (hid'.trans hid)
  constructor
  · rintro ⟨hr, hid⟩
    rcases mem_view.1 hr with hr | ⟨hr, -⟩
    · exact absurd (mem_map_of_mem hr) (hap r hid)
    · exact ⟨hr, hid⟩
  · rintro ⟨hr, hid⟩
    exact ⟨mem_view.2 (.inr ⟨hr, hap r hid⟩), hid⟩

theorem State.Ok.other : (s.txns j).Ok ((s.txns i).view s.rows) := by
  have hj := hs.txns j
  refine ⟨⟨hj.nodup, fun w hw r hr hid => ?_, fun w hw hnew => ?_, ?_⟩, fun q hq => hs.sees hquiet (hj.named q hq), ?_⟩
  · exact hj.kept w hw r ((hs.mem_commit hij hw).1 ⟨hr, hid⟩).1 hid
  · refine hj.added w hw fun hmem => hnew ?_
    obtain ⟨r, hr, hid⟩ := mem_map.1 hmem
    exact hid ▸ mem_map_of_mem ((hs.mem_commit hij hw).2 ⟨hr, hid⟩).1
  · intro b r hr ho r' hr' ho'
    by_cases hb : b ∈ (s.txns j).looked
    · obtain ⟨r0, hr0, hid, h0⟩ := hs.saw hquiet hb hr ho
      obtain ⟨r₀', hr₀', hid', h₀'⟩ := hs.saw hquiet hb hr' ho'
      rw [← hid, ← hid']
      exact hj.one b r0 hr0 h0 r₀' hr₀' h₀'
    · -- of a base it has not looked up, the other transaction opens no row of its own
      have hcm : ∀ r ∈ (s.txns j).view ((s.txns i).view s.rows), r.isOpen b →
          ∃ r0 ∈ (s.txns i).view s.rows, r0.id = r.id ∧ r0.isOpen b := by
        intro r hr ho
        rcases mem_view.1 hr with hr | ⟨hr, -⟩
        · rw [Row.isOpen_iff] at ho
          have hold : r.id ∈ s.rows.map Row.id := by
            by_contra hnew
            exact hb (ho.2 ▸ hj.added r hr hnew)
          obtain ⟨r0, hr0, hid⟩ := mem_map.1 hold
          obtain ⟨hbs, hclosed⟩ := hj.kept r hr r0 hr0 hid
          exact ⟨r0, ((hs.mem_commit hij hr).2 ⟨hr0, hid⟩).1, hid, Row.isOpen_iff.2 ⟨hclosed ho.1, hbs.symm.trans ho.2⟩⟩
        · exact ⟨r, hr, rfl, ho⟩
      obtain ⟨r0, hr0, hid, h0⟩ := hcm r hr ho
      obtain ⟨r₀', hr₀', hid', h₀'⟩ := hcm r' hr' ho'
      rw [← hid, ← hid']
      exact (hs.txns i).one b r0 hr0 h0 r₀' hr₀' h₀'
  · have hnn : ∀ b, (b ∈ (s.txns j).looked ∧ ∀ r ∈ (s.txns j).view s.rows, ¬ r.isOpen b) →
        b ∈ (s.txns j).looked ∧ ∀ r ∈ (s.txns j).view ((s.txns i).view s.rows), ¬ r.isOpen b := by
      rintro b ⟨hb, hnn⟩
      refine ⟨hb, fun r hr ho => ?_⟩
      obtain ⟨r0, hr0, -, h0⟩ := hs.saw hquiet hb hr ho
      exact hnn r0 hr0 h0
    have hsg := hj.stage
    unfold Txn.StageOk at hsg ⊢
    revert hsg
    cases (s.txns j).stage with
    | updateEpisode => exact hs.sees hquiet
    | numberEpisode b pumps => exact hnn b
    | insertEpisode b episode pumps => exact hnn b
    | selectOpen => exact fun _ => trivial
    | idle | selectOpenAll | incrementMiss | closeDue | commit => exact id

end

theorem State.Ok.commit (hs : s.Ok) (hquiet : ∀ w ∈ (s.txns i).writes, ∀ j, j ≠ i → w.base ∈ (s.txns j).looked →
      ∃ r ∈ s.rows, r.id = w.id ∧ r.closed = w.closed) :
    (State.setTxn { s with rows := (s.txns i).view s.rows } i (.begin .idle)).Ok where
  nodup := (hs.txns i).nodup_onto hs.nodup
  rowsBelow := hs.viewBelow i
  writesBelow := (hs.setBegin .idle ⟨rfl, rfl⟩).writesBelow
  apart := (hs.setBegin .idle ⟨rfl, rfl⟩).apart
  one := (hs.txns i).one
  txns := (Function.forall_update_iff s.txns fun _ t => t.Ok ((s.txns i).view s.rows)).2
    ⟨.begin (hs.txns i).one ⟨rfl, rfl⟩, fun j hj => hs.other (fun w hw => hquiet w hw j hj) (Ne.symm hj)⟩

theorem State.Ok.insertEpisode (hs : s.Ok) (hb : b ∈ (s.txns i).looked)
    (hnn : ∀ r ∈ (s.txns i).view s.rows, ¬ r.isOpen b) (episode : ℕ) (pumps : List β) :
    (State.setTxn { s with nextId := s.nextId + 1 } i
      (((s.txns i).assign b s.nextId pumps).write [.new s.nextId b episode])).Ok := by
  have hi := hs.txns i
  have hmem : ∀ r, r ∈ onto Row.id (onto Row.id [.new s.nextId b episode] (s.txns i).writes) s.rows ↔
      r = .new s.nextId b episode ∨ r ∈ (s.txns i).view s.rows := by
    intro r
    rw [onto_onto, mem_onto, mem_singleton]
    refine or_congr_right ⟨And.left, fun hr => ⟨hr, ?_⟩⟩
    simpa [Row.new] using (hs.viewBelow i r hr).ne
  have hwr : ∀ w ∈ onto Row.id [.new s.nextId b episode] (s.txns i).writes,
      w = .new s.nextId b episode ∨ w ∈ (s.txns i).writes := by
    intro w hw
    rcases mem_onto.1 hw with hw | ⟨hw, -⟩
    · exact .inl (mem_singleton.1 hw)
    · exact .inr hw
  have hs' : State.Ok { s with nextId := s.nextId + 1 } :=
    { hs with
      rowsBelow := fun r hr => (hs.rowsBelow r hr).trans (Nat.lt_succ_self _)
      writesBelow := fun j w hw => (hs.writesBelow j w hw).trans (Nat.lt_succ_self _) }
  have hss : ∀ b' id, (s.txns i).Sees s.rows b' id →
      (((s.txns i).assign b s.nextId pumps).write [.new s.nextId b episode]).Sees s.rows b' id :=
    fun b' id ⟨hb', r, hr, h⟩ => ⟨hb', r, (hmem r).2 (.inr hr), h⟩
  refine hs'.setTxn ⟨⟨?_, fun w hw r hr hid => ?_, fun w hw hnew => ?_, ?_⟩, fun q hq => ?_, trivial⟩
    (fun w hw => ?_) (fun j hj w hw w' hw' => ?_)
  · exact Overlay.nodup_onto (nodup_singleton _) hi.nodup
  · rcases hwr w hw with rfl | hw
    · exact absurd hid (hs.rowsBelow r hr).ne
    · exact hi.kept w hw r hr hid
  · rcases hwr w hw with rfl | hw
    · exact hb
    · exact hi.added w hw hnew
  · -- the base of the new row had no open one
    rw [Txn.write, onto_onto]
    exact hi.one.put (Row.isOpen_iff.2 ⟨rfl, rfl⟩) fun r hr ho => absurd ho (hnn r hr)
  · rcases mem_cons.1 hq with rfl | hq
    · exact ⟨hb, _, (hmem _).2 (.inl rfl), rfl, Row.isOpen_iff.2 ⟨rfl, rfl⟩⟩
    · exact hss _ _ (hi.named q (mem_filter.1 hq).1)
  · rcases hwr w hw with rfl | hw
    · exact Nat.lt_succ_self _
    · exact hs'.writesBelow i w hw
  · rcases hwr w hw with rfl | hw
    · exact (hs.writesBelow j w' hw').ne'
    · exact hs.apart i j (Ne.symm hj) w hw w' hw'

theorem State.Ok.next (hs : s.Ok) {pick : ℕ} (hquiet : Undisturbed s (.next i pick)) : (s.next i pick).Ok := by
  have hi := hs.txns i
  have hsg := hi.stage
  unfold State.next
  dsimp only
  unfold Txn.StageOk at hsg
  unfold Undisturbed State.committing at hquiet
  dsimp only at hquiet
  revert hsg hquiet
  cases hst : (s.txns i).stage with
  | idle => exact fun _ _ => hs
  | commit => exact fun hquiet _ => hs.commit (hquiet i rfl)
  | selectOpen pumps =>
    intro hquiet _
    cases pumps with
    | nil => exact hs.commit (hquiet i rfl)
    | cons b pumps =>
      refine hs.move ⟨⟨hi.nodup, hi.kept, fun w hw hnew => mem_cons_of_mem b (hi.added w hw hnew), hi.one⟩,
        fun q hq => ⟨mem_cons_of_mem b (hi.named q hq).1, (hi.named q hq).2⟩, ?_⟩ rfl
      cases hhd : ((((s.txns i).view s.rows).filter (·.isOpen b)).rotate pick).head? with
      | some r =>
        have hr := mem_rotate.1 (mem_of_mem_head? hhd)
        exact ⟨mem_cons_self, r, (mem_filter.1 hr).1, rfl, (mem_filter.1 hr).2⟩
      | none =>
        rw [head?_eq_none_iff, rotate_eq_nil_iff, filter_eq_nil_iff] at hhd
        exact ⟨mem_cons_self, hhd⟩
  | updateEpisode b id pumps =>
    intro _ hss
    refine hs.update (t := (s.txns i).assign b id pumps) keeps_seen rfl rfl (fun q hq => ?_) trivial
    rcases mem_cons.1 hq with rfl | hq
    · exact Txn.Sees.seen hss hi hs.nodup rfl rfl
    · exact (hi.named q (mem_filter.1 hq).1).seen hi hs.nodup rfl rfl
  | numberEpisode => exact fun _ hnn => hs.move ⟨hi.toWritten, hi.named, hnn⟩ rfl
  | insertEpisode b episode pumps =>
    intro _ hnn
    dsimp only
    split
    · exact hs.setBegin .idle ⟨rfl, rfl⟩
    · split
      · exact hs
      · exact hs.insertEpisode hnn.1 hnn.2 episode pumps
  | selectOpenAll => exact fun _ hbl => hs.move ⟨hi.toWritten, hi.named, hbl⟩ rfl
  | incrementMiss ids n =>
    intro _ hbl
    cases ids with
    | nil => exact hs.move ⟨hi.toWritten, hi.named, hbl⟩ rfl
    | cons id ids =>
      exact hs.update (t := { s.txns i with stage := .incrementMiss ids n }) keeps_missed rfl rfl
        (fun q hq => by rw [show (s.txns i).episodeIds = [] from hbl.2] at hq; cases hq) hbl
  | closeDue n =>
    intro _ hbl
    exact hs.update (t := { s.txns i with stage := .commit }) keeps_close rfl rfl
      (fun q hq => by rw [show (s.txns i).episodeIds = [] from hbl.2] at hq; cases hq) hbl

theorem State.Ok.step (hs : s.Ok) (hquiet : Undisturbed s op) : (s.step op).Ok := by
  have hen : ∀ {i : Fin P} {stage : Stage β}, (Txn.begin stage).StageOk s.rows → (s.enter i stage).Ok := by
    intro i stage hsg
    unfold State.enter
    split
    · exact hs.setBegin stage hsg
    · exact hs
  cases op with
  | upsertPumps => exact hen trivial
  | closeRetrace => exact hen ⟨rfl, rfl⟩
  | next => exact hs.next hquiet
  | fail => exact hs.setBegin .idle ⟨rfl, rfl⟩

theorem init_ok : (State.init : State β P).Ok where
  nodup := nodup_nil
  rowsBelow := nofun
  writesBelow _ := nofun
  apart _ _ _ := nofun
  one _ _ hr := by cases hr
  txns _ := .begin nofun ⟨rfl, rfl⟩

theorem OneOpen.length_le (hone : OneOpen rows) (hrw : (rows.map Row.id).Nodup) (b : β) :
    (rows.filter (·.isOpen b)).length ≤ 1 := by
  refine length_le_one (hrw.sublist (filter_sublist.map Row.id)) fun r hr r' hr' => ?_
  rw [mem_filter] at hr hr'
  exact hone b r hr.1 hr.2 r' hr'.1 hr'.2

theorem step_rows (h : i ∈ s.committing op) : (s.step op).rows = (s.txns i).view s.rows := by
  unfold State.committing at h
  split at h
  · rename_i k pick
    unfold State.step State.next
    dsimp only
    split at h
    · rename_i hst
      cases h
      rw [hst]
      rfl
    · rename_i hst
      cases h
      rw [hst]
      rfl
    · cases h
  · cases h

/-- **A base has at most one open episode**, and the ids that `upsert_pumps` returns name the open ones, in every
run in which no commit inserts or closes a row of a base that another transaction has looked up. -/
theorem one_open_episode (ops : List (Op β P))
    (hquiet : ∀ n op, ops[n]? = some op → Undisturbed (stateAfter ops n) op) (n : ℕ) :
    (∀ b, ((stateAfter ops n).rows.filter (·.isOpen b)).length ≤ 1) ∧
      ∀ op, ops[n]? = some op → ∀ i ∈ (stateAfter ops n).committing op, ∀ p ∈ ((stateAfter ops n).txns i).episodeIds,
        ∃ r ∈ (stateAfter ops (n + 1)).rows, r.id = p.2 ∧ r.isOpen p.1 := by
  have hok : (stateAfter ops n).Ok :=
    Run.invariant init_ok (fun n op hop hs => hs.step (hquiet n op hop)) n
  refine ⟨hok.one.length_le hok.nodup, fun op hop i hi p hp => ?_⟩
  rw [show stateAfter ops (n + 1) = (stateAfter ops n).step op from Run.stateAt_succ hop, step_rows hi]
  exact ((hok.txns i).named p hp).2

def overlapped : List (Op String 2) :=
  [.upsertPumps 0 ["ABC"], .upsertPumps 1 ["ABC"], .next 1 0, .next 0 0, .next 0 0, .next 0 0, .next 0 0,
    .next 1 0, .next 1 0, .next 1 0]

theorem overlapped_two_open :
    ((stateAfter overlapped 10).rows.filter (·.isOpen "ABC")).map Row.episode = [2, 1] := by decide

/-- The second and the third upsert look up the same open row, and one waits for the other's commit. -/
def seenByBoth : List (Op String 2) :=
  [.upsertPumps 0 ["ABC"], .next 0 0, .next 0 0, .next 0 0, .next 0 0, .upsertPumps 0 ["ABC"],
    .upsertPumps 1 ["ABC"], .next 0 0, .next 1 0, .next 0 0, .next 1 0, .next 0 0, .next 1 0, .next 1 0]

theorem seenByBoth_open :
    ((stateAfter seenByBoth 14).rows.filter (·.isOpen "ABC")).length ≤ 1 ∧ (stateAfter seenByBoth 14).rows ≠ [] ∧
      ((stateAfter seenByBoth 13).txns 1).episodeIds = [("ABC", 1)] := by
  have hquiet : ∀ n : Fin seenByBoth.length, Undisturbed (stateAfter seenByBoth n) seenByBoth[n] := by
    decide +kernel
  refine ⟨(one_open_episode seenByBoth (fun n op hop => ?_) 14).1 "ABC", by decide +kernel, by decide +kernel⟩
  obtain ⟨hn, rfl⟩ := List.getElem?_eq_some_iff.1 hop
  exact hquiet ⟨n, hn⟩

end Schurfer.Pumps
