import Mathlib.Data.Finset.Sort
import Mathlib.Data.String.Basic
import Mathlib.Tactic

/-!
# The worker readiness gate

`WorkerReadinessGate`. The flag is kept beside the fields it is computed from, with a generation that counts its
changes, and `place_order` compares the generation of its first read with that of the read right before the order.
-/

namespace Schurfer.Supervisor

structure Gate where
  criticalWorkerNames : Finset String
  readyWorkers : Finset String := ∅
  safetyBlockers : Finset String := ∅
  operationalReasons : Finset String := ∅
  operationallyClosed : Bool
  isOpen : Bool
  generation : ℕ := 0

open Gate

def Gate.init (criticalWorkerNames : Finset String) : Gate where
  criticalWorkerNames
  operationallyClosed := decide (criticalWorkerNames ≠ ∅)
  isOpen := decide (criticalWorkerNames = ∅)

namespace Gate

variable (g : Gate)

def shouldBeOpen : Bool :=
  !g.operationallyClosed && decide (g.readyWorkers = g.criticalWorkerNames) && decide (g.safetyBlockers = ∅)

def evaluateState : Gate :=
  if g.shouldBeOpen = true ∧ g.isOpen = false then { g with isOpen := true, generation := g.generation + 1 }
  else if g.shouldBeOpen = false ∧ g.isOpen = true then
    { g with isOpen := false, generation := g.generation + 1 }
  else g

def setSafetyBlocker (blockerName : String) : Gate :=
  if blockerName ∉ g.safetyBlockers then
    evaluateState { g with safetyBlockers := insert blockerName g.safetyBlockers }
  else g

def clearSafetyBlocker (blockerName : String) : Gate :=
  if blockerName ∈ g.safetyBlockers then
    evaluateState { g with safetyBlockers := g.safetyBlockers.erase blockerName }
  else g

def markReady (workerName : String) : Gate :=
  if workerName ∈ g.criticalWorkerNames then
    let ready := insert workerName g.readyWorkers
    evaluateState (if ready = g.criticalWorkerNames then
        { g with readyWorkers := ready, operationallyClosed := false, operationalReasons := ∅ }
      else { g with readyWorkers := ready })
  else g

def close (reason : String) : Gate :=
  evaluateState { g with
    operationallyClosed := true
    operationalReasons := insert reason g.operationalReasons
    readyWorkers := ∅ }

def forceCloseAll (reason : String) : Gate := g.close reason

end Gate

inductive GateOp
  | markReady (workerName : String)
  | close (reason : String)
  | setSafetyBlocker (blockerName : String)
  | clearSafetyBlocker (blockerName : String)
  | forceCloseAll (reason : String)

def Gate.step (g : Gate) : GateOp → Gate
  | .markReady workerName => g.markReady workerName
  | .close reason => g.close reason
  | .setSafetyBlocker blockerName => g.setSafetyBlocker blockerName
  | .clearSafetyBlocker blockerName => g.clearSafetyBlocker blockerName
  | .forceCloseAll reason => g.forceCloseAll reason

def Gate.run (g : Gate) (ops : List GateOp) : Gate := ops.foldl step g

def Gate.admission (g : Gate) : Option ℕ := if g.isOpen then some g.generation else none

def Gate.passes (g : Gate) (token : ℕ) : Bool := g.isOpen && g.generation = token

/-- The invariant of every run: the stored flag agrees with the fields it is computed from. -/
structure Gate.Valid (g : Gate) : Prop where
  flag : g.isOpen = g.shouldBeOpen

variable {g : Gate}

theorem Gate.init_valid (names : Finset String) : (init names).Valid := by
  constructor
  by_cases h : names = ∅
  · simp [init, shouldBeOpen, h]
  · simp [init, shouldBeOpen, h]

/-- From one gate to the next: the generation moves on exactly when the flag changes. -/
structure Gate.Follows (g g' : Gate) : Prop where
  names : g'.criticalWorkerNames = g.criticalWorkerNames
  generation_le : g.generation ≤ g'.generation
  changes : g'.generation ≠ g.generation ↔ g'.isOpen ≠ g.isOpen

theorem Gate.Follows.refl (g : Gate) : g.Follows g := ⟨rfl, le_refl _, by simp⟩

theorem Gate.evaluateState_spec (g : Gate) : g.evaluateState.isOpen = g.shouldBeOpen ∧
    g.evaluateState.shouldBeOpen = g.shouldBeOpen ∧ g.Follows g.evaluateState ∧
    g.evaluateState.readyWorkers = g.readyWorkers := by
  unfold evaluateState
  split
  · rename_i h
    refine ⟨h.1.symm, rfl, ⟨rfl, Nat.le_succ _, ?_⟩, rfl⟩
    simp [h.2]
  · split
    · rename_i _ h
      refine ⟨h.1.symm, rfl, ⟨rfl, Nat.le_succ _, ?_⟩, rfl⟩
      simp [h.2]
    · rename_i h1 h2
      refine ⟨?_, rfl, .refl g, rfl⟩
      cases hs : g.shouldBeOpen <;> cases ho : g.isOpen <;> simp_all

theorem Gate.evaluated (g : Gate) {g1 : Gate} (hnames : g1.criticalWorkerNames = g.criticalWorkerNames)
    (hflag : g1.isOpen = g.isOpen) (hgeneration : g1.generation = g.generation) :
    g1.evaluateState.Valid ∧ g.Follows g1.evaluateState := by
  obtain ⟨hopen, hshould, hfollows, -⟩ := g1.evaluateState_spec
  refine ⟨⟨hopen.trans hshould.symm⟩, hfollows.names.trans hnames, ?_, ?_⟩
  · exact hgeneration ▸ hfollows.generation_le
  · rw [← hflag, ← hgeneration]
    exact hfollows.changes

theorem Gate.step_spec (hg : g.Valid) (op : GateOp) : (g.step op).Valid ∧ g.Follows (g.step op) := by
  have hsame : g.Valid ∧ g.Follows g := ⟨hg, .refl g⟩
  have hclose : ∀ reason, (g.close reason).Valid ∧ g.Follows (g.close reason) := fun _ =>
    g.evaluated rfl rfl rfl
  cases op with
  | markReady workerName =>
    simp only [step, markReady]
    split
    · split
      · exact g.evaluated rfl rfl rfl
      · exact g.evaluated rfl rfl rfl
    · exact hsame
  | close reason => exact hclose reason
  | setSafetyBlocker blockerName =>
    simp only [step, setSafetyBlocker]
    split
    · exact g.evaluated rfl rfl rfl
    · exact hsame
  | clearSafetyBlocker blockerName =>
    simp only [step, clearSafetyBlocker]
    split
    · exact g.evaluated rfl rfl rfl
    · exact hsame
  | forceCloseAll reason => exact hclose reason

theorem Gate.run_valid (hg : g.Valid) (ops : List GateOp) : (g.run ops).Valid := by
  induction ops generalizing g with
  | nil => exact hg
  | cons op ops ih => exact ih (step_spec hg op).1

theorem Gate.run_names (hg : g.Valid) (ops : List GateOp) :
    (g.run ops).criticalWorkerNames = g.criticalWorkerNames := by
  induction ops generalizing g with
  | nil => rfl
  | cons op ops ih =>
    obtain ⟨hvalid, hfollows⟩ := step_spec hg op
    exact (ih hvalid).trans hfollows.names

theorem Gate.run_append (g : Gate) (ops1 ops2 : List GateOp) : g.run (ops1 ++ ops2) = (g.run ops1).run ops2 :=
  List.foldl_append

theorem Gate.run_generation_le (hg : g.Valid) (ops : List GateOp) : g.generation ≤ (g.run ops).generation := by
  induction ops generalizing g with
  | nil => exact le_refl _
  | cons op ops ih =>
    obtain ⟨hvalid, hfollows⟩ := step_spec hg op
    exact hfollows.generation_le.trans (ih hvalid)

theorem Gate.run_isOpen (hg : g.Valid) (ops : List GateOp)
    (hsame : (g.run ops).generation = g.generation) : (g.run ops).isOpen = g.isOpen := by
  induction ops generalizing g with
  | nil => rfl
  | cons op ops ih =>
    obtain ⟨hvalid, hfollows⟩ := step_spec hg op
    have hlater : (g.step op).generation ≤ ((g.step op).run ops).generation := run_generation_le hvalid ops
    have hrun : ((g.step op).run ops).generation = g.generation := hsame
    have hstep : (g.step op).generation = g.generation :=
      le_antisymm (hlater.trans hrun.le) hfollows.generation_le
    have hflag : (g.step op).isOpen = g.isOpen := by
      by_contra hne
      exact hfollows.changes.2 hne hstep
    exact (ih hvalid (hrun.trans hstep.symm)).trans hflag

/-- **The generation proves an unbroken open gate.** When the read before an order agrees with the read at its
admission, the gate was open at both and at every moment between them. -/
theorem gate_token_spans (criticalWorkerNames : Finset String) (ops : List GateOp) :
    let g := (init criticalWorkerNames).run ops
    (g.isOpen = true ↔
      g.operationallyClosed = false ∧ g.readyWorkers = criticalWorkerNames ∧ g.safetyBlockers = ∅) ∧
    (∀ op, g.generation ≤ (g.step op).generation ∧
      ((g.step op).generation ≠ g.generation ↔ (g.step op).isOpen ≠ g.isOpen)) ∧
    ∀ (token : ℕ) (between : List GateOp), g.admission = some token → (g.run between).passes token = true →
      ∀ sofar, sofar <+: between → (g.run sofar).isOpen = true := by
  intro g
  have hg : g.Valid := run_valid (init_valid criticalWorkerNames) ops
  have hnames : g.criticalWorkerNames = criticalWorkerNames :=
    run_names (init_valid criticalWorkerNames) ops
  refine ⟨?_, fun op => ?_, ?_⟩
  · rw [hg.flag, shouldBeOpen, hnames]
    simp only [Bool.and_eq_true, Bool.not_eq_true', decide_eq_true_eq, and_assoc]
  · obtain ⟨-, hfollows⟩ := step_spec hg op
    exact ⟨hfollows.generation_le, hfollows.changes⟩
  · rintro token between hadmitted hpasses sofar ⟨rest, rfl⟩
    have hfirst : g.isOpen = true ∧ g.generation = token := by
      unfold admission at hadmitted
      split at hadmitted
      · exact ⟨‹_›, Option.some.inj hadmitted⟩
      · cases hadmitted
    have hsecond : (g.run (sofar ++ rest)).generation = token := by
      unfold passes at hpasses
      rw [Bool.and_eq_true, decide_eq_true_eq] at hpasses
      exact hpasses.2
    -- the generation only grows, so it is the same at every moment between the two reads
    have hvalid : (g.run sofar).Valid := run_valid hg sofar
    have hbelow : g.generation ≤ (g.run sofar).generation := run_generation_le hg sofar
    have habove : (g.run sofar).generation ≤ (g.run (sofar ++ rest)).generation := by
      rw [run_append]
      exact run_generation_le hvalid rest
    have hsame : (g.run sofar).generation = g.generation := by omega
    exact (run_isOpen hg sofar hsame).trans hfirst.1

end Schurfer.Supervisor
