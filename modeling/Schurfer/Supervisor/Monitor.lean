import Schurfer.Supervisor.Gate

/-!
# The worker supervisor

`WorkerSupervisor`. The event loop runs other tasks only while the monitor sleeps between two passes or waits for a
task it has cancelled, and the whole pass goes by the time at which it began.
-/

namespace Schurfer.Supervisor

open List Gate

inductive WorkerRestartPolicy
  | never
  | boundedFatal
  | boundedDegraded
  | always
deriving DecidableEq

inductive WorkerState
  | pending
  | running
  | failed
  | stoppedIntentionally
  | restartExhausted
deriving DecidableEq

structure InProcessTickTracker where
  lastStartedAt : Option ℚ := none
  lastSuccessAt : Option ℚ := none
  consecutiveFailures : ℕ := 0
  consecutiveIdles : ℕ := 0

namespace InProcessTickTracker

variable (tracker : InProcessTickTracker) (clock : ℚ)

def tickStarted : InProcessTickTracker := { tracker with lastStartedAt := some clock }

def tickSucceeded : InProcessTickTracker :=
  { tracker with lastSuccessAt := some clock, consecutiveFailures := 0, consecutiveIdles := 0 }

def tickIdle : InProcessTickTracker :=
  { tracker with
    lastSuccessAt := some clock
    consecutiveFailures := 0
    consecutiveIdles := tracker.consecutiveIdles + 1 }

def tickFailed : InProcessTickTracker :=
  { tracker with consecutiveFailures := tracker.consecutiveFailures + 1 }

end InProcessTickTracker

structure WorkerSpec where
  name : String
  policy : WorkerRestartPolicy
  isCritical : Bool
  restartBudget : ℕ := 0
  restartWindowSeconds : ℚ := 300
  staleTimeoutSeconds : ℚ := 60
  maxConsecutiveFailures : ℕ := 3
  enabled : Bool := true
  name_ne : name ≠ "" := by decide
  window_pos : 0 < restartWindowSeconds := by norm_num
  stale_pos : 0 < staleTimeoutSeconds := by norm_num
  failures_pos : 0 < maxConsecutiveFailures := by decide
deriving DecidableEq

inductive Task
  | alive
  | done
deriving DecidableEq

structure ManagedWorker where
  spec : WorkerSpec
  tracker : InProcessTickTracker := {}
  state : WorkerState := .pending
  task : Option Task := none
  restarts : List ℚ := []
  nextRestartAt : Option ℚ := none
  spawnedAt : Option ℚ := none

open ManagedWorker

variable {f : ManagedWorker → ManagedWorker} {w' w : ManagedWorker} {rest : List String} {clock t : ℚ}
  {names : Finset String} {name : String} {g : Gate}

def truthy (t : Option ℚ) : Option ℚ := t.filter (· ≠ 0)

structure Settings where
  restartBackoffBaseSeconds : ℚ := 1
  restartBackoffMaxSeconds : ℚ := 30
  startedAt : ℚ
  base_nonneg : 0 ≤ restartBackoffBaseSeconds := by norm_num
  base_le : restartBackoffBaseSeconds ≤ restartBackoffMaxSeconds := by norm_num
  startedAt_nonneg : 0 ≤ startedAt := by norm_num

def Settings.restartBackoff (settings : Settings) (restartCount : ℕ) : ℚ :=
  min (settings.restartBackoffBaseSeconds * 2 ^ restartCount) settings.restartBackoffMaxSeconds

namespace ManagedWorker

variable (w : ManagedWorker) (now : ℚ)

def spawn (clock : ℚ) : ManagedWorker :=
  if w.state = .stoppedIntentionally then w
  else
    { w with
      tracker := {}
      nextRestartAt := none
      spawnedAt := some clock
      state := .running
      task := some .alive }

def isReady : Bool :=
  w.spec.isCritical && decide (w.state = .running) && decide (w.tracker.consecutiveFailures = 0) &&
    match truthy w.tracker.lastSuccessAt with
    | some t => decide (now - t ≤ w.spec.staleTimeoutSeconds)
    | none => false

def isStale : Bool :=
  if w.state = .running then
    match truthy w.tracker.lastSuccessAt with
    | some t => decide (w.spec.staleTimeoutSeconds < now - t)
    | none =>
      match truthy w.tracker.lastStartedAt with
      | some t => decide (w.spec.staleTimeoutSeconds < now - t)
      | none =>
        -- a worker that never emits its first heartbeat is stalled too
        match w.spawnedAt with
        | some t => decide (w.spec.staleTimeoutSeconds < now - t)
        | none => false
  else false

def isFailed : Bool := decide (w.task = some .done)

def hasTickErrors : Bool := decide (0 < w.tracker.consecutiveFailures)

def persistentTickErrors : Bool := decide (w.spec.maxConsecutiveFailures ≤ w.tracker.consecutiveFailures)

def isUnhealthy : Bool :=
  (w.isStale now || w.persistentTickErrors) && decide (w.task = some .alive)

def report (g : Gate) : Gate :=
  -- marked first, so that a close right after it takes the mark back
  let g := if w.isReady now then g.markReady w.spec.name else g
  let name := w.spec.name
  if w.spec.isCritical && (w.isStale now || w.isFailed || w.hasTickErrors) then
    g.close (if w.isFailed then s!"worker {name} failed" else s!"worker {name} stale/errors")
  else g

def terminalFailure (g : Gate) (reason : String) : ManagedWorker × Gate × Bool :=
  ({ w with state := .restartExhausted }, g.close reason,
    w.spec.isCritical || decide (w.spec.policy = .boundedFatal))

def fail (settings : Settings) (g : Gate) : ManagedWorker × Gate × Bool :=
  let w := { w with
    state := .failed
    restarts := w.restarts.filter fun r => now - r ≤ w.spec.restartWindowSeconds }
  let name := w.spec.name
  let later := { w with nextRestartAt := some (now + settings.restartBackoff w.restarts.length) }
  match w.spec.policy with
  | .never => w.terminalFailure g s!"{name} failed with policy=NEVER"
  | .always => (later, g, false)
  | _ =>
    -- both bounded policies
    if w.spec.restartBudget ≤ w.restarts.length then
      w.terminalFailure g s!"{name} exhausted restart budget"
    else (later, g, false)

end ManagedWorker

inductive Outcome
  | next (w : ManagedWorker) (g : Gate)
  | cancelling (w : ManagedWorker) (g : Gate)
  | ended (w : ManagedWorker) (g : Gate)

def failed (settings : Settings) (now : ℚ) (w : ManagedWorker) (g : Gate) : Outcome :=
  match w.fail now settings g with
  | (w, g, true) => .ended w g
  | (w, g, false) => .next w g

def visit (settings : Settings) (now clock : ℚ) (w : ManagedWorker) (g : Gate) : Outcome :=
  match w.state, w.nextRestartAt with
  | .stoppedIntentionally, _ => .next w g
  | .failed, some restartAt =>
    if restartAt ≤ now then .next ({ w with restarts := w.restarts ++ [now] }.spawn clock) g else .next w g
  | .restartExhausted, _ => .next w g
  | _, _ =>
    -- the monitor awaits the cancelled task, and anything may happen until it is done
    if w.isUnhealthy now then .cancelling w (w.report now g)
    else if w.isFailed then failed settings now w (w.report now g)
    else .next w (w.report now g)

inductive Phase
  | sleeping
  | cancelling (name : String) (rest : List String)
  | ended
deriving DecidableEq

structure Visit where
  worker : ManagedWorker
  clock : ℚ

structure WorkerSupervisor where
  gate : Gate
  workers : List ManagedWorker
  clock : ℚ
  stopped : Bool := false
  phase : Phase := .sleeping
  now : ℚ := 0
  visits : List Visit := []

open WorkerSupervisor

namespace WorkerSupervisor

variable (s : WorkerSupervisor)

def find (name : String) : Option ManagedWorker := s.workers.find? (·.spec.name = name)

def put (w : ManagedWorker) : WorkerSupervisor :=
  { s with workers := s.workers.map fun old => if old.spec.name = w.spec.name then w else old }

def modify (name : String) (f : ManagedWorker → ManagedWorker) : WorkerSupervisor :=
  { s with workers := s.workers.map fun w => if w.spec.name = name then f w else w }

def visitAll (settings : Settings) : List String → WorkerSupervisor → WorkerSupervisor
  | [], s => { s with phase := .sleeping }
  | name :: rest, s =>
    match s.find name with
    | none => visitAll settings rest s
    | some w =>
      let seen : WorkerSupervisor := { s with visits := s.visits ++ [⟨w, s.clock⟩] }
      match visit settings s.now s.clock w s.gate with
      | .next w g => visitAll settings rest { seen.put w with gate := g }
      | .cancelling w g => { seen.put w with gate := g, phase := .cancelling name rest }
      | .ended w g => { seen.put w with gate := g, phase := .ended }

def wake (settings : Settings) : WorkerSupervisor :=
  if s.phase = .sleeping ∧ s.stopped = false then
    visitAll settings (s.workers.map (·.spec.name)) { s with now := s.clock, visits := [] }
  else s

def resume (settings : Settings) : WorkerSupervisor :=
  match s.phase with
  | .cancelling name rest =>
    match s.find name with
    | some w =>
      if w.task = some .done then
        match failed settings s.now w s.gate with
        | .next w g => visitAll settings rest { s.put w with gate := g }
        | .cancelling w g => { s.put w with gate := g }
        | .ended w g => { s.put w with gate := g, phase := .ended }
      else s
    | none => s
  | _ => s

def stop : WorkerSupervisor :=
  { s with
    stopped := true
    gate := s.gate.forceCloseAll "shutdown"
    workers := s.workers.map fun w =>
      if w.spec.enabled = true ∧ w.state ≠ .restartExhausted then { w with state := .stoppedIntentionally } else w }

end WorkerSupervisor

inductive TickUpdate
  | started
  | succeeded
  | idle
  | failed

def TickUpdate.apply (clock : ℚ) (tracker : InProcessTickTracker) : TickUpdate → InProcessTickTracker
  | .started => tracker.tickStarted clock
  | .succeeded => tracker.tickSucceeded clock
  | .idle => tracker.tickIdle clock
  | .failed => tracker.tickFailed

/-- What happens to the supervisor: the steps of its monitor, the clock, the workers, and the safety blockers
that others set. A task that returns or is cancelled is done, one that crashes says so first. -/
inductive Event
  | wake
  | resume
  | advance (seconds : ℚ≥0)
  | tick (name : String) (update : TickUpdate)
  | taskDone (name : String)
  | taskCrashed (name : String)
  | setSafetyBlocker (blockerName : String)
  | clearSafetyBlocker (blockerName : String)
  | stop

def WorkerSupervisor.step (settings : Settings) (s : WorkerSupervisor) : Event → WorkerSupervisor
  | .wake => s.wake settings
  | .resume => s.resume settings
  | .advance seconds => { s with clock := s.clock + seconds }
  | .tick name update => s.modify name fun w => { w with tracker := update.apply s.clock w.tracker }
  | .taskDone name => s.modify name fun w => { w with task := w.task.map fun _ => .done }
  | .taskCrashed name =>
    s.modify name fun w => { w with tracker := w.tracker.tickFailed, task := w.task.map fun _ => .done }
  | .setSafetyBlocker blockerName => { s with gate := s.gate.setSafetyBlocker blockerName }
  | .clearSafetyBlocker blockerName => { s with gate := s.gate.clearSafetyBlocker blockerName }
  | .stop => s.stop

structure Specs where
  list : List WorkerSpec
  nodup : (list.map WorkerSpec.name).Nodup

def Specs.criticalNames (specs : Specs) : Finset String :=
  ((specs.list.filter fun spec => spec.enabled && spec.isCritical).map WorkerSpec.name).toFinset

def WorkerSupervisor.start (settings : Settings) (specs : Specs) : WorkerSupervisor where
  gate := Gate.init specs.criticalNames
  clock := settings.startedAt
  workers := specs.list.map fun spec =>
    spawn { spec, state := if spec.enabled then .pending else .stoppedIntentionally }
      settings.startedAt

def WorkerSupervisor.run (settings : Settings) (specs : Specs) (events : List Event) : WorkerSupervisor :=
  events.foldl (step settings) (start settings specs)

section

variable (g : Gate) (blockerName : String)

theorem Gate.readyWorkers_markReady (name : String) : (g.markReady name).readyWorkers =
      if name ∈ g.criticalWorkerNames then insert name g.readyWorkers else g.readyWorkers := by
  unfold markReady
  split
  · dsimp only
    split
    · exact (evaluateState_spec _).2.2.2
    · exact (evaluateState_spec _).2.2.2
  · rfl

theorem Gate.readyWorkers_close (reason : String) : (g.close reason).readyWorkers = ∅ :=
  (evaluateState_spec _).2.2.2

theorem Gate.readyWorkers_setSafetyBlocker : (g.setSafetyBlocker blockerName).readyWorkers = g.readyWorkers := by
  unfold setSafetyBlocker
  split
  · exact (evaluateState_spec _).2.2.2
  · rfl

theorem Gate.readyWorkers_clearSafetyBlocker : (g.clearSafetyBlocker blockerName).readyWorkers = g.readyWorkers := by
  unfold clearSafetyBlocker
  split
  · exact (evaluateState_spec _).2.2.2
  · rfl

end

structure Gate.For (names : Finset String) (g : Gate) : Prop extends g.Valid where
  names : g.criticalWorkerNames = names

theorem Gate.For.step (hg : g.For names) (op : GateOp) : (g.step op).For names := by
  obtain ⟨hvalid, hfo⟩ := step_spec hg.toValid op
  exact ⟨hvalid, hfo.names.trans hg.names⟩

theorem Gate.For.ready_of_isOpen (hg : g.For names) (hop : g.isOpen = true) : g.readyWorkers = names := by
  have hsh : g.shouldBeOpen = true := hg.flag ▸ hop
  unfold shouldBeOpen at hsh
  rw [Bool.and_eq_true, Bool.and_eq_true, decide_eq_true_eq] at hsh
  rw [hsh.1.2, hg.names]

/-- The worker runs, and by `now` its last success since it was spawned is no older than its timeout. -/
structure ManagedWorker.Healthy (now : ℚ) (w : ManagedWorker) : Prop where
  running : w.state = .running
  task : w.task = some .alive
  failures : w.tracker.consecutiveFailures = 0
  success : ∃ t t₀, w.tracker.lastSuccessAt = some t ∧ w.spawnedAt = some t₀ ∧ t₀ ≤ t ∧
    now - t ≤ w.spec.staleTimeoutSeconds

structure ManagedWorker.Timed (clock : ℚ) (w : ManagedWorker) : Prop where
  success : ∀ t, w.tracker.lastSuccessAt = some t → 0 ≤ t ∧ t ≤ clock
  running : w.state = .running → w.task ≠ none ∧
    ∃ t₀, w.spawnedAt = some t₀ ∧ t₀ ≤ clock ∧ ∀ t, w.tracker.lastSuccessAt = some t → t₀ ≤ t

theorem ManagedWorker.Timed.mono {clock' : ℚ} (hw : w.Timed clock) (hle : clock ≤ clock') : w.Timed clock' := by
  refine ⟨fun t ht => ?_, fun hrn => ?_⟩
  · obtain ⟨h0, h1⟩ := hw.success t ht
    exact ⟨h0, h1.trans hle⟩
  · obtain ⟨hts, t0, hsp, h0, hlast⟩ := hw.running hrn
    exact ⟨hts, t0, hsp, h0.trans hle, hlast⟩

structure ManagedWorker.Counted (w : ManagedWorker) : Prop where
  critical : w.spec.isCritical = true
  running : w.state = .running
  success : ∃ t, w.tracker.lastSuccessAt = some t ∧ 0 < t

theorem truthy_some (h : 0 < t) : truthy (some t) = some t := by
  have hne : t ≠ 0 := ne_of_gt h
  simp [truthy, hne]

theorem of_truthy {o : Option ℚ} (h : truthy o = some t) : o = some t ∧ t ≠ 0 := by
  unfold truthy at h
  rw [Option.filter_eq_some_iff] at h
  exact ⟨h.1, by simpa using h.2⟩

section

variable {settings : Settings} {now : ℚ} {g : Gate}

theorem timed_spawn (hw : w.Timed clock) : (w.spawn clock).Timed clock := by
  unfold spawn
  split
  · exact hw
  · refine ⟨fun t ht => ?_, fun _ => ⟨by simp, clock, rfl, le_refl _, fun t ht => ?_⟩⟩
    · cases ht
    · cases ht

theorem counted_of_isReady (hw : w.Timed clock) (h : w.isReady now = true) : w.Counted := by
  unfold isReady at h
  simp only [Bool.and_eq_true, decide_eq_true_eq] at h
  obtain ⟨⟨⟨hcr, hrn⟩, -⟩, hsc⟩ := h
  split at hsc
  · rename_i t ht
    obtain ⟨hlast, hne⟩ := of_truthy ht
    have h0 := (hw.success t hlast).1
    exact ⟨hcr, hrn, t, hlast, lt_of_le_of_ne h0 (Ne.symm hne)⟩
  · cases hsc

theorem report_for (hg : g.For names) : (w.report now g).For names := by
  have hmr : (if w.isReady now then g.markReady w.spec.name else g).For names := by
    split
    · exact hg.step (.markReady w.spec.name)
    · exact hg
  unfold report
  dsimp only
  split
  · exact hmr.step (.close _)
  · exact hmr

theorem ready_report (h : name ∈ (w.report now g).readyWorkers) :
    (name ∈ g.readyWorkers ∨ (name = w.spec.name ∧ w.isReady now = true)) ∧
      (w.spec.isCritical = true → w.isStale now = false ∧ w.isFailed = false ∧ w.hasTickErrors = false) := by
  unfold report at h
  dsimp only at h
  split at h
  · rw [readyWorkers_close] at h
    cases h
  · rename_i hfi
    refine ⟨?_, fun hcr => ?_⟩
    · split at h
      · rename_i hrd
        rw [readyWorkers_markReady] at h
        split at h
        · rcases Finset.mem_insert.1 h with heq | hmem
          · exact .inr ⟨heq, hrd⟩
          · exact .inl hmem
        · exact .inl h
      · exact .inl h
    · rw [hcr, Bool.true_and, Bool.not_eq_true, Bool.or_eq_false_iff, Bool.or_eq_false_iff] at hfi
      exact ⟨hfi.1.1, hfi.1.2, hfi.2⟩

theorem healthy_of_counted (hw : w.Timed clock) (hcn : w.Counted) (hsl : w.isStale now = false)
    (hfl : w.isFailed = false) (her : w.hasTickErrors = false) : w.Healthy now := by
  obtain ⟨t, hlast, hpos⟩ := hcn.success
  obtain ⟨hts, t0, hsp, -, haf⟩ := hw.running hcn.running
  refine ⟨hcn.running, ?_, ?_, t, t0, hlast, hsp, haf t hlast, ?_⟩
  · unfold isFailed at hfl
    rw [decide_eq_false_iff_not] at hfl
    cases h : w.task with
    | none => exact absurd h hts
    | some task =>
      cases task with
      | alive => rfl
      | done => exact absurd h hfl
  · unfold hasTickErrors at her
    rw [decide_eq_false_iff_not] at her
    omega
  · unfold isStale at hsl
    rw [if_pos hcn.running, hlast, truthy_some hpos] at hsl
    simpa using hsl

structure Visited (now clock : ℚ) (names : Finset String) (w : ManagedWorker) (g : Gate) (w' : ManagedWorker)
    (g' : Gate) : Prop where
  spec : w'.spec = w.spec
  timed : w'.Timed clock
  gate : g'.For names
  ready : ∀ name ∈ g'.readyWorkers, name ≠ w.spec.name → name ∈ g.readyWorkers
  self : w.spec.name ∈ g'.readyWorkers → w.Healthy now ∧ w'.Counted

def Outcome.result : Outcome → ManagedWorker × Gate
  | .next w g | .cancelling w g | .ended w g => (w, g)

theorem Visited.waiting (hw : w.Timed clock) (hg : g.For names)
    (hse : w.spec.name ∉ g.readyWorkers) (hspc : w'.spec = w.spec) (htr : w'.tracker = w.tracker)
    (hst : w'.state = .failed) : Visited now clock names w g w' g := by
  refine ⟨hspc, ⟨fun t ht => hw.success t (htr ▸ ht), fun h => ?_⟩, hg, fun _ h _ => h, fun h => absurd h hse⟩
  rw [hst] at h
  cases h

theorem Visited.exhausted (hw : w.Timed clock) (hg : g.For names) (reason : String)
    (hspc : w'.spec = w.spec) (htr : w'.tracker = w.tracker) (hst : w'.state = .restartExhausted) :
    Visited now clock names w g w' (g.close reason) := by
  have hem := readyWorkers_close g reason
  refine ⟨hspc, ⟨fun t ht => hw.success t (htr ▸ ht), fun h => ?_⟩, hg.step (.close reason), fun name h _ => ?_,
    fun h => ?_⟩
  · rw [hst] at h
    cases h
  · rw [hem] at h
    cases h
  · rw [hem] at h
    cases h

variable (settings now) in
theorem fail_visited (hw : w.Timed clock) (hg : g.For names) (hse : w.spec.name ∉ g.readyWorkers) :
    Visited now clock names w g (w.fail now settings g).1 (w.fail now settings g).2.1 := by
  unfold fail
  dsimp only
  split
  · exact .exhausted hw hg _ rfl rfl rfl
  · exact .waiting hw hg hse rfl rfl rfl
  · split
    · exact .exhausted hw hg _ rfl rfl rfl
    · exact .waiting hw hg hse rfl rfl rfl

theorem readyWorkers_fail : (w.fail now settings g).2.2 = true → (w.fail now settings g).2.1.readyWorkers = ∅ := by
  unfold fail
  dsimp only
  split
  · exact fun _ => readyWorkers_close _ _
  · exact nofun
  · split
    · exact fun _ => readyWorkers_close _ _
    · exact nofun

theorem failed_cases (settings : Settings) (now : ℚ) (w : ManagedWorker) (g : Gate) :
    (failed settings now w g = .ended (w.fail now settings g).1 (w.fail now settings g).2.1 ∧
      (w.fail now settings g).2.2 = true) ∨
    failed settings now w g = .next (w.fail now settings g).1 (w.fail now settings g).2.1 := by
  unfold failed
  split
  · rename_i hfa
    rw [hfa]
    exact .inl ⟨rfl, rfl⟩
  · rename_i hfa
    rw [hfa]
    exact .inr rfl

variable (settings now) in
theorem failed_visited (hw : w.Timed clock) (hg : g.For names) (hse : w.spec.name ∉ g.readyWorkers) :
    Visited now clock names w g (failed settings now w g).result.1 (failed settings now w g).result.2 ∧
      (∀ w' g', failed settings now w g ≠ .cancelling w' g') ∧
      ∀ w' g', failed settings now w g = .ended w' g' → g'.readyWorkers = ∅ := by
  have hvs := fail_visited settings now hw hg hse
  rcases failed_cases settings now w g with ⟨heq, hen⟩ | heq
  · rw [heq]
    refine ⟨hvs, fun w' g' h => ?_, fun w' g' h => ?_⟩
    · cases h
    · obtain ⟨-, rfl⟩ := Outcome.ended.inj h
      exact readyWorkers_fail hen
  · rw [heq]
    refine ⟨hvs, fun w' g' h => ?_, fun w' g' h => ?_⟩
    · cases h
    · cases h

variable (hw : w.Timed clock) (hcn : w.spec.name ∈ g.readyWorkers → w.Counted)

include hw hcn

theorem ready_report_self (h : w.spec.name ∈ (w.report now g).readyWorkers) :
    w.Counted ∧ w.isStale now = false ∧ w.isFailed = false ∧ w.hasTickErrors = false := by
  obtain ⟨hbf, hfi⟩ := ready_report h
  have hco : w.Counted := by
    rcases hbf with hold | ⟨-, hrd⟩
    · exact hcn hold
    · exact counted_of_isReady hw hrd
  exact ⟨hco, hfi hco.critical⟩

theorem report_visited (hg : g.For names) : Visited now clock names w g w (w.report now g) := by
  refine ⟨rfl, hw, report_for hg, fun name h hne => ?_, fun h => ?_⟩
  · rcases (ready_report h).1 with hold | ⟨heq, -⟩
    · exact hold
    · exact absurd heq hne
  · obtain ⟨hco, hsl, hfl, her⟩ := ready_report_self hw hcn h
    exact ⟨healthy_of_counted hw hco hsl hfl her, hco⟩

theorem not_ready_of_isUnhealthy (hun : w.isUnhealthy now = true) : w.spec.name ∉ (w.report now g).readyWorkers := by
  intro hrd
  obtain ⟨-, hsl, -, her⟩ := ready_report_self hw hcn hrd
  unfold isUnhealthy persistentTickErrors at hun
  unfold hasTickErrors at her
  rw [hsl, Bool.false_or, Bool.and_eq_true, decide_eq_true_eq] at hun
  rw [decide_eq_false_iff_not] at her
  have hpos := w.spec.failures_pos
  omega

variable (settings now) in
theorem visit_visited (hg : g.For names) :
    Visited now clock names w g (visit settings now clock w g).result.1 (visit settings now clock w g).result.2 ∧
      (∀ w' g', visit settings now clock w g = .cancelling w' g' → w.spec.name ∉ g'.readyWorkers) ∧
      ∀ w' g', visit settings now clock w g = .ended w' g' → g'.readyWorkers = ∅ := by
  have hsk : ∀ w' : ManagedWorker, w'.spec = w.spec → w'.Timed clock → w.state ≠ .running →
      Visited now clock names w g w' g := by
    intro w' hspc htm hst
    exact ⟨hspc, htm, hg, fun _ h _ => h, fun h => absurd (hcn h).running hst⟩
  have hrp : Visited now clock names w g w (w.report now g) := report_visited hw hcn hg
  have hnx : ∀ {w1 : ManagedWorker} {g1 : Gate},
      (∀ w' g', Outcome.next w1 g1 = .cancelling w' g' → w.spec.name ∉ g'.readyWorkers) ∧
      ∀ w' g', Outcome.next w1 g1 = .ended w' g' → g'.readyWorkers = ∅ := by
    refine ⟨fun w' g' h => ?_, fun w' g' h => ?_⟩
    · cases h
    · cases h
  unfold visit
  split
  · rename_i hst
    exact ⟨hsk w rfl hw (by rw [hst]; decide), hnx⟩
  · rename_i restartAt hst _
    have hst' : w.state ≠ .running := by rw [hst]; decide
    split
    · refine ⟨hsk _ ?_ (timed_spawn ⟨hw.success, hw.running⟩) hst', hnx⟩
      unfold spawn
      split <;> rfl
    · exact ⟨hsk w rfl hw hst', hnx⟩
  · rename_i hst
    exact ⟨hsk w rfl hw (by rw [hst]; decide), hnx⟩
  · split
    · rename_i hun
      refine ⟨hrp, fun w' g' h => ?_, fun _ _ h => by cases h⟩
      obtain ⟨-, rfl⟩ := Outcome.cancelling.inj h
      exact not_ready_of_isUnhealthy hw hcn hun
    · split
      · rename_i hfl
        have hnot : w.spec.name ∉ (w.report now g).readyWorkers := by
          intro hrd
          rw [(ready_report_self hw hcn hrd).2.2.1] at hfl
          cases hfl
        obtain ⟨hvs, hnv, hend⟩ := failed_visited settings now hw hrp.gate hnot
        refine ⟨⟨hvs.spec, hvs.timed, hvs.gate, fun name h hne => ?_, fun h => ?_⟩, fun w' g' h => ?_, hend⟩
        · exact hrp.ready name (hvs.ready name h hne) hne
        · have hal := (hvs.self h).1.task
          unfold isFailed at hfl
          rw [hal] at hfl
          cases hfl
        · exact absurd h (hnv w' g')
      · exact ⟨hrp, hnx⟩

end

section

variable {settings : Settings} {specs : Specs} {s s' : WorkerSupervisor}

structure Proper (specs : Specs) (s : WorkerSupervisor) : Prop where
  same : s.workers.map (·.spec) = specs.list
  clock : 0 ≤ s.clock
  gate : s.gate.For specs.criticalNames
  timed : ∀ w ∈ s.workers, w.Timed s.clock
  counted : ∀ w ∈ s.workers, w.spec.name ∈ s.gate.readyWorkers → w.Counted

def Passed (s : WorkerSupervisor) (rest : List String) : Prop :=
  ∀ w ∈ s.workers, w.spec.name ∈ s.gate.readyWorkers →
    w.spec.name ∈ rest ∨ ∃ v ∈ s.visits, v.worker.spec = w.spec ∧ v.worker.Healthy s.now

def AtPhase (s : WorkerSupervisor) : Prop :=
  match s.phase with
  | .cancelling name rest => name ∉ s.gate.readyWorkers ∧ Passed s rest
  | _ => Passed s []

theorem Proper.eq_of_name (hs : Proper specs s) (hw : w ∈ s.workers) (hw' : w' ∈ s.workers)
    (h : w.spec.name = w'.spec.name) : w = w' := by
  have hnd : (s.workers.map fun w => w.spec.name).Nodup := by
    have hnm := specs.nodup
    rw [← hs.same, map_map] at hnm
    exact hnm
  exact inj_on_of_nodup_map hnd hw hw' h

theorem Proper.move (hs : Proper specs s) (hwr : s'.workers = s.workers.map f)
    (hcl : s.clock ≤ s'.clock) (hgt : s'.gate.For specs.criticalNames)
    (hf : ∀ w ∈ s.workers, (f w).spec = w.spec ∧ (f w).Timed s'.clock ∧
      (w.spec.name ∈ s'.gate.readyWorkers → (f w).Counted)) : Proper specs s' := by
  refine ⟨?_, hs.clock.trans hcl, hgt, fun w hw => ?_, fun w hw hrd => ?_⟩
  · rw [hwr, map_map, ← hs.same]
    exact map_congr_left fun w hw => (hf w hw).1
  · rw [hwr] at hw
    obtain ⟨old, hold, rfl⟩ := mem_map.1 hw
    exact (hf old hold).2.1
  · rw [hwr] at hw
    obtain ⟨old, hold, rfl⟩ := mem_map.1 hw
    rw [(hf old hold).1] at hrd
    exact (hf old hold).2.2 hrd

theorem Passed.move (hs : Passed s rest) (hwr : s'.workers = s.workers.map f)
    (hspc : ∀ w ∈ s.workers, (f w).spec = w.spec) (hrd : ∀ name ∈ s'.gate.readyWorkers, name ∈ s.gate.readyWorkers)
    (hvi : s'.visits = s.visits) (hnow : s'.now = s.now) : Passed s' rest := by
  intro w hw h
  rw [hwr] at hw
  obtain ⟨old, hold, rfl⟩ := mem_map.1 hw
  rw [hspc old hold] at h ⊢
  rw [hvi, hnow]
  exact hs old hold (hrd _ h)

theorem Passed.of_none_ready (h : s.gate.readyWorkers = ∅) : Passed s rest := by
  intro w _ hrd
  rw [h] at hrd
  cases hrd

theorem Proper.visited (hs : Proper specs s) {g' : Gate}
    (hfn : s.find name = some w) (hv : Visited s.now s.clock specs.criticalNames w s.gate w' g')
    (hps : Passed s (name :: rest)) {visits : List Visit} (hvi : ∀ v ∈ s.visits, v ∈ visits)
    (hse : w.spec.name ∈ g'.readyWorkers → ∃ v ∈ visits, v.worker.spec = w.spec ∧ v.worker.Healthy s.now)
    (phase : Phase) : Proper specs { s.put w' with gate := g', visits, phase } ∧
      Passed { s.put w' with gate := g', visits, phase } rest := by
  have hmem : w ∈ s.workers := mem_of_find?_eq_some hfn
  have hna : w.spec.name = name := by simpa using find?_some hfn
  have hf : ∀ old ∈ s.workers, ((if old.spec.name = w'.spec.name then w' else old).spec = old.spec) ∧
      (if old.spec.name = w'.spec.name then w' else old).Timed s.clock ∧
      (old.spec.name ∈ g'.readyWorkers → (if old.spec.name = w'.spec.name then w' else old).Counted) := by
    intro old hold
    rw [hv.spec]
    split
    · rename_i heq
      have hsame : old = w := hs.eq_of_name hold hmem heq
      subst hsame
      exact ⟨hv.spec, hv.timed, fun h => (hv.self h).2⟩
    · rename_i hne
      exact ⟨rfl, hs.timed old hold, fun h => hs.counted old hold (hv.ready _ h hne)⟩
  refine ⟨hs.move rfl (le_refl _) hv.gate hf, fun x hx h => ?_⟩
  obtain ⟨old, hold, rfl⟩ := mem_map.1 hx
  rw [(hf old hold).1] at h ⊢
  by_cases hsame : old.spec.name = w.spec.name
  · have heq : old = w := hs.eq_of_name hold hmem hsame
    subst heq
    exact .inr (hse h)
  · rcases hps old hold (hv.ready _ h hsame) with hrs | ⟨v, hv', hspc, hhl⟩
    · rcases mem_cons.1 hrs with heq | htl
      · exact absurd (heq.trans hna.symm) hsame
      · exact .inl htl
    · exact .inr ⟨v, hvi v hv', hspc, hhl⟩

theorem visitAll_proper (names : List String) (hs : Proper specs s) (hps : Passed s names) :
    Proper specs (s.visitAll settings names) ∧ AtPhase (s.visitAll settings names) := by
  -- on the workers still to visit; whoever is ready and not among them has been visited
  induction names generalizing s with
  | nil => exact ⟨⟨hs.same, hs.clock, hs.gate, hs.timed, hs.counted⟩, hps⟩
  | cons name rest ih =>
    unfold visitAll
    split
    · rename_i hnn
      -- no worker has the name
      refine ih hs fun w hw h => ?_
      rcases hps w hw h with hmem | hvt
      · rcases mem_cons.1 hmem with heq | htl
        · have hnot := find?_eq_none.1 hnn w hw
          simp [heq] at hnot
        · exact .inl htl
      · exact .inr hvt
    · rename_i w hfn
      have hmem : w ∈ s.workers := mem_of_find?_eq_some hfn
      have hna : w.spec.name = name := by simpa using find?_some hfn
      obtain ⟨hv, hcc, hend⟩ := visit_visited settings s.now (hs.timed w hmem) (hs.counted w hmem) hs.gate
      have hvi : ∀ v ∈ s.visits, v ∈ s.visits ++ [⟨w, s.clock⟩] := fun v h => mem_append_left _ h
      have hse : w.spec.name ∈ (visit settings s.now s.clock w s.gate).result.2.readyWorkers →
          ∃ v ∈ s.visits ++ [⟨w, s.clock⟩], v.worker.spec = w.spec ∧ v.worker.Healthy s.now := by
        intro h
        exact ⟨⟨w, s.clock⟩, mem_append_right _ (mem_singleton_self _), rfl, (hv.self h).1⟩
      cases hvt : visit settings s.now s.clock w s.gate with
      | next w' g' =>
        rw [hvt] at hv hse
        obtain ⟨hpr, hrs⟩ := hs.visited hfn hv hps hvi hse s.phase
        exact ih hpr hrs
      | cancelling w' g' =>
        rw [hvt] at hv hse
        obtain ⟨hpr, hrs⟩ := hs.visited hfn hv hps hvi hse (.cancelling name rest)
        exact ⟨hpr, hna ▸ hcc w' g' hvt, hrs⟩
      | ended w' g' =>
        rw [hvt] at hv hse
        obtain ⟨hpr, -⟩ := hs.visited hfn hv hps hvi hse .ended
        exact ⟨hpr, Passed.of_none_ready (hend w' g' hvt)⟩

theorem Proper.wake (hs : Proper specs s) (hph : AtPhase s) :
    Proper specs (s.wake settings) ∧ AtPhase (s.wake settings) := by
  unfold WorkerSupervisor.wake
  split
  · refine visitAll_proper _ ⟨hs.same, hs.clock, hs.gate, hs.timed, hs.counted⟩ fun w hw _ => .inl ?_
    exact mem_map.2 ⟨w, hw, rfl⟩
  · exact ⟨hs, hph⟩

theorem Proper.resume (hs : Proper specs s) (hph : AtPhase s) :
    Proper specs (s.resume settings) ∧ AtPhase (s.resume settings) := by
  unfold WorkerSupervisor.resume
  split
  · rename_i name rest hca
    unfold AtPhase at hph
    rw [hca] at hph
    obtain ⟨hnot, hps⟩ := hph
    have hsy : AtPhase s := by
      unfold AtPhase
      rw [hca]
      exact ⟨hnot, hps⟩
    split
    · rename_i w hfn
      split
      · rename_i hdn
        have hmem : w ∈ s.workers := mem_of_find?_eq_some hfn
        have hna : w.spec.name = name := by simpa using find?_some hfn
        -- the worker was reported before the wait, and nobody has marked it ready since
        obtain ⟨hv, hnv, hend⟩ := failed_visited settings s.now (hs.timed w hmem) hs.gate (hna ▸ hnot)
        have hps' : Passed s (name :: rest) := by
          intro x hx h
          rcases hps x hx h with hrs | hvt
          · exact .inl (mem_cons_of_mem _ hrs)
          · exact .inr hvt
        have hse : w.spec.name ∈ (failed settings s.now w s.gate).result.2.readyWorkers →
            ∃ v ∈ s.visits, v.worker.spec = w.spec ∧ v.worker.Healthy s.now := by
          intro h
          have hal := (hv.self h).1.task
          rw [hdn] at hal
          cases hal
        cases hfl : failed settings s.now w s.gate with
        | next w' g' =>
          rw [hfl] at hv hse
          obtain ⟨hpr, hrs⟩ := hs.visited hfn hv hps' (fun _ h => h) hse s.phase
          exact visitAll_proper rest hpr hrs
        | cancelling w' g' => exact absurd hfl (hnv w' g')
        | ended w' g' =>
          rw [hfl] at hv hse
          obtain ⟨hpr, -⟩ := hs.visited hfn hv hps' (fun _ h => h) hse .ended
          exact ⟨hpr, Passed.of_none_ready (hend w' g' hfl)⟩
      · exact ⟨hs, hsy⟩
    · exact ⟨hs, hsy⟩
  · exact ⟨hs, hph⟩

theorem Proper.aside (hs : Proper specs s) (hph : AtPhase s)
    (hwr : s'.workers = s.workers.map f) (hcl : s.clock ≤ s'.clock) (hgt : s'.gate.For specs.criticalNames)
    (hrd : ∀ name ∈ s'.gate.readyWorkers, name ∈ s.gate.readyWorkers)
    (hf : ∀ w ∈ s.workers, (f w).spec = w.spec ∧ (f w).Timed s'.clock ∧
      (w.spec.name ∈ s'.gate.readyWorkers → w.Counted → (f w).Counted))
    (hvi : s'.visits = s.visits) (hnow : s'.now = s.now) (hsy : s'.phase = s.phase) : Proper specs s' ∧ AtPhase s' := by
  refine ⟨hs.move hwr hcl hgt fun w hw => ?_, ?_⟩
  · obtain ⟨hspc, htm, hcn⟩ := hf w hw
    exact ⟨hspc, htm, fun h => hcn h (hs.counted w hw (hrd _ h))⟩
  · have hmv : ∀ rest, Passed s rest → Passed s' rest := fun rest h =>
      h.move hwr (fun w hw => (hf w hw).1) hrd hvi hnow
    unfold AtPhase at hph ⊢
    rw [hsy]
    split
    · rename_i name rest hca
      rw [hca] at hph
      exact ⟨fun h => hph.1 (hrd _ h), hmv rest hph.2⟩
    · rename_i hot
      have hps : Passed s [] := by
        cases hp : s.phase with
        | sleeping | ended => rw [hp] at hph; exact hph
        | cancelling name rest => exact absurd hp (hot name rest)
      exact hmv [] hps

structure OwnEvent (clock : ℚ) (w w' : ManagedWorker) : Prop where
  spec : w'.spec = w.spec
  timed : w.Timed clock → w'.Timed clock
  counted : w.Timed clock → w.Counted → w'.Counted

theorem Proper.modify (hs : Proper specs s) (hph : AtPhase s) (name : String)
    (hf : ∀ w, OwnEvent s.clock w (f w)) : Proper specs (s.modify name f) ∧ AtPhase (s.modify name f) := by
  refine hs.aside hph rfl (le_refl _) hs.gate (fun _ h => h) (fun w hw => ?_) rfl rfl rfl
  have hw' := hs.timed w hw
  split
  · exact ⟨(hf w).spec, (hf w).timed hw', fun _ => (hf w).counted hw'⟩
  · exact ⟨rfl, hw', fun _ h => h⟩

theorem ownEvent_tick (hcl : 0 ≤ clock) (update : TickUpdate) (w : ManagedWorker) {task : Option Task}
    (hts : w.task ≠ none → task ≠ none) :
    OwnEvent clock w { w with tracker := update.apply clock w.tracker, task } := by
  -- a success is the old one or one of now
  have hlast : ∀ t, (update.apply clock w.tracker).lastSuccessAt = some t →
      w.tracker.lastSuccessAt = some t ∨ t = clock := by
    intro t ht
    cases update with
    | started => exact .inl ht
    | succeeded | idle => exact .inr (Option.some.inj ht).symm
    | failed => exact .inl ht
  refine ⟨rfl, fun hw => ⟨fun t ht => ?_, fun hrn => ?_⟩, fun hw hcn => ⟨hcn.critical, hcn.running, ?_⟩⟩
  · rcases hlast t ht with hold | rfl
    · exact hw.success t hold
    · exact ⟨hcl, le_refl _⟩
  · obtain ⟨hts', t0, hsp, hle, haf⟩ := hw.running hrn
    refine ⟨hts hts', t0, hsp, hle, fun t ht => ?_⟩
    rcases hlast t ht with hold | rfl
    · exact haf t hold
    · exact hle
  · obtain ⟨t, ht, hpos⟩ := hcn.success
    have hcl' : 0 < clock := lt_of_lt_of_le hpos (hw.success t ht).2
    cases update with
    | started => exact ⟨t, ht, hpos⟩
    | succeeded | idle => exact ⟨clock, rfl, hcl'⟩
    | failed => exact ⟨t, ht, hpos⟩

theorem ownEvent_done (w : ManagedWorker) : OwnEvent clock w { w with task := w.task.map fun _ => .done } := by
  refine ⟨rfl, fun hw => ⟨hw.success, fun hrn => ?_⟩, fun _ h => ⟨h.critical, h.running, h.success⟩⟩
  obtain ⟨hts, hsp⟩ := hw.running hrn
  refine ⟨fun hnn => hts ?_, hsp⟩
  simpa using hnn

theorem Proper.stop (hs : Proper specs s) (hph : AtPhase s) : Proper specs s.stop ∧ AtPhase s.stop := by
  have hem : s.stop.gate.readyWorkers = ∅ := readyWorkers_close s.gate "shutdown"
  refine hs.aside hph rfl (le_refl _) (hs.gate.step (.forceCloseAll "shutdown")) (fun name h => ?_) (fun w hw => ?_)
    rfl rfl rfl
  · rw [hem] at h
    cases h
  · rw [hem]
    split
    · refine ⟨rfl, ⟨(hs.timed w hw).success, fun h => ?_⟩, fun h => ?_⟩
      · cases h
      · cases h
    · refine ⟨rfl, hs.timed w hw, fun h => ?_⟩
      cases h

theorem Proper.step (hs : Proper specs s) (hph : AtPhase s) (e : Event) :
    Proper specs (s.step settings e) ∧ AtPhase (s.step settings e) := by
  have hsame : ∀ {s' : WorkerSupervisor}, s'.workers = s.workers → s'.workers = s.workers.map id := by
    intro s' h
    rw [h, map_id]
  cases e with
  | wake => exact hs.wake hph
  | resume => exact hs.resume hph
  | advance seconds =>
    have hle : s.clock ≤ s.clock + seconds := le_add_of_nonneg_right seconds.coe_nonneg
    exact hs.aside hph (hsame rfl) hle hs.gate (fun _ h => h)
      (fun w hw => ⟨rfl, (hs.timed w hw).mono hle, fun _ h => h⟩) rfl rfl rfl
  | tick name update => exact hs.modify hph name fun w => ownEvent_tick hs.clock update w fun h => h
  | taskDone name => exact hs.modify hph name ownEvent_done
  | taskCrashed name =>
    refine hs.modify hph name fun w => ownEvent_tick hs.clock .failed w fun h hnn => h ?_
    simpa using hnn
  | setSafetyBlocker blockerName =>
    refine hs.aside hph (hsame rfl) (le_refl _) (hs.gate.step (.setSafetyBlocker blockerName)) (fun name h => ?_)
      (fun w hw => ⟨rfl, hs.timed w hw, fun _ h => h⟩) rfl rfl rfl
    change name ∈ (s.gate.setSafetyBlocker blockerName).readyWorkers at h
    rwa [readyWorkers_setSafetyBlocker] at h
  | clearSafetyBlocker blockerName =>
    refine hs.aside hph (hsame rfl) (le_refl _) (hs.gate.step (.clearSafetyBlocker blockerName)) (fun name h => ?_)
      (fun w hw => ⟨rfl, hs.timed w hw, fun _ h => h⟩) rfl rfl rfl
    change name ∈ (s.gate.clearSafetyBlocker blockerName).readyWorkers at h
    rwa [readyWorkers_clearSafetyBlocker] at h
  | stop => exact hs.stop hph

theorem start_proper (settings : Settings) (specs : Specs) :
    Proper specs (start settings specs) ∧ AtPhase (start settings specs) := by
  have hspc : ∀ spec : WorkerSpec, ∀ state, (spawn { spec, state } settings.startedAt).spec = spec := by
    intro spec state
    unfold spawn
    split <;> rfl
  have hnn : (start settings specs).gate.readyWorkers = ∅ := rfl
  refine ⟨⟨?_, settings.startedAt_nonneg, ⟨init_valid _, rfl⟩, fun w hw => ?_, fun w _ h => ?_⟩,
    Passed.of_none_ready hnn⟩
  · have hmap : (start settings specs).workers.map (·.spec) = specs.list.map id := by
      unfold start
      rw [map_map]
      exact map_congr_left fun spec _ => hspc spec _
    rw [hmap, map_id]
  · obtain ⟨spec, -, rfl⟩ := mem_map.1 hw
    refine timed_spawn ⟨fun t ht => ?_, fun hrn => ?_⟩
    · cases ht
    · split at hrn
      · cases hrn
      · cases hrn
  · rw [hnn] at h
    cases h

theorem run_proper (settings : Settings) (specs : Specs) (events : List Event) :
    Proper specs (run settings specs events) ∧
      AtPhase (run settings specs events) := by
  have hfd : ∀ (events : List Event) (s : WorkerSupervisor), Proper specs s → AtPhase s →
      Proper specs (events.foldl (step settings) s) ∧
        AtPhase (events.foldl (step settings) s) := by
    intro events
    induction events with
    | nil => exact fun s hs hph => ⟨hs, hph⟩
    | cons e events ih =>
      intro s hs hph
      obtain ⟨hs', hph'⟩ := hs.step hph e
      exact ih _ hs' hph'
  obtain ⟨hs, hph⟩ := start_proper settings specs
  exact hfd events _ hs hph

end

/-- **The gate is not left open over an unhealthy critical worker**: between two passes and while the gate is open,
every enabled critical worker was healthy when the last pass visited it, by the time at which the pass began. -/
theorem open_gate_healthy (settings : Settings) (specs : Specs) (events : List Event)
    (hbetween : ∀ name rest, (run settings specs events).phase ≠ .cancelling name rest)
    (hopen : (run settings specs events).gate.isOpen = true) (spec : WorkerSpec)
    (hspec : spec ∈ specs.list) (henabled : spec.enabled = true) (hcritical : spec.isCritical = true) :
    ∃ v ∈ (run settings specs events).visits, v.worker.spec = spec ∧
      v.worker.Healthy (run settings specs events).now := by
  obtain ⟨hs, hphase⟩ := run_proper settings specs events
  generalize run settings specs events = s at hbetween hopen hs hphase ⊢
  have hpass : Passed s [] := by
    unfold AtPhase at hphase
    split at hphase
    · rename_i name rest hcancelling
      exact absurd hcancelling (hbetween name rest)
    · exact hphase
  -- the gate is open only when every critical worker is ready
  have hready : spec.name ∈ s.gate.readyWorkers := by
    rw [hs.gate.ready_of_isOpen hopen]
    refine mem_toFinset.2 (mem_map.2 ⟨spec, mem_filter.2 ⟨hspec, ?_⟩, rfl⟩)
    rw [henabled, hcritical, Bool.and_self]
  rw [← hs.same] at hspec
  obtain ⟨w, hw, rfl⟩ := mem_map.1 hspec
  rcases hpass w hw hready with hrest | hvisit
  · cases hrest
  · exact hvisit

/-! Runs of a critical worker beside one that hangs. -/

def criticalSpec : WorkerSpec := { name := "monitor", policy := .always, isCritical := true }

def sideSpec : WorkerSpec := { name := "probe", policy := .always, isCritical := false }

def twoWorkers : Specs := ⟨[sideSpec, criticalSpec], by decide⟩

def fromOne : Settings := { startedAt := 1 }

def oneSuccess : List Event := [.tick "monitor" .succeeded, .wake]

theorem oneSuccess_healthy : (run fromOne twoWorkers oneSuccess).gate.isOpen = true ∧
    ∃ v ∈ (run fromOne twoWorkers oneSuccess).visits, v.worker.spec = criticalSpec ∧
      v.worker.Healthy (run fromOne twoWorkers oneSuccess).now := by
  have hopen : (run fromOne twoWorkers oneSuccess).gate.isOpen = true := by decide +kernel
  have hphase : (run fromOne twoWorkers oneSuccess).phase = .sleeping := by decide +kernel
  refine ⟨hopen, open_gate_healthy fromOne twoWorkers oneSuccess (fun name rest h => ?_) hopen criticalSpec ?_ rfl rfl⟩
  · rw [hphase] at h
    cases h
  · exact mem_cons_of_mem _ mem_cons_self

def slowCancel : List Event :=
  oneSuccess ++ [.advance 60, .tick "monitor" .succeeded, .advance 1, .wake, .advance 100, .taskDone "probe", .resume]

/-- **By the clock of the visit the last success may be older than the timeout**: the pass goes by the time at
which it began. -/
theorem hung_worker_visited : ¬ ∀ (settings : Settings) (specs : Specs) (events : List Event),
    (∀ name rest, (run settings specs events).phase ≠ .cancelling name rest) →
    (run settings specs events).gate.isOpen = true → ∀ spec ∈ specs.list, spec.enabled = true →
    spec.isCritical = true → ∃ v ∈ (run settings specs events).visits, v.worker.spec = spec ∧
      v.worker.Healthy v.clock := by
  intro hclaim
  have hphase : (run fromOne twoWorkers slowCancel).phase = .sleeping := by decide +kernel
  have hseen : ∀ v ∈ (run fromOne twoWorkers slowCancel).visits, v.worker.spec = criticalSpec →
      v.worker.tracker.lastSuccessAt = some 61 ∧ v.clock = 162 := by decide +kernel
  obtain ⟨v, hv, hspec, hhealthy⟩ := hclaim fromOne twoWorkers slowCancel
    (fun name rest h => by rw [hphase] at h; cases h) (by decide +kernel) criticalSpec
    (mem_cons_of_mem _ mem_cons_self) rfl rfl
  obtain ⟨hlast, hclock⟩ := hseen v hv hspec
  obtain ⟨t, t0, ht, -, -, hage⟩ := hhealthy.success
  rw [hlast] at ht
  cases ht
  rw [hclock, hspec] at hage
  have htimeout : criticalSpec.staleTimeoutSeconds = 60 := rfl
  rw [htimeout] at hage
  norm_num at hage

end Schurfer.Supervisor
