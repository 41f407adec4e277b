import Schurfer.LateFill.Store

/-!
# What stays

A terminal order of the exchange stays as it is, an attempt with a task keeps it (`Grows`), and no attempt gets a
second one (`OneTask`).
-/

namespace Schurfer.LateFill

open Orders Threads EmergencyClose List

variable {adopted : List AdoptedClose} {P : State → Prop}

structure Grows (s s' : State) : Prop where
  orders : ∀ order ∈ s.orders, order.isTerminal = true → order ∈ s'.orders
  tasks : ∀ attemptId, s.hasTask attemptId = true → s'.hasTask attemptId = true

def OneTask (s : State) : Prop := (s.tasks.map (·.spec.sourceAttemptId)).Nodup

section

variable {s s' s1 s2 s3 : State} {i : ℕ}

theorem Grows.refl (s : State) : Grows s s := ⟨fun _ ho _ => ho, fun _ h => h⟩

theorem Grows.trans (h1 : Grows s1 s2) (h2 : Grows s2 s3) : Grows s1 s3 :=
  ⟨fun order ho ht => h2.orders order (h1.orders order ho ht) ht, fun id h => h2.tasks id (h1.tasks id h)⟩

theorem Grows.of_eq (hor : s'.orders = s.orders) (hts : s'.tasks = s.tasks) : Grows s s' := by
  refine ⟨fun order ho _ => hor ▸ ho, fun id h => ?_⟩
  unfold State.hasTask at h ⊢
  rw [hts]
  exact h

theorem evolve_grows (s : State) (orders : List Order) : Grows s (s.evolve orders) := by
  unfold State.evolve
  split
  · rename_i hkp
    refine ⟨fun order ho ht => ?_, fun id h => h⟩
    have hmem := all_eq_true.1 hkp order ho
    rw [ht] at hmem
    exact of_decide_eq_true hmem
  · exact .refl s

theorem evolve_tasks (s : State) (orders : List Order) : (s.evolve orders).tasks = s.tasks := by
  unfold State.evolve
  split <;> rfl

theorem hasTask_iff {attemptId : ℕ} :
    s.hasTask attemptId = true ↔ ∃ task ∈ s.tasks, task.spec.sourceAttemptId = attemptId := by
  unfold State.hasTask
  rw [any_eq_true]
  refine exists_congr fun task => and_congr_right fun _ => ?_
  exact decide_eq_true_iff

theorem createTask_cases (s : State) (spec : TaskSpec) (adopted : List AdoptedClose) :
    ((s.createTask spec adopted).2 = s ∧
      ∀ r, (s.createTask spec adopted).1 = .ok r → s.hasTask spec.sourceAttemptId = true) ∨
    ((s.createTask spec adopted).2 = s.addTask spec adopted ∧ s.hasTask spec.sourceAttemptId = false) := by
  unfold State.createTask
  split
  · exact .inl ⟨rfl, nofun⟩
  split
  · exact .inl ⟨rfl, nofun⟩
  split
  · rename_i task hfn
    have hsr := find?_some hfn
    exact .inl ⟨rfl, fun _ _ => hasTask_iff.2 ⟨task, mem_of_find?_eq_some hfn, of_decide_eq_true hsr⟩⟩
  · rename_i hnn
    split
    · exact .inl ⟨rfl, nofun⟩
    · refine .inr ⟨rfl, Bool.eq_false_of_not_eq_true fun hhas => ?_⟩
      obtain ⟨task, hta, hsr⟩ := hasTask_iff.1 hhas
      exact find?_eq_none.1 hnn task hta (decide_eq_true hsr)

theorem createTask_grows (s : State) (spec : TaskSpec) (adopted : List AdoptedClose) :
    Grows s (s.createTask spec adopted).2 := by
  rcases createTask_cases s spec adopted with ⟨heq, -⟩ | ⟨heq, -⟩
  · rw [heq]; exact .refl s
  · rw [heq]
    refine ⟨fun _ ho _ => ho, fun id h => ?_⟩
    obtain ⟨task, hta, hsr⟩ := hasTask_iff.1 h
    exact hasTask_iff.2 ⟨task, mem_append_left _ hta, hsr⟩

theorem createTask_oneTask (hs : OneTask s) (spec : TaskSpec) (adopted : List AdoptedClose) :
    OneTask (s.createTask spec adopted).2 := by
  rcases createTask_cases s spec adopted with ⟨heq, -⟩ | ⟨heq, hnew⟩
  · rw [heq]; exact hs
  · rw [heq]
    change ((s.tasks ++ [_]).map _).Nodup
    rw [map_append, nodup_append]
    refine ⟨hs, nodup_singleton _, ?_⟩
    rintro a ha b hb rfl
    obtain ⟨task, hta, hsr⟩ := mem_map.1 ha
    have hb' : a = spec.sourceAttemptId := mem_singleton.1 hb
    rw [hasTask_iff.2 ⟨task, hta, hsr.trans hb'⟩] at hnew
    cases hnew

theorem createTask_ok {r : ℕ × Bool} {spec : TaskSpec} (h : (s.createTask spec adopted).1 = .ok r) :
    (s.createTask spec adopted).2.hasTask spec.sourceAttemptId = true := by
  rcases createTask_cases s spec adopted with ⟨heq, hhas⟩ | ⟨heq, -⟩
  · rw [heq]; exact hhas r h
  · rw [heq]; exact hasTask_iff.2 ⟨_, mem_append_right _ (mem_singleton.2 rfl), rfl⟩

end

section

variable {s s' : State} {i : ℕ} {c : Chance}

theorem wrote_state {α : Type} (hs : P s) (hs' : P s') (v : Except Failure α) : P (wrote c s s' v).2 := by
  unfold wrote
  split
  · split
    · exact hs'
    · exact hs
  · exact hs'

theorem answer_state (o : Op) (c : Chance) (hs : P s) (hrw : ∀ s', s'.orders = s.orders → s'.tasks = s.tasks → P s')
    (hexchange : ∀ orders, P (s.evolve orders)) (hcr : ∀ spec adopted, P (s.createTask spec adopted).2) :
    P (answer i s o c).2 := by
  cases o with
  | acquireLock | releaseLock =>
    simp only [answer]
    split
    · refine wrote_state hs (hrw _ ?_ ?_) _ <;> rfl
    · exact wrote_state hs hs _
  | cancelOrder | createStopMarketOrder => exact wrote_state hs (hexchange _) _
  | createTask => exact wrote_state hs (hcr _ _) _
  | record => refine wrote_state hs (hrw _ ?_ ?_) _ <;> rfl
  | _ => exact wrote_state hs hs _

theorem answer_grows (i : ℕ) (s : State) (o : Op) (c : Chance) : Grows s (answer i s o c).2 :=
  answer_state o c (.refl s) (fun _ => .of_eq) (evolve_grows s) (createTask_grows s)

theorem OneTask.of_tasks (hs : OneTask s) (hts : s'.tasks = s.tasks) : OneTask s' := by
  unfold OneTask
  rw [hts]
  exact hs

theorem answer_oneTask (hs : OneTask s) (i : ℕ) (o : Op) (c : Chance) : OneTask (answer i s o c).2 :=
  answer_state o c hs (fun _ _ => hs.of_tasks) (fun orders => hs.of_tasks (evolve_tasks s orders))
    (createTask_oneTask hs)

theorem taskStatus_specs (s : State) (id : ℕ) (status : TaskStatus) :
    (s.happens (.taskStatus id status)).tasks.map (·.spec) = s.tasks.map (·.spec) := by
  unfold State.happens
  rw [map_map]
  refine map_congr_left fun task _ => ?_
  dsimp only [Function.comp_apply]
  split <;> rfl

theorem hasTask_specs (attemptId : ℕ) :
    s.hasTask attemptId = (s.tasks.map (·.spec)).any (·.sourceAttemptId = attemptId) := by
  rw [any_map]
  rfl

theorem oneTask_specs : OneTask s ↔ ((s.tasks.map (·.spec)).map (·.sourceAttemptId)).Nodup := by
  rw [map_map]
  rfl

theorem happens_ok (hs : OneTask s) (e : Event) : OneTask (s.happens e) ∧ Grows s (s.happens e) := by
  cases e with
  | hold | free =>
    unfold State.happens
    dsimp only
    split
    · exact ⟨hs, .of_eq rfl rfl⟩
    · exact ⟨hs, .refl s⟩
  | exchange orders => exact ⟨hs.of_tasks (evolve_tasks s orders), evolve_grows s orders⟩
  | rows => exact ⟨hs, .of_eq rfl rfl⟩
  | task spec adopted => exact ⟨createTask_oneTask hs spec adopted, createTask_grows s spec adopted⟩
  | taskStatus id status =>
    refine ⟨?_, ⟨fun _ ho _ => ho, fun attemptId h => ?_⟩⟩
    · rw [oneTask_specs, taskStatus_specs, ← oneTask_specs]
      exact hs
    · rw [hasTask_specs, taskStatus_specs, ← hasTask_specs]
      exact h

end

def Written (s : State) (spec : TaskSpec) (adopted : List AdoptedClose) : Prop :=
  ∃ task ∈ s.tasks, task.spec.sourceAttemptId = spec.sourceAttemptId ∧
    task.spec.ownedQuantity = spec.ownedQuantity ∧
    ∀ close ∈ adopted, ∃ row ∈ s.attempts, row.taskId = some task.id ∧
      row.clientOrderId = close.clientOrderId ∧ row.status = close.status ∧ row.filledAmount = close.filledAmount

theorem mem_adoptedRows (spec : TaskSpec) (taskId id : ℕ) {close : AdoptedClose}
    (hclose : close ∈ adopted) : ∃ row ∈ adoptedRows spec taskId id adopted, row.taskId = some taskId ∧
      row.clientOrderId = close.clientOrderId ∧ row.status = close.status ∧
      row.filledAmount = close.filledAmount := by
  induction adopted generalizing id with
  | nil => cases hclose
  | cons head adopted ih =>
    rcases mem_cons.1 hclose with rfl | hclose
    · exact ⟨_, mem_cons_self, rfl, rfl, rfl, rfl⟩
    · obtain ⟨row, hrow, hfl⟩ := ih (id + 1) hclose
      exact ⟨row, mem_cons_of_mem _ hrow, hfl⟩

theorem addTask_written (s : State) (spec : TaskSpec) (adopted : List AdoptedClose) :
    Written (s.addTask spec adopted) spec adopted := by
  refine ⟨_, mem_append_right _ (mem_singleton.2 rfl), rfl, rfl, fun close hclose => ?_⟩
  obtain ⟨row, hrow, hfl⟩ :=
    mem_adoptedRows spec (freshId (s.tasks.map (·.id))) (freshId (s.attempts.map (·.id))) hclose
  exact ⟨row, mem_append_right _ hrow, hfl⟩

theorem createTask_atomic (i : ℕ) (s : State) (spec : TaskSpec) (adopted : List AdoptedClose) (c : Chance) :
    (answer i s (.createTask spec adopted) c).2 = s ∨
    (s.hasTask spec.sourceAttemptId = false ∧ Written (answer i s (.createTask spec adopted) c).2 spec adopted) := by
  refine wrote_state (P := fun s' => s' = s ∨ (s.hasTask spec.sourceAttemptId = false ∧ Written s' spec adopted))
    (.inl rfl) ?_ _
  rcases createTask_cases s spec adopted with ⟨heq, -⟩ | ⟨heq, hnew⟩
  · exact .inl heq
  · rw [heq]
    exact .inr ⟨hnew, addTask_written s spec adopted⟩

end Schurfer.LateFill
