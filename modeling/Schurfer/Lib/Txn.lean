import Mathlib.Logic.Relation
import Schurfer.Lib.Except

/-!
# Atomic transactions and runs

An error rolls back everything a transaction wrote (`Txn.commit`). `stateAt` is the store after the first `n` commands
of a run.
-/

abbrev Txn (ε σ α : Type) := StateT σ (Except ε) α

namespace Txn

variable {ε σ α β : Type} {s s' t : σ} {g : σ → σ} {x : Except ε α} {u : PUnit} {b : α}

def commit (t : Txn ε σ α) (s : σ) : σ :=
  match t.run s with
  | .ok (_, s') => s'
  | .error _ => s

theorem commit_cases (t : Txn ε σ α) (s : σ) : t.commit s = s ∨ ∃ a, t.run s = .ok (a, t.commit s) := by
  unfold commit
  cases h : t.run s with
  | error => exact .inl rfl
  | ok r => exact .inr ⟨r.1, rfl⟩

theorem pure_ok {a : α} : (pure a : Txn ε σ α).run s = .ok (b, s') ↔ a = b ∧ s = s' := by
  rw [StateT.run_pure]
  simp [pure, Except.pure]

theorem lift_ok : (liftM x : Txn ε σ α).run s = .ok (b, s') ↔ x = .ok b ∧ s = s' := by
  cases x with
  | error => simp [liftM, monadLift, MonadLift.monadLift, StateT.lift, StateT.run, bind, Except.bind]
  | ok a => simp [liftM, monadLift, MonadLift.monadLift, StateT.lift, StateT.run, bind, Except.bind,
      pure, Except.pure]

theorem throw_ok {e : ε} : (throw e : Txn ε σ α).run s = .ok (b, s') ↔ False := by
  simp [throw, throwThe, MonadExceptOf.throw, StateT.lift, StateT.run, bind, Except.bind]

theorem get_ok {b : σ} : (get : Txn ε σ σ).run s = .ok (b, s') ↔ s = b ∧ s = s' := by
  simp [StateT.run_get, pure, Except.pure]

theorem set_ok : (set t : Txn ε σ PUnit).run s = .ok (u, s') ↔ t = s' := by
  simp [StateT.run_set, pure, Except.pure]

theorem modify_ok : (modify g : Txn ε σ PUnit).run s = .ok (u, s') ↔ g s = s' := by
  have hrun : (modify g : Txn ε σ PUnit).run s = .ok (⟨⟩, g s) := rfl
  rw [hrun]
  simp

theorem bind_ok {x : Txn ε σ α} {f : α → Txn ε σ β} {b : β} {s2 : σ} : (x >>= f).run s = .ok (b, s2) ↔
      ∃ a s1, x.run s = .ok (a, s1) ∧ (f a).run s1 = .ok (b, s2) := by
  rw [StateT.run_bind]
  cases h : x.run s with
  | error => simp [bind, Except.bind]
  | ok r =>
    obtain ⟨a, s1⟩ := r
    simp [bind, Except.bind]

section

variable {b : β} {s2 : σ} {f : PUnit → Txn ε σ β}

theorem get_bind_ok {f : σ → Txn ε σ β} : (get >>= f : Txn ε σ β).run s = .ok (b, s2) ↔ (f s).run s = .ok (b, s2) :=
  Iff.rfl

theorem lift_bind_ok {f : α → Txn ε σ β} :
    (liftM x >>= f : Txn ε σ β).run s = .ok (b, s2) ↔ ∃ a, x = .ok a ∧ (f a).run s = .ok (b, s2) := by
  simp only [bind_ok, lift_ok]
  grind

theorem set_bind_ok : (set t >>= f : Txn ε σ β).run s = .ok (b, s2) ↔ (f ⟨⟩).run t = .ok (b, s2) :=
  Iff.rfl

theorem modify_bind_ok : (modify g >>= f : Txn ε σ β).run s = .ok (b, s2) ↔ (f ⟨⟩).run (g s) = .ok (b, s2) :=
  Iff.rfl

end

def Keeps (R : σ → σ → Prop) (t : Txn ε σ α) : Prop :=
  ∀ ⦃s a s'⦄, t.run s = .ok (a, s') → R s s'

section

variable {R R' : σ → σ → Prop} {t : Txn ε σ α} {f : α → Txn ε σ β}

theorem Keeps.mono (h : t.Keeps R) (hR : ∀ s s', R s s' → R' s s') : t.Keeps R' :=
  fun s _ s' hrun => hR s s' (h hrun)

theorem Keeps.throw (e : ε) : (throw e : Txn ε σ α).Keeps R := by
  intro s a s' h
  exact (throw_ok.1 h).elim

theorem Keeps.modify (h : ∀ s, R s (g s)) : (modify g : Txn ε σ PUnit).Keeps R := by
  intro s b s' hrun
  rw [← modify_ok.1 hrun]
  exact h s

variable [Std.Refl R]

theorem Keeps.pure (a : α) : (pure a : Txn ε σ α).Keeps R := by
  intro s b s' h
  obtain ⟨-, rfl⟩ := pure_ok.1 h
  exact Std.Refl.refl s

theorem Keeps.lift (x : Except ε α) : (liftM x : Txn ε σ α).Keeps R := by
  intro s b s' h
  obtain ⟨-, rfl⟩ := lift_ok.1 h
  exact Std.Refl.refl s

theorem Keeps.get : (get : Txn ε σ σ).Keeps R := by
  intro s b s' h
  obtain ⟨-, rfl⟩ := get_ok.1 h
  exact Std.Refl.refl s

omit [Std.Refl R] in
theorem Keeps.bind [IsTrans σ R] (ht : t.Keeps R) (hf : ∀ a, (f a).Keeps R) : (t >>= f).Keeps R := by
  intro s b s2 h
  obtain ⟨a, s1, h1, h2⟩ := bind_ok.1 h
  exact IsTrans.trans s s1 s2 (ht h1) (hf a h2)

omit [Std.Refl R] in
theorem Keeps.map {g : α → β} (ht : t.Keeps R) : (g <$> t).Keeps R := by
  intro s b s' h
  rw [StateT.run_map] at h
  cases hrun : t.run s with
  | error => rw [hrun] at h; simp [Functor.map, Except.map] at h
  | ok r =>
    rw [hrun] at h
    obtain ⟨-, rfl⟩ := h
    exact ht hrun

omit [Std.Refl R] in
theorem Keeps.get_bind {f : σ → Txn ε σ β} (h : ∀ s b s', (f s).run s = .ok (b, s') → R s s') :
    (MonadState.get >>= f : Txn ε σ β).Keeps R := by
  intro s b s' hrun
  obtain ⟨s0, s1, hget, hrs⟩ := bind_ok.1 hrun
  obtain ⟨rfl, rfl⟩ := get_ok.1 hget
  exact h s b s' hrs

theorem Keeps.forM [IsTrans σ R] {f : α → Txn ε σ PUnit} (hf : ∀ a, (f a).Keeps R) (l : List α) :
    (l.forM f).Keeps R := by
  induction l with
  | nil => exact Keeps.pure _
  | cons a l ih => exact Keeps.bind (hf a) fun _ => ih

theorem Keeps.commit (h : t.Keeps R) (s : σ) : R s (t.commit s) := by
  rcases t.commit_cases s with hs | ⟨a, hs⟩
  · rw [hs]
    exact Std.Refl.refl s
  · exact h hs

end

end Txn

namespace Run

variable {σ κ : Type} {step : σ → κ → σ} {s : σ} {cs : List κ}

def stateAt (step : σ → κ → σ) (s : σ) (cs : List κ) (n : ℕ) : σ :=
  (cs.take n).foldl step s

@[simp] theorem stateAt_zero : stateAt step s cs 0 = s := rfl

theorem stateAt_succ {c : κ} (h : cs[n]? = some c) : stateAt step s cs (n + 1) = step (stateAt step s cs n) c := by
  unfold stateAt
  rw [List.take_add_one, h]
  simp

theorem stateAt_of_length_le (h : cs[n]? = none) : stateAt step s cs (n + 1) = stateAt step s cs n := by
  unfold stateAt
  rw [List.take_add_one, h]
  simp

/-- What the first store satisfies and every step of the run preserves holds throughout. -/
theorem invariant {I : σ → Prop} (h0 : I s)
    (hst : ∀ n c, cs[n]? = some c → I (stateAt step s cs n) → I (step (stateAt step s cs n) c)) :
    ∀ n, I (stateAt step s cs n) := by
  intro n
  induction n with
  | zero => exact h0
  | succ n ih =>
    cases hc : cs[n]? with
    | none => rw [stateAt_of_length_le hc]; exact ih
    | some c => rw [stateAt_succ hc]; exact hst n c hc ih

/-- A part `f` of the store that every step moves along a preorder is ordered by time. -/
theorem persists {τ : Type} (f : σ → τ) {R : τ → τ → Prop} [Std.Refl R] [IsTrans τ R] (hst : ∀ n c, cs[n]? = some c →
      R (f (stateAt step s cs n)) (f (step (stateAt step s cs n) c)))
    {m : ℕ} (hmn : m ≤ n) : R (f (stateAt step s cs m)) (f (stateAt step s cs n)) := by
  induction hmn with
  | refl => exact Std.Refl.refl _
  | @step n _ ih =>
    cases hc : cs[n]? with
    | none => rw [stateAt_of_length_le hc]; exact ih
    | some c => rw [stateAt_succ hc]; exact IsTrans.trans _ _ _ ih (hst n c hc)

theorem exists_step {P : σ → Prop} (h0 : ¬ P s) (hn : P (stateAt step s cs n)) :
    ∃ k < n, ∃ c, cs[k]? = some c ∧ ¬ P (stateAt step s cs k) ∧ P (step (stateAt step s cs k) c) := by
  induction n with
  | zero => exact absurd hn h0
  | succ n ih =>
    by_cases hP : P (stateAt step s cs n)
    · obtain ⟨k, hk, h⟩ := ih hP
      exact ⟨k, by omega, h⟩
    · cases hc : cs[n]? with
      | none => rw [stateAt_of_length_le hc] at hn; exact absurd hn hP
      | some c =>
        rw [stateAt_succ hc] at hn
        exact ⟨n, by omega, c, hc, hP, hn⟩

end Run
