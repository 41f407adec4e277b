import Mathlib.Tactic

/-!
# Programs that call the outside world

A program computes, and now and then calls an operation `o : Op`, which is answered with a value of `Ans o` or with an
exception. Programs are finite trees.
-/

inductive Prog (ε Op : Type) (Ans : Op → Type) (α : Type) : Type
  | ret (a : α)
  | raise (e : ε)
  | call (o : Op) (k : Except ε (Ans o) → Prog ε Op Ans α)

namespace Prog

variable {ε Op α β γ : Type} {Ans : Op → Type} {p : Prog ε Op Ans α} {post : α → Prop} {o : Op}
  {f : α → Prog ε Op Ans β} (a : α)

def perform (o : Op) : Prog ε Op Ans (Ans o) :=
  call o fun
    | .ok a => ret a
    | .error e => raise e

def attempt (o : Op) : Prog ε Op Ans (Except ε (Ans o)) := call o ret

def bind : Prog ε Op Ans α → (α → Prog ε Op Ans β) → Prog ε Op Ans β
  | ret a, f => f a
  | raise e, _ => raise e
  | call o k, f => call o fun r => bind (k r) f

def handle : Prog ε Op Ans α → (ε → Prog ε Op Ans α) → Prog ε Op Ans α
  | ret a, _ => ret a
  | raise e, h => h e
  | call o k, h => call o fun r => handle (k r) h

def ensure : Prog ε Op Ans α → Prog ε Op Ans Unit → Prog ε Op Ans α
  | ret a, q => bind q fun _ => ret a
  | raise e, q => bind q fun _ => raise e
  | call o k, q => call o fun r => ensure (k r) q

instance : Monad (Prog ε Op Ans) where
  pure := ret
  bind := bind

instance : MonadExceptOf ε (Prog ε Op Ans) where
  throw := raise
  tryCatch := handle

@[simp] theorem pure_eq : (pure a : Prog ε Op Ans α) = ret a := rfl

@[simp] theorem throw_eq (e : ε) : (throw e : Prog ε Op Ans α) = raise e := rfl

@[simp] theorem ret_bind (f : α → Prog ε Op Ans β) : ret a >>= f = f a := rfl

@[simp] theorem raise_bind (e : ε) (f : α → Prog ε Op Ans β) : raise e >>= f = raise e := rfl

@[simp] theorem call_bind (o : Op) (k : Except ε (Ans o) → Prog ε Op Ans α)
    (f : α → Prog ε Op Ans β) : call o k >>= f = call o fun r => k r >>= f := rfl

instance : LawfulMonad (Prog ε Op Ans) := LawfulMonad.mk' _
  (by
    intro α p
    induction p with
    | ret a => rfl
    | raise e => rfl
    | call o k ih =>
      change call o (fun r => id <$> k r) = call o k
      exact congrArg (call o) (funext ih))
  (fun _ _ => rfl)
  (by
    intro α β γ p f g
    induction p with
    | ret a => rfl
    | raise e => rfl
    | call o k ih => exact congrArg (call o) (funext ih))

def Calls (P : Op → Prop) : Prog ε Op Ans α → Prop
  | ret _ => True
  | raise _ => True
  | call o k => P o ∧ ∀ r, Calls P (k r)

section

variable {P : Op → Prop}

theorem Calls.mono {P' : Op → Prop} (himp : ∀ o, P o → P' o) (hp : p.Calls P) : p.Calls P' := by
  induction p with
  | ret | raise => trivial
  | call o k ih => exact ⟨himp o hp.1, fun r => ih r (hp.2 r)⟩

theorem Calls.perform (ho : P o) : (perform o : Prog ε Op Ans (Ans o)).Calls P := by
  refine ⟨ho, fun r => ?_⟩
  cases r with
  | ok | error => trivial

theorem Calls.attempt (ho : P o) : (attempt o : Prog ε Op Ans (Except ε (Ans o))).Calls P :=
  ⟨ho, fun _ => trivial⟩

theorem Calls.bind (hp : p.Calls P) (hf : ∀ a, (f a).Calls P) : (p >>= f).Calls P := by
  induction p with
  | ret a => exact hf a
  | raise => trivial
  | call o k ih => exact ⟨hp.1, fun r => ih r (hp.2 r)⟩

theorem Calls.step {f : Ans o → Prog ε Op Ans β} (ho : P o) (hf : ∀ a, (f a).Calls P) :
    (Prog.perform o >>= f).Calls P :=
  .bind (.perform ho) hf

theorem Calls.last {f : Ans o → β} (ho : P o) : (Prog.perform o >>= fun a => ret (f a) : Prog ε Op Ans β).Calls P :=
  .step ho fun _ => trivial

theorem Calls.handle {f : ε → Prog ε Op Ans α} (hp : p.Calls P) (hf : ∀ e, (f e).Calls P) : (p.handle f).Calls P := by
  induction p with
  | ret => trivial
  | raise e => exact hf e
  | call o k ih => exact ⟨hp.1, fun r => ih r (hp.2 r)⟩

theorem Calls.of_true (p : Prog ε Op Ans α) : p.Calls fun _ => True := by
  induction p with
  | ret | raise => trivial
  | call o k ih => exact ⟨trivial, ih⟩

end

def outcome : Prog ε Op Ans α → Prog ε Op Ans (Except ε α)
  | ret a => ret (.ok a)
  | raise e => ret (.error e)
  | call o k => call o fun r => outcome (k r)

def answered (f : (o : Op) → Except ε (Ans o)) : Prog ε Op Ans α → Except ε α
  | ret a => .ok a
  | raise e => .error e
  | call o k => answered f (k (f o))

theorem answered_bind (f : (o : Op) → Except ε (Ans o)) (p : Prog ε Op Ans α) (q : α → Prog ε Op Ans β) :
    (p >>= q).answered f = p.answered f >>= fun a => (q a).answered f := by
  induction p with
  | ret | raise => rfl
  | call o k ih => exact ih (f o)

variable {Op' : Type} {Ans' : Op' → Type}

def interpret (f : (o : Op) → Prog ε Op' Ans' (Ans o)) : Prog ε Op Ans α → Prog ε Op' Ans' α
  | ret a => ret a
  | raise e => raise e
  | call o k => (f o).outcome >>= fun r => interpret f (k r)

section

variable {P : Op' → Prop} {f : (o : Op) → Prog ε Op' Ans' (Ans o)}

theorem Calls.outcome {p : Prog ε Op' Ans' α} (hp : p.Calls P) : p.outcome.Calls P := by
  induction p with
  | ret | raise => trivial
  | call o k ih => exact ⟨hp.1, fun r => ih r (hp.2 r)⟩

theorem Calls.interpret {D : Op → Prop} (hp : p.Calls D) (hf : ∀ o, D o → (f o).Calls P) : (p.interpret f).Calls P := by
  induction p with
  | ret | raise => trivial
  | call o k ih => exact .bind (hf o hp.1).outcome fun r => ih r (hp.2 r)

@[simp] theorem interpret_ret : (ret a : Prog ε Op Ans α).interpret f = ret a := rfl

theorem interpret_bind (p : Prog ε Op Ans α) (g : α → Prog ε Op Ans β) :
    (p >>= g).interpret f = p.interpret f >>= fun a => (g a).interpret f := by
  induction p with
  | ret | raise => rfl
  | call o k ih =>
    change (f o).outcome >>= (fun r => (k r >>= g).interpret f) =
      ((f o).outcome >>= fun r => (k r).interpret f) >>= fun a => (g a).interpret f
    rw [bind_assoc]
    exact congrArg _ (funext ih)

theorem interpret_perform (o : Op) : (perform o : Prog ε Op Ans (Ans o)).interpret f = f o := by
  -- the outcome is a value or the exception again
  have hag : ∀ p : Prog ε Op' Ans' (Ans o), (p.outcome >>= fun r => (match r with
      | .ok a => ret a
      | .error e => raise e : Prog ε Op Ans (Ans o)).interpret f) = p := by
    intro p
    induction p with
    | ret | raise => rfl
    | call o' k ih => exact congrArg (call o') (funext ih)
  exact hag (f o)

end

section

variable {X : Type}

/-- If everything the answers hold has `G`, the program ends in `post`. -/
def Yields (items : (o : Op) → Except ε (Ans o) → List X) (G : X → Prop) (post : α → Prop) :
    Prog ε Op Ans α → Prop
  | ret a => post a
  | raise _ => True
  | call o k => ∀ r, (∀ x ∈ items o r, G x) → Yields items G post (k r)

variable {items : (o : Op) → Except ε (Ans o) → List X} {G : X → Prop}

theorem Yields.mono {post' : α → Prop} (himp : ∀ a, post a → post' a)
    (hp : p.Yields items G post) : p.Yields items G post' := by
  induction p with
  | ret a => exact himp a hp
  | raise => trivial
  | call o k ih => exact fun r hr => ih r (hp r hr)

theorem Yields.bind {post : β → Prop}
    (hp : p.Yields items G fun a => (f a).Yields items G post) : (p >>= f).Yields items G post := by
  induction p with
  | ret => exact hp
  | raise => trivial
  | call o k ih => exact fun r hr => ih r (hp r hr)

theorem Yields.handle {f : ε → Prog ε Op Ans α} (hp : p.Yields items G post) (hf : ∀ e, (f e).Yields items G post) :
    (p.handle f).Yields items G post := by
  induction p with
  | ret => exact hp
  | raise e => exact hf e
  | call o k ih => exact fun r hr => ih r (hp r hr)

theorem Yields.perform {post : Ans o → Prop} (h : ∀ a, (∀ x ∈ items o (.ok a), G x) → post a) :
    (perform o : Prog ε Op Ans (Ans o)).Yields items G post := by
  intro r hr
  cases r with
  | ok a => exact h a hr
  | error => trivial

theorem Yields.attempt {post : Except ε (Ans o) → Prop} (h : ∀ r, (∀ x ∈ items o r, G x) → post r) :
    (attempt o : Prog ε Op Ans (Except ε (Ans o))).Yields items G post := h

/-- What is known of a result may be used for the calls that follow it. -/
theorem Calls.bind_yields {P : Op → Prop}
    (hp : p.Calls P) (hy : p.Yields (fun _ _ => ([] : List Unit)) (fun _ => True) post)
    (hf : ∀ a, post a → (f a).Calls P) : (p >>= f).Calls P := by
  induction p with
  | ret a => exact hf a hy
  | raise => trivial
  | call o k ih => exact ⟨hp.1, fun r => ih r (hp.2 r) (hy r fun _ _ => trivial)⟩

theorem Yields.of_true (p : Prog ε Op Ans α) : p.Yields items G fun _ => True := by
  induction p with
  | ret | raise => trivial
  | call o k ih => exact fun r _ => ih r

theorem Yields.interpret {Op' : Type} {Ans' : Op' → Type} {items' : (o : Op') → Except ε (Ans' o) → List X}
    {f : (o : Op) → Prog ε Op' Ans' (Ans o)}
    (hp : p.Yields items G post) (hf : ∀ o, (f o).Yields items' G fun a => ∀ x ∈ items o (.ok a), G x)
    (hrs : ∀ o e, items o (.error e) = []) : (p.interpret f).Yields items' G post := by
  have hot : ∀ {β : Type} {Q : β → Prop} {R : Except ε β → Prop} (q : Prog ε Op' Ans' β),
      q.Yields items' G Q → (∀ b, Q b → R (.ok b)) → (∀ e, R (.error e)) → q.outcome.Yields items' G R := by
    intro β Q R q
    induction q with
    | ret b => exact fun hq hok _ => hok b hq
    | raise e => exact fun _ _ her => her e
    | call o k ih => exact fun hq hok her r hr => ih r (hq r hr) hok her
  induction p with
  | ret => exact hp
  | raise => trivial
  | call o k ih =>
    refine .bind (hot (f o) (hf o) (fun a ha => ih _ (hp _ ha)) fun e => ih _ (hp _ fun x hx => ?_))
    rw [hrs] at hx
    cases hx

end

end Prog
