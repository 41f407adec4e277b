import Schurfer.Lib.Prog

/-!
# One program alone

`Runs` is the weakest precondition of one program alone: as long as its calls meet the assumption `R`, they meet the
guarantee `G`, and the outcome meets the postcondition.
-/

namespace Prog

variable {S ε Op C α β : Type} {Ans : Op → Type}

structure Made (S Op C : Type) where
  before : S
  op : Op
  chance : C

structure Execution (S ε Op C α : Type) where
  made : List (Made S Op C)
  state : S
  outcome : Option (Except ε α × List C)

section

variable (answer : S → (o : Op) → C → Except ε (Ans o) × S)

def exec : Prog ε Op Ans α → S → List C → Execution S ε Op C α
  | ret a, s, cs => ⟨[], s, some (.ok a, cs)⟩
  | raise e, s, cs => ⟨[], s, some (.error e, cs)⟩
  | call _ _, s, [] => ⟨[], s, none⟩
  | call o k, s, c :: cs =>
    let rest := exec (k (answer s o c).1) (answer s o c).2 cs
    { rest with made := ⟨s, o, c⟩ :: rest.made }

/-- From `s`, while the calls meet `R`, they meet `G`, and the program ends in `post`. -/
def Runs (R G : Made S Op C → Prop) (post : Except ε α → S → Prop) : Prog ε Op Ans α → S → Prop
  | ret a, s => post (.ok a) s
  | raise e, s => post (.error e) s
  | call o k, s => ∀ c, R ⟨s, o, c⟩ → G ⟨s, o, c⟩ ∧ Runs R G post (k (answer s o c).1) (answer s o c).2

variable {answer}

theorem exec_bind_made (p : Prog ε Op Ans α) (f : α → Prog ε Op Ans β) (s : S) (cs : List C) :
    (exec answer (p >>= f) s cs).made = (exec answer p s cs).made ++
      match (exec answer p s cs).outcome with
      | some (.ok a, rest) => (exec answer (f a) (exec answer p s cs).state rest).made
      | _ => [] := by
  induction p generalizing s cs with
  | ret | raise => rfl
  | call o k ih =>
    cases cs with
    | nil => rfl
    | cons c cs => exact congrArg (⟨s, o, c⟩ :: ·) (ih (answer s o c).1 (answer s o c).2 cs)

theorem exec_handle_ret_made (p : Prog ε Op Ans α) (a : α) (s : S) (cs : List C) :
    (exec answer (p.handle fun _ => ret a) s cs).made = (exec answer p s cs).made := by
  induction p generalizing s cs with
  | ret | raise => rfl
  | call o k ih =>
    cases cs with
    | nil => rfl
    | cons c cs => exact congrArg (⟨s, o, c⟩ :: ·) (ih (answer s o c).1 (answer s o c).2 cs)

variable {R G : Made S Op C → Prop} {s : S} {p : Prog ε Op Ans β} {o : Op} {Q : S → Prop} {cs : List C}

theorem Runs.exec {post : Except ε α → S → Prop} {p : Prog ε Op Ans α} (hp : Runs answer R G post p s)
    (hR : ∀ m ∈ (exec answer p s cs).made, R m) : (∀ m ∈ (exec answer p s cs).made, G m) ∧
      ∀ r rest, (exec answer p s cs).outcome = some (r, rest) → post r (exec answer p s cs).state := by
  induction p generalizing s cs with
  | ret | raise =>
    refine ⟨fun m hm => by simp [Prog.exec] at hm, fun r rest h => ?_⟩
    cases h
    exact hp
  | call o k ih =>
    cases cs with
    | nil => exact ⟨fun m hm => by simp [Prog.exec] at hm, fun r rest h => by simp [Prog.exec] at h⟩
    | cons c cs =>
      obtain ⟨hG, hrs⟩ := hp c (hR _ List.mem_cons_self)
      obtain ⟨hmd, hps⟩ := ih _ hrs fun m hm => hR m (List.mem_cons_of_mem _ hm)
      refine ⟨fun m hm => ?_, hps⟩
      rcases List.mem_cons.1 hm with rfl | hm
      · exact hG
      · exact hmd m hm

theorem Runs.exec_bind {R' : Made S Op C → Prop} {p : Prog ε Op Ans α} {f : α → Prog ε Op Ans β}
    (hp : Runs answer R G (fun r s' => match r with
      | .ok a => Runs answer R' G (fun _ _ => True) (f a) s'
      | .error _ => True) p s) (hR : ∀ m ∈ (Prog.exec answer p s cs).made, R m)
    (hR' : ∀ m ∈ (Prog.exec answer (p >>= f) s cs).made, R' m) : ∀ m ∈ (Prog.exec answer (p >>= f) s cs).made, G m := by
  obtain ⟨hfr, hps⟩ := hp.exec hR
  rw [exec_bind_made] at hR' ⊢
  intro m hm
  rcases List.mem_append.1 hm with hm | hm
  · exact hfr m hm
  · split at hm
    · rename_i a rest hot
      refine ((hps _ _ hot).exec (fun m hm => hR' m ?_)).1 m hm
      rw [hot]
      exact List.mem_append_right _ hm
    · simp at hm

section

variable {post : Except ε β → S → Prop}

theorem Runs.mono {post' : Except ε β → S → Prop} (himp : ∀ r s', post r s' → post' r s')
    (hp : Runs answer R G post p s) : Runs answer R G post' p s := by
  induction p generalizing s with
  | ret | raise => exact himp _ s hp
  | call o k ih => exact fun c hc => ⟨(hp c hc).1, ih _ (hp c hc).2⟩

theorem Runs.bind {p : Prog ε Op Ans α} {f : α → Prog ε Op Ans β} (hp : Runs answer R G (fun r s' => match r with
      | .ok a => Runs answer R G post (f a) s'
      | .error e => post (.error e) s') p s) : Runs answer R G post (p >>= f) s := by
  induction p generalizing s with
  | ret | raise => exact hp
  | call o k ih => exact fun c hc => ⟨(hp c hc).1, ih _ (hp c hc).2⟩

theorem Runs.handle {f : ε → Prog ε Op Ans β} (hp : Runs answer R G (fun r s' => match r with
      | .ok b => post (.ok b) s'
      | .error e => Runs answer R G post (f e) s') p s) : Runs answer R G post (p.handle f) s := by
  induction p generalizing s with
  | ret | raise => exact hp
  | call o k ih => exact fun c hc => ⟨(hp c hc).1, ih _ (hp c hc).2⟩

theorem Runs.ensure {q : Prog ε Op Ans Unit}
    (hp : Runs answer R G (fun r s' => Runs answer R G (fun r' s'' => match r' with
      | .ok _ => post r s''
      | .error e => post (.error e) s'') q s') p s) : Runs answer R G post (p.ensure q) s := by
  induction p generalizing s with
  | ret | raise =>
    refine .bind (.mono (fun r' s'' hr => ?_) hp)
    cases r' with
    | ok | error => exact hr
  | call o k ih => exact fun c hc => ⟨(hp c hc).1, ih _ (hp c hc).2⟩

theorem Runs.perform {post : Except ε (Ans o) → S → Prop}
    (hcl : ∀ c, R ⟨s, o, c⟩ → G ⟨s, o, c⟩ ∧ post (answer s o c).1 (answer s o c).2) :
    Runs answer R G post (Prog.perform o) s := by
  intro c hc
  obtain ⟨hG, hps⟩ := hcl c hc
  refine ⟨hG, ?_⟩
  cases hr : (answer s o c).1 with
  | ok | error => rw [hr] at hps; exact hps

theorem Runs.attempt {post : Except ε (Except ε (Ans o)) → S → Prop}
    (hcl : ∀ c, R ⟨s, o, c⟩ → G ⟨s, o, c⟩ ∧ post (.ok (answer s o c).1) (answer s o c).2) :
    Runs answer R G post (Prog.attempt o) s :=
  hcl

theorem Runs.of_calls {P : Op → Prop} (hst : ∀ s o c, P o → Q s → R ⟨s, o, c⟩ → G ⟨s, o, c⟩ ∧ Q (answer s o c).2)
    (hp : p.Calls P) (hQ : Q s) : Runs answer R G (fun _ s' => Q s') p s := by
  induction p generalizing s with
  | ret | raise => exact hQ
  | call o k ih =>
    intro c hc
    obtain ⟨hG, hQ'⟩ := hst s o c hp.1 hQ hc
    exact ⟨hG, ih _ (hp.2 _) hQ'⟩

end

/-- The program makes only calls of `P`, and raises nothing unless a call of `never` does. -/
def Calm (never P : Op → Prop) : Prog ε Op Ans α → Prop
  | ret _ => True
  | raise _ => False
  | call o k => P o ∧ (∀ a, Calm never P (k (.ok a))) ∧ (never o ∨ ∀ e, Calm never P (k (.error e)))

section

variable {never P : Op → Prop}

theorem Calm.perform (hnv : never o) (hP : P o) : (perform o : Prog ε Op Ans (Ans o)).Calm never P :=
  ⟨hP, fun _ => trivial, .inl hnv⟩

theorem Calm.attempt (hP : P o) : (attempt o : Prog ε Op Ans (Except ε (Ans o))).Calm never P :=
  ⟨hP, fun _ => trivial, .inr fun _ => trivial⟩

theorem Calm.bind {p : Prog ε Op Ans α} {f : α → Prog ε Op Ans β} (hp : p.Calm never P)
    (hf : ∀ a, (f a).Calm never P) : (p >>= f).Calm never P := by
  induction p with
  | ret a => exact hf a
  | raise => exact hp.elim
  | call o k ih =>
    obtain ⟨hP, hok, her⟩ := hp
    refine ⟨hP, fun a => ih _ (hok a), ?_⟩
    rcases her with hnv | her
    · exact .inl hnv
    · exact .inr fun e => ih _ (her e)

theorem Runs.of_calm (hst : ∀ s o c, P o → Q s → R ⟨s, o, c⟩ →
      G ⟨s, o, c⟩ ∧ Q (answer s o c).2 ∧ (never o → ∃ a, (answer s o c).1 = .ok a))
    (hp : p.Calm never P) (hQ : Q s) :
    Runs answer R G (fun r s' => (∃ b, r = .ok b) ∧ Q s') p s := by
  induction p generalizing s with
  | ret b => exact ⟨⟨b, rfl⟩, hQ⟩
  | raise => exact hp.elim
  | call o k ih =>
    intro c hc
    obtain ⟨hG, hQ', hok⟩ := hst s o c hp.1 hQ hc
    refine ⟨hG, ?_⟩
    cases han : (answer s o c).1 with
    | ok a => exact ih _ (hp.2.1 a) hQ'
    | error e =>
      rcases hp.2.2 with hnv | her
      · obtain ⟨a, ha⟩ := hok hnv
        rw [han] at ha
        cases ha
      · exact ih _ (her e) hQ'

end

end

end Prog
