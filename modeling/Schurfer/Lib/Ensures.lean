import Schurfer.Lib.Threads

/-!
# What a thread ensures

Whatever the others do, every call of the program meets its precondition, the state moves along a relation `R`, and a
result has `Q`. What is stable under `R` is carried from one part of the program to the next.
-/

namespace Threads

variable {S ε Op A C E α β : Type} {Ans : Op → Type} {p : Prog ε Op Ans β} {Q : S → β → Prop} {R' : S → S → Prop}

structure Along (K : Contract S ε Op Ans A) (i : ℕ) (R : S → S → Prop) : Prop where
  refl : ∀ s, R s s
  trans : ∀ s₁ s₂ s₃, R s₁ s₂ → R s₂ s₃ → R s₁ s₃
  rely : ∀ s s', K.rely i s s' → R s s'

theorem Kept.along {W : World S ε Op Ans C E} {K : Contract S ε Op Ans A} {own : Op → Prop} (hK : Kept W K own)
    (i : ℕ) : Along K i (K.rely i) :=
  ⟨hK.refl i, hK.trans i, fun _ _ h => h⟩

/-- The program is safe from `s`, moves the state along `R`, and what it returns has `Q`. -/
def Ensures (W : World S ε Op Ans C E) (K : Contract S ε Op Ans A) (i : ℕ) (a : A) (R : S → S → Prop)
    (Q : S → β → Prop) (p : Prog ε Op Ans β) (s : S) : Prop :=
  ∀ h, Safe W K i a (fun _ s' r => R s s' ∧ ∀ b, r = .ok b → Q s' b) p h s

namespace Ensures

variable {W : World S ε Op Ans C E} {K : Contract S ε Op Ans A} {own : Op → Prop} {i : ℕ} {a : A}
  {R : S → S → Prop} {s : S}

theorem safe (hp : Ensures W K i a R Q p s) (h : List (Call S ε Op Ans)) : Safe W K i a (fun _ _ _ => True) p h s :=
  .mono (fun _ _ _ _ => trivial) (hp h)

theorem mono {Q' : S → β → Prop} (himp : ∀ s' b, R s s' → Q s' b → Q' s' b)
    (hp : Ensures W K i a R Q p s) : Ensures W K i a R Q' p s := by
  refine fun h => .mono (fun h' s' r hr => ?_) (hp h)
  exact ⟨hr.1, fun b hb => himp s' b hr.1 (hr.2 b hb)⟩

theorem weaken (himp : ∀ s', R s s' → R' s s') (hp : Ensures W K i a R Q p s) : Ensures W K i a R' Q p s :=
  fun h => .mono (fun _ s' _ hr => ⟨himp s' hr.1, hr.2⟩) (hp h)

theorem carry (himp : ∀ s', R s s' → R' s s')
    (hp : Ensures W K i a R Q p s) : Ensures W K i a R' (fun s' b => R s s' ∧ Q s' b) p s :=
  fun h => .mono (fun _ s' _ hr => ⟨himp s' hr.1, fun b hb => ⟨hr.1, hr.2 b hb⟩⟩) (hp h)

section

variable (hR : Along K i R) {P : Op → Prop} {I : S → Prop}

include hR

theorem ret {b : β} (hQ : Q s b) : Ensures W K i a R Q (Prog.ret b : Prog ε Op Ans β) s := by
  refine fun _ => ⟨hR.refl s, fun b' hb' => ?_⟩
  cases hb'
  exact hQ

theorem raise {e : ε} : Ensures W K i a R Q (Prog.raise e : Prog ε Op Ans β) s :=
  fun _ => ⟨hR.refl s, nofun⟩

theorem bind {M : S → α → Prop} {p : Prog ε Op Ans α} {f : α → Prog ε Op Ans β}
    (hp : Ensures W K i a R M p s) (hf : ∀ b s', R s s' → M s' b → Ensures W K i a R Q (f b) s') :
    Ensures W K i a R Q (p >>= f) s := by
  refine fun h => .bind (.mono (fun h' s' r hr => ?_) (hp h))
  obtain ⟨hmv, hQ⟩ := hr
  cases r with
  | ok b =>
    refine .mono (fun _ s'' r' hr' => ?_) (hf b s' hmv (hQ b rfl) h')
    exact ⟨hR.trans s s' s'' hmv hr'.1, hr'.2⟩
  | error => exact ⟨hmv, nofun⟩

theorem handle {f : ε → Prog ε Op Ans β}
    (hp : Ensures W K i a R Q p s) (hf : ∀ e s', R s s' → Ensures W K i a R Q (f e) s') :
    Ensures W K i a R Q (p.handle f) s := by
  refine fun h => .handle (.mono (fun h' s' r hr => ?_) (hp h))
  obtain ⟨hmv, hQ⟩ := hr
  cases r with
  | ok => exact ⟨hmv, hQ⟩
  | error e =>
    refine .mono (fun _ s'' r' hr' => ?_) (hf e s' hmv h')
    exact ⟨hR.trans s s' s'' hmv hr'.1, hr'.2⟩

theorem ensure {q : Prog ε Op Ans Unit}
    (hp : Ensures W K i a R Q p s) (hq : ∀ s', R s s' → Ensures W K i a R (fun _ _ => True) q s')
    (hst : ∀ s1 s2 b, R s1 s2 → Q s1 b → Q s2 b) : Ensures W K i a R Q (p.ensure q) s := by
  refine fun h => .ensure (.mono (fun h' s' r hr => ?_) (hp h))
  obtain ⟨hmv, hQ⟩ := hr
  refine .mono (fun _ s'' r' hr' => ?_) (hq s' hmv h')
  have htr := hR.trans s s' s'' hmv hr'.1
  cases r' with
  | ok => exact ⟨htr, fun b hb => hst s' s'' b hr'.1 (hQ b hb)⟩
  | error => exact ⟨htr, nofun⟩

variable {post : S → β → Prop} (hK : Kept W K own) (hI : ∀ s s', R s s' → I s → I s')
  (hP : ∀ h s o, P o → K.inv s → I s → K.pre i a h s o ∧ ∀ c, R s (W.answer i s o c).2)

include hK hI hP

/-- A program each of whose calls may be made and moves the state along `R`, as long as `I` holds; it returns
what it makes of the answers. -/
theorem of_yields {X : Type}
    {f : (o : Op) → Except ε (Ans o) → List X} {G : S → X → Prop} (hG : ∀ s s' x, R s s' → G s x → G s' x)
    (hit : ∀ s o c, P o → K.inv s → I s → ∀ x ∈ f o (W.answer i s o c).1, G (W.answer i s o c).2 x)
    (hp : p.Calls P) (hy : ∀ s', R s s' → p.Yields f (G s') (post s')) (hs : I s) : Ensures W K i a R post p s := by
  intro h
  have hgo : ∀ (p : Prog ε Op Ans β) (h : List (Call S ε Op Ans)) (s0 : S), p.Calls P → R s s0 →
      (∀ s', R s0 s' → p.Yields f (G s') (post s')) →
      Safe W K i a (fun _ s' r => R s s' ∧ ∀ b, r = .ok b → post s' b) p h s0 := by
    intro p
    induction p with
    | ret b =>
      intro h s0 _ hs0 hy
      refine ⟨hs0, fun b' hb' => ?_⟩
      cases hb'
      exact hy s0 (hR.refl s0)
    | raise => exact fun h s0 _ hs0 _ => ⟨hs0, nofun⟩
    | call o k ih =>
      intro h s0 hp hs0 hy s1 hrl hinv
      have hs1 := hR.trans s s0 s1 hs0 (hR.rely s0 s1 hrl)
      have hI1 := hI s s1 hs1 hs
      obtain ⟨hpre, hmo⟩ := hP h s1 o hp.1 hinv hI1
      refine ⟨hpre, fun c => ?_⟩
      obtain ⟨hinv', hot⟩ := hK.keeps i a h s1 o c hinv hpre
      refine ⟨hinv', hot, ih _ _ _ (hp.2 _) (hR.trans s s1 _ hs1 (hmo c)) fun s' hs' => ?_⟩
      -- what this answer holds is still so when the program ends
      refine hy s' (hR.trans s0 s1 s' (hR.rely s0 s1 hrl) (hR.trans s1 _ s' (hmo c) hs')) _ fun x hx => ?_
      exact hG _ s' x hs' (hit s1 o c hp.1 hinv hI1 x hx)
  exact hgo p h s hp (hR.refl s) hy

theorem of_calls (hp : p.Calls P) (hs : I s) : Ensures W K i a R (fun _ _ => True) p s := by
  refine of_yields hR hK hI hP (f := fun _ _ => ([] : List Unit)) (G := fun _ _ => True)
    (fun _ _ _ _ _ => trivial) (fun _ _ _ _ _ _ _ _ => trivial) hp (fun s' _ => ?_) hs
  exact Prog.Yields.of_true p

end

variable {ok : ℕ → S → Op → C → Prop} {e : ε} (hK : Kept (W.guard ok e) K own) (hR : Along K i R) {o : Op}
  {M : S → Ans o → Prop} {Q : S → Except ε (Ans o) → Prop}
  (hpre : ∀ h s1, K.rely i s s1 → K.inv s1 → K.pre i a h s1 o)

include hK hR hpre

theorem attempt_answer (hok : ∀ s1 c, ok i s1 o c)
    (hps : ∀ s1 c, K.rely i s s1 → K.inv s1 → R s1 (W.answer i s1 o c).2 ∧
      Q (W.answer i s1 o c).2 (W.answer i s1 o c).1) : Ensures (W.guard ok e) K i a R Q (Prog.attempt o) s := by
  refine fun h => hK.attempt fun s1 hrl hinv => ⟨hpre h s1 hrl hinv, fun c _ => ?_⟩
  rw [guard_answer (hok s1 c)]
  obtain ⟨hmv, hQ⟩ := hps s1 c hrl hinv
  refine ⟨hR.trans s s1 _ (hR.rely s s1 hrl) hmv, fun r hr => ?_⟩
  cases hr
  exact hQ

variable (hmo : ∀ s1 c, K.rely i s s1 → K.inv s1 → ok i s1 o c → R s1 (W.answer i s1 o c).2)

include hmo

theorem perform (hps : ∀ s1 c b, K.rely i s s1 → K.inv s1 → ok i s1 o c → (W.answer i s1 o c).1 = .ok b →
      R s1 (W.answer i s1 o c).2 → M (W.answer i s1 o c).2 b) :
    Ensures (W.guard ok e) K i a R M (Prog.perform o) s := by
  refine fun h => hK.perform fun s1 hrl hinv => ⟨hpre h s1 hrl hinv, fun c _ => ?_⟩
  have hs1 := hR.rely s s1 hrl
  by_cases hok : ok i s1 o c
  · rw [guard_answer hok]
    have hmv := hmo s1 c hrl hinv hok
    exact ⟨hR.trans s s1 _ hs1 hmv, fun b hb => hps s1 c b hrl hinv hok hb hmv⟩
  · rw [guard_answer_not hok]
    exact ⟨hs1, nofun⟩

theorem attempt (hrs : ∀ s' e', R s s' → Q s' (.error e'))
    (hps : ∀ s1 c b, K.rely i s s1 → K.inv s1 → ok i s1 o c → (W.answer i s1 o c).1 = .ok b →
      R s1 (W.answer i s1 o c).2 → Q (W.answer i s1 o c).2 (.ok b)) :
    Ensures (W.guard ok e) K i a R Q (Prog.attempt o) s := by
  refine fun h => hK.attempt fun s1 hrl hinv => ⟨hpre h s1 hrl hinv, fun c _ => ?_⟩
  have hs1 := hR.rely s s1 hrl
  by_cases hok : ok i s1 o c
  · rw [guard_answer hok]
    have hmv := hmo s1 c hrl hinv hok
    have hs' := hR.trans s s1 _ hs1 hmv
    refine ⟨hs', fun r hr => ?_⟩
    cases hr
    cases han : (W.answer i s1 o c).1 with
    | error e' => exact hrs _ e' hs'
    | ok b => exact hps s1 c b hrl hinv hok han hmv
  · rw [guard_answer_not hok]
    refine ⟨hs1, fun r hr => ?_⟩
    cases hr
    exact hrs s1 e hs1

end Ensures

section

variable (W : World S ε Op Ans C E) (main : A → Prog ε Op Ans α) {ok : ℕ → S → Op → C → Prop} {may : A → Prop}

instance Config.decidableAllows [∀ i s o c, Decidable (ok i s o c)] [DecidablePred may]
    (cfg : Config S ε Op Ans A α) (m : Move A C E) : Decidable (cfg.Allows ok may m) :=
  match m with
  | .start a => inferInstanceAs (Decidable (may a))
  | .env _ => .isTrue trivial
  | .crash _ => .isTrue trivial
  | .call i c =>
    match hthread : cfg.threads[i]? with
    | some ⟨a, h, some (.call o k)⟩ =>
      decidable_of_iff (ok i cfg.state o c) ⟨fun hok a' h' o' k' heq => by
        rw [hthread] at heq
        cases heq
        exact hok, fun hall => hall a h o k hthread⟩
    | some ⟨_, _, some (.ret _)⟩ => .isTrue fun a' h' o' k' heq => by rw [hthread] at heq; cases heq
    | some ⟨_, _, some (.raise _)⟩ => .isTrue fun a' h' o' k' heq => by rw [hthread] at heq; cases heq
    | some ⟨_, _, none⟩ => .isTrue fun a' h' o' k' heq => by rw [hthread] at heq; cases heq
    | none => .isTrue fun a' h' o' k' heq => by rw [hthread] at heq; cases heq

instance Config.decidableAllAllowed [∀ i s o c, Decidable (ok i s o c)] [DecidablePred may] :
    (cfg : Config S ε Op Ans A α) → (moves : List (Move A C E)) →
      Decidable (cfg.AllAllowed W main ok may moves)
  | _, [] => .isTrue trivial
  | cfg, m :: moves =>
    have := Config.decidableAllAllowed (cfg.step W main m) moves
    inferInstanceAs (Decidable (_ ∧ _))

end

end Threads
