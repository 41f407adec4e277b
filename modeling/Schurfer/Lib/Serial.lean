import Schurfer.Lib.Threads

/-!
# Programs that run one after the other

A run is a sequence of passes and of events between them. A pass runs a program from the state it finds, and may stop
for good before any of its calls.
-/

namespace Serial

open Threads List

variable {S ε Op A C E α : Type} {Ans : Op → Type} {pre : Pre S ε Op Ans} {inv : S → Prop}
  {c : Call S ε Op Ans} {o : Op} {W : World S ε Op Ans C E} {h : List (Call S ε Op Ans)} {main : A → Prog ε Op Ans α}
  {post : Post S ε Op Ans (Ans o)} {choices : List C} {e : ε} {s : S}

structure Done (S ε Op : Type) (Ans : Op → Type) (α : Type) where
  history : List (Call S ε Op Ans)
  state : S
  result : Option (Except ε α)

section

variable (W : World S ε Op Ans C E)

def exec : Prog ε Op Ans α → List (Call S ε Op Ans) → S → List C → Done S ε Op Ans α
  | .ret a, h, s, _ => ⟨h, s, some (.ok a)⟩
  | .raise e, h, s, _ => ⟨h, s, some (.error e)⟩
  | .call _ _, h, s, [] => ⟨h, s, none⟩
  | .call o k, h, s, c :: cs =>
    exec (k (W.answer 0 s o c).1) (h ++ [⟨s, o, (W.answer 0 s o c).1⟩]) (W.answer 0 s o c).2 cs

inductive Step (A C E : Type)
  | pass (a : A) (choices : List C)
  | env (e : E)

variable (main : A → Prog ε Op Ans α)

def step (s : S) : Step A C E → List (Call S ε Op Ans) × S
  | .pass a choices => ((exec W (main a) [] s choices).history, (exec W (main a) [] s choices).state)
  | .env e => ([], W.env s e)

def run : S → List (Step A C E) → List (List (Call S ε Op Ans)) × S
  | s, [] => ([], s)
  | s, st :: steps =>
    let out := step W main s st
    let rest := run out.2 steps
    (out.1 :: rest.1, rest.2)

end

def undisturbed (inv : S → Prop) (pre : Pre S ε Op Ans) : Contract S ε Op Ans Unit where
  inv := inv
  rely i s s' := i = 0 → s' = s
  pre _ _ := pre

abbrev Pass (W : World S ε Op Ans C E) (inv : S → Prop) (pre : Pre S ε Op Ans) {β : Type} (post : Post S ε Op Ans β) :
    Prog ε Op Ans β → List (Call S ε Op Ans) → S → Prop :=
  Safe W (undisturbed inv pre) 0 () post

section

variable {s : S}

theorem Pass.perform (hpre : pre h s o) (hca : ∀ c, inv (W.answer 0 s o c).2 ∧
      post (h ++ [⟨s, o, (W.answer 0 s o c).1⟩]) (W.answer 0 s o c).2 (W.answer 0 s o c).1) :
    Pass W inv pre post (Prog.perform o) h s := by
  refine Safe.perform fun s1 hrl _ => ?_
  obtain rfl := hrl rfl
  exact ⟨hpre, fun c => ⟨(hca c).1, fun j hj h0 => absurd h0 hj, (hca c).2⟩⟩

theorem Pass.attempt {post : Post S ε Op Ans (Except ε (Ans o))}
    (hpre : pre h s o) (hca : ∀ c, inv (W.answer 0 s o c).2 ∧
      post (h ++ [⟨s, o, (W.answer 0 s o c).1⟩]) (W.answer 0 s o c).2 (.ok (W.answer 0 s o c).1)) :
    Pass W inv pre post (Prog.attempt o) h s := by
  refine Safe.attempt fun s1 hrl _ => ?_
  obtain rfl := hrl rfl
  exact ⟨hpre, fun c => ⟨(hca c).1, fun j hj h0 => absurd h0 hj, (hca c).2⟩⟩

def CallsOk (pre : Pre S ε Op Ans) (h : List (Call S ε Op Ans)) : Prop :=
  ∀ n c, h[n]? = some c → pre (h.take n) c.before c.op

theorem CallsOk.snoc (hh : CallsOk pre h) (hc : pre h c.before c.op) : CallsOk pre (h ++ [c]) := by
  intro n d hd
  rcases getElem?_snoc hd with ⟨hn, hd⟩ | ⟨rfl, rfl⟩
  · rw [take_append_of_le_length hn.le]
    exact hh n d hd
  · rw [take_left]
    exact hc

variable {p : Prog ε Op Ans α}

theorem Pass.exec {post : Post S ε Op Ans α}
    (hp : Pass W inv pre post p h s) (hinv : inv s) (hh : CallsOk pre h) (choices : List C) :
    inv (exec W p h s choices).state ∧ CallsOk pre (exec W p h s choices).history := by
  induction p generalizing h s choices with
  | ret | raise => exact ⟨hinv, hh⟩
  | call o k ih =>
    cases choices with
    | nil => exact ⟨hinv, hh⟩
    | cons c cs =>
      obtain ⟨hpre, hca⟩ := hp s (fun _ => rfl) hinv
      obtain ⟨hinv', -, hre⟩ := hca c
      exact ih _ hre hinv' (hh.snoc hpre) cs

end

structure Sound (W : World S ε Op Ans C E) (main : A → Prog ε Op Ans α) (inv : S → Prop)
    (pre : Pre S ε Op Ans) : Prop where
  env : ∀ s e, inv s → inv (W.env s e)
  start : ∀ a s, inv s → Pass W inv pre (fun _ _ _ => True) (main a) [] s

/-- **Every run is sound.** -/
theorem Sound.run (hs : Sound W main inv pre) (hinv : inv s) (steps : List (Step A C E)) :
    inv (run W main s steps).2 ∧ ∀ h ∈ (run W main s steps).1, CallsOk pre h := by
  induction steps generalizing s with
  | nil => exact ⟨hinv, nofun⟩
  | cons st steps ih =>
    have hsp : inv (step W main s st).2 ∧ CallsOk pre (step W main s st).1 := by
      cases st with
      | pass a choices => exact (hs.start a s hinv).exec hinv (fun n c hc => by simp at hc) choices
      | env e => exact ⟨hs.env s e hinv, fun n c hc => by simp [step] at hc⟩
    obtain ⟨hend, hcl⟩ := ih hsp.1
    refine ⟨hend, fun h hh => ?_⟩
    rcases mem_cons.1 hh with rfl | hh
    · exact hsp.2
    · exact hcl h hh

/-- A log from `s₀` to `s`: once `P` held at the start or before a call, it held before every later
call, and holds now. -/
structure Lasting (P : S → Prop) (s₀ : S) (log : List (Call S ε Op Ans)) (s : S) : Prop where
  start : P s₀ → (∀ c ∈ log, P c.before) ∧ P s
  calls : log.Pairwise fun c d => P c.before → P d.before
  now : ∀ c ∈ log, P c.before → P s

section

variable {P : S → Prop} {log : List (Call S ε Op Ans)} {s₀ s s' : S}

theorem Lasting.nil (P : S → Prop) (s : S) : Lasting P s ([] : List (Call S ε Op Ans)) s :=
  ⟨fun hP => ⟨nofun, hP⟩, List.Pairwise.nil, nofun⟩

theorem Lasting.move (hl : Lasting P s₀ log s) (hmv : P s → P s') : Lasting P s₀ log s' :=
  ⟨fun h0 => ⟨(hl.start h0).1, hmv (hl.start h0).2⟩, hl.calls, fun c hc hP => hmv (hl.now c hc hP)⟩

theorem Lasting.snoc (hl : Lasting P s₀ log s) (hc : c.before = s) (hmv : P s → P s') :
    Lasting P s₀ (log ++ [c]) s' := by
  refine ⟨fun h0 => ⟨fun d hd => ?_, hmv (hl.start h0).2⟩, ?_, ?_⟩
  · rcases mem_append.1 hd with hd | hd
    · exact (hl.start h0).1 d hd
    · obtain rfl := mem_singleton.1 hd
      rw [hc]
      exact (hl.start h0).2
  · rw [pairwise_append]
    refine ⟨hl.calls, pairwise_singleton _ _, ?_⟩
    intro d hd c' hc' hP
    obtain rfl := mem_singleton.1 hc'
    rw [hc]
    exact hl.now d hd hP
  · intro d hd hP
    rcases mem_append.1 hd with hd | hd
    · exact hmv (hl.now d hd hP)
    · obtain rfl := mem_singleton.1 hd
      rw [hc] at hP
      exact hmv hP

theorem Pass.lasting (hkp : ∀ h s o c, pre h s o → P s → P (W.answer 0 s o c).2) {post : Post S ε Op Ans α}
    (hp : Pass W inv pre post p h s) (hinv : inv s) (hl : Lasting P s₀ (log ++ h) s) (choices : List C) :
    Lasting P s₀ (log ++ (Serial.exec W p h s choices).history) (Serial.exec W p h s choices).state := by
  induction p generalizing h s choices with
  | ret | raise => exact hl
  | call o k ih =>
    cases choices with
    | nil => exact hl
    | cons c cs =>
      obtain ⟨hpre, hca⟩ := hp s (fun _ => rfl) hinv
      obtain ⟨hinv', -, hre⟩ := hca c
      refine ih _ hre hinv' ?_ cs
      rw [← append_assoc]
      exact hl.snoc rfl (hkp h s o c hpre)

/-- **What lasts**: a property that no event and no permitted call ends. -/
theorem Sound.lasting (hs : Sound W main inv pre) (henv : ∀ s e, P s → P (W.env s e))
    (hkp : ∀ h s o c, pre h s o → P s → P (W.answer 0 s o c).2) (hinv : inv s)
    (hl : Lasting P s₀ log s) (steps : List (Step A C E)) :
    Lasting P s₀ (log ++ (Serial.run W main s steps).1.flatten) (Serial.run W main s steps).2 := by
  induction steps generalizing s log with
  | nil => simpa [Serial.run] using hl
  | cons st steps ih =>
    have hsp : inv (step W main s st).2 ∧ Lasting P s₀ (log ++ (step W main s st).1) (step W main s st).2 := by
      cases st with
      | pass a choices =>
        refine ⟨(Pass.exec (hs.start a s hinv) hinv (fun n c hc => by simp at hc) choices).1, ?_⟩
        refine Pass.lasting hkp (hs.start a s hinv) hinv ?_ choices
        rw [append_nil]
        exact hl
      | env e =>
        refine ⟨hs.env s e hinv, ?_⟩
        change Lasting P s₀ (log ++ []) (W.env s e)
        rw [append_nil]
        exact hl.move (henv s e)
    have hre := ih hsp.1 hsp.2
    rw [append_assoc] at hre
    exact hre

end

section

variable {ok : S → Op → Prop} {s : S}

def AllOk (ok : S → Op → Prop) (log : List (Call S ε Op Ans)) : Prop := ∀ c ∈ log, ok c.before c.op

noncomputable abbrev guard (W : World S ε Op Ans C E) (ok : S → Op → Prop) (e : ε) : World S ε Op Ans C E :=
  W.guard (fun _ s o _ => ok s o) e

theorem subset_exec_history (W : World S ε Op Ans C E) (p : Prog ε Op Ans α) (h : List (Call S ε Op Ans)) (s : S)
    (choices : List C) : h ⊆ (exec W p h s choices).history := by
  induction p generalizing h s choices with
  | ret | raise => exact fun _ hc => hc
  | call o k ih =>
    cases choices with
    | nil => exact fun _ hc => hc
    | cons c cs => exact fun _ hd => ih _ _ _ cs (mem_append_left _ hd)

theorem exec_guard (e : ε) (hok : AllOk ok (exec W p h s choices).history) :
    exec (guard W ok e) p h s choices = exec W p h s choices := by
  induction p generalizing h s choices with
  | ret | raise => rfl
  | call o k ih =>
    cases choices with
    | nil => rfl
    | cons c cs =>
      have hca : ok s o := hok ⟨s, o, (W.answer 0 s o c).1⟩
        (subset_exec_history W _ _ _ cs (mem_append_right _ (mem_singleton_self _)))
      have hsame : (guard W ok e).answer 0 s o c = W.answer 0 s o c := guard_answer hca
      simp only [exec, hsame]
      exact ih _ hok

variable {steps : List (Step A C E)}

theorem run_guard (e : ε) (hok : AllOk ok (run W main s steps).1.flatten) :
    run (guard W ok e) main s steps = run W main s steps := by
  induction steps generalizing s with
  | nil => rfl
  | cons st steps ih =>
    have hpr : ∀ c ∈ (step W main s st).1 ++ (run W main (step W main s st).2 steps).1.flatten, ok c.before c.op :=
      hok
    have hsp : step (guard W ok e) main s st = step W main s st := by
      cases st with
      | env => rfl
      | pass a choices =>
        simp only [step]
        rw [exec_guard e fun c hc => hpr c (mem_append_left _ hc)]
    simp only [run, hsp]
    rw [ih fun c hc => hpr c (mem_append_right _ hc)]

theorem Pass.perform_guard (hinv : inv s) (hpre : pre h s o) (hca : ok s o → ∀ c, inv (W.answer 0 s o c).2 ∧
      post (h ++ [⟨s, o, (W.answer 0 s o c).1⟩]) (W.answer 0 s o c).2 (W.answer 0 s o c).1)
    (hrf : post (h ++ [⟨s, o, .error e⟩]) s (.error e)) : Pass (guard W ok e) inv pre post (Prog.perform o) h s := by
  refine .perform hpre fun c => ?_
  by_cases hok : ok s o
  · have hsame : (guard W ok e).answer 0 s o c = W.answer 0 s o c := guard_answer hok
    rw [hsame]
    exact hca hok c
  · have hno : (guard W ok e).answer 0 s o c = (.error e, s) := guard_answer_not hok
    rw [hno]
    exact ⟨hinv, hrf⟩

end

section

variable {β γ : Type}

/-- Whatever it called before, a pass may go on with the program from the state `s`, and where it ends with a
value the value and the state are in `Q`. -/
def Leads (W : World S ε Op Ans C E) (inv : S → Prop) (pre : Pre S ε Op Ans)
    (p : Prog ε Op Ans β) (s : S) (Q : S → β → Prop) : Prop :=
  ∀ h, Pass W inv pre (fun _ s' r => ∀ b, r = .ok b → Q s' b) p h s

variable {s : S} {Q : S → β → Prop}

theorem Leads.ret {b : β} (hb : Q s b) : Leads W inv pre (pure b) s Q := by
  intro h b' hb'
  obtain rfl : b = b' := Except.ok.inj hb'
  exact hb

variable {p : Prog ε Op Ans β}

theorem Leads.mono {Q' : S → β → Prop} (hp : Leads W inv pre p s Q')
    (himp : ∀ s' b, Q' s' b → Q s' b) : Leads W inv pre p s Q :=
  fun h => .mono (fun _ s' _ hr b hb => himp s' b (hr b hb)) (hp h)

variable {f : γ → Prog ε Op Ans β}

theorem Leads.bind {p : Prog ε Op Ans γ}
    (hp : Leads W inv pre p s fun s' a => Leads W inv pre (f a) s' Q) : Leads W inv pre (p >>= f) s Q := by
  intro h
  refine .bind (.mono (fun h' s' r hr => ?_) (hp h))
  cases r with
  | ok a => exact hr a rfl h'
  | error => exact nofun

theorem Leads.seq {Q' : S → γ → Prop} {p : Prog ε Op Ans γ} (hp : Leads W inv pre p s Q')
    (hf : ∀ s' a, Q' s' a → Leads W inv pre (f a) s' Q) : Leads W inv pre (p >>= f) s Q :=
  (hp.mono hf).bind

theorem Leads.perform_guard {ok : S → Op → Prop} {Q : S → Ans o → Prop} (hinv : inv s) (hpre : ∀ h, pre h s o)
    (hca : ok s o → ∀ c, inv (W.answer 0 s o c).2 ∧ ∀ a, (W.answer 0 s o c).1 = .ok a → Q (W.answer 0 s o c).2 a) :
    Leads (guard W ok e) inv pre (Prog.perform o) s Q :=
  fun h => .perform_guard hinv (hpre h) hca nofun

theorem Leads.pass (hp : Leads W inv pre p s Q) (h : List (Call S ε Op Ans)) :
    Pass W inv pre (fun _ _ _ => True) p h s :=
  .mono (fun _ _ _ _ => trivial) (hp h)

end

section

variable {β γ : Type} {fine : Call S ε Op Ans → Prop}

/-- As long as its calls are fine, a pass goes on with the program from the state `s` after the calls `h`, and
ends in `post`. -/
def Meets (W : World S ε Op Ans C E) (fine : Call S ε Op Ans → Prop)
    (pre : Pre S ε Op Ans) (post : Post S ε Op Ans β) :
    Prog ε Op Ans β → List (Call S ε Op Ans) → S → Prop
  | .ret b, h, s => post h s (.ok b)
  | .raise e, h, s => post h s (.error e)
  | .call o k, h, s => pre h s o ∧ ∀ c, fine ⟨s, o, (W.answer 0 s o c).1⟩ →
      Meets W fine pre post (k (W.answer 0 s o c).1) (h ++ [⟨s, o, (W.answer 0 s o c).1⟩]) (W.answer 0 s o c).2

variable {post : Post S ε Op Ans β} {s : S}

theorem Meets.mono {post' : Post S ε Op Ans β}
    (himp : ∀ h s r, post h s r → post' h s r) (hp : Meets W fine pre post p h s) :
    Meets W fine pre post' p h s := by
  induction p generalizing h s with
  | ret | raise => exact himp h s _ hp
  | call o k ih => exact ⟨hp.1, fun c hc => ih _ (hp.2 c hc)⟩

theorem Meets.bind {p : Prog ε Op Ans γ} (hp : Meets W fine pre (fun h s r => match r with
      | .ok b => Meets W fine pre post (f b) h s
      | .error e => post h s (.error e)) p h s) : Meets W fine pre post (p >>= f) h s := by
  induction p generalizing h s with
  | ret | raise => exact hp
  | call o k ih => exact ⟨hp.1, fun c hc => ih _ (hp.2 c hc)⟩

theorem Meets.attempt_bind {f : Except ε (Ans o) → Prog ε Op Ans β} (hpre : pre h s o)
    (hca : ∀ c, fine ⟨s, o, (W.answer 0 s o c).1⟩ →
      Meets W fine pre post (f (W.answer 0 s o c).1) (h ++ [⟨s, o, (W.answer 0 s o c).1⟩]) (W.answer 0 s o c).2) :
    Meets W fine pre post (Prog.attempt o >>= f) h s :=
  ⟨hpre, hca⟩

theorem Meets.of_yields {R : S → S → Prop} (hrf : ∀ s, R s s) (htr : ∀ s s' s'', R s s' → R s' s'' → R s s'')
    {P : Op → Prop} (hP : ∀ h s o, P o → pre h s o ∧ ∀ c, R s (W.answer 0 s o c).2) {X : Type}
    {f : (o : Op) → Except ε (Ans o) → List X} {G : S → X → Prop} (hG : ∀ s s' x, R s s' → G s x → G s' x)
    (hit : ∀ s o c, P o → ∀ x ∈ f o (W.answer 0 s o c).1, G (W.answer 0 s o c).2 x) {post : S → β → Prop}
    (hp : p.Calls P) (hy : ∀ s', R s s' → p.Yields f (G s') (post s')) :
    Meets W fine pre (fun _ s' r => R s s' ∧ ∀ b, r = .ok b → post s' b) p h s := by
  have hgo : ∀ (p : Prog ε Op Ans β) (h : List (Call S ε Op Ans)) (s₀ : S), p.Calls P → R s s₀ →
      (∀ s', R s₀ s' → p.Yields f (G s') (post s')) →
      Meets W fine pre (fun _ s' r => R s s' ∧ ∀ b, r = .ok b → post s' b) p h s₀ := by
    intro p
    induction p with
    | ret b =>
      intro h s₀ _ hs0 hy
      refine ⟨hs0, fun b' hb' => ?_⟩
      cases hb'
      exact hy s₀ (hrf s₀)
    | raise => exact fun h s₀ _ hs0 _ => ⟨hs0, nofun⟩
    | call o k ih =>
      intro h s₀ hp hs0 hy
      obtain ⟨hpre, hmo⟩ := hP h s₀ o hp.1
      refine ⟨hpre, fun c _ => ih _ _ _ (hp.2 _) (htr s s₀ _ hs0 (hmo c)) fun s' hs' => ?_⟩
      -- what this answer holds is still so when the program ends
      exact hy s' (htr s₀ _ s' (hmo c) hs') _ fun x hx => hG _ s' x hs' (hit s₀ o c hp.1 x hx)
  exact hgo p h s hp (hrf s) hy

theorem Meets.exec (hp : Meets W fine pre post p h s) (hh : CallsOk pre h)
    (hfn : ∀ c ∈ (Serial.exec W p h s choices).history, fine c) :
    CallsOk pre (Serial.exec W p h s choices).history ∧ ∀ r, (Serial.exec W p h s choices).result = some r →
        post (Serial.exec W p h s choices).history (Serial.exec W p h s choices).state r := by
  induction p generalizing h s choices with
  | ret | raise => exact ⟨hh, fun r hr => by obtain rfl := Option.some.inj hr; exact hp⟩
  | call o k ih =>
    cases choices with
    | nil => exact ⟨hh, nofun⟩
    | cons c cs =>
      have hc : fine ⟨s, o, (W.answer 0 s o c).1⟩ := hfn _
        (subset_exec_history W _ _ _ cs (mem_append_right _ (mem_singleton_self _)))
      exact ih _ (hp.2 c hc) (hh.snoc hp.1) hfn

def Ended (W : World S ε Op Ans C E) (main : A → Prog ε Op Ans α) : S → List (Step A C E) → Prop
  | _, [] => True
  | s, .pass a choices :: steps => (Serial.exec W (main a) [] s choices).result ≠ none ∧
      Ended W main (Serial.exec W (main a) [] s choices).state steps
  | s, .env e :: steps => Ended W main (W.env s e) steps

theorem Meets.run {rest : S → Prop} (henv : ∀ s e, rest s → rest (W.env s e))
    (hst : ∀ a s, rest s → Meets W fine pre (fun _ s' _ => rest s') (main a) [] s) (hs : rest s)
    (hen : Ended W main s steps) (hfn : ∀ c ∈ (run W main s steps).1.flatten, fine c) :
    rest (run W main s steps).2 ∧ ∀ h ∈ (run W main s steps).1, CallsOk pre h := by
  induction steps generalizing s with
  | nil => exact ⟨hs, nofun⟩
  | cons st steps ih =>
    have hpr : ∀ c ∈ (step W main s st).1 ++ (Serial.run W main (step W main s st).2 steps).1.flatten, fine c :=
      hfn
    have hlater : ∀ c ∈ (Serial.run W main (step W main s st).2 steps).1.flatten, fine c :=
      fun c hc => hpr c (mem_append_right _ hc)
    have hsp : rest (step W main s st).2 ∧ CallsOk pre (step W main s st).1 ∧
        Ended W main (step W main s st).2 steps := by
      cases st with
      | env e => exact ⟨henv s e hs, fun n c hc => by simp [step] at hc, hen⟩
      | pass a choices =>
        obtain ⟨hrs, hen⟩ := hen
        obtain ⟨r, hr⟩ := Option.ne_none_iff_exists'.1 hrs
        obtain ⟨hcl, hps⟩ := Meets.exec (hst a s hs) (fun n c hc => by simp at hc)
          fun c hc => hpr c (mem_append_left _ hc)
        exact ⟨hps r hr, hcl, hen⟩
    obtain ⟨hend, hcl⟩ := ih hsp.1 hsp.2.2 hlater
    refine ⟨hend, fun h hh => ?_⟩
    rcases mem_cons.1 hh with rfl | hh
    · exact hsp.2.1
    · exact hcl h hh

end

end Serial
