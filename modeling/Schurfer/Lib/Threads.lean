import Schurfer.Lib.Prog

/-!
# Programs that run side by side

A move starts a thread, lets one make its next call, lets the surroundings change the state, or stops a thread for
good between two calls. `Safe` is the rely-guarantee rule: whatever the others may do between two calls, every call
meets its precondition, keeps the invariant, and does to the others only what they rely on.
-/

namespace Threads

open List

variable {S ε Op A C E α β γ : Type} {Ans : Op → Type} {p : Prog ε Op Ans β} {o : Op} {i n : ℕ} {s : S} {e : ε}
  {k : Except ε (Ans o) → Prog ε Op Ans α} {P : Op → Prop} {a : A}

/-- How the shared state answers: `answer i s o c` is the answer to the call `o` of thread `i` when
the surroundings choose `c`; `crash i` is what stopping thread `i` does to the state. -/
structure World (S ε Op : Type) (Ans : Op → Type) (C E : Type) where
  answer : ℕ → S → (o : Op) → C → Except ε (Ans o) × S
  env : S → E → S
  crash : ℕ → S → S

structure Call (S ε Op : Type) (Ans : Op → Type) where
  before : S
  op : Op
  answer : Except ε (Ans op)

abbrev Pre (S ε Op : Type) (Ans : Op → Type) := List (Call S ε Op Ans) → S → Op → Prop

abbrev Post (S ε Op : Type) (Ans : Op → Type) (β : Type) := List (Call S ε Op Ans) → S → Except ε β → Prop

def Call.event (c : Call S ε Op Ans) : (o : Op) × Except ε (Ans o) := ⟨c.op, c.answer⟩

structure Thread (S ε Op : Type) (Ans : Op → Type) (A α : Type) where
  arg : A
  history : List (Call S ε Op Ans)
  rest : Option (Prog ε Op Ans α)

structure Config (S ε Op : Type) (Ans : Op → Type) (A α : Type) where
  state : S
  threads : List (Thread S ε Op Ans A α)

inductive Move (A C E : Type)
  | start (a : A)
  | call (i : ℕ) (c : C)
  | env (e : E)
  | crash (i : ℕ)

section

variable (W : World S ε Op Ans C E) (main : A → Prog ε Op Ans α)

def Config.step (cfg : Config S ε Op Ans A α) : Move A C E → Config S ε Op Ans A α
  | .start a => { cfg with threads := cfg.threads ++ [⟨a, [], some (main a)⟩] }
  | .env e => { cfg with state := W.env cfg.state e }
  | .call i c =>
    match cfg.threads[i]? with
    | some ⟨a, history, some (.call o k)⟩ =>
      let out := W.answer i cfg.state o c
      { state := out.2
        threads := cfg.threads.set i ⟨a, history ++ [⟨cfg.state, o, out.1⟩], some (k out.1)⟩ }
    | _ => cfg
  | .crash i =>
    match cfg.threads[i]? with
    | some ⟨a, history, some _⟩ =>
      { state := W.crash i cfg.state
        threads := cfg.threads.set i ⟨a, history, none⟩ }
    | _ => cfg

def Config.run (cfg : Config S ε Op Ans A α) (moves : List (Move A C E)) : Config S ε Op Ans A α :=
  moves.foldl (Config.step W main) cfg

end

/-- What the threads agree on: an invariant, what each relies on between its calls, and when a call
may be made. -/
structure Contract (S ε Op : Type) (Ans : Op → Type) (A : Type) where
  inv : S → Prop
  rely : ℕ → S → S → Prop
  pre : ℕ → A → Pre S ε Op Ans

section

variable (W : World S ε Op Ans C E) (K : Contract S ε Op Ans A) (i : ℕ) (a : A)

/-- Thread `i`, started with `a`, may go on with the program from the state `s` after the calls
`h`, and ends in `post`. -/
def Safe (post : Post S ε Op Ans β) :
    Prog ε Op Ans β → List (Call S ε Op Ans) → S → Prop
  | .ret b, h, s => post h s (.ok b)
  | .raise e, h, s => post h s (.error e)
  | .call o k, h, s => ∀ s₁, K.rely i s s₁ → K.inv s₁ →
      K.pre i a h s₁ o ∧ ∀ c, K.inv (W.answer i s₁ o c).2 ∧
        (∀ j, j ≠ i → K.rely j s₁ (W.answer i s₁ o c).2) ∧
        Safe post (k (W.answer i s₁ o c).1) (h ++ [⟨s₁, o, (W.answer i s₁ o c).1⟩]) (W.answer i s₁ o c).2

variable {W K i a} {post : Post S ε Op Ans β} {h : List (Call S ε Op Ans)}

theorem Safe.call_imp {post' : Post S ε Op Ans γ}
    {k : Except ε (Ans o) → Prog ε Op Ans β} {k' : Except ε (Ans o) → Prog ε Op Ans γ}
    (hk : ∀ r h s, Safe W K i a post (k r) h s → Safe W K i a post' (k' r) h s)
    (hp : Safe W K i a post (.call o k) h s) : Safe W K i a post' (.call o k') h s := by
  intro s1 hrl hinv
  obtain ⟨hpre, hcl⟩ := hp s1 hrl hinv
  refine ⟨hpre, fun c => ?_⟩
  obtain ⟨hinv', hot, hrs⟩ := hcl c
  exact ⟨hinv', hot, hk _ _ _ hrs⟩

theorem Safe.mono {post' : Post S ε Op Ans β}
    (himp : ∀ h s r, post h s r → post' h s r) (hp : Safe W K i a post p h s) : Safe W K i a post' p h s := by
  induction p generalizing h s with
  | ret | raise => exact himp h s _ hp
  | call o k ih => exact .call_imp (fun r _ _ => ih r) hp

theorem Safe.bind {p : Prog ε Op Ans α} {f : α → Prog ε Op Ans β} (hp : Safe W K i a (fun h s r => match r with
      | .ok b => Safe W K i a post (f b) h s
      | .error e => post h s (.error e)) p h s) : Safe W K i a post (p >>= f) h s := by
  induction p generalizing h s with
  | ret | raise => exact hp
  | call o k ih => exact .call_imp (fun r _ _ => ih r) hp

theorem Safe.handle {f : ε → Prog ε Op Ans β} (hp : Safe W K i a (fun h s r => match r with
      | .ok b => post h s (.ok b)
      | .error e => Safe W K i a post (f e) h s) p h s) : Safe W K i a post (p.handle f) h s := by
  induction p generalizing h s with
  | ret | raise => exact hp
  | call o k ih => exact .call_imp (fun r _ _ => ih r) hp

theorem Safe.ensure {q : Prog ε Op Ans Unit}
    (hp : Safe W K i a (fun h s r => Safe W K i a (fun h' s' r' => match r' with
      | .ok _ => post h' s' r
      | .error e => post h' s' (.error e)) q h s) p h s) : Safe W K i a post (p.ensure q) h s := by
  induction p generalizing h s with
  | ret | raise =>
    refine .bind (.mono (fun h' s' r' hr => ?_) hp)
    cases r' with
    | ok | error => exact hr
  | call o k ih => exact .call_imp (fun r _ _ => ih r) hp

variable {post : Post S ε Op Ans (Except ε (Ans o))}

theorem Safe.attempt (hcl : ∀ s1, K.rely i s s1 → K.inv s1 → K.pre i a h s1 o ∧ ∀ c, K.inv (W.answer i s1 o c).2 ∧
      (∀ j, j ≠ i → K.rely j s1 (W.answer i s1 o c).2) ∧
      post (h ++ [⟨s1, o, (W.answer i s1 o c).1⟩]) (W.answer i s1 o c).2 (.ok (W.answer i s1 o c).1)) :
    Safe W K i a post (Prog.attempt o) h s :=
  hcl

variable {post : Post S ε Op Ans (Ans o)}

theorem Safe.perform (hcl : ∀ s1, K.rely i s s1 → K.inv s1 → K.pre i a h s1 o ∧ ∀ c, K.inv (W.answer i s1 o c).2 ∧
      (∀ j, j ≠ i → K.rely j s1 (W.answer i s1 o c).2) ∧
      post (h ++ [⟨s1, o, (W.answer i s1 o c).1⟩]) (W.answer i s1 o c).2 (W.answer i s1 o c).1) :
    Safe W K i a post (Prog.perform o) h s := by
  intro s1 hrl hinv
  obtain ⟨hpre, hrs⟩ := hcl s1 hrl hinv
  refine ⟨hpre, fun c => ?_⟩
  obtain ⟨hinv', hot, hps⟩ := hrs c
  refine ⟨hinv', hot, ?_⟩
  cases hr : (W.answer i s1 o c).1 with
  | ok | error => rw [hr] at hps; exact hps

theorem Safe.outcome {post : Post S ε Op Ans (Except ε β)}
    (hp : Safe W K i a (fun h s r => post h s (.ok r)) p h s) : Safe W K i a post p.outcome h s := by
  induction p generalizing h s with
  | ret | raise => exact hp
  | call o k ih => exact .call_imp (fun r _ _ => ih r) hp

theorem Safe.of_calls {Q : List (Call S ε Op Ans) → S → Prop} (hrl : ∀ h s s', Q h s → K.rely i s s' → Q h s')
    (hstp : ∀ h s o, P o → Q h s → K.inv s → K.pre i a h s o ∧ ∀ c, K.inv (W.answer i s o c).2 ∧
      (∀ j, j ≠ i → K.rely j s (W.answer i s o c).2) ∧
      Q (h ++ [⟨s, o, (W.answer i s o c).1⟩]) (W.answer i s o c).2)
    (hp : p.Calls P) (hQ : Q h s) : Safe W K i a (fun h' s' _ => Q h' s') p h s := by
  induction p generalizing h s with
  | ret | raise => exact hQ
  | call o k ih =>
    intro s1 hs1 hinv
    obtain ⟨hpre, hcl⟩ := hstp h s1 o hp.1 (hrl h s s1 hQ hs1) hinv
    refine ⟨hpre, fun c => ?_⟩
    obtain ⟨hinv', hot, hQ'⟩ := hcl c
    exact ⟨hinv', hot, ih _ (hp.2 _) hQ'⟩

end

/-- A call that meets its precondition keeps the invariant and does to the others what they rely on.
The `own` calls do no more to their own thread than others may. -/
structure Kept (W : World S ε Op Ans C E) (K : Contract S ε Op Ans A) (own : Op → Prop) : Prop where
  refl : ∀ i s, K.rely i s s
  trans : ∀ i s₁ s₂ s₃, K.rely i s₁ s₂ → K.rely i s₂ s₃ → K.rely i s₁ s₃
  keeps : ∀ i a h s o c, K.inv s → K.pre i a h s o →
    K.inv (W.answer i s o c).2 ∧ ∀ j, j ≠ i → K.rely j s (W.answer i s o c).2
  own : ∀ i a h s o c, own o → K.inv s → K.pre i a h s o → K.rely i s (W.answer i s o c).2

section

variable {W : World S ε Op Ans C E} {K : Contract S ε Op Ans A} {own : Op → Prop} {a : A} {h : List (Call S ε Op Ans)}

theorem Kept.perform (hK : Kept W K own)
    (hcl : ∀ s1, K.rely i s s1 → K.inv s1 → K.pre i a h s1 o ∧ ∀ c, K.inv (W.answer i s1 o c).2 →
      post (h ++ [⟨s1, o, (W.answer i s1 o c).1⟩]) (W.answer i s1 o c).2 (W.answer i s1 o c).1) :
    Safe W K i a post (Prog.perform o) h s := by
  refine .perform fun s1 hrl hinv => ?_
  obtain ⟨hpre, hps⟩ := hcl s1 hrl hinv
  refine ⟨hpre, fun c => ?_⟩
  obtain ⟨hinv', hot⟩ := hK.keeps i a h s1 o c hinv hpre
  exact ⟨hinv', hot, hps c hinv'⟩

theorem Kept.attempt (hK : Kept W K own)
    (hcl : ∀ s1, K.rely i s s1 → K.inv s1 → K.pre i a h s1 o ∧ ∀ c, K.inv (W.answer i s1 o c).2 →
      post (h ++ [⟨s1, o, (W.answer i s1 o c).1⟩]) (W.answer i s1 o c).2 (.ok (W.answer i s1 o c).1)) :
    Safe W K i a post (Prog.attempt o) h s := by
  refine .attempt fun s1 hrl hinv => ?_
  obtain ⟨hpre, hps⟩ := hcl s1 hrl hinv
  refine ⟨hpre, fun c => ?_⟩
  obtain ⟨hinv', hot⟩ := hK.keeps i a h s1 o c hinv hpre
  exact ⟨hinv', hot, hps c hinv'⟩

theorem Kept.calls (hK : Kept W K own) {Q : S → Prop} (hQ : ∀ s s', K.rely i s s' → Q s → Q s')
    (hP : ∀ h s o, P o → K.inv s → Q s → own o ∧ K.pre i a h s o) (hp : p.Calls P)
    (hs : Q s) : Safe W K i a (fun _ s' _ => K.rely i s s') p h s := by
  refine .of_calls (Q := fun _ s' => K.rely i s s') (fun _ s1 s2 h1 h2 => hK.trans i s s1 s2 h1 h2)
    (fun h s1 o ho hrl hinv => ?_) hp (hK.refl i s)
  obtain ⟨hown, hpre⟩ := hP h s1 o ho hinv (hQ s s1 hrl hs)
  refine ⟨hpre, fun c => ?_⟩
  obtain ⟨hinv', hot⟩ := hK.keeps i a h s1 o c hinv hpre
  exact ⟨hinv', hot, hK.trans i s s1 _ hrl (hK.own i a h s1 o c hown hinv hpre)⟩

end

structure Sound (W : World S ε Op Ans C E) (main : A → Prog ε Op Ans α) (K : Contract S ε Op Ans A)
    (post : ℕ → A → Post S ε Op Ans α) : Prop where
  refl : ∀ i s, K.rely i s s
  trans : ∀ i s₁ s₂ s₃, K.rely i s₁ s₂ → K.rely i s₂ s₃ → K.rely i s₁ s₃
  env : ∀ s e, K.inv s → K.inv (W.env s e) ∧ ∀ i, K.rely i s (W.env s e)
  crash : ∀ i s, K.inv s → K.inv (W.crash i s) ∧ ∀ j, j ≠ i → K.rely j s (W.crash i s)
  start : ∀ i a s, K.inv s → Safe W K i a (post i a) (main a) [] s

section

variable {W : World S ε Op Ans C E} {main : A → Prog ε Op Ans α} {K : Contract S ε Op Ans A}
  {post : ℕ → A → Post S ε Op Ans α}

theorem getElem?_snoc {l : List γ} {x y : γ} (h : (l ++ [x])[n]? = some y) :
    (n < l.length ∧ l[n]? = some y) ∨ (n = l.length ∧ y = x) := by
  rcases Nat.lt_or_ge n l.length with hn | hn
  · rw [getElem?_append_left hn] at h
    exact .inl ⟨hn, h⟩
  · rw [getElem?_append_right hn] at h
    obtain ⟨hlt, heq⟩ := List.getElem?_eq_some_iff.1 h
    rw [length_singleton] at hlt
    refine .inr ⟨by omega, ?_⟩
    rw [← heq, getElem_singleton]

theorem getElem?_set_cases {l : List γ} {x y : γ} (h : (l.set i x)[n]? = some y) :
    (n = i ∧ y = x) ∨ (n ≠ i ∧ l[n]? = some y) := by
  by_cases hn : i = n
  · rw [hn, getElem?_set_self'] at h
    obtain ⟨-, -, rfl⟩ := Option.map_eq_some_iff.1 h
    exact .inl ⟨hn.symm, rfl⟩
  · rw [getElem?_set_ne hn] at h
    exact .inr ⟨Ne.symm hn, h⟩

structure ThreadOk (W : World S ε Op Ans C E) (K : Contract S ε Op Ans A)
    (post : ℕ → A → Post S ε Op Ans α) (i : ℕ) (s : S)
    (t : Thread S ε Op Ans A α) : Prop where
  calls : ∀ n c, t.history[n]? = some c → K.pre i t.arg (t.history.take n) c.before c.op
  safe : ∀ p, t.rest = some p → ∃ s₀, K.rely i s₀ s ∧ Safe W K i t.arg (post i t.arg) p t.history s₀

variable {t : Thread S ε Op Ans A α} {s' : S}

theorem ThreadOk.move (hsn : Sound W main K post)
    (ht : ThreadOk W K post i s t) (hrl : K.rely i s s') : ThreadOk W K post i s' t := by
  refine ⟨ht.calls, fun p hp => ?_⟩
  obtain ⟨s0, hs0, hsf⟩ := ht.safe p hp
  exact ⟨s0, hsn.trans i s0 s s' hs0 hrl, hsf⟩

structure ConfigOk (W : World S ε Op Ans C E) (K : Contract S ε Op Ans A)
    (post : ℕ → A → Post S ε Op Ans α) (cfg : Config S ε Op Ans A α) :
    Prop where
  inv : K.inv cfg.state
  threads : ∀ i t, cfg.threads[i]? = some t → ThreadOk W K post i cfg.state t

section

variable (hsn : Sound W main K post)

include hsn

variable {h : List (Call S ε Op Ans)}

theorem ThreadOk.called (hinv : K.inv s) (ht : ThreadOk W K post i s ⟨a, h, some (.call o k)⟩) (c : C) :
    K.inv (W.answer i s o c).2 ∧ (∀ j, j ≠ i → K.rely j s (W.answer i s o c).2) ∧
      ThreadOk W K post i (W.answer i s o c).2
        ⟨a, h ++ [⟨s, o, (W.answer i s o c).1⟩], some (k (W.answer i s o c).1)⟩ := by
  obtain ⟨s0, hrl, hsf⟩ := ht.safe _ rfl
  obtain ⟨hpre, hcl⟩ := hsf s hrl hinv
  obtain ⟨hinv', hot, hrs⟩ := hcl c
  refine ⟨hinv', hot, ?_, ?_⟩
  · intro n d hd
    rcases getElem?_snoc hd with ⟨hn, hd⟩ | ⟨rfl, rfl⟩
    · rw [take_append_of_le_length hn.le]
      exact ht.calls n d hd
    · rw [take_left]
      exact hpre
  · rintro p hp
    cases hp
    exact ⟨_, hsn.refl i _, hrs⟩

theorem ConfigOk.set_thread {cfg : Config S ε Op Ans A α} (hcfg : ConfigOk W K post cfg) {t' : Thread S ε Op Ans A α}
    (hot : ∀ j, j ≠ i → K.rely j cfg.state s') (ht' : ThreadOk W K post i s' t') :
    ∀ j t, (cfg.threads.set i t')[j]? = some t → ThreadOk W K post j s' t := by
  intro j t ht
  rcases getElem?_set_cases ht with ⟨rfl, rfl⟩ | ⟨hj, ht⟩
  · exact ht'
  · exact (hcfg.threads j t ht).move hsn (hot j hj)

theorem ConfigOk.step {cfg : Config S ε Op Ans A α}
    (hcfg : ConfigOk W K post cfg) (m : Move A C E) : ConfigOk W K post (cfg.step W main m) := by
  cases m with
  | start a =>
    refine ⟨hcfg.inv, fun i t ht => ?_⟩
    rcases getElem?_snoc ht with ⟨-, ht⟩ | ⟨rfl, rfl⟩
    · exact hcfg.threads i t ht
    · refine ⟨fun n c hc => by simp at hc, fun p hp => ?_⟩
      cases hp
      exact ⟨cfg.state, hsn.refl _ _, hsn.start _ a cfg.state hcfg.inv⟩
  | env e =>
    obtain ⟨hinv, hrl⟩ := hsn.env cfg.state e hcfg.inv
    exact ⟨hinv, fun i t ht => (hcfg.threads i t ht).move hsn (hrl i)⟩
  | call i c =>
    simp only [Config.step]
    split
    · rename_i a h o k hthread
      obtain ⟨hinv, hot, hnew⟩ := (hcfg.threads i _ hthread).called hsn hcfg.inv c
      refine ⟨hinv, hcfg.set_thread hsn hot ?_⟩
      exact hnew
    · exact hcfg
  | crash i =>
    simp only [Config.step]
    split
    · rename_i a h p hthread
      obtain ⟨hinv, hot⟩ := hsn.crash i cfg.state hcfg.inv
      refine ⟨hinv, hcfg.set_thread hsn hot ?_⟩
      exact ⟨(hcfg.threads i _ hthread).calls, fun q hq => by simp at hq⟩
    · exact hcfg

theorem Sound.reached (hinv : K.inv s) (moves : List (Move A C E)) :
    ConfigOk W K post (Config.run W main ⟨s, []⟩ moves) := by
  have hrun : ∀ (moves : List (Move A C E)) (cfg : Config S ε Op Ans A α), ConfigOk W K post cfg →
      ConfigOk W K post (cfg.run W main moves) := by
    intro moves
    induction moves with
    | nil => exact fun cfg hcfg => hcfg
    | cons m moves ih => exact fun cfg hcfg => ih _ (hcfg.step hsn m)
  refine hrun moves ⟨s, []⟩ ⟨hinv, fun i t ht => by simp at ht⟩

end

end

section

variable (W : World S ε Op Ans C E) (main : A → Prog ε Op Ans α) (ok : ℕ → S → Op → C → Prop) (may : A → Prop)

/-- The move may be made: it starts a thread that may be started, or makes a call that is ok. -/
def Config.Allows (cfg : Config S ε Op Ans A α) : Move A C E → Prop
  | .start a => may a
  | .call i c => ∀ a h o k, cfg.threads[i]? = some ⟨a, h, some (.call o k)⟩ → ok i cfg.state o c
  | .env _ => True
  | .crash _ => True

def Config.AllAllowed : Config S ε Op Ans A α → List (Move A C E) → Prop
  | _, [] => True
  | cfg, m :: moves => cfg.Allows ok may m ∧ Config.AllAllowed (cfg.step W main m) moves

open Classical in
noncomputable def World.guard (e : ε) : World S ε Op Ans C E :=
  { W with answer := fun i s o c => if ok i s o c then W.answer i s o c else (.error e, s) }

open Classical in
noncomputable def guardMain (e : ε) (a : A) : Prog ε Op Ans α := if may a then main a else .raise e

variable {W main ok may} {moves : List (Move A C E)} {m : Move A C E} {c : C}

theorem guard_answer (h : ok i s o c) : (W.guard ok e).answer i s o c = W.answer i s o c := if_pos h

theorem guard_answer_not (h : ¬ ok i s o c) : (W.guard ok e).answer i s o c = (.error e, s) := if_neg h

theorem Config.Allows.step_guard {cfg : Config S ε Op Ans A α} (e : ε) (h : cfg.Allows ok may m) :
    cfg.step (W.guard ok e) (guardMain main may e) m = cfg.step W main m := by
  cases m with
  | start a =>
    have hma : guardMain main may e a = main a := if_pos h
    simp only [Config.step, hma]
  | env | crash => rfl
  | call i c =>
    simp only [Config.step]
    split
    · rename_i a history o k hthread
      rw [guard_answer (h a history o k hthread)]
    · rfl

theorem Config.AllAllowed.run_guard (e : ε) {cfg : Config S ε Op Ans A α} (h : cfg.AllAllowed W main ok may moves) :
    cfg.run (W.guard ok e) (guardMain main may e) moves = cfg.run W main moves := by
  induction moves generalizing cfg with
  | nil => rfl
  | cons m moves ih =>
    have hrs := ih h.2
    simp only [Config.run, foldl_cons] at hrs ⊢
    rw [h.1.step_guard e, hrs]

variable {K : Contract S ε Op Ans A} {post : ℕ → A → Post S ε Op Ans α}

/-- In the guarded world a contract only has to be kept where the calls are ok. -/
theorem Kept.guard {own : Op → Prop} (e : ε) (hrf : ∀ i s, K.rely i s s)
    (htr : ∀ i s1 s2 s3, K.rely i s1 s2 → K.rely i s2 s3 → K.rely i s1 s3)
    (hkp : ∀ i a h s o c, ok i s o c → K.inv s → K.pre i a h s o →
      K.inv (W.answer i s o c).2 ∧ ∀ j, j ≠ i → K.rely j s (W.answer i s o c).2)
    (hown : ∀ i a h s o c, ok i s o c → own o → K.inv s → K.pre i a h s o → K.rely i s (W.answer i s o c).2) :
    Kept (W.guard ok e) K own := by
  refine ⟨hrf, htr, fun i a h s o c hinv hpre => ?_, fun i a h s o c ho hinv hpre => ?_⟩
  · by_cases hok : ok i s o c
    · rw [guard_answer hok]
      exact hkp i a h s o c hok hinv hpre
    · rw [guard_answer_not hok]
      exact ⟨hinv, fun j _ => hrf j s⟩
  · by_cases hok : ok i s o c
    · rw [guard_answer hok]
      exact hown i a h s o c hok ho hinv hpre
    · rw [guard_answer_not hok]
      exact hrf i s

/-- **Every configuration that allowed moves reach is sound.** -/
theorem Sound.of_allowed (hsn : Sound (W.guard ok e) (guardMain main may e) K post) (hinv : K.inv s)
    (h : (⟨s, []⟩ : Config S ε Op Ans A α).AllAllowed W main ok may moves) :
    ConfigOk (W.guard ok e) K post (Config.run W main ⟨s, []⟩ moves) := by
  rw [← h.run_guard e]
  exact hsn.reached hinv moves

theorem Config.AllAllowed.append {ms ms' : List (Move A C E)} {cfg : Config S ε Op Ans A α} :
    cfg.AllAllowed W main ok may (ms ++ ms') ↔
      cfg.AllAllowed W main ok may ms ∧ (cfg.run W main ms).AllAllowed W main ok may ms' := by
  induction ms generalizing cfg with
  | nil => exact ⟨fun h => ⟨trivial, h⟩, fun h => h.2⟩
  | cons m ms ih =>
    rw [cons_append]
    exact (and_congr_right fun _ => ih).trans and_assoc.symm

theorem Sound.before (hsn : Sound (W.guard ok e) (guardMain main may e) K post) (hinv : K.inv s)
    (h : (⟨s, []⟩ : Config S ε Op Ans A α).AllAllowed W main ok may moves)
    (hm : moves[n]? = some m) : ConfigOk (W.guard ok e) K post (Config.run W main ⟨s, []⟩ (moves.take n)) ∧
      (Config.run W main ⟨s, []⟩ (moves.take n)).Allows ok may m := by
  obtain ⟨hn, hget⟩ := List.getElem?_eq_some_iff.1 hm
  rw [← take_append_drop n moves, drop_eq_getElem_cons hn, hget, Config.AllAllowed.append] at h
  exact ⟨hsn.of_allowed hinv h.1, h.2.1⟩

theorem Config.step_call_cases (W : World S ε Op Ans C E) (main : A → Prog ε Op Ans α)
    (cfg : Config S ε Op Ans A α) (i : ℕ) (c : C) :
    cfg.step W main (.call i c) = cfg ∨ ∃ a h o k, cfg.threads[i]? = some ⟨a, h, some (.call o k)⟩ ∧
      (cfg.step W main (.call i c)).state = (W.answer i cfg.state o c).2 := by
  simp only [Config.step]
  split
  · rename_i a h o k hthread
    exact .inr ⟨a, h, o, k, hthread, rfl⟩
  · exact .inl rfl

theorem ConfigOk.next_pre {V : World S ε Op Ans C E} {cfg : Config S ε Op Ans A α} (hcfg : ConfigOk V K post cfg)
    (ht : cfg.threads[i]? = some ⟨a, h, some (.call o k)⟩) : K.pre i a h cfg.state o := by
  obtain ⟨s0, hrl, hsf⟩ := (hcfg.threads i _ ht).safe _ rfl
  exact (hsf cfg.state hrl hcfg.inv).1

end

section

variable {W : World S ε Op Ans C E} {main : A → Prog ε Op Ans α} {R : S → S → Prop} (cfg : Config S ε Op Ans A α)

theorem Config.run_append (ms ms' : List (Move A C E)) :
    cfg.run W main (ms ++ ms') = (cfg.run W main ms).run W main ms' := foldl_append

theorem Config.run_take_succ (moves : List (Move A C E)) (n : ℕ) :
    cfg.run W main (moves.take (n + 1)) = cfg.run W main (moves.take n) ∨
    ∃ m, moves[n]? = some m ∧ cfg.run W main (moves.take (n + 1)) = (cfg.run W main (moves.take n)).step W main m := by
  rw [take_add_one, Config.run_append]
  cases hm : moves[n]? with
  | none => exact .inl rfl
  | some m => exact .inr ⟨m, rfl, rfl⟩

theorem Config.step_moves (hrf : ∀ s, R s s) (han : ∀ i s o c, R s (W.answer i s o c).2)
    (henv : ∀ s e, R s (W.env s e)) (hcr : ∀ i s, R s (W.crash i s)) (cfg : Config S ε Op Ans A α)
    (m : Move A C E) : R cfg.state (cfg.step W main m).state := by
  cases m with
  | start => exact hrf _
  | env => exact henv _ _
  | call i c =>
    rcases Config.step_call_cases W main cfg i c with hsame | ⟨a, h, o, k, -, hst⟩
    · rw [hsame]
      exact hrf _
    · rw [hst]
      exact han i _ o c
  | crash i =>
    simp only [Config.step]
    split
    · exact hcr i _
    · exact hrf _

/-- What every answer, every change of the surroundings and every crash moves the state along, a run
moves it along between any two of its moments. -/
theorem Config.run_moves (hrf : ∀ s, R s s) (htr : ∀ s1 s2 s3, R s1 s2 → R s2 s3 → R s1 s3)
    (han : ∀ i s o c, R s (W.answer i s o c).2) (henv : ∀ s e, R s (W.env s e))
    (hcr : ∀ i s, R s (W.crash i s)) (cfg : Config S ε Op Ans A α) (moves : List (Move A C E)) {m : ℕ}
    (hmn : m ≤ n) : R (cfg.run W main (moves.take m)).state (cfg.run W main (moves.take n)).state := by
  have hrun : ∀ (ms : List (Move A C E)) (cfg : Config S ε Op Ans A α), R cfg.state (cfg.run W main ms).state := by
    intro ms
    induction ms with
    | nil => exact fun cfg => hrf _
    | cons m ms ih =>
      exact fun cfg => htr _ _ _ (Config.step_moves hrf han henv hcr cfg m) (ih _)
  have hsp : moves.take n = moves.take m ++ (moves.take n).drop m := by
    conv_lhs => rw [← take_append_drop m (moves.take n), take_take, Nat.min_eq_left hmn]
  rw [hsp, Config.run_append]
  exact hrun _ _

variable {K : Contract S ε Op Ans A} {post : ℕ → A → Post S ε Op Ans α} {b : α}

theorem ConfigOk.step_finished (hsn : Sound W main K post) {cfg : Config S ε Op Ans A α} (hcfg : ConfigOk W K post cfg)
    (m : Move A C E) (ht : (cfg.step W main m).threads[i]? = some t) (hret : t.rest = some (.ret b)) :
    cfg.threads[i]? = some t ∨ post i t.arg t.history (cfg.step W main m).state (.ok b) := by
  cases m with
  | env => exact .inl ht
  | start a =>
    rcases getElem?_snoc ht with ⟨-, ht⟩ | ⟨rfl, rfl⟩
    · exact .inl ht
    · have hsf := hsn.start cfg.threads.length a cfg.state hcfg.inv
      rw [Option.some.inj hret] at hsf
      exact .inr hsf
  | call j c =>
    simp only [Config.step] at ht ⊢
    split at ht
    · rename_i a h o k hthread
      rcases getElem?_set_cases ht with ⟨rfl, rfl⟩ | ⟨-, ht⟩
      · obtain ⟨s0, hrl, hsf⟩ := (hcfg.threads i _ hthread).safe _ rfl
        obtain ⟨-, hcl⟩ := hsf cfg.state hrl hcfg.inv
        obtain ⟨-, -, hrs⟩ := hcl c
        rw [Option.some.inj hret] at hrs
        exact .inr hrs
      · exact .inl ht
    · exact .inl ht
  | crash j =>
    simp only [Config.step] at ht ⊢
    split at ht
    · rename_i a h p hthread
      rcases getElem?_set_cases ht with ⟨rfl, rfl⟩ | ⟨-, ht⟩
      · cases hret
      · exact .inl ht
    · exact .inl ht

/-- **A thread that has returned did so at one moment of the run, in `post`**, and is as it is since. -/
theorem Sound.finished (hsn : Sound W main K post) (hinv : K.inv s) (moves : List (Move A C E))
    (ht : (Config.run W main ⟨s, []⟩ moves).threads[i]? = some t) (hret : t.rest = some (.ret b)) :
    ∃ n, n ≤ moves.length ∧ post i t.arg t.history (Config.run W main ⟨s, []⟩ (moves.take n)).state (.ok b) ∧
      ∀ m, n ≤ m → (Config.run W main ⟨s, []⟩ (moves.take m)).threads[i]? = some t := by
  induction moves using reverseRecOn with
  | nil => simp [Config.run] at ht
  | append_singleton moves x ih =>
    have hsc : Config.run W main ⟨s, []⟩ (moves ++ [x]) = (Config.run W main ⟨s, []⟩ moves).step W main x :=
      Config.run_append _ _ _
    rw [hsc] at ht
    have hln : ∀ m, moves.length < m → (moves ++ [x]).take m = moves ++ [x] := by
      intro m hm
      refine take_of_length_le ?_
      rw [length_append, length_singleton]
      exact hm
    rcases (hsn.reached hinv moves).step_finished hsn x ht hret with hbf | hps
    · obtain ⟨n, hn, hps, hsi⟩ := ih hbf
      refine ⟨n, by simp; omega, by rwa [take_append_of_le_length hn], fun m hm => ?_⟩
      rcases Nat.lt_or_ge moves.length m with hm' | hm'
      · rw [hln m hm', hsc]
        exact ht
      · rw [take_append_of_le_length hm']
        exact hsi m hm
    · refine ⟨moves.length + 1, by simp, ?_, fun m hm => ?_⟩
      · rw [hln _ (Nat.lt_succ_self _), hsc]
        exact hps
      · rw [hln m hm, hsc]
        exact ht

end

end Threads
