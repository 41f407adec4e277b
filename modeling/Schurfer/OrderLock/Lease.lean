import Mathlib.Tactic
import Schurfer.Lib.Txn

/-!
# The order lock

`OrderLockLease`: any number of leases of one Redis key. A script is atomic, a command may fail before or after it ran,
and the key may expire at any moment. No token is drawn twice.
-/

namespace Schurfer.OrderLock

structure Key where
  token : ℕ
  expiresAt : ℤ

abbrev Script := Option Key → Option Key × ℕ

def setNx (token : ℕ) (expiresAt : ℤ) : Script
  | none => (some ⟨token, expiresAt⟩, 1)
  | some key => (some key, 0)

def ifOwner (token : ℕ) (f : Key → Option Key) : Script
  | some key => if key.token = token then (f key, 1) else (some key, 0)
  | none => (none, 0)

def renewLock (token : ℕ) (expiresAt : ℤ) : Script := ifOwner token fun key => some { key with expiresAt }

def releaseLock (token : ℕ) : Script := ifOwner token fun _ => none

inductive Command
  | answered
  | unanswered (error : String)
  | unsent (error : String)
deriving DecidableEq

def Command.run (c : Command) (script : Script) (key : Option Key) : Option Key × Except String ℕ :=
  match c with
  | .answered => ((script key).1, .ok (script key).2)
  | .unanswered error => ((script key).1, .error error)
  | .unsent error => (key, .error error)

inductive Exit
  | normal
  | orderLockLost (message : String)
  | bodyRaised
deriving DecidableEq

structure Lease where
  operation : String
  ttlMs : ℤ
  /-- `_heartbeat`, and whether the task still runs -/
  heartbeat : Option Bool := none
  lostReason : Option String := none
  exit : Option Exit := none
deriving DecidableEq

def Lease.markLost (l : Lease) (reason : String) : Lease := { l with lostReason := l.lostReason.or (some reason) }

/-- A turn of `_renew_loop` that got the reply. -/
def Lease.renewed (l : Lease) (reply : Except String ℕ) : Lease :=
  match reply with
  | .ok 1 => l
  | .ok _ => { l.markLost "ownership changed or lease expired" with heartbeat := some false }
  | .error error => { l.markLost ("renewal failed: " ++ error) with heartbeat := some false }

/-- `__aexit__`, once the release got the reply. -/
def Lease.released (l : Lease) (raised : Bool) (reply : Except String ℕ) : Lease :=
  let l := match reply with
    | .ok 1 | .error _ => l
    | .ok _ => l.markLost "owner-only release found a different or expired lease"
  let ending := match raised, l.lostReason with
    | true, _ => Exit.bodyRaised
    | false, some reason => .orderLockLost ("order lock lease lost during " ++ l.operation ++ ": " ++ reason)
    | false, none => .normal
  { l with heartbeat := none, exit := some ending }

structure State where
  key : Option Key := none
  drawn : ℕ := 0
  leases : ℕ → Option Lease := fun _ => none

def State.put (s : State) (token : ℕ) (l : Lease) : State :=
  { s with leases := Function.update s.leases token (some l) }

def checkTimes (ttlMs : ℤ) (renewIntervalSeconds : ℚ) : Except String Unit := do
  if ttlMs ≤ 0 then throw "order lock TTL must be positive"
  if renewIntervalSeconds ≤ 0 then throw "order lock renewal interval must be positive"
  if ttlMs ≤ renewIntervalSeconds * 1000 then throw "order lock renewal interval must be shorter than its TTL"

def acquire (s : State) (operation : String) (ttlMs : ℤ) (renewIntervalSeconds : ℚ) (now : ℤ) (c : Command) : State :=
  match checkTimes ttlMs renewIntervalSeconds with
  | .error _ => s
  | .ok _ =>
    let (key, reply) := c.run (setNx s.drawn (now + ttlMs)) s.key
    let s' := { s with key, drawn := s.drawn + 1 }
    match reply with
    | .ok 1 => s'.put s.drawn { operation, ttlMs }
    | _ => s'

inductive Step
  | acquire (operation : String) (ttlMs : ℤ) (renewIntervalSeconds : ℚ) (now : ℤ) (c : Command)
  | enter (token : ℕ)
  | renew (token : ℕ) (now : ℤ) (c : Command)
  | exit (token : ℕ) (raised : Bool) (c : Command)
  | expire

def step (s : State) : Step → State
  | .acquire operation ttlMs interval now c => acquire s operation ttlMs interval now c
  | .enter token => match s.leases token with
    | some l => s.put token { l with heartbeat := l.heartbeat.or (some true) }
    | none => s
  | .renew token now c => match s.leases token with
    | some l =>
      let (key, reply) := c.run (renewLock token (now + l.ttlMs)) s.key
      -- a renewal whose task was cancelled may still run
      { s with key }.put token (if l.heartbeat = some true then l.renewed reply else l)
    | none => s
  | .exit token raised c => match s.leases token with
    | some l =>
      let (key, reply) := c.run (releaseLock token) s.key
      { s with key }.put token (l.released raised reply)
    | none => s
  | .expire => { s with key := none }

/-- The lease that renews or releases. -/
def Step.owner : Step → Option ℕ
  | .renew token _ _ | .exit token _ _ => some token
  | _ => none

abbrev stateAt (steps : List Step) (n : ℕ) : State := Run.stateAt step {} steps n

def State.holder (s : State) : Option ℕ := s.key.map (·.token)

section

variable {s : State} {st : Step} {token new : ℕ} {key : Option Key} {l l' : Lease} {script : Script}
  {f : Key → Option Key} {k : Key} (expiresAt : ℤ)

theorem holder_eq_some : s.holder = some token ↔ ∃ k, s.key = some k ∧ k.token = token := Option.map_eq_some_iff

/-- The token in the key stays, goes, or is the new one where the key was free. -/
def Moves (new : ℕ) (key key' : Option Key) : Prop :=
  ∀ k ∈ key', (∃ k' ∈ key, k'.token = k.token) ∨ key = none ∧ k.token = new

theorem Moves.refl : Moves new key key := fun k hk => .inl ⟨k, hk, rfl⟩

theorem Moves.run (h : Moves new key (script key).1) (c : Command) : Moves new key (c.run script key).1 := by
  cases c with
  | unsent => exact .refl
  | _ => exact h

theorem ifOwner_moves (hf : ∀ k, ∀ k' ∈ f k, k'.token = k.token) : Moves new key (ifOwner token f key).1 := by
  unfold ifOwner
  split
  · split
    · exact fun k' hk' => .inl ⟨_, rfl, (hf _ k' hk').symm⟩
    · exact .refl
  · exact .refl

theorem setNx_moves : Moves new key (setNx new expiresAt key).1 := by
  unfold setNx
  split
  · rintro k ⟨⟩
    exact .inr ⟨rfl, rfl⟩
  · exact .refl

/-- All a step can do: a new token and a new lease need a free key. -/
structure Onward (s s' : State) : Prop where
  drawn : s.drawn ≤ s'.drawn
  key : Moves s.drawn s.key s'.key
  leases : ∀ t, s'.leases t ≠ none → s.leases t ≠ none ∨ s.key = none ∧ t < s'.drawn

theorem Onward.refl (s : State) : Onward s s := ⟨le_rfl, .refl, fun _ => .inl⟩

theorem Onward.put (hl : s.leases token = some l) (hkey : Moves s.drawn s.key key) :
    Onward s ({ s with key }.put token l') := by
  refine ⟨le_rfl, hkey, fun t ht => .inl ?_⟩
  by_cases htoken : t = token
  · rw [htoken, hl]
    exact Option.some_ne_none l
  · exact (Function.update_of_ne htoken (some l') s.leases) ▸ ht

theorem acquire_onward (operation : String) (ttlMs : ℤ) (interval : ℚ) (now : ℤ) (c : Command) :
    Onward s (acquire s operation ttlMs interval now c) := by
  unfold acquire
  split
  · exact .refl s
  · dsimp only
    split
    · rename_i hreply
      refine ⟨Nat.le_succ _, (setNx_moves _).run c, fun t ht => ?_⟩
      by_cases hnew : t = s.drawn
      · refine .inr ⟨?_, hnew ▸ Nat.lt_succ_self _⟩
        cases hkey : s.key with
        | none => rfl
        | some k => cases c <;> rw [hkey] at hreply <;> cases hreply
      · exact .inl ((Function.update_of_ne hnew _ s.leases) ▸ ht)
    · exact ⟨Nat.le_succ _, (setNx_moves _).run c, fun _ => .inl⟩

theorem releaseLock_moves : Moves new key (releaseLock token key).1 := ifOwner_moves nofun

theorem step_onward (s : State) (st : Step) : Onward s (step s st) := by
  cases st with
  | acquire operation ttlMs interval now c => exact acquire_onward operation ttlMs interval now c
  | enter token =>
    cases hl : s.leases token with
    | none => simp only [step, hl]; exact .refl s
    | some l => simp only [step, hl]; exact .put hl .refl
  | renew token now c =>
    cases hl : s.leases token with
    | none => simp only [step, hl]; exact .refl s
    | some l => simp only [step, hl]; exact .put hl ((ifOwner_moves fun k k' hk => by cases hk; rfl).run c)
  | exit token raised c =>
    cases hl : s.leases token with
    | none => simp only [step, hl]; exact .refl s
    | some l => simp only [step, hl]; exact .put hl (releaseLock_moves.run c)
  | expire => exact ⟨le_rfl, fun k hk => (by cases hk), fun _ => .inl⟩

/-- A release that does not find the lease's token marks the lease lost. -/
theorem holder_of_exit {raised : Bool} (hl : (step s (.exit token raised .answered)).leases token = some l)
    (hexit : l.exit = some .normal) : s.holder = some token := by
  cases hl0 : s.leases token with
  | none => simp [step, hl0] at hl
  | some l0 =>
    simp only [step, hl0, State.put, Function.update_self] at hl
    cases hl
    by_contra hno
    have hzero : (releaseLock token s.key).2 = 0 := by
      cases hkey : s.key with
      | none => rfl
      | some k => exact congrArg Prod.snd (if_neg fun h => hno (holder_eq_some.2 ⟨k, hkey, h⟩))
    cases raised <;> cases hlost : l0.lostReason <;>
      simp [Command.run, Lease.released, hzero, Lease.markLost, hlost] at hexit

theorem ifOwner_other (hne : k.token ≠ token) (c : Command) : (c.run (ifOwner token f) (some k)).1 = some k := by
  have h : ifOwner token f (some k) = (some k, 0) := if_neg hne
  cases c <;> simp only [Command.run, h]

theorem step_other (hst : st.owner = some token) (hk : s.key = some k) (hne : k.token ≠ token) :
    (step s st).key = some k := by
  cases hl : s.leases token with
  | none => cases st <;> cases hst <;> simp only [step, hl] <;> exact hk
  | some l => cases st <;> cases hst <;> simp only [step, hl, hk] <;> exact ifOwner_other hne _

end

section

variable (steps : List Step) (n : ℕ)

theorem onward_at : Onward (stateAt steps n) (stateAt steps (n + 1)) := by
  cases hst : steps[n]? with
  | none =>
    rw [show stateAt steps (n + 1) = stateAt steps n from Run.stateAt_of_length_le hst]
    exact .refl _
  | some st =>
    rw [show stateAt steps (n + 1) = step (stateAt steps n) st from Run.stateAt_succ hst]
    exact step_onward _ st

theorem drawn_of_lease {token : ℕ} (h : (stateAt steps n).leases token ≠ none) : token < (stateAt steps n).drawn := by
  induction n with
  | zero => exact absurd rfl h
  | succ n ih =>
    rcases (onward_at steps n).leases token h with hl | ⟨-, hlt⟩
    · exact (ih hl).trans_le (onward_at steps n).drawn
    · exact hlt

theorem drawn_mono : Monotone fun n => (stateAt steps n).drawn :=
  monotone_nat_of_le_succ fun n => (onward_at steps n).drawn

/-- A token that is gone never comes back. -/
theorem holder_back {token m n : ℕ} (hmn : m ≤ n) (hdrawn : token < (stateAt steps m).drawn)
    (h : (stateAt steps n).holder = some token) : (stateAt steps m).holder = some token := by
  induction hmn with
  | refl => exact h
  | @step n hmn ih =>
    refine ih ?_
    obtain ⟨k, hk, rfl⟩ := holder_eq_some.1 h
    rcases (onward_at steps n).key k hk with ⟨k', hk', heq⟩ | ⟨-, heq⟩
    · exact holder_eq_some.2 ⟨k', hk', heq⟩
    · exact absurd heq (hdrawn.trans_le (drawn_mono steps hmn)).ne

/-- **A lease that ends normally was exclusive throughout**, and a renewal or a release leaves another's key alone. -/
theorem lease_exclusive :
    (∀ (i j token : ℕ) (raised : Bool) (l : Lease), i < j → (stateAt steps i).leases token = none →
      (stateAt steps (i + 1)).leases token ≠ none → steps[j]? = some (.exit token raised .answered) →
      (stateAt steps (j + 1)).leases token = some l → l.exit = some .normal →
      ∀ k, i < k → k ≤ j → (stateAt steps k).holder = some token ∧
        ∀ t, (stateAt steps k).leases t = none → (stateAt steps (k + 1)).leases t = none) ∧
    ∀ (n token : ℕ) (st : Step) (k : Key), steps[n]? = some st → st.owner = some token →
      (stateAt steps n).key = some k → k.token ≠ token → (stateAt steps (n + 1)).key = some k := by
  refine ⟨fun i j token raised l hij _ hsome hst hl hexit k hik hkj => ?_, fun n token st k hst howner hk hne => ?_⟩
  · rw [show stateAt steps (j + 1) = step (stateAt steps j) _ from Run.stateAt_succ hst] at hl
    have hheld : (stateAt steps k).holder = some token := by
      refine holder_back steps hkj ?_ (holder_of_exit hl hexit)
      exact (drawn_of_lease steps (i + 1) hsome).trans_le (drawn_mono steps hik)
    refine ⟨hheld, fun t ht => ?_⟩
    by_contra hnew
    obtain ⟨key, hkey, -⟩ := holder_eq_some.1 hheld
    rcases (onward_at steps k).leases t hnew with hl | ⟨hfree, -⟩
    · exact hl ht
    · rw [hkey] at hfree
      cases hfree
  · rw [show stateAt steps (n + 1) = step (stateAt steps n) st from Run.stateAt_succ hst]
    exact step_other howner hk hne

end

def sampleSteps : List Step :=
  [.acquire "place" 30000 10 0 .answered, .enter 0, .acquire "close" 30000 10 5 .answered,
    .renew 0 10000 .answered, .exit 0 false .answered]

theorem sampleSteps_exclusive : (stateAt sampleSteps 3).holder = some 0 ∧ (stateAt sampleSteps 3).leases 1 = none := by
  have h := (lease_exclusive sampleSteps).1 0 4 0 false ⟨"place", 30000, none, none, some .normal⟩ (by decide) rfl
    (by decide +kernel) rfl (by decide +kernel) rfl
  exact ⟨(h 3 (by decide) (by decide)).1, (h 2 (by decide) (by decide)).2 1 (by decide +kernel)⟩

end Schurfer.OrderLock
