import Schurfer.Lib.GoTime

/-!
# The pause of the open-interest pool

The workers of `PollOpenInterest` share one deadline (`pausedUntilNanos`), which a rate-limited response raises and
which a worker reads before it waits for a token. A worker that reads it after the response was noted keeps to it, if
the deadline has 64 bits (`pause_stops_pool`); one that has read it before does not (`read_before_pause`).
-/

namespace Schurfer.OpenInterest

open GoTime (sub wrap maxDuration)

variable {symbols : List String} {workers : ℕ}

inductive Response
  | reading
  | failed
  | limited (retryAfter : ℤ)

/-- The next step of a worker, with what it has read so far. -/
inductive Pc
  | load
  | compare (read : ℤ)
  | sleep (wake : ℤ)
  | clear (read : ℤ)
  | token
  | request
  | response (symbol : Option String)
  | pause (deadline : ℤ)
  | swap (current deadline : ℤ)
  | stopped
deriving DecidableEq

structure Shared where
  now : ℕ
  tokens : ℕ
  pausedUntilNanos : ℤ := 0
  nextIndex : UInt64 := 0
  cancelled : Bool := false

def turn (symbols : List String) (r : Response) (s : Shared) : Pc → Shared × Pc
  -- waitOutPause
  | .load => (s, if s.pausedUntilNanos = 0 then .token else .compare s.pausedUntilNanos)
  | .compare read =>
    let remaining := sub read s.now
    (s, if remaining ≤ 0 then .clear read else .sleep (s.now + remaining))
  | .sleep wake => (s, if wake ≤ s.now then .load else .sleep wake)
  | .clear read => (if s.pausedUntilNanos = read then { s with pausedUntilNanos := 0 } else s, .token)
  -- limiter.wait and fetchOpenInterest
  | .token => if s.tokens = 0 then (s, .token) else ({ s with tokens := s.tokens - 1 }, .request)
  | .request =>
    let symbol := symbols[(s.nextIndex % symbols.length.toUInt64).toNat]?
    ({ s with nextIndex := s.nextIndex + 1 }, .response symbol)
  | .response _ =>
    match r with
    | .limited retryAfter => (s, .pause (s.now + retryAfter))
    | .reading | .failed => (s, .load)
  -- pauseUntilAtLeast: the deadline as a UnixNano
  | .pause deadline => (s, if wrap deadline ≤ s.pausedUntilNanos then .load else .swap s.pausedUntilNanos deadline)
  | .swap current deadline =>
    if s.pausedUntilNanos = current then ({ s with pausedUntilNanos := wrap deadline }, .load)
    else (s, .pause deadline)
  | .stopped => (s, .stopped)

/-- Where a cancelled context ends the worker. -/
def Pc.ends : Pc → Bool
  | .load | .sleep _ | .token | .response _ => true
  | _ => false

/-- The deadline of the `pauseUntilAtLeast` call the worker is in. -/
def Pc.deadline : Pc → Option ℤ
  | .pause deadline | .swap _ deadline => some deadline
  | _ => none

structure Pool (workers : ℕ) where
  shared : Shared
  pc : Fin workers → Pc := fun _ => .load

inductive Move (workers : ℕ)
  | clock (passed : ℕ)
  | refill
  | cancel
  | work (i : Fin workers) (r : Response)
  | stop (i : Fin workers)

namespace Pool

def step (symbols : List String) (p : Pool workers) : Move workers → Pool workers
  | .clock passed => { p with shared.now := p.shared.now + passed }
  | .refill => { p with shared.tokens := min (max 1 workers) (p.shared.tokens + 1) }
  | .cancel => { p with shared.cancelled := true }
  | .work i r =>
    let next := turn symbols r p.shared (p.pc i)
    ⟨next.1, Function.update p.pc i next.2⟩
  | .stop i => if p.shared.cancelled && (p.pc i).ends then { p with pc := Function.update p.pc i .stopped } else p

def run (symbols : List String) (p : Pool workers) (moves : List (Move workers)) : Pool workers :=
  moves.foldl (step symbols) p

def start (workers now : ℕ) : Pool workers := { shared := { now, tokens := max 1 workers } }

end Pool

def Sound (s : Shared) : Pc → Prop
  | .clear read => read ≤ s.now
  | .swap current deadline => current < wrap deadline
  | _ => True

def Holds (deadline : ℤ) (s : Shared) : Prop := deadline ≤ s.now ∨ deadline ≤ s.pausedUntilNanos

/-- A worker that makes no request before the deadline from here on. -/
def Behind (deadline : ℤ) (s : Shared) : Pc → Prop
  | .compare read => deadline ≤ s.now ∨ deadline ≤ read
  | .clear _ | .token | .request => deadline ≤ s.now
  | _ => True

structure Later (s s' : Shared) : Prop where
  now : s.now ≤ s'.now
  paused : s'.pausedUntilNanos = 0 ∧ s.pausedUntilNanos ≤ s.now ∨ s.pausedUntilNanos ≤ s'.pausedUntilNanos

variable {s s' : Shared} {pc : Pc} {p : Pool workers} {deadline : ℤ}

theorem Later.same (hnow : s.now ≤ s'.now) (h : s.pausedUntilNanos = s'.pausedUntilNanos) : Later s s' :=
  ⟨hnow, .inr h.le⟩

theorem Later.holds (h : Later s s') (hd : Holds deadline s) : Holds deadline s' := by
  obtain ⟨hnow, hpaused⟩ := h
  unfold Holds at *
  omega

theorem Later.sound (h : Later s s') (hs : Sound s pc) : Sound s' pc := by
  have hnow := h.now
  cases pc <;> simp only [Sound] at hs ⊢ <;> omega

theorem Later.behind (h : Later s s') (hb : Behind deadline s pc) : Behind deadline s' pc := by
  have hnow := h.now
  cases pc <;> simp only [Behind] at hb ⊢ <;> omega

theorem turn_later (r : Response) (hs : Sound s pc) : Later s (turn symbols r s pc).1 := by
  cases pc with
  | clear =>
    simp only [turn]
    split
    · exact ⟨le_rfl, .inl ⟨rfl, ‹s.pausedUntilNanos = _› ▸ hs⟩⟩
    · exact .same le_rfl rfl
  | swap =>
    simp only [turn]
    split
    · exact ⟨le_rfl, .inr (‹s.pausedUntilNanos = _› ▸ hs.le)⟩
    · exact .same le_rfl rfl
  | token | response =>
    simp only [turn]
    split <;> exact .same le_rfl rfl
  | _ => exact .same le_rfl rfl

theorem le_of_sub_nonpos {t u : ℤ} (h : sub t u ≤ 0) : t ≤ u := by
  simp only [sub, GoTime.minDuration, GoTime.maxDuration] at h
  omega

theorem turn_sound (r : Response) (s : Shared) (pc : Pc) : Sound (turn symbols r s pc).1 (turn symbols r s pc).2 := by
  cases pc <;> simp only [turn] <;> repeat' split
  all_goals first | trivial | exact le_of_sub_nonpos ‹_› | exact not_le.1 ‹_›

theorem turn_behind (r : Response) (hd : Holds deadline s) (hb : Behind deadline s pc) :
    Behind deadline (turn symbols r s pc).1 (turn symbols r s pc).2 := by
  cases pc with
  | load =>
    simp only [turn]
    split
    · simp only [Holds] at hd
      simp only [Behind]
      omega
    · exact hd
  | compare read =>
    simp only [turn]
    split
    · exact hb.elim id fun hread => hread.trans (le_of_sub_nonpos ‹_›)
    · trivial
  | clear | token =>
    simp only [turn]
    split <;> exact hb
  | _ =>
    simp only [turn]
    repeat' split
    all_goals trivial

theorem holds_of_wrap (hfits : deadline ≤ maxDuration) (h : wrap deadline ≤ s.pausedUntilNanos) : Holds deadline s := by
  by_cases hpast : deadline ≤ s.now
  · exact .inl hpast
  · rw [GoTime.wrap_eq (by unfold GoTime.minDuration; omega) hfits] at h
    exact .inr h

/-- The deadline of a call that returns is kept in the pool. -/
theorem turn_returns (r : Response) (hcall : pc.deadline = some deadline) (hfits : deadline ≤ maxDuration)
    (hload : (turn symbols r s pc).2 = .load) : Holds deadline (turn symbols r s pc).1 := by
  cases pc with
  | pause =>
    cases hcall
    simp only [turn] at hload
    split at hload
    · exact holds_of_wrap hfits ‹_›
    · cases hload
  | swap =>
    cases hcall
    simp only [turn] at hload ⊢
    split at hload
    · exact holds_of_wrap hfits (by simp [*])
    · cases hload
  | _ => cases hcall

namespace Pool

protected def Sound (p : Pool workers) : Prop := ∀ i, OpenInterest.Sound p.shared (p.pc i)

theorem step_later (hs : p.Sound) (m : Move workers) : Later p.shared (p.step symbols m).shared := by
  cases m with
  | clock | refill | cancel => exact .same (by simp [step]) rfl
  | work i r => exact turn_later r (hs i)
  | stop i =>
    simp only [step]
    split <;> exact .same le_rfl rfl

/-- What holds of a worker's place and outlasts the others' steps holds after any step. -/
theorem step_each {Q : Shared → Pc → Prop} (hs : p.Sound)
    (hlater : ∀ {s' pc}, Later p.shared s' → Q p.shared pc → Q s' pc)
    (hturn : ∀ {pc} r, Q p.shared pc → Q (turn symbols r p.shared pc).1 (turn symbols r p.shared pc).2)
    (hstop : Q p.shared .stopped) {i : Fin workers} (hq : Q p.shared (p.pc i)) (m : Move workers) :
    Q (p.step symbols m).shared ((p.step symbols m).pc i) := by
  have hlate : Later p.shared (p.step symbols m).shared := step_later hs m
  cases m with
  | clock | refill | cancel => exact hlater hlate hq
  | work j r =>
    by_cases hij : i = j
    · subst hij
      simpa [step] using hturn r hq
    · simpa [step, hij] using hlater hlate hq
  | stop j =>
    simp only [step]
    split
    · by_cases hij : i = j
      · simpa [hij] using hstop
      · simpa [hij] using hq
    · exact hq

theorem step_sound (hs : p.Sound) (m : Move workers) : (p.step symbols m).Sound := fun i =>
  step_each hs Later.sound (fun r _ => turn_sound r _ _) trivial (hs i) m

structure Holding (deadline : ℤ) (p : Pool workers) : Prop where
  sound : p.Sound
  holds : Holds deadline p.shared

theorem Holding.step (h : Holding deadline p) (m : Move workers) : Holding deadline (p.step symbols m) :=
  ⟨step_sound h.sound m, (step_later h.sound m).holds h.holds⟩

theorem Holding.run (h : Holding deadline p) (moves : List (Move workers)) : Holding deadline (p.run symbols moves) :=
  List.foldlRecOn moves _ h fun _ hp m _ => hp.step m

theorem Holding.run_behind (h : Holding deadline p) {i : Fin workers} (hb : Behind deadline p.shared (p.pc i))
    (moves : List (Move workers)) :
    Behind deadline (p.run symbols moves).shared ((p.run symbols moves).pc i) := by
  induction moves generalizing p with
  | nil => exact hb
  | cons m moves ih =>
    exact ih (h.step m) (step_each h.sound Later.behind (fun r => turn_behind r h.holds) trivial hb m)

end Pool

open Pool

/-- **A rate-limit pause stops the pool**: once a `pauseUntilAtLeast` call for a deadline has returned, a worker that
reads the pause from then on starts no request before it. No step replaces the pause by an earlier one. -/
theorem pause_stops_pool (symbols : List String) (workers now : ℕ) (moves : List (Move workers)) :
    let p := (start workers now).run symbols moves
    (∀ i r deadline, (p.pc i).deadline = some deadline → deadline ≤ maxDuration →
      (p.step symbols (.work i r)).pc i = .load →
      ∀ later later' j, let read := (p.step symbols (.work i r)).run symbols later
        let p' := read.run symbols later'
        read.pc j = .load → p'.pc j = .request → deadline ≤ p'.shared.now) ∧
    ∀ m, (p.step symbols m).shared.pausedUntilNanos = 0 ∨
      p.shared.pausedUntilNanos ≤ (p.step symbols m).shared.pausedUntilNanos := by
  intro p
  have hsound : p.Sound := List.foldlRecOn moves _ (fun _ => trivial) fun _ hs m _ => step_sound hs m
  constructor
  · intro i r deadline hcall hfits hreturned later later' j read p' hload hrequest
    have hholding : Holding deadline (p.step symbols (.work i r)) :=
      ⟨step_sound hsound _, turn_returns r hcall hfits (by simpa [step] using hreturned)⟩
    have hbehind : Behind deadline p'.shared (p'.pc j) :=
      (hholding.run later).run_behind (by rw [hload]; trivial) later'
    rwa [hrequest] at hbehind
  · exact fun m => (step_later hsound m).paused.imp And.left id

/-- The worker is limited, and its call for the deadline 10 is about to return. -/
def sampleCall {workers : ℕ} (i : Fin workers) : List (Move workers) :=
  [.work i .reading, .work i .reading, .work i .reading, .work i (.limited 10), .work i .reading]

/-- The worker reads the pause, sleeps it out and takes a token. -/
def sampleWait {workers : ℕ} (i : Fin workers) : List (Move workers) :=
  [.work i .reading, .work i .reading, .clock 10] ++ List.replicate 5 (.work i .reading)

theorem sampleWait_paused :
    let paused := ((start 2 0).run ["BTC", "ETH"] (sampleCall 0)).step ["BTC", "ETH"] (.work 0 .reading)
    let p' := paused.run ["BTC", "ETH"] (sampleWait 1)
    paused.pc 0 = .load ∧ p'.pc 1 = .request ∧ 10 ≤ p'.shared.now := by
  refine ⟨by decide +kernel, by decide +kernel, ?_⟩
  have hpaused := (pause_stops_pool ["BTC", "ETH"] 2 0 (sampleCall 0)).1 0 .reading 10 (by decide +kernel)
    (by decide +kernel) (by decide +kernel) [] (sampleWait 1) 1 (by decide +kernel) (by decide +kernel)
  exact_mod_cast hpaused

/-- The second worker has read the deadline and waits for a token while the first one notes a pause of 10. -/
theorem read_before_pause :
    let p := (start 2 0).run ["BTC", "ETH"] (.work 1 .reading :: sampleCall 0)
    let paused := p.step ["BTC", "ETH"] (.work 0 .reading)
    let p' := paused.step ["BTC", "ETH"] (.work 1 .reading)
    (p.pc 0).deadline = some 10 ∧ paused.pc 0 = .load ∧ p'.pc 1 = .request ∧ p'.shared.now = 0 := by
  decide +kernel

end Schurfer.OpenInterest
