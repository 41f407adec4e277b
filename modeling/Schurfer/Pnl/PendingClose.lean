import Schurfer.Pnl.Admission

/-!
# Closes that wait for the journal

A close that is not yet in the journal is kept as a marker in Redis, and the lease is revoked. A tick has a *gap* from
the moment it writes its lease to its second scan for markers, and a close from the moment it writes its marker to its
revoke. A lease and a marker stand side by side only while somebody is in a gap.
-/

namespace Schurfer.Pnl.Pending

open Threads

variable {c : Pnl.Chance} {α β : Type} {o : Pnl.Op} {i : ℕ} (journal : Journal)

structure PendingClose where
  exchange : String
  base : String
  tradeId : ℕ
  exitOrderId : Option String
  exitPrice : ℚ
  reason : String
  executedAt : Option Time
  executionTimeSource : Option String

abbrev MarkerKey := String × String × ℕ

def PendingClose.key (close : PendingClose) : MarkerKey := (close.exchange, close.base, close.tradeId)

inductive Op
  | pnl (o : Pnl.Op)
  | closeTrade (close : PendingClose)
  | getMarker (key : MarkerKey)
  | setMarker (close : PendingClose)
  | deleteMarker (key : MarkerKey)

abbrev Ans : Op → Type
  | .pnl o => Pnl.Ans o
  | .closeTrade _ => Bool
  | .getMarker _ => Option PendingClose
  | .setMarker _ => Unit
  | .deleteMarker _ => Unit

abbrev Program := Prog Failure Op Ans

def call (o : Op) : Program (Ans o) := Prog.perform o

def lift {α : Type} (p : Pnl.Program α) : Program α := p.interpret fun o => call (.pnl o)

def revokePnlReadiness : Program Unit := call (.pnl .deleteLease)

def writePendingClose (close : PendingClose) : Program Unit := do
  call (.setMarker close)
  revokePnlReadiness

def tryCommitClose (close : PendingClose) : Program Bool := do
  revokePnlReadiness
  let committed ← call (.closeTrade close)
  if committed then call (.deleteMarker close.key)
  else writePendingClose close
  return committed

def retryOnePendingClose (key : MarkerKey) : Program Unit := do
  let raw ← call (.getMarker key)
  match raw with
  | none => return
  | some data =>
    let _ ← tryCommitClose { data with exchange := key.1, base := key.2.1 }
    return

/-- `gaps` are the threads that wrote a lease and have not looked for markers since, or wrote a
marker and have not revoked the lease since. Nothing decides on it. -/
structure State where
  pnl : Pnl.State
  markers : List PendingClose
  gaps : Finset ℕ

structure Chance extends Pnl.Chance where
  pnlUsd : Option ℚ
  costsComplete : Bool
  now : Time

def closedAccounting (version : AccountingVersion) (costsComplete : Bool) : AccountingStatus :=
  match version with
  | .paperConservativeCostsV1 => if costsComplete then .complete else .incomplete
  | .liveExchangeCostsV1 => .pending
  | .legacyPriceOnlyV1 => .legacy

def closedRow (close : PendingClose) (c : Chance) (row : TradeRow) : TradeRow :=
  { row with
    status := .closed
    pnlUsd := c.pnlUsd
    accountingStatus := closedAccounting row.accountingVersion c.costsComplete
    exitAt := some (close.executedAt.getD c.now) }

def closeTradeIn (s : Pnl.State) (close : PendingClose) (c : Chance) : Bool × Pnl.State :=
  match s.journal.trades.find? (·.id = close.tradeId) with
  | none => (false, s)
  | some row =>
    match row.status with
    | .closed => (true, s)
    | .cancelled => (false, s)
    | .open => (true, s.happens (.commit [.updateTrade (closedRow close c row)]))

def gapsAfter (i : ℕ) (gaps : Finset ℕ) : (o : Pnl.Op) → Except Failure (Pnl.Ans o) → Finset ℕ
  | .setLease lease _, _ => if lease.generation = none then gaps else insert i gaps
  | .anyPendingCloses, .ok false => gaps.erase i
  | .deleteLease, .ok _ => gaps.erase i
  | _, _ => gaps

def wroteMarkers (c : Chance) (s s' : State) : Except Failure Unit × State :=
  if c.raises then (.error .raised, if c.applied then s' else s) else (.ok (), s')

def answer (i : ℕ) (s : State) : (o : Op) → Chance → Except Failure (Ans o) × State
  | .pnl o, c =>
    let out := Pnl.answer s.pnl o { c.toChance with pending := s.markers ≠ [] }
    (out.1, { s with pnl := out.2, gaps := gapsAfter i s.gaps o out.1 })
  | .closeTrade close, c =>
    let out := closeTradeIn s.pnl close c
    -- without an acknowledgement the caller takes it for uncommitted
    if c.raises then (.ok false, if c.applied then { s with pnl := out.2 } else s)
    else (.ok out.1, { s with pnl := out.2 })
  | .getMarker key, c => (if c.raises then .error .raised else .ok (s.markers.find? (·.key = key)), s)
  | .setMarker close, c =>
    wroteMarkers c s
      { s with markers := close :: s.markers.filter (·.key ≠ close.key), gaps := insert i s.gaps }
  | .deleteMarker key, c => wroteMarkers c s { s with markers := s.markers.filter (·.key ≠ key) }

inductive Event
  | pnl (e : Pnl.Event)
  | expireMarker (key : MarkerKey)

def State.happens (s : State) : Event → State
  | .pnl e => { s with pnl := s.pnl.happens e }
  | .expireMarker key => { s with markers := s.markers.filter (·.key ≠ key) }

def world : World State Failure Op Ans Chance Event where
  answer := answer
  env := State.happens
  crash _ s := s

inductive Job
  | pnl (job : Pnl.Job)
  | close (close : PendingClose)
  | retry (key : MarkerKey)

variable (moves : List (Move Job Chance Event))

def Job.program : Job → Program (Option RiskCheck)
  | .pnl job => lift job.program
  | .close data => do
    let _ ← tryCommitClose data
    return none
  | .retry key => do
    retryOnePendingClose key
    return none

def State.Armed (s : State) : Prop :=
  ∃ lease, LeaseText.decode s.pnl.lease = some lease ∧ lease.generation ≠ none

/-- A lease and a marker only while somebody is in a gap. Nobody enters or leaves another's gap. -/
def contract : Contract State Failure Op Ans Job where
  inv s := s.Armed → s.markers ≠ [] → s.gaps.Nonempty
  rely i s s' := i ∈ s'.gaps ↔ i ∈ s.gaps
  pre _ _ _ _ _ := True

section

variable {i j : ℕ} {s : State}

theorem not_armed_none (h : s.pnl.lease = none) : ¬ s.Armed := by
  rintro ⟨lease, hls, -⟩
  rw [h] at hls
  cases hls

theorem armed_of_answer {markers : List PendingClose} {gaps : Finset ℕ}
    (hset : ∀ lease origin, o = .setLease lease origin → lease.generation = none)
    (h : (⟨(Pnl.answer s.pnl o c).2, markers, gaps⟩ : State).Armed) : s.Armed := by
  obtain ⟨lease, hls, hgen⟩ := h
  cases o with
  | setLease written origin =>
    rcases answer_setLease s.pnl written origin c with hsame | hnew
    · exact ⟨lease, by rw [← hls, hsame], hgen⟩
    · rw [hnew] at hls
      obtain rfl : written = lease := Option.some.inj hls
      exact absurd (hset written origin rfl) hgen
  | deleteLease =>
    simp only [Pnl.answer, wrote] at hls
    split at hls
    · split at hls
      · cases hls
      · exact ⟨lease, hls, hgen⟩
    · cases hls
  | setDailyPnl value =>
    simp only [Pnl.answer, wrote] at hls
    split at hls
    · split at hls <;> exact ⟨lease, hls, hgen⟩
    · exact ⟨lease, hls, hgen⟩
  | _ => exact ⟨lease, hls, hgen⟩

theorem deleteLease_ok {s : Pnl.State} {u : Unit}
    (h : (Pnl.answer s .deleteLease c).1 = .ok u) : (Pnl.answer s .deleteLease c).2.lease = none := by
  simp only [Pnl.answer, wrote] at h ⊢
  split at h
  · cases h
  · rename_i hrs
    rw [if_neg hrs]

theorem anyPendingCloses_ok {s : Pnl.State} {pending : Bool}
    (h : (Pnl.answer s .anyPendingCloses c).1 = .ok pending) : c.pending = pending := by
  simp only [Pnl.answer, readAs] at h
  split at h
  · cases h
  · exact Except.ok.inj h

theorem inv_pnl (hinv : contract.inv s) (o : Pnl.Op) (c : Chance) : contract.inv (answer i s (.pnl o) c).2 := by
  intro har hmr
  have hkp : (∀ lease origin, o = .setLease lease origin → lease.generation = none) → s.gaps.Nonempty :=
    fun hset => hinv (armed_of_answer hset har) hmr
  simp only [answer] at har hmr ⊢
  unfold gapsAfter
  split
  · rename_i lease origin r
    split
    · rename_i hgen
      exact hkp fun lease' origin' heq => by cases heq; exact hgen
    · exact Finset.insert_nonempty i s.gaps
  · rename_i hsc
    have hno := anyPendingCloses_ok hsc
    exact absurd hmr (by simpa using hno)
  · rename_i u hdl
    exact absurd har (not_armed_none (deleteLease_ok hdl))
  · rename_i hoth _ _
    exact hkp fun lease origin heq => by subst heq; exact (hoth lease origin _ rfl HEq.rfl).elim

theorem mem_gapsAfter (hj : j ≠ i) (gaps : Finset ℕ) (o : Pnl.Op) (r : Except Failure (Pnl.Ans o)) :
    j ∈ gapsAfter i gaps o r ↔ j ∈ gaps := by
  unfold gapsAfter
  split
  · split
    · rfl
    · simp [hj]
  · simp [hj]
  · simp [hj]
  · rfl

theorem wroteMarkers_state {P : State → Prop} {s' : State} (hs : P s) (hs' : P s') (c : Chance) :
    P (wroteMarkers c s s').2 := by
  unfold wroteMarkers
  split
  · split
    · exact hs'
    · exact hs
  · exact hs'

theorem closeTradeIn_lease (s : Pnl.State) (close : PendingClose) (c : Chance) :
    (closeTradeIn s close c).2.lease = s.lease := by
  unfold closeTradeIn
  split
  · rfl
  · split
    · rfl
    · rfl
    · simp only [Pnl.State.happens]
      split
      · split <;> rfl
      · rfl

theorem kept : Kept world contract fun _ => False where
  refl _ _ := Iff.rfl
  trans _ _ _ _ h h' := h'.trans h
  own _ _ _ _ _ _ hown := hown.elim
  keeps i _ _ s o c hinv _ := by
    cases o with
    | pnl o => exact ⟨inv_pnl hinv o c, fun j hj => mem_gapsAfter hj s.gaps o _⟩
    | closeTrade close =>
      have hclosed : contract.inv { s with pnl := (closeTradeIn s.pnl close c).2 } := by
        rintro ⟨lease, hdc, hgen⟩
        exact hinv ⟨lease, by rw [← hdc, closeTradeIn_lease], hgen⟩
      simp only [world, answer]
      split
      · split
        · exact ⟨hclosed, fun _ _ => Iff.rfl⟩
        · exact ⟨hinv, fun _ _ => Iff.rfl⟩
      · exact ⟨hclosed, fun _ _ => Iff.rfl⟩
    | getMarker => exact ⟨hinv, fun _ _ => Iff.rfl⟩
    | setMarker close =>
      refine wroteMarkers_state (P := fun s' => contract.inv s' ∧ ∀ j, j ≠ i → contract.rely j s s')
        ⟨hinv, fun _ _ => Iff.rfl⟩ ⟨fun _ _ => Finset.insert_nonempty i s.gaps, fun j hj => ?_⟩ c
      exact Finset.mem_insert.trans (or_iff_right hj)
    | deleteMarker key =>
      have hdeleted : contract.inv { s with markers := s.markers.filter (·.key ≠ key) } := by
        refine fun har hmr => hinv har fun hnil => hmr ?_
        simp [hnil]
      exact wroteMarkers_state (P := fun s' => contract.inv s' ∧ ∀ j, j ≠ i → contract.rely j s s')
        ⟨hinv, fun _ _ => Iff.rfl⟩ ⟨hdeleted, fun _ _ => Iff.rfl⟩ c

end

@[simp] theorem lift_bind (p : Pnl.Program α) (f : α → Pnl.Program β) :
    lift (p >>= f) = lift p >>= fun a => lift (f a) := Prog.interpret_bind p f

@[simp] theorem lift_ret (a : α) : lift (.ret a : Pnl.Program α) = .ret a := rfl

abbrev History := List (Call State Failure Op Ans)

def leaseRead (history : History) : Option State :=
  (history.find? fun c => match c.op with
    | .pnl .getLease => true
    | _ => false).map (·.before)

def Cleared (history : History) (r : Except Failure (Option RiskCheck)) : Prop :=
  ∀ check, r = .ok (some check) → check.allowed = true →
    ∃ read, leaseRead history = some read ∧ (read.gaps = ∅ → read.markers = [])

def Outside {α : Type} (i : ℕ) (_ : History) (s : State) (r : Except Failure α) : Prop :=
  ∀ x, r = .ok x → i ∉ s.gaps

section

variable {i : ℕ} {job : Job} {h : History} {s : State}

theorem Lifted.safe {post : Post State Failure Op Ans (Pnl.Ans o)}
    (hca : Safe world contract i job post (call (.pnl o)) h s) :
    Safe world contract i job post (lift (Pnl.call o)) h s := by
  have heq : lift (Pnl.call o) = call (.pnl o) := Prog.interpret_perform o
  rw [heq]
  exact hca

theorem safe_any {post : Post State Failure Op Ans α}
    (hps : ∀ h' s' r, post h' s' r) (p : Program α) : Safe world contract i job post p h s := by
  induction p generalizing h s with
  | ret a => exact hps h s (.ok a)
  | raise e => exact hps h s (.error e)
  | call o k ih =>
    intro s1 _ hinv
    refine ⟨trivial, fun c => ?_⟩
    obtain ⟨hinv', hoh⟩ := kept.keeps i job h s1 o c hinv trivial
    exact ⟨hinv', hoh, ih _⟩

theorem outside_after (p : Program α) {f : α → Program β}
    (hf : ∀ a h' s', Safe world contract i job (Outside i) (f a) h' s') :
    Safe world contract i job (Outside i) (p >>= f) h s := by
  refine .bind (safe_any (fun h' s' r => ?_) p)
  cases r with
  | error => simp [Outside]
  | ok a => exact hf a h' s'

theorem outside_revoke : Safe world contract i job (Outside i) revokePnlReadiness h s := by
  refine kept.perform fun s1 _ _ => ⟨trivial, fun c _ => ?_⟩
  intro u hok
  simp only [world, answer] at hok ⊢
  rw [hok]
  exact Finset.notMem_erase i s1.gaps

theorem outside_scan : Safe world contract i job (fun _ s' r => r = .ok false → i ∉ s'.gaps)
    (call (.pnl .anyPendingCloses)) h s := by
  refine kept.perform fun s1 _ _ => ⟨trivial, fun c _ => ?_⟩
  intro hok
  simp only [world, answer] at hok ⊢
  rw [hok]
  exact Finset.notMem_erase i s1.gaps

theorem outside_generation (hs : i ∉ s.gaps) : Safe world contract i job (fun _ s' _ => i ∉ s'.gaps)
    (call (.pnl .pnlGeneration)) h s :=
  kept.perform fun _ hrl _ => ⟨trivial, fun _ _ hmem => hs (hrl.1 hmem)⟩

theorem outside_publish (origin : Origin) (unrealized : ℚ) :
    Safe world contract i job (Outside i) (lift (publish true (some origin) unrealized)) h s := by
  simp only [publish, lift_bind, if_true]
  refine outside_after _ fun _ h1 s1 => outside_after _ fun _ h2 s2 => ?_
  refine .bind (Safe.mono (fun h3 s3 r hsc => ?_) (Lifted.safe outside_scan))
  cases r with
  | error => simp [Outside]
  | ok pending =>
  cases pending with
  | true => exact Lifted.safe outside_revoke
  | false =>
  simp only [Bool.false_eq_true, if_false, lift_bind]
  refine .bind (Safe.mono (fun h4 s4 r hgen => ?_) (Lifted.safe <| outside_generation (hsc rfl)))
  cases r with
  | error => simp [Outside]
  | ok current =>
  simp only
  split
  · exact Lifted.safe outside_revoke
  · exact fun _ _ => hgen

theorem outside_tick : Safe world contract i job (Outside i) (lift (tick true)) h s := by
  simp only [tick, lift_bind]
  refine outside_after _ fun found h1 s1 => ?_
  obtain ⟨positions, failed⟩ := found
  simp only [Bool.true_eq_false, if_false]
  split
  · exact Lifted.safe outside_revoke
  simp only [lift_bind]
  refine outside_after _ fun snapshot h2 s2 => ?_
  cases snapshot with
  | none => exact Lifted.safe outside_revoke
  | some origin =>
  simp only [lift_bind]
  refine outside_after _ fun pending h3 s3 => ?_
  cases pending with
  | true => exact Lifted.safe outside_revoke
  | false =>
  simp only [Bool.false_eq_true, if_false]
  split
  · exact Lifted.safe outside_revoke
  · exact outside_publish origin positions.sum

theorem outside_tryCommitClose (close : PendingClose) :
    Safe world contract i job (Outside i) (tryCommitClose close) h s := by
  refine .bind (.mono (fun h1 s1 r hot => ?_) outside_revoke)
  cases r with
  | error => simp [Outside]
  | ok _ =>
  have hs1 : i ∉ s1.gaps := hot () rfl
  refine .bind (kept.perform fun s2 hrl _ => ⟨trivial, fun c _ => ?_⟩)
  have hs2 : i ∉ (world.answer i s2 (.closeTrade close) c).2.gaps := by
    have hgp : (world.answer i s2 (.closeTrade close) c).2.gaps = s2.gaps := by
      simp only [world, answer]
      split
      · split <;> rfl
      · rfl
    rw [hgp]
    exact fun hmem => hs1 (hrl.1 hmem)
  generalize (world.answer i s2 (.closeTrade close) c).2 = s3 at hs2
  cases (world.answer i s2 (.closeTrade close) c).1 with
  | error => simp [Outside]
  | ok committed =>
  cases committed with
  | true =>
    -- removing the marker touches no gap
    refine .bind (kept.perform fun s4 hrl _ => ⟨trivial, fun c _ => ?_⟩)
    have hs4 : i ∉ (world.answer i s4 (.deleteMarker close.key) c).2.gaps := by
      have hgp : i ∉ s4.gaps := fun hmem => hs2 (hrl.1 hmem)
      refine wroteMarkers_state (P := fun s' => i ∉ s'.gaps) hgp ?_ c
      exact hgp
    cases (world.answer i s4 (.deleteMarker close.key) c).1 with
    | error => simp [Outside]
    | ok _ => exact fun _ _ => hs4
  | false =>
    refine .bind (.bind (safe_any (fun h4 s4 r => ?_) _))
    cases r with
    | error => simp [Outside]
    | ok _ =>
    refine .mono (fun h5 s5 r hot => ?_) outside_revoke
    cases r with
    | error => simp [Outside]
    | ok _ => exact fun _ _ => hot () rfl

theorem cleared_check (limit : ℚ) : Safe world contract i job (fun h' _ r => Cleared h' r)
    (lift (Pnl.Job.program (.check true limit))) [] s := by
  simp only [Pnl.Job.program, pnlAdmitsEntry, map_eq_pure_bind, bind_assoc, if_true, lift_bind]
  refine .bind (Lifted.safe <| kept.perform fun s1 _ hinv => ⟨trivial, fun c _ => ?_⟩)
  cases hrd : (world.answer i s1 (.pnl .getLease) c).1 with
  | error => exact nofun
  | ok text =>
  have hte : text = s1.pnl.lease := by
    simp only [world, answer, Pnl.answer, readAs] at hrd
    split at hrd
    · cases hrd
    · exact (Except.ok.inj hrd).symm
  refine .bind (Lifted.safe <| kept.perform fun s2 _ _ => ⟨trivial, fun c2 _ => ?_⟩)
  cases (world.answer i s2 (.pnl .pnlGeneration) c2).1 with
  | error => exact nofun
  | ok current =>
  intro check hr hal
  cases hr
  obtain ⟨l, generation, hl, hlg, -⟩ := leaseAdmits_allowed hal
  have har : s1.Armed := ⟨l, by rw [← hte]; exact hl, by rw [hlg]; simp⟩
  refine ⟨s1, rfl, fun hgp => ?_⟩
  by_contra hmr
  have hnn := hinv har hmr
  rw [hgp] at hnn
  exact Finset.not_nonempty_empty hnn

end

def Job.hasGap : Job → Bool
  | .pnl (.tick true) => true
  | .close _ => true
  | _ => false

def outcome (i : ℕ) (job : Job) (history : History) (s : State) (r : Except Failure (Option RiskCheck)) : Prop :=
  ((∃ limit, job = .pnl (.check true limit)) → Cleared history r) ∧ (job.hasGap = true → Outside i history s r)

theorem outcome_outside {job : Job} {h : History} {s : State}
    {r : Except Failure (Option RiskCheck)} (hch : ∀ limit, job ≠ .pnl (.check true limit))
    (hot : job.hasGap = true → Outside i h s r) : outcome i job h s r :=
  ⟨fun hjob => absurd hjob (not_exists.2 hch), hot⟩

theorem contract_sound : Sound world Job.program contract outcome where
  refl := kept.refl
  trans := kept.trans
  env s e hinv := by
    refine ⟨?_, fun i => ?_⟩
    · cases e with
      | pnl e =>
        rintro ⟨lease, hls, hgen⟩ hmr
        refine hinv ⟨lease, ?_, hgen⟩ hmr
        cases e with
        | commit changes =>
          rw [← hls]
          simp only [world, State.happens, Pnl.State.happens]
          split
          · split <;> rfl
          · rfl
        | loseLease | garbleLease => cases hls
      | expireMarker key =>
        intro har hmr
        refine hinv har fun hnil => hmr ?_
        simp [world, State.happens, hnil]
    · cases e <;> exact Iff.rfl
  crash _ _ hinv := ⟨hinv, fun _ _ => Iff.rfl⟩
  start i job s _ := by
    cases job with
    | pnl job =>
      cases job with
      | tick database =>
        cases database with
        | false =>
          exact safe_any (fun _ _ _ => outcome_outside (fun _ heq => by cases heq) fun hgap => by cases hgap) _
        | true =>
          simp only [Job.program, Pnl.Job.program, lift_bind]
          refine .bind (.mono (fun h s r hot => ?_) outside_tick)
          cases r with
          | error => exact outcome_outside (fun _ heq => by cases heq) fun _ _ heq => by cases heq
          | ok _ => exact outcome_outside (fun _ heq => by cases heq) fun _ _ _ => hot () rfl
      | check database limit =>
        cases database with
        | false =>
          exact safe_any (fun _ _ _ => outcome_outside (fun _ heq => by cases heq) fun hgap => by cases hgap) _
        | true =>
          refine .mono (fun h s r hcl => ⟨fun _ => hcl, fun hgap => ?_⟩) (cleared_check limit)
          cases hgap
    | close data =>
      refine .bind (.mono (fun h s r hot => ?_) (outside_tryCommitClose data))
      cases r with
      | error => exact outcome_outside (fun _ heq => by cases heq) fun _ _ heq => by cases heq
      | ok committed => exact outcome_outside (fun _ heq => by cases heq) fun _ _ _ => hot committed rfl
    | retry key =>
      exact safe_any (fun _ _ _ => outcome_outside (fun _ heq => by cases heq) fun hgap => by cases hgap) _

def runFrom (journal : Journal) (moves : List (Move Job Chance Event)) :
    Config State Failure Op Ans Job (Option RiskCheck) :=
  Config.run world Job.program ⟨⟨⟨journal, none, none⟩, [], ∅⟩, []⟩ moves

def admitted (cfg : Config State Failure Op Ans Job (Option RiskCheck)) (i : ℕ) : Bool :=
  match cfg.threads[i]? with
  | some ⟨.pnl (.check true _), _, some (.ret (some check))⟩ => check.allowed
  | _ => false

theorem runFrom_ok : ConfigOk world contract outcome (runFrom journal moves) :=
  contract_sound.reached (fun _ hmr => absurd rfl hmr) moves

/-- **No entry is admitted while a confirmed close waits for the journal**, unless the lease was read while a tick had
not yet looked for markers again, or a close had not yet revoked the lease. -/
theorem pending_close_refuses (journal : Journal) (moves : List (Move Job Chance Event)) (i : ℕ)
    (thread : Thread State Failure Op Ans Job (Option RiskCheck)) (read : State)
    (hthread : (runFrom journal moves).threads[i]? = some thread)
    (hread : leaseRead thread.history = some read) (hgaps : read.gaps = ∅) (hmarker : read.markers ≠ []) :
    admitted (runFrom journal moves) i = false := by
  by_contra hadmitted
  rw [Bool.not_eq_false] at hadmitted
  unfold admitted at hadmitted
  split at hadmitted
  · rename_i limit history check hcheck
    obtain ⟨s0, -, hsafe⟩ := ((runFrom_ok journal moves).threads i _ hcheck).safe _ rfl
    obtain ⟨read', hread', hclear⟩ := hsafe.1 ⟨limit, rfl⟩ check rfl hadmitted
    rw [hcheck] at hthread
    cases hthread
    rw [hread] at hread'
    cases hread'
    exact hmarker (hclear hgaps)
  · cases hadmitted

def readWith (P : State → Bool) (cfg : Config State Failure Op Ans Job (Option RiskCheck)) (i : ℕ) : Bool :=
  (cfg.threads[i]?.bind fun thread => leaseRead thread.history).any P

theorem exists_of_readWith {P : State → Bool} {cfg : Config State Failure Op Ans Job (Option RiskCheck)}
    (h : readWith P cfg i = true) : ∃ thread read, cfg.threads[i]? = some thread ∧
      leaseRead thread.history = some read ∧ P read = true := by
  obtain ⟨read, hbn, hP⟩ := (Option.any_eq_true _ _).1 h
  obtain ⟨thread, hthread, hrd⟩ := Option.bind_eq_some_iff.1 hbn
  exact ⟨thread, read, hthread, hrd, hP⟩

/-! Two runs with one open trade whose close cannot be committed. -/

def openJournal : Journal where
  trades := [⟨⟨.open, none, .liveExchangeCostsV1, .pending⟩, 1, none, none⟩]
  closeFills := []
  incidents := []
  generation := 4
  constraints := by decide

def stoppedOut : PendingClose where
  exchange := "bybit"
  base := "BTC"
  tradeId := 1
  exitOrderId := some "c1"
  exitPrice := 95
  reason := "stop_loss"
  executedAt := some (seconds 60)
  executionTimeSource := some "exchange"

def answered : Chance := { sampleChance with pnlUsd := some (-5), costsComplete := true, now := seconds 61 }

def unanswered : Chance := { answered with raises := true, applied := false }

def failedClose (i : ℕ) : List (Move Job Chance Event) :=
  [.call i answered, .call i unanswered, .call i answered, .call i answered]

def refusedMoves : List (Move Job Chance Event) :=
  .start (.pnl (.tick true)) :: List.replicate 7 (.call 0 answered) ++ .start (.close stoppedOut) ::
    failedClose 1 ++ [.start (.pnl (.check true 50)), .call 2 answered, .call 2 answered]

theorem refusedMoves_refuses : ∃ thread read,
    (runFrom openJournal refusedMoves).threads[2]? = some thread ∧ leaseRead thread.history = some read ∧
      read.gaps = ∅ ∧ read.markers ≠ [] ∧ admitted (runFrom openJournal refusedMoves) 2 = false := by
  have hread : readWith (fun s => s.gaps = ∅ && s.markers ≠ []) (runFrom openJournal refusedMoves) 2 = true := by
    decide +kernel
  obtain ⟨thread, read, hthread, hlease, hstate⟩ := exists_of_readWith hread
  rw [Bool.and_eq_true, decide_eq_true_iff, decide_eq_true_iff] at hstate
  exact ⟨thread, read, hthread, hlease, hstate.1, hstate.2,
    pending_close_refuses openJournal refusedMoves 2 thread read hthread hlease hstate.1 hstate.2⟩

def publishedLate : List (Move Job Chance Event) :=
  .start (.pnl (.tick true)) :: List.replicate 4 (.call 0 answered) ++ .start (.close stoppedOut) ::
    failedClose 1 ++ [.call 0 answered, .start (.pnl (.check true 50)), .call 2 answered, .call 2 answered]

/-- **The two scans do not suffice.** -/
theorem publishedLate_admits : ¬ ∀ (journal : Journal) (moves : List (Move Job Chance Event)) (i : ℕ)
    (thread : Thread State Failure Op Ans Job (Option RiskCheck)) (read : State),
    (runFrom journal moves).threads[i]? = some thread → leaseRead thread.history = some read →
      read.markers ≠ [] → admitted (runFrom journal moves) i = false := by
  intro hclaim
  have hread : readWith (fun s => s.markers ≠ []) (runFrom openJournal publishedLate) 2 = true := by
    decide +kernel
  obtain ⟨thread, read, hthread, hlease, hmarker⟩ := exists_of_readWith hread
  have hrefused := hclaim openJournal publishedLate 2 thread read hthread hlease (of_decide_eq_true hmarker)
  have hadmitted : admitted (runFrom openJournal publishedLate) 2 = true := by decide +kernel
  rw [hrefused] at hadmitted
  cases hadmitted

end Schurfer.Pnl.Pending
