import Mathlib.Algebra.Order.Ring.Star
import Mathlib.Data.Rat.Star
import Schurfer.Lib.Rows
import Schurfer.MomentumPaper.Worker

/-!
# Prices inside their windows

A row that is pending or open was in time when `expire_deadlines` last ran (`Kept`), once in a tick, before the
quotes. So a quote is in time as long as the deadline does not pass between the two (`InTime`).
-/

namespace Schurfer.MomentumPaper

open Threads Serial List Except Probe

variable {contract : PaperContract} {cohortStartedAt now : ℤ} {probe : PaperProbe} {p p' : Probe}
  {quote : ExecutableQuote} {P : State → Prop} {probes : List Probe} {set : Probe → Probe}
  {evaluation : ProbeQuoteEvaluation} {o o' : Outcome} {due : List ℕ}

inductive Probe.Moved (contract : PaperContract) (q : Statement) (p : Probe) : Probe → Prop
  | touched (hq : q.expiry = none) (updatedAt : ℤ) : Moved contract q p { p with updatedAt }
  | rejected (hp : p.entryStatus = .pending) (hq : q.expiry = none) {entryStatus : EntryStatus}
      (hpending : entryStatus ≠ .pending) (hopened : entryStatus ≠ .opened) (entryQuoteRequestedAt : Option ℤ)
      (updatedAt : ℤ) : Moved contract q p { p with entryStatus, entryQuoteRequestedAt, updatedAt }
  | opened (hp : p.entryStatus = .pending) {quote : ExecutableQuote} (hq : q = .openEntry p.watchId quote) :
      Moved contract q p (p.opened quote)
  | quoted {probe : PaperProbe} {quote : ExecutableQuote} {dueHorizons : List ℕ} {evaluation : ProbeQuoteEvaluation}
      (hq : q = .applyQuote probe quote dueHorizons) (hid : p.watchId = probe.watchId)
      (hev : evaluateProbeQuote contract probe quote = .ok evaluation) :
      Moved contract q p (p.quoted quote evaluation)
  | inTime {now : ℤ} (hq : q = .expireDeadlines now) (hp : p.isLate contract now = false) : Moved contract q p p
  | late {now : ℤ} (hq : q = .expireDeadlines now) (hp : p.isLate contract now = true) :
      Moved contract q p { p with positionStatus := .exitUnresolved, updatedAt := now }

def Probe.IsNew (p : Probe) : Prop :=
  (p.entryStatus = .pending ∨ p.entryStatus = .rejectedStale) ∧ p.positionStatus = .notOpen

inductive Outcome.Moved (contract : PaperContract) (q : Statement) (o : Outcome) : Outcome → Prop
  | same (hq : q.expiry = none) : Moved contract q o o
  | completed {probe : PaperProbe} {quote : ExecutableQuote} {dueHorizons : List ℕ}
      (hq : q = .applyQuote probe quote dueHorizons) (hid : o.watchId = probe.watchId)
      (hdue : o.horizonMinutes ∈ dueHorizons) (ho : o.status = .pending) (performance : Legs.Performance) :
      Moved contract q o (o.completed quote performance)
  | inTime {now : ℤ} (hq : q = .expireDeadlines now) (ho : o.isLate contract now = false) : Moved contract q o o
  | late {now : ℤ} (hq : q = .expireDeadlines now) (ho : o.isLate contract now = true) :
      Moved contract q o { o with status := .missedDeadline }

def Outcome.IsNew (contract : PaperContract) (q : Statement) (o : Outcome) : Prop :=
  ∃ watchId quote, q = .openEntry watchId quote ∧ o ∈ outcomeRows contract watchId quote

def Outcome.key (o : Outcome) : ℕ × ℕ := (o.watchId, o.horizonMinutes)

structure Wrote (contract : PaperContract) (q : Statement) (t t' : Tables) : Prop where
  probes : Rows.Grows (Probe.Moved contract q) Probe.IsNew t.probes t'.probes
  outcomes : Rows.Grows (Outcome.Moved contract q) (Outcome.IsNew contract q) t.outcomes t'.outcomes
  oneProbe : (t.probes.map Probe.watchId).Nodup → (t'.probes.map Probe.watchId).Nodup
  oneOutcome : (t.outcomes.map Outcome.key).Nodup → (t'.outcomes.map Outcome.key).Nodup

section

variable {q : Statement} {t t' : Tables} {f : Probe → Probe}

theorem Probe.Moved.refl (hq : q.expiry = none) (p : Probe) : Probe.Moved contract q p p := .touched hq p.updatedAt

theorem Probe.Moved.watchId (h : Probe.Moved contract q p p') : p'.watchId = p.watchId := by
  cases h with
  | @quoted probe quote due evaluation hq hid hev =>
    unfold Probe.quoted
    cases evaluation.exitReason <;> rfl
  | _ => rfl

theorem Outcome.Moved.key (h : Outcome.Moved contract q o o') : o'.key = o.key := by
  cases h <;> rfl

theorem Wrote.refl (hq : q.expiry = none) (t : Tables) : Wrote contract q t t :=
  ⟨.refl (Probe.Moved.refl hq) _, .refl (fun _ => .same hq) _, id, id⟩

theorem Wrote.map {g : Outcome → Outcome} (hf : ∀ p, Probe.Moved contract q p (f p))
    (hg : ∀ o, Outcome.Moved contract q o (g o)) :
    Wrote contract q t { t with probes := t.probes.map f, outcomes := t.outcomes.map g } := by
  refine ⟨.map fun p _ => hf p, .map fun o _ => hg o, fun hnd => ?_, fun hnd => ?_⟩
  · rw [Rows.map_column fun p => (hf p).watchId]
    exact hnd
  · rw [Rows.map_column fun o => (hg o).key]
    exact hnd

theorem Wrote.map_probes (hq : q.expiry = none) (hf : ∀ p, Probe.Moved contract q p (f p)) :
    Wrote contract q t { t with probes := t.probes.map f } := by
  have h := Wrote.map (t := t) hf fun o => .same hq
  rwa [map_id'] at h

theorem updatePendingEntry_ok {watchId : ℕ} (h : updatePendingEntry t watchId set = .ok t') :
    t' = { t with probes := t.probes.map fun p =>
      if p.watchId = watchId ∧ p.entryStatus = .pending then set p else p } := by
  unfold updatePendingEntry at h
  split at h
  · exact (ok.inj h).symm
  · cases h

theorem wrote_rejected {watchId : ℕ} (hq : q.expiry = none)
    (hset : ∀ p, p.entryStatus = .pending → Probe.Moved contract q p (set p))
    (h : updatePendingEntry t watchId set = .ok t') : Wrote contract q t t' := by
  rw [updatePendingEntry_ok h]
  refine Wrote.map_probes hq fun p => ?_
  split
  · rename_i hp
    exact hset p hp.2
  · exact .refl hq p

theorem insertProbe_nodup (hnd : (probes.map watchId).Nodup) (p : Probe) :
    ((insertProbe probes p).2.map watchId).Nodup := by
  unfold insertProbe
  split
  · exact hnd
  · rename_i hfree
    rw [map_append, nodup_append']
    refine ⟨hnd, nodup_singleton _, ?_⟩
    intro id hid hid'
    obtain ⟨r, hr, rfl⟩ := mem_map.1 hid
    exact hfree ⟨r, hr, mem_singleton.1 hid'⟩

def Adds (probes probes' : List Probe) : Prop := ∃ new, probes' = probes ++ new ∧ ∀ p ∈ new, p.IsNew

theorem insertProbe_adds (probes : List Probe) (hp : p.IsNew) : Adds probes (insertProbe probes p).2 := by
  unfold insertProbe
  split
  · exact ⟨[], (append_nil _).symm, fun r hr => by cases hr⟩
  · refine ⟨[p], rfl, fun r hr => ?_⟩
    obtain rfl := mem_singleton.1 hr
    exact hp

theorem insertProbes_adds (probes rows : List Probe) (hrw : ∀ p ∈ rows, p.IsNew) :
    Adds probes (insertProbes probes rows) ∧
      ((probes.map watchId).Nodup → ((insertProbes probes rows).map watchId).Nodup) := by
  induction rows generalizing probes with
  | nil => exact ⟨⟨[], (append_nil _).symm, fun r hr => by cases hr⟩, id⟩
  | cons p rows ih =>
    obtain ⟨⟨new, hnew, hisn⟩, hnd⟩ := ih (insertProbe probes p).2 fun r hr => hrw r (mem_cons_of_mem p hr)
    obtain ⟨first, hfr, his⟩ := insertProbe_adds probes (hrw p mem_cons_self)
    refine ⟨⟨first ++ new, ?_, ?_⟩, fun h => hnd (insertProbe_nodup h p)⟩
    · rw [← append_assoc, ← hfr]
      exact hnew
    · intro r hr
      rcases mem_append.1 hr with hr | hr
      · exact his r hr
      · exact hisn r hr

theorem Wrote.add_probes (hq : q.expiry = none) (hadd : Adds t.probes probes)
    (hnd : (t.probes.map watchId).Nodup → (probes.map watchId).Nodup) :
    Wrote contract q t { t with probes } := by
  obtain ⟨new, rfl, hnew⟩ := hadd
  exact ⟨.append (Probe.Moved.refl hq) hnew, .refl (fun _ => .same hq) _, hnd, id⟩

theorem openEntry_wrote {watchId : ℕ} (h : openEntry contract t watchId quote = .ok t') :
    Wrote contract (.openEntry watchId quote) t t' := by
  obtain ⟨t1, hup, hre⟩ := bind_ok.1 h
  have h1 : Wrote contract (.openEntry watchId quote) t t1 := by
    rw [updatePendingEntry_ok hup]
    refine Wrote.map_probes rfl fun p => ?_
    split
    · rename_i hp
      obtain ⟨rfl, hpending⟩ := hp
      exact .opened hpending rfl
    · exact .refl rfl p
  have hout : t1.outcomes = t.outcomes := by rw [updatePendingEntry_ok hup]
  split at hre
  · cases hre
  · rename_i hfree
    cases hre
    refine ⟨h1.probes, ?_, h1.oneProbe, fun hnd => ?_⟩
    · rw [hout]
      exact .append (fun _ => .same rfl) fun o ho => ⟨watchId, quote, rfl, ho⟩
    · have hrw : ((outcomeRows contract watchId quote).map Outcome.key).Nodup := by
        unfold outcomeRows
        rw [map_map]
        refine .map ?_ (contract.sorted.imp fun h => h.ne)
        intro h1 h2 heq
        exact congrArg Prod.snd heq
      rw [map_append, nodup_append']
      refine ⟨h1.oneOutcome hnd, hrw, ?_⟩
      intro key hkey hkey'
      obtain ⟨o, ho, rfl⟩ := mem_map.1 hkey
      obtain ⟨o', ho', hsame⟩ := mem_map.1 hkey'
      obtain ⟨horizon, hhr, rfl⟩ := mem_map.1 ho'
      exact hfree ⟨o, ho, horizon, hhr, (congrArg Prod.fst hsame).symm, (congrArg Prod.snd hsame).symm⟩

theorem applyQuote_wrote {reason : Option ExitReason} (h : applyQuote contract t probe quote due = .ok (reason, t')) :
    Wrote contract (.applyQuote probe quote due) t t' := by
  obtain ⟨evaluation, hev, hre⟩ := bind_ok.1 h
  obtain ⟨performance, -, hre⟩ := bind_ok.1 hre
  cases hre
  have hpr : ∀ p : Probe, Probe.Moved contract (.applyQuote probe quote due) p
      (if p.watchId = probe.watchId then p.quoted quote evaluation else p) := by
    intro p
    split
    · rename_i hid
      exact .quoted rfl hid hev
    · exact .refl rfl p
  have hot : ∀ o : Outcome, Outcome.Moved contract (.applyQuote probe quote due) o
      (if o.watchId = probe.watchId ∧ o.horizonMinutes ∈ due ∧ o.status = .pending then
        o.completed quote performance else o) := by
    intro o
    split
    · rename_i ho
      exact .completed rfl ho.1 ho.2.1 ho.2.2 performance
    · exact .same rfl
  exact .map hpr hot

theorem expireDeadlines_wrote (now : ℤ) :
    Wrote contract (.expireDeadlines now) t (expireDeadlines contract t now).2 := by
  have hpr : ∀ p : Probe, Probe.Moved contract (.expireDeadlines now) p
      (if p.isLate contract now then { p with positionStatus := .exitUnresolved, updatedAt := now } else p) := by
    intro p
    split
    · exact .late rfl ‹_›
    · exact .inTime rfl (Bool.eq_false_iff.2 ‹_›)
  have hot : ∀ o : Outcome, Outcome.Moved contract (.expireDeadlines now) o
      (if o.isLate contract now then { o with status := .missedDeadline } else o) := by
    intro o
    split
    · exact .late rfl ‹_›
    · exact .inTime rfl (Bool.eq_false_iff.2 ‹_›)
  exact .map hpr hot

theorem map_pair_ok {x : Except Failure Tables} {a : Unit} (h : x.map ((), ·) = .ok (a, t')) : x = .ok t' := by
  cases x with
  | error => cases h
  | ok => exact congrArg ok (Prod.mk.inj (ok.inj h)).2

theorem execute_wrote {a : q.Result} (h : execute contract cohortStartedAt t q = .ok (a, t')) :
    Wrote contract q t t' := by
  cases q with
  | abandonInterruptedEntries now =>
    cases h
    refine Wrote.map_probes rfl fun p => ?_
    split
    · rename_i hp
      exact .rejected hp rfl (fun he => by cases he) (fun he => by cases he) p.entryQuoteRequestedAt now
    · exact .refl rfl p
  | claimWatch w now =>
    cases h
    exact .add_probes rfl (insertProbe_adds t.probes ⟨.inl rfl, rfl⟩) fun hnd => insertProbe_nodup hnd _
  | bulkRejectStaleWatches candidates now =>
    cases h
    have hadd := insertProbes_adds t.probes (candidates.map fun w => w.probe .rejectedStale now) fun p hp => by
      obtain ⟨w, -, rfl⟩ := mem_map.1 hp
      exact ⟨.inr rfl, rfl⟩
    exact .add_probes rfl hadd.1 hadd.2
  | rejectStaleEntry watchId now =>
    exact wrote_rejected rfl (fun p hp => .rejected hp rfl (fun he => by cases he) (fun he => by cases he)
      p.entryQuoteRequestedAt now) (map_pair_ok h)
  | rejectQuote watchId failure =>
    exact wrote_rejected rfl (fun p hp => .rejected hp rfl (fun he => by cases he) (fun he => by cases he)
      (some failure.requestedAt) failure.failedAt) (map_pair_ok h)
  | openEntry => exact openEntry_wrote (map_pair_ok h)
  | applyQuote => exact applyQuote_wrote h
  | recordQuoteFailure watchId failure =>
    cases h
    refine Wrote.map_probes rfl fun p => ?_
    split
    · exact .touched rfl failure.failedAt
    · exact .refl rfl p
  | expireDeadlines now =>
    cases h
    exact expireDeadlines_wrote now
  | _ =>
    cases h
    exact .refl rfl t

end

variable (contract)

structure Probe.Ok (expiredAt : ℤ) (p : Probe) : Prop where
  pending : p.entryStatus = .pending → p.positionStatus = .notOpen
  requested : p.entryStatus = .opened → ∃ requestedAt, p.entryQuoteRequestedAt = some requestedAt ∧
    requestedAt - p.watchDecisionAt ≤ contract.maxWatchToQuote
  openDue : p.positionStatus = .open → ∃ entryAt, p.entryAt = some entryAt ∧
    expiredAt ≤ entryAt + contract.maxHold + contract.maxLateness
  closed : p.positionStatus = .closed → p.exitReason = some .maxHold → ∃ entryAt observedAt,
    p.entryAt = some entryAt ∧ p.exitQuoteObservedAt = some observedAt ∧
      observedAt ≤ entryAt + contract.maxHold + contract.maxLateness

structure Outcome.Ok (expiredAt : ℤ) (o : Outcome) : Prop where
  pendingDue : o.status = .pending → expiredAt ≤ o.dueAt + contract.maxLateness
  completed : o.status = .complete → ∃ observedAt, o.quoteObservedAt = some observedAt ∧ o.dueAt ≤ observedAt ∧
    observedAt ≤ o.dueAt + contract.maxLateness

structure Kept (s : State) : Prop where
  expired : s.expiredAt ≤ s.now
  oneProbe : (s.tables.probes.map Probe.watchId).Nodup
  oneOutcome : (s.tables.outcomes.map Outcome.key).Nodup
  probes : ∀ p ∈ s.tables.probes, p.Ok contract s.expiredAt
  outcomes : ∀ o ∈ s.tables.outcomes, o.Ok contract s.expiredAt

def Snapshot (s : State) (probe : PaperProbe) : Prop :=
  ∃ p ∈ s.tables.probes, p.watchId = probe.watchId ∧ p.entryStatus = .opened ∧
    p.positionStatus = probe.positionStatus ∧ p.entryAt = some probe.entryAt

def Allowed (s : State) : Statement → Prop
  | .expireDeadlines now => now ≤ s.now
  | .openEntry watchId quote => s.expiredAt ≤ quote.observedAt ∧
    ∀ p ∈ s.tables.probes, p.watchId = watchId →
      quote.requestedAt - p.watchDecisionAt ≤ contract.maxWatchToQuote
  | .applyQuote probe quote dueHorizons => Snapshot s probe ∧
    ∀ o ∈ s.tables.outcomes, o.watchId = probe.watchId → o.horizonMinutes ∈ dueHorizons → o.status = .pending →
      o.dueAt ≤ quote.observedAt
  | _ => True

def Passes (s : State) (quote : ExecutableQuote) (deadline : ℤ) : Prop :=
  s.expiredAt ≤ deadline ∧ deadline < quote.observedAt

/-- No deadline of the probe that is quoted has passed since `expire_deadlines`. -/
def InTime (s : State) : Op → Prop
  | .db (.applyQuote probe quote _) =>
    (∀ o ∈ s.tables.outcomes, o.watchId = probe.watchId → o.status = .pending →
      ¬ Passes s quote (o.dueAt + contract.maxLateness)) ∧
    (probe.positionStatus = .open → ¬ Passes s quote (probe.entryAt + contract.maxHold + contract.maxLateness))
  | _ => True

theorem PaperContract.maxLateness_nonneg : 0 ≤ contract.maxLateness := by
  unfold maxLateness second
  omega

theorem PaperContract.maxHold_nonneg : 0 ≤ contract.maxHold := by
  unfold maxHold minute second
  omega

variable {contract}

section

variable {s : State} {q : Statement} {t : Tables}

theorem not_passes {deadline : ℤ} (h : ¬ Passes s quote deadline)
    (hexpired : s.expiredAt ≤ deadline) : quote.observedAt ≤ deadline := by
  by_contra hlt
  exact h ⟨hexpired, not_le.1 hlt⟩

theorem exitReason_open
    (hev : evaluateProbeQuote contract probe quote = .ok evaluation) (hreason : evaluation.exitReason ≠ none) :
    probe.positionStatus = .open := by
  obtain ⟨performance, -, hre⟩ := bind_ok.1 hev
  cases hre
  by_contra hop
  exact hreason (if_pos hop)

theorem Kept.unique (hs : Kept contract s) (hp : p ∈ s.tables.probes) (hp' : p' ∈ s.tables.probes)
    (hid : p.watchId = p'.watchId) : p = p' :=
  inj_on_of_nodup_map hs.oneProbe hp hp' hid

theorem Snapshot.row (hs : Kept contract s) (hsp : Snapshot s probe)
    (hp : p ∈ s.tables.probes) (hid : p.watchId = probe.watchId) :
    p.entryStatus = .opened ∧ p.positionStatus = probe.positionStatus ∧ p.entryAt = some probe.entryAt := by
  obtain ⟨p', hp', hid', hre⟩ := hsp
  obtain rfl := hs.unique hp hp' (hid.trans hid'.symm)
  exact hre

theorem quoted_ok (hs : Kept contract s) (hal : Allowed contract s (.applyQuote probe quote due))
    (hin : InTime contract s (.db (.applyQuote probe quote due))) (hp : p ∈ s.tables.probes)
    (hid : p.watchId = probe.watchId) (hev : evaluateProbeQuote contract probe quote = .ok evaluation) :
    (p.quoted quote evaluation).Ok contract s.expiredAt := by
  obtain ⟨hopened, hps, hen⟩ := hal.1.row hs hp hid
  have hok := hs.probes p hp
  unfold Probe.quoted
  cases hreason : evaluation.exitReason with
  | none => exact ⟨hok.pending, hok.requested, hok.openDue, hok.closed⟩
  | some reason =>
    have hop : probe.positionStatus = .open := exitReason_open hev (by rw [hreason]; exact Option.some_ne_none _)
    obtain ⟨entryAt, hen', hdue⟩ := hok.openDue (hps.trans hop)
    obtain rfl : probe.entryAt = entryAt := Option.some.inj (hen.symm.trans hen')
    refine ⟨fun h => ?_, hok.requested, nofun, fun _ _ => ?_⟩
    · rw [hopened] at h
      cases h
    · exact ⟨probe.entryAt, quote.observedAt, hen, rfl, not_passes (hin.2 hop) hdue⟩

theorem late_iff : p.isLate contract now = true ↔ p.positionStatus = .open ∧
    ∃ entryAt, p.entryAt = some entryAt ∧ entryAt + contract.maxHold < now - contract.maxLateness := by
  simp [isLate, Option.any_eq_true]

theorem Probe.Moved.ok (hs : Kept contract s) (hal : Allowed contract s q) (hin : InTime contract s (.db q))
    (hp : p ∈ s.tables.probes) (h : Probe.Moved contract q p p') : p'.Ok contract (q.expiry.getD s.expiredAt) := by
  have hok := hs.probes p hp
  cases h with
  | touched hq updatedAt =>
    rw [hq]
    exact ⟨hok.pending, hok.requested, hok.openDue, hok.closed⟩
  | rejected hpending hq hnot hopened requestedAt updatedAt =>
    rw [hq]
    exact ⟨fun h => absurd h hnot, fun h => absurd h hopened, hok.openDue, hok.closed⟩
  | @opened hpending quote hq =>
    subst hq
    obtain ⟨hob, hrq⟩ := hal
    refine ⟨nofun, fun _ => ⟨quote.requestedAt, rfl, hrq p hp rfl⟩, fun _ => ?_, nofun⟩
    refine ⟨quote.observedAt, rfl, ?_⟩
    have hL := contract.maxLateness_nonneg
    have hH := contract.maxHold_nonneg
    change s.expiredAt ≤ _
    omega
  | @quoted probe quote due evaluation hq hid hev =>
    subst hq
    exact quoted_ok hs hal hin hp hid hev
  | @inTime now hq hla =>
    subst hq
    refine ⟨hok.pending, hok.requested, fun hop => ?_, hok.closed⟩
    obtain ⟨entryAt, hen, -⟩ := hok.openDue hop
    refine ⟨entryAt, hen, ?_⟩
    have hnot : ¬ entryAt + contract.maxHold < now - contract.maxLateness := by
      intro hlt
      rw [late_iff.2 ⟨hop, entryAt, hen, hlt⟩] at hla
      cases hla
    change now ≤ _
    omega
  | @late now hq hla =>
    obtain ⟨hop, -⟩ := late_iff.1 hla
    refine ⟨fun h => ?_, hok.requested, nofun, nofun⟩
    rw [hok.pending h] at hop
    cases hop

theorem Outcome.Moved.ok (hs : Kept contract s) (hal : Allowed contract s q) (hin : InTime contract s (.db q))
    (ho : o ∈ s.tables.outcomes) (h : Outcome.Moved contract q o o') :
    o'.Ok contract (q.expiry.getD s.expiredAt) := by
  have hok := hs.outcomes o ho
  cases h with
  | same hq =>
    rw [hq]
    exact hok
  | @completed probe quote due hq hid hdue hpending performance =>
    subst hq
    refine ⟨nofun, fun _ => ⟨quote.observedAt, rfl, ?_, ?_⟩⟩
    · exact hal.2 o ho hid hdue hpending
    · exact not_passes (hin.1 o ho hid hpending) (hok.pendingDue hpending)
  | @inTime now hq hla =>
    subst hq
    refine ⟨fun hpending => ?_, hok.completed⟩
    have hnot : ¬ o.dueAt < now - contract.maxLateness := by
      intro hlt
      rw [Outcome.isLate, decide_eq_false_iff_not] at hla
      exact hla ⟨hpending, hlt⟩
    change now ≤ _
    omega
  | late => exact ⟨nofun, nofun⟩

theorem Outcome.IsNew.ok (hal : Allowed contract s q) (h : o.IsNew contract q) :
    o.Ok contract (q.expiry.getD s.expiredAt) := by
  obtain ⟨watchId, quote, rfl, ho⟩ := h
  obtain ⟨horizon, -, rfl⟩ := mem_map.1 ho
  refine ⟨fun _ => ?_, nofun⟩
  have hL := contract.maxLateness_nonneg
  have hob := hal.1
  change s.expiredAt ≤ quote.observedAt + horizon * minute + contract.maxLateness
  unfold minute second
  omega

theorem Kept.commit (hs : Kept contract s) (hal : Allowed contract s q) (hin : InTime contract s (.db q))
    (hwr : Wrote contract q s.tables t) : Kept contract (s.commit q t) := by
  refine ⟨?_, hwr.oneProbe hs.oneProbe, hwr.oneOutcome hs.oneOutcome, fun p' hp' => ?_, fun o' ho' => ?_⟩
  · cases q with
    | expireDeadlines => exact hal
    | _ => exact hs.expired
  · rcases hwr.probes.mem_back hp' with ⟨p, hp, hmv⟩ | ⟨hstatus, hps⟩
    · exact hmv.ok hs hal hin hp
    · refine ⟨fun _ => hps, fun h => ?_, fun h => ?_, fun h => ?_⟩
      · rw [h] at hstatus
        rcases hstatus with h | h <;> cases h
      · rw [hps] at h
        cases h
      · rw [hps] at h
        cases h
  · rcases hwr.outcomes.mem_back ho' with ⟨o, ho, hmv⟩ | hnew
    · exact hmv.ok hs hal hin ho
    · exact hnew.ok hal

theorem Kept.wait (hs : Kept contract s) (elapsed : ℕ) : Kept contract (s.wait elapsed) := by
  refine ⟨?_, hs.oneProbe, hs.oneOutcome, hs.probes, hs.outcomes⟩
  have := hs.expired
  change s.expiredAt ≤ s.now + elapsed
  omega

theorem Kept.happens (hs : Kept contract s) (e : Event) : Kept contract (s.happens e) := by
  cases e with
  | watch => exact ⟨hs.expired, hs.oneProbe, hs.oneOutcome, hs.probes, hs.outcomes⟩
  | wait elapsed => exact hs.wait elapsed

theorem Kept.init (now : ℤ) : Kept contract (State.init now) :=
  ⟨le_refl now, nodup_nil, nodup_nil, fun _ hp => absurd hp not_mem_nil, fun _ ho => absurd ho not_mem_nil⟩

end

variable (contract)

noncomputable abbrev timely (cohortStartedAt : ℤ) : World State Failure Op Ans Chance Event :=
  Serial.guard (world contract cohortStartedAt) (InTime contract) .database

def May (s : State) : Op → Prop
  | .db q => Allowed contract s q
  | _ => True

abbrev History := List (Call State Failure Op Ans)

def pre (_ : History) (s : State) (o : Op) : Prop :=
  Kept contract s ∧ May contract s o

abbrev Runs (cohortStartedAt : ℤ) {β : Type} (p : Script β) (s : State) (Q : State → β → Prop) : Prop :=
  Leads (timely contract cohortStartedAt) (Kept contract) (pre contract) p s Q

variable {contract}

section

variable {s : State} {q : Statement}

theorem transact_cases (q : Statement) (c : Chance) : ((transact contract cohortStartedAt s q c).2 = s.wait c.elapsed ∧
      ∀ a, (transact contract cohortStartedAt s q c).1 ≠ .ok a) ∨
    ∃ a t, execute contract cohortStartedAt s.tables q = .ok (a, t) ∧
      (transact contract cohortStartedAt s q c).2 = (s.commit q t).wait c.elapsed ∧
      ∀ b, (transact contract cohortStartedAt s q c).1 = .ok b → b = a := by
  unfold transact
  cases hx : execute contract cohortStartedAt s.tables q with
  | error => exact .inl ⟨rfl, nofun⟩
  | ok out =>
    obtain ⟨a, t⟩ := out
    cases hc : c.commit with
    | fails => exact .inl ⟨rfl, nofun⟩
    | lost => exact .inr ⟨a, t, rfl, rfl, nofun⟩
    | acknowledged => exact .inr ⟨a, t, rfl, rfl, fun b hb => (ok.inj hb).symm⟩

variable {Q : State → q.Result → Prop}

theorem runs_query (hs : Kept contract s) (hq : Allowed contract s q)
    (hpo : ∀ a t (elapsed : ℕ), execute contract cohortStartedAt s.tables q = .ok (a, t) →
      Kept contract ((s.commit q t).wait elapsed) → Q ((s.commit q t).wait elapsed) a) :
    Runs contract cohortStartedAt (query q) s Q := by
  refine .perform_guard hs (fun _ => ⟨hs, hq⟩) fun hin c => ?_
  change Kept contract (transact contract cohortStartedAt s q c).2 ∧
    ∀ b, (transact contract cohortStartedAt s q c).1 = .ok b → Q (transact contract cohortStartedAt s q c).2 b
  rcases transact_cases q c with ⟨hst, hno⟩ | ⟨a, t, hx, hst, ha⟩
  · rw [hst]
    exact ⟨hs.wait c.elapsed, fun b hb => absurd hb (hno b)⟩
  · rw [hst]
    have hkp := (hs.commit hq hin (execute_wrote hx)).wait c.elapsed
    refine ⟨hkp, fun b hb => ?_⟩
    obtain rfl := ha b hb
    exact hpo b t c.elapsed hx hkp

theorem runs_clock {Q : State → ℤ → Prop} (hs : Kept contract s)
    (hpo : ∀ elapsed : ℕ, Q (s.wait elapsed) (s.now + elapsed)) : Runs contract cohortStartedAt (call .clock) s Q := by
  refine .perform_guard hs (fun _ => ⟨hs, trivial⟩) fun _ c => ⟨hs.wait c.elapsed, fun now hnow => ?_⟩
  cases hnow
  exact hpo c.elapsed

theorem runs_quote {symbol : String} {side : QuoteSide} {Q : State → Except QuoteFailure ExecutableQuote → Prop}
    (hs : Kept contract s)
    (hqt : ∀ (elapsed : ℕ) quote, quote.requestedAt = s.now → quote.observedAt = s.now + elapsed →
      Q (s.wait elapsed) (.ok quote)) (hfl : ∀ (elapsed : ℕ) failure, Q (s.wait elapsed) (.error failure)) :
    Runs contract cohortStartedAt (call (.quote symbol side)) s Q := by
  refine .perform_guard hs (fun _ => ⟨hs, trivial⟩) fun _ c => ⟨hs.wait c.elapsed, fun result hrs => ?_⟩
  cases hrs
  cases c.vwap with
  | ok => exact hqt c.elapsed _ rfl rfl
  | error => exact hfl c.elapsed _

end

def Statement.MovesPosition (watchId : ℕ) : Statement → Prop
  | .expireDeadlines _ => True
  | .applyQuote probe _ _ => probe.watchId = watchId
  | _ => False

def Held (contract : PaperContract) (probes : List PaperProbe) (s : State) : Prop :=
  Kept contract s ∧ ∀ probe ∈ probes, Snapshot s probe

section

variable {s : State} {q : Statement} {t : Tables} {probes : List PaperProbe}

theorem Snapshot.commit (hsp : Snapshot s probe) (hwr : Wrote contract q s.tables t)
    (hq : ¬ q.MovesPosition probe.watchId) : Snapshot (s.commit q t) probe := by
  obtain ⟨p, hp, hid, hopened, hps, hen⟩ := hsp
  obtain ⟨p', hp', hmv⟩ := hwr.probes.mem_forth hp
  refine ⟨p', hp', hmv.watchId.trans hid, ?_⟩
  cases hmv with
  | touched => exact ⟨hopened, hps, hen⟩
  | rejected hpending | opened hpending =>
    rw [hopened] at hpending
    cases hpending
  | quoted hqr hwatch _ =>
    subst hqr
    exact absurd (hwatch.symm.trans hid) hq
  | inTime hqr | late hqr =>
    subst hqr
    exact absurd trivial hq

theorem Held.wait (hs : Held contract probes s) (elapsed : ℕ) : Held contract probes (s.wait elapsed) :=
  ⟨hs.1.wait elapsed, hs.2⟩

theorem Held.runs_query (hs : Held contract probes s) (hq : Allowed contract s q)
    (hmo : ∀ probe ∈ probes, ¬ q.MovesPosition probe.watchId)
    (hpo : ∀ a t (elapsed : ℕ), execute contract cohortStartedAt s.tables q = .ok (a, t) →
      Held contract probes ((s.commit q t).wait elapsed) → Q ((s.commit q t).wait elapsed) a) :
    Runs contract cohortStartedAt (query q) s Q := by
  refine MomentumPaper.runs_query hs.1 hq fun a t elapsed hx hkp => hpo a t elapsed hx ⟨hkp, fun probe hpr => ?_⟩
  exact (hs.2 probe hpr).commit (execute_wrote hx) (hmo probe hpr)

theorem Held.runs_last {β : Type} {f : q.Result → β} (hs : Held contract probes s) (hq : Allowed contract s q)
    (hmo : ∀ probe ∈ probes, ¬ q.MovesPosition probe.watchId) :
    Runs contract cohortStartedAt (query q >>= fun a => pure (f a)) s fun s' _ => Held contract probes s' :=
  .bind (hs.runs_query hq hmo fun _ _ _ _ hhl => .ret hhl)

end

section

variable {s : State} {probes : List PaperProbe} {config : PaperWorkerConfig} {allowNewEntries : Bool}

theorem claimWatch_row {t : Tables} {w : WatchCandidate} {watchId : ℕ} {t' : Tables}
    (h : claimWatch t w now = (some watchId, t')) (hp : p ∈ t'.probes) (hid : p.watchId = watchId) :
    p.watchDecisionAt = w.decisionAt := by
  unfold claimWatch insertProbe at h
  split at h
  · cases (Prod.mk.inj h).1
  · rename_i hfree
    obtain ⟨hwatch, rfl⟩ := Prod.mk.inj h
    cases hwatch
    rcases mem_append.1 hp with hp | hp
    · exact absurd ⟨p, hp, hid⟩ hfree
    · obtain rfl := mem_singleton.1 hp
      rfl

theorem runs_processEntry (candidate : WatchCandidate) (hs : Held contract probes s) :
    Runs contract cohortStartedAt (processEntry contract candidate) s fun s' _ => Held contract probes s' := by
  refine .bind (runs_clock hs.1 fun n1 => ?_)
  refine .bind ((hs.wait n1).runs_query trivial (fun _ _ => id) fun claimed t n2 hcl hhl => ?_)
  cases claimed with
  | none => exact .ret hhl
  | some watchId =>
    have hrow := fun p hp => claimWatch_row (ok.inj hcl) (p := p) hp
    dsimp only
    split
    · exact hhl.runs_last trivial fun _ _ => id
    · refine .bind (runs_quote hhl.1 (fun n3 quote hrq hob => ?_) fun n3 failure => ?_)
      · dsimp only
        split
        · exact (hhl.wait n3).runs_last trivial fun _ _ => id
        · rename_i hfs
          refine (hhl.wait n3).runs_last ⟨?_, fun p hp hid => ?_⟩ fun _ _ => id
          · rw [hob]
            exact (hhl.wait n3).1.expired
          · rw [hrow p hp hid]
            exact not_lt.1 hfs
      · exact (hhl.wait n3).runs_last trivial fun _ _ => id

theorem runs_processEntries (candidates : List WatchCandidate) (hs : Held contract probes s) :
    Runs contract cohortStartedAt (processEntries contract candidates) s fun s' _ => Held contract probes s' := by
  induction candidates generalizing s with
  | nil => exact .ret hs
  | cons candidate rest ih =>
    refine .seq (runs_processEntry candidate hs) fun s1 _ hs1 => ?_
    exact .seq (ih hs1) fun s2 _ hs2 => .ret hs2

theorem runs_processFreshEntries (hs : Held contract probes s) :
    Runs contract cohortStartedAt (processFreshEntries contract config allowNewEntries) s
      fun s' _ => Held contract probes s' := by
  unfold processFreshEntries
  split
  · refine .bind (runs_clock hs.1 fun n1 => ?_)
    refine .bind ((hs.wait n1).runs_query trivial (fun _ _ => id) fun candidates t n2 _ hhl => ?_)
    exact runs_processEntries candidates hhl
  · exact .ret hs

theorem pendingHorizons_due (hs : Kept contract s) {watchId : ℕ} (ho : o ∈ s.tables.outcomes)
    (hid : o.watchId = watchId) (hdue : o.horizonMinutes ∈ pendingHorizons s.tables watchId now) : o.dueAt ≤ now := by
  unfold pendingHorizons at hdue
  rw [mem_insertionSort, mem_map] at hdue
  obtain ⟨o', ho', hhr⟩ := hdue
  simp only [mem_filter, decide_eq_true_eq] at ho'
  obtain ⟨hmem, hid', -, hdue'⟩ := ho'
  have hkey : o'.key = o.key := Prod.ext (hid'.trans hid.symm) hhr
  obtain rfl := inj_on_of_nodup_map hs.oneOutcome hmem ho hkey
  exact hdue'

theorem runs_processProbe (hs : Held contract (probe :: probes) s)
    (hoh : ∀ other ∈ probes, other.watchId ≠ probe.watchId) :
    Runs contract cohortStartedAt (processProbe probe) s fun s' _ => Held contract probes s' := by
  have htl : ∀ {s : State}, Held contract (probe :: probes) s → Held contract probes s :=
    fun hhl => ⟨hhl.1, fun other hmem => hhl.2 other (mem_cons_of_mem probe hmem)⟩
  refine .bind (runs_quote hs.1 (fun n1 quote _ _ => ?_) fun n1 failure => ?_)
  · refine .bind ((hs.wait n1).runs_query trivial (fun _ _ => id) fun due t n2 hx hhl => ?_)
    cases hx
    refine (htl hhl).runs_last ⟨hhl.2 probe mem_cons_self, fun o ho hid hdue _ => ?_⟩ fun other hmem hsame => ?_
    · exact pendingHorizons_due hhl.1 ho hid hdue
    · exact hoh other hmem hsame.symm
  · exact (htl (hs.wait n1)).runs_last trivial fun _ _ => id

theorem runs_serviceProbes (hs : Held contract probes s) (hnd : (probes.map PaperProbe.watchId).Nodup)
    (chunkStarted : ℤ) (chunkCount : ℕ) :
    Runs contract cohortStartedAt (serviceProbes contract config allowNewEntries probes chunkStarted chunkCount) s
      fun s' _ => Kept contract s' := by
  induction probes generalizing s chunkStarted chunkCount with
  | nil => exact .ret hs.1
  | cons probe rest ih =>
    obtain ⟨hnew, hnd⟩ := nodup_cons.1 hnd
    have hoh : ∀ other ∈ rest, other.watchId ≠ probe.watchId := by
      intro other hmem hsame
      exact hnew (hsame ▸ mem_map_of_mem hmem)
    refine .seq (runs_processProbe hs hoh) fun s1 _ hs1 => ?_
    refine .bind (runs_clock hs1.1 fun n1 => ?_)
    split
    · refine .seq (runs_processFreshEntries (hs1.wait n1)) fun s2 _ hs2 => ?_
      refine .bind (runs_clock hs2.1 fun n2 => ?_)
      exact .seq (ih (hs2.wait n2) hnd _ _) fun s3 _ hs3 => .ret hs3
    · exact .seq (ih (hs1.wait n1) hnd _ _) fun s3 _ hs3 => .ret hs3

theorem snapshot_eq (h : p.snapshot = some probe) : probe.watchId = p.watchId ∧
    p.positionStatus = probe.positionStatus ∧ p.entryAt = some probe.entryAt := by
  unfold snapshot at h
  split at h
  · rename_i hen _
    cases h
    exact ⟨rfl, rfl, hen⟩
  · cases h

theorem snapshot_ids (rows : List Probe) :
    ((rows.filterMap snapshot).map PaperProbe.watchId).Sublist (rows.map watchId) := by
  induction rows with
  | nil => exact List.Sublist.refl _
  | cons p rows ih =>
    cases hp : p.snapshot with
    | none =>
      rw [filterMap_cons_none hp]
      exact ih.cons _
    | some probe =>
      rw [filterMap_cons_some hp, map_cons, map_cons, (snapshot_eq hp).1]
      exact ih.cons_cons _

theorem monitoredProbes_held (hs : Kept contract s) (now : ℤ) (limit : ℕ) :
    Held contract (monitoredProbes s.tables now limit) s ∧
      ((monitoredProbes s.tables now limit).map PaperProbe.watchId).Nodup := by
  refine ⟨⟨hs, fun probe hpr => ?_⟩, ?_⟩
  · unfold monitoredProbes at hpr
    obtain ⟨p, hp, hsp⟩ := mem_filterMap.1 hpr
    have hmem := mem_of_mem_take hp
    rw [mem_insertionSort, mem_filter, decide_eq_true_eq] at hmem
    obtain ⟨hid, hps, hen⟩ := snapshot_eq hsp
    exact ⟨p, hmem.1, hid.symm, hmem.2.1, hps, hen⟩
  · refine (snapshot_ids _).nodup ?_
    refine ((take_sublist _ _).map _).nodup ?_
    refine (((perm_insertionSort _ _).map _).nodup_iff).2 ?_
    exact (filter_sublist.map _).nodup hs.oneProbe

theorem runs_cleanUp (hs : Kept contract s) :
    Runs contract cohortStartedAt (cleanUp config allowNewEntries) s fun s' _ => Kept contract s' := by
  refine .bind (runs_clock hs fun n1 => ?_)
  split
  · refine .bind (runs_query (hs.wait n1) trivial fun candidates t n2 _ hs2 => ?_)
    split
    · exact .ret hs2
    · refine .bind (runs_clock hs2 fun n3 => ?_)
      exact .bind (runs_query (hs2.wait n3) trivial fun _ _ _ _ hs4 => .ret hs4)
  · exact .ret (hs.wait n1)

theorem runs_processTick (hs : Kept contract s) :
    Runs contract cohortStartedAt (processTick contract config allowNewEntries) s fun s' _ => Kept contract s' := by
  refine .seq (runs_processFreshEntries (⟨hs, nofun⟩ : Held contract [] s)) fun s1 _ hs1 => ?_
  refine .bind (runs_clock hs1.1 fun n1 => ?_)
  refine .bind (runs_query (hs1.wait n1).1 (le_refl _) fun expired t n2 _ hs2 => ?_)
  refine .bind (runs_clock hs2 fun n3 => ?_)
  refine .bind (runs_query (hs2.wait n3) trivial fun probes t' n4 hx hs4 => ?_)
  cases hx
  obtain ⟨hhl, hnd⟩ := monitoredProbes_held hs4 _ config.probeBatchSize
  refine .bind (runs_clock hs4 fun n5 => ?_)
  refine .seq (runs_serviceProbes (hhl.wait n5) hnd _ _) fun s6 _ hs6 => ?_
  exact .seq (runs_cleanUp hs6) fun s7 _ hs7 => .ret hs7

theorem runs_round (round : Round) (hs : Kept contract s) :
    Runs contract cohortStartedAt (round.program contract config) s fun s' _ => Kept contract s' := by
  cases round with
  | start =>
    refine .bind (runs_clock hs fun n1 => ?_)
    exact .bind (runs_query (hs.wait n1) trivial fun _ _ _ _ hs2 => .ret hs2)
  | tick => exact .seq (runs_processTick hs) fun s1 _ hs1 => .ret hs1

theorem sound (config : PaperWorkerConfig) : Serial.Sound (timely contract cohortStartedAt)
    (Round.program contract config) (Kept contract) (pre contract) where
  env _ e hs := hs.happens e
  start round _ hs := (runs_round round hs).pass []

end

def HasPosition (p : Probe) (s : State) : Prop :=
  ∃ p' ∈ s.tables.probes, p'.watchId = p.watchId ∧ p'.positionStatus = p.positionStatus ∧
    p'.exitReason = p.exitReason ∧ p'.exitQuoteObservedAt = p.exitQuoteObservedAt ∧ p'.exitVwap = p.exitVwap ∧
    p'.accounting = p.accounting

def HasOutcome (o : Outcome) (s : State) : Prop := o ∈ s.tables.outcomes

def Probe.IsFinal (p : Probe) : Prop := p.positionStatus = .closed ∨ p.positionStatus = .exitUnresolved

def Outcome.IsFinal (o : Outcome) : Prop := o.status = .complete ∨ o.status = .missedDeadline

section

variable {s : State} {q : Statement} {t : Tables}

theorem Outcome.IsFinal.not_pending (ho : o.IsFinal) : o.status ≠ .pending := by
  rcases ho with h | h <;> rw [h] <;> nofun

theorem HasOutcome.commit (ho : o.IsFinal) (h : HasOutcome o s) (hwr : Wrote contract q s.tables t) :
    HasOutcome o (s.commit q t) := by
  obtain ⟨o', ho', hmv⟩ := hwr.outcomes.mem_forth h
  cases hmv with
  | same => exact ho'
  | completed _ _ _ hpending _ => exact absurd hpending ho.not_pending
  | inTime => exact ho'
  | late _ hla =>
    rw [Outcome.isLate, decide_eq_true_eq] at hla
    exact absurd hla.1 ho.not_pending

theorem Probe.IsFinal.not_open (hp : p.IsFinal) : p.positionStatus ≠ .open := by
  rcases hp with h | h <;> rw [h] <;> nofun

theorem Probe.IsFinal.not_notOpen (hp : p.IsFinal) : p.positionStatus ≠ .notOpen := by
  rcases hp with h | h <;> rw [h] <;> nofun

theorem HasPosition.commit (hp : p.IsFinal) (hs : Kept contract s) (hal : Allowed contract s q)
    (h : HasPosition p s) (hwr : Wrote contract q s.tables t) : HasPosition p (s.commit q t) := by
  obtain ⟨p', hp', hid, hps, het⟩ := h
  obtain ⟨p'', hp'', hmv⟩ := hwr.probes.mem_forth hp'
  refine ⟨p'', hp'', hmv.watchId.trans hid, ?_⟩
  cases hmv with
  | touched | rejected => exact ⟨hps, het⟩
  | opened hpending _ =>
    exact absurd (hps.symm.trans ((hs.probes p' hp').pending hpending)) hp.not_notOpen
  | @quoted probe quote due evaluation hq hid' hev =>
    subst hq
    obtain ⟨-, hsame, -⟩ := hal.1.row hs hp' hid'
    unfold Probe.quoted
    cases hreason : evaluation.exitReason with
    | none => exact ⟨hps, het⟩
    | some reason =>
      have hop : probe.positionStatus = .open := exitReason_open hev (by rw [hreason]; exact Option.some_ne_none _)
      exact absurd (hps.symm.trans (hsame.trans hop)) hp.not_open
  | inTime => exact ⟨hps, het⟩
  | late _ hla => exact absurd (hps.symm.trans (late_iff.1 hla).1) hp.not_open

theorem kept_by_calls (hwt : ∀ s elapsed, P s → P (s.wait elapsed))
    (hcm : ∀ s q t, Kept contract s → Allowed contract s q → Wrote contract q s.tables t → P s → P (s.commit q t))
    (h : History) (s : State) (o : Op) (c : Chance) (hpre : pre contract h s o) (hP : P s) :
    P ((timely contract cohortStartedAt).answer 0 s o c).2 := by
  by_cases hin : InTime contract s o
  · have hsame : (timely contract cohortStartedAt).answer 0 s o c = answer contract cohortStartedAt s o c :=
      guard_answer hin
    rw [hsame]
    cases o with
    | clock | quote => exact hwt s _ hP
    | db q =>
      change P (transact contract cohortStartedAt s q c).2
      rcases transact_cases q c with ⟨hst, -⟩ | ⟨a, t, hx, hst, -⟩
      · rw [hst]
        exact hwt s _ hP
      · rw [hst]
        exact hwt _ _ (hcm s q t hpre.1 hpre.2 (execute_wrote hx) hP)
  · have hno : (timely contract cohortStartedAt).answer 0 s o c = (.error .database, s) := guard_answer_not hin
    rw [hno]
    exact hP

end

def paperRun (contract : PaperContract) (config : PaperWorkerConfig) (cohortStartedAt now : ℤ)
    (steps : List (Step Round Chance Event)) : List History × State :=
  run (world contract cohortStartedAt) (Round.program contract config) (State.init now) steps

/-- The windows of the results that are stored. -/
structure InWindows (contract : PaperContract) (s : State) : Prop where
  completed : ∀ o ∈ s.tables.outcomes, o.status = .complete → ∃ observedAt, o.quoteObservedAt = some observedAt ∧
    o.dueAt ≤ observedAt ∧ observedAt ≤ o.dueAt + contract.maxLateness
  closed : ∀ p ∈ s.tables.probes, p.positionStatus = .closed → p.exitReason = some .maxHold →
    ∃ entryAt observedAt, p.entryAt = some entryAt ∧ p.exitQuoteObservedAt = some observedAt ∧
      observedAt ≤ entryAt + contract.maxHold + contract.maxLateness
  opened : ∀ p ∈ s.tables.probes, p.entryStatus = .opened → ∃ requestedAt,
    p.entryQuoteRequestedAt = some requestedAt ∧ requestedAt - p.watchDecisionAt ≤ contract.maxWatchToQuote
  oneProbe : (s.tables.probes.map Probe.watchId).Nodup

theorem Kept.inWindows {s : State} (hs : Kept contract s) : InWindows contract s where
  completed o ho := (hs.outcomes o ho).completed
  closed p hp := (hs.probes p hp).closed
  opened p hp := (hs.probes p hp).requested
  oneProbe := hs.oneProbe

section

variable (config : PaperWorkerConfig) (now : ℤ) {steps : List (Step Round Chance Event)}
  (hok : AllOk (InTime contract) (paperRun contract config cohortStartedAt now steps).1.flatten)

include hok

theorem paperRun_timely :
    run (timely contract cohortStartedAt) (Round.program contract config) (State.init now) steps =
      paperRun contract config cohortStartedAt now steps :=
  run_guard .database hok

theorem lasting_of_commit (hwt : ∀ s elapsed, P s → P (s.wait elapsed)) (hhp : ∀ s e, P s → P (s.happens e))
    (hcm : ∀ s q t, Kept contract s → Allowed contract s q → Wrote contract q s.tables t → P s → P (s.commit q t)) :
    Lasting P (State.init now) (paperRun contract config cohortStartedAt now steps).1.flatten
      (paperRun contract config cohortStartedAt now steps).2 := by
  have hsn : Serial.Sound (timely contract cohortStartedAt) _ _ _ := sound config
  have hlast := hsn.lasting hhp (kept_by_calls hwt hcm) (Kept.init now) (Lasting.nil P (State.init now)) steps
  rw [paperRun_timely config now hok, nil_append] at hlast
  exact hlast

end

/-- **Momentum paper results are priced inside their windows and are final**, in the runs in which no deadline
of a quoted probe passes between `expire_deadlines` and the quote. -/
theorem priced_in_windows (contract : PaperContract) (config : PaperWorkerConfig) (cohortStartedAt now : ℤ)
    (steps : List (Step Round Chance Event))
    (hok : AllOk (InTime contract) (paperRun contract config cohortStartedAt now steps).1.flatten) :
    InWindows contract (paperRun contract config cohortStartedAt now steps).2 ∧
    (∀ o : Outcome, o.IsFinal → Lasting (HasOutcome o) (State.init now)
      (paperRun contract config cohortStartedAt now steps).1.flatten
      (paperRun contract config cohortStartedAt now steps).2) ∧
    ∀ p : Probe, p.IsFinal → Lasting (HasPosition p) (State.init now)
      (paperRun contract config cohortStartedAt now steps).1.flatten
      (paperRun contract config cohortStartedAt now steps).2 := by
  refine ⟨?_, fun o ho => ?_, fun p hp => ?_⟩
  · have hsound : Serial.Sound (timely contract cohortStartedAt) _ _ _ := sound config
    have hkept := (hsound.run (Kept.init now) steps).1
    rw [paperRun_timely config now hok] at hkept
    exact hkept.inWindows
  · refine lasting_of_commit config now hok (fun _ _ h => h) (fun s e h => ?_)
      fun _ _ _ _ _ hwrote h => h.commit ho hwrote
    cases e <;> exact h
  · refine lasting_of_commit config now hok (fun _ _ h => h) (fun s e h => ?_)
      fun _ _ _ hs hallowed hwrote h => h.commit hp hs hallowed hwrote
    cases e <;> exact h

instance (s : State) (quote : ExecutableQuote) (deadline : ℤ) : Decidable (Passes s quote deadline) :=
  inferInstanceAs (Decidable (_ ∧ _))

instance (s : State) (o : Op) : Decidable (InTime contract s o) := by
  unfold InTime
  split <;> infer_instance

instance (log : History) : Decidable (AllOk (InTime contract) log) :=
  inferInstanceAs (Decidable (∀ c ∈ log, InTime contract c.before c.op))

def sampleWatch : WatchCandidate := ⟨1, "BTCUSDT", 0⟩

def sampleSteps (latency : ℕ) : List (Step Round Chance Event) :=
  let quoted : Chance := { vwap := .ok 100 }
  [.env (.watch sampleWatch), .pass (.tick true) (List.replicate 17 quoted), .env (.wait 14459000000),
    .pass (.tick true) (List.replicate 7 quoted ++ { quoted with elapsed := latency } :: List.replicate 5 quoted)]

/-- The quote is observed a minute and two seconds after the last outcome was due and the hold was over, and
both the outcome and the position take its price. -/
theorem late_quote_completes :
    (∃ o ∈ (paperRun frozenPaperContract {} 0 0 (sampleSteps 3000000)).2.tables.outcomes, o.status = .complete ∧
      o.dueAt = 14400 * second ∧ o.quoteObservedAt = some (14462 * second)) ∧
    (∃ p ∈ (paperRun frozenPaperContract {} 0 0 (sampleSteps 3000000)).2.tables.probes, p.positionStatus = .closed ∧
      p.exitReason = some .maxHold ∧ p.entryAt = some 0 ∧ p.exitQuoteObservedAt = some (14462 * second)) ∧
    frozenPaperContract.maxLateness = 60 * second ∧ frozenPaperContract.maxHold = 14400 * second := by
  decide +kernel

/-- With a quote that takes no time, the same run is in time. -/
theorem prompt_quote_completes :
    AllOk (InTime frozenPaperContract) (paperRun frozenPaperContract {} 0 0 (sampleSteps 0)).1.flatten ∧
    (∃ o ∈ (paperRun frozenPaperContract {} 0 0 (sampleSteps 0)).2.tables.outcomes, o.status = .complete) ∧
    InWindows frozenPaperContract (paperRun frozenPaperContract {} 0 0 (sampleSteps 0)).2 :=
  ⟨by decide +kernel, by decide +kernel,
    (priced_in_windows frozenPaperContract {} 0 0 (sampleSteps 0) (by decide +kernel)).1⟩

end Schurfer.MomentumPaper
