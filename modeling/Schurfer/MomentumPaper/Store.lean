import Mathlib.Data.List.Sort
import Schurfer.Legs.Performance
import Schurfer.Lib.Serial

/-!
# The tables of the momentum paper probe

Every function of `MomentumFlowPaperRepository` that the worker calls is one transaction. It may fail, or take effect
without being acknowledged; every call takes time. A probe is named by its watch, whose hash its `paper_id` is. The
columns that are only written are left out, and times are microseconds.
-/

namespace Schurfer.MomentumPaper

open Legs (Performance calculatePerformance)

def second : ℤ := 1000000

def minute : ℤ := 60 * second

structure PaperContract where
  positionNotionalUsd : ℚ
  stopLossPct : ℚ
  maxHoldMinutes : ℕ
  outcomeHorizonsMinutes : List ℕ
  maxWatchToQuoteSeconds : ℕ
  maxOutcomeQuoteLatenessSeconds : ℕ
  notional : 0 < positionNotionalUsd
  stopLoss : 0 < stopLossPct ∧ stopLossPct < 100
  hold : 0 < maxHoldMinutes
  sorted : outcomeHorizonsMinutes.Pairwise (· < ·)
  inside : ∀ h ∈ outcomeHorizonsMinutes, 0 < h ∧ h ≤ maxHoldMinutes
  final : outcomeHorizonsMinutes.getLast? = some maxHoldMinutes
  timing : 0 < maxWatchToQuoteSeconds ∧ 0 < maxOutcomeQuoteLatenessSeconds

def frozenPaperContract : PaperContract where
  positionNotionalUsd := 50
  stopLossPct := 5
  maxHoldMinutes := 240
  outcomeHorizonsMinutes := [5, 15, 30, 60, 120, 240]
  maxWatchToQuoteSeconds := 30
  maxOutcomeQuoteLatenessSeconds := 60
  notional := by norm_num
  stopLoss := by norm_num
  hold := by decide
  sorted := by decide
  inside := by decide
  final := by decide
  timing := by decide

section

variable (contract : PaperContract)

def PaperContract.maxWatchToQuote : ℤ := contract.maxWatchToQuoteSeconds * second

def PaperContract.maxLateness : ℤ := contract.maxOutcomeQuoteLatenessSeconds * second

def PaperContract.maxHold : ℤ := contract.maxHoldMinutes * minute

end

inductive EntryStatus
  | pending | opened | rejectedStale | rejectedQuote | unresolvedInterrupted
deriving DecidableEq

inductive PositionStatus
  | notOpen | open | closed | exitUnresolved
deriving DecidableEq

inductive ExitReason
  | stopLoss | maxHold
deriving DecidableEq

inductive OutcomeStatus
  | pending | complete | missedDeadline
deriving DecidableEq

structure WatchCandidate where
  watchId : ℕ
  symbol : String
  decisionAt : ℤ

structure ExecutableQuote where
  requestedAt : ℤ
  observedAt : ℤ
  vwap : ℚ

structure QuoteFailure where
  requestedAt : ℤ
  failedAt : ℤ
  reason : String

structure Probe where
  watchId : ℕ
  symbol : String
  watchDecisionAt : ℤ
  claimedAt : ℤ
  entryStatus : EntryStatus
  entryQuoteRequestedAt : Option ℤ := none
  entryAt : Option ℤ := none
  entryVwap : Option ℚ := none
  positionStatus : PositionStatus := .notOpen
  exitReason : Option ExitReason := none
  exitQuoteObservedAt : Option ℤ := none
  exitVwap : Option ℚ := none
  maxFavorableReturnPct : Option ℚ := none
  maxAdverseReturnPct : Option ℚ := none
  accounting : Option Performance := none
  updatedAt : ℤ

structure Outcome where
  watchId : ℕ
  horizonMinutes : ℕ
  dueAt : ℤ
  status : OutcomeStatus := .pending
  quoteObservedAt : Option ℤ := none
  bidVwap : Option ℚ := none
  accounting : Option Performance := none

structure PaperProbe where
  watchId : ℕ
  symbol : String
  entryAt : ℤ
  entryVwap : ℚ
  positionStatus : PositionStatus
  maxFavorableReturnPct : Option ℚ
  maxAdverseReturnPct : Option ℚ

inductive Failure
  | notPending
  | outcomeExists
  | accounting
  | database

structure Tables where
  watches : List WatchCandidate
  probes : List Probe
  outcomes : List Outcome

section

variable (contract : PaperContract) (t : Tables)

def abandonInterruptedEntries (now : ℤ) : ℕ × Tables :=
  (t.probes.countP fun p => p.entryStatus = .pending,
    { t with probes := t.probes.map fun p =>
        if p.entryStatus = .pending then { p with entryStatus := .unresolvedInterrupted, updatedAt := now } else p })

def firstWatches (watches : List WatchCandidate) (limit : ℕ) : List WatchCandidate :=
  (watches.insertionSort fun a b =>
    a.decisionAt < b.decisionAt ∨ a.decisionAt = b.decisionAt ∧ a.watchId ≤ b.watchId).take limit

def unclaimed (cohortStartedAt : ℤ) : List WatchCandidate :=
  t.watches.filter fun w => cohortStartedAt ≤ w.decisionAt ∧ ∀ p ∈ t.probes, p.watchId ≠ w.watchId

def dueFreshWatches (cohortStartedAt now : ℤ) (limit : ℕ) : List WatchCandidate :=
  firstWatches ((unclaimed t cohortStartedAt).filter fun w =>
    now - contract.maxWatchToQuote ≤ w.decisionAt ∧ w.decisionAt ≤ now) limit

def dueExpiredWatches (cohortStartedAt now : ℤ) (limit : ℕ) : List WatchCandidate :=
  firstWatches ((unclaimed t cohortStartedAt).filter fun w => w.decisionAt < now - contract.maxWatchToQuote) limit

def WatchCandidate.probe (w : WatchCandidate) (entryStatus : EntryStatus) (now : ℤ) : Probe where
  watchId := w.watchId
  symbol := w.symbol
  watchDecisionAt := w.decisionAt
  claimedAt := now
  entryStatus
  updatedAt := now

def insertProbe (probes : List Probe) (p : Probe) : Option ℕ × List Probe :=
  if ∃ q ∈ probes, q.watchId = p.watchId then (none, probes) else (some p.watchId, probes ++ [p])

def claimWatch (w : WatchCandidate) (now : ℤ) : Option ℕ × Tables :=
  let out := insertProbe t.probes (w.probe .pending now)
  (out.1, { t with probes := out.2 })

def insertProbes (probes : List Probe) (rows : List Probe) : List Probe :=
  rows.foldl (fun probes p => (insertProbe probes p).2) probes

def bulkRejectStaleWatches (candidates : List WatchCandidate) (now : ℤ) : ℕ × Tables :=
  let probes := insertProbes t.probes (candidates.map fun w => w.probe .rejectedStale now)
  (probes.length - t.probes.length, { t with probes })

def updatePendingEntry (watchId : ℕ) (set : Probe → Probe) : Except Failure Tables :=
  if ∃ p ∈ t.probes, p.watchId = watchId ∧ p.entryStatus = .pending then
    .ok { t with probes := t.probes.map fun p =>
      if p.watchId = watchId ∧ p.entryStatus = .pending then set p else p }
  else .error .notPending

def rejectStaleEntry (watchId : ℕ) (now : ℤ) : Except Failure Tables :=
  updatePendingEntry t watchId fun p => { p with entryStatus := .rejectedStale, updatedAt := now }

def rejectQuote (watchId : ℕ) (failure : QuoteFailure) : Except Failure Tables :=
  updatePendingEntry t watchId fun p => { p with
    entryStatus := .rejectedQuote, entryQuoteRequestedAt := some failure.requestedAt, updatedAt := failure.failedAt }

def Probe.opened (p : Probe) (quote : ExecutableQuote) : Probe :=
  { p with
    entryStatus := .opened
    entryQuoteRequestedAt := some quote.requestedAt
    entryAt := some quote.observedAt
    entryVwap := some quote.vwap
    positionStatus := .open
    maxFavorableReturnPct := some 0
    maxAdverseReturnPct := some 0
    updatedAt := quote.observedAt }

def outcomeRows (watchId : ℕ) (quote : ExecutableQuote) : List Outcome :=
  contract.outcomeHorizonsMinutes.map fun h => { watchId, horizonMinutes := h, dueAt := quote.observedAt + h * minute }

def openEntry (watchId : ℕ) (quote : ExecutableQuote) : Except Failure Tables := do
  let t ← updatePendingEntry t watchId fun p => p.opened quote
  if ∃ o ∈ t.outcomes, ∃ h ∈ contract.outcomeHorizonsMinutes, o.watchId = watchId ∧ o.horizonMinutes = h then
    throw .outcomeExists
  return { t with outcomes := t.outcomes ++ outcomeRows contract watchId quote }

def Outcome.isLate (o : Outcome) (now : ℤ) : Bool := o.status = .pending ∧ o.dueAt < now - contract.maxLateness

def Probe.isLate (p : Probe) (now : ℤ) : Bool :=
  p.positionStatus = .open ∧ p.entryAt.any fun entry => entry + contract.maxHold < now - contract.maxLateness

def expireDeadlines (now : ℤ) : (ℕ × ℕ) × Tables :=
  ((t.outcomes.countP fun o => o.isLate contract now, t.probes.countP fun p => p.isLate contract now),
    { t with
      outcomes := t.outcomes.map fun o =>
        if o.isLate contract now then { o with status := .missedDeadline } else o
      probes := t.probes.map fun p =>
        if p.isLate contract now then { p with positionStatus := .exitUnresolved, updatedAt := now } else p })

def Probe.snapshot (p : Probe) : Option PaperProbe :=
  match p.entryAt, p.entryVwap with
  | some entryAt, some entryVwap => some
    ⟨p.watchId, p.symbol, entryAt, entryVwap, p.positionStatus, p.maxFavorableReturnPct, p.maxAdverseReturnPct⟩
  | _, _ => none

def monitoredProbes (now : ℤ) (limit : ℕ) : List PaperProbe :=
  let due := t.probes.filter fun p => p.entryStatus = .opened ∧ (p.positionStatus = .open ∨
    ∃ o ∈ t.outcomes, o.watchId = p.watchId ∧ o.status = .pending ∧ o.dueAt ≤ now)
  ((due.insertionSort fun a b => a.updatedAt < b.updatedAt ∨ a.updatedAt = b.updatedAt ∧
    (a.entryAt.getD 0 < b.entryAt.getD 0 ∨ a.entryAt.getD 0 = b.entryAt.getD 0 ∧ a.watchId ≤ b.watchId)).take
      limit).filterMap Probe.snapshot

def pendingHorizons (watchId : ℕ) (now : ℤ) : List ℕ :=
  ((t.outcomes.filter fun o => o.watchId = watchId ∧ o.status = .pending ∧ o.dueAt ≤ now).map
    Outcome.horizonMinutes).insertionSort (· ≤ ·)

structure ProbeQuoteEvaluation where
  durationMinutes : ℚ
  performance : Performance
  favorableReturnPct : ℚ
  adverseReturnPct : ℚ
  exitReason : Option ExitReason

def accounting (entryPrice exitPrice durationMinutes : ℚ) : Except Failure Performance :=
  (calculatePerformance contract.positionNotionalUsd entryPrice exitPrice .long (max 0 durationMinutes) (some 0)
    (some 0)).mapError fun _ => .accounting

def evaluateProbeQuote (probe : PaperProbe) (quote : ExecutableQuote) : Except Failure ProbeQuoteEvaluation := do
  let duration : ℚ := max 0 ((quote.observedAt - probe.entryAt : ℤ) / (minute : ℚ))
  let performance ← accounting contract probe.entryVwap quote.vwap duration
  let gross := performance.grossReturnPct
  let exitReason := if probe.positionStatus ≠ .open then none
    else if gross ≤ -contract.stopLossPct then some .stopLoss
    else if contract.maxHoldMinutes ≤ duration then some .maxHold
    else none
  return ⟨duration, performance, max (probe.maxFavorableReturnPct.getD 0) gross,
    min (probe.maxAdverseReturnPct.getD 0) gross, exitReason⟩

def Outcome.completed (o : Outcome) (quote : ExecutableQuote) (performance : Performance) : Outcome :=
  { o with
    status := .complete, quoteObservedAt := some quote.observedAt, bidVwap := some quote.vwap
    accounting := some performance }

def Probe.quoted (p : Probe) (quote : ExecutableQuote) (evaluation : ProbeQuoteEvaluation) : Probe :=
  let p := { p with
    maxFavorableReturnPct := some evaluation.favorableReturnPct
    maxAdverseReturnPct := some evaluation.adverseReturnPct
    updatedAt := quote.observedAt }
  match evaluation.exitReason with
  | none => p
  | some reason => { p with
    positionStatus := .closed
    exitReason := some reason
    exitQuoteObservedAt := some quote.observedAt
    exitVwap := some quote.vwap
    accounting := some evaluation.performance }

def applyQuote (probe : PaperProbe) (quote : ExecutableQuote) (dueHorizons : List ℕ) :
    Except Failure (Option ExitReason × Tables) := do
  let evaluation ← evaluateProbeQuote contract probe quote
  -- a horizon is accounted for like the position, at the same price and duration
  let performance ← accounting contract probe.entryVwap quote.vwap evaluation.durationMinutes
  return (evaluation.exitReason,
    { t with
      outcomes := t.outcomes.map fun o =>
        if o.watchId = probe.watchId ∧ o.horizonMinutes ∈ dueHorizons ∧ o.status = .pending then
          o.completed quote performance else o
      probes := t.probes.map fun p => if p.watchId = probe.watchId then p.quoted quote evaluation else p })

def recordQuoteFailure (watchId : ℕ) (failure : QuoteFailure) : Tables :=
  { t with probes := t.probes.map fun p => if p.watchId = watchId then { p with updatedAt := failure.failedAt } else p }

end

inductive Statement
  | abandonInterruptedEntries (now : ℤ)
  | dueFreshWatches (now : ℤ) (limit : ℕ)
  | dueExpiredWatches (now : ℤ) (limit : ℕ)
  | claimWatch (candidate : WatchCandidate) (now : ℤ)
  | bulkRejectStaleWatches (candidates : List WatchCandidate) (now : ℤ)
  | rejectStaleEntry (watchId : ℕ) (now : ℤ)
  | rejectQuote (watchId : ℕ) (failure : QuoteFailure)
  | openEntry (watchId : ℕ) (quote : ExecutableQuote)
  | monitoredProbes (now : ℤ) (limit : ℕ)
  | pendingHorizons (watchId : ℕ) (now : ℤ)
  | applyQuote (probe : PaperProbe) (quote : ExecutableQuote) (dueHorizons : List ℕ)
  | recordQuoteFailure (watchId : ℕ) (failure : QuoteFailure)
  | expireDeadlines (now : ℤ)

abbrev Statement.Result : Statement → Type
  | .abandonInterruptedEntries _ => ℕ
  | .dueFreshWatches _ _ => List WatchCandidate
  | .dueExpiredWatches _ _ => List WatchCandidate
  | .claimWatch _ _ => Option ℕ
  | .bulkRejectStaleWatches _ _ => ℕ
  | .rejectStaleEntry _ _ => Unit
  | .rejectQuote _ _ => Unit
  | .openEntry _ _ => Unit
  | .monitoredProbes _ _ => List PaperProbe
  | .pendingHorizons _ _ => List ℕ
  | .applyQuote _ _ _ => Option ExitReason
  | .recordQuoteFailure _ _ => Unit
  | .expireDeadlines _ => ℕ × ℕ

inductive QuoteSide
  | ask | bid

inductive Op
  | clock
  | quote (symbol : String) (side : QuoteSide)
  | db (q : Statement)

abbrev Ans : Op → Type
  | .clock => ℤ
  | .quote _ _ => Except QuoteFailure ExecutableQuote
  | .db q => q.Result

section

variable (contract : PaperContract) (cohortStartedAt : ℤ)

def execute (t : Tables) : (q : Statement) → Except Failure (q.Result × Tables)
  | .abandonInterruptedEntries now => .ok (abandonInterruptedEntries t now)
  | .dueFreshWatches now limit => .ok (dueFreshWatches contract t cohortStartedAt now limit, t)
  | .dueExpiredWatches now limit => .ok (dueExpiredWatches contract t cohortStartedAt now limit, t)
  | .claimWatch w now => .ok (claimWatch t w now)
  | .bulkRejectStaleWatches candidates now => .ok (bulkRejectStaleWatches t candidates now)
  | .rejectStaleEntry watchId now => (rejectStaleEntry t watchId now).map ((), ·)
  | .rejectQuote watchId failure => (rejectQuote t watchId failure).map ((), ·)
  | .openEntry watchId quote => (openEntry contract t watchId quote).map ((), ·)
  | .monitoredProbes now limit => .ok (monitoredProbes t now limit, t)
  | .pendingHorizons watchId now => .ok (pendingHorizons t watchId now, t)
  | .applyQuote probe quote dueHorizons => applyQuote contract t probe quote dueHorizons
  | .recordQuoteFailure watchId failure => .ok ((), recordQuoteFailure t watchId failure)
  | .expireDeadlines now => .ok (expireDeadlines contract t now)

/-- The clock and the tables, and the clock that `expire_deadlines` was last given, which nothing reads. -/
structure State where
  now : ℤ
  tables : Tables
  expiredAt : ℤ

def State.init (now : ℤ) : State := ⟨now, ⟨[], [], []⟩, now⟩

inductive Commit
  | acknowledged | fails | lost

structure Chance where
  elapsed : ℕ := 0
  commit : Commit := .acknowledged
  vwap : Except String ℚ := .error ""

def Statement.expiry : Statement → Option ℤ
  | .expireDeadlines now => some now
  | _ => none

def State.wait (s : State) (elapsed : ℕ) : State := { s with now := s.now + elapsed }

def State.commit (s : State) (q : Statement) (t : Tables) : State :=
  { s with tables := t, expiredAt := q.expiry.getD s.expiredAt }

def transact (s : State) (q : Statement) (c : Chance) : Except Failure q.Result × State :=
  match execute contract cohortStartedAt s.tables q with
  | .error e => (.error e, s.wait c.elapsed)
  | .ok (a, t) =>
    match c.commit with
    | .fails => (.error .database, s.wait c.elapsed)
    | .lost => (.error .database, (s.commit q t).wait c.elapsed)
    | .acknowledged => (.ok a, (s.commit q t).wait c.elapsed)

def answer (s : State) : (o : Op) → Chance → Except Failure (Ans o) × State
  | .clock, c => (.ok (s.now + c.elapsed), s.wait c.elapsed)
  | .quote _ _, c =>
    (.ok (match c.vwap with
      | .ok vwap => .ok ⟨s.now, s.now + c.elapsed, vwap⟩
      | .error reason => .error ⟨s.now, s.now + c.elapsed, reason⟩), s.wait c.elapsed)
  | .db q, c => transact contract cohortStartedAt s q c

inductive Event
  | watch (w : WatchCandidate)
  | wait (elapsed : ℕ)

def State.happens (s : State) : Event → State
  | .watch w => { s with tables := { s.tables with watches := s.tables.watches ++ [w] } }
  | .wait elapsed => s.wait elapsed

def world : Threads.World State Failure Op Ans Chance Event where
  answer _ s o c := answer contract cohortStartedAt s o c
  env := State.happens
  crash _ s := s

end

end Schurfer.MomentumPaper
