import Schurfer.MomentumPaper.Store

/-!
# A tick of the momentum paper worker

`process_tick` claims fresh watches, expires what is past its deadline, and then quotes the probes it finds one by
one. Its health record, the lock that keeps the worker single and the logs are left out.
-/

namespace Schurfer.MomentumPaper

structure PaperWorkerConfig where
  watchBatchSize : ℕ := 20
  probeBatchSize : ℕ := 100
  probeChunkSize : ℕ := 10
  probeChunkSeconds : ℚ := 3
  positive : 0 < watchBatchSize ∧ 0 < probeBatchSize ∧ 0 < probeChunkSize ∧ 0 < probeChunkSeconds := by norm_num

inductive EntryResult
  | alreadyClaimed | stale | quoteRejected | opened
deriving DecidableEq

structure Serviced where
  entries : List EntryResult := []
  probes : List (Bool × Bool) := []

structure TickResult where
  watchesSeen : ℕ
  entriesOpened : ℕ
  entriesStale : ℕ
  entriesStaleCleaned : ℕ
  entriesQuoteRejected : ℕ
  probesQuoted : ℕ
  quoteFailures : ℕ
  positionsClosed : ℕ
  outcomesExpired : ℕ
  exitsUnresolved : ℕ

abbrev Script := Prog Failure Op Ans

def call (o : Op) : Script (Ans o) := Prog.perform o

def query (q : Statement) : Script q.Result := Prog.perform (Op.db q)

section

variable (contract : PaperContract) (config : PaperWorkerConfig)

def processEntry (candidate : WatchCandidate) : Script EntryResult := do
  let claimedAt ← call .clock
  match ← query (.claimWatch candidate claimedAt) with
  | none => return .alreadyClaimed
  | some watchId =>
    if contract.maxWatchToQuote < claimedAt - candidate.decisionAt then
      query (.rejectStaleEntry watchId claimedAt)
      return .stale
    else
      match ← call (.quote candidate.symbol .ask) with
      | .error failure =>
        query (.rejectQuote watchId failure)
        return .quoteRejected
      | .ok quote =>
        if contract.maxWatchToQuote < quote.requestedAt - candidate.decisionAt then
          query (.rejectStaleEntry watchId quote.observedAt)
          return .stale
        else
          query (.openEntry watchId quote)
          return .opened

def processEntries : List WatchCandidate → Script (List EntryResult)
  | [] => return []
  | candidate :: rest => do
    let result ← processEntry contract candidate
    let results ← processEntries rest
    return result :: results

def processFreshEntries (allowNewEntries : Bool) : Script (List EntryResult) := do
  if allowNewEntries then
    let now ← call .clock
    let candidates ← query (.dueFreshWatches now config.watchBatchSize)
    processEntries contract candidates
  else return []

def processProbe (probe : PaperProbe) : Script (Bool × Bool) := do
  match ← call (.quote probe.symbol .bid) with
  | .error failure =>
    query (.recordQuoteFailure probe.watchId failure)
    return (false, false)
  | .ok quote =>
    let due ← query (.pendingHorizons probe.watchId quote.observedAt)
    let exitReason ← query (.applyQuote probe quote due)
    return (true, exitReason.isSome)

def serviceProbes (allowNewEntries : Bool) : List PaperProbe → ℤ → ℕ → Script Serviced
  | [], _, _ => return {}
  | probe :: rest, chunkStarted, chunkCount => do
    let serviced ← processProbe probe
    let now ← call .clock
    if rest ≠ [] ∧ (config.probeChunkSize ≤ chunkCount + 1 ∨
        config.probeChunkSeconds * second ≤ (now - chunkStarted : ℤ)) then
      let fresh ← processFreshEntries contract config allowNewEntries
      let restarted ← call .clock
      let more ← serviceProbes allowNewEntries rest restarted 0
      return ⟨fresh ++ more.entries, serviced :: more.probes⟩
    else
      let more ← serviceProbes allowNewEntries rest chunkStarted (chunkCount + 1)
      return { more with probes := serviced :: more.probes }

def cleanUp (allowNewEntries : Bool) : Script (ℕ × ℕ) := do
  let now ← call .clock
  if allowNewEntries then
    let candidates ← query (.dueExpiredWatches now config.watchBatchSize)
    if candidates = [] then return (0, 0)
    else
      let rejectedAt ← call .clock
      let rejected ← query (.bulkRejectStaleWatches candidates rejectedAt)
      return (candidates.length, rejected)
  else return (0, 0)

def processTick (allowNewEntries : Bool) : Script TickResult := do
  let fresh ← processFreshEntries contract config allowNewEntries
  let expireAt ← call .clock
  let expired ← query (.expireDeadlines expireAt)
  let monitorAt ← call .clock
  let probes ← query (.monitoredProbes monitorAt config.probeBatchSize)
  let chunkStarted ← call .clock
  let serviced ← serviceProbes contract config allowNewEntries probes chunkStarted 0
  let cleaned ← cleanUp config allowNewEntries
  let entries := fresh ++ serviced.entries
  return {
    watchesSeen := entries.length + cleaned.1
    entriesOpened := entries.count .opened
    entriesStale := entries.count .stale
    entriesStaleCleaned := cleaned.2
    entriesQuoteRejected := entries.count .quoteRejected
    probesQuoted := serviced.probes.countP fun p => p.1
    quoteFailures := serviced.probes.countP fun p => !p.1
    positionsClosed := serviced.probes.countP fun p => p.2
    outcomesExpired := expired.1
    exitsUnresolved := expired.2 }

inductive Round
  | start
  | tick (allowNewEntries : Bool)

def Round.program : Round → Script Unit
  | .start => do
    let now ← call .clock
    let _ ← query (.abandonInterruptedEntries now)
  | .tick allowNewEntries => do
    let _ ← processTick contract config allowNewEntries

end

end Schurfer.MomentumPaper
