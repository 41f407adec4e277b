import Schurfer.Lib.Dict
import Schurfer.Lib.Except
import Schurfer.Watch.Evaluator

/-!
# The watch worker

The process loads the stored states once and keeps them in a dictionary, which is brought up to date after the
transaction of a bucket. A transaction may fail, or take effect without being acknowledged. Left out are the bars
behind the features, the health record and the lock. The hash of a row is taken to tell different rows apart.
-/

namespace Schurfer.Watch

structure EvaluationRow where
  evaluation : WatchEvaluation
  stateActiveAfter : Bool
  stateClearStreakAfter : ℕ
  stateLastWatchAtAfter : Option ℤ
  evaluatorStartedAt : ℤ
  evaluatorCompletedAt : ℤ
  decisionAt : ℤ

def EvaluationRow.symbol (r : EvaluationRow) : String := r.evaluation.symbol

def EvaluationRow.bucketStart (r : EvaluationRow) : ℤ := r.evaluation.bucketStart

def EvaluationRow.inputHash (r : EvaluationRow) : WatchEvaluation × Bool × ℕ × Option ℤ :=
  (r.evaluation, r.stateActiveAfter, r.stateClearStreakAfter, r.stateLastWatchAtAfter)

structure StateRow where
  state : SymbolWatchState
  lastBucketStart : ℤ

structure WatchRun where
  cohortStartedAt : ℤ
  lastBucketStart : Option ℤ

structure Store where
  run : Option WatchRun
  evaluations : List EvaluationRow
  states : Dict String StateRow

def Store.lastBucketStart (store : Store) : Option ℤ := store.run.bind WatchRun.lastBucketStart

abbrev States := Dict String SymbolWatchState

def stateOf (states : States) (symbol : String) : SymbolWatchState := (states.lookup symbol).getD {}

def Store.stateOf (store : Store) (symbol : String) : SymbolWatchState :=
  ((store.states.lookup symbol).map StateRow.state).getD {}

structure EvaluationWrite where
  evaluation : WatchEvaluation
  stateAfter : SymbolWatchState
  stateChanged : Bool
  evaluatorStartedAt : ℤ
  evaluatorCompletedAt : ℤ
  decisionAt : ℤ

def EvaluationWrite.symbol (w : EvaluationWrite) : String := w.evaluation.symbol

def EvaluationWrite.row (w : EvaluationWrite) : EvaluationRow where
  evaluation := w.evaluation
  stateActiveAfter := w.stateAfter.activeEpisode
  stateClearStreakAfter := w.stateAfter.clearStreak
  stateLastWatchAtAfter := w.stateAfter.lastWatchAt
  evaluatorStartedAt := w.evaluatorStartedAt
  evaluatorCompletedAt := w.evaluatorCompletedAt
  decisionAt := w.decisionAt

structure LoadedSymbol where
  symbol : String
  universeVersion : String := ""
  sourceEventAt : Option ℤ := none
  sourceReceivedAt : Option ℤ := none
  bucketReadyAt : Option ℤ := none
  qualityReasons : List QualityReason := []
  features : Option WatchFeatures := none

def LoadedSymbol.prepared (s : LoadedSymbol) (bucketStart : ℤ) : PreparedEvaluation where
  symbol := s.symbol
  bucketStart
  universeVersion := s.universeVersion
  sourceEventAt := s.sourceEventAt
  sourceReceivedAt := s.sourceReceivedAt
  bucketReadyAt := s.bucketReadyAt
  qualityReasons := s.qualityReasons
  features := s.features

inductive Commit
  | acknowledged | fails | lost

structure Load where
  symbols : List LoadedSymbol
  evaluatorStartedAt : ℤ
  decisionAt : ℤ
  evaluatorCompletedAt : ℤ
  commit : Commit := .acknowledged

section

variable (contract : WatchContract)

def evaluateBucket (bucketStart : ℤ) (load : Load) (states : States) : Except Failure (List EvaluationWrite) := do
  let prepared := load.symbols.map fun s => s.prepared bucketStart
  let thresholds := buildCrossSectionThresholds contract prepared
  let evaluated ← prepared.mapM fun row =>
    evaluatePrepared contract row thresholds (stateOf states row.symbol) load.decisionAt
  return evaluated.map fun (evaluation, stateAfter) =>
    { evaluation, stateAfter
      stateChanged := stateAfter ≠ stateOf states evaluation.symbol
      evaluatorStartedAt := load.evaluatorStartedAt
      evaluatorCompletedAt := load.evaluatorCompletedAt
      decisionAt := load.decisionAt }

def insertEvaluation (rows : List EvaluationRow) (row : EvaluationRow) : List EvaluationRow :=
  if ∃ r ∈ rows, r.symbol = row.symbol ∧ r.bucketStart = row.bucketStart then rows else rows ++ [row]

def upsertState (states : Dict String StateRow) (w : EvaluationWrite) : Dict String StateRow :=
  let new : StateRow := ⟨w.stateAfter, w.evaluation.bucketStart⟩
  match states.lookup w.symbol with
  | some old => if old.lastBucketStart ≤ new.lastBucketStart then AList.insert w.symbol new states else states
  | none => AList.insert w.symbol new states

def sameHashes (table : List EvaluationRow) (rows : List EvaluationRow) : Bool :=
  rows.all fun row =>
    (table.find? fun r => r.symbol = row.symbol ∧ r.bucketStart = row.bucketStart).map EvaluationRow.inputHash =
      some row.inputHash

def WatchRun.advance (run : WatchRun) (bucketStart : ℤ) : WatchRun :=
  { run with lastBucketStart := some (max (run.lastBucketStart.getD bucketStart) bucketStart) }

def persistBucket (store : Store) (writes : List EvaluationWrite) : Except Failure Store :=
  match writes with
  | [] => .ok store
  | first :: _ =>
    let rows := writes.map EvaluationWrite.row
    let evaluations := rows.foldl insertEvaluation store.evaluations
    if ¬ (writes.map EvaluationWrite.symbol).Nodup then .error .symbolTwice
    else if ∃ w ∈ writes, w.evaluation.bucketStart ≠ first.evaluation.bucketStart then .error .otherBucket
    else if ¬ sameHashes evaluations rows then .error .hashMismatch
    else .ok
      { run := store.run.map fun run => run.advance first.evaluation.bucketStart
        evaluations
        states := (writes.filter EvaluationWrite.stateChanged).foldl upsertState store.states }

end

structure Memory where
  cohortStartedAt : ℤ
  states : States

structure Worker where
  store : Store
  memory : Option Memory

structure Tick where
  captured : List ℤ
  now : ℤ
  load : ℤ → Option Load

section

variable (contract : WatchContract) (batchSize : ℕ)

def startOfMinute (t : ℤ) : ℤ := t / minute * minute

def dueBuckets (store : Store) (cohortStartedAt : ℤ) (captured : List ℤ) (now : ℤ) : List ℤ :=
  let first := startOfMinute cohortStartedAt + minute
  let lower := match store.lastBucketStart with
    | some last => max first (last + minute)
    | none => first
  let upper := now - (60 + min (contract.maxBucketDecisionDelaySeconds / 4) 30 : ℕ) * 1000000
  (((captured.filter fun b => lower ≤ b ∧ b ≤ upper).dedup).insertionSort (· ≤ ·)).take batchSize

def evaluateBuckets (load : ℤ → Option Load) : List ℤ → Store → States → Store × States × Option Failure
  | [], store, states => (store, states, none)
  | b :: due, store, states =>
    match load b with
    | none => evaluateBuckets load due store states
    | some l =>
      match evaluateBucket contract b l states with
      | .error e => (store, states, some e)
      | .ok writes =>
        match persistBucket store writes with
        | .error e => (store, states, some e)
        | .ok committed =>
          match l.commit with
          | .fails => (store, states, some .notCommitted)
          -- the commit took effect, but `states.update` is not reached
          | .lost => (committed, states, some .unacknowledged)
          | .acknowledged =>
            evaluateBuckets load due committed
              (Dict.update EvaluationWrite.symbol EvaluationWrite.stateAfter states writes)

def tick (w : Worker) (t : Tick) : Worker × Option Failure :=
  match w.memory with
  | none => (w, none)
  | some m =>
    let due := dueBuckets contract batchSize w.store m.cohortStartedAt t.captured t.now
    let out := evaluateBuckets contract t.load due w.store m.states
    (⟨out.1, some { m with states := out.2.1 }⟩, out.2.2)

def start (w : Worker) (now : ℤ) : Worker :=
  let run := w.store.run.getD ⟨now, none⟩
  let states : States := Dict.ofRows Sigma.fst (fun row => row.2.state) w.store.states.entries
  ⟨{ w.store with run := some run }, some ⟨run.cohortStartedAt, states⟩⟩

inductive Step
  | start (now : ℤ)
  | tick (t : Tick)

def step (w : Worker) : Step → Worker
  | .start now => start w now
  | .tick t => (tick contract batchSize w t).1

def Worker.init : Worker := ⟨⟨none, [], ∅⟩, none⟩

def run (w : Worker) (steps : List Step) : Worker := steps.foldl (step contract batchSize) w

end

end Schurfer.Watch
