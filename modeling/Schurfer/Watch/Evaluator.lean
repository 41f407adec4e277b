import Mathlib.Data.List.Sort
import Mathlib.Data.Rat.Floor
import Mathlib.Tactic

/-!
# The evaluator of the momentum-flow watch

`evaluate_prepared`: an episode is active from a qualified minute on until enough clear minutes have passed, and a
watch starts a cooldown. The features of a symbol are an input here. Times are microseconds, and the floats are
rationals.
-/

namespace Schurfer.Watch

def minute : ℤ := 60000000

inductive QualityReason
  | identityUnresolved | insufficientHistory | missingCurrentBar | nonConsecutiveBars | incompleteBar | feedGap
  | missingPrice | staleQuote | missingFreshOi | inputNotAvailableAtDecision | invalidNumericInput
  | insufficientFlowBaseline
deriving DecidableEq

inductive SignalReason
  | crossSectionTooSmall | oiGrowthBelowThreshold | buyImbalanceBelowThreshold | flowAccelerationBelowThreshold
  | flowNotionalBelowFloor | priceOutsideContainment
deriving DecidableEq

inductive DecisionStatus
  | watch | rejectedQuality | rejectedSignal | suppressedActiveEpisode | suppressedCooldown
deriving DecidableEq

inductive ReasonCode
  | quality (r : QualityReason)
  | signal (r : SignalReason)
  | status (s : DecisionStatus)
deriving DecidableEq

structure WatchContract where
  minCrossSectionSize : ℕ
  oiGrowthPercentile : ℚ
  buyImbalancePercentile : ℚ
  flowAccelerationPercentile : ℚ
  minOiGrowthPct : ℚ
  minBuyImbalance : ℚ
  minFlowAcceleration : ℚ
  minFlowNotionalUsd15m : ℚ
  minPriceReturn60mPct : ℚ
  maxPriceReturn60mPct : ℚ
  maxPriceReturn15mPct : ℚ
  maxBucketDecisionDelaySeconds : ℕ
  rearmClearMinutes : ℕ
  watchCooldownMinutes : ℕ
  positive : 0 < min (min minCrossSectionSize maxBucketDecisionDelaySeconds)
    (min rearmClearMinutes watchCooldownMinutes)
  percentiles : ∀ p ∈ [oiGrowthPercentile, buyImbalancePercentile, flowAccelerationPercentile], 0 < p ∧ p ≤ 1
  notional : 0 ≤ minFlowNotionalUsd15m
  returns : minPriceReturn60mPct ≤ maxPriceReturn60mPct

def frozenWatchContract : WatchContract where
  minCrossSectionSize := 100
  oiGrowthPercentile := 9 / 10
  buyImbalancePercentile := 9 / 10
  flowAccelerationPercentile := 3 / 4
  minOiGrowthPct := 0
  minBuyImbalance := 1 / 10
  minFlowAcceleration := 3 / 2
  minFlowNotionalUsd15m := 10000
  minPriceReturn60mPct := -5
  maxPriceReturn60mPct := 12
  maxPriceReturn15mPct := 6
  maxBucketDecisionDelaySeconds := 120
  rearmClearMinutes := 5
  watchCooldownMinutes := 360
  positive := by decide
  percentiles := by decide +kernel
  notional := by decide +kernel
  returns := by decide +kernel

structure WatchFeatures where
  priceReturn60mPct : ℚ
  priceReturn15mPct : ℚ
  oiGrowth60mPct : ℚ
  buyNotional15mUsd : ℚ
  sellNotional15mUsd : ℚ
  flowNotional15mUsd : ℚ
  buyImbalance15m : ℚ
  flowAcceleration15mVsPrior45m : ℚ
deriving DecidableEq

structure PreparedEvaluation where
  symbol : String
  bucketStart : ℤ
  universeVersion : String
  sourceEventAt : Option ℤ
  sourceReceivedAt : Option ℤ
  bucketReadyAt : Option ℤ
  qualityReasons : List QualityReason
  features : Option WatchFeatures

def PreparedEvaluation.qualityReady (p : PreparedEvaluation) : Bool := p.qualityReasons.isEmpty && p.features.isSome

structure CrossSectionThresholds where
  sampleSize : ℕ
  oiGrowth60mPct : Option ℚ
  buyImbalance15m : Option ℚ
  flowAcceleration15mVsPrior45m : Option ℚ
deriving DecidableEq

inductive Uuid
  | episode (symbol : String) (bucketStart : ℤ)
  | watch (symbol : String) (bucketStart : ℤ)
deriving DecidableEq

structure SymbolWatchState where
  activeEpisode : Bool := false
  clearStreak : ℕ := 0
  lastWatchAt : Option ℤ := none
  episodeId : Option Uuid := none
deriving DecidableEq

structure WatchEvaluation where
  symbol : String
  bucketStart : ℤ
  universeVersion : String
  sourceEventAt : Option ℤ
  sourceReceivedAt : Option ℤ
  bucketReadyAt : Option ℤ
  qualityReady : Bool
  rawQualified : Bool
  decisionStatus : DecisionStatus
  reasonCodes : List ReasonCode
  features : Option WatchFeatures
  thresholds : CrossSectionThresholds
  episodeId : Option Uuid
  watchId : Option Uuid
deriving DecidableEq

inductive Failure
  | decisionBeforeBucket
  | symbolTwice
  | otherBucket
  | hashMismatch
  | notCommitted
  | unacknowledged
deriving DecidableEq

section

variable (contract : WatchContract)

def percentile (values : List ℚ) (fraction : ℚ) : ℚ :=
  (values.insertionSort (· ≤ ·)).getD (⌈fraction * values.length⌉ - 1).toNat 0

def buildCrossSectionThresholds (prepared : List PreparedEvaluation) : CrossSectionThresholds :=
  let features := (prepared.filter PreparedEvaluation.qualityReady).filterMap PreparedEvaluation.features
  if features.length < contract.minCrossSectionSize then ⟨features.length, none, none, none⟩
  else
    { sampleSize := features.length
      oiGrowth60mPct := some (percentile (features.map WatchFeatures.oiGrowth60mPct) contract.oiGrowthPercentile)
      buyImbalance15m := some (percentile (features.map WatchFeatures.buyImbalance15m) contract.buyImbalancePercentile)
      flowAcceleration15mVsPrior45m := some (percentile (features.map WatchFeatures.flowAcceleration15mVsPrior45m)
        contract.flowAccelerationPercentile) }

def signalReasons (features : WatchFeatures) (thresholds : CrossSectionThresholds) : List SignalReason :=
  match thresholds.oiGrowth60mPct, thresholds.buyImbalance15m, thresholds.flowAcceleration15mVsPrior45m with
  | some oiGrowth, some buyImbalance, some flowAcceleration =>
    (if features.oiGrowth60mPct < max contract.minOiGrowthPct oiGrowth then [.oiGrowthBelowThreshold] else []) ++
    (if features.buyImbalance15m < max contract.minBuyImbalance buyImbalance then [.buyImbalanceBelowThreshold]
      else []) ++
    (if features.flowAcceleration15mVsPrior45m < max contract.minFlowAcceleration flowAcceleration then
      [.flowAccelerationBelowThreshold] else []) ++
    (if features.flowNotional15mUsd < contract.minFlowNotionalUsd15m then [.flowNotionalBelowFloor] else []) ++
    (if ¬ (contract.minPriceReturn60mPct ≤ features.priceReturn60mPct ∧
        features.priceReturn60mPct ≤ contract.maxPriceReturn60mPct ∧
        features.priceReturn15mPct ≤ contract.maxPriceReturn15mPct) then [.priceOutsideContainment] else [])
  | _, _, _ => [.crossSectionTooSmall]

def PreparedEvaluation.decided (p : PreparedEvaluation) (thresholds : CrossSectionThresholds)
    (status : DecisionStatus) (rawQualified : Bool) (reasons : List ReasonCode) (features : Option WatchFeatures)
    (episodeId watchId : Option Uuid) : WatchEvaluation where
  symbol := p.symbol
  bucketStart := p.bucketStart
  universeVersion := p.universeVersion
  sourceEventAt := p.sourceEventAt
  sourceReceivedAt := p.sourceReceivedAt
  bucketReadyAt := p.bucketReadyAt
  qualityReady := features.isSome
  rawQualified
  decisionStatus := status
  reasonCodes := reasons
  features
  thresholds
  episodeId
  watchId

def SymbolWatchState.clear (state : SymbolWatchState) : SymbolWatchState :=
  if ¬ state.activeEpisode then { state with clearStreak := 0, episodeId := none }
  else if contract.rearmClearMinutes ≤ state.clearStreak + 1 then
    { state with activeEpisode := false, clearStreak := 0, episodeId := none }
  else { state with clearStreak := state.clearStreak + 1 }

def SymbolWatchState.coolsDown (state : SymbolWatchState) (bucketStart : ℤ) : Bool :=
  match state.lastWatchAt with
  | some at' => bucketStart - at' < contract.watchCooldownMinutes * minute
  | none => false

def evaluatePrepared (prepared : PreparedEvaluation) (thresholds : CrossSectionThresholds) (state : SymbolWatchState)
    (decisionAt : ℤ) : Except Failure (WatchEvaluation × SymbolWatchState) :=
  if decisionAt < prepared.bucketStart then .error .decisionBeforeBucket
  else match if prepared.qualityReady then prepared.features else none with
    | none => .ok (prepared.decided thresholds .rejectedQuality false (prepared.qualityReasons.map .quality) none
        state.episodeId none, state)
    | some features =>
      let reasons := signalReasons contract features thresholds
      if reasons ≠ [] then
        let next := if reasons = [.crossSectionTooSmall] then state else state.clear contract
        .ok (prepared.decided thresholds .rejectedSignal false (reasons.map .signal) (some features)
          state.episodeId none, next)
      else
        let episodeId := state.episodeId.getD (.episode prepared.symbol prepared.bucketStart)
        if state.activeEpisode then
          .ok (prepared.decided thresholds .suppressedActiveEpisode true [.status .suppressedActiveEpisode]
            (some features) (some episodeId) none, { state with clearStreak := 0, episodeId := some episodeId })
        else if state.coolsDown contract prepared.bucketStart then
          .ok (prepared.decided thresholds .suppressedCooldown true [.status .suppressedCooldown]
            (some features) (some episodeId) none, ⟨true, 0, state.lastWatchAt, some episodeId⟩)
        else
          .ok (prepared.decided thresholds .watch true [] (some features) (some episodeId)
            (some (.watch prepared.symbol prepared.bucketStart)),
            ⟨true, 0, some prepared.bucketStart, some episodeId⟩)

end

def WatchEvaluation.isClear (e : WatchEvaluation) : Bool :=
  e.decisionStatus = .rejectedSignal && e.reasonCodes ≠ [.signal .crossSectionTooSmall]

inductive Decides (contract : WatchContract) (s : SymbolWatchState) : WatchEvaluation → SymbolWatchState → Prop
  | unjudged {e : WatchEvaluation} (hraw : e.rawQualified = false) (hwatch : e.decisionStatus ≠ .watch) :
      Decides contract s e s
  | clear {e : WatchEvaluation} (hraw : e.rawQualified = false) (hwatch : e.decisionStatus ≠ .watch)
      (hclear : e.isClear = true) : Decides contract s e (s.clear contract)
  | suppressed {e : WatchEvaluation} {s' : SymbolWatchState} (hwatch : e.decisionStatus ≠ .watch)
      (hactive : s'.activeEpisode = true) (hstreak : s'.clearStreak = 0) (hlast : s'.lastWatchAt = s.lastWatchAt) :
      Decides contract s e s'
  | watch {e : WatchEvaluation} {s' : SymbolWatchState} (hinactive : s.activeEpisode = false)
      (hcool : s.coolsDown contract e.bucketStart = false) (hactive : s'.activeEpisode = true)
      (hstreak : s'.clearStreak = 0) (hlast : s'.lastWatchAt = some e.bucketStart) : Decides contract s e s'

variable {contract : WatchContract}

theorem evaluatePrepared_cases {prepared : PreparedEvaluation} {thresholds : CrossSectionThresholds}
    {state state' : SymbolWatchState} {decisionAt : ℤ} {e : WatchEvaluation}
    (h : evaluatePrepared contract prepared thresholds state decisionAt = .ok (e, state')) :
    e.symbol = prepared.symbol ∧ e.bucketStart = prepared.bucketStart ∧ Decides contract state e state' := by
  unfold evaluatePrepared at h
  split at h
  · cases h
  split at h
  · cases h
    exact ⟨rfl, rfl, .unjudged rfl DecisionStatus.noConfusion⟩
  · rename_i features _
    by_cases hrs : signalReasons contract features thresholds = []
    · rw [if_neg (not_not.2 hrs)] at h
      by_cases hactive : state.activeEpisode = true
      · rw [if_pos hactive] at h
        cases h
        exact ⟨rfl, rfl, .suppressed DecisionStatus.noConfusion hactive rfl rfl⟩
      · rw [if_neg hactive] at h
        by_cases hcool : state.coolsDown contract prepared.bucketStart = true
        · rw [if_pos hcool] at h
          cases h
          exact ⟨rfl, rfl, .suppressed DecisionStatus.noConfusion rfl rfl rfl⟩
        · rw [if_neg hcool] at h
          cases h
          exact ⟨rfl, rfl, .watch (Bool.eq_false_iff.2 hactive) (Bool.eq_false_iff.2 hcool) rfl rfl rfl⟩
    · rw [if_pos hrs] at h
      cases h
      refine ⟨rfl, rfl, ?_⟩
      split
      · exact .unjudged rfl DecisionStatus.noConfusion
      · rename_i hsm
        refine .clear rfl DecisionStatus.noConfusion ?_
        have hcd : (signalReasons contract features thresholds).map ReasonCode.signal ≠
            [.signal .crossSectionTooSmall] := by
          intro hcd
          exact hsm (List.map_injective_iff.2 (fun _ _ heq => ReasonCode.signal.inj heq) hcd)
        simp [WatchEvaluation.isClear, PreparedEvaluation.decided, hcd]

end Schurfer.Watch
