import Schurfer.Hold12hFunding.Fetch
import Schurfer.MomentumPaper.Store

/-!
# Capturing the funding of closed probes

`run_capture` fetches the venue's history for each closed probe interval that no complete run spans, and records the
run with the padded bounds it asked for. Times are microseconds. The columns nothing reads are left out.
-/

namespace Schurfer.Hold12hFunding

open List

open MomentumPaper (PositionStatus minute)

def hour : ℤ := 60 * minute

structure InstrumentRoute where
  exchange : String
  marketType : String
  marketId : String
  unifiedSymbol : String
deriving DecidableEq

def routeKey (route : InstrumentRoute) : RouteKey := (route.exchange, route.marketId)

structure ParsedSettlement where
  settlementAt : ℤ
  fundingRate : ℚ

def sourceTimestampMs (timestamp : Timestamp) : Option ℤ :=
  let value := match timestamp with
    | .int n => some n
    | .float q => some (q.num.tdiv q.den)
    | .bool _ | .other => none
  value.filter fun ms => decide (946684800000 ≤ ms)

def parseSettlement (row : Row) : Option ParsedSettlement := do
  let ms ← sourceTimestampMs row.timestamp
  let rate ← row.fundingRate
  return ⟨1000 * ms, rate⟩

def maxSettlementGap : ℤ := 8 * hour

section

variable (entry exitAt : ℤ)

def gapTooLong (pair : ℤ × ℤ) : Bool :=
  !(decide (pair.2 ≤ entry) || decide (exitAt ≤ pair.1)) && decide (maxSettlementGap < pair.2 - pair.1)

def windowStatus (fetch : DerivativesHistoryFetch) (settlements : List ParsedSettlement) (parseFailures : ℕ) :
    CoverageStatus :=
  if coverageStatus fetch ≠ .complete then coverageStatus fetch
  else if 0 < parseFailures then .incomplete
  else
    let times := (settlements.map (·.settlementAt)).dedup.insertionSort (· ≤ ·)
    match times.head?, times.getLast? with
    | some first, some last =>
      if ¬(first ≤ entry ∧ exitAt ≤ last) then .incomplete
      -- the venue settles on the hour
      else if times.any fun t => t % hour ≠ 0 then .incomplete
      else if (times.zip times.tail).any (gapTooLong entry exitAt) then .incomplete
      else .complete
    | _, _ => .incomplete

variable {entry exitAt} {fetch : DerivativesHistoryFetch} {settlements : List ParsedSettlement} {parseFailures : ℕ}

theorem windowStatus_complete (h : windowStatus entry exitAt fetch settlements parseFailures = .complete) :
    coverageStatus fetch = .complete ∧ parseFailures = 0 := by
  unfold windowStatus at h
  by_cases hcl : coverageStatus fetch = .complete
  · rw [if_neg (not_not.2 hcl)] at h
    by_cases hfl : 0 < parseFailures
    · rw [if_pos hfl] at h
      cases h
    · exact ⟨hcl, Nat.eq_zero_of_not_pos hfl⟩
  · rw [if_pos hcl] at h
    exact absurd h hcl

end

structure SettlementRow where
  exchange : String
  nativeMarketId : String
  settlementAt : ℤ
  fundingRate : ℚ
  sourceVersion : String

def SettlementRow.key (r : SettlementRow) : RouteKey := (r.exchange, r.nativeMarketId)

def SettlementRow.identity (r : SettlementRow) : RouteKey × ℤ × String := (r.key, r.settlementAt, r.sourceVersion)

structure CoverageRunRow where
  exchange : String
  nativeMarketId : String
  requestedSince : ℤ
  requestedUntil : ℤ
  status : CoverageStatus
  sourceVersion : String
  createdAt : ℤ

def CoverageRunRow.key (r : CoverageRunRow) : RouteKey := (r.exchange, r.nativeMarketId)

structure Store where
  settlements : List SettlementRow := []
  runs : List CoverageRunRow := []

def insertSettlement (table : List SettlementRow) (r : SettlementRow) : List SettlementRow :=
  if table.any fun stored => stored.identity = r.identity then table else table ++ [r]

section

variable {table : List SettlementRow} {r r' : SettlementRow}

theorem insertSettlement_cases (table : List SettlementRow) (r : SettlementRow) :
    (insertSettlement table r = table ∧ ∃ stored ∈ table, stored.identity = r.identity) ∨
      (insertSettlement table r = table ++ [r] ∧ r.identity ∉ table.map (·.identity)) := by
  unfold insertSettlement
  by_cases hany : table.any fun stored => stored.identity = r.identity
  · rw [if_pos hany]
    obtain ⟨stored, hst, heq⟩ := any_eq_true.1 hany
    exact .inl ⟨rfl, stored, hst, of_decide_eq_true heq⟩
  · rw [if_neg hany]
    refine .inr ⟨rfl, fun hin => hany ?_⟩
    obtain ⟨stored, hst, heq⟩ := mem_map.1 hin
    exact any_eq_true.2 ⟨stored, hst, decide_eq_true heq⟩

theorem insertSettlement_unique (h : (table.map (·.identity)).Nodup) :
    ((insertSettlement table r).map (·.identity)).Nodup := by
  obtain ⟨heq, -⟩ | ⟨heq, hfr⟩ := insertSettlement_cases table r
  · rwa [heq]
  · rw [heq, map_append]
    exact h.append (nodup_singleton _) (disjoint_singleton.2 hfr)

theorem mem_insertSettlement (h : r' ∈ table) : r' ∈ insertSettlement table r := by
  obtain ⟨heq, -⟩ | ⟨heq, -⟩ := insertSettlement_cases table r
  · rwa [heq]
  · rw [heq]
    exact mem_append_left _ h

theorem insertSettlement_has (table : List SettlementRow) (r : SettlementRow) :
    ∃ stored ∈ insertSettlement table r, stored.identity = r.identity := by
  obtain ⟨-, stored, hst, hsame⟩ | ⟨heq, -⟩ := insertSettlement_cases table r
  · exact ⟨stored, mem_insertSettlement hst, hsame⟩
  · exact ⟨r, heq ▸ mem_append_right _ (mem_singleton_self r), rfl⟩

theorem of_mem_insertSettlement (h : r' ∈ insertSettlement table r) : r' ∈ table ∨ r' = r := by
  obtain ⟨heq, -⟩ | ⟨heq, -⟩ := insertSettlement_cases table r
  · exact .inl (heq ▸ h)
  · rw [heq, mem_append, mem_singleton] at h
    exact h

end

structure FundingRateConflictError where
  key : RouteKey
  conflicts : List (ℤ × ℚ × ℚ)

def incoming (settlements : List ParsedSettlement) (settlementAt : ℤ) : Option ℚ :=
  (settlements.findRev? fun s => s.settlementAt = settlementAt).map (·.fundingRate)

section

variable (route : InstrumentRoute) (sourceVersion : String)

def settlementRow (s : ParsedSettlement) : SettlementRow :=
  ⟨route.exchange, route.marketId, s.settlementAt, s.fundingRate, sourceVersion⟩

def insertSettlements (settlements : List ParsedSettlement) (table : List SettlementRow) : List SettlementRow :=
  (settlements.map (settlementRow route sourceVersion)).foldl insertSettlement table

section

variable {route : InstrumentRoute} {sourceVersion : String} {settlements : List ParsedSettlement}
  {table : List SettlementRow} {r : SettlementRow}

theorem insertSettlements_unique (h : (table.map (·.identity)).Nodup) :
    ((insertSettlements route sourceVersion settlements table).map (·.identity)).Nodup := by
  induction settlements generalizing table with
  | nil => exact h
  | cons s settlements ih => exact ih (insertSettlement_unique h)

theorem mem_insertSettlements (h : r ∈ table) : r ∈ insertSettlements route sourceVersion settlements table := by
  induction settlements generalizing table with
  | nil => exact h
  | cons s settlements ih => exact ih (mem_insertSettlement h)

theorem insertSettlements_has {s : ParsedSettlement} (hs : s ∈ settlements) :
    ∃ stored ∈ insertSettlements route sourceVersion settlements table,
      stored.identity = (settlementRow route sourceVersion s).identity := by
  induction settlements generalizing table with
  | nil => cases hs
  | cons s' settlements ih =>
    obtain rfl | hs := mem_cons.1 hs
    · obtain ⟨stored, hst, hsame⟩ := insertSettlement_has table (settlementRow route sourceVersion s)
      have hkp : stored ∈ insertSettlements route sourceVersion settlements
          (insertSettlement table (settlementRow route sourceVersion s)) := mem_insertSettlements hst
      exact ⟨stored, hkp, hsame⟩
    · exact ih hs

theorem of_mem_insertSettlements (h : r ∈ insertSettlements route sourceVersion settlements table) :
    r ∈ table ∨ ∃ s ∈ settlements, r = settlementRow route sourceVersion s := by
  induction settlements generalizing table with
  | nil => exact .inl h
  | cons s settlements ih =>
    obtain hr | ⟨s', hs', heq⟩ := ih h
    · obtain hr | heq := of_mem_insertSettlement hr
      · exact .inl hr
      · exact .inr ⟨s, mem_cons_self, heq⟩
    · exact .inr ⟨s', mem_cons_of_mem s hs', heq⟩

end

def rateConflicts (settlements : List ParsedSettlement) (table : List SettlementRow) : List (ℤ × ℚ × ℚ) :=
  table.filterMap fun r =>
    if r.key = routeKey route ∧ r.sourceVersion = sourceVersion then
      match incoming settlements r.settlementAt with
      | some rate => if r.fundingRate ≠ rate then some (r.settlementAt, r.fundingRate, rate) else none
      | none => none
    else none

def writeSettlements (settlements : List ParsedSettlement) (table : List SettlementRow) :
    Except FundingRateConflictError (List SettlementRow × ℕ) :=
  if settlements = [] then return (table, 0)
  else
    let after := insertSettlements route sourceVersion settlements table
    let conflicts := rateConflicts route sourceVersion settlements after
    if conflicts = [] then return (after, after.length - table.length)
    else throw ⟨routeKey route, conflicts⟩

theorem writeSettlements_ok {settlements : List ParsedSettlement} {table table' : List SettlementRow} {written : ℕ}
    (h : writeSettlements route sourceVersion settlements table = .ok (table', written)) :
    table' = insertSettlements route sourceVersion settlements table := by
  unfold writeSettlements at h
  by_cases hem : settlements = []
  · rw [if_pos hem] at h
    cases h
    subst hem
    rfl
  · rw [if_neg hem] at h
    dsimp only at h
    split at h
    · cases h
      rfl
    · cases h

end

inductive CaptureError
  | valueError (text : String)
  | checkViolation (constraint : String)

def writeCoverageRun (r : CoverageRunRow) (runs : List CoverageRunRow) : Except CaptureError (List CoverageRunRow) :=
  if r.requestedSince < r.requestedUntil then return runs ++ [r]
  else throw (.checkViolation "ck_hold12h_funding_coverage_window")

inductive WindowError
  | fetch (text : String)
  | conflict (error : FundingRateConflictError)

structure WindowCapture where
  status : CoverageStatus
  settlementsWritten : ℕ
  requestCount : ℕ
  error : Option WindowError
  integrityConflict : Bool := false

def timestampMs (moment : ℤ) : ℤ := moment.tdiv 1000

theorem timestampMs_le {moment t : ℤ} (h : moment < 1000 * t) : timestampMs moment ≤ t := by
  unfold timestampMs
  have htd := Int.mul_tdiv_add_tmod moment 1000
  have hmod := Int.lt_tmod_of_pos moment (by decide : (0 : ℤ) < 1000)
  omega

theorem le_timestampMs {moment t : ℤ} (h : 1000 * t ≤ moment) : t ≤ timestampMs moment := by
  unfold timestampMs
  have htd := Int.mul_tdiv_add_tmod moment 1000
  have hmod := Int.tmod_lt_of_pos moment (by decide : (0 : ℤ) < 1000)
  omega

def bybitCategories : List String := ["linear", "inverse"]

structure Window where
  route : InstrumentRoute
  entry : ℤ
  exitAt : ℤ
deriving DecidableEq

section

variable (client : Client) (createdAt pad : ℤ) (sourceVersion : String)

def fetchWindow (w : Window) : Except CaptureError DerivativesHistoryFetch :=
  if w.route.exchange ≠ "bybit" ∨ w.route.marketType ∉ bybitCategories then
    return { rows := [], requestCount := 0, errorStatus := some .fetchFailed
             error := some ("unsupported funding route " ++ w.route.exchange ++ "/" ++ w.route.marketType) }
  else
    match fetchBybitNativeFunding client w.route.marketId w.route.marketType (timestampMs (w.entry - pad))
        (timestampMs (w.exitAt + pad)) with
    | .ok fetch => return fetch
    | .error text => throw (.valueError text)

def windowRun (w : Window) (status : CoverageStatus) : CoverageRunRow where
  exchange := w.route.exchange
  nativeMarketId := w.route.marketId
  requestedSince := w.entry - pad
  requestedUntil := w.exitAt + pad
  status := status
  sourceVersion := sourceVersion
  createdAt := createdAt

def resolveWindow (w : Window) (store : Store) : Except CaptureError (Store × WindowCapture) := do
  let fetch ← fetchWindow client pad w
  let parsed := fetch.rows.filterMap parseSettlement
  let parseFailures := fetch.rows.length - parsed.length
  let status := windowStatus w.entry w.exitAt fetch parsed parseFailures
  let (settlements, capture) : List SettlementRow × WindowCapture :=
    match writeSettlements w.route sourceVersion parsed store.settlements with
    | .ok (settlements, written) => (settlements, ⟨status, written, fetch.requestCount, fetch.error.map .fetch, false⟩)
    | .error conflict =>
      (store.settlements, ⟨.integrityConflict, 0, fetch.requestCount, some (.conflict conflict), true⟩)
  let runs ← writeCoverageRun (windowRun createdAt pad sourceVersion w capture.status) store.runs
  return (⟨settlements, runs⟩, capture)

section

variable {client createdAt pad sourceVersion} {w : Window} {fetch : DerivativesHistoryFetch} {store store' : Store}
  {capture : WindowCapture}

theorem fetchWindow_ok (h : fetchWindow client pad w = .ok fetch) :
    (fetch.rows = [] ∧ coverageStatus fetch ≠ .complete) ∨
      (w.route.exchange = "bybit" ∧ fetchBybitNativeFunding client w.route.marketId w.route.marketType
        (timestampMs (w.entry - pad)) (timestampMs (w.exitAt + pad)) = .ok fetch) := by
  unfold fetchWindow at h
  by_cases hrt : w.route.exchange ≠ "bybit" ∨ w.route.marketType ∉ bybitCategories
  · rw [if_pos hrt] at h
    cases h
    exact .inl ⟨rfl, nofun⟩
  · rw [if_neg hrt] at h
    push Not at hrt
    split at h
    · rename_i fetched hft
      cases h
      exact .inr ⟨hrt.1, hft⟩
    · cases h

theorem writeCoverageRun_ok {r : CoverageRunRow} {runs runs' : List CoverageRunRow}
    (h : writeCoverageRun r runs = .ok runs') : runs' = runs ++ [r] := by
  unfold writeCoverageRun at h
  split at h
  · cases h
    rfl
  · cases h

theorem resolveWindow_ok (h : resolveWindow client createdAt pad sourceVersion w store = .ok (store', capture)) :
    ∃ fetch status, fetchWindow client pad w = .ok fetch ∧
      store'.runs = store.runs ++ [windowRun createdAt pad sourceVersion w status] ∧
      ((status = .integrityConflict ∧ store'.settlements = store.settlements) ∨
        (status = windowStatus w.entry w.exitAt fetch (fetch.rows.filterMap parseSettlement)
            (fetch.rows.length - (fetch.rows.filterMap parseSettlement).length) ∧
          store'.settlements =
            insertSettlements w.route sourceVersion (fetch.rows.filterMap parseSettlement) store.settlements)) := by
  obtain ⟨fetch, hfe, h⟩ := Except.bind_ok.1 h
  dsimp only at h
  cases hwr : writeSettlements w.route sourceVersion (fetch.rows.filterMap parseSettlement) store.settlements with
  | error conflict =>
    rw [hwr] at h
    obtain ⟨runs, hrn, h⟩ := Except.bind_ok.1 h
    cases h
    exact ⟨fetch, _, hfe, writeCoverageRun_ok hrn, .inl ⟨rfl, rfl⟩⟩
  | ok result =>
    rw [hwr] at h
    obtain ⟨runs, hrn, h⟩ := Except.bind_ok.1 h
    cases h
    exact ⟨fetch, _, hfe, writeCoverageRun_ok hrn, .inr ⟨rfl, writeSettlements_ok _ _ hwr⟩⟩

end

end

structure ProbeRow where
  paperVersion : String
  positionStatus : PositionStatus
  exchange : String
  marketType : String
  unifiedSymbol : Option String
  marketId : Option String
  entryAt : Option ℤ
  exitAt : Option ℤ

def hold12hPaperVersion : String := "momentum_flow_paper_v1_hold12h"

def ProbeRow.window (p : ProbeRow) : Option Window :=
  if p.paperVersion = hold12hPaperVersion ∧ p.positionStatus = .closed then do
    let entry ← p.entryAt
    let exitAt ← p.exitAt
    let marketId ← p.marketId
    let unifiedSymbol ← p.unifiedSymbol
    return ⟨⟨p.exchange, p.marketType, marketId, unifiedSymbol⟩, entry, exitAt⟩
  else none

def CoverageRunRow.spans (r : CoverageRunRow) (key : RouteKey) (sourceVersion : String) (entry exitAt : ℤ) : Bool :=
  r.key = key && r.sourceVersion = sourceVersion && decide (r.requestedSince ≤ entry) &&
    decide (exitAt ≤ r.requestedUntil)

section

variable (runs : List CoverageRunRow) (sourceVersion : String)

def lastAttempt (w : Window) : Option ℤ :=
  ((runs.filter fun r => r.spans (routeKey w.route) sourceVersion w.entry w.exitAt).map (·.createdAt)).max?

def attemptedBefore (a b : Window) : Prop :=
  match lastAttempt runs sourceVersion a, lastAttempt runs sourceVersion b with
  | none, some _ => True
  | some _, none => False
  | none, none => a.exitAt ≤ b.exitAt
  | some x, some y => x < y ∨ (x = y ∧ a.exitAt ≤ b.exitAt)

instance : DecidableRel (attemptedBefore runs sourceVersion) := fun a b => by
  unfold attemptedBefore
  split <;> infer_instance

def isPending (cutoff captureStart : ℤ) (w : Window) : Bool :=
  decide (w.exitAt ≤ cutoff) && decide (captureStart ≤ w.exitAt) &&
    !runs.any fun r => decide (r.status = .complete) && r.spans (routeKey w.route) sourceVersion w.entry w.exitAt

def pendingWindows (probes : List ProbeRow) (cutoff captureStart : ℤ) (maxWindows : ℕ) : List Window :=
  (((probes.filterMap ProbeRow.window).filter (isPending runs sourceVersion cutoff captureStart)).dedup.insertionSort
    (attemptedBefore runs sourceVersion)).take maxWindows

end

def exchangeFactories : List String :=
  ["binance", "bybit", "okx", "gate", "bitget", "mexc", "kucoin", "bingx", "coinex", "phemex", "cryptocom", "htx",
    "lbank", "xt", "toobit", "blofin"]

structure Summary where
  pending : ℕ
  complete : ℕ := 0
  incomplete : ℕ := 0
  integrityConflicts : ℕ := 0

def Summary.count (summary : Summary) (capture : WindowCapture) : Summary :=
  let summary := if capture.status = .complete then { summary with complete := summary.complete + 1 }
    else { summary with incomplete := summary.incomplete + 1 }
  if capture.integrityConflict then { summary with integrityConflicts := summary.integrityConflicts + 1 }
  else summary

structure Execution where
  now : ℤ
  maxWindows : ℕ := 500
  captureStart : ℤ
  sourceVersion : String
  probes : List ProbeRow
  client : ℕ → Client
  createdAt : ℕ → ℤ

def settlementLag : ℤ := 8 * hour

def boundaryPad : ℤ := 12 * hour

namespace Execution

variable (e : Execution)

def captureWindows : (position : ℕ) → List Window → Store → Summary → Store × Except CaptureError Summary
  | _, [], store, summary => (store, .ok summary)
  | i, w :: windows, store, summary =>
    if w.route.exchange ∉ exchangeFactories then
      captureWindows (i + 1) windows store { summary with incomplete := summary.incomplete + 1 }
    else
      match resolveWindow (e.client i) (e.createdAt i) boundaryPad e.sourceVersion w store with
      | .error error => (store, .error error)
      | .ok (store', capture) => captureWindows (i + 1) windows store' (summary.count capture)

theorem captureWindows_induction {P : Store → Prop} (step : ∀ i w store store' capture, P store →
      resolveWindow (e.client i) (e.createdAt i) boundaryPad e.sourceVersion w store = .ok (store', capture) → P store')
    (i : ℕ) (windows : List Window) {store : Store} (h : P store) (summary : Summary) :
    P (e.captureWindows i windows store summary).1 := by
  induction windows generalizing i store summary with
  | nil => exact h
  | cons w windows ih =>
    rw [captureWindows]
    by_cases hfc : w.route.exchange ∉ exchangeFactories
    · rw [if_pos hfc]
      exact ih _ h _
    rw [if_neg hfc]
    cases hrs : resolveWindow (e.client i) (e.createdAt i) boundaryPad e.sourceVersion w store with
    | error => exact h
    | ok result => exact ih _ (step i w store result.1 result.2 h hrs) _

def windows (store : Store) : List Window :=
  pendingWindows store.runs e.sourceVersion e.probes (e.now - settlementLag) e.captureStart e.maxWindows

end Execution

def runCapture (e : Execution) (store : Store) : Store × Except CaptureError Summary :=
  e.captureWindows 0 (e.windows store) store { pending := (e.windows store).length }

end Schurfer.Hold12hFunding
