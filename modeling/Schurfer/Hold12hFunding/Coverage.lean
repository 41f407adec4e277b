import Schurfer.Hold12hFunding.Capture
import Schurfer.Lib.Dict

/-!
# Proven funding coverage

An interval is proven when a complete run of the version spans it. A run is recorded with bounds 12 h past the exit of
its window, but fetched as early as 8 h past it.
-/

namespace Schurfer.Hold12hFunding

open List SettlementRow

structure SettlementEvent where
  settlementAt : ℤ
  rate : ℚ
  sourceVersion : String
deriving DecidableEq

structure CoverageRun where
  requestedSince : ℤ
  requestedUntil : ℤ
  status : CoverageStatus
  sourceVersion : String

structure FundingCoverage where
  events : List SettlementEvent
  provenFullCoverage : Bool
deriving DecidableEq

section

variable (settlements : List SettlementEvent) (runs : List CoverageRun) (entryAt exitAt : ℤ) (sourceVersion : String)

def blocked : Bool :=
  runs.any fun run => decide (run.status = .integrityConflict) && decide (run.sourceVersion = sourceVersion) &&
    decide (run.requestedSince ≤ exitAt) && decide (entryAt ≤ run.requestedUntil)

def proven : Bool :=
  runs.any fun run => decide (run.status = .complete) && decide (run.sourceVersion = sourceVersion) &&
    decide (run.requestedSince ≤ entryAt) && decide (exitAt ≤ run.requestedUntil)

def coverageForInterval : Option FundingCoverage :=
  if blocked runs entryAt exitAt sourceVersion then none
  else if !proven runs entryAt exitAt sourceVersion then none
  else some ⟨settlements.filter fun s => s.sourceVersion = sourceVersion, true⟩

end

structure StoredFundingSource where
  settlements : RouteKey → List SettlementEvent
  runs : RouteKey → List CoverageRun
  sourceVersion : String

def StoredFundingSource.coverage (source : StoredFundingSource) (route : InstrumentRoute) (entryAt exitAt : ℤ) :
    Option FundingCoverage :=
  coverageForInterval (source.settlements (routeKey route)) (source.runs (routeKey route)) entryAt exitAt
    source.sourceVersion

def SettlementRow.event (r : SettlementRow) : SettlementEvent := ⟨r.settlementAt, r.fundingRate, r.sourceVersion⟩

def CoverageRunRow.run (r : CoverageRunRow) : CoverageRun :=
  ⟨r.requestedSince, r.requestedUntil, r.status, r.sourceVersion⟩

def loadStoredFunding (store : Store) (routes : List InstrumentRoute) (sourceVersion : String) :
    StoredFundingSource where
  settlements key := (store.settlements.filter fun r =>
    r.exchange ∈ routes.map (·.exchange) ∧ r.nativeMarketId ∈ routes.map (·.marketId) ∧
      r.sourceVersion = sourceVersion ∧ r.key = key).map SettlementRow.event
  runs key := (store.runs.filter fun r =>
    r.exchange ∈ routes.map (·.exchange) ∧ r.nativeMarketId ∈ routes.map (·.marketId) ∧
      r.sourceVersion = sourceVersion ∧ r.key = key).map CoverageRunRow.run
  sourceVersion := sourceVersion

def actualFundingVersion : String := "hold12h_actual_funding_v2"

section

variable {store : Store} {routes : List InstrumentRoute} {sourceVersion : String} {route : InstrumentRoute}
  {entryAt exitAt : ℤ} {coverage : FundingCoverage}

theorem coverage_events (hrt : route ∈ routes)
    (h : (loadStoredFunding store routes sourceVersion).coverage route entryAt exitAt = some coverage) :
    coverage.events = (store.settlements.filter fun r =>
      r.sourceVersion = sourceVersion ∧ r.key = routeKey route).map event := by
  unfold StoredFundingSource.coverage coverageForInterval at h
  split at h
  · cases h
  split at h
  · cases h
  cases h
  change filter _ ((store.settlements.filter _).map _) = _
  rw [filter_map, filter_filter]
  congr 1
  refine filter_congr fun r _ => ?_
  -- a row of the route passes the two list conditions of the query
  have hls : r.key = routeKey route →
      r.exchange ∈ routes.map (·.exchange) ∧ r.nativeMarketId ∈ routes.map (·.marketId) := by
    intro hkey
    obtain ⟨hexchange, hmarket⟩ := Prod.mk.inj hkey
    exact ⟨hexchange ▸ mem_map_of_mem hrt, hmarket ▸ mem_map_of_mem hrt⟩
  rw [Bool.eq_iff_iff, Bool.and_eq_true, decide_eq_true_iff, decide_eq_true_iff]
  refine ⟨fun ⟨_, _, _, hvr, hkey⟩ => ⟨hvr, hkey⟩, fun ⟨hvr, hkey⟩ => ⟨?_, ?_⟩⟩
  · exact decide_eq_true hvr
  · exact ⟨(hls hkey).1, (hls hkey).2, hvr, hkey⟩

end

def after (history : List Execution) (store : Store) : Store :=
  history.foldl (fun store e => (runCapture e store).1) store

def recorded : List Execution → Store → List (ℤ × CoverageRunRow)
  | [], _ => []
  | e :: history, store =>
    ((runCapture e store).1.runs.drop store.runs.length).map (e.now, ·) ++ recorded history (runCapture e store).1

/-- Every fetch of the execution is faithful to the venue at its `now`. -/
def Execution.Honest (e : Execution) (venue : Venue) : Prop :=
  ∀ i marketId category sinceMs untilMs fetch,
    fetchBybitNativeFunding (e.client i) marketId category sinceMs untilMs = .ok fetch →
      Faithful venue ("bybit", marketId) e.now sinceMs untilMs fetch

structure Sound (venue : Venue) (store : Store) (runs : List (ℤ × CoverageRunRow)) : Prop where
  unique : (store.settlements.map (·.identity)).Nodup
  real : ∀ r ∈ store.settlements, ∃ t ∈ venue.times r.key,
    r.settlementAt = 1000 * t ∧ r.fundingRate = venue.rate r.key t
  covered : ∀ made ∈ runs, made.2.status = .complete →
    ∀ t ∈ venue.published made.2.key made.1, timestampMs made.2.requestedSince ≤ t →
      t ≤ timestampMs made.2.requestedUntil →
      ∃ r ∈ store.settlements, r.identity = (made.2.key, 1000 * t, made.2.sourceVersion)

section

variable {venue : Venue} {key : RouteKey} {t : ℤ} {store : Store} {runs : List (ℤ × CoverageRunRow)} {e : Execution}

theorem parseSettlement_row {s : ParsedSettlement} (h : parseSettlement (venue.row key t) = some s) :
    s = ⟨1000 * t, venue.rate key t⟩ := by
  obtain ⟨ms, hms, hre⟩ := Option.bind_eq_some_iff.1 h
  have hfl : (some t).filter (fun ms => decide (946684800000 ≤ ms)) = some ms := hms
  obtain rfl : t = ms := Option.some.inj (Option.filter_eq_some_iff.1 hfl).1
  exact (Option.some.inj hre).symm

theorem mem_parsed {fetch : DerivativesHistoryFetch} (hrow : venue.row key t ∈ fetch.rows)
    (hall : fetch.rows.length - (fetch.rows.filterMap parseSettlement).length = 0) :
    ⟨1000 * t, venue.rate key t⟩ ∈ fetch.rows.filterMap parseSettlement := by
  have hle := length_filterMap_le parseSettlement fetch.rows
  have hln : (fetch.rows.filterMap parseSettlement).length = fetch.rows.length := by omega
  have hsm := filterMap_length_eq_length.1 hln _ hrow
  obtain ⟨s, hs⟩ := Option.isSome_iff_exists.1 hsm
  rw [mem_filterMap]
  exact ⟨_, hrow, hs.trans (congrArg some (parseSettlement_row hs))⟩

theorem Sound.resolve (hhn : e.Honest venue) (h : Sound venue store runs) {i : ℕ} {w : Window}
    {store' : Store} {capture : WindowCapture} {createdAt pad : ℤ} {sourceVersion : String}
    (hrs : resolveWindow (e.client i) createdAt pad sourceVersion w store = .ok (store', capture)) :
    ∃ run, store'.runs = store.runs ++ [run] ∧ Sound venue store' (runs ++ [(e.now, run)]) := by
  obtain ⟨fetch, status, hfe, hrn, hcs⟩ := resolveWindow_ok hrs
  refine ⟨_, hrn, ?_⟩
  obtain ⟨hstatus, hst⟩ | ⟨hstatus, hst⟩ := hcs
  · -- nothing was written and the run is not complete
    refine ⟨hst ▸ h.unique, hst ▸ h.real, fun made hmd hcm => ?_⟩
    rw [hst]
    obtain hmd | hmd := mem_append.1 hmd
    · exact h.covered made hmd hcm
    · obtain rfl := mem_singleton.1 hmd
      exact absurd (hstatus.symm.trans hcm) (by decide)
  · have hpa : ∀ s ∈ fetch.rows.filterMap parseSettlement,
        ∃ t ∈ venue.times (routeKey w.route), s = ⟨1000 * t, venue.rate (routeKey w.route) t⟩ := by
      intro s hs
      obtain ⟨row, hrow, hpr⟩ := mem_filterMap.1 hs
      obtain ⟨hem, -⟩ | ⟨hby, hft⟩ := fetchWindow_ok hfe
      · rw [hem] at hrow
        cases hrow
      · obtain ⟨t, ht, -, -, rfl⟩ := (hhn i _ _ _ _ fetch hft).real row hrow
        rw [← hby] at hpr ht
        exact ⟨t, (mem_filter.1 ht).1, parseSettlement_row hpr⟩
    refine ⟨?_, fun r hr => ?_, fun made hmd hcm t ht hsi hun => ?_⟩
    · rw [hst]
      exact insertSettlements_unique h.unique
    · rw [hst] at hr
      obtain hr | ⟨s, hs, rfl⟩ := of_mem_insertSettlements hr
      · exact h.real r hr
      · obtain ⟨t, ht, rfl⟩ := hpa s hs
        exact ⟨t, ht, rfl, rfl⟩
    · rw [hst]
      obtain hmd | hmd := mem_append.1 hmd
      · obtain ⟨r, hr, hin⟩ := h.covered made hmd hcm t ht hsi hun
        exact ⟨r, mem_insertSettlements hr, hin⟩
      · -- the run is complete: the fetch was clean and every row of it parsed
        obtain rfl := mem_singleton.1 hmd
        obtain ⟨hcl, hall⟩ := windowStatus_complete (hstatus.symm.trans hcm)
        obtain ⟨-, hfa⟩ | ⟨hby, hft⟩ := fetchWindow_ok hfe
        · exact absurd hcl hfa
        have hkey : (windowRun createdAt pad sourceVersion w status).key = ("bybit", w.route.marketId) :=
          congrArg (·, w.route.marketId) hby
        rw [hkey] at ht ⊢
        have hrow := (hhn i _ _ _ _ fetch hft).whole hcl t ht hsi hun
        obtain ⟨r, hr, hin⟩ := insertSettlements_has (mem_parsed hrow hall)
        refine ⟨r, hr, hin.trans ?_⟩
        change ((w.route.exchange, w.route.marketId), _) = _
        rw [hby]
        rfl

theorem Sound.run (hhn : e.Honest venue) (h : Sound venue store runs) :
    Sound venue (runCapture e store).1
      (runs ++ ((runCapture e store).1.runs.drop store.runs.length).map (e.now, ·)) := by
  -- inside the execution the tables are sound with the runs added since its start
  have hlp : ∃ new, (runCapture e store).1.runs = store.runs ++ new ∧
      Sound venue (runCapture e store).1 (runs ++ new.map (e.now, ·)) := by
    refine e.captureWindows_induction (P := fun s => ∃ new, s.runs = store.runs ++ new ∧
      Sound venue s (runs ++ new.map (e.now, ·))) ?_ _ _ ⟨[], by rw [append_nil], ?_⟩ _
    · rintro i w s s' capture ⟨new, hnew, hsn⟩ hrs
      obtain ⟨run, hrn, hsn'⟩ := hsn.resolve hhn hrs
      refine ⟨new ++ [run], by rw [hrn, hnew, append_assoc], ?_⟩
      rw [map_append, ← append_assoc]
      exact hsn'
    · rw [map_nil, append_nil]
      exact h
  obtain ⟨new, hnew, hsn⟩ := hlp
  rw [hnew, drop_left]
  exact hsn

theorem sound_after {history : List Execution} (hhn : ∀ e ∈ history, e.Honest venue)
    (h : Sound venue store runs) : Sound venue (after history store) (runs ++ recorded history store) := by
  induction history generalizing store runs with
  | nil =>
    rw [recorded, append_nil]
    exact h
  | cons e history ih =>
    rw [recorded, ← append_assoc]
    exact ih (fun e' he' => hhn e' (mem_cons_of_mem e he')) (h.run (hhn e mem_cons_self))

theorem Sound.stored_once (h : Sound venue store runs) {r : SettlementRow} (hr : r ∈ store.settlements) :
    (((store.settlements.filter fun r' => r'.sourceVersion = r.sourceVersion ∧ r'.key = r.key).map
      event).filter fun event => event.settlementAt = r.settlementAt) = [r.event] := by
  rw [filter_map, filter_filter]
  refine congrArg (map event) (.trans (filter_congr fun r' _ => ?_) (Dict.filter_key_eq h.unique hr))
  rw [Bool.eq_iff_iff, Bool.and_eq_true, Function.comp_apply, decide_eq_true_iff, decide_eq_true_iff,
    decide_eq_true_iff]
  constructor
  · rintro ⟨hat, hvr, hkey⟩
    exact congrArg₂ Prod.mk hkey (congrArg₂ Prod.mk hat hvr)
  · intro hin
    obtain ⟨hkey, hre⟩ := Prod.mk.inj hin
    obtain ⟨hat, hvr⟩ := Prod.mk.inj hre
    exact ⟨hat, hvr, hkey⟩

end

/-- A complete run of the version spans the interval and was fetched no earlier than its exit. -/
def FetchedAfterExit (history : List Execution) (key : RouteKey) (sourceVersion : String) (entryAt exitAt : ℤ) :
    Prop :=
  ∃ made ∈ recorded history {}, made.2.status = .complete ∧
    made.2.spans key sourceVersion entryAt exitAt = true ∧ exitAt ≤ made.1

/-- **Proven coverage is exact** where a complete run that spans the interval was fetched no earlier than the
exit: the events have every settlement of `(entryAt, exitAt]` once, with the venue's rate. -/
theorem proven_events_exact (venue : Venue) (history : List Execution) (hhonest : ∀ e ∈ history, e.Honest venue)
    (routes : List InstrumentRoute) (route : InstrumentRoute) (hroute : route ∈ routes) (sourceVersion : String)
    (entryAt exitAt : ℤ) (coverage : FundingCoverage)
    (hcoverage : (loadStoredFunding (after history {}) routes sourceVersion).coverage route entryAt exitAt =
      some coverage)
    (hfetched : FetchedAfterExit history (routeKey route) sourceVersion entryAt exitAt) :
    ∀ t ∈ venue.times (routeKey route), entryAt < 1000 * t → 1000 * t ≤ exitAt →
      (coverage.events.filter fun event => event.settlementAt = 1000 * t) =
        [⟨1000 * t, venue.rate (routeKey route) t, sourceVersion⟩] := by
  intro t ht hentry hexit
  have hsound := sound_after hhonest (⟨nodup_nil, nofun, nofun⟩ : Sound venue {} [])
  obtain ⟨⟨now, run⟩, hmade, hcomplete, hspans, hnow⟩ := hfetched
  simp only [CoverageRunRow.spans, Bool.and_eq_true, decide_eq_true_eq] at hspans
  obtain ⟨⟨⟨hkey, hversion⟩, hsince⟩, huntil⟩ := hspans
  have hpublished : t ∈ venue.published run.key now := by
    rw [hkey]
    exact mem_filter.2 ⟨ht, decide_eq_true (hexit.trans hnow)⟩
  obtain ⟨r, hr, hidentity⟩ := hsound.covered (now, run) hmade hcomplete t hpublished
    (timestampMs_le (hsince.trans_lt hentry)) (le_timestampMs (hexit.trans huntil))
  obtain ⟨hrkey, hrest⟩ := Prod.mk.inj hidentity
  obtain ⟨hrat, hrversion⟩ := Prod.mk.inj hrest
  have hrate : r.fundingRate = venue.rate (routeKey route) t := by
    obtain ⟨t', -, hat', hrate'⟩ := hsound.real r hr
    obtain rfl : t' = t := by omega
    rw [hrate', hrkey, hkey]
  have honce := hsound.stored_once hr
  rw [hrversion, hrkey, hrat] at honce
  simp only [hkey, hversion] at honce
  rw [coverage_events hroute hcoverage, honce, event, hrat, hrate, hrversion, hversion]

def Venue.client (venue : Venue) (now : ℤ) : Client := fun _ params =>
  .list ((venue.page ("bybit", params.symbol) now params.startTime params.endTime params.limit).map
    (venue.item ("bybit", params.symbol)))

theorem Venue.client_pages (venue : Venue) (now : ℤ) (marketId : String) :
    (venue.client now).Pages venue ("bybit", marketId) now := by
  intro n params items hsy hli
  rw [← Response.list.inj hli, hsy]

def captureStartDefault : ℤ := 497016 * hour

def hourMs : ℤ := 3600000

def everyFourHours : Venue where
  times key := if key = ("bybit", "BTCUSDT") then
    [497016, 497020, 497024, 497028, 497032, 497036].map (· * hourMs) else []
  rate _ _ := 1 / 10000
  distinct key := by
    split
    · decide
    · exact List.nodup_nil
  onTheHour key := by
    split
    · decide
    · nofun

def btcRoute : InstrumentRoute := ⟨"bybit", "linear", "BTCUSDT", "BTC/USDT:USDT"⟩

def closedProbe (entryAt exitAt : ℤ) : ProbeRow :=
  ⟨hold12hPaperVersion, .closed, "bybit", "linear", some "BTC/USDT:USDT", some "BTCUSDT", some entryAt, some exitAt⟩

def firstProbe : ProbeRow := closedProbe (captureStartDefault + 1 * hour) (captureStartDefault + 7 * hour)

def secondProbe : ProbeRow := closedProbe (captureStartDefault + 9 * hour) (captureStartDefault + 18 * hour)

def executionAt (now : ℤ) (probes : List ProbeRow) : Execution where
  now := now
  captureStart := captureStartDefault
  sourceVersion := actualFundingVersion
  probes := probes
  client _ := everyFourHours.client now
  createdAt _ := now

def twoCaptures : List Execution :=
  [executionAt (captureStartDefault + 15 * hour) [firstProbe],
    executionAt (captureStartDefault + 26 * hour) [firstProbe, secondProbe]]

theorem executionAt_honest (now : ℤ) (probes : List ProbeRow) : (executionAt now probes).Honest everyFourHours :=
  fun _ marketId _ _ _ _ hfe => fetchBybitNativeFunding_faithful (everyFourHours.client_pages now marketId) hfe

theorem twoCaptures_honest : ∀ e ∈ twoCaptures, e.Honest everyFourHours := by
  intro e he
  simp only [twoCaptures, mem_cons, not_mem_nil, or_false] at he
  obtain rfl | rfl := he
  · exact executionAt_honest _ _
  · exact executionAt_honest _ _

def fetchedAtFifteen : FundingCoverage where
  events := [12, 8, 4, 0].map fun h => ⟨captureStartDefault + h * hour, 1 / 10000, actualFundingVersion⟩
  provenFullCoverage := true

/-- The run of the first probe, fetched at hour 15 and recorded up to hour 19, proves the second probe covered;
the settlement of hour 16 is not among the events, and the second probe is never fetched. -/
theorem late_settlement_missed :
    (∀ e ∈ twoCaptures, e.Honest everyFourHours) ∧
      (loadStoredFunding (after twoCaptures {}) [btcRoute] actualFundingVersion).coverage btcRoute
        (captureStartDefault + 9 * hour) (captureStartDefault + 18 * hour) = some fetchedAtFifteen ∧
      497032 * hourMs ∈ everyFourHours.times (routeKey btcRoute) ∧
      captureStartDefault + 9 * hour < 1000 * (497032 * hourMs) ∧
      1000 * (497032 * hourMs) ≤ captureStartDefault + 18 * hour ∧
      (fetchedAtFifteen.events.filter fun event => event.settlementAt = 1000 * (497032 * hourMs)) = [] ∧
      (after twoCaptures {}).runs.length = 1 :=
  ⟨twoCaptures_honest, by decide +kernel, by decide, by decide, by decide, by decide +kernel, by decide +kernel⟩

/-- The coverage of the first probe is exact: its run was fetched eight hours after its exit. -/
theorem first_probe_exact :
    FetchedAfterExit twoCaptures (routeKey btcRoute) actualFundingVersion (captureStartDefault + 1 * hour)
        (captureStartDefault + 7 * hour) ∧
      ∀ t ∈ everyFourHours.times (routeKey btcRoute), captureStartDefault + 1 * hour < 1000 * t →
        1000 * t ≤ captureStartDefault + 7 * hour →
        (fetchedAtFifteen.events.filter fun event => event.settlementAt = 1000 * t) =
          [⟨1000 * t, everyFourHours.rate (routeKey btcRoute) t, actualFundingVersion⟩] := by
  have hfetched : FetchedAfterExit twoCaptures (routeKey btcRoute) actualFundingVersion
      (captureStartDefault + 1 * hour) (captureStartDefault + 7 * hour) := by
    unfold FetchedAfterExit
    decide +kernel
  exact ⟨hfetched, proven_events_exact everyFourHours twoCaptures twoCaptures_honest [btcRoute] btcRoute
    mem_cons_self actualFundingVersion _ _ fetchedAtFifteen (by decide +kernel) hfetched⟩

end Schurfer.Hold12hFunding
