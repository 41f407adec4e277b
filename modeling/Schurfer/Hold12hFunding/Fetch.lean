import Mathlib.Algebra.Order.Field.Rat
import Schurfer.Lib.Paging

/-!
# Reading the funding history of one native market

`fetch_bybit_native_funding` pages backwards through the venue's history. A fetch is clean when it ended on a short
page or reached the start of the range. Settlement times are in milliseconds here; `now` is in microseconds.
-/

namespace Schurfer.Hold12hFunding

open List

inductive Timestamp
  | int (n : ℤ)
  | float (q : ℚ)
  | bool (b : Bool)
  | other
deriving DecidableEq

def Timestamp.asInt : Timestamp → Option ℤ
  | .int n => some n
  | .bool b => some (if b then 1 else 0)
  | _ => none

structure Item where
  symbol : Option String
  timestamp : Timestamp
  fundingRate : Option ℚ

structure Row where
  timestamp : Timestamp
  fundingRate : Option ℚ
deriving DecidableEq

def bybitRow (item : Item) (nativeMarketId : String) : Option Row :=
  if item.symbol = some nativeMarketId then some ⟨item.timestamp, item.fundingRate⟩ else none

structure Params where
  category : String
  symbol : String
  startTime : ℤ
  endTime : ℤ
  limit : ℕ

inductive Response
  | raised (error : String)
  | refused (message : String)
  | noList
  | list (items : List Item)

abbrev Client := ℕ → Params → Response

inductive HistoryFetchError
  | fetchFailed | invalidResponse

structure DerivativesHistoryFetch where
  rows : List Row
  requestCount : ℕ
  paginationExhausted : Bool := false
  errorStatus : Option HistoryFetchError := none
  error : Option String := none

inductive CoverageStatus
  | complete | fetchFailed | invalidResponse | paginationExhausted | incomplete | integrityConflict
deriving DecidableEq

def coverageStatus (fetch : DerivativesHistoryFetch) : CoverageStatus :=
  match fetch.errorStatus with
  | some .fetchFailed => .fetchFailed
  | some .invalidResponse => .invalidResponse
  | none => if fetch.paginationExhausted then .paginationExhausted else .complete

def truncated (text : String) : String := String.ofList (text.toList.take 1000)

def bybitFundingPageLimit : ℕ := 200

def defaultMaxPages : ℕ := 10

section

variable (client : Client) (nativeMarketId category : String) (sinceMs : ℤ) (limit : ℕ)

def fetchPages : (fuel pageNumber : ℕ) → (endMs : ℤ) → (rows : List Row) → DerivativesHistoryFetch
  | 0, pageNumber, _, rows => { rows, requestCount := pageNumber, paginationExhausted := true }
  | fuel + 1, pageNumber, endMs, rows =>
    match client pageNumber ⟨category, nativeMarketId, sinceMs, endMs, limit⟩ with
    | .raised error =>
      { rows, requestCount := pageNumber + 1, errorStatus := some .fetchFailed, error := some (truncated error) }
    | .refused message =>
      { rows, requestCount := pageNumber + 1, errorStatus := some .fetchFailed
        error := some (truncated ("bybit v5 funding history error: " ++ message)) }
    | .noList =>
      { rows, requestCount := pageNumber + 1, errorStatus := some .invalidResponse
        error := some "bybit v5 funding history has no result.list" }
    | .list items =>
      match items.mapM (bybitRow · nativeMarketId) with
      | none =>
        { rows, requestCount := pageNumber + 1, errorStatus := some .invalidResponse
          error := some ("row not for requested symbol " ++ nativeMarketId) }
      | some page =>
        if page.length < limit then { rows := rows ++ page, requestCount := pageNumber + 1 }
        else
          match (page.filterMap fun row => row.timestamp.asInt).min? with
          | none => { rows := rows ++ page, requestCount := pageNumber + 1 }
          | some oldest =>
            if oldest - 1 < sinceMs then { rows := rows ++ page, requestCount := pageNumber + 1 }
            else fetchPages fuel (pageNumber + 1) (oldest - 1) (rows ++ page)

end

def fetchBybitNativeFunding (client : Client) (nativeMarketId category : String) (sinceMs untilMs : ℤ) :
    Except String DerivativesHistoryFetch :=
  if untilMs ≤ sinceMs then throw "funding history since must be earlier than until"
  else return fetchPages client nativeMarketId category sinceMs bybitFundingPageLimit defaultMaxPages 0 untilMs []

abbrev RouteKey := String × String

structure Venue where
  times : RouteKey → List ℤ
  rate : RouteKey → ℤ → ℚ
  distinct : ∀ key, (times key).Nodup
  onTheHour : ∀ key, ∀ t ∈ times key, 3600000 ∣ t

namespace Venue

variable (venue : Venue) (key : RouteKey) (now : ℤ) (times : List ℤ)

def published : List ℤ := (venue.times key).filter fun t => 1000 * t ≤ now

def row (t : ℤ) : Row := ⟨.int t, some (venue.rate key t)⟩

def item (t : ℤ) : Item := ⟨some key.2, .int t, some (venue.rate key t)⟩

theorem bybitRow_item (t : ℤ) : bybitRow (venue.item key t) key.2 = some (venue.row key t) := if_pos rfl

theorem mapM_bybitRow : (times.map (venue.item key)).mapM (bybitRow · key.2) = some (times.map (venue.row key)) := by
  induction times with
  | nil => rfl
  | cons t times ih =>
    rw [map_cons, mapM_cons, bybitRow_item, ih]
    rfl

theorem asInt_row : (times.map (venue.row key)).filterMap (fun row => row.timestamp.asInt) = times := by
  rw [filterMap_map]
  exact filterMap_some

end Venue

/-- A fetch of `[sinceMs, untilMs]` made at `now` lists settlements that had happened by then, and all of
them when it is clean. -/
structure Faithful (venue : Venue) (key : RouteKey) (now sinceMs untilMs : ℤ) (fetch : DerivativesHistoryFetch) :
    Prop where
  real : ∀ row ∈ fetch.rows, ∃ t ∈ venue.published key now,
    sinceMs ≤ t ∧ t ≤ untilMs ∧ row = venue.row key t
  whole : coverageStatus fetch = .complete →
    ∀ t ∈ venue.published key now, sinceMs ≤ t → t ≤ untilMs → venue.row key t ∈ fetch.rows

def Venue.page (venue : Venue) (key : RouteKey) (now sinceMs endMs : ℤ) (limit : ℕ) : List ℤ :=
  Paging.page (venue.published key now) (fun t => decide (sinceMs ≤ t ∧ t ≤ endMs)) limit

def Client.Pages (client : Client) (venue : Venue) (key : RouteKey) (now : ℤ) : Prop :=
  ∀ n params items, params.symbol = key.2 → client n params = .list items →
    items = (venue.page key now params.startTime params.endTime params.limit).map (venue.item key)

section

variable {client : Client} {venue : Venue} {key : RouteKey} {now sinceMs endMs t : ℤ} {category : String}
  {limit fuel pageNumber : ℕ} {rows : List Row} {fetch : DerivativesHistoryFetch}

theorem mem_page (h : t ∈ venue.page key now sinceMs endMs limit) :
    t ∈ venue.published key now ∧ sinceMs ≤ t ∧ t ≤ endMs := by
  obtain ⟨hpb, hrn⟩ := Paging.mem_page h
  exact ⟨hpb, of_decide_eq_true hrn⟩

variable (hpg : client.Pages venue key now)

include hpg

theorem fetchPages_succ_cases
    (hft : fetchPages client key.2 category sinceMs limit (fuel + 1) pageNumber endMs rows = fetch) :
    (fetch.rows = rows ∧ coverageStatus fetch ≠ .complete) ∨
      (fetch.rows = rows ++ (venue.page key now sinceMs endMs limit).map (venue.row key) ∧
        ((venue.page key now sinceMs endMs limit).length < limit ∨
          (venue.page key now sinceMs endMs limit).min? = none ∨
          ∃ oldest, (venue.page key now sinceMs endMs limit).min? = some oldest ∧ oldest - 1 < sinceMs)) ∨
      ∃ oldest, (venue.page key now sinceMs endMs limit).min? = some oldest ∧
        fetchPages client key.2 category sinceMs limit fuel (pageNumber + 1) (oldest - 1)
          (rows ++ (venue.page key now sinceMs endMs limit).map (venue.row key)) = fetch := by
  rw [fetchPages] at hft
  cases han : client pageNumber ⟨category, key.2, sinceMs, endMs, limit⟩ with
  | raised | refused | noList =>
    rw [han] at hft
    subst hft
    exact .inl ⟨rfl, nofun⟩
  | list items =>
    have hit := hpg pageNumber _ items rfl han
    simp only [han, hit, venue.mapM_bybitRow, length_map, venue.asInt_row] at hft
    by_cases hsh : (venue.page key now sinceMs endMs limit).length < limit
    · rw [if_pos hsh] at hft
      subst hft
      exact .inr (.inl ⟨rfl, .inl hsh⟩)
    rw [if_neg hsh] at hft
    cases hmin : (venue.page key now sinceMs endMs limit).min? with
    | none =>
      simp only [hmin] at hft
      subst hft
      exact .inr (.inl ⟨rfl, .inr (.inl rfl)⟩)
    | some oldest =>
      simp only [hmin] at hft
      by_cases hend : oldest - 1 < sinceMs
      · rw [if_pos hend] at hft
        subst hft
        exact .inr (.inl ⟨rfl, .inr (.inr ⟨oldest, rfl, hend⟩)⟩)
      · rw [if_neg hend] at hft
        exact .inr (.inr ⟨oldest, rfl, hft⟩)

section

variable (hft : fetchPages client key.2 category sinceMs limit fuel pageNumber endMs rows = fetch)

include hft

theorem subset_fetchPages : rows ⊆ fetch.rows := by
  induction fuel generalizing pageNumber endMs rows with
  | zero =>
    subst hft
    exact List.Subset.refl rows
  | succ fuel ih =>
    obtain ⟨hrw, -⟩ | ⟨hrw, -⟩ | ⟨oldest, -, hrec⟩ := fetchPages_succ_cases hpg hft
    · exact hrw ▸ List.Subset.refl rows
    · exact hrw ▸ subset_append_left rows _
    · exact List.Subset.trans (subset_append_left rows _) (ih hrec)

theorem fetchPages_real : ∀ row ∈ fetch.rows, row ∈ rows ∨
      ∃ t ∈ venue.published key now, sinceMs ≤ t ∧ t ≤ endMs ∧ row = venue.row key t := by
  induction fuel generalizing pageNumber endMs rows with
  | zero =>
    subst hft
    exact fun row hrow => .inl hrow
  | succ fuel ih =>
    have hrd : ∀ row ∈ rows ++ (venue.page key now sinceMs endMs limit).map (venue.row key), row ∈ rows ∨
        ∃ t ∈ venue.published key now, sinceMs ≤ t ∧ t ≤ endMs ∧ row = venue.row key t := by
      intro row hrow
      rw [mem_append, mem_map] at hrow
      obtain hrow | ⟨t, ht, rfl⟩ := hrow
      · exact .inl hrow
      · obtain ⟨hpb, hsn, hend⟩ := mem_page ht
        exact .inr ⟨t, hpb, hsn, hend, rfl⟩
    intro row hrow
    obtain ⟨hrw, -⟩ | ⟨hrw, -⟩ | ⟨oldest, hmin, hrec⟩ := fetchPages_succ_cases hpg hft
    · exact .inl (hrw ▸ hrow)
    · exact hrd row (hrw ▸ hrow)
    · -- the rest of the pages is below the oldest row of this one
      obtain ⟨-, -, hol⟩ := mem_page (min?_mem hmin)
      obtain hrow | ⟨t, ht, hsn, hend, heq⟩ := ih hrec row hrow
      · exact hrd row hrow
      · exact .inr ⟨t, ht, hsn, by omega, heq⟩

theorem fetchPages_whole (hlm : 0 < limit) (hcl : coverageStatus fetch = .complete)
    (ht : t ∈ venue.published key now) (hsn : sinceMs ≤ t) (hend : t ≤ endMs) : venue.row key t ∈ fetch.rows := by
  induction fuel generalizing pageNumber endMs rows with
  | zero =>
    subst hft
    cases hcl
  | succ fuel ih =>
    have hsp : t ∈ venue.page key now sinceMs endMs limit ∨ ((venue.page key now sinceMs endMs limit).length = limit ∧
          ∀ u ∈ venue.page key now sinceMs endMs limit, t < u) :=
      Paging.page_or_older ((venue.distinct key).filter _) ht (decide_eq_true ⟨hsn, hend⟩)
    obtain ⟨-, hfl⟩ | ⟨hrw, hlast⟩ | ⟨oldest, hmin, hrec⟩ := fetchPages_succ_cases hpg hft
    · exact absurd hcl hfl
    · rw [hrw, mem_append]
      obtain hin | ⟨hfu, hbl⟩ := hsp
      · exact .inr (mem_map_of_mem hin)
      -- a full page ends the fetch only when nothing of the range is below it
      obtain hsh | hem | ⟨oldest, hmin, hst⟩ := hlast
      · omega
      · rw [min?_eq_none_iff] at hem
        rw [hem, length_nil] at hfu
        omega
      · have hlt := hbl oldest (min?_mem hmin)
        omega
    · obtain hin | ⟨-, hbl⟩ := hsp
      · exact subset_fetchPages hpg hrec (mem_append_right _ (mem_map_of_mem hin))
      · have hlt := hbl oldest (min?_mem hmin)
        exact ih hrec (by omega)

end

theorem fetchBybitNativeFunding_faithful {untilMs : ℤ}
    (h : fetchBybitNativeFunding client key.2 category sinceMs untilMs = .ok fetch) :
    Faithful venue key now sinceMs untilMs fetch := by
  unfold fetchBybitNativeFunding at h
  by_cases hrn : untilMs ≤ sinceMs
  · rw [if_pos hrn] at h
    cases h
  rw [if_neg hrn] at h
  have hft := Except.ok.inj h
  refine ⟨fun row hrow => ?_, fun hcl t ht hsn hun => ?_⟩
  · obtain hrow | hrl := fetchPages_real hpg hft row hrow
    · cases hrow
    · exact hrl
  · exact fetchPages_whole hpg hft (by decide) hcl ht hsn hun

end

end Schurfer.Hold12hFunding
