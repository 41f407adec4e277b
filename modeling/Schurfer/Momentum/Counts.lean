import Schurfer.Momentum.Bars
import Schurfer.Momentum.Figures

/-!
# Where the trades went

Every valid trade of a symbol is counted by a bar, dropped as a duplicate or dropped as late.
-/

namespace Schurfer.Momentum

open GoTime List SymbolState

variable {counted : List (Trade × ℤ)} {bars : List Emitted} {n : ℕ} {s' : SymbolState} {ts : List Trade} {t : Trade}

def Call.offers (symbol : String) : Call → Option Trade
  | .addTrade t => if t.valid ∧ t.symbol = symbol then some t else none
  | _ => none

def Capture.counts (x : Capture) (symbol : String) (c : Call) : Option (Trade × ℤ) :=
  (c.offers symbol).bind fun t =>
    let s := (SymbolState.advance x.engine.priceSource symbol (x.engine.states.lookup symbol) t.eventAt).1
    if s.accepts t then some (t, s.bucketStart) else none

structure Tally where
  capture : Capture
  counted : List (Trade × ℤ) := []

def Tally.step (symbol : String) (x : Tally) (c : Call) : Tally :=
  ⟨x.capture.step c, x.counted ++ (x.capture.counts symbol c).toList⟩

def tallied (priceSource : PriceSource) (symbol : String) (calls : List Call) : Tally :=
  calls.foldl (Tally.step symbol) ⟨⟨{ priceSource }, []⟩, []⟩

def tradesAt (counted : List (Trade × ℤ)) (start : ℤ) : List Trade := (counted.filter (·.2 = start)).map Prod.fst

def Bar.offered (bar : Bar) : ℕ := bar.tradeCount + bar.duplicateTradesDropped + bar.lateTradesDropped

def SymbolState.offered (s : SymbolState) : ℕ := s.bar.tradeCount + s.bar.duplicateTradesDropped + s.lateDropped

/-- The figures of a bar are those of the trades. -/
structure BarAccount (ts : List Trade) (bar : Bar) : Prop where
  tradeCount : bar.tradeCount = ts.length
  sides : bar.tradeCount = bar.buy.tradeCount + bar.buy.blockTradeCount + bar.buy.rpiTradeCount +
    (bar.sell.tradeCount + bar.sell.blockTradeCount + bar.sell.rpiTradeCount)
  buy : SideAccount (ts.filter (·.side = .buy)) bar.buy
  sell : SideAccount (ts.filter (·.side = .sell)) bar.sell

section

variable {priceSource : PriceSource} {symbol : String} {s : SymbolState} {time : ℤ} {c : Call} (calls : List Call)

structure SameTrades (s s' : SymbolState) : Prop where
  tradeCount : s'.bar.tradeCount = s.bar.tradeCount
  duplicates : s'.bar.duplicateTradesDropped = s.bar.duplicateTradesDropped
  late : s'.lateDropped = s.lateDropped
  dedup : s'.dedup = s.dedup
  buy : s'.bar.buy = s.bar.buy
  sell : s'.bar.sell = s.bar.sell
  buyBurst : s'.buyBurst = s.buyBurst
  sellBurst : s'.sellBurst = s.sellBurst

theorem SameTrades.refl (s : SymbolState) : SameTrades s s := by constructor <;> rfl

theorem sameTrades_addTicker (o : TickerObservation) (s : SymbolState) : SameTrades s (s.addTicker priceSource o) := by
  simp only [addTicker]
  split
  · exact .refl s
  · split <;> constructor <;> rfl

theorem sameTrades_addQuote (o : QuoteObservation) (s : SymbolState) : SameTrades s (s.addQuote o) := by
  unfold addQuote
  split <;> constructor <;> rfl

theorem sameTrades_addDerivatives (o : DerivativesObservation) (s : SymbolState) :
    SameTrades s (s.addDerivatives o) := by
  simp only [addDerivatives]
  split <;> constructor <;> rfl

theorem sameTrades_recordSeq (s : SymbolState) (seq : ℤ) : SameTrades s (s.recordSeq seq) := by
  unfold recordSeq
  split <;> constructor <;> rfl

theorem touch_trades {f : SymbolState → SymbolState} (h : c.touch priceSource symbol = some (time, f)) :
    (∃ t, c.offers symbol = some t ∧ t.valid = true ∧ time = t.eventAt ∧ f = (·.addTrade priceSource t)) ∨
    c.offers symbol = none ∧ ∀ s, SameTrades s (f s) := by
  cases c with
  | addTrade t =>
    obtain ⟨hp, rfl, rfl⟩ := touch_ite h
    exact .inl ⟨t, if_pos hp, hp.1, rfl, rfl⟩
  | addTickerObservation o => exact .inr ⟨rfl, (touch_ite h).2.2 ▸ sameTrades_addTicker o⟩
  | addQuoteObservation o => exact .inr ⟨rfl, (touch_ite h).2.2 ▸ sameTrades_addQuote o⟩
  | addDerivativesObservation o => exact .inr ⟨rfl, (touch_ite h).2.2 ▸ sameTrades_addDerivatives o⟩
  | markTickerDiscontinuity | markDerivativesDiscontinuity | markTradesDiscontinuity =>
    exact .inr ⟨rfl, fun s => (touch_ite h).2.2 ▸ ⟨rfl, rfl, rfl, rfl, rfl, rfl, rfl, rfl⟩⟩
  | flush now =>
    obtain rfl : id = f := (Prod.mk.inj (Option.some.inj h)).2
    exact .inr ⟨rfl, SameTrades.refl⟩

structure CountsOne (s : SymbolState) (t : Trade) (s' : SymbolState) : Prop where
  tradeCount : s'.bar.tradeCount = s.bar.tradeCount + 1
  duplicates : s'.bar.duplicateTradesDropped = s.bar.duplicateTradesDropped
  late : s'.lateDropped = s.lateDropped
  dedup : s'.dedup = s.dedup ++ [t.tradeId]
  buy : s'.bar.buy = if t.side = .sell then s.bar.buy else (s.bar.buy.add s.buyBurst t).1
  sell : s'.bar.sell = if t.side = .sell then (s.bar.sell.add s.sellBurst t).1 else s.bar.sell

theorem recordTradePriceObservation_trades (bar : Bar) (t : Trade) :
    (bar.recordTradePriceObservation t).tradeCount = bar.tradeCount ∧
      (bar.recordTradePriceObservation t).duplicateTradesDropped = bar.duplicateTradesDropped ∧
      (bar.recordTradePriceObservation t).buy = bar.buy ∧ (bar.recordTradePriceObservation t).sell = bar.sell := by
  simp only [Bar.recordTradePriceObservation]
  split <;> split <;> exact ⟨rfl, rfl, rfl, rfl⟩

theorem countTrade_countsOne (s : SymbolState) (t : Trade) : CountsOne s t (s.countTrade priceSource t) := by
  have hpr : ∀ bar, bar = (if priceSource = .aggregateTrade then s.bar.recordTradePriceObservation t else s.bar) →
      bar.tradeCount = s.bar.tradeCount ∧ bar.duplicateTradesDropped = s.bar.duplicateTradesDropped ∧
        bar.buy = s.bar.buy ∧ bar.sell = s.bar.sell := by
    rintro bar rfl
    split
    · exact recordTradePriceObservation_trades s.bar t
    · exact ⟨rfl, rfl, rfl, rfl⟩
  unfold countTrade
  dsimp only
  generalize hbar : (if priceSource = .aggregateTrade then s.bar.recordTradePriceObservation t else s.bar) = bar
  obtain ⟨hcn, hdup, hbuy, hse⟩ := hpr bar hbar.symm
  -- the sequence number comes between, and changes none of the counts
  generalize hco : ({ s with
    dedup := s.dedup ++ [t.tradeId]
    tradesHealthy := true
    bar :=
      { bar with
        tradeCount := bar.tradeCount + 1
        tradeSpan := bar.tradeSpan.add t.eventAt t.receivedAt
        tradeLag := bar.tradeLag.add t.eventAt t.receivedAt } } : SymbolState) = s1
  have hseq := sameTrades_recordSeq s1 t.seq
  generalize s1.recordSeq t.seq = s2 at hseq
  subst hco
  obtain ⟨hcn2, hdup2, hla2, hdd2, hbuy2, hse2, hby, hsl⟩ := hseq
  unfold addToSide
  split
  · rename_i hsi
    refine ⟨hcn2.trans (congrArg (· + 1) hcn), hdup2.trans hdup, hla2, hdd2, ?_, ?_⟩
    · rw [if_pos hsi]
      exact hbuy2.trans hbuy
    · rw [if_pos hsi, ← hse]
      exact congrArg₂ (fun side burst => (SideStats.add side burst t).1) hse2 hsl
  · rename_i hsi
    refine ⟨hcn2.trans (congrArg (· + 1) hcn), hdup2.trans hdup, hla2, hdd2, ?_, ?_⟩
    · rw [if_neg hsi, ← hbuy]
      exact congrArg₂ (fun side burst => (SideStats.add side burst t).1) hbuy2 hby
    · rw [if_neg hsi]
      exact hse2.trans hse

theorem barAccount_nil {bar : Bar} (hcn : bar.tradeCount = 0) (hbuy : bar.buy = {}) (hse : bar.sell = {}) :
    BarAccount [] bar := by
  refine ⟨hcn, ?_, ?_, ?_⟩
  · rw [hcn, hbuy, hse]
    rfl
  · rw [hbuy]
    exact sideAccount_nil
  · rw [hse]
    exact sideAccount_nil

theorem SideAccount.count {side : SideStats} (h : SideAccount ts side) :
    side.tradeCount + side.blockTradeCount + side.rpiTradeCount = ts.length := by
  rw [h.tradeCount, h.blockTradeCount, h.rpiTradeCount]
  exact length_kinds ts

theorem BarAccount.congr {bar bar' : Bar} (h : BarAccount ts bar)
    (hcn : bar'.tradeCount = bar.tradeCount) (hbuy : bar'.buy = bar.buy) (hse : bar'.sell = bar.sell) :
    BarAccount ts bar' := by
  refine ⟨hcn.trans h.tradeCount, ?_, hbuy ▸ h.buy, hse ▸ h.sell⟩
  rw [hcn, hbuy, hse]
  exact h.sides

theorem BarAccount.add (h : BarAccount ts s.bar)
    (hsi : t.side ≠ .other) (hs : CountsOne s t s') : BarAccount (ts ++ [t]) s'.bar := by
  have hbuy : SideAccount ((ts ++ [t]).filter (·.side = .buy)) s'.bar.buy := by
    rw [hs.buy, filter_append]
    cases hkind : t.side with
    | buy =>
      rw [if_neg (by decide)]
      simpa [hkind] using h.buy.add s.buyBurst t
    | sell =>
      rw [if_pos rfl]
      simpa [hkind] using h.buy
    | other => exact absurd hkind hsi
  have hse : SideAccount ((ts ++ [t]).filter (·.side = .sell)) s'.bar.sell := by
    rw [hs.sell, filter_append]
    cases hkind : t.side with
    | buy =>
      rw [if_neg (by decide)]
      simpa [hkind] using h.sell
    | sell =>
      rw [if_pos rfl]
      simpa [hkind] using h.sell.add s.sellBurst t
    | other => exact absurd hkind hsi
  have hcn : s'.bar.tradeCount = (ts ++ [t]).length := by
    rw [hs.tradeCount, h.tradeCount, length_append, length_singleton]
  refine ⟨hcn, ?_, hbuy, hse⟩
  have hsd := h.sides
  rw [h.buy.count, h.sell.count, h.tradeCount] at hsd
  rw [hbuy.count, hse.count, hcn, filter_append, filter_append]
  cases hkind : t.side with
  | buy | sell => simp [hkind, hsd]; omega
  | other => exact absurd hkind hsi

theorem tradesAt_append (l : List (Trade × ℤ)) (t : Trade) (minuteStart start : ℤ) :
    tradesAt (l ++ [(t, minuteStart)]) start = tradesAt l start ++ if minuteStart = start then [t] else [] := by
  unfold tradesAt
  rw [filter_append, map_append]
  by_cases h : minuteStart = start
  · simp [h]
  · simp [h]

theorem tradesAt_eq_nil {l : List (Trade × ℤ)} {start : ℤ} (h : ∀ p ∈ l, p.2 ≠ start) : tradesAt l start = [] := by
  unfold tradesAt
  rw [filter_eq_nil_iff.2 fun p hp => by simpa using h p hp]
  rfl

structure Tallied (n : ℕ) (counted : List (Trade × ℤ)) (x : Track) : Prop where
  conserved : n = (x.bars.map fun y => y.bar.offered).sum + (x.state.map SymbolState.offered).getD 0
  own : ∀ p ∈ counted, p.2 = truncate p.1.eventAt
  once : counted.Pairwise fun p q => p.1.tradeId = q.1.tradeId → p.2 ≠ q.2
  placed : ∀ p ∈ counted, (∃ y ∈ x.bars, y.bar.bucketStart = p.2) ∨ ∃ s ∈ x.state, s.bucketStart = p.2
  rising : (x.bars.map fun y => y.bar.bucketStart).Pairwise (· < ·)
  before : ∀ s ∈ x.state, ∀ y ∈ x.bars, y.bar.bucketStart < s.bucketStart
  closed : ∀ y ∈ x.bars, BarAccount (tradesAt counted y.bar.bucketStart) y.bar
  current : ∀ s ∈ x.state, BarAccount (tradesAt counted s.bucketStart) s.bar
  seen : ∀ s ∈ x.state, ∀ id, id ∈ s.dedup ↔ ∃ t ∈ tradesAt counted s.bucketStart, t.tradeId = id
  start : ∀ s ∈ x.state, s.bar.bucketStart = s.bucketStart ∧ truncate s.bucketStart = s.bucketStart
  first : x.state = none → x.bars = [] ∧ counted = []

theorem Tallied.le (h : Tallied n counted ⟨some s, bars⟩) {p : Trade × ℤ} (hp : p ∈ counted) : p.2 ≤ s.bucketStart := by
  rcases h.placed p hp with ⟨y, hy, heq⟩ | ⟨s', hs', heq⟩
  · exact heq ▸ (h.before s rfl y hy).le
  · cases hs'
    exact heq ▸ le_rfl

theorem fillers_between (hlt : s.bucketStart < truncate time) {y : Emitted}
    (hy : y ∈ s.fillers priceSource symbol (min (s.totalGapMinutes time) maxSyntheticBackfill).toNat) :
    s.bucketStart < y.bar.bucketStart ∧ y.bar.bucketStart < truncate time := by
  obtain ⟨k, hk, rfl⟩ := mem_map.1 hy
  rw [mem_range] at hk
  show s.bucketStart < s.bucketStart + minute + k * minute ∧ s.bucketStart + minute + k * minute < truncate time
  have hpos := minute_pos
  have hk0 : 0 ≤ (k : ℤ) * minute := mul_nonneg (Int.natCast_nonneg k) hpos.le
  have hkt : (k : ℤ) + 2 ≤ sub (truncate time) s.bucketStart / minute := by
    unfold totalGapMinutes at hk
    omega
  have hsub : ((k : ℤ) + 2) * minute ≤ sub (truncate time) s.bucketStart :=
    (Int.le_ediv_iff_mul_le hpos).1 hkt
  have hle := sub_le hlt.le
  have hmul : ((k : ℤ) + 2) * minute = k * minute + 2 * minute := by ring
  exact ⟨by omega, by omega⟩

theorem fillers_rising (s : SymbolState) (n : ℕ) :
    ((s.fillers priceSource symbol n).map fun y => y.bar.bucketStart).Pairwise (· < ·) := by
  unfold fillers
  rw [map_map, pairwise_map]
  refine pairwise_lt_range.imp fun {i j} hij => ?_
  show s.bucketStart + minute + i * minute < s.bucketStart + minute + j * minute
  have hmul : (i : ℤ) * minute < j * minute := mul_lt_mul_of_pos_right (Int.ofNat_lt.2 hij) minute_pos
  omega

theorem fillers_empty {y : Emitted} (hy : y ∈ s.fillers priceSource symbol n) :
    y.bar.offered = 0 ∧ BarAccount [] y.bar := by
  obtain ⟨k, -, rfl⟩ := mem_map.1 hy
  exact ⟨rfl, barAccount_nil rfl rfl rfl⟩

theorem sum_offered_fillers (s : SymbolState) (n : ℕ) :
    ((s.fillers priceSource symbol n).map fun y => y.bar.offered).sum = 0 := by
  refine sum_eq_zero fun k hk => ?_
  obtain ⟨y, hy, rfl⟩ := mem_map.1 hk
  exact (fillers_empty hy).1

theorem closed_rising (hlt : s.bucketStart < truncate time)
    (hst : (finalizeBar priceSource s).bucketStart = s.bucketStart)
    (hbf : ∀ y ∈ bars, y.bar.bucketStart < s.bucketStart)
    (hrs : (bars.map fun y => y.bar.bucketStart).Pairwise (· < ·)) : ((bars ++ ⟨finalizeBar priceSource s, false⟩ ::
      s.fillers priceSource symbol (min (s.totalGapMinutes time) maxSyntheticBackfill).toNat).map
        fun y => y.bar.bucketStart).Pairwise (· < ·) := by
  rw [map_append, map_cons, hst]
  refine pairwise_append.2 ⟨hrs, ?_, fun a ha b hb => ?_⟩
  · refine pairwise_cons.2 ⟨fun b hb => ?_, fillers_rising s _⟩
    obtain ⟨y, hy, rfl⟩ := mem_map.1 hb
    exact (fillers_between hlt hy).1
  · obtain ⟨y, hy, rfl⟩ := mem_map.1 ha
    rcases mem_cons.1 hb with rfl | hb
    · exact hbf y hy
    · obtain ⟨y', hy', rfl⟩ := mem_map.1 hb
      exact (hbf y hy).trans (fillers_between hlt hy').1

theorem Tallied.update {k : ℕ} (h : Tallied n counted ⟨some s, bars⟩) (hsame : Same s s')
    (hcn : s'.bar.tradeCount = s.bar.tradeCount) (hbuy : s'.bar.buy = s.bar.buy) (hse : s'.bar.sell = s.bar.sell)
    (hdd : s'.dedup = s.dedup) (hof : s'.offered = s.offered + k) : Tallied (n + k) counted ⟨some s', bars⟩ := by
  have hst := h.start s rfl
  refine { h with
    conserved := ?_, placed := fun p hp => (h.placed p hp).imp_right ?_, before := ?_, current := ?_, seen := ?_,
    start := ?_, first := nofun }
  · show n + k = _ + s'.offered
    have hn : n = _ + s.offered := h.conserved
    rw [hof, hn, Nat.add_assoc]
  · rintro ⟨s1, hs1, heq⟩
    cases hs1
    exact ⟨s', rfl, hsame.bucketStart.trans heq⟩
  all_goals
    intro s1 hs1
    cases hs1
    rw [hsame.bucketStart]
  · exact h.before s rfl
  · exact (h.current s rfl).congr hcn hbuy hse
  · rw [hdd]
    exact h.seen s rfl
  · exact ⟨hsame.start.trans hst.1, hst.2⟩

theorem Tallied.count (h : Tallied n counted ⟨some s, bars⟩) (hsame : Same s s') (hone : CountsOne s t s')
    (hsi : t.side ≠ .other) (hmn : s.bucketStart = truncate t.eventAt) (hnew : t.tradeId ∉ s.dedup) :
    Tallied (n + 1) (counted ++ [(t, s.bucketStart)]) ⟨some s', bars⟩ := by
  have hst := h.start s rfl
  have hop : tradesAt (counted ++ [(t, s.bucketStart)]) s.bucketStart = tradesAt counted s.bucketStart ++ [t] := by
    rw [tradesAt_append, if_pos rfl]
  refine ⟨?_, fun p hp => ?_, ?_, fun p hp => ?_, h.rising, ?_, fun y hy => ?_, ?_, ?_, ?_, nofun⟩
  · show n + 1 = _ + s'.offered
    have hn : n = _ + s.offered := h.conserved
    have hof : s'.offered = s.offered + 1 := by
      unfold offered
      rw [hone.tradeCount, hone.duplicates, hone.late]
      omega
    rw [hof, hn, Nat.add_assoc]
  · rcases mem_append.1 hp with hp | hp
    · exact h.own p hp
    · rw [mem_singleton.1 hp]
      exact hmn
  · refine pairwise_append.2 ⟨h.once, pairwise_singleton _ _, fun p hp q hq hid hp2 => hnew ?_⟩
    rw [mem_singleton.1 hq] at hid hp2
    refine (h.seen s rfl _).2 ⟨p.1, mem_map.2 ⟨p, mem_filter.2 ⟨hp, ?_⟩, rfl⟩, hid⟩
    simpa using hp2
  · rcases mem_append.1 hp with hp | hp
    · refine (h.placed p hp).imp_right ?_
      rintro ⟨s1, hs1, heq⟩
      cases hs1
      exact ⟨s', rfl, hsame.bucketStart.trans heq⟩
    · rw [mem_singleton.1 hp]
      exact .inr ⟨s', rfl, hsame.bucketStart⟩
  case refine_6 =>
    -- the closed bars are of earlier minutes
    rw [tradesAt_append, if_neg (h.before s rfl y hy).ne', append_nil]
    exact h.closed y hy
  all_goals
    intro s1 hs1
    cases hs1
    rw [hsame.bucketStart]
  · exact h.before s rfl
  · rw [hop]
    exact (h.current s rfl).add hsi hone
  · intro id
    rw [hop, hone.dedup, mem_append, h.seen s rfl id]
    simp [or_and_right, exists_or, eq_comm]
  · exact ⟨hsame.start.trans hst.1, hst.2⟩

theorem Tallied.open (h : Tallied n counted {}) (time : ℤ) :
    Tallied n counted ⟨some (newSymbolState symbol (truncate time) {}), []⟩ := by
  obtain rfl : counted = [] := (h.first rfl).2
  refine ⟨h.conserved, h.own, h.once, fun p hp => ?_, h.rising, ?_, h.closed, ?_, ?_, ?_, nofun⟩
  · cases hp
  all_goals
    intro s hs
    cases hs
  · intro y hy
    cases hy
  · exact barAccount_nil rfl rfl rfl
  · intro id
    show id ∈ [] ↔ ∃ t ∈ [], _
    simp
  · exact ⟨rfl, truncate_truncate time⟩

theorem Tallied.close (h : Tallied n counted ⟨some s, bars⟩) (hlt : s.bucketStart < truncate time) :
    Tallied n counted (Track.advance priceSource symbol ⟨some s, bars⟩ time id) := by
  have hst : (finalizeBar priceSource s).bucketStart = s.bucketStart := (h.start s rfl).1
  have hfl := fun y => @fillers_between priceSource symbol s time hlt y
  have hlater : ∀ {start}, s.bucketStart < start → tradesAt counted start = [] :=
    fun hlt => tradesAt_eq_nil fun p hp => (lt_of_le_of_lt (h.le hp) hlt).ne
  unfold Track.advance
  rw [advance_later hlt]
  refine ⟨?_, h.own, h.once, fun p hp => ?_, ?_, ?_, fun y hy => ?_, ?_, ?_, ?_, nofun⟩
  · have hn : n = _ + s.offered := h.conserved
    rw [map_append, sum_append, map_cons, sum_cons, sum_offered_fillers, hn]
    rfl
  · refine .inl ?_
    rcases h.placed p hp with ⟨y, hy, heq⟩ | ⟨s1, hs1, heq⟩
    · exact ⟨y, mem_append_left _ hy, heq⟩
    · cases hs1
      exact ⟨_, mem_append_right _ mem_cons_self, hst.trans heq⟩
  · exact closed_rising hlt hst (h.before s rfl) h.rising
  case refine_5 =>
    rcases mem_append.1 hy with hy | hy
    · exact h.closed y hy
    · rcases mem_cons.1 hy with rfl | hy
      · rw [hst]
        exact (h.current s rfl).congr rfl rfl rfl
      · rw [hlater (hfl y hy).1]
        exact (fillers_empty hy).2
  all_goals
    intro s' hs'
    cases hs'
  · intro y hy
    rcases mem_append.1 hy with hy | hy
    · exact (h.before s rfl y hy).trans hlt
    · rcases mem_cons.1 hy with rfl | hy
      · exact hst ▸ hlt
      · exact (hfl y hy).2
  · show BarAccount (tradesAt counted (truncate time)) _
    rw [hlater hlt]
    exact barAccount_nil rfl rfl rfl
  · intro id
    show id ∈ [] ↔ ∃ t ∈ tradesAt counted (truncate time), _
    rw [hlater hlt]
    simp
  · exact ⟨rfl, truncate_truncate time⟩

theorem Tallied.advance {x : Track} (h : Tallied n counted x) (time : ℤ) :
    Tallied n counted (x.advance priceSource symbol time id) := by
  obtain ⟨state, bars⟩ := x
  cases state with
  | none =>
    obtain rfl : bars = [] := (h.first rfl).1
    exact h.open time
  | some s =>
    rcases le_or_gt (truncate time) s.bucketStart with hle | hlt
    · unfold Track.advance
      rw [advance_same hle, append_nil]
      exact h
    · exact h.close hlt

theorem le_advance (state : Option SymbolState) (time : ℤ) :
    truncate time ≤ (SymbolState.advance priceSource symbol state time).1.bucketStart := by
  cases state with
  | none => exact le_rfl
  | some s =>
    rcases le_or_gt (truncate time) s.bucketStart with hle | hlt
    · rw [advance_same hle]
      exact hle
    · rw [advance_later hlt]
      exact le_rfl

theorem Tallied.offer (h : Tallied n counted ⟨some s, bars⟩) (hvalid : t.valid = true)
    (hle : truncate t.eventAt ≤ s.bucketStart) :
    Tallied (n + 1) (counted ++ (if s.accepts t then some (t, s.bucketStart) else none).toList)
      ⟨some (s.addTrade priceSource t), bars⟩ := by
  have hsame : Same s (s.addTrade priceSource t) := same_addTrade t s
  unfold addTrade at hsame ⊢
  unfold accepts
  by_cases hla : t.eventAt < s.bucketStart
  · rw [if_pos hla] at hsame ⊢
    rw [if_neg (by simp [hla]), Option.toList_none, append_nil]
    exact h.update hsame rfl rfl rfl rfl rfl
  · rw [if_neg hla] at hsame ⊢
    by_cases hsn : t.tradeId ∈ s.dedup
    · rw [if_pos hsn] at hsame ⊢
      rw [if_neg (by simp [hsn]), Option.toList_none, append_nil]
      refine h.update hsame rfl rfl rfl rfl ?_
      unfold offered
      dsimp only
      omega
    · rw [if_neg hsn] at hsame ⊢
      rw [if_pos (by simp [hsn, not_lt.1 hla])]
      have hsi : t.side ≠ .other := by
        unfold Trade.valid at hvalid
        simp only [Bool.and_eq_true, decide_eq_true_eq] at hvalid
        exact hvalid.1.2
      have hmn : s.bucketStart = truncate t.eventAt := by
        refine le_antisymm ?_ hle
        -- not late and not of a later minute: the trade is of the minute that is open
        rw [← (h.start s rfl).2]
        exact truncate_mono (not_lt.1 hla)
      exact h.count hsame (countTrade_countsOne s t) hsi hmn hsn

theorem offers_eq_none (h : c.touch priceSource symbol = none ∨ c.opens = false) : c.offers symbol = none := by
  cases c with
  | addTrade t =>
    rcases h with h | h
    · refine if_neg fun hp => ?_
      have htc : some _ = none := (if_pos hp).symm.trans h
      cases htc
    · cases h
  | _ => rfl

theorem Tallied.step {x : Capture} (hnm : x.Named priceSource) (h : Tallied n counted (x.track symbol)) (c : Call) :
    Tallied (n + (c.offers symbol).toList.length) (counted ++ (x.counts symbol c).toList)
      ((x.step c).track symbol) := by
  rw [(track_step hnm c).2 symbol]
  unfold Capture.counts
  rcases step_cases (x.track symbol) c with ⟨hnn, hsp⟩ | ⟨time, f, htc, hsp⟩
  · rw [hsp, offers_eq_none hnn]
    simpa using h
  · rw [hsp]
    rcases touch_trades htc with ⟨t, hoff, hvalid, rfl, rfl⟩ | ⟨hoff, hquiet⟩
    · rw [hoff, hnm.source]
      exact (h.advance t.eventAt).offer hvalid (le_advance _ _)
    · rw [hoff]
      simp only [Option.toList_none, length_nil, Nat.add_zero, Option.bind_none, append_nil]
      have hq := hquiet (SymbolState.advance priceSource symbol (x.track symbol).state time).1
      refine (h.advance time).update (k := 0) (same_touch htc _) hq.tradeCount hq.buy hq.sell hq.dedup ?_
      unfold offered
      rw [hq.tradeCount, hq.duplicates, hq.late]
      rfl

theorem tallied_inv : (tallied priceSource symbol calls).capture.Named priceSource ∧
      Tallied (calls.filterMap (Call.offers symbol)).length (tallied priceSource symbol calls).counted
        ((tallied priceSource symbol calls).capture.track symbol) := by
  induction calls using reverseRecOn with
  | nil =>
    refine ⟨named_init priceSource, rfl, ?_, .nil, ?_, .nil, ?_, ?_, ?_, ?_, ?_, fun _ => ⟨rfl, rfl⟩⟩
    all_goals
      intro x hx
      cases hx
  | append_singleton calls c ih =>
    obtain ⟨hnm, h⟩ := ih
    have hsp : tallied priceSource symbol (calls ++ [c]) = (tallied priceSource symbol calls).step symbol c := by
      unfold tallied
      rw [foldl_append]
      rfl
    have hln : ([c].filterMap (Call.offers symbol)).length = (c.offers symbol).toList.length := by
      cases h : c.offers symbol <;> simp [h]
    rw [hsp, filterMap_append, length_append, hln]
    exact ⟨(track_step hnm c).1, h.step hnm c⟩

theorem tallied_capture : (tallied priceSource symbol calls).capture = captured priceSource calls :=
  (foldl_hom Tally.capture fun _ _ => rfl).symm

/-- In every run each valid trade of the symbol was counted once, by the bar of its minute, or dropped as a duplicate
or as late; and the figures of every bar are those of the trades it counted. -/
theorem trades_conserved (priceSource : PriceSource) (symbol : String) (calls : List Call) :
    let x := captured priceSource calls
    let counted := (tallied priceSource symbol calls).counted
    let current := (x.engine.states.lookup symbol).toList
    let bars := (x.bars symbol).map Emitted.bar ++ current.map bar
    (calls.filterMap (Call.offers symbol)).length =
      ((x.bars symbol).map fun y => y.bar.offered).sum + (current.map offered).sum ∧
    (∀ p ∈ counted, p.2 = truncate p.1.eventAt ∧ p.2 ∈ bars.map Bar.bucketStart) ∧
    (counted.Pairwise fun p q => p.1.tradeId = q.1.tradeId → p.1.eventAt ≠ q.1.eventAt) ∧
    (bars.map Bar.bucketStart).Pairwise (· < ·) ∧
    (∀ bar ∈ bars, BarAccount (tradesAt counted bar.bucketStart) bar) ∧
    ∀ notionalUsd, ∃! i, i < newHistogram.length ∧ InBucket i notionalUsd := by
  obtain ⟨-, h⟩ := @tallied_inv priceSource symbol calls
  rw [← @tallied_capture priceSource symbol calls]
  generalize (tallied priceSource symbol calls).capture = x at h
  generalize (tallied priceSource symbol calls).counted = counted at h
  refine ⟨?_, fun p hp => ⟨h.own p hp, ?_⟩, ?_, ?_, fun bar hbar => ?_, exists_unique_inBucket⟩
  · refine h.conserved.trans (congrArg (_ + ·) ?_)
    show ((x.engine.states.lookup symbol).map _).getD 0 = _
    cases x.engine.states.lookup symbol <;> simp
  · rw [map_append, mem_append]
    rcases h.placed p hp with ⟨y, hy, heq⟩ | ⟨s, hs, heq⟩
    · exact .inl (mem_map.2 ⟨y.bar, mem_map.2 ⟨y, hy, rfl⟩, heq⟩)
    · refine .inr (mem_map.2 ⟨s.bar, mem_map.2 ⟨s, Option.mem_toList.2 hs, rfl⟩, ?_⟩)
      exact (h.start s hs).1.trans heq
  · refine h.once.imp_of_mem fun {p q} hp hq hpq hid heq => hpq hid ?_
    rw [h.own p hp, h.own q hq, heq]
  · rw [map_append, map_map]
    refine pairwise_append.2 ⟨h.rising, ?_, fun a ha b hb => ?_⟩
    · cases x.engine.states.lookup symbol <;> simp
    · obtain ⟨y, hy, rfl⟩ := mem_map.1 ha
      obtain ⟨bar, hbar, rfl⟩ := mem_map.1 hb
      obtain ⟨s, hs, rfl⟩ := mem_map.1 hbar
      have hs := Option.mem_toList.1 hs
      rw [(h.start s hs).1]
      exact h.before s hs y hy
  · rcases mem_append.1 hbar with hbar | hbar
    · obtain ⟨y, hy, rfl⟩ := mem_map.1 hbar
      exact h.closed y hy
    · obtain ⟨s, hs, rfl⟩ := mem_map.1 hbar
      have hs := Option.mem_toList.1 hs
      rw [(h.start s hs).1]
      exact h.current s hs

end

end Schurfer.Momentum
