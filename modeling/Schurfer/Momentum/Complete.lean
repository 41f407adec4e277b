import Schurfer.Momentum.Bars

/-!
# When a bar is complete

A feed of a symbol is healthy when the last thing that happened to it was an accepted observation. A bar is complete
for the feed if it was healthy when the bar opened and was not marked while it was open.
-/

namespace Schurfer.Momentum

open GoTime List SymbolState Track Run

variable {n : ℕ} {s : SymbolState} {f : SymbolState → SymbolState}

inductive Feed
  | trades
  | ticker
deriving DecidableEq

namespace Feed

def complete : Feed → Bar → Bool
  | trades, bar => bar.tradesComplete
  | ticker, bar => bar.tickerComplete

def healthy : Feed → SymbolState → Bool
  | trades, s => s.tradesHealthy
  | ticker, s => s.tickerHealthy

def interrupted : Feed → SymbolState → Bool
  | trades, s => s.barTradesInterrupted
  | ticker, s => s.barTickerInterrupted

def marks (symbol : String) : Feed → Call → Bool
  | trades, .markTradesDiscontinuity other _ => decide (other = symbol)
  | ticker, .markTickerDiscontinuity other _ => decide (other = symbol)
  | _, _ => false

/-- The call is an observation of the symbol's feed that is accepted: it is valid, and once the symbol is advanced it
is neither late nor, if it is a trade, a duplicate. -/
def accepts (priceSource : PriceSource) (symbol : String) (state : Option SymbolState) : Feed → Call → Bool
  | trades, .addTrade t =>
    decide (t.valid ∧ t.symbol = symbol) && (SymbolState.advance priceSource symbol state t.eventAt).1.accepts t
  | ticker, .addTickerObservation o =>
    decide (o.valid ∧ o.symbol = symbol) &&
      decide ((SymbolState.advance priceSource symbol state o.eventAt).1.bucketStart ≤ o.eventAt)
  | _, _ => false

end Feed

section

variable (priceSource : PriceSource) (symbol : String) (calls : List Call)

def stateAfter (n : ℕ) : Option SymbolState := (captured priceSource (calls.take n)).engine.states.lookup symbol

def MarkedAt (feed : Feed) (n : ℕ) : Prop := ∃ c ∈ calls[n]?, feed.marks symbol c = true

def AcceptedAt (feed : Feed) (n : ℕ) : Prop :=
  ∃ c ∈ calls[n]?, feed.accepts priceSource symbol (stateAfter priceSource symbol calls n) c = true

/-- Of the accepted observations and the marks among the first `n` calls, the last is an observation. -/
def LastAccepted (feed : Feed) (n : ℕ) : Prop :=
  ∃ i < n, AcceptedAt priceSource symbol calls feed i ∧ ∀ j, i < j → j < n → ¬ MarkedAt symbol calls feed j

structure OpenSince (p q : ℕ) (start : ℤ) : Prop where
  opened : ∀ s ∈ stateAfter priceSource symbol calls p, s.bucketStart ≠ start
  stays : ∀ n, p < n → n ≤ q → ∃ s ∈ stateAfter priceSource symbol calls n, s.bucketStart = start

/-- The bar of the minute is opened by the call with index `p` and closed by the call with index `q`. -/
structure OpenBetween (p q : ℕ) (start : ℤ) : Prop extends OpenSince priceSource symbol calls p q start where
  closed : ∀ s ∈ stateAfter priceSource symbol calls (q + 1), s.bucketStart ≠ start

end

section

variable {priceSource : PriceSource} {symbol : String} {calls : List Call} {feed : Feed} {s' : SymbolState}

theorem stateAfter_eq (n : ℕ) :
    stateAfter priceSource symbol calls n = (Run.stateAt (Track.step priceSource symbol) {} calls n).state :=
  congrArg state (captured_track (calls.take n))

theorem lastAccepted_succ : LastAccepted priceSource symbol calls feed (n + 1) ↔
    AcceptedAt priceSource symbol calls feed n ∨
      LastAccepted priceSource symbol calls feed n ∧ ¬ MarkedAt symbol calls feed n := by
  constructor
  · rintro ⟨i, hi, hacc, hmr⟩
    rcases Nat.lt_succ_iff_lt_or_eq.1 hi with hlt | rfl
    · exact .inr ⟨⟨i, hlt, hacc, fun j hij hj => hmr j hij (by omega)⟩, hmr n hlt (by omega)⟩
    · exact .inl hacc
  · rintro (hacc | ⟨⟨i, hi, hacc, hmr⟩, hn⟩)
    · exact ⟨n, by omega, hacc, fun j hij hj => by omega⟩
    · refine ⟨i, by omega, hacc, fun j hij hj => ?_⟩
      rcases Nat.lt_succ_iff_lt_or_eq.1 hj with hlt | rfl
      · exact hmr j hij hlt
      · exact hn

theorem complete_finalizeBar (s : SymbolState) : feed.complete (finalizeBar priceSource s) = !feed.interrupted s := by
  cases feed <;> rfl

structure SameFeeds (s s' : SymbolState) : Prop where
  healthy : ∀ feed : Feed, feed.healthy s' = feed.healthy s
  interrupted : ∀ feed : Feed, feed.interrupted s' = feed.interrupted s

theorem sameFeeds_of (htr : s'.tradesHealthy = s.tradesHealthy)
    (hti : s'.tickerHealthy = s.tickerHealthy) (hbr : s'.barTradesInterrupted = s.barTradesInterrupted)
    (hba : s'.barTickerInterrupted = s.barTickerInterrupted) : SameFeeds s s' := by
  constructor
  · rintro (_ | _)
    · exact htr
    · exact hti
  · rintro (_ | _)
    · exact hbr
    · exact hba

theorem sameFeeds_addToSide (s : SymbolState) (t : Trade) : SameFeeds s (s.addToSide t) := by
  unfold addToSide
  split <;> exact sameFeeds_of rfl rfl rfl rfl

theorem sameFeeds_recordSeq (s : SymbolState) (seq : ℤ) : SameFeeds s (s.recordSeq seq) := by
  unfold recordSeq
  split <;> exact sameFeeds_of rfl rfl rfl rfl

theorem sameFeeds_addQuote (o : QuoteObservation) (s : SymbolState) : SameFeeds s (s.addQuote o) := by
  unfold addQuote
  split <;> exact sameFeeds_of rfl rfl rfl rfl

theorem sameFeeds_addDerivatives (o : DerivativesObservation) (s : SymbolState) : SameFeeds s (s.addDerivatives o) := by
  simp only [addDerivatives]
  split <;> exact sameFeeds_of rfl rfl rfl rfl

structure FeedAfter (feed : Feed) (s s' : SymbolState) (accepted marked : Bool) : Prop where
  healthy : feed.healthy s' = (accepted || feed.healthy s && !marked)
  interrupted : feed.interrupted s' = (feed.interrupted s || marked)

theorem SameFeeds.after (h : SameFeeds s s') : FeedAfter feed s s' false false := by
  refine ⟨?_, ?_⟩
  · rw [h.healthy, Bool.false_or, Bool.not_false, Bool.and_true]
  · rw [h.interrupted, Bool.or_false]

variable (priceSource) in
theorem feedAfter_addTrade (feed : Feed) (s : SymbolState) (t : Trade) :
    FeedAfter feed s (s.addTrade priceSource t) (decide (feed = .trades) && s.accepts t) false := by
  unfold addTrade accepts
  by_cases hla : t.eventAt < s.bucketStart
  · rw [if_pos hla, decide_eq_false (not_le.2 hla), Bool.false_and, Bool.and_false]
    exact SameFeeds.after (sameFeeds_of rfl rfl rfl rfl)
  · rw [if_neg hla, decide_eq_true (not_lt.1 hla), Bool.true_and]
    by_cases hsn : t.tradeId ∈ s.dedup
    · rw [if_pos hsn, decide_eq_true hsn, Bool.not_true, Bool.and_false]
      exact SameFeeds.after (sameFeeds_of rfl rfl rfl rfl)
    · rw [if_neg hsn, decide_eq_false hsn, Bool.not_false, Bool.and_true]
      have hsd := fun s1 : SymbolState => sameFeeds_addToSide (s1.recordSeq t.seq) t
      have hseq := fun s1 : SymbolState => sameFeeds_recordSeq s1 t.seq
      unfold countTrade
      constructor
      · rw [(hsd _).healthy, (hseq _).healthy]
        cases feed <;> simp [Feed.healthy]
      · rw [(hsd _).interrupted, (hseq _).interrupted]
        cases feed <;> simp [Feed.interrupted]

variable (priceSource) in
theorem feedAfter_addTicker (feed : Feed) (s : SymbolState) (o : TickerObservation) :
    FeedAfter feed s (s.addTicker priceSource o)
      (decide (feed = .ticker) && decide (s.bucketStart ≤ o.eventAt)) false := by
  unfold addTicker
  by_cases hla : o.eventAt < s.bucketStart
  · rw [if_pos hla, decide_eq_false (not_le.2 hla), Bool.and_false]
    exact SameFeeds.after (sameFeeds_of rfl rfl rfl rfl)
  · rw [if_neg hla, decide_eq_true (not_lt.1 hla)]
    cases feed <;> constructor <;> simp [Feed.healthy, Feed.interrupted]

variable {c : Call} {time : ℤ}

theorem touch_feed (h : c.touch priceSource symbol = some (time, f)) (state : Option SymbolState) :
    FeedAfter feed (advance priceSource symbol state time).1
      (f (advance priceSource symbol state time).1) (feed.accepts priceSource symbol state c)
      (feed.marks symbol c) := by
  cases c with
  | addTrade t =>
    obtain ⟨hp, rfl, rfl⟩ := touch_ite h
    have haf := feedAfter_addTrade priceSource feed (advance priceSource symbol state t.eventAt).1 t
    cases feed with
    | trades => simpa [Feed.accepts, Feed.marks, hp] using haf
    | ticker => simpa [Feed.accepts, Feed.marks] using haf
  | addTickerObservation o =>
    obtain ⟨hp, rfl, rfl⟩ := touch_ite h
    have haf := feedAfter_addTicker priceSource feed (advance priceSource symbol state o.eventAt).1 o
    cases feed with
    | trades => simpa [Feed.accepts, Feed.marks] using haf
    | ticker => simpa [Feed.accepts, Feed.marks, hp] using haf
  | addQuoteObservation o =>
    obtain ⟨-, rfl, rfl⟩ := touch_ite h
    cases feed <;> exact (sameFeeds_addQuote o _).after
  | addDerivativesObservation o =>
    obtain ⟨-, rfl, rfl⟩ := touch_ite h
    cases feed <;> exact (sameFeeds_addDerivatives o _).after
  | markTickerDiscontinuity other x =>
    obtain ⟨hp, rfl, rfl⟩ := touch_ite h
    cases feed <;> constructor <;>
      simp [Feed.accepts, Feed.marks, hp, Feed.healthy, Feed.interrupted, markTicker]
  | markDerivativesDiscontinuity other x =>
    obtain ⟨-, rfl, rfl⟩ := touch_ite h
    cases feed <;> exact SameFeeds.after (sameFeeds_of rfl rfl rfl rfl)
  | markTradesDiscontinuity other x =>
    obtain ⟨hp, rfl, rfl⟩ := touch_ite h
    cases feed <;> constructor <;>
      simp [Feed.accepts, Feed.marks, hp, Feed.healthy, Feed.interrupted, markTrades]
  | flush now =>
    obtain rfl : id = f := (Prod.mk.inj (Option.some.inj h)).2
    cases feed <;> exact SameFeeds.after (sameFeeds_of rfl rfl rfl rfl)

theorem quiet_feed (h : c.touch priceSource symbol = none ∨ c.opens = false) (state : Option SymbolState) :
    feed.accepts priceSource symbol state c = false ∧ feed.marks symbol c = false := by
  have hite : ∀ {p : Prop} [Decidable p] {x : ℤ × (SymbolState → SymbolState)},
      (if p then some x else none) = none ∨ true = false → ¬ p := by
    intro p _ x h hp
    rw [if_pos hp] at h
    simp at h
  cases c with
  | addTrade | addTickerObservation | markTickerDiscontinuity | markTradesDiscontinuity =>
    cases feed <;> simp [Feed.accepts, Feed.marks, hite h]
  | _ => cases feed <;> exact ⟨rfl, rfl⟩

theorem advance_feed (state : Option SymbolState) (time : ℤ) :
    feed.healthy (advance priceSource symbol state time).1 = state.any feed.healthy ∧
      ((∀ s ∈ state, s.bucketStart < truncate time) →
        feed.interrupted (advance priceSource symbol state time).1 = !state.any feed.healthy) := by
  cases state with
  | none => cases feed <;> exact ⟨rfl, fun _ => rfl⟩
  | some s =>
    rcases le_or_gt (truncate time) s.bucketStart with hle | hlt
    · rw [advance_same hle]
      exact ⟨rfl, fun hlt => absurd (hlt s rfl) (not_lt.2 hle)⟩
    · rw [advance_later hlt]
      cases feed <;> exact ⟨rfl, fun _ => rfl⟩

section

variable (priceSource symbol calls feed)

def Unmarked (p q : ℕ) : Prop := ∀ i, p ≤ i → i < q → ¬ MarkedAt symbol calls feed i

def Verdict (y : Emitted) : Prop :=
  (y.filler = true → feed.complete y.bar = false) ∧
    (y.filler = false → ∃ p q, p < q ∧ q < calls.length ∧ OpenBetween priceSource symbol calls p q y.bar.bucketStart ∧
      (feed.complete y.bar = true ↔ LastAccepted priceSource symbol calls feed p ∧ Unmarked symbol calls feed p q))

structure FeedOk (n : ℕ) : Prop where
  healthy : (stateAfter priceSource symbol calls n).any feed.healthy = true ↔
    LastAccepted priceSource symbol calls feed n
  start : ∀ s ∈ stateAfter priceSource symbol calls n, s.bar.bucketStart = s.bucketStart
  current : ∀ s ∈ stateAfter priceSource symbol calls n, ∃ p < n,
    OpenSince priceSource symbol calls p n s.bucketStart ∧ (feed.interrupted s = false ↔
      LastAccepted priceSource symbol calls feed p ∧ Unmarked symbol calls feed p n)
  bars : ∀ y ∈ (Run.stateAt (Track.step priceSource symbol) {} calls n).bars, Verdict priceSource symbol calls feed y

end

theorem unmarked_succ {p : ℕ} (hp : p ≤ n) :
    Unmarked symbol calls feed p (n + 1) ↔ Unmarked symbol calls feed p n ∧ ¬ MarkedAt symbol calls feed n := by
  constructor
  · exact fun h => ⟨fun i hpi hi => h i hpi (by omega), h n hp (by omega)⟩
  · rintro ⟨h, hn⟩ i hpi hi
    rcases Nat.lt_succ_iff_lt_or_eq.1 hi with hlt | rfl
    · exact h i hpi hlt
    · exact hn

theorem FeedOk.skip (h : FeedOk priceSource symbol calls feed n)
    (hsame : Run.stateAt (Track.step priceSource symbol) {} calls (n + 1) =
      Run.stateAt (Track.step priceSource symbol) {} calls n)
    (hacc : ¬ AcceptedAt priceSource symbol calls feed n) (hmr : ¬ MarkedAt symbol calls feed n) :
    FeedOk priceSource symbol calls feed (n + 1) := by
  have hst : stateAfter priceSource symbol calls (n + 1) = stateAfter priceSource symbol calls n := by
    rw [stateAfter_eq, stateAfter_eq, hsame]
  refine ⟨?_, hst ▸ h.start, fun s hs => ?_, hsame ▸ h.bars⟩
  · rw [hst, h.healthy, lastAccepted_succ]
    simp [hacc, hmr]
  · rw [hst] at hs
    obtain ⟨p, hp, hop, hiff⟩ := h.current s hs
    refine ⟨p, by omega, ⟨hop.opened, fun m hpm hm => ?_⟩, ?_⟩
    · rcases Nat.le_succ_iff.1 hm with hm | rfl
      · exact hop.stays m hpm hm
      · exact ⟨s, hst.symm ▸ hs, rfl⟩
    · rw [hiff, unmarked_succ hp.le]
      simp [hmr]

theorem markedAt_iff (hc : calls[n]? = some c) : MarkedAt symbol calls feed n ↔ feed.marks symbol c = true := by
  unfold MarkedAt
  rw [hc]
  simp

theorem acceptedAt_iff (hc : calls[n]? = some c) : AcceptedAt priceSource symbol calls feed n ↔
      feed.accepts priceSource symbol (stateAfter priceSource symbol calls n) c = true := by
  unfold AcceptedAt
  rw [hc]
  simp

section

variable (h : FeedOk priceSource symbol calls feed n)

include h

theorem FeedOk.stay (hc : calls[n]? = some c) (hs : stateAfter priceSource symbol calls n = some s)
    (hs' : stateAfter priceSource symbol calls (n + 1) = some s') (hsame : Same s s')
    (hfd : feed.interrupted s' = (feed.interrupted s || feed.marks symbol c)) :
    ∃ p < n + 1, OpenSince priceSource symbol calls p (n + 1) s'.bucketStart ∧ (feed.interrupted s' = false ↔
      LastAccepted priceSource symbol calls feed p ∧ Unmarked symbol calls feed p (n + 1)) := by
  obtain ⟨p, hp, hop, hiff⟩ := h.current s hs
  refine ⟨p, by omega, ?_, ?_⟩
  · rw [hsame.bucketStart]
    refine ⟨hop.opened, fun m hpm hm => ?_⟩
    rcases Nat.le_succ_iff.1 hm with hm | rfl
    · exact hop.stays m hpm hm
    · exact ⟨s', hs', hsame.bucketStart⟩
  · rw [hfd, Bool.or_eq_false_iff, hiff, unmarked_succ hp.le, markedAt_iff hc, Bool.not_eq_true, and_assoc]

theorem FeedOk.reopen (hc : calls[n]? = some c) (hs' : stateAfter priceSource symbol calls (n + 1) = some s')
    (hlater : ∀ s ∈ stateAfter priceSource symbol calls n, s.bucketStart < s'.bucketStart)
    (hfd : feed.interrupted s' = (!(stateAfter priceSource symbol calls n).any feed.healthy || feed.marks symbol c)) :
    ∃ p < n + 1, OpenSince priceSource symbol calls p (n + 1) s'.bucketStart ∧ (feed.interrupted s' = false ↔
      LastAccepted priceSource symbol calls feed p ∧ Unmarked symbol calls feed p (n + 1)) := by
  refine ⟨n, by omega, ⟨fun s hs => (hlater s hs).ne, fun m hpm hm => ?_⟩, ?_⟩
  · obtain rfl : m = n + 1 := by omega
    exact ⟨s', hs', rfl⟩
  · have hnn : Unmarked symbol calls feed n n := fun i hni hin => by omega
    rw [hfd, Bool.or_eq_false_iff, Bool.not_eq_false', h.healthy, unmarked_succ le_rfl, markedAt_iff hc,
      Bool.not_eq_true]
    simp [hnn]

theorem FeedOk.close (hn : n < calls.length) (hs : stateAfter priceSource symbol calls n = some s)
    (hlater : ∀ s' ∈ stateAfter priceSource symbol calls (n + 1), s.bucketStart < s'.bucketStart) {k : ℕ} {y : Emitted}
    (hy : y ∈ ⟨finalizeBar priceSource s, false⟩ :: s.fillers priceSource symbol k) :
    Verdict priceSource symbol calls feed y := by
  rcases mem_cons.1 hy with rfl | hy
  · obtain ⟨p, hp, hop, hiff⟩ := h.current s hs
    have hsr : (finalizeBar priceSource s).bucketStart = s.bucketStart := h.start s hs
    refine ⟨fun hfl => ?_, fun _ => ⟨p, n, hp, hn, ?_, ?_⟩⟩
    · cases hfl
    · rw [hsr]
      exact ⟨hop, fun s' hs' => (hlater s' hs').ne'⟩
    · rw [complete_finalizeBar, Bool.not_eq_true']
      exact hiff
  · obtain ⟨i, -, rfl⟩ := mem_map.1 hy
    refine ⟨fun _ => ?_, fun hrl => ?_⟩
    · cases feed <;> rfl
    · cases hrl

theorem FeedOk.move (hc : calls[n]? = some c) (htc : c.touch priceSource symbol = some (time, f))
    (hsp : Run.stateAt (Track.step priceSource symbol) {} calls (n + 1) =
      (Run.stateAt (Track.step priceSource symbol) {} calls n).advance priceSource symbol time f) :
    FeedOk priceSource symbol calls feed (n + 1) := by
  have hln : n < calls.length := (List.getElem?_eq_some_iff.1 hc).1
  obtain ⟨state, hst⟩ : ∃ state, stateAfter priceSource symbol calls n = state := ⟨_, rfl⟩
  have hsame := same_touch htc (advance priceSource symbol state time).1
  have haf : FeedAfter feed _ _ _ _ := touch_feed htc state
  obtain ⟨hhl, hfr⟩ := @advance_feed priceSource symbol feed state time
  have hst' : stateAfter priceSource symbol calls (n + 1) =
      some (f (advance priceSource symbol state time).1) := by
    rw [stateAfter_eq, hsp, ← hst, stateAfter_eq]
    rfl
  have hbs : (stateAt (step priceSource symbol) {} calls (n + 1)).bars =
      (stateAt (step priceSource symbol) {} calls n).bars ++
        (advance priceSource symbol state time).2 := by
    rw [hsp, ← hst, stateAfter_eq]
    rfl
  have hnew : (stateAfter priceSource symbol calls (n + 1)).any feed.healthy = true ↔
      LastAccepted priceSource symbol calls feed (n + 1) := by
    rw [hst', lastAccepted_succ, acceptedAt_iff hc, markedAt_iff hc, ← h.healthy, hst, ← hhl]
    show feed.healthy _ = true ↔ _
    rw [haf.healthy]
    simp
  have hsr : ∀ s ∈ state, s.bar.bucketStart = s.bucketStart := hst ▸ h.start
  have hmem : ∀ {P : SymbolState → Prop}, P (f (advance priceSource symbol state time).1) →
      ∀ s ∈ stateAfter priceSource symbol calls (n + 1), P s := by
    intro P hP s hs
    rw [hst'] at hs
    cases hs
    exact hP
  by_cases hlater : ∀ s ∈ state, s.bucketStart < truncate time
  · -- the bar opens now, and an open one closes
    have hopened : (advance priceSource symbol state time).1.bucketStart = truncate time ∧
        (advance priceSource symbol state time).1.bar.bucketStart = truncate time := by
      cases state with
      | none => exact ⟨rfl, rfl⟩
      | some s =>
        rw [advance_later (hlater s rfl)]
        exact ⟨rfl, rfl⟩
    refine ⟨hnew, hmem ?_, hmem (h.reopen hc hst' ?_ ?_), fun y hy => ?_⟩
    · rw [hsame.start, hsame.bucketStart, hopened.1, hopened.2]
    · rw [hst, hsame.bucketStart, hopened.1]
      exact hlater
    · rw [hst, haf.interrupted, hfr hlater]
    · rw [hbs] at hy
      rcases mem_append.1 hy with hy | hy
      · exact h.bars y hy
      · cases state with
        | none => cases hy
        | some s =>
          rw [advance_later (hlater s rfl)] at hy
          refine h.close hln hst (hmem ?_) hy
          rw [hsame.bucketStart, hopened.1]
          exact hlater s rfl
  · -- the open bar goes on
    push Not at hlater
    obtain ⟨s, rfl, hle⟩ := hlater
    rw [advance_same hle] at hst' hbs hsame haf hmem
    refine ⟨hnew, hmem ?_, hmem (h.stay hc hst hst' hsame haf.interrupted), ?_⟩
    · rw [hsame.start, hsame.bucketStart]
      exact hsr s rfl
    · rw [hbs, append_nil]
      exact h.bars

end

theorem feedOk (n : ℕ) : FeedOk priceSource symbol calls feed n := by
  induction n with
  | zero =>
    refine ⟨?_, fun s hs => ?_, fun s hs => ?_, fun y hy => by cases hy⟩
    · rw [stateAfter_eq]
      refine ⟨fun hsm => ?_, fun ⟨i, hi, _⟩ => absurd hi (Nat.not_lt_zero i)⟩
      cases hsm
    · rw [stateAfter_eq] at hs
      cases hs
    · rw [stateAfter_eq] at hs
      cases hs
  | succ n ih =>
    cases hc : calls[n]? with
    | none =>
      refine ih.skip (stateAt_of_length_le hc) ?_ ?_
      · rintro ⟨c, hmem, -⟩
        rw [hc] at hmem
        cases hmem
      · rintro ⟨c, hmem, -⟩
        rw [hc] at hmem
        cases hmem
    | some c =>
      have hsc : stateAt (step priceSource symbol) {} calls (n + 1) =
          (stateAt (step priceSource symbol) {} calls n).step priceSource symbol c := stateAt_succ hc
      rcases step_cases (stateAt (step priceSource symbol) {} calls n) c with
        ⟨hnn, hsp⟩ | ⟨time, f, htc, hsp⟩
      · obtain ⟨hacc, hmr⟩ := @quiet_feed priceSource symbol feed c hnn (stateAfter priceSource symbol calls n)
        refine ih.skip (hsc.trans hsp) ?_ ?_
        · rw [acceptedAt_iff hc, hacc]
          exact Bool.false_ne_true
        · rw [markedAt_iff hc, hmr]
          exact Bool.false_ne_true
      · exact ih.move hc htc (hsc.trans hsp)

def Onward (feed : Feed) (a b : Option SymbolState) : Prop :=
  ∀ s ∈ a, ∃ s' ∈ b, s.bucketStart ≤ s'.bucketStart ∧
    (s'.bucketStart = s.bucketStart → feed.interrupted s = true → feed.interrupted s' = true)

instance : Std.Refl (Onward feed) := ⟨fun _ s hs => ⟨s, hs, le_rfl, fun _ h => h⟩⟩

instance : IsTrans (Option SymbolState) (Onward feed) := by
  refine ⟨fun a b c hab hbc s hs => ?_⟩
  obtain ⟨s₁, hs₁, hle₁, hint₁⟩ := hab s hs
  obtain ⟨s₂, hs₂, hle₂, hint₂⟩ := hbc s₁ hs₁
  refine ⟨s₂, hs₂, hle₁.trans hle₂, fun heq hint => ?_⟩
  have h₁ : s₁.bucketStart = s.bucketStart := le_antisymm (hle₂.trans heq.le) hle₁
  exact hint₂ (heq.trans h₁.symm) (hint₁ h₁ hint)

theorem step_onward (x : Track) (c : Call) : Onward feed x.state (x.step priceSource symbol c).state := by
  rcases step_cases x c with ⟨-, hsp⟩ | ⟨time, f, htc, hsp⟩
  · rw [hsp]
    exact Std.Refl.refl _
  · rw [hsp]
    intro s hs
    have hsame := same_touch htc (advance priceSource symbol x.state time).1
    have haf : FeedAfter feed _ _ _ _ := touch_feed htc x.state
    refine ⟨_, rfl, ?_⟩
    rw [hsame.bucketStart, haf.interrupted, hs]
    rcases le_or_gt (truncate time) s.bucketStart with hle | hlt
    · rw [advance_same hle]
      exact ⟨le_rfl, fun _ hint => by rw [hint, Bool.true_or]⟩
    · rw [advance_later hlt]
      exact ⟨hlt.le, fun heq => absurd heq hlt.ne'⟩

/-- A bar is complete exactly when it fills no gap, the last thing that happened to the feed before it opened was an
accepted observation, and no call marked the feed while it was open. -/
theorem complete_iff (feed : Feed) (priceSource : PriceSource) (symbol : String) (calls : List Call) :
    (∀ y ∈ (captured priceSource calls).bars symbol,
      (y.filler = true → feed.complete y.bar = false) ∧
      (y.filler = false → ∃ p q, p < q ∧ q < calls.length ∧
        OpenBetween priceSource symbol calls p q y.bar.bucketStart ∧
        (feed.complete y.bar = true ↔
          LastAccepted priceSource symbol calls feed p ∧ ∀ i, p ≤ i → i < q → ¬ MarkedAt symbol calls feed i))) ∧
    ∀ m n, m ≤ n → ∀ s ∈ stateAfter priceSource symbol calls m, ∀ s' ∈ stateAfter priceSource symbol calls n,
      s'.bucketStart = s.bucketStart → feed.interrupted s = true → feed.interrupted s' = true := by
  refine ⟨fun y hy => ?_, fun m n hmn s hs s' hs' heq hint => ?_⟩
  · have hbars : (captured priceSource calls).bars symbol =
        (stateAt (step priceSource symbol) {} calls calls.length).bars := by
      unfold stateAt
      rw [take_length]
      exact congrArg bars (captured_track calls)
    exact (feedOk calls.length).bars y (hbars ▸ hy)
  · have hstep : ∀ k c, calls[k]? = some c →
        Onward feed (stateAt (step priceSource symbol) {} calls k).state
          ((stateAt (step priceSource symbol) {} calls k).step priceSource symbol c).state :=
      fun k c _ => step_onward _ c
    have honward := persists state hstep hmn
    rw [← stateAfter_eq, ← stateAfter_eq] at honward
    obtain ⟨s1, hs1, -, hkeep⟩ := honward s hs
    obtain rfl : s' = s1 := Option.some.inj (hs'.symm.trans hs1)
    exact hkeep heq hint

end

end Schurfer.Momentum
