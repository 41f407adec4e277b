import Schurfer.Lib.Txn
import Schurfer.Momentum.Engine

/-!
# The bars of one symbol, minute after minute

What the calls of the engine do to one symbol is a run of `Track.step` over the same calls (`captured_track`).
-/

namespace Schurfer.Momentum

open GoTime List SymbolState

structure Capture where
  engine : Engine
  emitted : List Emitted := []

open Capture

variable {f : SymbolState → SymbolState} {x : Capture} {times : List ℤ}

def Capture.step (x : Capture) (c : Call) : Capture := ⟨(x.engine.call c).1, x.emitted ++ x.engine.emits c⟩

def captured (priceSource : PriceSource) (calls : List Call) : Capture :=
  calls.foldl step ⟨{ priceSource }, []⟩

def Capture.bars (x : Capture) (symbol : String) : List Emitted := x.emitted.filter fun y => y.bar.symbol = symbol

variable (priceSource : PriceSource) (symbol : String)

def Call.touch : Call → Option (ℤ × (SymbolState → SymbolState))
  | .addTrade t => if t.valid ∧ t.symbol = symbol then some (t.eventAt, (·.addTrade priceSource t)) else none
  | .addTickerObservation o =>
    if o.valid ∧ o.symbol = symbol then some (o.eventAt, (·.addTicker priceSource o)) else none
  | .addQuoteObservation o => if o.valid ∧ o.symbol = symbol then some (o.eventAt, (·.addQuote o)) else none
  | .addDerivativesObservation o => if o.valid ∧ o.symbol = symbol then some (o.eventAt, (·.addDerivatives o)) else none
  | .markTickerDiscontinuity other time => if other = symbol then some (time, (·.markTicker)) else none
  | .markDerivativesDiscontinuity other time => if other = symbol then some (time, (·.markDerivatives)) else none
  | .markTradesDiscontinuity other time => if other = symbol then some (time, (·.markTrades)) else none
  | .flush now => some (now, id)

def Call.opens : Call → Bool
  | .flush _ => false
  | _ => true

structure Track where
  state : Option SymbolState := none
  bars : List Emitted := []

def Track.advance (priceSource : PriceSource) (symbol : String) (x : Track) (time : ℤ) (f : SymbolState → SymbolState) :
    Track where
  state := some (f (SymbolState.advance priceSource symbol x.state time).1)
  bars := x.bars ++ (SymbolState.advance priceSource symbol x.state time).2

def Track.step (x : Track) (c : Call) : Track :=
  match c.touch priceSource symbol with
  | none => x
  | some (time, f) => if x.state.isSome || c.opens then x.advance priceSource symbol time f else x

def tracked (calls : List Call) : Track :=
  calls.foldl (Track.step priceSource symbol) {}

section

variable {priceSource : PriceSource} {symbol : String} {s : SymbolState} {c : Call}

theorem step_cases (x : Track) (c : Call) :
    (c.touch priceSource symbol = none ∨ c.opens = false) ∧ x.step priceSource symbol c = x ∨
      ∃ time f, c.touch priceSource symbol = some (time, f) ∧
        x.step priceSource symbol c = x.advance priceSource symbol time f := by
  unfold Track.step
  cases htc : c.touch priceSource symbol with
  | none => exact .inl ⟨.inl rfl, rfl⟩
  | some r =>
    dsimp only
    split
    · exact .inr ⟨r.1, r.2, rfl, rfl⟩
    · rename_i hclosed
      rw [Bool.or_eq_true, not_or] at hclosed
      exact .inl ⟨.inr (Bool.eq_false_iff.2 hclosed.2), rfl⟩

structure Gap where
  minutes : ℤ := 0
  from' : Option ℤ := none
  to' : Option ℤ := none

def SymbolState.opened (s : SymbolState) (symbol : String) (start : ℤ) (gap : Gap) : SymbolState :=
  { newSymbolState symbol start s.carryForward with
    bar :=
      { (newSymbolState symbol start s.carryForward).bar with
        unbackfilledGapMinutes := gap.minutes
        unbackfilledGapFrom := gap.from'
        unbackfilledGapTo := gap.to' } }

def SymbolState.fillers (s : SymbolState) (priceSource : PriceSource) (symbol : String) (n : ℕ) : List Emitted :=
  (List.range n).map fun k : ℕ => gapBar priceSource symbol s.carryForward (s.bucketStart + minute + k * minute)

def SymbolState.totalGapMinutes (s : SymbolState) (time : ℤ) : ℤ := sub (truncate time) s.bucketStart / minute - 1

theorem advance_same {time : ℤ} (h : truncate time ≤ s.bucketStart) :
    advance priceSource symbol (some s) time = (s, []) := if_pos h

theorem advance_later {time : ℤ} (h : s.bucketStart < truncate time) :
    advance priceSource symbol (some s) time = (s.opened symbol (truncate time)
        (if maxSyntheticBackfill < s.totalGapMinutes time then
          { minutes := s.totalGapMinutes time - maxSyntheticBackfill
            from' := some (s.bucketStart + minute + maxSyntheticBackfill * minute)
            to' := some (truncate time) }
        else {}),
      ⟨finalizeBar priceSource s, false⟩ ::
        s.fillers priceSource symbol (min (s.totalGapMinutes time) maxSyntheticBackfill).toNat) := by
  have hiff : 0 < s.totalGapMinutes time - min (s.totalGapMinutes time) maxSyntheticBackfill ↔
      maxSyntheticBackfill < s.totalGapMinutes time := by omega
  unfold advance
  dsimp only
  rw [if_neg (not_le.2 h)]
  refine Prod.ext ?_ rfl
  rw [← totalGapMinutes, if_congr hiff rfl rfl]
  split
  · rename_i hgap
    rw [min_eq_right hgap.le]
    rfl
  · rfl

theorem advance_symbol {state : Option SymbolState} (hstt : ∀ s ∈ state, s.bar.symbol = symbol) (time : ℤ) :
    (advance priceSource symbol state time).1.bar.symbol = symbol ∧
      ∀ y ∈ (advance priceSource symbol state time).2, y.bar.symbol = symbol := by
  cases state with
  | none => exact ⟨rfl, fun y hy => absurd hy not_mem_nil⟩
  | some s =>
    rcases le_or_gt (truncate time) s.bucketStart with hle | hlt
    · rw [advance_same hle]
      exact ⟨hstt s rfl, fun y hy => absurd hy not_mem_nil⟩
    · rw [advance_later hlt]
      refine ⟨rfl, fun y hy => ?_⟩
      rcases mem_cons.1 hy with rfl | hy
      · exact hstt s rfl
      · obtain ⟨k, -, rfl⟩ := mem_map.1 hy
        rfl

structure Same (s s' : SymbolState) : Prop where
  bucketStart : s'.bucketStart = s.bucketStart
  symbol : s'.bar.symbol = s.bar.symbol
  start : s'.bar.bucketStart = s.bar.bucketStart
  minutes : s'.bar.unbackfilledGapMinutes = s.bar.unbackfilledGapMinutes
  gapFrom : s'.bar.unbackfilledGapFrom = s.bar.unbackfilledGapFrom
  gapTo : s'.bar.unbackfilledGapTo = s.bar.unbackfilledGapTo

theorem Same.refl (s : SymbolState) : Same s s := by constructor <;> rfl

theorem same_addToSide (s : SymbolState) (t : Trade) : Same s (s.addToSide t) := by
  unfold addToSide
  split <;> constructor <;> rfl

theorem same_recordSeq (s : SymbolState) (seq : ℤ) : Same s (s.recordSeq seq) := by
  unfold recordSeq
  split <;> constructor <;> rfl

theorem same_recordPrice (s : SymbolState) (t : Trade) :
    Same s { s with bar := s.bar.recordTradePriceObservation t } := by
  simp only [Bar.recordTradePriceObservation]
  split <;> split <;> constructor <;> rfl

theorem Same.trans {s1 s2 s3 : SymbolState} (h : Same s1 s2) (h' : Same s2 s3) : Same s1 s3 :=
  ⟨h'.bucketStart.trans h.bucketStart, h'.symbol.trans h.symbol, h'.start.trans h.start,
    h'.minutes.trans h.minutes, h'.gapFrom.trans h.gapFrom, h'.gapTo.trans h.gapTo⟩

theorem same_addTrade (t : Trade) (s : SymbolState) : Same s (s.addTrade priceSource t) := by
  unfold addTrade
  split
  · constructor <;> rfl
  · split
    · constructor <;> rfl
    · refine Same.trans (Same.trans ?_ (same_recordSeq _ t.seq)) (same_addToSide _ t)
      have hpr := same_recordPrice s t
      split
      · exact ⟨rfl, hpr.symbol, hpr.start, hpr.minutes, hpr.gapFrom, hpr.gapTo⟩
      · constructor <;> rfl

theorem same_addTicker (o : TickerObservation) (s : SymbolState) : Same s (s.addTicker priceSource o) := by
  simp only [addTicker]
  split
  · exact .refl s
  · split <;> constructor <;> rfl

theorem same_addQuote (o : QuoteObservation) (s : SymbolState) : Same s (s.addQuote o) := by
  unfold addQuote
  split <;> constructor <;> rfl

theorem same_addDerivatives (o : DerivativesObservation) (s : SymbolState) : Same s (s.addDerivatives o) := by
  simp only [addDerivatives]
  split <;> constructor <;> rfl

theorem touch_ite {p : Prop} [Decidable p] {time time' : ℤ} {f' : SymbolState → SymbolState}
    (h : (if p then some (time, f) else none) = some (time', f')) : p ∧ time = time' ∧ f = f' := by
  split at h
  · rename_i hp
    exact ⟨hp, Prod.mk.inj (Option.some.inj h)⟩
  · cases h

theorem same_touch {time : ℤ} (h : c.touch priceSource symbol = some (time, f)) (s : SymbolState) : Same s (f s) := by
  cases c with
  | addTrade t => exact (touch_ite h).2.2 ▸ same_addTrade t s
  | addTickerObservation o => exact (touch_ite h).2.2 ▸ same_addTicker o s
  | addQuoteObservation o => exact (touch_ite h).2.2 ▸ same_addQuote o s
  | addDerivativesObservation o => exact (touch_ite h).2.2 ▸ same_addDerivatives o s
  | markTickerDiscontinuity | markDerivativesDiscontinuity | markTradesDiscontinuity =>
    exact (touch_ite h).2.2 ▸ ⟨rfl, rfl, rfl, rfl, rfl, rfl⟩
  | flush now =>
    obtain rfl : id = f := (Prod.mk.inj (Option.some.inj h)).2
    exact .refl s

structure Capture.Named (x : Capture) (priceSource : PriceSource) : Prop where
  source : x.engine.priceSource = priceSource
  symbol : ∀ symbol, ∀ s ∈ x.engine.states.lookup symbol, s.bar.symbol = symbol

theorem named_init (priceSource : PriceSource) : Capture.Named ⟨{ priceSource }, []⟩ priceSource := by
  refine ⟨rfl, fun symbol s hs => ?_⟩
  rw [AList.lookup_empty] at hs
  cases hs

def Capture.track (x : Capture) (symbol : String) : Track := ⟨x.engine.states.lookup symbol, x.bars symbol⟩

def Capture.advance (x : Capture) (symbol : String) (time : ℤ) (f : SymbolState → SymbolState) : Capture :=
  ⟨(x.engine.advance symbol time f).1, x.emitted ++ (x.engine.advance symbol time f).2⟩

theorem filter_symbol_of_all {l : List Emitted} {other : String} (h : ∀ y ∈ l, y.bar.symbol = other) :
    l.filter (fun y => y.bar.symbol = symbol) = if symbol = other then l else [] := by
  split
  · rename_i heq
    refine filter_eq_self.2 fun y hy => ?_
    simp [h y hy, heq]
  · rename_i hne
    refine filter_eq_nil_iff.2 fun y hy => ?_
    simp [h y hy, Ne.symm hne]

theorem track_advance (hnm : x.Named priceSource) (other : String) (time : ℤ) (hf : ∀ s, Same s (f s)) :
    (x.advance other time f).Named priceSource ∧ ∀ symbol, (x.advance other time f).track symbol =
      if symbol = other then (x.track symbol).advance priceSource symbol time f else x.track symbol := by
  obtain ⟨hon, hclosed⟩ := advance_symbol (hnm.symbol other) time
  have hlk : ∀ symbol, (x.advance other time f).engine.states.lookup symbol = if symbol = other then
      some (f (advance x.engine.priceSource other (x.engine.states.lookup other) time).1)
      else x.engine.states.lookup symbol := fun symbol => Dict.lookup_insert_eq _ _ _ _
  -- all that closes bears the name of the symbol that is advanced
  have hbr : ∀ symbol, (x.advance other time f).bars symbol = x.bars symbol ++ if symbol = other then
      (advance x.engine.priceSource other (x.engine.states.lookup other) time).2 else [] := by
    intro symbol
    refine (filter_append _ _).trans ?_
    rw [← filter_symbol_of_all hclosed]
    rfl
  refine ⟨⟨hnm.source, fun symbol s hs => ?_⟩, fun symbol => ?_⟩
  · rw [hlk, Option.mem_def] at hs
    split at hs
    · rename_i heq
      cases hs
      rw [heq]
      exact (hf _).symbol.trans hon
    · exact hnm.symbol symbol s hs
  · unfold track
    rw [hlk, hbr]
    split
    · rename_i heq
      rw [heq, hnm.source]
      rfl
    · rw [append_nil]

def Capture.flushOne (now : ℤ) (x : Capture) (symbol : String) : Capture :=
  if (x.engine.states.lookup symbol).all fun s => decide (truncate now ≤ s.bucketStart) then x
  else x.advance symbol now id

theorem flush_eq_foldl (x : Capture) (now : ℤ) :
    x.step (.flush now) = x.engine.states.keys.foldl (flushOne now) x := by
  let join (r : Engine × List Emitted) : Capture := ⟨r.1, x.emitted ++ r.2⟩
  have hx : x = join (x.engine, []) := by
    show x = ⟨x.engine, x.emitted ++ []⟩
    rw [append_nil]
  refine Eq.trans ?_ (congrArg (foldl (flushOne now) · x.engine.states.keys) hx.symm)
  refine (foldl_hom join fun r symbol => ?_).symm
  unfold flushOne
  dsimp only [join]
  split
  · rfl
  · change (⟨_, _⟩ : Capture) = ⟨_, _⟩
    rw [append_assoc]

theorem track_flushOne (hnm : x.Named priceSource) (now : ℤ) (other : String) :
    (x.flushOne now other).Named priceSource ∧ ∀ symbol, (x.flushOne now other).track symbol =
      if symbol = other then (x.track symbol).step priceSource symbol (.flush now) else x.track symbol := by
  unfold flushOne
  split
  · rename_i hsk
    refine ⟨hnm, fun symbol => ?_⟩
    split
    · rename_i heq
      rw [heq]
      unfold Track.step Track.advance
      show x.track other = if (x.engine.states.lookup other).isSome || false then _ else _
      have hstt : (x.track other).state = x.engine.states.lookup other := rfl
      cases hs : x.engine.states.lookup other with
      | none => rfl
      | some s =>
        -- a symbol that the flush skips is one that an advance would leave alone
        have hle : truncate now ≤ s.bucketStart := by simpa [hs] using hsk
        rw [hstt, hs, advance_same hle]
        show x.track other = ⟨some s, x.bars other ++ []⟩
        rw [append_nil, ← hs]
        rfl
    · rfl
  · rename_i hon
    obtain ⟨hnm', htr⟩ := track_advance hnm other now (f := id) Same.refl
    refine ⟨hnm', fun symbol => ?_⟩
    rw [htr]
    split
    · rename_i heq
      have hsm : (x.track symbol).state.isSome := by
        show (x.engine.states.lookup symbol).isSome
        rw [heq]
        cases hs : x.engine.states.lookup other with
        | none => simp [hs] at hon
        | some => rfl
      unfold Track.step
      simp [Call.touch, hsm]
    · rfl

theorem track_flush {l : List String} (hl : l.Nodup) (hnm : x.Named priceSource) (now : ℤ) :
    (l.foldl (flushOne now) x).Named priceSource ∧ ∀ symbol, (l.foldl (flushOne now) x).track symbol =
        if symbol ∈ l then (x.track symbol).step priceSource symbol (.flush now) else x.track symbol := by
  induction l generalizing x with
  | nil => exact ⟨hnm, fun symbol => rfl⟩
  | cons other l ih =>
    -- each symbol is flushed once, so the order of the map does not matter
    obtain ⟨hot, hl⟩ := nodup_cons.1 hl
    obtain ⟨hnm', hone⟩ := track_flushOne hnm now other
    obtain ⟨hnm'', htr⟩ := ih hl hnm'
    refine ⟨hnm'', fun symbol => ?_⟩
    rw [foldl_cons, htr, hone]
    by_cases heq : symbol = other
    · rw [if_pos heq, if_neg (heq ▸ hot), if_pos (heq ▸ mem_cons_self)]
    · rw [if_neg heq]
      simp [heq]

theorem track_call (hnm : x.Named priceSource) {valid : Bool} (hop : c.opens = true) (other : String) (time : ℤ)
    (f : SymbolState → SymbolState) (hsp : x.step c = if valid then x.advance other time f else x)
    (htc : ∀ symbol, c.touch priceSource symbol = if valid ∧ other = symbol then some (time, f) else none) :
    (x.step c).Named priceSource ∧ ∀ symbol, (x.step c).track symbol = (x.track symbol).step priceSource symbol c := by
  rw [hsp]
  cases valid with
  | false =>
    refine ⟨hnm, fun symbol => ?_⟩
    unfold Track.step
    rw [htc]
    rfl
  | true =>
    have hsame : ∀ s, Same s (f s) := same_touch ((htc other).trans (if_pos ⟨rfl, rfl⟩))
    obtain ⟨hnm', htr⟩ := track_advance hnm other time hsame
    refine ⟨hnm', fun symbol => (htr symbol).trans ?_⟩
    unfold Track.step
    rw [htc, hop, Bool.or_true]
    by_cases heq : symbol = other
    · rw [if_pos heq, if_pos ⟨rfl, heq.symm⟩]
      rfl
    · rw [if_neg heq, if_neg fun h => heq h.2.symm]

theorem track_step (hnm : x.Named priceSource) (c : Call) : (x.step c).Named priceSource ∧
      ∀ symbol, (x.step c).track symbol = (x.track symbol).step priceSource symbol c := by
  -- an observation is refused or advances its symbol
  have hsp : ∀ {c : Call} {invalid : Invalid} {valid : Bool} (other : String) (time : ℤ)
      (f : SymbolState → SymbolState),
      x.engine.call c = (if valid then (x.engine.advance other time f).map id .ok else (x.engine, .error invalid)) →
      x.step c = if valid then x.advance other time f else x := by
    intro c invalid valid other time f hcl
    unfold step Engine.emits
    rw [hcl]
    cases valid with
    | false => exact congrArg (mk x.engine) (append_nil x.emitted)
    | true => rfl
  obtain rfl := hnm.source
  cases c with
  | addTrade t | addTickerObservation t => exact track_call hnm rfl t.symbol t.eventAt _ (hsp _ _ _ rfl) fun _ => rfl
  | addQuoteObservation o => exact track_call hnm rfl o.symbol o.eventAt _ (hsp _ _ _ rfl) fun _ => rfl
  | addDerivativesObservation o => exact track_call hnm rfl o.symbol o.eventAt _ (hsp _ _ _ rfl) fun _ => rfl
  | markTickerDiscontinuity other time =>
    exact track_call hnm rfl other time (·.markTicker) (if_pos rfl).symm fun _ => by simp [Call.touch]
  | markDerivativesDiscontinuity other time =>
    exact track_call hnm rfl other time (·.markDerivatives) (if_pos rfl).symm fun _ => by simp [Call.touch]
  | markTradesDiscontinuity other time =>
    exact track_call hnm rfl other time (·.markTrades) (if_pos rfl).symm fun _ => by simp [Call.touch]
  | flush now =>
    obtain ⟨hnm', htr⟩ := track_flush x.engine.states.nodupKeys hnm now
    rw [flush_eq_foldl]
    refine ⟨hnm', fun symbol => (htr symbol).trans ?_⟩
    split
    · rfl
    · rename_i hkey
      -- a flush opens no bar for a symbol that has none
      have hno : x.engine.states.lookup symbol = none := AList.lookup_eq_none.2 hkey
      show x.track symbol = if (x.engine.states.lookup symbol).isSome || false then _ else _
      rw [hno]
      rfl

/-- The engine keeps its symbols apart: each fares as if the run were about it alone. -/
theorem captured_track (calls : List Call) :
    (captured priceSource calls).track symbol = tracked priceSource symbol calls := by
  have hrun : ∀ x : Capture, x.Named priceSource →
      (calls.foldl step x).track symbol = calls.foldl (Track.step priceSource symbol) (x.track symbol) := by
    induction calls with
    | nil => exact fun x _ => rfl
    | cons c calls ih =>
      intro x hnm
      obtain ⟨hnm', htr⟩ := track_step hnm c
      rw [foldl_cons, foldl_cons, ih _ hnm', htr]
  exact hrun ⟨{ priceSource }, []⟩ (named_init priceSource)

structure Follows (a b : Bar) : Prop where
  later : a.bucketStart < b.bucketStart
  next : b.unbackfilledGapMinutes = 0 → b.bucketStart = a.bucketStart + minute
  gap : b.unbackfilledGapMinutes ≠ 0 → 0 < b.unbackfilledGapMinutes ∧
    b.unbackfilledGapFrom = some (a.bucketStart + minute) ∧ b.unbackfilledGapTo = some b.bucketStart ∧
    b.bucketStart - (a.bucketStart + minute) = b.unbackfilledGapMinutes * minute

theorem Follows.of_next {a b : Bar} (h : b.bucketStart = a.bucketStart + minute)
    (hgap : b.unbackfilledGapMinutes = 0) : Follows a b := by
  have hmi := minute_pos
  exact ⟨by omega, fun _ => h, fun hne => absurd hgap hne⟩

def Call.reach (priceSource : PriceSource) (symbol : String) (c : Call) : Option ℤ :=
  (c.touch priceSource symbol).map Prod.fst

variable (priceSource symbol) in
theorem closed_chain (hsr : s.bar.bucketStart = s.bucketStart) (n : ℕ) :
    ((⟨finalizeBar priceSource s, false⟩ :: s.fillers priceSource symbol n).map Emitted.bar).IsChain Follows ∧
      ∀ b ∈ ((⟨finalizeBar priceSource s, false⟩ :: s.fillers priceSource symbol n).map Emitted.bar).getLast?,
        b.bucketStart = s.bucketStart + n * minute := by
  induction n with
  | zero =>
    refine ⟨isChain_singleton _, fun b hb => ?_⟩
    cases hb
    show s.bar.bucketStart = s.bucketStart + 0 * minute
    omega
  | succ n ih =>
    obtain ⟨hch, hlast⟩ := ih
    have hsc : s.fillers priceSource symbol (n + 1) = s.fillers priceSource symbol n ++
        [gapBar priceSource symbol s.carryForward (s.bucketStart + minute + n * minute)] := by
      unfold fillers
      rw [range_succ, map_append]
      rfl
    rw [hsc, ← cons_append, map_append]
    have hmul : ((n + 1 : ℕ) : ℤ) * minute = n * minute + minute := by push_cast; ring
    refine ⟨isChain_append.2 ⟨hch, isChain_singleton _, fun a ha b hb => ?_⟩, fun b hb => ?_⟩
    · cases hb
      have ha := hlast a ha
      refine .of_next ?_ rfl
      show s.bucketStart + minute + n * minute = _
      omega
    · rw [map_singleton, getLast?_concat] at hb
      cases hb
      show s.bucketStart + minute + n * minute = _
      omega

theorem infix_of_not_mem {α : Type} {l l1 l2 : List α} {a : α} (h : l <:+: l1 ++ a :: l2) (ha : a ∉ l) :
    l <:+: l1 ∨ l <:+: l2 := by
  induction l1 with
  | nil =>
    rcases infix_cons_iff.1 h with h | h
    · cases l with
      | nil => exact .inr nil_infix
      | cons b l =>
        obtain ⟨rfl, -⟩ := cons_prefix_cons.1 h
        exact absurd mem_cons_self ha
    · exact .inr h
  | cons b l1 ih =>
    rcases infix_cons_iff.1 h with h | h
    · have ha1 : b :: l1 ++ [a] <+: b :: (l1 ++ a :: l2) := ⟨l2, by simp⟩
      rcases prefix_or_prefix_of_prefix h ha1 with hl | hl
      · rcases prefix_concat_iff.1 hl with rfl | hl
        · simp at ha
        · exact .inl hl.isInfix
      · exact absurd (hl.subset (by simp)) ha
    · exact (ih h).imp_left fun h => h.trans (suffix_cons b l1).isInfix

structure Gapless (times : List ℤ) (x : Track) : Prop where
  chain : (x.bars.map Emitted.bar).IsChain Follows
  next : ∀ s ∈ x.state, ∀ b ∈ (x.bars.map Emitted.bar).getLast?, Follows b s.bar
  first : x.state = none → x.bars = []
  start : ∀ s ∈ x.state, s.bar.bucketStart = s.bucketStart ∧ ∃ t ∈ times, s.bucketStart = truncate t
  fillers : ∀ l, l <:+: x.bars → (∀ y ∈ l, y.filler = true) → l.length ≤ maxSyntheticBackfill
  incomplete : ∀ y ∈ x.bars, y.filler = true →
    y.bar.tradesComplete = false ∧ y.bar.tickerComplete = false ∧ y.bar.derivativesComplete = false

theorem totalGapMinutes_eq {t time : ℤ} (hs : s.bucketStart = truncate t)
    (hlt : s.bucketStart < truncate time) (hft : truncate time - truncate t ≤ maxDuration) :
    0 ≤ s.totalGapMinutes time ∧ truncate time = s.bucketStart + minute + s.totalGapMinutes time * minute := by
  have hpos := minute_pos
  have hsub : sub (truncate time) s.bucketStart = minute * (time / minute - t / minute) := by
    rw [sub_eq hlt.le (hs ▸ hft), hs, truncate_eq_mul, truncate_eq_mul, mul_sub]
  have htt : s.totalGapMinutes time = time / minute - t / minute - 1 := by
    unfold totalGapMinutes
    rw [hsub, Int.mul_ediv_cancel_left _ hpos.ne']
  rw [hs, truncate_eq_mul, truncate_eq_mul] at hlt
  have hdiv : t / minute < time / minute := Int.lt_of_mul_lt_mul_left hlt hpos.le
  refine ⟨by omega, ?_⟩
  rw [htt, hs, truncate_eq_mul, truncate_eq_mul]
  ring

variable (priceSource symbol) in
theorem opened_follows {t time : ℤ} (hs : s.bucketStart = truncate t)
    (hlt : s.bucketStart < truncate time) (hft : truncate time - truncate t ≤ maxDuration) {b : Bar}
    (hb : b.bucketStart = s.bucketStart + (min (s.totalGapMinutes time) maxSyntheticBackfill).toNat * minute) :
    Follows b (advance priceSource symbol (some s) time).1.bar := by
  obtain ⟨hnn, htm⟩ := totalGapMinutes_eq hs hlt hft
  rw [advance_later hlt]
  by_cases hgap : (maxSyntheticBackfill : ℤ) < s.totalGapMinutes time
  · rw [if_pos hgap]
    -- more minutes than fillers: the bar tells of the rest
    rw [min_eq_right hgap.le, Int.toNat_natCast] at hb
    have hfr : s.bucketStart + minute + maxSyntheticBackfill * minute = b.bucketStart + minute := by omega
    refine ⟨?_, fun hzr => ?_, fun _ => ⟨?_, ?_, rfl, ?_⟩⟩
    · change b.bucketStart < truncate time
      have hmul := mul_lt_mul_of_pos_right hgap minute_pos
      have hpos := minute_pos
      omega
    · change s.totalGapMinutes time - maxSyntheticBackfill = 0 at hzr
      omega
    · change 0 < s.totalGapMinutes time - maxSyntheticBackfill
      omega
    · exact congrArg some hfr
    · change truncate time - (b.bucketStart + minute) = (s.totalGapMinutes time - maxSyntheticBackfill) * minute
      rw [sub_mul]
      omega
  · rw [if_neg hgap]
    -- every minute between has its filler
    rw [min_eq_left (not_lt.1 hgap), Int.toNat_of_nonneg hnn] at hb
    refine .of_next ?_ rfl
    show truncate time = b.bucketStart + minute
    omega

variable {s' : SymbolState}

theorem Same.follows (h : Same s s') {b : Bar} (hb : Follows b s.bar) : Follows b s'.bar := by
  obtain ⟨-, -, hsr, hmn, hfr, hto⟩ := h
  refine ⟨hsr ▸ hb.later, fun h0 => hsr ▸ hb.next (hmn ▸ h0), fun hne => ?_⟩
  rw [hmn, hfr, hto, hsr]
  exact hb.gap (hmn ▸ hne)

variable {bars : List Emitted}

theorem Gapless.update (h : Gapless times ⟨some s, bars⟩) (hs : Same s s') : Gapless times ⟨some s', bars⟩ := by
  obtain ⟨hsr, t, ht, hst⟩ := h.start s rfl
  refine ⟨h.chain, fun s1 hs1 b hb => ?_, fun hno => ?_, fun s1 hs1 => ?_, h.fillers, h.incomplete⟩
  · cases hs1
    exact hs.follows (h.next s rfl b hb)
  · cases hno
  · cases hs1
    exact ⟨hs.start.trans (hsr.trans hs.bucketStart.symm), t, ht, hs.bucketStart.trans hst⟩

theorem Gapless.close (h : Gapless times ⟨some s, bars⟩)
    (hft : ∀ t ∈ times, ∀ t' ∈ times, truncate t - truncate t' ≤ maxDuration) {time : ℤ} (htm : time ∈ times)
    (hlt : s.bucketStart < truncate time) :
    Gapless times (Track.advance priceSource symbol ⟨some s, bars⟩ time id) := by
  obtain ⟨hsr, t, ht, hs⟩ := h.start s rfl
  obtain ⟨hch, hlast⟩ := closed_chain priceSource symbol hsr (min (s.totalGapMinutes time) maxSyntheticBackfill).toNat
  have hopened := @opened_follows priceSource symbol s t time hs hlt (hft time htm t ht)
  unfold Track.advance
  rw [advance_later hlt] at hopened ⊢
  refine ⟨?_, fun s' hs' b hb => ?_, fun hno => ?_, fun s' hs' => ?_, fun l hl hfl => ?_, fun y hy hfl => ?_⟩
  · rw [map_append]
    refine isChain_append.2 ⟨h.chain, hch, fun a ha b hb => ?_⟩
    cases hb
    exact ⟨(h.next s rfl a ha).later, (h.next s rfl a ha).next, (h.next s rfl a ha).gap⟩
  · cases hs'
    refine hopened (hlast b ?_)
    rw [map_append, map_cons, getLast?_append_cons] at hb
    exact hb
  · cases hno
  · cases hs'
    exact ⟨rfl, time, htm, rfl⟩
  -- the bar that closes is no filler, so it parts the old fillers from the new ones
  · rcases infix_of_not_mem hl fun hmem => Bool.false_ne_true (hfl _ hmem) with hl | hl
    · exact h.fillers l hl hfl
    · refine hl.length_le.trans ?_
      rw [SymbolState.fillers, length_map, length_range]
      omega
  · rcases mem_append.1 hy with hy | hy
    · exact h.incomplete y hy hfl
    · rcases mem_cons.1 hy with rfl | hy
      · cases hfl
      · obtain ⟨k, -, rfl⟩ := mem_map.1 hy
        exact ⟨rfl, rfl, rfl⟩

theorem Gapless.advance {x : Track} (h : Gapless times x)
    (hft : ∀ t ∈ times, ∀ t' ∈ times, truncate t - truncate t' ≤ maxDuration) {time : ℤ} (htm : time ∈ times)
    (hf : ∀ s, Same s (f s)) : Gapless times (x.advance priceSource symbol time f) := by
  refine Gapless.update (s := (SymbolState.advance priceSource symbol x.state time).1) ?_ (hf _)
  obtain ⟨state, bars⟩ := x
  cases state with
  | none =>
    obtain rfl : bars = [] := h.first rfl
    refine ⟨isChain_nil, fun s _ b hb => ?_, fun hno => ?_, fun s hs => ?_, h.fillers, h.incomplete⟩
    · cases hb
    · cases hno
    · cases hs
      exact ⟨rfl, time, htm, rfl⟩
  | some s =>
    rcases le_or_gt (truncate time) s.bucketStart with hle | hlt
    · rw [advance_same hle, append_nil]
      exact h
    · exact h.close hft htm hlt

/-- In every run the bars of a symbol follow each other minute by minute or tell the gap between them, and the bars
that only fill a gap are few and not complete. -/
theorem bars_gapless (priceSource : PriceSource) (symbol : String) (calls : List Call)
    (hfits : ∀ t ∈ calls.filterMap (Call.reach priceSource symbol),
      ∀ t' ∈ calls.filterMap (Call.reach priceSource symbol), truncate t - truncate t' ≤ maxDuration) :
    let bars := (captured priceSource calls).bars symbol
    (bars.map fun y => y.bar.bucketStart).Pairwise (· < ·) ∧
    (bars.map Emitted.bar).IsChain Follows ∧
    (∀ l, l <:+: bars → (∀ y ∈ l, y.filler = true) → l.length ≤ maxSyntheticBackfill) ∧
    ∀ y ∈ bars, y.filler = true →
      y.bar.tradesComplete = false ∧ y.bar.tickerComplete = false ∧ y.bar.derivativesComplete = false := by
  have hrun : Gapless (calls.filterMap (Call.reach priceSource symbol)) (tracked priceSource symbol calls) := by
    refine foldlRecOn calls _ ?_ fun x hx c hc => ?_
    · refine ⟨isChain_nil, fun s hs => ?_, fun _ => rfl, fun s hs => ?_, fun l hl hfill => ?_, fun y hy => ?_⟩
      · cases hs
      · cases hs
      · rw [infix_nil.1 hl]
        exact Nat.zero_le _
      · cases hy
    · rcases step_cases x c with ⟨-, hstep⟩ | ⟨time, f, htouch, hstep⟩
      · rw [hstep]
        exact hx
      · have htime : time ∈ calls.filterMap (Call.reach priceSource symbol) :=
          mem_filterMap.2 ⟨c, hc, by rw [Call.reach, htouch]; rfl⟩
        rw [hstep]
        exact hx.advance hfits htime (same_touch htouch)
  have hbars : (captured priceSource calls).bars symbol = (tracked priceSource symbol calls).bars :=
    congrArg Track.bars (captured_track calls)
  rw [hbars]
  refine ⟨?_, hrun.chain, hrun.fillers, hrun.incomplete⟩
  have hlater : ((tracked priceSource symbol calls).bars.map fun y => y.bar.bucketStart).IsChain (· < ·) := by
    rw [isChain_map]
    exact ((isChain_map _).1 hrun.chain).imp fun a b h => h.later
  exact isChain_iff_pairwise.1 hlater

end

def btcTrade (tradeId : String) (side : Side) (ms : ℤ) : Trade where
  symbol := "BTCUSDT"
  side := side
  price := .finite 50000
  size := .finite 1
  eventAt := unixMilli ms
  receivedAt := unixMilli (ms + 5)
  tradeId := tradeId

def outage : List Call :=
  [.addTrade (btcTrade "1" .buy 0), .addTrade (btcTrade "2" .sell 12000000), .flush (unixMilli 12060000)]

/-- The bar after the outage tells of the nineteen minutes without a filler. -/
theorem outage_told :
    (((captured .tickerLast outage).bars "BTCUSDT").map Emitted.bar).IsChain Follows ∧
      ((captured .tickerLast outage).bars "BTCUSDT").length = 182 ∧
      (((captured .tickerLast outage).bars "BTCUSDT").map fun y => y.bar.unbackfilledGapMinutes).getLast? = some 19 :=
  ⟨(bars_gapless .tickerLast "BTCUSDT" outage (by decide +kernel)).2.1, by decide +kernel, by decide +kernel⟩

end Schurfer.Momentum
