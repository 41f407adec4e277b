import Schurfer.Lib.Dict
import Schurfer.Lib.GoTime

/-!
# The momentum capture engine

An observation of a later minute closes the open bar, fills the minutes between with empty bars up to a limit, and
records what is left of the gap on the bar it opens (`SymbolState.advance`). Prices and amounts are rational numbers;
a number that is not finite is refused where the source refuses it.
-/

namespace Schurfer.Momentum

open GoTime

inductive Num
  | finite (q : ℚ)
  | notFinite

namespace Num

def value : Num → ℚ
  | finite q => q
  | notFinite => 0

def finitePositive : Num → Bool
  | finite q => decide (0 < q)
  | notFinite => false

def finiteNonNegative : Num → Bool
  | finite q => decide (0 ≤ q)
  | notFinite => false

def isFinite : Num → Bool
  | finite _ => true
  | notFinite => false

end Num

inductive Side
  | buy
  | sell
  | other
deriving DecidableEq

structure Trade where
  symbol : String
  side : Side
  price : Num
  size : Num
  eventAt : ℤ
  receivedAt : ℤ
  tradeId : String
  isBlockTrade : Bool := false
  isRpi : Bool := false
  seq : ℤ := 0

def Trade.notional (t : Trade) : ℚ := t.price.value * t.size.value

def overflowBound : ℚ := 2 ^ 1024 - 2 ^ 970

def Trade.valid (t : Trade) : Bool :=
  decide (t.symbol ≠ "") && decide (t.eventAt ≠ 0) && decide (t.receivedAt ≠ 0) && decide (t.tradeId ≠ "") &&
    t.price.finitePositive && t.size.finitePositive && decide (t.side ≠ .other) && decide (t.notional < overflowBound)

structure Stamped (α : Type) where
  value : Option α := none
  eventAt : Option ℤ := none
  observedAt : Option ℤ := none

def Stamped.pairComplete {α : Type} (x : Stamped α) : Bool :=
  match x.value with
  | none => x.eventAt.isNone && x.observedAt.isNone
  | some _ => x.eventAt.isSome && x.observedAt.isSome

def Stamped.timePairComplete (x : Stamped ℤ) : Bool :=
  match x.value, x.eventAt, x.observedAt with
  | none, none, none => true
  | some value, some eventAt, some observedAt => decide (value ≠ 0) && decide (eventAt ≠ 0) && decide (observedAt ≠ 0)
  | _, _, _ => false

def Stamped.known (x : Stamped Num) : Stamped ℚ := ⟨x.value.map Num.value, x.eventAt, x.observedAt⟩

def Stamped.update {α : Type} (last x : Stamped α) : Stamped α := if x.value.isSome then x else last

structure TickerObservation where
  symbol : String
  lastPrice : Option Num := none
  bidPrice : Option Num := none
  askPrice : Option Num := none
  openInterest : Stamped Num := {}
  openInterestValue : Stamped Num := {}
  eventAt : ℤ
  observedAt : ℤ

def TickerObservation.valid (o : TickerObservation) : Bool :=
  decide (o.symbol ≠ "") && decide (o.eventAt ≠ 0) && decide (o.observedAt ≠ 0) &&
    o.lastPrice.all Num.finitePositive && o.bidPrice.all Num.finitePositive && o.askPrice.all Num.finitePositive &&
    o.openInterest.value.all Num.finiteNonNegative && o.openInterestValue.value.all Num.finiteNonNegative &&
    o.openInterest.pairComplete && o.openInterestValue.pairComplete

structure QuoteObservation where
  symbol : String
  bidPrice : Num
  askPrice : Num
  eventAt : ℤ
  observedAt : ℤ

def QuoteObservation.valid (o : QuoteObservation) : Bool :=
  decide (o.symbol ≠ "") && decide (o.eventAt ≠ 0) && decide (o.observedAt ≠ 0) && o.bidPrice.finitePositive &&
    o.askPrice.finitePositive && decide (o.bidPrice.value ≤ o.askPrice.value)

structure DerivativesObservation where
  symbol : String
  markPrice : Stamped Num := {}
  indexPrice : Stamped Num := {}
  fundingRate : Stamped Num := {}
  nextFundingAt : Stamped ℤ := {}
  eventAt : ℤ
  observedAt : ℤ

def DerivativesObservation.valid (o : DerivativesObservation) : Bool :=
  decide (o.symbol ≠ "") && decide (o.eventAt ≠ 0) && decide (o.observedAt ≠ 0) &&
    o.markPrice.value.all Num.finitePositive && o.indexPrice.value.all Num.finitePositive &&
    o.fundingRate.value.all Num.isFinite && o.markPrice.pairComplete && o.indexPrice.pairComplete &&
    o.fundingRate.pairComplete && o.nextFundingAt.timePairComplete

structure HistogramBucket where
  upperBoundUsd : Option ℚ
  count : ℕ := 0
  notionalUsd : ℚ := 0

def histogramBoundsUsd : List ℚ :=
  [1000, 2500, 5000, 10000, 25000, 50000, 100000, 250000, 500000, 1000000]

def newHistogram : List HistogramBucket :=
  histogramBoundsUsd.map (fun bound => { upperBoundUsd := some bound }) ++ [{ upperBoundUsd := none }]

def HistogramBucket.holds (b : HistogramBucket) (notionalUsd : ℚ) : Bool :=
  b.upperBoundUsd.all fun bound => decide (notionalUsd < bound)

def addToHistogram (notionalUsd : ℚ) : List HistogramBucket → List HistogramBucket
  | [] => []
  | b :: rest =>
    if b.holds notionalUsd then { b with count := b.count + 1, notionalUsd := b.notionalUsd + notionalUsd } :: rest
    else b :: addToHistogram notionalUsd rest

def topK : ℕ := 5

def insertDescending (value : ℚ) : List ℚ → List ℚ
  | [] => [value]
  | x :: rest => if value ≤ x then x :: insertDescending value rest else value :: x :: rest

def insertTopK (current : List ℚ) (value : ℚ) : List ℚ := (insertDescending value current).take topK

structure SideStats where
  totalNotionalUsd : ℚ := 0
  tradeCount : ℕ := 0
  histogram : List HistogramBucket := newHistogram
  topNotionalsUsd : List ℚ := []
  max10sNotionalUsd : ℚ := 0
  max30sNotionalUsd : ℚ := 0
  blockTradeCount : ℕ := 0
  blockTradeNotionalUsd : ℚ := 0
  rpiTradeCount : ℕ := 0
  rpiTradeNotionalUsd : ℚ := 0

structure TradeRecord where
  eventAt : ℤ
  notionalUsd : ℚ

def burstWindow10s : ℤ := 10 * second

def burstWindow30s : ℤ := 30 * second

structure BurstTracker where
  records : List TradeRecord := []
  left10 : ℕ := 0
  left30 : ℕ := 0
  sum10 : ℚ := 0
  sum30 : ℚ := 0

namespace BurstTracker

def expired (eventAt window : ℤ) : List TradeRecord → ℕ × ℚ
  | [] => (0, 0)
  | r :: rest =>
    if window < sub eventAt r.eventAt then
      let (n, sum) := expired eventAt window rest
      (n + 1, r.notionalUsd + sum)
    else (0, 0)

def compact (t : BurstTracker) : BurstTracker :=
  if t.left30 < 1024 ∨ t.left30 * 2 < t.records.length then t
  else { t with records := t.records.drop t.left30, left10 := t.left10 - t.left30, left30 := 0 }

def insertSortedByEventAt (tail : List TradeRecord) (r : TradeRecord) : List TradeRecord :=
  tail.takeWhile (·.eventAt < r.eventAt) ++ r :: tail.dropWhile (·.eventAt < r.eventAt)

def slidingWindowMaxSum (window : ℤ) : List TradeRecord → List TradeRecord → ℚ → ℚ
  | [], _, maxSum => maxSum
  | r :: rest, inside, maxSum =>
    let inside := (inside ++ [r]).drop (expired r.eventAt window (inside ++ [r])).1
    let sum := (inside.map TradeRecord.notionalUsd).sum
    slidingWindowMaxSum window rest inside (max maxSum sum)

def reset (sorted : List TradeRecord) : BurstTracker :=
  let latest := (sorted.getLast?.map TradeRecord.eventAt).getD 0
  let records := sorted.dropWhile (·.eventAt < latest - burstWindow30s)
  let left10 := (records.takeWhile fun r => burstWindow10s < sub latest r.eventAt).length
  { records
    left10
    left30 := 0
    sum10 := ((records.drop left10).map TradeRecord.notionalUsd).sum
    sum30 := (records.map TradeRecord.notionalUsd).sum }

def add (t : BurstTracker) (eventAt : ℤ) (notionalUsd : ℚ) : BurstTracker × ℚ × ℚ :=
  let record : TradeRecord := ⟨eventAt, notionalUsd⟩
  -- in order: the windows move on from where they stand
  if t.records.getLast?.all fun last => decide (last.eventAt ≤ eventAt) then
    let records := t.records ++ [record]
    let (n10, out10) := expired eventAt burstWindow10s (records.drop t.left10)
    let (n30, out30) := expired eventAt burstWindow30s (records.drop t.left30)
    let next : BurstTracker :=
      { records
        left10 := t.left10 + n10
        left30 := t.left30 + n30
        sum10 := t.sum10 + notionalUsd - out10
        sum30 := t.sum30 + notionalUsd - out30 }
    (next.compact, next.sum10, next.sum30)
  else
    -- a late record changes windows that have passed, so they are all summed again
    let active := insertSortedByEventAt (t.records.drop t.left30) record
    (reset active, slidingWindowMaxSum burstWindow10s active [] 0, slidingWindowMaxSum burstWindow30s active [] 0)

end BurstTracker

inductive PriceSource
  | tickerLast
  | aggregateTrade
  | markPrice
  | bookMid
deriving DecidableEq

structure Span where
  firstEventAt : Option ℤ := none
  lastEventAt : Option ℤ := none
  firstReceivedAt : Option ℤ := none
  lastReceivedAt : Option ℤ := none

structure Lag where
  sumMs : ℤ := 0
  maxMs : ℤ := 0
  count : ℕ := 0

structure Ohlc where
  openPrice : Option ℚ := none
  highPrice : Option ℚ := none
  lowPrice : Option ℚ := none
  closePrice : Option ℚ := none

structure Readings where
  lastBidPrice : Option ℚ := none
  lastAskPrice : Option ℚ := none
  openInterest : Stamped ℚ := {}
  openInterestValue : Stamped ℚ := {}
  markPrice : Stamped ℚ := {}
  indexPrice : Stamped ℚ := {}
  fundingRate : Stamped ℚ := {}
  nextFundingAt : Stamped ℤ := {}

structure Bar where
  symbol : String
  bucketStart : ℤ
  ohlc : Ohlc := {}
  readings : Readings := {}
  priceSource : PriceSource := .tickerLast
  priceObservedThisMinute : Bool := false
  priceSpan : Span := {}
  buy : SideStats := {}
  sell : SideStats := {}
  derivativesObservedThisMinute : Bool := false
  tickerObservedThisMinute : Bool := false
  tradeCount : ℕ := 0
  duplicateTradesDropped : ℕ := 0
  lateTradesDropped : ℕ := 0
  tradeSpan : Span := {}
  tradeLag : Lag := {}
  minTradeSeq : Option ℤ := none
  maxTradeSeq : Option ℤ := none
  outOfOrderTradeCount : ℕ := 0
  tickerSpan : Span := {}
  tickerLag : Lag := {}
  unbackfilledGapMinutes : ℤ := 0
  unbackfilledGapFrom : Option ℤ := none
  unbackfilledGapTo : Option ℤ := none
  tickerComplete : Bool := false
  tradesComplete : Bool := false
  openInterestComplete : Bool := false
  derivativesComplete : Bool := false
  priceComplete : Bool := false
  complete : Bool := false

structure Emitted where
  bar : Bar
  filler : Bool

structure CarryForward where
  tickerHealthy : Bool := false
  tradesHealthy : Bool := false
  derivativesHealthy : Bool := false
  lastSeq : ℤ := 0
  buyBurst : BurstTracker := {}
  sellBurst : BurstTracker := {}
  readings : Readings := {}

structure SymbolState where
  bucketStart : ℤ
  dedup : List String := []
  bar : Bar
  lateDropped : ℕ := 0
  tickerHealthy : Bool
  tradesHealthy : Bool
  derivativesHealthy : Bool
  barTickerInterrupted : Bool
  barTradesInterrupted : Bool
  barDerivativesInterrupted : Bool
  lastSeq : ℤ
  buyBurst : BurstTracker
  sellBurst : BurstTracker

def newSymbolState (symbol : String) (bucketStart : ℤ) (cf : CarryForward) : SymbolState where
  bucketStart := bucketStart
  bar := { symbol, bucketStart, readings := cf.readings }
  tickerHealthy := cf.tickerHealthy
  tradesHealthy := cf.tradesHealthy
  derivativesHealthy := cf.derivativesHealthy
  barTickerInterrupted := !cf.tickerHealthy
  barTradesInterrupted := !cf.tradesHealthy
  barDerivativesInterrupted := !cf.derivativesHealthy
  lastSeq := cf.lastSeq
  buyBurst := cf.buyBurst
  sellBurst := cf.sellBurst

def Bar.hasCompleteDerivativesContext (bar : Bar) : Bool :=
  bar.readings.markPrice.pairComplete && bar.readings.markPrice.value.isSome &&
    bar.readings.indexPrice.pairComplete && bar.readings.indexPrice.value.isSome &&
    bar.readings.fundingRate.pairComplete && bar.readings.fundingRate.value.isSome &&
    bar.readings.nextFundingAt.timePairComplete && bar.readings.nextFundingAt.value.isSome

def finalizeBar (priceSource : PriceSource) (s : SymbolState) : Bar :=
  let tickerComplete := !s.barTickerInterrupted
  let tradesComplete := !s.barTradesInterrupted
  { s.bar with
    lateTradesDropped := s.lateDropped
    priceSource
    tickerComplete
    tradesComplete
    complete := tickerComplete && tradesComplete
    openInterestComplete := tickerComplete
    derivativesComplete := !s.barDerivativesInterrupted && s.bar.hasCompleteDerivativesContext
    priceComplete :=
      match priceSource with
      | .tickerLast => tickerComplete
      | .aggregateTrade => tradesComplete
      | .markPrice => false
      | .bookMid => false }

def maxSyntheticBackfill : ℕ := 180

namespace SymbolState

def carryForward (s : SymbolState) : CarryForward where
  tickerHealthy := s.tickerHealthy
  tradesHealthy := s.tradesHealthy
  derivativesHealthy := s.derivativesHealthy
  lastSeq := s.lastSeq
  buyBurst := s.buyBurst
  sellBurst := s.sellBurst
  readings := s.bar.readings

def gapBar (priceSource : PriceSource) (symbol : String) (cf : CarryForward) (start : ℤ) : Emitted where
  bar := finalizeBar priceSource
    { newSymbolState symbol start cf with
      barTickerInterrupted := true, barTradesInterrupted := true, barDerivativesInterrupted := true }
  filler := true

def advance (priceSource : PriceSource) (symbol : String) (state : Option SymbolState) (time : ℤ) :
    SymbolState × List Emitted :=
  let bucketStart := truncate time
  match state with
  | none => (newSymbolState symbol bucketStart {}, [])
  | some s =>
    if bucketStart ≤ s.bucketStart then (s, [])
    else
      -- the minutes strictly between the two bars
      let totalGapMinutes := sub bucketStart s.bucketStart / minute - 1
      let backfillCount := min totalGapMinutes maxSyntheticBackfill
      let gaps := (List.range backfillCount.toNat).map fun k : ℕ =>
        gapBar priceSource symbol s.carryForward (s.bucketStart + minute + k * minute)
      -- the first minute that gets no filler
      let next := s.bucketStart + minute + backfillCount.toNat * minute
      let fresh := newSymbolState symbol bucketStart s.carryForward
      let unbackfilled := totalGapMinutes - backfillCount
      let bar :=
        if 0 < unbackfilled then
          { fresh.bar with
            unbackfilledGapMinutes := unbackfilled
            unbackfilledGapFrom := some next
            unbackfilledGapTo := some bucketStart }
        else fresh.bar
      ({ fresh with bar }, ⟨finalizeBar priceSource s, false⟩ :: gaps)

end SymbolState

def Span.add (span : Span) (eventAt receivedAt : ℤ) : Span where
  firstEventAt := span.firstEventAt.or (some eventAt)
  firstReceivedAt := if span.firstEventAt.isNone then some receivedAt else span.firstReceivedAt
  lastEventAt := some eventAt
  lastReceivedAt := some receivedAt

def Lag.add (lag : Lag) (eventAt receivedAt : ℤ) : Lag :=
  let lagMs := milliseconds (sub receivedAt eventAt)
  { sumMs := lag.sumMs + lagMs, maxMs := if lag.maxMs < lagMs then lagMs else lag.maxMs, count := lag.count + 1 }

def Ohlc.widen (ohlc : Ohlc) (price : ℚ) : Ohlc :=
  { ohlc with
    highPrice := if ohlc.highPrice.all (· < price) then some price else ohlc.highPrice
    lowPrice := if ohlc.lowPrice.all (price < ·) then some price else ohlc.lowPrice }

def Bar.recordTradePriceObservation (bar : Bar) (t : Trade) : Bar :=
  let price := t.price.value
  let bar := { bar with priceObservedThisMinute := true, ohlc := bar.ohlc.widen price }
  let bar :=
    if bar.priceSpan.firstEventAt.all (t.eventAt < ·) then
      { bar with
        priceSpan := { bar.priceSpan with firstEventAt := some t.eventAt, firstReceivedAt := some t.receivedAt }
        ohlc := { bar.ohlc with openPrice := some price } }
    else bar
  if bar.priceSpan.lastEventAt.all (· ≤ t.eventAt) then
    { bar with
      priceSpan := { bar.priceSpan with lastEventAt := some t.eventAt, lastReceivedAt := some t.receivedAt }
      ohlc := { bar.ohlc with closePrice := some price } }
  else bar

def SymbolState.recordSeq (s : SymbolState) (seq : ℤ) : SymbolState :=
  if seq = 0 then s
  else
    { s with
      lastSeq := seq
      bar :=
        { s.bar with
          outOfOrderTradeCount :=
            if s.lastSeq ≠ 0 ∧ seq < s.lastSeq then s.bar.outOfOrderTradeCount + 1 else s.bar.outOfOrderTradeCount
          minTradeSeq := if s.bar.minTradeSeq.all (seq < ·) then some seq else s.bar.minTradeSeq
          maxTradeSeq := if s.bar.maxTradeSeq.all (· < seq) then some seq else s.bar.maxTradeSeq } }

def SideStats.add (side : SideStats) (burst : BurstTracker) (t : Trade) : SideStats × BurstTracker :=
  let notional := t.notional
  if t.isBlockTrade then
    ({ side with
      blockTradeCount := side.blockTradeCount + 1
      blockTradeNotionalUsd := side.blockTradeNotionalUsd + notional }, burst)
  else if t.isRpi then
    ({ side with
      rpiTradeCount := side.rpiTradeCount + 1
      rpiTradeNotionalUsd := side.rpiTradeNotionalUsd + notional }, burst)
  else
    let (burst, max10, max30) := burst.add t.eventAt notional
    ({ side with
      totalNotionalUsd := side.totalNotionalUsd + notional
      tradeCount := side.tradeCount + 1
      histogram := addToHistogram notional side.histogram
      topNotionalsUsd := insertTopK side.topNotionalsUsd notional
      max10sNotionalUsd := if side.max10sNotionalUsd < max10 then max10 else side.max10sNotionalUsd
      max30sNotionalUsd := if side.max30sNotionalUsd < max30 then max30 else side.max30sNotionalUsd }, burst)

namespace SymbolState

variable (s : SymbolState)

def addToSide (t : Trade) : SymbolState :=
  if t.side = .sell then
    let (sell, sellBurst) := s.bar.sell.add s.sellBurst t
    { s with bar := { s.bar with sell }, sellBurst }
  else
    let (buy, buyBurst) := s.bar.buy.add s.buyBurst t
    { s with bar := { s.bar with buy }, buyBurst }

def accepts (t : Trade) : Bool := decide (s.bucketStart ≤ t.eventAt) && !decide (t.tradeId ∈ s.dedup)

variable (priceSource : PriceSource)

def countTrade (s : SymbolState) (t : Trade) : SymbolState :=
  let bar := if priceSource = .aggregateTrade then s.bar.recordTradePriceObservation t else s.bar
  let s :=
    { s with
      dedup := s.dedup ++ [t.tradeId]
      tradesHealthy := true
      bar :=
        { bar with
          tradeCount := bar.tradeCount + 1
          tradeSpan := bar.tradeSpan.add t.eventAt t.receivedAt
          tradeLag := bar.tradeLag.add t.eventAt t.receivedAt } }
  (s.recordSeq t.seq).addToSide t

def addTrade (t : Trade) (s : SymbolState) : SymbolState :=
  -- the advance never goes back, so a trade of a closed minute finds a later bar open
  if t.eventAt < s.bucketStart then { s with lateDropped := s.lateDropped + 1 }
  else if t.tradeId ∈ s.dedup then
    { s with bar := { s.bar with duplicateTradesDropped := s.bar.duplicateTradesDropped + 1 } }
  else s.countTrade priceSource t

def recordTickerPrice (bar : Bar) (o : TickerObservation) (price : ℚ) : Bar :=
  { bar with
    ohlc :=
      { bar.ohlc.widen price with openPrice := bar.ohlc.openPrice.or (some price), closePrice := some price }
    priceObservedThisMinute := true
    priceSpan := bar.priceSpan.add o.eventAt o.observedAt }

def addTicker (o : TickerObservation) (s : SymbolState) : SymbolState :=
  if o.eventAt < s.bucketStart then s
  else
    let bar :=
      { s.bar with
        tickerObservedThisMinute := true
        tickerSpan := s.bar.tickerSpan.add o.eventAt o.observedAt
        tickerLag := s.bar.tickerLag.add o.eventAt o.observedAt }
    let bar :=
      match o.lastPrice, priceSource with
      -- a ticker sets the price only where it is the source of prices
      | some price, .tickerLast => recordTickerPrice bar o price.value
      | _, _ => bar
    let readings :=
      { bar.readings with
        lastBidPrice := (o.bidPrice.map Num.value).or bar.readings.lastBidPrice
        lastAskPrice := (o.askPrice.map Num.value).or bar.readings.lastAskPrice
        openInterest := bar.readings.openInterest.update o.openInterest.known
        openInterestValue := bar.readings.openInterestValue.update o.openInterestValue.known }
    { s with tickerHealthy := true, bar := { bar with readings } }

def addQuote (o : QuoteObservation) (s : SymbolState) : SymbolState :=
  if o.eventAt < s.bucketStart then s
  else
    { s with
      bar :=
        { s.bar with
          readings :=
            { s.bar.readings with
              lastBidPrice := some o.bidPrice.value
              lastAskPrice := some o.askPrice.value } } }

def addDerivatives (o : DerivativesObservation) (s : SymbolState) : SymbolState :=
  if o.eventAt < s.bucketStart then s
  else
    let readings :=
      { s.bar.readings with
        markPrice := s.bar.readings.markPrice.update o.markPrice.known
        indexPrice := s.bar.readings.indexPrice.update o.indexPrice.known
        fundingRate := s.bar.readings.fundingRate.update o.fundingRate.known
        nextFundingAt := s.bar.readings.nextFundingAt.update o.nextFundingAt }
    { s with derivativesHealthy := true, bar := { s.bar with readings, derivativesObservedThisMinute := true } }

def markTicker : SymbolState := { s with tickerHealthy := false, barTickerInterrupted := true }

def markDerivatives : SymbolState :=
  { s with derivativesHealthy := false, barDerivativesInterrupted := true }

def markTrades : SymbolState := { s with tradesHealthy := false, barTradesInterrupted := true }

end SymbolState

inductive Invalid
  | trade
  | tickerObservation
  | quoteObservation
  | derivativesObservation

structure Engine where
  states : Dict String SymbolState := ∅
  priceSource : PriceSource

inductive Call
  | addTrade (t : Trade)
  | addTickerObservation (o : TickerObservation)
  | addQuoteObservation (o : QuoteObservation)
  | addDerivativesObservation (o : DerivativesObservation)
  | markTickerDiscontinuity (symbol : String) (time : ℤ)
  | markDerivativesDiscontinuity (symbol : String) (time : ℤ)
  | markTradesDiscontinuity (symbol : String) (time : ℤ)
  | flush (now : ℤ)

namespace Engine

def advance (e : Engine) (symbol : String) (time : ℤ) (f : SymbolState → SymbolState) : Engine × List Emitted :=
  let (s, closed) := SymbolState.advance e.priceSource symbol (e.states.lookup symbol) time
  ({ e with states := AList.insert symbol (f s) e.states }, closed)

def flush (e : Engine) (now : ℤ) : Engine × List Emitted :=
  e.states.keys.foldl (fun (e, out) symbol =>
    if (e.states.lookup symbol).all fun s => decide (truncate now ≤ s.bucketStart) then (e, out)
    else
      let (e, closed) := e.advance symbol now id
      (e, out ++ closed)) (e, [])

def call (e : Engine) : Call → Engine × Except Invalid (List Emitted)
  | .addTrade t =>
    if t.valid then (e.advance t.symbol t.eventAt (·.addTrade e.priceSource t)).map id .ok else (e, .error .trade)
  | .addTickerObservation o =>
    if o.valid then (e.advance o.symbol o.eventAt (·.addTicker e.priceSource o)).map id .ok
    else (e, .error .tickerObservation)
  | .addQuoteObservation o =>
    if o.valid then (e.advance o.symbol o.eventAt (·.addQuote o)).map id .ok else (e, .error .quoteObservation)
  | .addDerivativesObservation o =>
    if o.valid then (e.advance o.symbol o.eventAt (·.addDerivatives o)).map id .ok
    else (e, .error .derivativesObservation)
  | .markTickerDiscontinuity symbol time => (e.advance symbol time (·.markTicker)).map id .ok
  | .markDerivativesDiscontinuity symbol time => (e.advance symbol time (·.markDerivatives)).map id .ok
  | .markTradesDiscontinuity symbol time => (e.advance symbol time (·.markTrades)).map id .ok
  | .flush now => (e.flush now).map id .ok

def emits (e : Engine) (c : Call) : List Emitted :=
  match (e.call c).2 with
  | .ok closed => closed
  | .error _ => []

end Engine

end Schurfer.Momentum
