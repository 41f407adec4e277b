import Mathlib.Data.List.DropRight
import Mathlib.Data.List.Sort
import Schurfer.Lib.Dict
import Schurfer.Streamrt.Runtime

/-!
# The burst engine

Bars of one minute from the events of the streaming runtime. A gap opens with a disconnect or a report of dropped
events and is closed by a subscription or a heartbeat; a minute is final when the stream is confirmed delivered far
enough past it, or by the clock alone while a gap is open. What a tick forgets is a parameter: the engine keeps what
`Config.bounded` keeps, a reference keeps everything. The products that make the horizon and the window have 64 bits.
-/

namespace Schurfer.Burst

open GoTime Streamrt

structure Config where
  returnThreshold : ℚ
  turnoverMultiple : ℚ
  medianWindow : ℕ
  minMedianBars : ℤ
  cooldown : ℤ
  grace : ℤ
  lagAllowance : ℤ
  maxFutureSkew : ℤ
  maxTradeAge : ℤ

structure CheckedConfig extends Config where
  grace_nonneg : 0 ≤ grace
  lagAllowance_nonneg : 0 ≤ lagAllowance

instance coeConfig : Coe CheckedConfig Config := ⟨CheckedConfig.toConfig⟩

def hyp030 : CheckedConfig where
  returnThreshold := 5 / 100
  turnoverMultiple := 5
  medianWindow := 60
  minMedianBars := 30
  cooldown := 60 * minute
  grace := 250000000
  lagAllowance := 2 * second
  maxFutureSkew := 5 * second
  maxTradeAge := 60 * minute
  grace_nonneg := by decide
  lagAllowance_nonneg := by decide

structure OrderKey where
  at' : ℤ := 0
  seq : ℤ := 0
  arrival : ℕ := 0

def OrderKey.before (k o : OrderKey) : Bool :=
  if k.at' ≠ o.at' then k.at' < o.at'
  else if k.seq ≠ o.seq then k.seq < o.seq
  else k.arrival < o.arrival

structure Bar where
  start : ℤ
  opening : ℚ := 0
  high : ℚ := 0
  low : ℚ := 0
  close : ℚ := 0
  turnover : ℚ := 0
  trades : ℕ := 0
  lastRecvAt : ℤ := 0
  ids : List String := []
  first : OrderKey := {}
  last : OrderKey := {}

def contractVersion : String := "burst_trade_bars_v2"

structure Signal where
  contract : String
  exchange : String
  symbol : String
  barStart : ℤ
  barEnd : ℤ
  return' : ℚ
  turnover : ℚ
  median : ℚ
  evaluatedAt : ℤ
  lastTradeLag : ℤ

structure Gap where
  from' : ℤ := 0
  to' : ℤ := 0
deriving DecidableEq

structure SymbolState where
  exchange : String := ""
  bars : List Bar := []
  history : List Bar := []
  finalThrough : ℤ := 0
  lastFire : ℤ := 0
  gaps : List Gap := [{}]
  aliveThrough : ℤ := 0

structure Stats where
  trades : ℕ := 0
  missingId : ℕ := 0
  duplicates : ℕ := 0
  lateTrades : ℕ := 0
  bars : ℕ := 0
  emptyBars : ℕ := 0
  incompleteBars : ℕ := 0
  signals : ℕ := 0
  suppressedByGap : ℕ := 0
  implausibleTime : ℕ := 0

def Stats.count (stats : Stats) (bar : Bar) (complete : Bool) : Stats :=
  { stats with
    bars := stats.bars + 1
    emptyBars := if bar.trades = 0 then stats.emptyBars + 1 else stats.emptyBars
    incompleteBars := if complete then stats.incompleteBars else stats.incompleteBars + 1 }

/-- What an engine keeps of the final bars and of the gaps. -/
structure Memory where
  trim : List Bar → List Bar
  prune : SymbolState → SymbolState

def Memory.everything : Memory := ⟨id, id⟩

def minutesBefore (start stop : ℤ) : List ℤ :=
  (List.range ((stop - start + (minute - 1)) / minute).toNat).map fun k : ℕ => start + (k : ℤ) * minute

namespace SymbolState

variable (s : SymbolState)

def gapOpen : Bool :=
  match s.gaps.getLast? with
  | some g => decide (g.to' = 0)
  | none => false

def openGap (from' : ℤ) : SymbolState :=
  if s.gapOpen then s else { s with gaps := s.gaps ++ [{ from' }] }

def closeGap (time : ℤ) : SymbolState :=
  if s.gapOpen then { s with gaps := s.gaps.modify (s.gaps.length - 1) ({ · with to' := time }) } else s

def alive (time : ℤ) : SymbolState :=
  { s with aliveThrough := if s.aliveThrough < time then time else s.aliveThrough }

def disconnectedFrom (l : Lifecycle) : ℤ := if l.lastFrameAt = 0 then l.at' else l.lastFrameAt

variable (config : Config)

def overflowFrom (l : Lifecycle) : ℤ :=
  let from' := if l.since ≠ 0 then l.since - config.lagAllowance else l.at'
  if l.droppedFrom ≠ 0 ∧ l.droppedFrom < from' then l.droppedFrom else from'

def overflowTo (l : Lifecycle) : ℤ := if l.at' < l.droppedTo then l.droppedTo else l.at'

def onLifecycle (l : Lifecycle) (s : SymbolState) : SymbolState :=
  match l.kind with
  | .disconnected => s.openGap (disconnectedFrom l - config.lagAllowance)
  | .subscribed => (s.closeGap l.at').alive l.at'
  | .heartbeat => (s.closeGap l.at').alive l.lastFrameAt
  | .overflow =>
    -- a lost change of state may hide a disconnect, so the gap stays open until the next confirmation
    if l.droppedState then s.openGap (overflowFrom config l)
    -- an open gap takes the report over, and its range is not kept
    else if s.gapOpen then s
    else { s with gaps := s.gaps ++ [⟨overflowFrom config l, overflowTo l + 1⟩] }
  | .connected => s

def complete (start : ℤ) : Bool :=
  s.gaps.all fun g => !(decide (g.from' < start + minute) && (decide (g.to' = 0) || decide (start < g.to')))

def horizon (s : SymbolState) : ℤ :=
  s.finalThrough + wrap (-(config.medianWindow + 2 : ℤ) * minute)

def pruneGaps (s : SymbolState) : SymbolState :=
  { s with gaps := s.gaps.filter fun g => decide (g.to' = 0) || decide (s.horizon config < g.to') }

def newest : Option ℤ :=
  match s.bars.getLast? with
  | some bar => some bar.start
  | none => if s.finalThrough ≠ 0 then some s.finalThrough else none

def searchBack (start : ℤ) : List Bar → Option ℕ
  | [] => none
  | bar :: older =>
    if bar.start = start then some older.length
    else if bar.start < start then none
    else searchBack start older

def emptyBars (starts : List ℤ) : List Bar := starts.map fun start => { start }

def barFor (start : ℤ) : SymbolState × ℕ :=
  match s.bars.head? with
  | some first =>
    -- a trade older than every bar that is not final
    if start < first.start then
      ({ s with bars := emptyBars (minutesBefore start first.start) ++ s.bars }, 0)
    else upTo s
  | none => upTo s
where
  upTo (s : SymbolState) : SymbolState × ℕ :=
    match searchBack start s.bars.reverse, s.newest with
    | some i, _ => (s, i)
    | none, none => ({ s with bars := s.bars ++ [{ start }] }, s.bars.length)
    | none, some newest =>
      match if start < newest then s.bars.findIdx? (·.start = start) else none with
      | some i => (s, i)
      | none =>
        let bars := s.bars ++ emptyBars (minutesBefore (newest + minute) (start + 1))
        ({ s with bars }, bars.length - 1)

end SymbolState

def Bar.add (bar : Bar) (t : Streamrt.Trade) (arrival : ℕ) : Bar :=
  let key : OrderKey := ⟨t.eventAt, t.seq, arrival⟩
  let priced : Bar :=
    if bar.trades = 0 then
      { bar with opening := t.price, high := t.price, low := t.price, close := t.price, first := key, last := key }
    else
      let bar := { bar with high := max bar.high t.price, low := min bar.low t.price }
      let bar := if key.before bar.first then { bar with first := key, opening := t.price } else bar
      if bar.last.before key then { bar with last := key, close := t.price } else bar
  { priced with
    ids := bar.ids ++ [t.tradeId]
    turnover := bar.turnover + t.notional
    trades := bar.trades + 1
    lastRecvAt := if bar.lastRecvAt < t.receivedAt then t.receivedAt else bar.lastRecvAt }

def Config.plausibleTime (config : Config) (t : Streamrt.Trade) : Bool :=
  decide (t.eventAt ≤ t.receivedAt + config.maxFutureSkew) && decide (t.receivedAt - config.maxTradeAge ≤ t.eventAt)

namespace SymbolState

def onTrade (s : SymbolState) (t : Streamrt.Trade) (arrival : ℕ) : SymbolState × Bool :=
  let s := { s with exchange := t.exchange }
  let start := truncate t.eventAt
  -- too late: its minute is final
  if s.finalThrough ≠ 0 ∧ start ≤ s.finalThrough then (s, false)
  else
    let (s, i) := s.barFor start
    -- sent again; the ids of a minute are kept until it is final
    if s.bars[i]?.any (t.tradeId ∈ ·.ids) then (s, false)
    else ({ s with bars := s.bars.modify i (·.add t arrival) }, true)

def medianOf (values : List ℚ) : ℚ :=
  let sorted := values.insertionSort (· ≤ ·)
  let mid := sorted.length / 2
  if sorted.length % 2 = 1 then sorted.getD mid 0
  else (sorted.getD (mid - 1) 0 + sorted.getD mid 0) / 2

variable (config : Config)

def window (s : SymbolState) (past : List Bar) (bar : Bar) : List ℚ :=
  let earliest := bar.start + wrap (-(config.medianWindow : ℤ) * minute)
  (past.filter fun b => decide (earliest ≤ b.start) && s.complete b.start).map Bar.turnover

inductive Verdict
  | quiet
  | suppressed
  | fires (ret median : ℚ)

def verdict (s : SymbolState) (past : List Bar) (prev bar : Bar) : Verdict :=
  let ret := bar.close / prev.close - 1
  let values := s.window config past bar
  let median := medianOf values
  if prev.start ≠ bar.start - minute ∨ prev.close ≤ 0 then .quiet
  else if ret < config.returnThreshold then .quiet
  else if !s.complete bar.start || !s.complete prev.start then .suppressed
  else if values.length < config.minMedianBars then .quiet
  else if median ≤ 0 ∨ bar.turnover < config.turnoverMultiple * median then .quiet
  else if s.lastFire ≠ 0 ∧ bar.start < s.lastFire + config.cooldown then .quiet
  else .fires ret median

def carry (s : SymbolState) (bar : Bar) : Bar :=
  if bar.trades = 0 then
    match s.history.getLast? with
    | some past => { bar with opening := past.close, high := past.close, low := past.close, close := past.close }
    | none => bar
  else bar

def evaluate (symbol : String) (now : ℤ) (stats : Stats) (s : SymbolState) (past : List Bar)
    (bar : Bar) : Option Signal × Stats × SymbolState :=
  match past.getLast? with
  | none => (none, stats, s)
  | some prev =>
    -- only a minute with trades can fire
    if bar.trades = 0 then (none, stats, s)
    else
      match s.verdict config past prev bar with
      | .quiet => (none, stats, s)
      | .suppressed => (none, { stats with suppressedByGap := stats.suppressedByGap + 1 }, s)
      | .fires ret median =>
        let barEnd := bar.start + minute
        (some ⟨contractVersion, s.exchange, symbol, bar.start, barEnd, ret, bar.turnover, median, now,
            bar.lastRecvAt - barEnd⟩,
          { stats with signals := stats.signals + 1 }, { s with lastFire := bar.start })

def admitBar (m : Memory) (symbol : String) (now : ℤ) (stats : Stats) (s : SymbolState) (bar : Bar) :
    Option Signal × Stats × SymbolState :=
  let stats := stats.count bar (s.complete bar.start)
  let bar := s.carry bar
  let history := m.trim (s.history ++ [bar])
  { s with history }.evaluate config symbol now stats history.dropLast bar

/-- The newest minute that is due. While no gap is open, only what lies `lagAllowance` behind the confirmed delivery
is. -/
def due (s : SymbolState) (now : ℤ) : ℤ :=
  let confirmed := s.aliveThrough - config.lagAllowance
  -- an open gap makes its minutes incomplete anyway, so the clock alone decides
  let limit := if !s.gapOpen ∧ confirmed < now then confirmed else now
  truncate (limit - minute - config.grace)

def fill (s : SymbolState) (due : ℤ) : SymbolState :=
  match s.newest with
  | some newest => if newest < due then (s.barFor due).1 else s
  | none => s

def finalize (config : Config) (m : Memory) (symbol : String) (now due : ℤ) :
    List Bar → Stats → SymbolState → List Signal × Stats × SymbolState
  | [], stats, s => ([], stats, s)
  | bar :: rest, stats, s =>
    if bar.start ≤ due then
      let (signal, stats, s) :=
        { s with bars := rest, finalThrough := bar.start }.admitBar config m symbol now stats { bar with ids := [] }
      let (signals, stats, s) := finalize config m symbol now due rest stats s
      (signal.toList ++ signals, stats, s)
    else ([], stats, s)

def tick (m : Memory) (symbol : String) (now : ℤ) (stats : Stats) (s : SymbolState) :
    List Signal × Stats × SymbolState :=
  let due := s.due config now
  let s := s.fill due
  let (signals, stats, s) := finalize config m symbol now due s.bars stats s
  (signals, stats, m.prune s)

end SymbolState

def Config.bounded (config : Config) : Memory :=
  ⟨fun history => history.rtake (config.medianWindow + 1), SymbolState.pruneGaps config⟩

structure Engine where
  config : Config
  symbols : Dict String SymbolState := ∅
  arrival : ℕ := 0
  stats : Stats := {}

namespace Engine

def state (e : Engine) (symbol : String) : SymbolState := (e.symbols.lookup symbol).getD {}

def set (e : Engine) (symbol : String) (s : SymbolState) : Engine :=
  { e with symbols := AList.insert symbol s e.symbols }

def onLifecycle (e : Engine) (l : Lifecycle) : Engine :=
  l.symbols.foldl (fun e symbol => e.set symbol ((e.state symbol).onLifecycle e.config l)) e

def onTrade (e : Engine) (t : Streamrt.Trade) : Engine :=
  let stats := { e.stats with trades := e.stats.trades + 1 }
  if t.tradeId = "" then { e with stats := { stats with missingId := stats.missingId + 1 } }
  else if !e.config.plausibleTime t then
    { e with stats := { stats with implausibleTime := stats.implausibleTime + 1 } }
  else
    let s := e.state t.symbol
    let (s', added) := s.onTrade t (e.arrival + 1)
    let e := e.set t.symbol s'
    if s.finalThrough ≠ 0 ∧ truncate t.eventAt ≤ s.finalThrough then
      { e with stats := { stats with lateTrades := stats.lateTrades + 1 } }
    else if added then { e with stats, arrival := e.arrival + 1 }
    else { e with stats := { stats with duplicates := stats.duplicates + 1 } }

def onEvent (e : Engine) : Event → Engine
  | .lifecycle l => e.onLifecycle l
  | .trade t => e.onTrade t

def tickNext (m : Memory) (now : ℤ) : List Signal × Engine → String → List Signal × Engine
  | (out, e), symbol =>
    let (signals, stats, s) := (e.state symbol).tick e.config m symbol now e.stats
    (out ++ signals, { e.set symbol s with stats })

def tickWith (m : Memory) (e : Engine) (now : ℤ) : List Signal × Engine :=
  (e.symbols.keys.insertionSort (· ≤ ·)).foldl (tickNext m now) ([], e)

def tick (e : Engine) (now : ℤ) : List Signal × Engine := e.tickWith e.config.bounded now

inductive Input
  | event (e : Event)
  | tick (now : ℤ)

def inputWith (m : Memory) (e : Engine) : Input → List Signal × Engine
  | .event event => ([], e.onEvent event)
  | .tick now => e.tickWith m now

def input (e : Engine) (x : Input) : Engine := (e.inputWith e.config.bounded x).2

/-- The signals of each call, and the engine after them. -/
def run (m : Memory) : List Input → Engine → List (List Signal) × Engine
  | [], e => ([], e)
  | x :: inputs, e =>
    let (signals, e) := e.inputWith m x
    let (rest, e) := run m inputs e
    (signals :: rest, e)

def consumer : Consumer Engine ℤ := ⟨onEvent, fun e now => (e.tick now).2⟩

end Engine

end Schurfer.Burst
