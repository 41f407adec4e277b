import Schurfer.Burst.Gaps
import Schurfer.Streamrt.Queue

/-!
# From the queue into the engine

The minute of a trade that a shard had to drop must not count as complete once the shard has reported it. While a gap
is open the report is left to it, and the open gap need not reach as far. `Timely` is the condition that it does.
-/

namespace Schurfer.Burst

open GoTime Streamrt Threads SymbolState List Engine

variable {l : Lifecycle} {r : Runtime Engine} {config : Config} {time : ℤ} {symbol : String} {s : SymbolState} {i : ℕ}
  {t : Streamrt.Trade} {h : List (ShardCall Engine)} {rest : Option (Emitting Shard)}

def Closes (l : Lifecycle) : Prop := l.kind = .subscribed ∨ l.kind = .heartbeat

section

variable {start : ℤ}

theorem incomplete_onLifecycle (h : s.complete start = false) (hclose : Closes l → s.gapOpen = true → start < l.at') :
    (s.onLifecycle config l).complete start = false := by
  rw [complete_eq_false_iff] at h ⊢
  obtain ⟨g, hg, hov⟩ := h
  rcases onLifecycle_cases config l s with
    ⟨heq, -⟩ | ⟨-, heq⟩ | ⟨-, to', -, heq⟩ | ⟨hkind, hop, closed, last, hgp, -, heq⟩
  · exact ⟨g, heq ▸ hg, hov⟩
  · exact ⟨g, by rw [heq]; exact mem_append_left _ hg, hov⟩
  · exact ⟨g, by rw [heq]; exact mem_append_left _ hg, hov⟩
  · rw [hgp, mem_append, mem_singleton] at hg
    rw [heq]
    rcases hg with hg | rfl
    · exact ⟨g, mem_append_left _ hg, hov⟩
    · refine ⟨_, mem_append_right _ (mem_singleton_self _), hov.1, .inr ?_⟩
      exact hclose hkind hop

theorem gapOpen_of_closes (hkind : Closes l) (h : (s.onLifecycle config l).gapOpen = true) : s.gapOpen = true := by
  rcases onLifecycle_cases config l s with ⟨heq, -⟩ | ⟨hot, -⟩ | ⟨hot, -⟩ | ⟨-, hop, -⟩
  · rw [gapOpen_iff] at h ⊢
    rw [heq] at h
    exact h
  · rcases hkind with hkind | hkind <;> rw [hkind] at hot <;> cases hot
  · rcases hkind with hkind | hkind <;> rw [hkind] at hot <;> cases hot
  · exact hop

theorem overflowFrom_le (h : l.droppedFrom ≠ 0) : overflowFrom config l ≤ l.droppedFrom := by
  unfold overflowFrom
  dsimp only
  split <;> omega

theorem le_overflowTo : l.droppedTo ≤ overflowTo l := by
  unfold overflowTo
  split <;> omega

theorem incomplete_of_overflow (hkind : l.kind = .overflow) (hset : l.droppedFrom ≠ 0) (hfr : l.droppedFrom ≤ time)
    (hto : time ≤ l.droppedTo) (hop : ∀ g ∈ s.gaps.getLast?, g.to' = 0 → g.from' < truncate l.droppedFrom + minute) :
    (s.onLifecycle config l).complete (truncate time) = false := by
  have hle := truncate_le time
  have hlt := lt_truncate_add time
  have hmn := truncate_mono hfr
  rw [complete_eq_false_iff]
  rcases onLifecycle_cases config l s with ⟨heq, hgap⟩ | ⟨hot, -⟩ | ⟨-, to', hto', heq⟩ | ⟨hcs, -⟩
  · -- the open gap takes the report
    obtain ⟨closed, g, hgp, hzr⟩ := gapOpen_iff.1 (hgap hkind)
    have hbg := hop g (by rw [hgp]; simp) hzr
    exact ⟨g, by rw [heq, hgp]; simp, by omega, .inl hzr⟩
  · rw [hkind] at hot
    cases hot
  · -- the report has its own gap
    have hbe : overflowFrom config l ≤ l.droppedFrom := overflowFrom_le hset
    have hend : l.droppedTo ≤ overflowTo l := le_overflowTo
    refine ⟨⟨overflowFrom config l, to'⟩, by rw [heq]; simp, by dsimp only; omega, ?_⟩
    rcases hto' with rfl | rfl
    · exact .inl rfl
    · exact .inr (by dsimp only; omega)
  · rw [hkind] at hcs
    rcases hcs with h | h <;> cases h

end

def reportsOf (taken : List (ℕ × Event)) (symbol : String) : List Lifecycle :=
  taken.filterMap fun
    | (_, .lifecycle l) => if l.kind = .overflow ∧ l.droppedFrom ≠ 0 ∧ symbol ∈ l.symbols then some l else none
    | (_, .trade _) => none

theorem mem_reportsOf {taken : List (ℕ × Event)} : l ∈ reportsOf taken symbol ↔
      (∃ i, (i, .lifecycle l) ∈ taken) ∧ l.kind = .overflow ∧ l.droppedFrom ≠ 0 ∧ symbol ∈ l.symbols := by
  simp only [reportsOf, mem_filterMap]
  constructor
  · rintro ⟨⟨i, e⟩, hmem, heq⟩
    cases e with
    | trade => cases heq
    | lifecycle x =>
      dsimp only at heq
      split at heq
      · rename_i h
        cases heq
        exact ⟨⟨i, hmem⟩, h⟩
      · cases heq
  · rintro ⟨⟨i, hmem⟩, h⟩
    exact ⟨(i, .lifecycle l), hmem, if_pos h⟩

/-- The event comes in time for the symbol: an open gap that takes a report begins before the end of the minute of its
first dropped trade, and a gap is closed after the start of the minute of every dropped trade reported before. -/
structure Timely (r : Runtime Engine) (l : Lifecycle) (symbol : String) : Prop where
  begins : l.kind = .overflow → l.droppedFrom ≠ 0 → ∀ g ∈ (r.consumer.state symbol).gaps.getLast?, g.to' = 0 →
    g.from' < truncate l.droppedFrom + minute
  ends : Closes l → (r.consumer.state symbol).gapOpen = true → ∀ x ∈ reportsOf r.taken symbol,
    truncate x.droppedTo < l.at'

abbrev Feed := Threads.Config (Runtime Engine) Empty Op Op.Ans Connection Shard

abbrev FeedMove := Move Connection ℤ (Receive ℤ)

variable {moves : List FeedMove} {cfg : Feed}

def Feed.step (cfg : Feed) (m : FeedMove) : Feed :=
  Threads.Config.step (streamWorld Engine.consumer) Connection.main cfg m

open Feed

def Feed.new (config : Config) (capacity : ℕ) : Feed := ⟨Runtime.new capacity { config }, []⟩

def Feed.run (cfg : Feed) (moves : List FeedMove) : Feed :=
  Threads.Config.run (streamWorld Engine.consumer) Connection.main cfg moves

def Feed.MoveTimely (cfg : Feed) : FeedMove → Prop
  | .env .next =>
    ∀ i l, cfg.state.events.head? = some (i, .lifecycle l) → ∀ symbol ∈ l.symbols, Timely cfg.state l symbol
  | _ => True

def Feed.AllTimely : Feed → List FeedMove → Prop
  | _, [] => True
  | cfg, m :: moves => cfg.MoveTimely m ∧ Feed.AllTimely (cfg.step m) moves

def Covered (config : Config) (s : SymbolState) (time : ℤ) : Prop :=
  s.complete (truncate time) = false ∨ truncate time < s.horizon config

structure FeedOk (r : Runtime Engine) : Prop where
  orderly : ∀ symbol, (r.consumer.state symbol).Orderly
  covered : ∀ symbol, ∀ l ∈ reportsOf r.taken symbol, ∀ time, l.droppedFrom ≤ time → time ≤ l.droppedTo →
    Covered r.consumer.config (r.consumer.state symbol) time

theorem Covered.tick (hs : s.Orderly) (h : Covered config s time) (symbol : String) (now : ℤ) (stats : Stats) :
    Covered config (s.tick config config.bounded symbol now stats).2.2 time := by
  obtain ⟨-, -, hle, -, hgp⟩ := hs.tick config symbol now stats
  set s' := (s.tick config config.bounded symbol now stats).2.2
  have hhr : s.horizon config ≤ s'.horizon config := by
    unfold horizon
    omega
  rcases h with h | h
  · obtain ⟨g, hg, hov⟩ := complete_eq_false_iff.1 h
    by_cases hke : g.to' = 0 ∨ s'.horizon config < g.to'
    · refine .inl (complete_eq_false_iff.2 ⟨g, ?_, hov⟩)
      rw [hgp, mem_filter]
      exact ⟨hg, by simpa using hke⟩
    · -- the gap is pruned, and the minute with it
      refine .inr ?_
      have hed := hov.2
      omega
  · exact .inr (lt_of_lt_of_le h hhr)

theorem Covered.of_eq {s' : SymbolState} (h : Covered config s time)
    (hgp : s'.gaps = s.gaps) (hfinal : s'.finalThrough = s.finalThrough) : Covered config s' time := by
  unfold Covered complete horizon at h ⊢
  rw [hgp, hfinal]
  exact h

theorem horizon_onLifecycle (config config' : Config) (l : Lifecycle) (s : SymbolState) (n : ℕ) :
    ((onLifecycle config l)^[n] s).horizon config' = s.horizon config' := by
  have hfinal : ((onLifecycle config l)^[n] s).finalThrough = s.finalThrough :=
    Function.Iterate.rec (fun x : SymbolState => x.finalThrough = s.finalThrough) rfl
      (fun x hx => (x.lifecycle_frame config l).2.1.trans hx) n
  unfold horizon
  rw [hfinal]

theorem incomplete_iterate {start : ℤ}
    (h : s.complete start = false) (hclose : Closes l → s.gapOpen = true → start < l.at') (n : ℕ) :
    ((onLifecycle config l)^[n] s).complete start = false := by
  -- a closing event opens no gap, so the condition on the close lasts from one occurrence to the next
  have hkp := Function.Iterate.rec
    (fun x : SymbolState => x.complete start = false ∧ (Closes l → x.gapOpen = true → start < l.at')) ⟨h, hclose⟩
    (f := onLifecycle config l) (fun x hx => ?_) n
  · exact hkp.1
  · exact ⟨incomplete_onLifecycle hx.1 hx.2, fun hkind hop => hx.2 hkind (gapOpen_of_closes hkind hop)⟩

theorem state_onEvent_lifecycle (e : Engine) (l : Lifecycle) (symbol : String) :
    (e.onEvent (.lifecycle l)).state symbol =
      (onLifecycle e.config l)^[l.symbols.count symbol] (e.state symbol) :=
  state_foldl_onLifecycle l l.symbols e symbol

theorem report_incomplete (htm : Timely r l symbol) (hkind : l.kind = .overflow) (hset : l.droppedFrom ≠ 0)
    (hsy : symbol ∈ l.symbols) (hfr : l.droppedFrom ≤ time) (hto : time ≤ l.droppedTo) :
    ((r.consumer.onEvent (.lifecycle l)).state symbol).complete (truncate time) = false := by
  rw [state_onEvent_lifecycle]
  obtain ⟨n, hn⟩ : ∃ n, l.symbols.count symbol = n + 1 :=
    ⟨l.symbols.count symbol - 1, by have := count_pos_iff.2 hsy; omega⟩
  rw [hn, Function.iterate_succ_apply]
  refine incomplete_iterate (incomplete_of_overflow hkind hset hfr hto (htm.begins hkind hset)) ?_ n
  intro hcl
  rcases hcl with h | h <;> rw [hkind] at h <;> cases h

theorem FeedOk.lifecycle (h : FeedOk r) (htm : ∀ symbol ∈ l.symbols, Timely r l symbol) {rest : List (ℕ × Event)} :
    FeedOk { r with
      events := rest, taken := r.taken ++ [(i, .lifecycle l)], consumer := r.consumer.onEvent (.lifecycle l) } := by
  have hco : (r.consumer.onEvent (.lifecycle l)).config = r.consumer.config := r.consumer.config_onLifecycle l
  refine ⟨fun symbol => (h.orderly symbol).input (.event (.lifecycle l)), fun symbol x hx time hfr hto => ?_⟩
  rw [hco]
  obtain ⟨⟨j, hj⟩, hkind, hset, hsy⟩ := mem_reportsOf.1 hx
  rcases mem_append.1 hj with hj | hj
  · -- an earlier report
    have hbf := h.covered symbol x (mem_reportsOf.2 ⟨⟨j, hj⟩, hkind, hset, hsy⟩) time hfr hto
    rw [state_onEvent_lifecycle]
    by_cases hnm : symbol ∈ l.symbols
    · rcases hbf with hin | hbh
      · refine .inl (incomplete_iterate hin (fun hcl hop => ?_) _)
        have hed := (htm symbol hnm).ends hcl hop x (mem_reportsOf.2 ⟨⟨j, hj⟩, hkind, hset, hsy⟩)
        exact lt_of_le_of_lt (truncate_mono hto) hed
      · exact .inr (by rw [horizon_onLifecycle]; exact hbh)
    · rw [count_eq_zero_of_not_mem hnm]
      exact hbf
  · -- this report
    obtain ⟨-, heq⟩ := Prod.mk.inj (mem_singleton.1 hj)
    obtain rfl : x = l := Event.lifecycle.inj heq
    exact .inl (report_incomplete (htm symbol hsy) hkind hset hsy hfr hto)

theorem FeedOk.trade (h : FeedOk r) (t : Streamrt.Trade) {rest : List (ℕ × Event)} : FeedOk { r with
      events := rest, taken := r.taken ++ [(i, .trade t)], consumer := r.consumer.onEvent (.trade t) } := by
  have hco : (r.consumer.onEvent (.trade t)).config = r.consumer.config := r.consumer.config_onTrade t
  have hrp : ∀ symbol, reportsOf (r.taken ++ [(i, .trade t)]) symbol = reportsOf r.taken symbol := by
    intro symbol
    unfold reportsOf
    rw [filterMap_append]
    exact append_nil _
  refine ⟨fun symbol => (h.orderly symbol).input (.event (.trade t)), fun symbol x hx time hfr hto => ?_⟩
  rw [hrp] at hx
  rw [hco]
  have hbf := h.covered symbol x hx time hfr hto
  change Covered _ ((r.consumer.onTrade t).state symbol) time
  rcases r.consumer.state_onTrade t symbol with heq | heq
  · rw [heq]
    exact hbf
  · rw [heq]
    obtain ⟨hsame, hfinal⟩ := (r.consumer.state symbol).onTrade_frame t (r.consumer.arrival + 1)
    exact hbf.of_eq hsame.gaps hfinal

theorem FeedOk.tick (h : FeedOk r) (now : ℤ) : FeedOk { r with consumer := (r.consumer.tick now).2 } := by
  refine ⟨fun symbol => (h.orderly symbol).input (.tick now), fun symbol x hx time hfr hto => ?_⟩
  have hbf := h.covered symbol x hx time hfr hto
  obtain ⟨stats, hstate⟩ := r.consumer.state_tick now symbol
  rw [r.consumer.config_tick now, hstate]
  split
  · exact hbf.tick (h.orderly symbol) symbol now stats
  · exact hbf

theorem Feed.step_cases (cfg : Feed) (m : FeedMove) :
    ((cfg.step m).state.consumer = cfg.state.consumer ∧ (cfg.step m).state.taken = cfg.state.taken) ∨
      (∃ now, m = .env (.act now)) ∨ m = .env .next := by
  cases m with
  | start => exact .inl ⟨rfl, rfl⟩
  | crash i =>
    refine .inl ?_
    simp only [step, Threads.Config.step]
    split <;> exact ⟨rfl, rfl⟩
  | call i time =>
    refine .inl ?_
    rcases Threads.Config.step_call_cases (streamWorld consumer) Connection.main cfg i time with
      hsame | ⟨_, _, o, _, _, hst⟩
    · rw [step, hsame]
      exact ⟨rfl, rfl⟩
    · rw [step, hst]
      show (cfg.state.answer i o time).2.consumer = _ ∧ (cfg.state.answer i o time).2.taken = _
      cases o with
      | now | countDrop => exact ⟨rfl, rfl⟩
      | send role e =>
        simp only [Runtime.answer]
        split <;> exact ⟨rfl, rfl⟩
  | env x =>
    cases x with
    | act now => exact .inr (.inl ⟨now, rfl⟩)
    | next => exact .inr (.inr rfl)

theorem FeedOk.step (h : FeedOk cfg.state) {m : FeedMove} (htm : cfg.MoveTimely m) : FeedOk (cfg.step m).state := by
  rcases cfg.step_cases m with ⟨hcn, htk⟩ | ⟨now, rfl⟩ | rfl
  · refine ⟨?_, ?_⟩
    · rw [hcn]
      exact h.orderly
    · rw [hcn, htk]
      exact h.covered
  · exact h.tick now
  · show FeedOk (cfg.state.receive consumer .next)
    unfold Runtime.receive
    cases hen : cfg.state.events with
    | nil => exact h
    | cons y rest =>
      obtain ⟨i, e⟩ := y
      cases e with
      | trade t => exact h.trade t
      | lifecycle l => exact h.lifecycle fun symbol hsy => htm i l (by rw [hen]; rfl) symbol hsy

theorem Feed.run_append (cfg : Feed) (ms ms' : List FeedMove) : cfg.run (ms ++ ms') = (cfg.run ms).run ms' :=
  foldl_append

theorem FeedOk.run (h : FeedOk cfg.state) (htm : cfg.AllTimely moves) : FeedOk (cfg.run moves).state := by
  induction moves generalizing cfg with
  | nil => exact h
  | cons m moves ih => exact ih (h.step htm.1) htm.2

theorem Feed.AllTimely.append {ms ms' : List FeedMove} (h : cfg.AllTimely (ms ++ ms')) :
    cfg.AllTimely ms ∧ (cfg.run ms).AllTimely ms' := by
  induction ms generalizing cfg with
  | nil => exact ⟨trivial, h⟩
  | cons m ms ih => exact ⟨⟨h.1, (ih h.2).1⟩, (ih h.2).2⟩

theorem feedOk_new (config : Config) (capacity : ℕ) : FeedOk (new config capacity).state := by
  refine ⟨fun symbol => orderly_new, fun symbol l hl => ?_⟩
  cases hl

theorem Feed.step_config (cfg : Feed) (m : FeedMove) :
    (cfg.step m).state.consumer.config = cfg.state.consumer.config := by
  rcases cfg.step_cases m with ⟨hcn, -⟩ | ⟨now, rfl⟩ | rfl
  · rw [hcn]
  · exact cfg.state.consumer.config_tick now
  · show (cfg.state.receive consumer .next).consumer.config = _
    unfold Runtime.receive
    cases cfg.state.events with
    | nil => rfl
    | cons y rest => exact cfg.state.consumer.config_input (.event y.2)

theorem Feed.run_config (cfg : Feed) (moves : List FeedMove) :
    (cfg.run moves).state.consumer.config = cfg.state.consumer.config := by
  induction moves generalizing cfg with
  | nil => rfl
  | cons m moves ih => exact (ih (cfg.step m)).trans (cfg.step_config m)

theorem report_covers {capacity : ℕ} {c : Connection}
    (hthread : ((new config capacity).run moves).threads[i]? = some ⟨c, h, rest⟩) {pre mid post : List Entry}
    {role : Role} {session : String}
    (hlog : log h = pre ++ .dropped role (.trade t) :: (mid ++ .delivered (.report session) (.lifecycle l) :: post))
    (hnx : ∀ session' x, .delivered (.report session') x ∉ mid) :
    l.kind = .overflow ∧ l.symbols = c.symbols ∧ l.droppedFrom ≠ 0 ∧ l.droppedFrom ≤ t.eventAt ∧
      t.eventAt ≤ l.droppedTo := by
  have hrc := (shards_sound consumer).reached (s := Runtime.new capacity { config }) trivial moves
  have hok := hrc.threads i _ hthread
  have hre :
      log h = (pre ++ .dropped role (.trade t) :: mid) ++ .delivered (.report session) (.lifecycle l) :: post := by
    rw [hlog]
    simp
  obtain ⟨-, x, hx, hsm, hds⟩ := may_of_log hok.calls hre
  obtain rfl := Event.lifecycle.inj hx
  have hmem : Event.trade t ∈ unreported (pre ++ .dropped role (.trade t) :: mid) := mem_unreported hnx
  obtain ⟨hfr, hto⟩ := hds.range t hmem
  exact ⟨hds.kind, hsm, fun hzr => hds.unset hzr t hmem, hfr, hto⟩

/-- **A dropped trade makes its minute incomplete.** In every run whose receives are all timely: once the engine has
processed the shard's next report after the drop, the minute of the trade is not complete for any symbol of the shard,
or lies behind the horizon of the median. -/
theorem dropped_incomplete (config : Config) (capacity : ℕ) (moves : List FeedMove)
    (htimely : (new config capacity).AllTimely moves) {i : ℕ} {c : Connection} {h : List (ShardCall Engine)}
    {rest : Option (Emitting Shard)} (hthread : ((new config capacity).run moves).threads[i]? = some ⟨c, h, rest⟩)
    {pre mid post : List Entry} {role : Role} {t : Streamrt.Trade} {session : String} {l : Lifecycle}
    (hlog : log h = pre ++ .dropped role (.trade t) :: (mid ++ .delivered (.report session) (.lifecycle l) :: post))
    (hnext : ∀ session' x, .delivered (.report session') x ∉ mid) {symbol : String} (hsymbol : symbol ∈ c.symbols) :
    (∀ ms, moves = ms ++ [.env .next] →
      ((new config capacity).run ms).state.events.head? = some (i, .lifecycle l) →
      (((new config capacity).run moves).state.consumer.state symbol).complete (truncate t.eventAt) = false) ∧
    ((i, .lifecycle l) ∈ ((new config capacity).run moves).state.taken →
      Covered config (((new config capacity).run moves).state.consumer.state symbol) t.eventAt) := by
  obtain ⟨hkind, hsymbols, hset, hfrom, hto⟩ := report_covers hthread hlog hnext
  rw [← hsymbols] at hsymbol
  constructor
  · rintro ms rfl hhead
    have hlast := (Feed.AllTimely.append htimely).2.1 i l hhead symbol hsymbol
    have hreceived : ((new config capacity).run (ms ++ [.env .next])).state.consumer =
        ((new config capacity).run ms).state.consumer.onEvent (.lifecycle l) := by
      rw [run_append]
      show (((new config capacity).run ms).state.receive consumer .next).consumer = _
      unfold Runtime.receive
      cases hevents : ((new config capacity).run ms).state.events with
      | nil => rw [hevents] at hhead; cases hhead
      | cons y events =>
        rw [hevents] at hhead
        cases hhead
        rfl
    rw [hreceived]
    exact report_incomplete hlast hkind hset hsymbol hfrom hto
  · intro htaken
    have hcovered := ((feedOk_new config capacity).run htimely).covered symbol l
      (mem_reportsOf.2 ⟨⟨i, htaken⟩, hkind, hset, hsymbol⟩) t.eventAt hfrom hto
    rw [(new _ _).run_config] at hcovered
    exact hcovered

/-! A trade is dropped before its stream is subscribed, by an exchange whose clock is a little ahead. -/

def millisecond : ℤ := 1000000

def skewedTrade : Streamrt.Trade where
  exchange := "bybit"
  symbol := "AAAUSDT"
  tradeId := "t"
  side := .buy
  price := 1
  size := 1
  notional := 1
  eventAt := noon + 200 * millisecond
  receivedAt := noon - 80 * millisecond
  seq := 0
  eventAt_epoch := by decide

def skewedConnection : Connection where
  index := 0
  symbols := ["AAAUSDT"]
  work :=
    [.emit (.lifecycle (quietLifecycle .connected (noon - 200 * millisecond) 0)),
      .session "s",
      .emit (.lifecycle (quietLifecycle .subscribed (noon - 100 * millisecond) 0)),
      .emit (.trade skewedTrade),
      .emit (.lifecycle (quietLifecycle .heartbeat (noon - 60 * millisecond) (noon - 60 * millisecond)))]

def reported : List FeedMove :=
  [.start skewedConnection,
    .call 0 0,
    -- the subscription finds the queue full
    .call 0 0, .call 0 (noon - 90 * millisecond), .call 0 0,
    -- and so does the report before the trade
    .call 0 (noon - 70 * millisecond), .call 0 0, .call 0 0,
    .env .next,
    .call 0 (noon - 55 * millisecond), .call 0 0,
    .env .next]

def earlyClose : List FeedMove :=
  reported ++ [.call 0 (noon - 50 * millisecond), .call 0 0, .env .next]

def skewedReport : Lifecycle where
  kind := .overflow
  shard := 0
  symbols := ["AAAUSDT"]
  at' := noon - 55 * millisecond
  dropped := 2
  since := noon - 90 * millisecond
  droppedFrom := noon + 200 * millisecond
  droppedTo := noon + 200 * millisecond
  droppedState := true

theorem reported_timely : (new hyp030 1).AllTimely reported := by
  refine ⟨trivial, trivial, trivial, trivial, trivial, trivial, trivial, trivial, ?_, trivial, trivial, ?_, trivial⟩
  · intro i l hhd symbol _
    cases hhd
    refine ⟨fun hkind => ?_, fun hcl => ?_⟩
    · cases hkind
    · rcases hcl with h | h <;> cases h
  · intro i l hhd symbol hsy
    cases hhd
    obtain rfl := mem_singleton.1 hsy
    refine ⟨fun _ _ g hg hzr => ?_, fun hcl => ?_⟩
    · cases hg
      decide
    · rcases hcl with h | h <;> cases h

theorem reported_covered : ∃ h rest pre post,
    ((new hyp030 1).run reported).threads[0]? = some ⟨skewedConnection, h, rest⟩ ∧
    log h = pre ++ .dropped .event (.trade skewedTrade) ::
      ([] ++ .delivered (.report "s") (.lifecycle skewedReport) :: post) ∧
    (0, .lifecycle skewedReport) ∈ ((new hyp030 1).run reported).state.taken ∧
    Covered hyp030 (((new hyp030 1).run reported).state.consumer.state "AAAUSDT") skewedTrade.eventAt := by
  have htaken : (0, .lifecycle skewedReport) ∈ ((new hyp030 1).run reported).state.taken := by decide +kernel
  obtain ⟨h, rest, hthread, hlog⟩ : ∃ h rest,
      ((new hyp030 1).run reported).threads[0]? = some ⟨skewedConnection, h, rest⟩ ∧
      log h = [.delivered .event (.lifecycle (quietLifecycle .connected (noon - 200 * millisecond) 0)),
          .dropped .event (.lifecycle (quietLifecycle .subscribed (noon - 100 * millisecond) 0))] ++
        .dropped .event (.trade skewedTrade) :: ([] ++ .delivered (.report "s") (.lifecycle skewedReport) :: []) :=
    ⟨_, _, rfl, rfl⟩
  have hcovered := dropped_incomplete hyp030 1 reported reported_timely hthread hlog (fun _ _ => not_mem_nil)
    (mem_singleton_self "AAAUSDT")
  exact ⟨h, rest, _, _, hthread, hlog, htaken, hcovered.2 htaken⟩

/-- **A subscription confirmed early completes the minute of a dropped trade.** The report was left to the gap that was
open from the start, and that gap ends before the minute begins. -/
theorem early_close_completes : ∃ h rest pre post,
    ((new hyp030 1).run earlyClose).threads[0]? = some ⟨skewedConnection, h, rest⟩ ∧
    log h = pre ++ .dropped .event (.trade skewedTrade) ::
      ([] ++ .delivered (.report "s") (.lifecycle skewedReport) :: post) ∧
    (0, .lifecycle skewedReport) ∈ ((new hyp030 1).run earlyClose).state.taken ∧
    ¬ Covered hyp030 (((new hyp030 1).run earlyClose).state.consumer.state "AAAUSDT") skewedTrade.eventAt := by
  refine ⟨_, _, [.delivered .event (.lifecycle (quietLifecycle .connected (noon - 200 * millisecond) 0)),
    .dropped .event (.lifecycle (quietLifecycle .subscribed (noon - 100 * millisecond) 0))], _, rfl, rfl, ?_, ?_⟩
  · decide +kernel
  · unfold Covered
    decide +kernel

end Schurfer.Burst
