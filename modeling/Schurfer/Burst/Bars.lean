import Schurfer.Burst.Engine

/-!
# The bars of one symbol

The engine keeps its symbols apart (`state_input`). The minutes that are not final stand in their order after the last
final one (`Orderly`), so that one only moves forward, and never past what is due.
-/

namespace Schurfer.Burst

open GoTime Streamrt List Bar

variable {s : SymbolState}

namespace Engine

variable (e : Engine) (now : ℤ) (x : Input)

@[simp] theorem state_set (symbol other : String) (s : SymbolState) :
    (e.set symbol s).state other = if other = symbol then s else e.state other := by
  unfold state set
  rw [Dict.lookup_insert_eq]
  split <;> rfl

@[simp] theorem config_set (symbol : String) (s : SymbolState) : (e.set symbol s).config = e.config := rfl

theorem state_foldl_onLifecycle (l : Lifecycle) (symbols : List String) (e : Engine) (symbol : String) :
    (symbols.foldl (fun e symbol => e.set symbol ((e.state symbol).onLifecycle e.config l)) e).state symbol =
      (SymbolState.onLifecycle e.config l)^[symbols.count symbol] (e.state symbol) := by
  induction symbols generalizing e with
  | nil => rfl
  | cons other symbols ih =>
    rw [foldl_cons, ih, state_set, config_set]
    by_cases h : symbol = other
    · subst h
      rw [if_pos rfl, count_cons_self, Function.iterate_succ_apply]
    · rw [if_neg h, count_cons_of_ne (Ne.symm h)]

theorem config_onLifecycle (l : Lifecycle) : (e.onLifecycle l).config = e.config := by
  unfold onLifecycle
  generalize l.symbols = symbols
  induction symbols generalizing e with
  | nil => rfl
  | cons symbol symbols ih =>
    rw [foldl_cons, ih, config_set]

theorem config_onTrade (t : Streamrt.Trade) : (e.onTrade t).config = e.config := by
  unfold onTrade
  dsimp only
  repeat' split
  all_goals rfl

theorem tickNext_foldl (m : Memory) (symbols : List String) (hnodup : symbols.Nodup) (out : List Signal) (e : Engine) :
    let result := symbols.foldl (tickNext m now) (out, e)
    result.2.config = e.config ∧ ∀ symbol, ∃ stats, result.2.state symbol =
      if symbol ∈ symbols then ((e.state symbol).tick e.config m symbol now stats).2.2 else e.state symbol := by
  induction symbols generalizing out e with
  | nil => exact ⟨rfl, fun symbol => ⟨{}, by simp⟩⟩
  | cons other symbols ih =>
    obtain ⟨hother, hnodup⟩ := nodup_cons.1 hnodup
    rw [foldl_cons]
    obtain ⟨hconfig, hstate⟩ := ih hnodup _ (tickNext m now (out, e) other).2
    refine ⟨hconfig, fun symbol => ?_⟩
    obtain ⟨stats, hstate⟩ := hstate symbol
    have hset : (tickNext m now (out, e) other).2.state symbol =
        if symbol = other then ((e.state other).tick e.config m other now e.stats).2.2 else e.state symbol :=
      state_set e other symbol _
    by_cases h : symbol = other
    · subst h
      exact ⟨e.stats, hstate.trans (by rw [hset]; simp [hother])⟩
    · exact ⟨stats, hstate.trans (by rw [hset]; simp [h, tickNext])⟩

theorem config_tick : (e.tick now).2.config = e.config :=
  (tickNext_foldl now _ _ ((perm_insertionSort _ _).nodup_iff.2 e.symbols.keys_nodup) [] e).1

theorem state_tick (symbol : String) : ∃ stats, (e.tick now).2.state symbol =
    if symbol ∈ e.symbols then ((e.state symbol).tick e.config e.config.bounded symbol now stats).2.2
    else e.state symbol := by
  obtain ⟨stats, hstate⟩ := (tickNext_foldl now e.config.bounded _
    ((perm_insertionSort (· ≤ ·) _).nodup_iff.2 e.symbols.keys_nodup) [] e).2 symbol
  refine ⟨stats, hstate.trans ?_⟩
  simp only [(perm_insertionSort (· ≤ ·) e.symbols.keys).mem_iff, AList.mem_keys]

theorem state_onTrade (t : Streamrt.Trade) (symbol : String) : (e.onTrade t).state symbol = e.state symbol ∨
    (e.onTrade t).state symbol = ((e.state symbol).onTrade t (e.arrival + 1)).1 := by
  have hset : (e.set t.symbol ((e.state t.symbol).onTrade t (e.arrival + 1)).1).state symbol = e.state symbol ∨
      (e.set t.symbol ((e.state t.symbol).onTrade t (e.arrival + 1)).1).state symbol =
        ((e.state symbol).onTrade t (e.arrival + 1)).1 := by
    rw [state_set]
    split
    · subst symbol
      exact .inr rfl
    · exact .inl rfl
  unfold onTrade
  dsimp only
  split
  · exact .inl rfl
  split
  · exact .inl rfl
  split
  · exact hset
  split <;> exact hset

theorem config_input : (e.input x).config = e.config := by
  cases x with
  | tick now => exact e.config_tick now
  | event event =>
    cases event with
    | lifecycle l => exact e.config_onLifecycle l
    | trade t => exact e.config_onTrade t

theorem state_input (symbol : String) : (e.input x).state symbol = e.state symbol ∨
    (∃ l, x = .event (.lifecycle l) ∧ symbol ∈ l.symbols ∧ (e.input x).state symbol =
      (SymbolState.onLifecycle e.config l)^[l.symbols.count symbol] (e.state symbol)) ∨
    (∃ t arrival, x = .event (.trade t) ∧ (e.input x).state symbol = ((e.state symbol).onTrade t arrival).1) ∨
    ∃ now stats, x = .tick now ∧
      (e.input x).state symbol = ((e.state symbol).tick e.config e.config.bounded symbol now stats).2.2 := by
  cases x with
  | tick now =>
    obtain ⟨stats, hstate⟩ := e.state_tick now symbol
    by_cases h : symbol ∈ e.symbols
    · rw [if_pos h] at hstate
      exact .inr (.inr (.inr ⟨now, stats, rfl, hstate⟩))
    · rw [if_neg h] at hstate
      exact .inl hstate
  | event event =>
    cases event with
    | lifecycle l =>
      have hstt := state_foldl_onLifecycle l l.symbols e symbol
      by_cases h : symbol ∈ l.symbols
      · exact .inr (.inl ⟨l, rfl, h, hstt⟩)
      · rw [count_eq_zero_of_not_mem h] at hstt
        exact .inl hstt
    | trade t =>
      rcases e.state_onTrade t symbol with hsame | htrade
      · exact .inl hsame
      · exact .inr (.inr (.inl ⟨t, e.arrival + 1, rfl, htrade⟩))

end Engine

theorem mem_minutesBefore {start stop x : ℤ} (h : x ∈ minutesBefore start stop) : start ≤ x ∧ x < stop := by
  obtain ⟨k, hk, rfl⟩ := mem_map.1 h
  rw [mem_range] at hk
  have hpos := minute_pos
  have hle : (k : ℤ) + 1 ≤ (stop - start + (minute - 1)) / minute := by omega
  have hmul := (Int.le_ediv_iff_mul_le minute_pos).1 hle
  have hk0 : (0 : ℤ) ≤ k * minute := Int.mul_nonneg (Int.natCast_nonneg k) hpos.le
  rw [Int.add_mul, Int.one_mul] at hmul
  omega

theorem pairwise_minutesBefore (start stop : ℤ) : (minutesBefore start stop).Pairwise (· < ·) := by
  unfold minutesBefore
  rw [pairwise_map]
  refine pairwise_lt_range.imp fun {j k} hjk => ?_
  have hcs : (j : ℤ) < k := by omega
  have hmul := Int.mul_lt_mul_of_pos_right hcs minute_pos
  omega

namespace SymbolState

def starts (s : SymbolState) : List ℤ := s.bars.map Bar.start

structure Orderly (s : SymbolState) : Prop where
  sorted : s.starts.Pairwise (· < ·)
  epoch : ∀ x ∈ s.starts, unixEpoch ≤ x
  after : ∀ x ∈ s.starts, s.finalThrough < x
  final : s.finalThrough = 0 ∨ unixEpoch ≤ s.finalThrough

theorem Orderly.final_nonneg (h : s.Orderly) : 0 ≤ s.finalThrough := by
  have hep := unixEpoch_pos
  rcases h.final with h | h
  · omega
  · omega

theorem Orderly.of_eq {s' : SymbolState} (h : s.Orderly) (hst : s'.starts = s.starts)
    (hfinal : s'.finalThrough = s.finalThrough) : s'.Orderly :=
  ⟨hst ▸ h.sorted, hst ▸ h.epoch, by rw [hst, hfinal]; exact h.after, hfinal ▸ h.final⟩

theorem starts_emptyBars (starts : List ℤ) : (emptyBars starts).map start = starts := by
  simp [emptyBars, Function.comp_def]

theorem Orderly.le_newest (h : s.Orderly) {newest : ℤ} (hnw : s.newest = some newest) :
    (∀ x ∈ s.starts, x ≤ newest) ∧ s.finalThrough ≤ newest ∧ unixEpoch ≤ newest := by
  unfold SymbolState.newest at hnw
  cases hlast : s.bars.getLast? with
  | some bar =>
    rw [hlast] at hnw
    cases hnw
    obtain ⟨older, hbr⟩ := getLast?_eq_some_iff.1 hlast
    have hst : s.starts = older.map start ++ [bar.start] := by simp [starts, hbr]
    have hmem : bar.start ∈ s.starts := by rw [hst]; simp
    refine ⟨fun x hx => ?_, (h.after _ hmem).le, h.epoch _ hmem⟩
    have hsr := h.sorted
    rw [hst, pairwise_append] at hsr
    rw [hst, mem_append] at hx
    rcases hx with hx | hx
    · exact (hsr.2.2 x hx bar.start (mem_singleton_self _)).le
    · exact (mem_singleton.1 hx).le
  | none =>
    rw [hlast] at hnw
    have hbr := getLast?_eq_none_iff.1 hlast
    have hst : s.starts = [] := by simp [starts, hbr]
    rw [hst]
    dsimp only at hnw
    split at hnw
    · rename_i hne
      cases hnw
      rcases h.final with hzr | hep
      · exact absurd hzr hne
      · refine ⟨fun x hx => ?_, le_refl _, hep⟩
        cases hx
    · cases hnw

theorem barFor_cases (s : SymbolState) (start : ℤ) : (s.barFor start).1 = s ∨
    (∃ first rest, s.starts = first :: rest ∧ start < first ∧
      (s.barFor start).1 = { s with bars := emptyBars (minutesBefore start first) ++ s.bars }) ∨
    (s.newest = none ∧ (s.barFor start).1 = { s with bars := s.bars ++ [{ start }] }) ∨
    ∃ newest, s.newest = some newest ∧
      (s.barFor start).1 = { s with bars := s.bars ++ emptyBars (minutesBefore (newest + minute) (start + 1)) } := by
  have hup : (barFor.upTo start s).1 = s ∨
      (s.newest = none ∧ (barFor.upTo start s).1 = { s with bars := s.bars ++ [{ start }] }) ∨
      ∃ newest, s.newest = some newest ∧ (barFor.upTo start s).1 =
        { s with bars := s.bars ++ emptyBars (minutesBefore (newest + minute) (start + 1)) } := by
    unfold barFor.upTo
    split
    · exact .inl rfl
    · rename_i hnw
      exact .inr (.inl ⟨hnw, rfl⟩)
    · rename_i newest _ hnw
      split
      · exact .inl rfl
      · exact .inr (.inr ⟨newest, hnw, rfl⟩)
  unfold barFor
  cases hhd : s.bars.head? with
  | none =>
    rcases hup with h | h | h
    · exact .inl h
    · exact .inr (.inr (.inl h))
    · exact .inr (.inr (.inr h))
  | some first =>
    dsimp only
    obtain ⟨rest, hbr⟩ := head?_eq_some_iff.1 hhd
    split
    · rename_i hlt
      exact .inr (.inl ⟨first.start, rest.map Bar.start, by simp [starts, hbr], hlt, rfl⟩)
    · rcases hup with h | h | h
      · exact .inl h
      · exact .inr (.inr (.inl h))
      · exact .inr (.inr (.inr h))

theorem Orderly.append (h : s.Orderly) {more : List Bar}
    (hsr : (more.map start).Pairwise (· < ·)) (hep : ∀ x ∈ more.map start, unixEpoch ≤ x)
    (hfinal : ∀ x ∈ more.map start, s.finalThrough < x) (hlt : ∀ x ∈ s.starts, ∀ y ∈ more.map start, x < y) :
    ({ s with bars := s.bars ++ more } : SymbolState).Orderly := by
  have hst : ({ s with bars := s.bars ++ more } : SymbolState).starts = s.starts ++ more.map start := by
    simp [starts]
  refine ⟨?_, ?_, ?_, h.final⟩
  · rw [hst]
    exact pairwise_append.2 ⟨h.sorted, hsr, hlt⟩
  · rw [hst]
    intro x hx
    rcases mem_append.1 hx with hx | hx
    · exact h.epoch x hx
    · exact hep x hx
  · rw [hst]
    intro x hx
    rcases mem_append.1 hx with hx | hx
    · exact h.after x hx
    · exact hfinal x hx

theorem Orderly.barFor (h : s.Orderly) {start : ℤ} (hep : unixEpoch ≤ start)
    (haf : s.finalThrough < start) : (s.barFor start).1.Orderly := by
  have hpos := minute_pos
  rcases s.barFor_cases start with heq | ⟨first, rest, hst, hlt, heq⟩ | ⟨hnn, heq⟩ | ⟨newest, hnw, heq⟩
  · rw [heq]
    exact h
  · -- minutes before the first bar
    rw [heq]
    have hnew : ({ s with bars := emptyBars (minutesBefore start first) ++ s.bars } : SymbolState).starts =
        minutesBefore start first ++ s.starts := by
      simp only [starts, map_append, starts_emptyBars]
    refine ⟨?_, ?_, ?_, h.final⟩
    · rw [hnew]
      refine pairwise_append.2 ⟨pairwise_minutesBefore start first, h.sorted, fun x hx y hy => ?_⟩
      have hx' := (mem_minutesBefore hx).2
      have hsr := h.sorted
      rw [hst] at hsr hy
      rcases mem_cons.1 hy with rfl | hy
      · exact hx'
      · exact lt_trans hx' ((pairwise_cons.1 hsr).1 y hy)
    · rw [hnew]
      intro x hx
      rcases mem_append.1 hx with hx | hx
      · exact hep.trans (mem_minutesBefore hx).1
      · exact h.epoch x hx
    · rw [hnew]
      intro x hx
      rcases mem_append.1 hx with hx | hx
      · exact lt_of_lt_of_le haf (mem_minutesBefore hx).1
      · exact h.after x hx
  · -- the first bar of all
    rw [heq]
    have hbr : s.bars = [] := by
      unfold SymbolState.newest at hnn
      cases hlast : s.bars.getLast? with
      | none => exact getLast?_eq_none_iff.1 hlast
      | some => rw [hlast] at hnn; cases hnn
    refine h.append (by simp) (by simpa using hep) (by simpa using haf) fun x hx => ?_
    rw [starts, hbr] at hx
    cases hx
  · -- minutes after the newest
    rw [heq]
    obtain ⟨hle, hfinal, hep'⟩ := h.le_newest hnw
    have hmem : ∀ y ∈ (emptyBars (minutesBefore (newest + minute) (start + 1))).map Bar.start, newest < y := by
      intro y hy
      rw [starts_emptyBars] at hy
      have := (mem_minutesBefore hy).1
      omega
    refine h.append ?_ (fun y hy => ?_) (fun y hy => ?_) fun x hx y hy => ?_
    · rw [starts_emptyBars]
      exact pairwise_minutesBefore _ _
    · exact hep'.trans (hmem y hy).le
    · exact lt_of_le_of_lt hfinal (hmem y hy)
    · exact lt_of_le_of_lt (hle x hx) (hmem y hy)

structure SameGaps (s s' : SymbolState) : Prop where
  gaps : s'.gaps = s.gaps
  alive : s'.aliveThrough = s.aliveThrough

theorem SameGaps.refl (s : SymbolState) : s.SameGaps s := ⟨rfl, rfl⟩

theorem SameGaps.trans {s1 s2 s3 : SymbolState} (h : s1.SameGaps s2) (h' : s2.SameGaps s3) : s1.SameGaps s3 :=
  ⟨h'.gaps.trans h.gaps, h'.alive.trans h.alive⟩

theorem barFor_frame (s : SymbolState) (start : ℤ) :
    s.SameGaps (s.barFor start).1 ∧ (s.barFor start).1.finalThrough = s.finalThrough := by
  rcases s.barFor_cases start with heq | ⟨_, _, _, _, heq⟩ | ⟨_, heq⟩ | ⟨_, _, heq⟩
  all_goals
    rw [heq]
    exact ⟨⟨rfl, rfl⟩, rfl⟩

theorem starts_modify (bars : List Bar) (i : ℕ) (t : Streamrt.Trade) (arrival : ℕ) :
    (bars.modify i (·.add t arrival)).map start = bars.map start := by
  have hstr : ∀ bar : Bar, (bar.add t arrival).start = bar.start := by
    intro bar
    simp only [add]
    split
    · rfl
    · split <;> split <;> rfl
  induction bars generalizing i with
  | nil => simp
  | cons bar bars ih =>
    cases i with
    | zero => simp [hstr]
    | succ => simp [ih]

theorem onTrade_frame (s : SymbolState) (t : Streamrt.Trade) (arrival : ℕ) :
    s.SameGaps (s.onTrade t arrival).1 ∧ (s.onTrade t arrival).1.finalThrough = s.finalThrough := by
  simp only [onTrade]
  split
  · exact ⟨⟨rfl, rfl⟩, rfl⟩
  · obtain ⟨hsame, hfinal⟩ := ({ s with exchange := t.exchange } : SymbolState).barFor_frame (truncate t.eventAt)
    split
    · exact ⟨⟨hsame.gaps, hsame.alive⟩, hfinal⟩
    · exact ⟨⟨hsame.gaps, hsame.alive⟩, hfinal⟩

theorem Orderly.onTrade (h : s.Orderly) (t : Streamrt.Trade) (arrival : ℕ) : (s.onTrade t arrival).1.Orderly := by
  have hep := unixEpoch_le_truncate t.eventAt_epoch.le
  have hpos := unixEpoch_pos
  have hnm : ({ s with exchange := t.exchange } : SymbolState).Orderly := h.of_eq rfl rfl
  simp only [SymbolState.onTrade]
  split
  · exact hnm
  · rename_i hla
    have hbr := hnm.barFor hep (by dsimp only at hla ⊢; omega)
    split
    · exact hbr
    · exact hbr.of_eq (starts_modify _ _ _ _) rfl

variable (config : Config) (m : Memory)

theorem admitBar_frame (symbol : String) (now : ℤ) (stats : Stats) (s : SymbolState) (bar : Bar) :
    let s' := (s.admitBar config m symbol now stats bar).2.2
    s.SameGaps s' ∧ s'.bars = s.bars ∧ s'.finalThrough = s.finalThrough := by
  simp only [admitBar, evaluate]
  split
  · exact ⟨⟨rfl, rfl⟩, rfl, rfl⟩
  · split
    · exact ⟨⟨rfl, rfl⟩, rfl, rfl⟩
    · split <;> exact ⟨⟨rfl, rfl⟩, rfl, rfl⟩

theorem Orderly.finalize (symbol : String) (now due : ℤ) {bars : List Bar} (hbr : s.bars = bars) (h : s.Orderly)
    (stats : Stats) :
    let s' := (SymbolState.finalize config m symbol now due bars stats s).2.2
    s'.Orderly ∧ s.SameGaps s' ∧ s.finalThrough ≤ s'.finalThrough ∧
      (s'.finalThrough = s.finalThrough ∨ s'.finalThrough ≤ due) := by
  induction bars generalizing s stats with
  | nil => exact ⟨h, .refl s, le_refl _, .inl rfl⟩
  | cons bar rest ih =>
    simp only [SymbolState.finalize]
    split
    · rename_i hdue
      set next : SymbolState := { s with bars := rest, finalThrough := bar.start } with hnx
      set admitted := (next.admitBar config m symbol now stats { bar with ids := [] }).2.2 with ham
      obtain ⟨hsame, hrs, hfinal⟩ := next.admitBar_frame config m symbol now stats { bar with ids := [] }
      have hst : s.starts = bar.start :: rest.map start := by simp [starts, hbr]
      have hsr := h.sorted
      rw [hst, pairwise_cons] at hsr
      have hmem : bar.start ∈ s.starts := by rw [hst]; exact mem_cons_self
      have hod : next.Orderly := by
        refine ⟨hsr.2, fun x hx => h.epoch x ?_, hsr.1, .inr (h.epoch _ hmem)⟩
        rw [hst]
        exact mem_cons_of_mem _ hx
      have hod' : admitted.Orderly := hod.of_eq (by rw [starts, hrs]; rfl) hfinal
      -- the rest of the bars stand after the one that is final now
      obtain ⟨hlast, hgp, hle, hor⟩ := ih hrs hod' _
      have hsp : s.finalThrough < admitted.finalThrough := hfinal ▸ h.after _ hmem
      refine ⟨hlast, .trans ⟨hsame.gaps, hsame.alive⟩ hgp, hsp.le.trans hle, .inr ?_⟩
      rcases hor with heq | hdue'
      · exact heq.trans_le (hfinal.trans_le hdue)
      · exact hdue'
    · exact ⟨h, .refl s, le_refl _, .inl rfl⟩

theorem Orderly.fill (h : s.Orderly) (due : ℤ) :
    (s.fill due).Orderly ∧ s.SameGaps (s.fill due) ∧ (s.fill due).finalThrough = s.finalThrough := by
  unfold SymbolState.fill
  cases hnw : s.newest with
  | none => exact ⟨h, .refl s, rfl⟩
  | some newest =>
    dsimp only
    split
    · rename_i hlt
      obtain ⟨-, hfinal, hep⟩ := h.le_newest hnw
      obtain ⟨hsame, hsm⟩ := s.barFor_frame due
      exact ⟨h.barFor (hep.trans hlt.le) (lt_of_le_of_lt hfinal hlt), hsame, hsm⟩
    · exact ⟨h, .refl s, rfl⟩

/-- **A tick moves the last final minute forward, and no further than what is due.** Of the gaps it only drops those
that end by the horizon. -/
theorem Orderly.tick (h : s.Orderly) (config : Config) (symbol : String) (now : ℤ) (stats : Stats) :
    let s' := (s.tick config config.bounded symbol now stats).2.2
    s'.Orderly ∧ s'.aliveThrough = s.aliveThrough ∧ s.finalThrough ≤ s'.finalThrough ∧
      (s'.finalThrough = s.finalThrough ∨ s'.finalThrough ≤ s.due config now) ∧
      s'.gaps = s.gaps.filter fun g => decide (g.to' = 0) || decide (s'.horizon config < g.to') := by
  obtain ⟨hfi, hsame, hfinal⟩ := h.fill (s.due config now)
  obtain ⟨hod, hsame', hle, hor⟩ := hfi.finalize config config.bounded symbol now (s.due config now) rfl stats
  have hgp := (hsame.trans hsame').gaps
  refine ⟨hod.of_eq rfl rfl, (hsame.trans hsame').alive, ?_, ?_, ?_⟩
  · exact hfinal ▸ hle
  · exact hfinal ▸ hor
  · change filter _ _ = _
    rw [hgp]
    rfl

theorem lifecycle_frame (l : Lifecycle) (s : SymbolState) :
    (s.onLifecycle config l).bars = s.bars ∧ (s.onLifecycle config l).finalThrough = s.finalThrough ∧
      (s.onLifecycle config l).history = s.history := by
  unfold onLifecycle openGap closeGap alive
  split
  · split <;> exact ⟨rfl, rfl, rfl⟩
  · split <;> exact ⟨rfl, rfl, rfl⟩
  · split <;> exact ⟨rfl, rfl, rfl⟩
  · split
    · split <;> exact ⟨rfl, rfl, rfl⟩
    · split <;> exact ⟨rfl, rfl, rfl⟩
  · exact ⟨rfl, rfl, rfl⟩

theorem Orderly.input {e : Engine} {symbol : String} (h : (e.state symbol).Orderly) (x : Engine.Input) :
    ((e.input x).state symbol).Orderly := by
  rcases e.state_input x symbol with heq | ⟨l, -, -, heq⟩ | ⟨t, arrival, -, heq⟩ | ⟨now, stats, -, heq⟩
  · rw [heq]
    exact h
  · rw [heq]
    refine Function.Iterate.rec Orderly h (fun s hs => ?_) _
    obtain ⟨hbr, hfinal, -⟩ := s.lifecycle_frame e.config l
    exact hs.of_eq (by rw [starts, hbr]; rfl) hfinal
  · rw [heq]
    exact h.onTrade t arrival
  · rw [heq]
    exact (h.tick e.config symbol now stats).1

theorem orderly_new : ({} : SymbolState).Orderly := by
  refine ⟨List.Pairwise.nil, fun _ hx => ?_, fun _ hx => ?_, .inl rfl⟩
  · cases hx
  · cases hx

end SymbolState

end Schurfer.Burst
