import Schurfer.Burst.Gaps

/-!
# What the burst engine forgets

After a tick the engine drops the gaps that end by a horizon, and of the final bars it keeps one more than the median
window. `pruning_unobservable`: the reference, which keeps everything, gives the same signals and counters. The two are
related symbol by symbol (`Remembers`): what was dropped lies behind every minute that is asked for later.
-/

namespace Schurfer.Burst

open GoTime Streamrt List SymbolState

variable {s r : SymbolState} {final bound x start : ℤ} {α : Type} {bar : Bar} (l : Lifecycle)

structure SameBut (bound : ℤ) (gaps all closed allClosed tail : List Gap) : Prop where
  gaps : gaps = closed ++ tail
  all : all = allClosed ++ tail
  subset : closed ⊆ allClosed
  old : ∀ g ∈ allClosed, g.to' ≠ 0 ∧ (g ∈ closed ∨ g.to' ≤ bound)
  tail : tail = [] ∨ ∃ g : Gap, tail = [g] ∧ g.to' = 0

def GapsAgree (bound : ℤ) (gaps all : List Gap) : Prop :=
  ∃ closed allClosed tail, SameBut bound gaps all closed allClosed tail

theorem GapsAgree.mono {bound' : ℤ} {gaps all : List Gap} (h : GapsAgree bound gaps all) (hle : bound ≤ bound') :
    GapsAgree bound' gaps all := by
  obtain ⟨closed, allClosed, tail, h⟩ := h
  refine ⟨closed, allClosed, tail, h.gaps, h.all, h.subset, fun g hg => ⟨(h.old g hg).1, ?_⟩, h.tail⟩
  exact (h.old g hg).2.imp_right fun hold => hold.trans hle

namespace SymbolState

def keeping (s : SymbolState) (gaps : List Gap) (history : List Bar) : SymbolState := { s with gaps, history }

section

variable {config : Config} {all : List Gap} {history : List Bar}

theorem gapOpen_of_closed (h : ∀ g ∈ s.gaps, g.to' ≠ 0) : s.gapOpen = false := by
  refine Bool.eq_false_iff.2 fun hop => ?_
  obtain ⟨closed, g, hgp, hzr⟩ := gapOpen_iff.1 hop
  exact h g (hgp ▸ mem_append_right _ (mem_singleton_self g)) hzr

theorem agree_cases (history : List Bar) (h : GapsAgree bound s.gaps all) :
    (s.gapOpen = false ∧ (s.keeping all history).gapOpen = false ∧ SameBut bound s.gaps all s.gaps all []) ∨
      ∃ closed allClosed g, s.gapOpen = true ∧ (s.keeping all history).gapOpen = true ∧ g.to' = 0 ∧
        SameBut bound s.gaps all closed allClosed [g] := by
  obtain ⟨closed, allClosed, tail, h⟩ := h
  obtain rfl | ⟨g, rfl, hop⟩ := h.tail
  · obtain rfl : s.gaps = closed := h.gaps.trans (append_nil closed)
    obtain rfl : all = allClosed := h.all.trans (append_nil allClosed)
    refine .inl ⟨gapOpen_of_closed fun g hg => ?_, gapOpen_of_closed fun g hg => (h.old g hg).1, h⟩
    exact (h.old g (h.subset hg)).1
  · exact .inr ⟨closed, allClosed, g, gapOpen_iff.2 ⟨_, g, h.gaps, hop⟩, gapOpen_iff.2 ⟨_, g, h.all, hop⟩, hop, h⟩

theorem gapOpen_keeping (h : GapsAgree bound s.gaps all) : (s.keeping all history).gapOpen = s.gapOpen := by
  obtain ⟨hs, hr, -⟩ | ⟨_, _, _, hs, hr, -⟩ := agree_cases history h
  · rw [hs, hr]
  · rw [hs, hr]

theorem complete_keeping (h : GapsAgree bound s.gaps all) (hsr : bound ≤ start) :
    (s.keeping all history).complete start = s.complete start := by
  obtain ⟨closed, allClosed, tail, h⟩ := h
  rw [Bool.eq_iff_iff, ← not_iff_not, Bool.not_eq_true, Bool.not_eq_true, complete_eq_false_iff, complete_eq_false_iff]
  have hgp : ∀ g : Gap, g.Overlaps start → (g ∈ all ↔ g ∈ s.gaps) := by
    intro g hov
    rw [h.all, h.gaps, mem_append, mem_append]
    refine or_congr_left ⟨fun hg => ?_, fun hg => h.subset hg⟩
    obtain ⟨hclosed, hin | hold⟩ := h.old g hg
    · exact hin
    · have hlt := hov.2.resolve_left hclosed
      omega
  exact exists_congr fun g => ⟨fun ⟨hg, hov⟩ => ⟨(hgp g hov).1 hg, hov⟩, fun ⟨hg, hov⟩ => ⟨(hgp g hov).2 hg, hov⟩⟩

theorem agree_append (h : SameBut bound s.gaps all s.gaps all []) (g : Gap) :
    GapsAgree bound (s.gaps ++ [g]) (all ++ [g]) := by
  by_cases hop : g.to' = 0
  · exact ⟨s.gaps, all, [g], rfl, rfl, h.subset, h.old, .inr ⟨g, rfl, hop⟩⟩
  · refine ⟨s.gaps ++ [g], all ++ [g], [], (append_nil _).symm, (append_nil _).symm, ?_, fun g' hg' => ?_, .inl rfl⟩
    · exact append_subset.2 ⟨fun g' hg' => mem_append_left _ (h.subset hg'), subset_append_right _ _⟩
    · obtain hg' | hg' := mem_append.1 hg'
      · exact ⟨(h.old g' hg').1, (h.old g' hg').2.imp_left (mem_append_left _)⟩
      · exact ⟨mem_singleton.1 hg' ▸ hop, .inl (mem_append_right _ hg')⟩

theorem agree_openGap (h : GapsAgree bound s.gaps all) (from' : ℤ) :
    GapsAgree bound (s.openGap from').gaps ((s.keeping all history).openGap from').gaps := by
  unfold openGap
  obtain ⟨hs, hr, hsame⟩ | ⟨_, _, _, hs, hr, -⟩ := agree_cases history h
  · rw [hs, hr]
    exact agree_append hsame _
  · rw [hs, hr]
    exact h

theorem agree_closeGap (h : GapsAgree bound s.gaps all) (time : ℤ) :
    GapsAgree bound (s.closeGap time).gaps ((s.keeping all history).closeGap time).gaps := by
  obtain ⟨hs, hr, hsame⟩ | ⟨closed, allClosed, g, hs, hr, hop, hsame⟩ := agree_cases history h
  · rw [closeGap_of_not_open time hs, closeGap_of_not_open time hr]
    exact h
  · rw [closeGap_gaps time hsame.gaps hop, closeGap_gaps (s := s.keeping all history) time hsame.all hop]
    have hclosed : SameBut bound closed allClosed closed allClosed [] :=
      ⟨(append_nil _).symm, (append_nil _).symm, hsame.subset, hsame.old, .inl rfl⟩
    exact agree_append (s := { s with gaps := closed }) hclosed _

theorem agree_onLifecycle (config : Config) (history : List Bar) (h : GapsAgree bound s.gaps all) (l : Lifecycle) :
    GapsAgree bound (s.onLifecycle config l).gaps ((s.keeping all history).onLifecycle config l).gaps := by
  unfold onLifecycle
  cases l.kind with
  | connected => exact h
  | disconnected => exact agree_openGap h _
  | subscribed | heartbeat => exact agree_closeGap h _
  | overflow =>
    dsimp only
    split
    · exact agree_openGap h _
    · obtain ⟨hs, hr, hsame⟩ | ⟨_, _, _, hs, hr, -⟩ := agree_cases history h
      · rw [hs, hr]
        exact agree_append hsame _
      · rw [hs, hr]
        exact h

theorem openGap_eq (s : SymbolState) (from' : ℤ) : s.openGap from' = s.keeping (s.openGap from').gaps s.history := by
  unfold openGap
  split <;> rfl

theorem closeGap_eq (s : SymbolState) (time : ℤ) : s.closeGap time = s.keeping (s.closeGap time).gaps s.history := by
  unfold closeGap
  split <;> rfl

theorem onLifecycle_keeping (config : Config) (l : Lifecycle) (s : SymbolState) (all : List Gap) (history : List Bar) :
    (s.keeping all history).onLifecycle config l =
      (s.onLifecycle config l).keeping ((s.keeping all history).onLifecycle config l).gaps history := by
  unfold onLifecycle
  cases l.kind with
  | connected => rfl
  | disconnected =>
    rw [openGap_eq (s.keeping all history), openGap_eq s]
    rfl
  | subscribed | heartbeat =>
    rw [closeGap_eq (s.keeping all history), closeGap_eq s]
    rfl
  | overflow =>
    dsimp only
    split
    · rw [openGap_eq (s.keeping all history), openGap_eq s]
      rfl
    · split <;> split <;> rfl

theorem agree_pruneGaps (h : GapsAgree (s.horizon config) s.gaps all) :
    GapsAgree (s.horizon config) (s.pruneGaps config).gaps all := by
  obtain ⟨closed, allClosed, tail, h⟩ := h
  refine ⟨closed.filter fun g => decide (g.to' = 0) || decide (s.horizon config < g.to'), allClosed, tail, ?_, h.all,
    fun g hg => h.subset (mem_of_mem_filter hg), fun g hg => ⟨(h.old g hg).1, ?_⟩, h.tail⟩
  · unfold pruneGaps
    rw [h.gaps, filter_append]
    obtain rfl | ⟨g, rfl, hop⟩ := h.tail
    · rfl
    · simp [hop]
  · obtain hin | hold := (h.old g hg).2
    · by_cases hlt : s.horizon config < g.to'
      · exact .inl (mem_filter.2 ⟨hin, by simp [hlt]⟩)
      · exact .inr (not_lt.1 hlt)
    · exact .inr hold

end

section

variable (s : SymbolState) (gaps : List Gap) (history : List Bar)

@[simp] theorem bars_keeping : (s.keeping gaps history).bars = s.bars := rfl

@[simp] theorem newest_keeping : (s.keeping gaps history).newest = s.newest := rfl

theorem barFor_keeping (start : ℤ) :
    (s.keeping gaps history).barFor start = ((s.barFor start).1.keeping gaps history, (s.barFor start).2) := by
  have hup : barFor.upTo start (s.keeping gaps history) =
      ((barFor.upTo start s).1.keeping gaps history, (barFor.upTo start s).2) := by
    unfold barFor.upTo
    rw [bars_keeping, newest_keeping]
    cases searchBack start s.bars.reverse with
    | some => rfl
    | none =>
      cases s.newest with
      | none => rfl
      | some newest =>
        dsimp only
        cases if start < newest then s.bars.findIdx? (·.start = start) else none with
        | some | none => rfl
  unfold barFor
  rw [bars_keeping]
  cases s.bars.head? with
  | none => exact hup
  | some first =>
    dsimp only
    by_cases hlt : start < first.start
    · rw [if_pos hlt, if_pos hlt]
      rfl
    · rw [if_neg hlt, if_neg hlt]
      exact hup

theorem onTrade_keeping (t : Streamrt.Trade) (arrival : ℕ) : (s.keeping gaps history).onTrade t arrival =
      ((s.onTrade t arrival).1.keeping gaps history, (s.onTrade t arrival).2) := by
  have hbr := barFor_keeping { s with exchange := t.exchange } gaps history (truncate t.eventAt)
  unfold onTrade
  by_cases hla : s.finalThrough ≠ 0 ∧ truncate t.eventAt ≤ s.finalThrough
  · dsimp only [keeping]
    rw [if_pos hla, if_pos hla]
  · dsimp only [keeping] at hbr ⊢
    rw [if_neg hla, if_neg hla, hbr]
    split <;> rfl

theorem fill_keeping (due : ℤ) : (s.keeping gaps history).fill due = (s.fill due).keeping gaps history := by
  unfold fill
  rw [newest_keeping, barFor_keeping]
  cases s.newest with
  | none => rfl
  | some newest =>
    dsimp only
    split <;> rfl

end

structure Aligned (s : SymbolState) : Prop where
  bars : ∀ x ∈ s.starts, minute ∣ x
  final : minute ∣ s.finalThrough

theorem dvd_truncate (t : ℤ) : minute ∣ truncate t := ⟨t / minute, truncate_eq_mul t⟩

theorem dvd_minutesBefore {stop : ℤ} (h : minute ∣ start) (hx : x ∈ minutesBefore start stop) : minute ∣ x := by
  obtain ⟨k, -, rfl⟩ := mem_map.1 hx
  exact Int.dvd_add h (Int.dvd_mul_left _ _)

theorem Aligned.newest (h : s.Aligned) {newest : ℤ} (hnw : s.newest = some newest) : minute ∣ newest := by
  unfold SymbolState.newest at hnw
  split at hnw
  · rename_i bar hlast
    cases hnw
    exact h.bars _ (mem_map_of_mem (mem_of_getLast? hlast))
  · split at hnw
    · cases hnw
      exact h.final
    · cases hnw

theorem Aligned.barFor (h : s.Aligned) (hsr : minute ∣ start) : (s.barFor start).1.Aligned := by
  have hadd : ∀ before more : List ℤ, (∀ x ∈ before, minute ∣ x) → (∀ x ∈ more, minute ∣ x) →
      ∀ x ∈ emptyBars before ++ s.bars ++ emptyBars more, minute ∣ x.start := by
    intro before more hbf hmr x hx
    simp only [emptyBars, mem_append, mem_map] at hx
    obtain (⟨y, hy, rfl⟩ | hx) | ⟨y, hy, rfl⟩ := hx
    · exact hbf y hy
    · exact h.bars _ (mem_map_of_mem hx)
    · exact hmr y hy
  have hwt : ∀ bars : List Bar, (∀ bar ∈ bars, minute ∣ bar.start) → ({ s with bars } : SymbolState).Aligned :=
    fun bars hbr => ⟨fun x hx => by obtain ⟨bar, hbar, rfl⟩ := mem_map.1 hx; exact hbr bar hbar, h.final⟩
  rcases s.barFor_cases start with heq | ⟨first, rest, -, -, heq⟩ | ⟨-, heq⟩ | ⟨newest, hnw, heq⟩
  · rw [heq]
    exact h
  · rw [heq]
    refine hwt _ fun bar hbar => hadd (minutesBefore start first) [] (fun x => dvd_minutesBefore hsr) (by simp) bar ?_
    exact mem_append_left _ hbar
  · rw [heq]
    exact hwt _ (hadd [] [start] (by simp) (by simpa using hsr))
  · rw [heq]
    refine hwt _ (hadd [] _ (by simp) fun x => dvd_minutesBefore ?_)
    exact Int.dvd_add (h.newest hnw) (Int.dvd_refl _)

theorem Aligned.onTrade (h : s.Aligned) (t : Streamrt.Trade) (arrival : ℕ) : (s.onTrade t arrival).1.Aligned := by
  have hbr := Aligned.barFor (s := { s with exchange := t.exchange }) ⟨h.bars, h.final⟩ (dvd_truncate t.eventAt)
  unfold SymbolState.onTrade
  dsimp only
  split
  · exact ⟨h.bars, h.final⟩
  · split
    · exact hbr
    · refine ⟨fun x hx => hbr.bars x ?_, hbr.final⟩
      rwa [starts, starts_modify] at hx

theorem Aligned.fill (h : s.Aligned) {due : ℤ} (hdue : minute ∣ due) : (s.fill due).Aligned := by
  unfold SymbolState.fill
  split
  · split
    · exact h.barFor hdue
    · exact h
  · exact h

end SymbolState

structure Past (history : List Bar) (final : ℤ) : Prop where
  sorted : history.Pairwise (·.start < ·.start)
  aligned : ∀ bar ∈ history, minute ∣ bar.start
  through : ∀ bar ∈ history, bar.start ≤ final

theorem add_minute_le {y : ℤ} (hx : minute ∣ x) (hy : minute ∣ y) (hlt : x < y) : x + minute ≤ y := by
  obtain ⟨i, rfl⟩ := hx
  obtain ⟨j, rfl⟩ := hy
  have hij : i < j := lt_of_mul_lt_mul_left hlt minute_pos.le
  have hmul := Int.mul_le_mul_of_nonneg_left (show i + 1 ≤ j by omega) minute_pos.le
  rwa [Int.mul_add, Int.mul_one] at hmul

theorem Past.spaced {older newer : List Bar} (h : Past (older ++ newer) final) (hlt : final < x)
    (hbar : bar ∈ older) : bar.start + newer.length * minute < x := by
  induction newer generalizing older bar with
  | nil =>
    have hle := h.through bar (mem_append_left _ hbar)
    simp only [length_nil, Nat.cast_zero, zero_mul]
    omega
  | cons next newer ih =>
    have hsp : older ++ next :: newer = older ++ [next] ++ newer := by simp
    have hnx := ih (hsp ▸ h) (mem_append_right older (mem_singleton_self next))
    have hmem : next ∈ older ++ next :: newer := mem_append_right _ mem_cons_self
    have hbf := (pairwise_append.1 h.sorted).2.2 bar hbar next mem_cons_self
    have hstp := add_minute_le (h.aligned bar (mem_append_left _ hbar)) (h.aligned next hmem) hbf
    rw [length_cons, Nat.cast_succ, add_mul, one_mul]
    omega

theorem Past.old {history : List Bar} (h : Past history final) (hlt : final < x) {n : ℕ}
    (hbar : bar ∈ history.take (history.length - n)) : bar.start + n * minute < x := by
  have hsp := take_append_drop (history.length - n) history
  have hln : n < history.length := by
    by_contra hsh
    rw [Nat.sub_eq_zero_of_le (not_lt.1 hsh)] at hbar
    cases hbar
  have hsc := Past.spaced (hsp.symm ▸ h) hlt hbar
  rwa [length_drop, Nat.sub_sub_self hln.le] at hsc

theorem getLast?_rtake (l : List α) (n : ℕ) : (l.rtake (n + 1)).getLast? = l.getLast? := by
  induction l using reverseRecOn with
  | nil => rw [rtake_nil]
  | append_singleton => rw [rtake_concat_succ, getLast?_concat, getLast?_concat]

theorem rtake_rtake_succ (l : List α) (n : ℕ) : (l.rtake (n + 1)).rtake n = l.rtake n := by
  unfold rtake
  rw [drop_drop, length_drop]
  congr 1
  omega

structure Remembers (config : Config) (s r : SymbolState) : Prop where
  same : r = s.keeping r.gaps r.history
  gaps : GapsAgree (s.horizon config) s.gaps r.gaps
  history : s.history = r.history.rtake (config.medianWindow + 1)
  orderly : s.Orderly
  aligned : s.Aligned
  past : Past r.history s.finalThrough

namespace Remembers

theorem new (config : Config) : Remembers config {} {} where
  same := rfl
  gaps := ⟨[], [], [{}], rfl, rfl, List.Subset.refl _, List.forall_mem_nil _, .inr ⟨{}, rfl, rfl⟩⟩
  history := by rw [rtake_nil]
  orderly := orderly_new
  aligned := ⟨List.forall_mem_nil _, Int.dvd_zero _⟩
  past := ⟨List.Pairwise.nil, List.forall_mem_nil _, List.forall_mem_nil _⟩

variable {config : Config}

section

variable (h : Remembers config s r)

include h

theorem of_frame {s' r' : SymbolState} (hr : r' = s'.keeping r.gaps r.history)
    (hsame : s.SameGaps s') (hhs : s'.history = s.history) (hfinal : s'.finalThrough = s.finalThrough)
    (hor : s'.Orderly) (hal : s'.Aligned) : Remembers config s' r' := by
  subst hr
  refine ⟨rfl, ?_, hhs.trans h.history, hor, hal, hfinal ▸ h.past⟩
  have hhr : s'.horizon config = s.horizon config := by unfold horizon; rw [hfinal]
  rw [hhr, hsame.gaps]
  exact h.gaps

theorem onTrade (t : Streamrt.Trade) (arrival : ℕ) : Remembers config (s.onTrade t arrival).1 (r.onTrade t arrival).1 ∧
      (r.onTrade t arrival).2 = (s.onTrade t arrival).2 := by
  have hr := s.onTrade_keeping r.gaps r.history t arrival
  have hs := s.onTrade_keeping s.gaps s.history t arrival
  rw [← h.same] at hr
  obtain ⟨hsame, hfinal⟩ := s.onTrade_frame t arrival
  have hhs : (s.onTrade t arrival).1.history = s.history := congrArg (·.1.history) hs
  rw [hr]
  exact ⟨h.of_frame rfl hsame hhs hfinal (h.orderly.onTrade t arrival) (h.aligned.onTrade t arrival), rfl⟩

theorem fill {due : ℤ} (hdue : minute ∣ due) : Remembers config (s.fill due) (r.fill due) := by
  have hr := s.fill_keeping r.gaps r.history due
  have hs := s.fill_keeping s.gaps s.history due
  rw [← h.same] at hr
  obtain ⟨hor, hsame, hfinal⟩ := h.orderly.fill due
  have hhs : (s.fill due).history = s.history := congrArg (·.history) hs
  exact h.of_frame hr hsame hhs hfinal hor (h.aligned.fill hdue)

theorem onLifecycle : Remembers config (s.onLifecycle config l) (r.onLifecycle config l) := by
  have hr := onLifecycle_keeping config l s r.gaps r.history
  have hgp := agree_onLifecycle config r.history h.gaps l
  rw [← h.same] at hr hgp
  obtain ⟨hbr, hfinal, hhs⟩ := s.lifecycle_frame config l
  obtain ⟨-, -, hall⟩ := r.lifecycle_frame config l
  have hst : (s.onLifecycle config l).starts = s.starts := by rw [starts, hbr]; rfl
  have hhr : (s.onLifecycle config l).horizon config = s.horizon config := by unfold horizon; rw [hfinal]
  refine ⟨by rw [hall]; exact hr, hhr ▸ hgp, ?_, h.orderly.of_eq hst hfinal,
    ⟨hst ▸ h.aligned.bars, hfinal ▸ h.aligned.final⟩, ?_⟩
  · rw [hall, hhs]
    exact h.history
  · rw [hall, hfinal]
    exact h.past

end

end Remembers

section

variable {config : Config} {all : List Gap} {history joined : List Bar} {bar : Bar}

/-- The window and two minutes more fit a duration. -/
def Config.Fits (config : Config) : Prop := (config.medianWindow + 2 : ℤ) * minute ≤ maxDuration

theorem Config.Fits.horizon (h : config.Fits) :
    s.horizon config = s.finalThrough - (config.medianWindow + 2) * minute := by
  have hmin : minDuration = -maxDuration - 1 := by decide
  have hmax : 0 ≤ maxDuration := by decide
  have hpos : 0 ≤ (config.medianWindow + 2 : ℤ) * minute := Int.mul_nonneg (by omega) minute_pos.le
  unfold SymbolState.horizon
  unfold Config.Fits at h
  rw [Int.neg_mul, wrap_eq (by omega) (by omega), Int.sub_eq_add_neg]

theorem Config.Fits.earliest (h : config.Fits) :
    wrap (-(config.medianWindow : ℤ) * minute) = -(config.medianWindow * minute) := by
  have hmin : minDuration = -maxDuration - 1 := by decide
  have hmax : 0 ≤ maxDuration := by decide
  have hmn := minute_pos
  have hpos : 0 ≤ (config.medianWindow : ℤ) * minute := Int.mul_nonneg (by omega) minute_pos.le
  unfold Config.Fits at h
  rw [Int.add_mul] at h
  rw [Int.neg_mul, wrap_eq (by omega) (by omega)]

theorem window_keeping (hft : config.Fits) (h : GapsAgree bound s.gaps all)
    (hbn : bound ≤ bar.start - config.medianWindow * minute) (hps : Past history final) (hlt : final < bar.start) :
    (s.keeping all joined).window config history bar = s.window config (history.rtake config.medianWindow) bar := by
  unfold window
  dsimp only
  rw [hft.earliest]
  have hsp := take_append_drop (history.length - config.medianWindow) history
  have hnn : (history.take (history.length - config.medianWindow)).filter (fun b => decide
      (bar.start + -(config.medianWindow * minute) ≤ b.start) && (s.keeping all joined).complete b.start) = [] := by
    refine filter_eq_nil_iff.2 fun b hb hin => ?_
    have hold := hps.old hlt hb
    have hle := of_decide_eq_true (Bool.and_eq_true_iff.1 hin).1
    omega
  conv_lhs => rw [← hsp, filter_append, hnn, nil_append]
  refine congrArg (map Bar.turnover) (filter_congr fun b _ => ?_)
  by_cases hle : bar.start + -(config.medianWindow * minute) ≤ b.start
  · rw [complete_keeping h (by omega)]
  · rw [decide_eq_false hle, Bool.false_and, Bool.false_and]

theorem verdict_keeping (hft : config.Fits) (h : GapsAgree bound s.gaps all)
    (hbn : bound ≤ bar.start - config.medianWindow * minute - minute) (hps : Past history final)
    (hlt : final < bar.start) (prev : Bar) : (s.keeping all joined).verdict config history prev bar =
      s.verdict config (history.rtake config.medianWindow) prev bar := by
  have hmn := minute_pos
  have hpos : 0 ≤ (config.medianWindow : ℤ) * minute := Int.mul_nonneg (by omega) minute_pos.le
  unfold verdict
  rw [window_keeping hft h (by omega) hps hlt]
  by_cases hpr : prev.start ≠ bar.start - minute ∨ prev.close ≤ 0
  · rw [if_pos hpr, if_pos hpr]
  · rw [if_neg hpr, if_neg hpr, complete_keeping h (by omega), complete_keeping h (by omega)]
    rfl

theorem evaluate_keeping (hft : config.Fits) (hwn : 1 ≤ config.medianWindow) (joined : List Bar)
    (h : GapsAgree bound s.gaps all) (bar : Bar) (hbn : bound ≤ bar.start - config.medianWindow * minute - minute)
    (hps : Past history final) (hlt : final < bar.start) (symbol : String) (now : ℤ) (stats : Stats) :
    ∃ signal stats' lastFire,
      evaluate config symbol now stats s (history.rtake config.medianWindow) bar =
        (signal, stats', { s with lastFire }) ∧
      evaluate config symbol now stats (s.keeping all joined) history bar =
        (signal, stats', { s.keeping all joined with lastFire }) := by
  obtain ⟨n, hn⟩ := Nat.exists_eq_add_of_le' hwn
  have hlast : (history.rtake config.medianWindow).getLast? = history.getLast? := by rw [hn, getLast?_rtake]
  unfold evaluate
  rw [hlast]
  cases history.getLast? with
  | none => exact ⟨_, _, s.lastFire, rfl, rfl⟩
  | some prev =>
    dsimp only
    rw [verdict_keeping hft h hbn hps hlt prev]
    by_cases hem : bar.trades = 0
    · rw [if_pos hem, if_pos hem]
      exact ⟨_, _, s.lastFire, rfl, rfl⟩
    · rw [if_neg hem, if_neg hem]
      cases s.verdict config (history.rtake config.medianWindow) prev bar with
      | quiet | suppressed => exact ⟨_, _, s.lastFire, rfl, rfl⟩
      | fires => exact ⟨_, _, bar.start, rfl, rfl⟩

theorem carry_keeping (hlast : s.history.getLast? = history.getLast?) :
    (s.keeping all history).carry bar = s.carry bar := by
  unfold carry
  rw [hlast]
  rfl

theorem carry_start : (s.carry bar).start = bar.start := by
  unfold carry
  split
  · split <;> rfl
  · rfl

theorem Past.append (h : Past history final) (hal : minute ∣ bar.start) (hlt : final < bar.start) :
    Past (history ++ [bar]) bar.start := by
  refine ⟨pairwise_append.2 ⟨h.sorted, pairwise_singleton _ _, fun b hb b' hb' => ?_⟩, fun b hb => ?_, fun b hb => ?_⟩
  · rw [mem_singleton.1 hb']
    exact (h.through b hb).trans_lt hlt
  · obtain hb | hb := mem_append.1 hb
    · exact h.aligned b hb
    · exact mem_singleton.1 hb ▸ hal
  · obtain hb | hb := mem_append.1 hb
    · exact (h.through b hb).trans hlt.le
    · exact (congrArg Bar.start (mem_singleton.1 hb)).le

structure Agrees {α : Type} (config : Config) (x y : α × Stats × SymbolState) : Prop where
  out : x.1 = y.1
  stats : x.2.1 = y.2.1
  state : Remembers config x.2.2 y.2.2

theorem Remembers.admitBar (hft : config.Fits) (hwn : 1 ≤ config.medianWindow) (h : Remembers config s r)
    {rest : List Bar} (hbr : s.bars = bar :: rest) (symbol : String) (now : ℤ) (stats : Stats) :
    let x := admitBar config config.bounded symbol now stats
      { s with bars := rest, finalThrough := bar.start } { bar with ids := [] }
    let y := admitBar config .everything symbol now stats
      { r with bars := rest, finalThrough := bar.start } { bar with ids := [] }
    Agrees config x y ∧ x.2.2.bars = rest := by
  obtain ⟨all, history, rfl⟩ : ∃ all history, r = s.keeping all history := ⟨_, _, h.same⟩
  have hst : s.starts = bar.start :: rest.map Bar.start := by rw [starts, hbr]; rfl
  have hmem : bar.start ∈ s.starts := hst ▸ mem_cons_self
  have haf := h.orderly.after _ hmem
  have hps : Past history s.finalThrough := h.past
  set popped : SymbolState := { s with bars := rest, finalThrough := bar.start } with hpp
  set b : Bar := popped.carry { bar with ids := [] } with hb
  have hsr : b.start = bar.start := carry_start
  have hgp : GapsAgree (popped.horizon config) popped.gaps all :=
    h.gaps.mono (Int.add_le_add_right haf.le _)
  have hhr : popped.horizon config = bar.start - (config.medianWindow + 2) * minute := hft.horizon
  have hmn := minute_pos
  have hpos : 0 ≤ (config.medianWindow : ℤ) * minute := Int.mul_nonneg (by omega) minute_pos.le
  rw [Int.add_mul] at hhr
  have hcm : (popped.keeping all history).complete bar.start = popped.complete bar.start :=
    complete_keeping hgp (by omega)
  have hcr : (popped.keeping all history).carry { bar with ids := [] } = b := by
    refine carry_keeping ?_
    rw [← getLast?_rtake history config.medianWindow]
    exact congrArg getLast? h.history
  have htr : config.bounded.trim (popped.history ++ [b]) = history.rtake config.medianWindow ++ [b] := by
    have hkp : popped.history = history.rtake (config.medianWindow + 1) := h.history
    unfold Config.bounded
    dsimp only
    rw [hkp, rtake_concat_succ, rtake_rtake_succ]
  have hx : admitBar config config.bounded symbol now stats popped { bar with ids := [] } =
      evaluate config symbol now (stats.count { bar with ids := [] } (popped.complete bar.start))
        { popped with history := history.rtake config.medianWindow ++ [b] } (history.rtake config.medianWindow) b := by
    unfold admitBar
    dsimp only
    rw [← hb, htr, dropLast_concat]
  have hy : admitBar config .everything symbol now stats (popped.keeping all history) { bar with ids := [] } =
      evaluate config symbol now (stats.count { bar with ids := [] } (popped.complete bar.start))
        (popped.keeping all (history ++ [b])) history b := by
    unfold admitBar Memory.everything
    rw [hcr, hcm]
    change evaluate config symbol now _ (popped.keeping all (history ++ [b])) (history ++ [b]).dropLast b = _
    rw [dropLast_concat]
  have hkp : GapsAgree (popped.horizon config)
      ({ popped with history := history.rtake config.medianWindow ++ [b] } : SymbolState).gaps all := hgp
  obtain ⟨signal, stats', lastFire, hs, hr⟩ := evaluate_keeping hft hwn (history ++ [b]) hkp b (by omega) hps
    (hsr ▸ haf) symbol now (stats.count { bar with ids := [] } (popped.complete bar.start))
  intro x y
  have hx' : x = _ := hx.trans hs
  have hy' : y = _ := hy.trans hr
  rw [hx', hy']
  have hso := h.orderly.sorted
  rw [hst, pairwise_cons] at hso
  have htl : ∀ z ∈ rest.map Bar.start, z ∈ s.starts := fun z hz => hst ▸ mem_cons_of_mem _ hz
  have hjn : Past (history ++ [b]) bar.start := by
    rw [← hsr] at haf ⊢
    exact hps.append (hsr ▸ h.aligned.bars _ hmem) haf
  refine ⟨⟨rfl, rfl, rfl, hgp, (rtake_concat_succ ..).symm, ?_, ?_, hjn⟩, rfl⟩
  · exact ⟨hso.2, fun z hz => h.orderly.epoch z (htl z hz), hso.1, .inr (h.orderly.epoch _ hmem)⟩
  · exact ⟨fun z hz => h.aligned.bars z (htl z hz), h.aligned.bars _ hmem⟩

theorem Remembers.finalize (hft : config.Fits) (hwn : 1 ≤ config.medianWindow)
    (symbol : String) (now due : ℤ) {bars : List Bar} (h : Remembers config s r) (hbr : s.bars = bars) (stats : Stats) :
    Agrees config (SymbolState.finalize config config.bounded symbol now due bars stats s)
      (SymbolState.finalize config .everything symbol now due bars stats r) := by
  -- by induction on the bars that are not final: each step keeps the relation, whatever the counters are
  induction bars generalizing s r stats with
  | nil => exact ⟨rfl, rfl, h⟩
  | cons bar rest ih =>
    unfold SymbolState.finalize
    by_cases hdue : bar.start ≤ due
    · rw [if_pos hdue, if_pos hdue]
      obtain ⟨ham, hrs⟩ := h.admitBar hft hwn hbr symbol now stats
      have hnx := ih ham.state hrs (SymbolState.admitBar config config.bounded symbol now stats
        { s with bars := rest, finalThrough := bar.start } { bar with ids := [] }).2.1
      rw [ham.stats] at hnx
      dsimp only
      rw [ham.out, ham.stats]
      exact ⟨congrArg (_ ++ ·) hnx.out, hnx.stats, hnx.state⟩
    · rw [if_neg hdue, if_neg hdue]
      exact ⟨rfl, rfl, h⟩

theorem Remembers.prune (h : Remembers config s r) : Remembers config (s.pruneGaps config) r :=
  ⟨h.same, agree_pruneGaps h.gaps, h.history, h.orderly.of_eq rfl rfl, ⟨h.aligned.bars, h.aligned.final⟩,
    h.past⟩

theorem Remembers.tick (hft : config.Fits) (hwn : 1 ≤ config.medianWindow)
    (h : Remembers config s r) (symbol : String) (now : ℤ) (stats : Stats) :
    Agrees config (s.tick config config.bounded symbol now stats) (r.tick config .everything symbol now stats) := by
  have hdue : r.due config now = s.due config now := by
    rw [h.same]
    unfold due
    rw [gapOpen_keeping h.gaps]
    rfl
  have hfl : Remembers config (s.fill (s.due config now)) (r.fill (s.due config now)) :=
    h.fill (dvd_truncate _)
  have hbr : (r.fill (s.due config now)).bars = (s.fill (s.due config now)).bars := by
    rw [hfl.same]
    rfl
  have hfinal := hfl.finalize hft hwn symbol now (s.due config now) rfl stats
  unfold SymbolState.tick
  dsimp only
  rw [hdue, hbr]
  exact ⟨hfinal.out, hfinal.stats, hfinal.state.prune⟩

end

/-- The engine that forgets and the reference, symbol by symbol. -/
structure Engine.Recalls (config : Config) (e r : Engine) : Prop where
  mine : e.config = config
  reference : r.config = config
  keys : e.symbols.keys = r.symbols.keys
  arrival : e.arrival = r.arrival
  stats : e.stats = r.stats
  state : ∀ symbol, Remembers config (e.state symbol) (r.state symbol)

namespace Engine

variable {config : Config} {e r : Engine}

section

variable (h : Recalls config e r)

include h

theorem Recalls.set (symbol : String) {s' : SymbolState} (hs : Remembers config s s') :
    Recalls config (e.set symbol s) (r.set symbol s') := by
  refine ⟨h.mine, h.reference, ?_, h.arrival, h.stats, fun other => ?_⟩
  · unfold Engine.set
    rw [AList.keys_insert, AList.keys_insert, h.keys]
  · rw [state_set, state_set]
    split
    · exact hs
    · exact h.state other

theorem Recalls.counting {stats stats' : Stats} (hstats : stats = stats') {arrival arrival' : ℕ}
    (harrival : arrival = arrival') :
    Recalls config { e with stats, arrival } { r with stats := stats', arrival := arrival' } :=
  ⟨h.mine, h.reference, h.keys, harrival, hstats, h.state⟩

theorem Recalls.onLifecycle : Recalls config (e.onLifecycle l) (r.onLifecycle l) := by
  unfold Engine.onLifecycle
  generalize l.symbols = symbols
  induction symbols generalizing e r with
  | nil => exact h
  | cons symbol symbols ih =>
    have hnext := (h.state symbol).onLifecycle l
    rw [foldl_cons, foldl_cons, h.mine, h.reference]
    exact ih (h.set symbol hnext)

theorem Recalls.onTrade (t : Streamrt.Trade) : Recalls config (e.onTrade t) (r.onTrade t) := by
  obtain ⟨hstate, hadded⟩ := (h.state t.symbol).onTrade t (e.arrival + 1)
  have hset := h.set t.symbol hstate
  have hfinal : (r.state t.symbol).finalThrough = (e.state t.symbol).finalThrough := by
    rw [(h.state t.symbol).same]
    rfl
  have hplausible : r.config.plausibleTime t = e.config.plausibleTime t := by rw [h.mine, h.reference]
  unfold Engine.onTrade
  dsimp only
  rw [← h.stats, ← h.arrival, hadded, hfinal, hplausible]
  split
  · exact h.counting rfl rfl
  · split
    · exact h.counting rfl rfl
    · split
      · exact hset.counting rfl h.arrival
      · split
        · exact hset.counting rfl (congrArg (· + 1) h.arrival)
        · exact hset.counting rfl h.arrival

end

section

variable (hft : config.Fits) (hwn : 1 ≤ config.medianWindow) (h : Recalls config e r)

include hft hwn h

theorem Recalls.tick (now : ℤ) :
    (e.tickWith config.bounded now).1 = (r.tickWith .everything now).1 ∧
      Recalls config (e.tickWith config.bounded now).2 (r.tickWith .everything now).2 := by
  unfold tickWith
  rw [h.keys]
  generalize r.symbols.keys.insertionSort (· ≤ ·) = symbols
  generalize ([] : List Signal) = out
  induction symbols generalizing e r out with
  | nil => exact ⟨rfl, h⟩
  | cons symbol symbols ih =>
    have hsymbol := (h.state symbol).tick hft hwn symbol now e.stats
    rw [foldl_cons, foldl_cons]
    unfold tickNext
    dsimp only
    rw [← h.stats, h.mine, h.reference, ← hsymbol.out]
    exact ih ((h.set symbol hsymbol.state).counting hsymbol.stats h.arrival) _

theorem Recalls.input (x : Input) :
    (e.inputWith config.bounded x).1 = (r.inputWith .everything x).1 ∧
      Recalls config (e.inputWith config.bounded x).2 (r.inputWith .everything x).2 := by
  cases x with
  | tick now => exact h.tick hft hwn now
  | event event =>
    cases event with
    | lifecycle l => exact ⟨rfl, h.onLifecycle l⟩
    | trade t => exact ⟨rfl, h.onTrade t⟩

theorem Recalls.run (inputs : List Input) :
    (run config.bounded inputs e).1 = (run .everything inputs r).1 ∧
      Recalls config (run config.bounded inputs e).2 (run .everything inputs r).2 := by
  induction inputs generalizing e r with
  | nil => exact ⟨rfl, h⟩
  | cons x inputs ih =>
    obtain ⟨hsignals, hstep⟩ := h.input hft hwn x
    obtain ⟨hrest, hlast⟩ := ih hstep
    exact ⟨congrArg₂ cons hsignals hrest, hlast⟩

end

end Engine

/-- **The engine gives the signals and the counters of the reference**, call by call, when the window and two minutes
more fit a duration. -/
theorem pruning_unobservable (config : Config) (hwindow : 1 ≤ config.medianWindow) (hfits : config.Fits)
    (inputs : List Engine.Input) :
    (Engine.run config.bounded inputs { config }).1 = (Engine.run .everything inputs { config }).1 ∧
      (Engine.run config.bounded inputs { config }).2.stats = (Engine.run .everything inputs { config }).2.stats := by
  have hnew : Engine.Recalls config { config } { config } := ⟨rfl, rfl, rfl, rfl, rfl, fun _ => .new config⟩
  obtain ⟨hsignals, hlast⟩ := hnew.run hfits hwindow inputs
  exact ⟨hsignals, hlast.stats⟩

def lateStart : List Engine.Input :=
  [.event (.trade quietTrade),
    .event (.lifecycle (quietLifecycle .subscribed (noon + 90 * second) 0)),
    .tick (noon + 2 * minute),
    .event (.lifecycle (quietLifecycle .heartbeat (noon + 3 * minute) (noon + 3 * minute))),
    .tick (noon + 4 * minute)]

theorem lateStart_unobservable :
    1 ≤ hyp030.medianWindow ∧ Config.Fits hyp030 ∧
      (Engine.run (Config.bounded hyp030) lateStart { config := hyp030 }).2.stats =
        (Engine.run .everything lateStart { config := hyp030 }).2.stats := by
  have hfits : Config.Fits hyp030 := by unfold Config.Fits; decide
  exact ⟨by decide, hfits, (pruning_unobservable hyp030 (by decide) hfits lateStart).2⟩

/-- A window of 292 years: the minutes of the window fit a duration, the two minutes more do not. -/
def endless : Config := { hyp030.toConfig with medianWindow := 153722866 }

/-- The gap is forgotten with the first minute, and the second minute, which it reaches into, counts as complete. -/
theorem endless_window_forgets :
    1 ≤ endless.medianWindow ∧ wrap (-(endless.medianWindow + 2 : ℤ) * minute) = 9223371993709551616 ∧
      (Engine.run endless.bounded lateStart { config := endless }).2.stats.incompleteBars = 1 ∧
      (Engine.run .everything lateStart { config := endless }).2.stats.incompleteBars = 2 := by
  decide +kernel

end Schurfer.Burst
