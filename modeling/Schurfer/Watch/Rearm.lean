import Schurfer.Watch.Worker

/-!
# Cooldown and re-arming of the persisted watches

`Replay`: the evaluations of a symbol are made one after another, each in the state the one before left. The stored
evaluations are one as long as the worker's memory holds the stored states, which a lost acknowledgement breaks until
the process starts again.
-/

namespace Schurfer.Watch

open List EvaluationWrite Dict Store SymbolWatchState Worker

variable {contract : WatchContract} {es : List WatchEvaluation} {writes : List EvaluationWrite}
  {s s' : SymbolWatchState} {b : ℤ} {store' store : Store} {w : Worker} {states : States} {e : WatchEvaluation}
  {due : List ℤ} {load : Load}

inductive Replay (contract : WatchContract) : List WatchEvaluation → SymbolWatchState → Prop
  | nil : Replay contract [] {}
  | snoc {es : List WatchEvaluation} {e : WatchEvaluation} {s s' : SymbolWatchState} (hes : Replay contract es s)
      (hlater : ∀ e' ∈ es, e'.bucketStart < e.bucketStart) (hdecides : Decides contract s e s') :
      Replay contract (es ++ [e]) s'

variable (es)

def clearsAfter (lo : ℤ) : ℕ := es.countP fun e => lo < e.bucketStart ∧ e.isClear

def clearsBetween (lo hi : ℤ) : ℕ :=
  es.countP fun e => lo < e.bucketStart ∧ e.bucketStart < hi ∧ e.isClear

/-- The watches keep the cooldown, and before each one enough clear minutes follow every qualified one. -/
structure Spaced (contract : WatchContract) (es : List WatchEvaluation) : Prop where
  cooldown : ∀ w ∈ es, ∀ w' ∈ es, w.decisionStatus = .watch → w'.decisionStatus = .watch →
    w'.bucketStart < w.bucketStart → contract.watchCooldownMinutes * minute ≤ w.bucketStart - w'.bucketStart
  rearm : ∀ w ∈ es, ∀ q ∈ es, w.decisionStatus = .watch → q.rawQualified = true → q.bucketStart < w.bucketStart →
    contract.rearmClearMinutes ≤ clearsBetween es q.bucketStart w.bucketStart

structure Knows (contract : WatchContract) (es : List WatchEvaluation) (s : SymbolWatchState) : Prop where
  lastWatch : ∀ w ∈ es, w.decisionStatus = .watch → ∃ t, s.lastWatchAt = some t ∧ w.bucketStart ≤ t
  inactive : s.activeEpisode = false → ∀ q ∈ es, q.rawQualified = true →
    contract.rearmClearMinutes ≤ clearsAfter es q.bucketStart
  active : s.activeEpisode = true → ∀ q ∈ es, q.rawQualified = true → s.clearStreak ≤ clearsAfter es q.bucketStart

theorem clearsAfter_snoc (e : WatchEvaluation) (lo : ℤ) :
    clearsAfter (es ++ [e]) lo = clearsAfter es lo + if lo < e.bucketStart ∧ e.isClear then 1 else 0 := by
  simp [clearsAfter, countP_append, countP_singleton]

theorem le_clearsAfter_snoc (e : WatchEvaluation) (lo : ℤ) : clearsAfter es lo ≤ clearsAfter (es ++ [e]) lo := by
  rw [clearsAfter_snoc]
  omega

variable {es}

theorem Knows.of_snoc
    (hwatch : ∀ w ∈ es ++ [e], w.decisionStatus = .watch → ∃ t, s.lastWatchAt = some t ∧ w.bucketStart ≤ t)
    (hactive : s.activeEpisode = true) (hstreak : s.clearStreak = 0) : Knows contract (es ++ [e]) s where
  lastWatch := hwatch
  inactive h := absurd (hactive.symm.trans h) Bool.noConfusion
  active _ _ _ _ := by
    rw [hstreak]
    exact Nat.zero_le _

theorem Knows.lastWatch_snoc
    (h : Knows contract es s) (hlast : s'.lastWatchAt = s.lastWatchAt) (hne : e.decisionStatus ≠ .watch) :
    ∀ w ∈ es ++ [e], w.decisionStatus = .watch → ∃ t, s'.lastWatchAt = some t ∧ w.bucketStart ≤ t := by
  intro w hw hwatch
  rw [hlast]
  rcases mem_append.1 hw with hw | hw
  · exact h.lastWatch w hw hwatch
  · rw [mem_singleton.1 hw] at hwatch
    exact absurd hwatch hne

theorem Knows.snoc (h : Knows contract es s) (hlater : ∀ e' ∈ es, e'.bucketStart < e.bucketStart)
    (hdecides : Decides contract s e s') : Knows contract (es ++ [e]) s' := by
  cases hdecides with
  | unjudged hraw hwatch =>
    refine ⟨h.lastWatch_snoc rfl hwatch, fun hs q hq hqr => ?_, fun hs q hq hqr => ?_⟩
    · rcases mem_append.1 hq with hq | hq
      · exact (h.inactive hs q hq hqr).trans (le_clearsAfter_snoc es e _)
      · rw [mem_singleton.1 hq, hraw] at hqr
        cases hqr
    · rcases mem_append.1 hq with hq | hq
      · exact (h.active hs q hq hqr).trans (le_clearsAfter_snoc es e _)
      · rw [mem_singleton.1 hq, hraw] at hqr
        cases hqr
  | clear hraw hwatch hclear =>
    -- the new minute counts for every qualified one, as all are before it
    have hone : ∀ q ∈ es, clearsAfter (es ++ [e]) q.bucketStart = clearsAfter es q.bucketStart + 1 := by
      intro q hq
      rw [clearsAfter_snoc, if_pos ⟨hlater q hq, hclear⟩]
    have hold : ∀ q ∈ es ++ [e], q.rawQualified = true → q ∈ es := by
      intro q hq hqr
      rcases mem_append.1 hq with hq | hq
      · exact hq
      · rw [mem_singleton.1 hq, hraw] at hqr
        cases hqr
    have hlast : (s.clear contract).lastWatchAt = s.lastWatchAt := by
      unfold clear
      split_ifs <;> rfl
    refine ⟨h.lastWatch_snoc hlast hwatch, fun hs q hq hqr => ?_, fun hs q hq hqr => ?_⟩
    · rw [hone q (hold q hq hqr)]
      by_cases hactive : s.activeEpisode = true
      · have hstreak := h.active hactive q (hold q hq hqr) hqr
        unfold clear at hs
        rw [if_neg (not_not.2 hactive)] at hs
        split_ifs at hs with hdn
        · exact hdn.trans (Nat.succ_le_succ hstreak)
        · exact absurd (hactive.symm.trans hs) Bool.noConfusion
      · exact (h.inactive (Bool.eq_false_iff.2 hactive) q (hold q hq hqr) hqr).trans (Nat.le_succ _)
    · rw [hone q (hold q hq hqr)]
      unfold clear at hs ⊢
      by_cases hactive : s.activeEpisode = true
      · have hstreak := h.active hactive q (hold q hq hqr) hqr
        rw [if_neg (not_not.2 hactive)]
        split_ifs
        · exact Nat.zero_le _
        · exact Nat.succ_le_succ hstreak
      · rw [if_pos hactive]
        exact Nat.zero_le _
  | suppressed hwatch hactive hstreak hlast => exact .of_snoc (h.lastWatch_snoc hlast hwatch) hactive hstreak
  | watch _ _ hactive hstreak hlast =>
    refine .of_snoc (fun w hw _ => ⟨e.bucketStart, hlast, ?_⟩) hactive hstreak
    rcases mem_append.1 hw with hw | hw
    · exact (hlater w hw).le
    · rw [mem_singleton.1 hw]

theorem Replay.knows (h : Replay contract es s) : Knows contract es s := by
  induction h with
  | nil => exact ⟨by simp, by simp, by simp⟩
  | snoc _ hlater hdecides ih => exact ih.snoc hlater hdecides

theorem Knows.watch (h : Knows contract es s) (hinactive : s.activeEpisode = false)
    (hcool : s.coolsDown contract e.bucketStart = false) :
    (∀ w ∈ es, w.decisionStatus = .watch → contract.watchCooldownMinutes * minute ≤ e.bucketStart - w.bucketStart) ∧
    ∀ q ∈ es, q.rawQualified = true → contract.rearmClearMinutes ≤ clearsAfter es q.bucketStart := by
  refine ⟨fun w hw hwatch => ?_, h.inactive hinactive⟩
  obtain ⟨t, ht, hle⟩ := h.lastWatch w hw hwatch
  unfold coolsDown at hcool
  rw [ht] at hcool
  have hgap : ¬ e.bucketStart - t < contract.watchCooldownMinutes * minute := of_decide_eq_false hcool
  omega

theorem clearsBetween_eq_clearsAfter {lo hi : ℤ}
    (h : ∀ e ∈ es, e.bucketStart < hi) : clearsBetween es lo hi = clearsAfter es lo := by
  refine countP_congr fun e he => ?_
  simp [h e he]

theorem le_clearsBetween_snoc (es : List WatchEvaluation) (e : WatchEvaluation) (lo hi : ℤ) :
    clearsBetween es lo hi ≤ clearsBetween (es ++ [e]) lo hi := by
  unfold clearsBetween
  rw [countP_append]
  exact Nat.le_add_right _ _

theorem Replay.spaced (h : Replay contract es s) : Spaced contract es := by
  induction h with
  | nil => exact ⟨by simp, by simp⟩
  | @snoc es e s s' hes hlater hdecides ih =>
    have hnew : e.decisionStatus = .watch → (∀ w ∈ es, w.decisionStatus = .watch →
        contract.watchCooldownMinutes * minute ≤ e.bucketStart - w.bucketStart) ∧
        ∀ q ∈ es, q.rawQualified = true → contract.rearmClearMinutes ≤ clearsAfter es q.bucketStart := by
      intro hwatch
      cases hdecides with
      | unjudged _ hne => exact absurd hwatch hne
      | clear _ hne _ => exact absurd hwatch hne
      | suppressed hne _ _ _ => exact absurd hwatch hne
      | watch hinactive hcool _ _ _ => exact hes.knows.watch hinactive hcool
    refine ⟨fun w hw w' hw' hwatch hwatch' hlt => ?_, fun w hw q hq hwatch hraw hlt => ?_⟩
    · rcases mem_append.1 hw with hold | hlast <;> rcases mem_append.1 hw' with hold' | hlast'
      · exact ih.cooldown w hold w' hold' hwatch hwatch' hlt
      · -- the last evaluation is before no other
        rw [mem_singleton.1 hlast'] at hlt
        exact absurd (hlater w hold) (not_lt.2 hlt.le)
      · obtain rfl := mem_singleton.1 hlast
        exact (hnew hwatch).1 w' hold' hwatch'
      · rw [mem_singleton.1 hlast, mem_singleton.1 hlast'] at hlt
        exact absurd hlt (lt_irrefl _)
    · rcases mem_append.1 hw with hold | hlast <;> rcases mem_append.1 hq with hold' | hlast'
      · exact (ih.rearm w hold q hold' hwatch hraw hlt).trans (le_clearsBetween_snoc es e _ _)
      · rw [mem_singleton.1 hlast'] at hlt
        exact absurd (hlater w hold) (not_lt.2 hlt.le)
      · obtain rfl := mem_singleton.1 hlast
        have hcl := (hnew hwatch).2 q hold' hraw
        rw [← clearsBetween_eq_clearsAfter hlater] at hcl
        exact hcl.trans (le_clearsBetween_snoc es w _ _)
      · rw [mem_singleton.1 hlast, mem_singleton.1 hlast'] at hlt
        exact absurd hlt (lt_irrefl _)

def Store.evaluationsOf (store : Store) (symbol : String) : List WatchEvaluation :=
  (store.evaluations.filter (·.symbol = symbol)).map EvaluationRow.evaluation

structure Store.Kept (contract : WatchContract) (store : Store) : Prop where
  replay : ∀ symbol, Replay contract (store.evaluationsOf symbol) (store.stateOf symbol)
  evaluations : ∀ r ∈ store.evaluations, ∃ last, store.lastBucketStart = some last ∧ r.bucketStart ≤ last
  states : ∀ symbol row, store.states.lookup symbol = some row →
    ∃ last, store.lastBucketStart = some last ∧ row.lastBucketStart ≤ last

/-- The worker's memory holds the stored states. -/
def Current (states : States) (store : Store) : Prop := ∀ symbol, stateOf states symbol = store.stateOf symbol

def Store.Before (store : Store) (bucketStart : ℤ) : Prop :=
  ∀ last, store.lastBucketStart = some last → last < bucketStart

theorem evaluateBucket_writes (h : evaluateBucket contract b load states = .ok writes) :
    ∀ w ∈ writes, w.evaluation.bucketStart = b ∧ Decides contract (stateOf states w.symbol) w.evaluation w.stateAfter ∧
      w.stateChanged = decide (w.stateAfter ≠ stateOf states w.symbol) := by
  obtain ⟨evaluated, hmap, hwr⟩ := Except.bind_ok.1 h
  obtain rfl := Except.pure_ok.1 hwr
  intro w hw
  obtain ⟨⟨e, after⟩, he, rfl⟩ := mem_map.1 hw
  obtain ⟨row, hrow, hdc⟩ := (Except.mapM_mem hmap).1 _ he
  obtain ⟨loaded, -, rfl⟩ := mem_map.1 hrow
  obtain ⟨hsy, hbu, hdecides⟩ := evaluatePrepared_cases hdc
  refine ⟨hbu, ?_, rfl⟩
  rw [← hsy] at hdecides
  exact hdecides

theorem foldl_insertEvaluation {table rows : List EvaluationRow}
    (hnew : ∀ r ∈ table, ∀ r' ∈ rows, r.bucketStart ≠ r'.bucketStart) (hnd : (rows.map EvaluationRow.symbol).Nodup) :
    rows.foldl insertEvaluation table = table ++ rows := by
  -- a row is appended if none of the table has its key; the rows before it have other symbols
  have hfo : ∀ (rows table : List EvaluationRow), (rows.map EvaluationRow.symbol).Nodup →
      (∀ r ∈ table, ∀ r' ∈ rows, ¬ (r.symbol = r'.symbol ∧ r.bucketStart = r'.bucketStart)) →
      rows.foldl insertEvaluation table = table ++ rows := by
    intro rows
    induction rows with
    | nil => exact fun table _ _ => (append_nil table).symm
    | cons row rows ih =>
      intro table hnd hfree
      obtain ⟨hrow, hnd⟩ := nodup_cons.1 hnd
      have hin : insertEvaluation table row = table ++ [row] :=
        if_neg fun ⟨r, hr, hkey⟩ => hfree r hr row mem_cons_self hkey
      rw [foldl_cons, hin, ih _ hnd, append_assoc, singleton_append]
      intro r hr r' hr' hkey
      rcases mem_append.1 hr with hr | hr
      · exact hfree r hr r' (mem_cons_of_mem _ hr') hkey
      · rw [mem_singleton.1 hr] at hkey
        exact hrow (hkey.1 ▸ mem_map_of_mem hr')
  exact hfo rows table hnd fun r hr r' hr' hkey => hnew r hr r' hr' hkey.2

theorem foldl_upsertState {states : Dict String StateRow} (hb : ∀ w ∈ writes, w.evaluation.bucketStart = b)
    (hst : ∀ symbol row, states.lookup symbol = some row → row.lastBucketStart ≤ b) : writes.foldl upsertState states =
      Dict.update symbol (fun w => ⟨w.stateAfter, b⟩) states writes := by
  unfold update
  induction writes generalizing states with
  | nil => rfl
  | cons w writes ih =>
    have hup : upsertState states w = AList.insert w.symbol ⟨w.stateAfter, b⟩ states := by
      unfold upsertState
      rw [hb w mem_cons_self]
      split
      · rename_i old hold
        rw [if_pos (hst w.symbol old hold)]
      · rfl
    rw [foldl_cons, foldl_cons, hup]
    refine ih (fun w' hw' => hb w' (mem_cons_of_mem _ hw')) fun symbol row hrow => ?_
    rw [lookup_insert_eq] at hrow
    split at hrow
    · rw [← Option.some.inj hrow]
    · exact hst symbol row hrow

theorem persistBucket_ok
    (hb : ∀ w ∈ writes, w.evaluation.bucketStart = b) (h : persistBucket store writes = .ok store') :
    (writes = [] ∧ store' = store) ∨ (writes.map symbol).Nodup ∧
      store' = { run := store.run.map fun run => run.advance b
                 evaluations := (writes.map row).foldl insertEvaluation store.evaluations
                 states := (writes.filter stateChanged).foldl upsertState store.states } := by
  cases writes with
  | nil => exact .inl ⟨rfl, (Except.ok.inj h).symm⟩
  | cons first rest =>
    unfold persistBucket at h
    simp only at h
    split at h
    · cases h
    · rename_i hnd
      split at h
      · cases h
      split at h
      · cases h
      rw [hb first mem_cons_self] at h
      exact .inr ⟨not_not.1 hnd, (Except.ok.inj h).symm⟩

structure Committed (b : ℤ) (writes : List EvaluationWrite) (store store' : Store) : Prop where
  nodup : (writes.map EvaluationWrite.symbol).Nodup
  run : ∃ run, store'.run = some run ∧ run.lastBucketStart = some b
  evaluations : store'.evaluations = store.evaluations ++ writes.map EvaluationWrite.row
  states : store'.states = Dict.update EvaluationWrite.symbol (fun w => ⟨w.stateAfter, b⟩) store.states
    (writes.filter EvaluationWrite.stateChanged)

theorem persistBucket_committed (hkp : store.Kept contract) (hrun : store.run ≠ none) (hbf : store.Before b)
    (hb : ∀ w ∈ writes, w.evaluation.bucketStart = b) (h : persistBucket store writes = .ok store') :
    (writes = [] ∧ store' = store) ∨ Committed b writes store store' := by
  rcases persistBucket_ok hb h with hnn | ⟨hnd, rfl⟩
  · exact .inl hnn
  obtain ⟨run, hrun⟩ := Option.ne_none_iff_exists'.1 hrun
  have hle : ∀ last, store.lastBucketStart = some last → last ≤ b := fun last hlast => (hbf last hlast).le
  refine .inr ⟨hnd, ⟨run.advance b, by rw [hrun]; rfl, ?_⟩, ?_, ?_⟩
  · have hmax : max (run.lastBucketStart.getD b) b = b := by
      cases hold : run.lastBucketStart with
      | none => exact max_self b
      | some last => exact max_eq_right (hle last (by rw [lastBucketStart, hrun]; exact hold))
    exact congrArg some hmax
  · refine foldl_insertEvaluation (fun r hr r' hr' heq => ?_) (by rw [map_map]; exact hnd)
    obtain ⟨w, hw, rfl⟩ := mem_map.1 hr'
    obtain ⟨last, hlast, hrle⟩ := hkp.evaluations r hr
    have hbu : w.row.bucketStart = b := hb w hw
    rw [heq, hbu] at hrle
    exact absurd (hbf last hlast) (not_lt.2 hrle)
  · refine foldl_upsertState (fun w hw => hb w (mem_of_mem_filter hw)) fun symbol row hrow => ?_
    obtain ⟨last, hlast, hrle⟩ := hkp.states symbol row hrow
    exact hrle.trans (hle last hlast)

theorem Committed.lastBucketStart (h : Committed b writes store store') : store'.lastBucketStart = some b := by
  obtain ⟨run, hrun, hlast⟩ := h.run
  rw [Store.lastBucketStart, hrun]
  exact hlast

theorem Store.evaluationsOf_append (h : store'.evaluations = store.evaluations ++ writes.map row)
    (symbol : String) : store'.evaluationsOf symbol =
      store.evaluationsOf symbol ++ (writes.filter (·.symbol = symbol)).map evaluation := by
  unfold evaluationsOf
  rw [h, filter_append, map_append, filter_map, map_map]
  rfl

section

variable (h : Committed b writes store store')

include h

theorem Committed.written (hcr : Current states store)
    (hcn : ∀ w ∈ writes, w.stateChanged = decide (w.stateAfter ≠ stateOf states w.symbol))
    {w : EvaluationWrite} (hw : w ∈ writes) :
    store'.evaluationsOf w.symbol = store.evaluationsOf w.symbol ++ [w.evaluation] ∧
      store'.stateOf w.symbol = w.stateAfter := by
  refine ⟨?_, ?_⟩
  · rw [evaluationsOf_append h.evaluations, filter_key_eq h.nodup hw]
    rfl
  · unfold Store.stateOf
    rw [h.states]
    have hfl : ((writes.filter stateChanged).map symbol).Nodup :=
      h.nodup.sublist (filter_sublist.map _)
    by_cases hch : w.stateChanged = true
    · rw [lookup_update_of_mem hfl (mem_filter.2 ⟨hw, hch⟩)]
      rfl
    · -- an unchanged state is the one that is stored
      have hot : ∀ w' ∈ writes.filter stateChanged, w'.symbol ≠ w.symbol := by
        intro w' hw' heq
        obtain ⟨hw', hch'⟩ := mem_filter.1 hw'
        obtain rfl := inj_on_of_nodup_map h.nodup hw' hw heq
        exact hch hch'
      rw [lookup_update_of_not_mem hot]
      have hsame : w.stateAfter = stateOf states w.symbol := by
        by_contra hne
        rw [hcn w hw, decide_eq_true hne] at hch
        exact hch rfl
      rw [hsame, hcr w.symbol]
      rfl

theorem Committed.unwritten {symbol : String} (hnot : ∀ w ∈ writes, w.symbol ≠ symbol) :
    store'.evaluationsOf symbol = store.evaluationsOf symbol ∧ store'.stateOf symbol = store.stateOf symbol := by
  refine ⟨?_, ?_⟩
  · have hnn : writes.filter (·.symbol = symbol) = [] :=
      filter_eq_nil_iff.2 fun w hw => by simpa using hnot w hw
    rw [evaluationsOf_append h.evaluations, hnn]
    exact append_nil _
  · unfold Store.stateOf
    rw [h.states, lookup_update_of_not_mem fun w hw => hnot w (mem_of_mem_filter hw)]

theorem Committed.current (hcr : Current states store)
    (hcn : ∀ w ∈ writes, w.stateChanged = decide (w.stateAfter ≠ stateOf states w.symbol)) :
    Current (Dict.update symbol stateAfter states writes) store' := by
  intro symbol
  by_cases hmem : ∃ w ∈ writes, w.symbol = symbol
  · obtain ⟨w, hw, rfl⟩ := hmem
    rw [(h.written hcr hcn hw).2, stateOf, lookup_update_of_mem h.nodup hw]
    rfl
  · have hnot : ∀ w ∈ writes, w.symbol ≠ symbol := fun w hw heq => hmem ⟨w, hw, heq⟩
    rw [(h.unwritten hnot).2, stateOf, lookup_update_of_not_mem hnot]
    exact hcr symbol

theorem Committed.kept (hkp : store.Kept contract) (hcr : Current states store) (hbf : store.Before b)
    (hwr : ∀ w ∈ writes, w.evaluation.bucketStart = b ∧
      Decides contract (Watch.stateOf states w.symbol) w.evaluation w.stateAfter ∧
      w.stateChanged = decide (w.stateAfter ≠ Watch.stateOf states w.symbol)) : store'.Kept contract where
  replay symbol := by
    by_cases hmem : ∃ w ∈ writes, w.symbol = symbol
    · obtain ⟨w, hw, rfl⟩ := hmem
      obtain ⟨hel, hstt⟩ := h.written hcr (fun w hw => (hwr w hw).2.2) hw
      obtain ⟨hb, hdecides, -⟩ := hwr w hw
      rw [hel, hstt]
      refine .snoc (hkp.replay w.symbol) (fun e he => ?_) (by rwa [hcr w.symbol] at hdecides)
      obtain ⟨r, hr, rfl⟩ := mem_map.1 he
      obtain ⟨last, hlast, hle⟩ := hkp.evaluations r (mem_of_mem_filter hr)
      rw [hb]
      exact lt_of_le_of_lt hle (hbf last hlast)
    · have hnot : ∀ w ∈ writes, w.symbol ≠ symbol := fun w hw heq => hmem ⟨w, hw, heq⟩
      obtain ⟨hel, hstt⟩ := h.unwritten hnot
      rw [hel, hstt]
      exact hkp.replay symbol
  evaluations r hr := by
    refine ⟨b, h.lastBucketStart, ?_⟩
    rw [h.evaluations] at hr
    rcases mem_append.1 hr with hr | hr
    · obtain ⟨last, hlast, hle⟩ := hkp.evaluations r hr
      exact hle.trans (hbf last hlast).le
    · obtain ⟨w, hw, rfl⟩ := mem_map.1 hr
      exact (hwr w hw).1.le
  states symbol row hrow := by
    refine ⟨b, h.lastBucketStart, ?_⟩
    rw [h.states, lookup_update] at hrow
    rcases Option.or_eq_some_iff.1 hrow with hnew | ⟨-, hold⟩
    · obtain ⟨w, -, rfl⟩ := Option.map_eq_some_iff.1 hnew
      exact le_refl b
    · obtain ⟨last, hlast, hle⟩ := hkp.states symbol row hold
      exact hle.trans (hbf last hlast).le

end

theorem persistBucket_kept (hkp : store.Kept contract) (hcr : Current states store) (hrun : store.run ≠ none)
    (hbf : store.Before b) (hevl : evaluateBucket contract b load states = .ok writes)
    (hpr : persistBucket store writes = .ok store') : store'.Kept contract ∧
      Current (Dict.update symbol stateAfter states writes) store' ∧
      store'.run ≠ none ∧ ∀ b', b < b' → store'.Before b' := by
  have hwr := evaluateBucket_writes hevl
  rcases persistBucket_committed hkp hrun hbf (fun w hw => (hwr w hw).1) hpr with ⟨rfl, rfl⟩ | hdn
  · exact ⟨hkp, hcr, hrun, fun b' hb' last hlast => (hbf last hlast).trans hb'⟩
  · refine ⟨hdn.kept hkp hcr hbf hwr, hdn.current hcr fun w hw => (hwr w hw).2.2, ?_, ?_⟩
    · obtain ⟨run, hsm, -⟩ := hdn.run
      rw [hsm]
      exact Option.some_ne_none run
    · intro b' hb' last hlast
      rw [hdn.lastBucketStart] at hlast
      rwa [← Option.some.inj hlast]

theorem evaluateBuckets_kept (load : ℤ → Option Load) (hkp : store.Kept contract) (hcr : Current states store)
    (hrun : store.run ≠ none) (hdue : ∀ b ∈ due, store.Before b) (hsr : due.Pairwise (· < ·)) :
    (evaluateBuckets contract load due store states).1.Kept contract ∧
      (evaluateBuckets contract load due store states).1.run ≠ none ∧
      ((evaluateBuckets contract load due store states).2.2 = some .unacknowledged ∨
        Current (evaluateBuckets contract load due store states).2.1
          (evaluateBuckets contract load due store states).1) := by
  induction due generalizing store states with
  | nil => exact ⟨hkp, hrun, .inr hcr⟩
  | cons b due ih =>
    obtain ⟨hfr, hrs⟩ := pairwise_cons.1 hsr
    have hsk : ∀ b' ∈ due, store.Before b' := fun b' hb' => hdue b' (mem_cons_of_mem b hb')
    unfold evaluateBuckets
    split
    · exact ih hkp hcr hrun hsk hrs
    · split
      · exact ⟨hkp, hrun, .inr hcr⟩
      · rename_i writes hevl
        split
        · exact ⟨hkp, hrun, .inr hcr⟩
        · rename_i committed hpr
          obtain ⟨hkp', hcr', hrun', hbf'⟩ :=
            persistBucket_kept hkp hcr hrun (hdue b mem_cons_self) hevl hpr
          split
          · exact ⟨hkp, hrun, .inr hcr⟩
          · exact ⟨hkp', hrun', .inl rfl⟩
          · exact ih hkp' hcr' hrun' (fun b' hb' => hbf' b' (hfr b' hb')) hrs

theorem pairwise_lt_insertionSort_dedup (l : List ℤ) : (l.dedup.insertionSort (· ≤ ·)).Pairwise (· < ·) := by
  have hnd : (l.dedup.insertionSort (· ≤ ·)).Nodup := (perm_insertionSort _ _).nodup_iff.2 l.nodup_dedup
  exact (pairwise_insertionSort (· ≤ ·) l.dedup).imp₂ (fun _ _ hle hne => lt_of_le_of_ne hle hne) hnd

theorem dueBuckets_sorted (contract : WatchContract) (batchSize : ℕ) (store : Store) (cohortStartedAt : ℤ)
    (captured : List ℤ) (now : ℤ) :
    (∀ b ∈ dueBuckets contract batchSize store cohortStartedAt captured now, store.Before b) ∧
      (dueBuckets contract batchSize store cohortStartedAt captured now).Pairwise (· < ·) := by
  refine ⟨fun b hb last hlast => ?_, ?_⟩
  · have hmem := mem_dedup.1 ((perm_insertionSort _ _).mem_iff.1 (mem_of_mem_take hb))
    have hlw := (of_decide_eq_true (mem_filter.1 hmem).2).1
    rw [hlast] at hlw
    have hle := (le_max_right _ _).trans hlw
    unfold minute at hle
    omega
  · refine List.Pairwise.sublist (take_sublist _ _) ?_
    exact pairwise_lt_insertionSort_dedup _

theorem start_current (store : Store) :
    Current (Dict.ofRows Sigma.fst (fun row => row.2.state) store.states.entries) store := by
  intro symbol
  have hlk : (ofRows Sigma.fst (fun row => row.2.state) store.states.entries).lookup symbol =
      (store.states.lookup symbol).map StateRow.state := by
    cases hrow : store.states.lookup symbol with
    | some row =>
      exact lookup_update_of_mem (d := ∅) store.states.nodupKeys (AList.mem_lookup_iff.1 hrow)
    | none =>
      refine lookup_update_of_not_mem (d := ∅) fun entry hen hkey => ?_
      have hfn := AList.mem_lookup_iff.2 hen
      rw [hkey, hrow] at hfn
      cases hfn
  rw [stateOf, hlk]
  rfl

section

variable (contract) (batchSize : ℕ)

/-- No tick follows one that lost an acknowledgement (`lost`) before the process has started again. -/
def RestartsAfterLoss : (lost : Bool) → Worker → List Step → Prop
  | _, _, [] => True
  | _, w, .start now :: steps => RestartsAfterLoss false (start w now) steps
  | lost, w, .tick t :: steps => lost = false ∧
      RestartsAfterLoss ((tick contract batchSize w t).2 = some .unacknowledged) (tick contract batchSize w t).1 steps

instance RestartsAfterLoss.decidable : ∀ (lost : Bool) (w : Worker) (steps : List Step),
    Decidable (RestartsAfterLoss contract batchSize lost w steps)
  | _, _, [] => .isTrue trivial
  | _, w, .start now :: steps => RestartsAfterLoss.decidable false (start w now) steps
  | _, w, .tick t :: steps =>
    have := RestartsAfterLoss.decidable ((tick contract batchSize w t).2 = some .unacknowledged)
      (tick contract batchSize w t).1 steps
    inferInstanceAs (Decidable (_ ∧ _))

variable {contract batchSize} {steps : List Step} {lost : Bool}

structure Worker.Kept (contract : WatchContract) (lost : Bool) (w : Worker) : Prop where
  store : w.store.Kept contract
  memory : ∀ m, w.memory = some m → w.store.run ≠ none ∧ (lost = false → Current m.states w.store)

theorem Worker.init_kept (lost : Bool) : init.Kept contract lost where
  store := ⟨fun _ => .nil, fun _ hr => absurd hr not_mem_nil, nofun⟩
  memory _ h := by cases h

theorem start_kept (h : w.store.Kept contract) (now : ℤ) : (start w now).Kept contract false := by
  have hlast : ∀ last, w.store.lastBucketStart = some last → (start w now).store.lastBucketStart = some last := by
    intro last hlast
    obtain ⟨run, hrun, hrn⟩ := Option.bind_eq_some_iff.1 hlast
    simp only [start, hrun, Option.getD_some]
    exact hrn
  refine ⟨⟨h.replay, fun r hr => ?_, fun symbol row hrow => ?_⟩, fun m hm => ⟨Option.some_ne_none _, fun _ => ?_⟩⟩
  · obtain ⟨last, hold, hle⟩ := h.evaluations r hr
    exact ⟨last, hlast last hold, hle⟩
  · obtain ⟨last, hold, hle⟩ := h.states symbol row hrow
    exact ⟨last, hlast last hold, hle⟩
  · rw [← Option.some.inj hm]
    exact start_current w.store

theorem tick_kept (h : w.Kept contract false) (t : Tick) :
    (tick contract batchSize w t).1.Kept contract ((tick contract batchSize w t).2 = some .unacknowledged) := by
  unfold tick
  split
  · rename_i hnn
    exact ⟨h.store, fun m hm => absurd (hnn.symm.trans hm) (Option.some_ne_none m).symm⟩
  · rename_i m hm
    obtain ⟨hrun, hcr⟩ := h.memory m hm
    obtain ⟨hdue, hsr⟩ := dueBuckets_sorted contract batchSize w.store m.cohortStartedAt t.captured t.now
    obtain ⟨hkp, hrun', hout⟩ := evaluateBuckets_kept t.load h.store (hcr rfl) hrun hdue hsr
    refine ⟨hkp, fun m' hm' => ⟨hrun', fun hls => ?_⟩⟩
    rw [← Option.some.inj hm']
    exact hout.resolve_left (of_decide_eq_false hls)

theorem run_kept (h : w.Kept contract lost) (hsp : RestartsAfterLoss contract batchSize lost w steps) :
    (run contract batchSize w steps).store.Kept contract := by
  induction steps generalizing lost w with
  | nil => exact h.store
  | cons s steps ih =>
    cases s with
    | start now => exact ih (start_kept h.store now) hsp
    | tick t =>
      obtain ⟨rfl, hrs⟩ := hsp
      exact ih (tick_kept h t) hrs

theorem RestartsAfterLoss.take (h : RestartsAfterLoss contract batchSize lost w steps) (n : ℕ) :
    RestartsAfterLoss contract batchSize lost w (steps.take n) := by
  induction steps generalizing lost w n with
  | nil =>
    rw [take_nil]
    trivial
  | cons s steps ih =>
    cases n with
    | zero => trivial
    | succ n =>
      cases s with
      | start => exact ih h n
      | tick => exact ⟨h.1, ih h.2 n⟩

end

def SameMinute (r r' : EvaluationRow) : Prop := r.symbol = r'.symbol ∧ r.bucketStart = r'.bucketStart

def Store.Once (store : Store) : Prop := store.evaluations.Pairwise fun r r' => ¬ SameMinute r r'

theorem persistBucket_once (hon : store.Once) (h : persistBucket store writes = .ok store') : store'.Once := by
  have hin : ∀ (rows table : List EvaluationRow), (table.Pairwise fun r r' => ¬ SameMinute r r') →
      (rows.foldl insertEvaluation table).Pairwise fun r r' => ¬ SameMinute r r' := by
    intro rows
    induction rows with
    | nil => exact fun table htb => htb
    | cons row rows ih =>
      intro table htb
      refine ih _ ?_
      unfold insertEvaluation
      split
      · exact htb
      · rename_i hfree
        refine pairwise_append.2 ⟨htb, pairwise_singleton _ _, fun r hr r' hr' hsame => ?_⟩
        rw [mem_singleton.1 hr'] at hsame
        exact hfree ⟨r, hr, hsame⟩
  unfold persistBucket at h
  split at h
  · cases h
    exact hon
  · simp only at h
    split_ifs at h
    cases h
    exact hin _ _ hon

theorem evaluateBuckets_once (load : ℤ → Option Load)
    (hon : store.Once) : (evaluateBuckets contract load due store states).1.Once := by
  induction due generalizing store states with
  | nil => exact hon
  | cons b due ih =>
    unfold evaluateBuckets
    split
    · exact ih hon
    · split
      · exact hon
      · split
        · exact hon
        · rename_i hpr
          have hon' := persistBucket_once hon hpr
          split
          · exact hon
          · exact hon'
          · exact ih hon'

theorem run_once (contract : WatchContract) (batchSize : ℕ) (h : w.store.Once) (steps : List Step) :
    (run contract batchSize w steps).store.Once := by
  induction steps generalizing w with
  | nil => exact h
  | cons s steps ih =>
    refine ih ?_
    cases s with
    | start => exact h
    | tick t =>
      simp only [step, tick]
      split
      · exact h
      · exact evaluateBuckets_once t.load h

/-- The persisted watches respect the cooldown and the re-arming. -/
structure Rearmed (contract : WatchContract) (rows : List EvaluationRow) : Prop where
  once : rows.Pairwise fun r r' => ¬ SameMinute r r'
  cooldown : ∀ w ∈ rows, ∀ w' ∈ rows, w'.symbol = w.symbol → w.evaluation.decisionStatus = .watch →
    w'.evaluation.decisionStatus = .watch → w'.bucketStart < w.bucketStart →
    contract.watchCooldownMinutes * minute ≤ w.bucketStart - w'.bucketStart
  rearm : ∀ w ∈ rows, ∀ q ∈ rows, q.symbol = w.symbol → w.evaluation.decisionStatus = .watch →
    q.evaluation.rawQualified = true → q.bucketStart < w.bucketStart →
    contract.rearmClearMinutes ≤ rows.countP fun e =>
      e.symbol = w.symbol ∧ q.bucketStart < e.bucketStart ∧ e.bucketStart < w.bucketStart ∧ e.evaluation.isClear

theorem Store.mem_evaluationsOf {r : EvaluationRow} (h : r ∈ store.evaluations) {symbol : String}
    (hsy : r.symbol = symbol) : r.evaluation ∈ store.evaluationsOf symbol :=
  mem_map_of_mem (mem_filter.2 ⟨h, decide_eq_true hsy⟩)

theorem Store.clearsBetween_evaluationsOf (store : Store) (symbol : String) (lo hi : ℤ) :
    clearsBetween (store.evaluationsOf symbol) lo hi = store.evaluations.countP fun e =>
      e.symbol = symbol ∧ lo < e.bucketStart ∧ e.bucketStart < hi ∧ e.evaluation.isClear := by
  unfold clearsBetween evaluationsOf
  rw [countP_map, countP_filter]
  refine countP_congr fun e _ => ?_
  simp [EvaluationRow.bucketStart, and_comm, and_left_comm]

/-- **Persisted watches respect the cooldown and the re-arming**, at every moment of a run whose process
starts again before the first tick after a lost acknowledgement. -/
theorem watches_rearmed (contract : WatchContract) (batchSize : ℕ) (steps : List Step)
    (h : RestartsAfterLoss contract batchSize false Worker.init steps) (n : ℕ) :
    Rearmed contract (run contract batchSize Worker.init (steps.take n)).store.evaluations := by
  have hkept := run_kept (init_kept false) (h.take n)
  have honce : init.store.Once := List.Pairwise.nil
  refine ⟨run_once contract batchSize honce _, fun w hw w' hw' hsymbol hwatch hwatch' hlt => ?_,
    fun w hw q hq hsymbol hwatch hraw hlt => ?_⟩
  · exact (hkept.replay w.symbol).spaced.cooldown _ (mem_evaluationsOf hw rfl) _
      (mem_evaluationsOf hw' hsymbol) hwatch hwatch' hlt
  · rw [← clearsBetween_evaluationsOf]
    exact (hkept.replay w.symbol).spaced.rearm _ (mem_evaluationsOf hw rfl) _
      (mem_evaluationsOf hq hsymbol) hwatch hraw hlt

/-! The frozen rules for a cross section of one symbol, which qualifies in two minutes one after the other. The
acknowledgement of the first minute is lost. -/

def oneSymbolContract : WatchContract := { frozenWatchContract with minCrossSectionSize := 1, positive := by decide }

def qualifiedSymbol : LoadedSymbol where
  symbol := "BTCUSDT"
  features := some
    { priceReturn60mPct := 1, priceReturn15mPct := 1, oiGrowth60mPct := 5, buyNotional15mUsd := 30000,
      sellNotional15mUsd := 10000, flowNotional15mUsd := 40000, buyImbalance15m := 1 / 2,
      flowAcceleration15mVsPrior45m := 2 }

def qualifiedTick (b : ℤ) (commit : Commit) : Step :=
  .tick ⟨[b], b + 2 * minute, fun _ => some ⟨[qualifiedSymbol], b + 2 * minute, b + 2 * minute, b + 2 * minute, commit⟩⟩

def goingOn : List Step := [.start 0, qualifiedTick minute .lost, qualifiedTick (2 * minute) .acknowledged]

def startingAgain : List Step :=
  [.start 0, qualifiedTick minute .lost, .start (3 * minute), qualifiedTick (2 * minute) .acknowledged]

/-- Two watches of one symbol, one minute apart. -/
theorem lost_acknowledgement_watches_twice :
    (run oneSymbolContract 5 Worker.init goingOn).store.evaluations.map
      (fun r => (r.symbol, r.bucketStart, r.evaluation.decisionStatus)) =
        [("BTCUSDT", minute, .watch), ("BTCUSDT", 2 * minute, .watch)] ∧
    ¬ Rearmed oneSymbolContract (run oneSymbolContract 5 Worker.init goingOn).store.evaluations := by
  refine ⟨by decide +kernel, fun h => ?_⟩
  have hpair : ∃ w ∈ (run oneSymbolContract 5 init goingOn).store.evaluations,
      ∃ w' ∈ (run oneSymbolContract 5 init goingOn).store.evaluations, w'.symbol = w.symbol ∧
        w.evaluation.decisionStatus = .watch ∧ w'.evaluation.decisionStatus = .watch ∧
        w'.bucketStart < w.bucketStart ∧ w.bucketStart - w'.bucketStart < 360 * minute := by
    decide +kernel
  obtain ⟨w, hw, w', hw', hsymbol, hwatch, hwatch', hlt, hgap⟩ := hpair
  exact absurd (h.cooldown w hw w' hw' hsymbol hwatch hwatch' hlt) (not_le.2 hgap)

theorem restart_suppresses : RestartsAfterLoss oneSymbolContract 5 false Worker.init startingAgain ∧
    Rearmed oneSymbolContract (run oneSymbolContract 5 Worker.init (startingAgain.take 4)).store.evaluations ∧
    (run oneSymbolContract 5 Worker.init startingAgain).store.evaluations.map
      (fun r => (r.bucketStart, r.evaluation.decisionStatus)) =
        [(minute, .watch), (2 * minute, .suppressedActiveEpisode)] :=
  ⟨by decide +kernel, watches_rearmed oneSymbolContract 5 startingAgain (by decide +kernel) 4, by decide +kernel⟩

end Schurfer.Watch
