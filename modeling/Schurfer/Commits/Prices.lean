import Schurfer.Commits.Contract

/-!
# The price a trade is closed at

A leg is recorded and answered with the price of all legs of the trade, and later the trade is closed at that price.
What others write between the two decides whether it is still the legs'.
-/

namespace Schurfer.Commits

open Desk Orders Threads Prog List Does Ensures
open LateFill (Failure)
open Legs (Journal Leg)

variable {n : Incident} {price : ℚ} {order : String} {filled : Option ℚ} {s : State} {pair : Pair}
  {α : Type} {p : Program α}

section

variable {i : ℕ} {job : Job} (setup : Setup) {s' : State}

theorem does_getTradeKey (pair : Pair) (hqt : Quoted s pair.1 order price) :
    Does i job (fun s' answered => ∀ t, answered = some t → Priced s' t pair.1 (some order) price)
      (call (.getTradeKey (some order) pair)) s := by
  refine does_plain (.getTradeKey (some order) pair) trivial fun s1 c answered hs1 _ hor han hon t hsm => ?_
  subst hsm
  obtain ⟨l, hl, hkey, hat⟩ := hqt.onward hs1
  have hnm : s1.desk.tradeKeys pair = some t := by
    simp only [answer, journalAnswer, Desk.answer, Desk.Chance.failureOf] at han
    split at han
    · exact Except.ok.inj han
    · cases han
  have htrade : l.tradeId = t := hor l hl hkey t hnm
  exact .inl (hon.journal.at (htrade ▸ hat))

theorem lawful_journalExit {result : CloseResult}
    (hod : result.orderId = some order) (hqt : Quoted s pair.1 order price) (reason : String) :
    Lawful i job (journalExit pair result price reason) s := by
  unfold journalExit
  rw [hod]
  refine bind along (does_getTradeKey pair hqt) fun answered s1 _ hpr => ?_
  split
  · rename_i t
    exact lawful_commitAndUntrack (hpr t rfl)
  · exact lawful_notes (.step rfl fun _ => .bind (notes_incidentOrderId _) fun _ =>
      .last rfl)

theorem lawful_checkExit (p : OpenPosition) : Lawful i job (checkExit setup p) s := by
  refine step trivial fun reason s1 _ => ?_
  split
  · exact lawful_ret
  rename_i reason
  refine bind along (does_closePosition setup ⟨p.exchange, p.base, p.position.symbol, reason⟩)
    fun result s2 _ hrs => ?_
  split
  · rename_i hclosed
    refine step trivial fun _ s3 hs3 => ?_
    split
    · exact lawful_ret
    · rename_i price hpc
      obtain ⟨order, hod, hqt⟩ := hrs.onward hs3 hclosed price hpc
      refine after (lawful_journalExit hod hqt reason) fun _ s4 _ => ?_
      exact lawful_calls (Calls.perform trivial)
  · exact lawful_ret

theorem lawful_checkExits (failed : List String) (blocked : List Pair) (positions : List OpenPosition) :
    Lawful i job (checkExits setup failed blocked positions) s := by
  induction positions generalizing s with
  | nil => exact lawful_ret
  | cons p positions ih =>
    unfold checkExits
    split
    · exact ih
    · exact .handled (lawful_checkExit setup p) fun _ _ => ih

theorem lawful_manualClosePosition (exchange base : String) :
    Lawful i job (manualClosePosition setup exchange base) s := by
  unfold manualClosePosition
  split
  · exact lawful_ret
  split
  · exact lawful_ret
  rename_i symbol _
  refine bind along (does_closePosition setup ⟨exchange, base, symbol, "manual"⟩) fun result s1 _ hrs => ?_
  split
  · rename_i hclosed
    split
    · exact lawful_calls (.perform trivial)
    · rename_i price hpc
      obtain ⟨order, hod, hqt⟩ := hrs hclosed price hpc
      rw [hod]
      refine .bind along (does_getTradeKey (pairOf exchange base) hqt) fun answered s2 _ hpr => ?_
      split
      · rename_i t
        exact after (lawful_commitAndUntrack (hpr t rfl)) fun _ _ _ =>
          lawful_calls (Calls.perform trivial)
      · exact lawful_calls (.perform trivial)
  · exact lawful_ret

def AmountOk (r : FillResolution) : Prop := r.status ≠ .noFill → ∀ filled ∈ r.filledAmount, 0 < filled

theorem does_resolveFillPrice (exchange symbol : String) (order : Order) (requested : Option ℚ) :
    Does i job (fun _ r => AmountOk r) (resolveFillPrice setup exchange symbol order requested) s :=
  .of_yields along kept (I := fun _ => True) (fun _ _ _ _ => trivial)
    (fun h s o ho hs _ => plain_moves h s o (plain_of_aside ho) hs) (fun _ _ _ _ h => h)
    (fun _ _ _ _ _ _ _ _ => trivial) (calls_resolveFillPrice setup exchange symbol order requested)
    (fun _ _ => (yields_filledAmount trivial setup exchange symbol (fun _ _ => trivial) requested).mono
      fun _ hfl hstatus x hx => (hfl x hx).2 hstatus) trivial

section

variable (hfl : ∀ amount ∈ filled, 0 < amount)

include hfl

theorem positive_known {remaining : ℚ}
    (hrm : 0 < remaining) : ∃ amount, positive (filled <|> some remaining) = some amount := by
  cases filled with
  | none => exact ⟨remaining, Option.filter_eq_some_iff.2 ⟨rfl, decide_eq_true hrm⟩⟩
  | some amount => exact ⟨amount, Option.filter_eq_some_iff.2 ⟨rfl, decide_eq_true (hfl amount rfl)⟩⟩

theorem does_bookStop {tradeId : Option ℕ} :
    Does i job (fun s' booked => ∀ exitPrice ∈ booked, ∀ t ∈ tradeId, s'.journal.At t exitPrice)
      (bookStop pair order price filled tradeId) s := by
  unfold bookStop
  split
  · exact .ret along fun _ _ _ ht => by cases ht
  rename_i t
  have hrm : Does i job (fun _ answered => ∃ remaining, answered = some remaining ∧ 0 < remaining)
      (call (.remainingTradeAmount t)) s := by
    refine does_plain (.remainingTradeAmount t) trivial fun s1 c answered _ _ hor han _ => ?_
    simp only [Ordered, han] at hor
    cases answered with
    | none => exact hor.elim
    | some remaining => exact ⟨remaining, rfl, hor⟩
  refine .bind along hrm fun expected s1 _ hep => ?_
  obtain ⟨remaining, rfl, hps⟩ := hep
  split
  · -- some amount is known: what the stop filled, or else what remained
    rename_i hno
    obtain ⟨amount, hsm⟩ := positive_known hfl hps
    rw [hno] at hsm
    cases hsm
  dsimp only
  split
  · exact after (lawful_calls (Calls.perform trivial)) fun _ _ _ =>
      .ret along fun _ het => by cases het
  refine .bind along (does_recordCloseFill _) fun answered s2 _ hrc => ?_
  split
  · rename_i aggregate
    split
    · rename_i htr
      refine .ret along fun exitPrice het t' ht' => ?_
      cases het
      cases ht'
      exact (hrc aggregate rfl).at_price htr
    · exact after (lawful_calls (Calls.perform trivial)) fun _ _ _ =>
        .ret along fun _ het => by cases het
  · exact after (lawful_calls (Calls.perform trivial)) fun _ _ _ =>
      .ret along fun _ het => by cases het

theorem lawful_commitStop : Lawful i job (commitStop pair order price filled) s := by
  refine .step trivial fun tradeId s1 _ => ?_
  refine .step trivial fun _ s2 _ => ?_
  refine bind along (does_bookStop hfl) fun booked s3 _ hbk => ?_
  split
  · exact lawful_ret
  rename_i exitPrice
  refine step trivial fun _ s4 hs4 => ?_
  refine step trivial fun _ s5 hs5 => ?_
  split
  · rename_i t
    exact lawful_commitAndUntrack (.inl ((hs4.trans hs5).journal.at (hbk exitPrice rfl t rfl)))
  · exact lawful_ret

end

theorem lawful_reconcileFilled (pair : Pair) (order symbol : String) (found : Order) :
    Lawful i job (reconcileFilled setup pair order symbol found) s := by
  refine bind along (does_resolveFillPrice setup _ _ _ _) fun resolution s1 _ ham => ?_
  split
  · exact lawful_ret
  · exact lawful_calls (.step trivial fun _ => .step trivial fun _ =>
      .last trivial)
  · rename_i hstatus _
    split
    · exact .raise along
    · exact lawful_commitStop (ham hstatus)

theorem lawful_reconcileEach (live pairs : List Pair) : Lawful i job (reconcileEach setup live pairs) s := by
  have hone : ∀ (pair : Pair) (s' : State), Lawful i job (reconcileOne setup pair) s' := by
    intro pair s'
    refine .step trivial fun raw s1 _ => ?_
    split
    · exact lawful_ret
    split
    · exact lawful_ret
    split
    · exact lawful_ret
    refine .step trivial fun order s2 _ => ?_
    split
    · exact lawful_aside (calls_cancelTerminalStop _ _ _ _)
    · exact lawful_reconcileFilled setup _ _ _ _
  induction pairs generalizing s with
  | nil => exact lawful_ret
  | cons pair pairs ih =>
    unfold reconcileEach
    split
    · exact ih
    · exact .handled (hone pair s) fun _ _ => ih

theorem lawful_retryOnePendingClose (pair : Pair) (t : ℕ) : Lawful i job (retryOnePendingClose pair t) s := by
  have hrd : Does i job (fun s' raw => ∀ q ∈ raw, Priced s' q.tradeId pair.1 q.exitOrderId q.exitPrice)
      (call (.getPendingClose pair t)) s := by
    refine does_plain (.getPendingClose pair t) trivial fun s1 c raw _ hti _ han hon q hq => ?_
    have hfn : s1.desk.pending.find? (fun q => q.pair = pair && q.tradeId = t) = some q := by
      simp only [answer, journalAnswer, Desk.answer, Desk.Chance.failureOf] at han
      split at han
      · exact (Except.ok.inj han).trans hq
      · cases han
    have hpair : q.pair = pair := by
      have hkey := find?_some hfn
      simp only [Bool.and_eq_true, decide_eq_true_eq] at hkey
      exact hkey.1
    have hpr := hti.pending q (mem_of_find?_eq_some hfn)
    rw [hpair] at hpr
    exact hpr.onward hon
  refine bind along hrd fun raw s1 _ hraw => ?_
  split
  · exact lawful_ret
  · rename_i q
    refine after (lawful_tryCommitClose (hraw q rfl)) fun committed s2 _ => ?_
    split
    · exact lawful_calls (.last trivial)
    · exact lawful_ret

theorem lawful_retryEach (keys : List (Pair × ℕ)) : Lawful i job (retryEach keys) s := by
  induction keys generalizing s with
  | nil => exact lawful_ret
  | cons key keys ih =>
    exact .handled (lawful_retryOnePendingClose key.1 key.2) fun _ _ => ih

theorem lawful_tick : Lawful i job (tick setup) s := by
  refine .after (.handle along (lawful_recoverCloseAttempts setup) fun _ _ _ => lawful_ret)
    fun blocked s1 _ => ?_
  refine .after (lawful_aside (calls_fetchAllPositions _ _)) fun snapshot s2 _ => ?_
  refine .after (lawful_checkExits setup _ _ _) fun _ s3 _ => ?_
  refine .handled ?_ fun s4 _ => ?_
  · exact .step trivial fun pairs s5 _ => lawful_reconcileEach setup _ pairs
  · refine .handle along ?_ fun _ _ _ => lawful_ret
    exact step trivial fun keys s5 _ => lawful_retryEach keys

def EntryCall (w : EntryWork) (o : Op) : Prop := Plain o ∨ ∃ t filled, o = .markCompleted w.attemptId t filled

theorem calls_onVenue (exchange entryClientOrderId : String) (p : LateFill.Program α) :
    (onVenue exchange entryClientOrderId p).Calls Plain := by
  refine .interpret (.of_true p) fun o _ => ?_
  cases o with
  | acquireLock | releaseLock | readAttempt | readOpenTrade | readOtherUnresolvedAttempt
  | readOtherActiveTask | createTask | record => trivial
  | _ => exact .perform trivial

section

variable (r : EntryRequest) (w : EntryWork)

theorem entryCall_of_plain (hp : p.Calls Plain) : p.Calls (EntryCall w) :=
  hp.mono fun _ ho => .inl ho

theorem entryCall_of_note (hp : p.Calls Note) : p.Calls (EntryCall w) :=
  hp.mono fun _ ho => .inl (plain_of_note ho)

theorem calls_continueOpen (order : Order) : (continueOpen setup r w order).Calls (EntryCall w) := by
  refine .step (.inl trivial) fun _ => .step (.inl trivial) fun _ =>
    .bind ((calls_resolveFillPrice setup _ _ _ _).mono fun _ ho => .inl (plain_of_aside ho)) fun resolution => ?_
  split
  · exact .step (.inl trivial) fun _ => .step (.inl trivial) fun _ =>
      trivial
  refine .bind (entryCall_of_plain w (calls_onVenue _ _ _)) fun trigger =>
    .bind (entryCall_of_plain w (calls_onVenue _ _ _)) fun stop => ?_
  split
  · exact entryCall_of_note w (notes_flattenEntry r)
  · exact .bind (.attempt (.inl trivial)) fun _ =>
      (calls_journalOpen r w order resolution).mono fun _ => Or.imp_left plain_of_note

theorem calls_settleFound (found : Order) : (settleFound setup r w found).Calls (EntryCall w) := by
  refine .bind (entryCall_of_plain w (calls_onVenue _ _ _)) fun settled => ?_
  split
  · exact .step (.inl trivial) fun _ => trivial
  split
  · exact .step (.inl trivial) fun _ => entryCall_of_note w (notes_flattenEntry r)
  · exact calls_continueOpen setup r w _

theorem calls_submitEntry : (submitEntry setup r w).Calls (EntryCall w) := by
  have hrf : (do
      call (.markFailed w.attemptId)
      return .refused : Program EntryResult).Calls (EntryCall w) :=
    .step (.inl trivial) fun _ => trivial
  refine .bind (.attempt (.inl trivial)) fun answer => ?_
  split
  · exact calls_continueOpen setup r w _
  · exact hrf
  · exact hrf
  · exact hrf
  refine .step (.inl trivial) fun _ =>
    .bind (entryCall_of_plain w (calls_onVenue _ _ _)) fun found => ?_
  split
  · trivial
  split
  · exact calls_continueOpen setup r w _
  · exact calls_settleFound setup r w _

def IsEntryAttempt (id : ℕ) (s : State) : Prop := ∃ row ∈ s.desk.attempts, row.id = id ∧ row.context = none

theorem IsEntryAttempt.onward {id : ℕ} (hs : Onward s s') (h : IsEntryAttempt id s) : IsEntryAttempt id s' := by
  obtain ⟨row, hrow, hid, hcn⟩ := h
  obtain ⟨row', hrow', hsame⟩ := hs.attempts.mem_forth hrow
  exact ⟨row', hrow', hsame.id.trans hid, hsame.context.trans hcn⟩

theorem lawful_submitEntry (hen : IsEntryAttempt w.attemptId s) : Lawful i job (submitEntry setup r w) s := by
  intro h
  refine .mono (fun _ s' _ hrl => ⟨hrl, fun _ _ => trivial⟩) (kept.calls (P := EntryCall w)
    (Q := IsEntryAttempt w.attemptId) (fun _ _ hs hQ => hQ.onward hs) (fun _ s' o ho _ hQ => ⟨trivial, ?_⟩)
    (calls_submitEntry setup r w) hen)
  rcases ho with hpl | ⟨t, filled, rfl⟩
  · exact permitted_of_plain hpl s'
  · exact .inl hQ

theorem does_createAttempt (e : NewEntry) :
    Does i job (fun s' answered => ∀ id ∈ answered, IsEntryAttempt id s') (call (.createAttempt e)) s := by
  refine does_plain (.createAttempt e) trivial fun s1 c answered _ _ _ han _ id hid => ?_
  simp only [answer, journalAnswer, Desk.answer, Desk.Chance.failureOf] at han ⊢
  split at han
  · cases han
    split at hid
    · cases hid
    · rename_i hnew
      cases hid
      simp only [effect, if_neg hnew]
      exact ⟨_, mem_append_right _ mem_cons_self, rfl, rfl⟩
  · rw [← Except.ok.inj han] at hid
    cases hid

theorem lawful_placeOrder : Lawful i job (placeOrder setup r) s := by
  have hlc : ∀ s', Lawful i job (placeLocked setup r) s' := by
    intro s'
    refine after (lawful_aside (calls_fetchAllPositions _ _)) fun snapshot s1 _ => ?_
    split
    · exact lawful_ret
    split
    · exact raise along
    refine step trivial fun admitted s2 _ => ?_
    split
    · exact lawful_ret
    refine step trivial fun clientOrderId s3 _ => ?_
    refine bind along (does_createAttempt _) fun attemptId s4 _ hen => ?_
    split
    · exact lawful_ret
    rename_i attemptId
    refine step trivial fun pass s5 hs5 => ?_
    split
    · exact lawful_submitEntry setup r _ ((hen attemptId rfl).onward hs5)
    · exact lawful_calls (Calls.last trivial)
  refine step trivial fun isOpen s1 _ => ?_
  split
  · refine step trivial fun locked s2 _ => ?_
    split
    · exact ensure along (hlc s2) (fun _ _ => lawful_calls (Calls.perform trivial)) fun _ _ _ _ _ => trivial
    · exact lawful_ret
  · exact lawful_ret

end

def Known (n : Incident) (s : State) : Prop := ∃ n' ∈ s.desk.incidents, n.Same n'

theorem Known.onward (hs : Onward s s') (h : Known n s) : Known n s' := by
  obtain ⟨n1, hn1, hsame⟩ := h
  obtain ⟨n2, hn2, hsame2⟩ := hs.incidents.mem_forth hn1
  exact ⟨n2, hn2, hsame.trans hsame2⟩

theorem lawful_bump (n : Incident) : Lawful i job (bumpAttemptOrEscalate n) s := by
  unfold bumpAttemptOrEscalate
  split
  · exact lawful_calls (.perform trivial)
  · exact lawful_calls (.perform trivial)

theorem lawful_commitIncident {t : ℕ}
    (hpc : Priced s t n.exchange (some n.orderId) price) : Lawful i job (commitIncident n t price) s := by
  refine .after (lawful_commitAndUntrack hpc) fun _ s1 _ => ?_
  refine .step trivial fun _ s2 _ => ?_
  split
  · exact lawful_calls (.last trivial)
  · exact lawful_ret

theorem lawful_completeClose (hn : Known n s) (hop : n.operation = .closing)
    (symbol : String) (price : ℚ) (filled : Option ℚ) : Lawful i job (completeClose n symbol price filled) s := by
  refine .after ?_ fun tradeId s1 hs1 => ?_
  · unfold incidentTradeId
    split
    · exact lawful_ret
    · exact lawful_calls (.perform trivial)
  split
  · exact lawful_ret
  split
  · -- without a leg the resolved price is committed as it is
    rename_i hleg
    obtain ⟨n', hn', hsame⟩ := hn.onward hs1
    refine lawful_commitIncident (.inr ⟨n', hn', hsame.operation.trans hop, hsame.exchange, ?_, ?_⟩)
    · rw [hsame.orderId]
    · rw [hsame.context, hleg]
  split
  · exact lawful_ret
  refine bind along (does_recordCloseFill _) fun answered s2 _ hrc => ?_
  split
  · exact lawful_ret
  · rename_i aggregate
    split
    · rename_i htr
      exact lawful_commitIncident (.inl ((hrc aggregate rfl).at_price htr))
    · exact lawful_ret

theorem lawful_resolveIncident (hn : Known n s) (symbol : String) :
    Lawful i job (resolveIncident setup n symbol) s := by
  refine .after (lawful_aside (calls_resolveFillPrice setup _ _ _ _)) fun resolution s1 hs1 => ?_
  split
  · exact lawful_bump n
  · exact lawful_bump n
  split
  · exact .raise along
  rename_i price _
  have hdn : ∀ (completed : Bool) (s' : State), Lawful i job (if completed then do
      let _ ← call (.markResolved n.id)
      return ()
    else bumpAttemptOrEscalate n : Program Unit) s' := by
    intro completed s'
    split
    · exact lawful_calls (.last trivial)
    · exact lawful_bump n
  unfold completeIncident
  split
  · rename_i hop
    exact .after (lawful_completeClose (hn.onward hs1) hop symbol price _) fun completed s2 _ =>
      hdn completed s2
  · refine .after ?_ fun completed s2 _ => hdn completed s2
    refine .after (lawful_notes (notes_completeOpen _ _)) fun tradeId s2 _ => ?_
    split
    · exact lawful_ret
    · exact lawful_calls (.perform trivial)

theorem lawful_processReady (hn : Known n s) : Lawful i job (processReady setup n) s := by
  unfold processReady
  split
  · exact lawful_bump n
  split
  · exact lawful_bump n
  rename_i symbol _
  unfold awaitOrder
  split
  · refine .after (lawful_calls (.attempt trivial)) fun answer s1 hs1 => ?_
    split
    · exact lawful_bump n
    · split
      · exact lawful_resolveIncident setup (hn.onward hs1) symbol
      · exact lawful_ret
  · exact lawful_resolveIncident setup hn symbol

theorem lawful_processOne (hn : Known n s) : Lawful i job (processOne setup n) s := by
  unfold processOne
  split
  · exact lawful_processReady setup hn
  · refine .step trivial fun waiting s1 hs1 => ?_
    split
    · exact lawful_ret
    · exact lawful_processReady setup (hn.onward hs1)

theorem lawful_processAll {incidents : List Incident} (hkn : ∀ n ∈ incidents, Known n s) :
    Lawful i job (processAll setup incidents) s := by
  induction incidents generalizing s with
  | nil => exact lawful_ret
  | cons n incidents ih =>
    exact .handled (lawful_processOne setup (hkn n mem_cons_self)) fun s1 hs1 =>
      ih fun n' hn' => (hkn n' (mem_cons_of_mem n hn')).onward hs1

theorem lawful_incidentTick : Lawful i job (incidentTick setup) s := by
  have hld : Does i job (fun s' incidents => ∀ n ∈ incidents, Known n s') (call .loadOpenIncidents) s := by
    refine does_plain .loadOpenIncidents trivial fun s1 c incidents _ _ _ han hon n hn => ?_
    refine Known.onward hon ⟨n, ?_, .refl n⟩
    simp only [answer, journalAnswer, Desk.answer, Desk.Chance.failureOf] at han
    split at han
    · rw [← Except.ok.inj han] at hn
      exact (mem_filter.1 hn).1
    · rw [← Except.ok.inj han] at hn
      cases hn
  exact bind along hld fun incidents s1 _ hkn => lawful_processAll setup hkn

theorem lawful_main : Lawful i job (main setup job) s := by
  cases job with
  | tick => exact lawful_tick setup
  | place r =>
    exact .after (lawful_placeOrder setup r) fun _ _ _ => lawful_ret
  | close exchange base => exact lawful_manualClosePosition setup exchange base
  | incidents => exact lawful_incidentTick setup

end

theorem env_tidy (hs : Tidy s) (e : Event) : Tidy (env s e) ∧ Onward s (env s e) := by
  have hlater := env_later s e
  have htb : (env s e).desk.attempts = s.desk.attempts ∧ (env s e).desk.incidents = s.desk.incidents ∧
      ∀ q ∈ (env s e).desk.pending, q ∈ s.desk.pending := by
    cases e with
    | desk e =>
      obtain ⟨hatt, hin, hpending⟩ := env_tables s.desk e
      exact ⟨hatt, hin, fun q hq => hpending ▸ hq⟩
    | losePendingClose => exact ⟨rfl, rfl, fun q hq => (mem_filter.1 hq).1⟩
    | openPaper | closePaper | publish => exact ⟨rfl, rfl, fun q hq => hq⟩
  obtain ⟨hatt, hin, hpending⟩ := htb
  have hon : Onward s (env s e) := by
    refine ⟨hlater, ?_, ?_⟩
    · rw [hatt]
      exact .refl .refl _
    · rw [hin]
      exact .refl .refl _
  refine ⟨⟨?_, fun row hrow hcn hstatus t ht => ?_, fun q hq => ?_⟩, hon⟩
  · rw [hatt]
    exact hs.keys
  · rw [hatt] at hrow
    exact hlater.pinned (hs.completed row hrow hcn hstatus t ht)
  · exact (hs.pending q (hpending q hq)).onward hon

theorem contract_sound (setup : Setup) : Sound (world.guard Ordered refused)
    (guardMain (main setup) (fun _ => True) refused) contract fun _ _ _ _ _ => True where
  refl := kept.refl
  trans := kept.trans
  env s e hs := ⟨(env_tidy hs e).1, fun _ => (env_tidy hs e).2⟩
  crash i s hs := ⟨⟨hs.keys, hs.completed, hs.pending⟩, fun _ _ => ⟨.refl _, .refl .refl _, .refl .refl _⟩⟩
  start i job s _ := by
    have hmn : guardMain (main setup) (fun _ => True) refused job = main setup job := if_pos trivial
    rw [hmn]
    exact (lawful_main setup).safe []

/-- No close waits for the journal, and no close attempt is completed. -/
structure State.Fresh (s : State) : Prop where
  keys : KeysOk s.desk.attempts
  completed : ∀ row ∈ s.desk.attempts, row.context.isSome = true → row.status ≠ .completed
  pending : s.desk.pending = []

theorem State.Fresh.tidy (h : s.Fresh) : Tidy s where
  keys := h.keys
  completed row hrow hcn hstatus := absurd hstatus (h.completed row hrow hcn)
  pending q hq := by rw [h.pending] at hq; cases hq

def vwap (legs : List Leg) : ℚ :=
  (legs.map fun l => l.fillPrice * l.filledAmount).sum / (legs.map (·.filledAmount)).sum

/-- **A trade with legs is closed at their amount-weighted price, and takes none afterwards**, in every run whose calls
are all `Ordered` where they are made. -/
theorem closed_at_vwap (setup : Setup) (s : State) (hfresh : s.Fresh) (moves : List (Move Job Chance Event))
    (hordered : (⟨s, []⟩ : Config State Failure Op Ans Job Unit).AllAllowed world (Desk.main setup) Ordered
      (fun _ => True) moves)
    (n i : ℕ) (c : Chance) (hmove : moves[n]? = some (.call i c)) (t : ℕ)
    (hopen : ¬ (journalAt setup s moves n).Closed t) (hclosed : (journalAt setup s moves (n + 1)).Closed t)
    (hlegs : (journalAt setup s moves (n + 1)).legsOf t ≠ []) :
    ∃ row ∈ (journalAt setup s moves (n + 1)).trades, row.id = t ∧
      row.close.map (·.exitPrice) = some (vwap ((journalAt setup s moves (n + 1)).legsOf t)) ∧
      ∀ m, n + 1 ≤ m → row ∈ (journalAt setup s moves m).trades ∧
        (journalAt setup s moves m).coresOf t = (journalAt setup s moves (n + 1)).coresOf t := by
  obtain ⟨hok, hallowed⟩ := (contract_sound setup).before hfresh.tidy hordered hmove
  have hstep : configAt setup s moves (n + 1) =
      (configAt setup s moves n).step world (main setup) (.call i c) := Run.stateAt_succ hmove
  -- the call that closed the trade
  have hcall : ∃ row ∈ (journalAt setup s moves (n + 1)).trades, row.id = t ∧ row.status = .closed ∧
      row.close.map (·.exitPrice) = some (vwap ((journalAt setup s moves (n + 1)).legsOf t)) := by
    unfold journalAt at hopen hclosed hlegs ⊢
    rw [hstep] at hclosed hlegs ⊢
    rcases Config.step_call_cases world (main setup) (configAt setup s moves n) i c with
      hsame | ⟨a, h, o, k, hthread, hstate⟩
    · rw [hsame] at hclosed
      exact absurd hclosed hopen
    · rw [hstate] at hclosed hlegs ⊢
      obtain ⟨exchange, order, price, rfl, hkept, row, hrow, hid, hstatus, hprice⟩ := answer_closes hopen hclosed
      have hlegsOf : (world.answer i (configAt setup s moves n).state (.closeTrade t exchange order price)
          c).2.journal.legsOf t = (configAt setup s moves n).state.journal.legsOf t :=
        congrArg (filter _) hkept
      refine ⟨row, hrow, hid, hstatus, ?_⟩
      rw [hprice, hlegsOf]
      rw [hlegsOf] at hlegs
      have hpriced : Priced (configAt setup s moves n).state t exchange order price := hok.next_pre hthread
      rcases hpriced with hat | hunlegged
      · exact congrArg some hat.vwap
      · exact absurd (hallowed a h _ k hthread hunlegged) hlegs
  obtain ⟨row, hrow, hid, hstatus, hprice⟩ := hcall
  refine ⟨row, hrow, hid, hprice, fun m hm => ?_⟩
  have hextends := journalAt_extends setup s moves hm
  obtain ⟨row', hrow', hkeeps⟩ := hextends.trades.mem_forth hrow
  exact ⟨hkeeps.closed hstatus ▸ hrow', hextends.legsOf_closed ⟨row, hrow, hid, hstatus⟩⟩

/-! Runs with a short of one hundred that two orders close: forty at 100, then sixty at 110. -/

def oneMarket : Setup := .bybit [⟨"BTCUSDT", "BTC/USDT:USDT", "BTC", "USDT", "USDT", "swap", true⟩]

def openShort (legs : List Leg) (hkeys : (legs.map Leg.key).Nodup) (hvalid : ∀ l ∈ legs, l.isValid = true) :
    Journal where
  trades := [⟨1, ("pump", "v1"), "BTC/USDT:USDT", "bybit", .short, some "e1", 100, 1, 120, 0, none,
    .liveExchangeCostsV1, .open, none⟩]
  nextTradeId := 2
  legs
  tasks := []
  attempts := []
  trade_ids := by simp
  trade_fresh := by simp
  leg_keys := hkeys
  leg_valid := hvalid

def firstLeg : Leg where
  tradeId := 1
  exchange := "bybit"
  orderId := "c1"
  fillPrice := 100
  filledAmount := 40
  requestedAmount := 100
  remainingAmount := 60
  terminal := false
  fillSource := "order.average"

def closeIncident (order : String) (leg : Option CloseLeg) : Incident :=
  ⟨1, "bybit", "BTC", .closing, order, some 1, .pending, 0, { reason := some "take_profit", leg }⟩

def closeOrder (order : String) (amount : ℚ) : VenueOrder :=
  ⟨"bybit", order, "x" ++ order, "BTC/USDT:USDT", .close, amount, amount, 0, "closed"⟩

def filledAt (amount price : ℚ) : Chance :=
  { report := fun _ => { filled := some amount, average := some price } }

def secondUnresolved : State where
  desk :=
    { incidents := [closeIncident "c2" (some ⟨60, some 60, some 0, true⟩)]
      orders := [closeOrder "c2" 60] }
  journal := openShort [firstLeg] (by decide) (by decide)

def resolveSecond : List (Move Job Chance Event) :=
  [.start .incidents, .call 0 {}, .call 0 {}, .call 0 (filledAt 60 110), .call 0 {}, .call 0 {}, .call 0 {}]

theorem resolveSecond_at_vwap : (journalAt oneMarket secondUnresolved resolveSecond 7).legsOf 1 ≠ [] ∧
    ∃ row ∈ (journalAt oneMarket secondUnresolved resolveSecond 7).trades, row.id = 1 ∧
      row.close.map (·.exitPrice) = some (vwap ((journalAt oneMarket secondUnresolved resolveSecond 7).legsOf 1)) ∧
      ∀ m, 7 ≤ m → row ∈ (journalAt oneMarket secondUnresolved resolveSecond m).trades ∧
        (journalAt oneMarket secondUnresolved resolveSecond m).coresOf 1 =
          (journalAt oneMarket secondUnresolved resolveSecond 7).coresOf 1 := by
  have hlegs : (journalAt oneMarket secondUnresolved resolveSecond 7).legsOf 1 ≠ [] := by decide +kernel
  refine ⟨hlegs, closed_at_vwap oneMarket secondUnresolved ⟨⟨by decide, by decide⟩, by decide, rfl⟩ resolveSecond
    (by decide +kernel) 6 0 {} rfl 1 ?_ ?_ hlegs⟩
  · unfold Journal.Closed
    decide +kernel
  · unfold Journal.Closed
    decide +kernel

def bothUnresolved : State where
  desk :=
    { incidents := [closeIncident "c1" (some ⟨100, some 40, some 60, false⟩)]
      orders := [closeOrder "c1" 40, closeOrder "c2" 60]
      attempts := [⟨1, "xc2", "bybit", "BTC", "BTC/USDT:USDT", .accepted, some "c2", 60, none, some 1,
        some ⟨"take_profit", .short, none⟩⟩] }
  journal := openShort [] (by decide) (by decide)

def lateLeg : List (Move Job Chance Event) :=
  [.start .tick, .call 0 {}, .call 0 (filledAt 60 110), .call 0 {}, .call 0 {},
    .start .incidents, .call 1 {}, .call 1 {}, .call 1 (filledAt 40 100), .call 1 {},
    .call 0 {}, .call 0 {}, .call 0 {}, .call 0 {}]

/-- **A leg that comes between the two transactions is not in the price**: the trade is closed at 110, and its
legs are at 106. -/
theorem lateLeg_off_vwap : ¬ ∀ (setup : Setup) (s : State), s.Fresh → ∀ (moves : List (Move Job Chance Event))
    (n i : ℕ) (c : Chance), moves[n]? = some (.call i c) → ∀ t, ¬ (journalAt setup s moves n).Closed t →
      (journalAt setup s moves (n + 1)).Closed t → (journalAt setup s moves (n + 1)).legsOf t ≠ [] →
      ∃ row ∈ (journalAt setup s moves (n + 1)).trades, row.id = t ∧
        row.close.map (·.exitPrice) = some (vwap ((journalAt setup s moves (n + 1)).legsOf t)) := by
  intro hclaim
  have hrow := hclaim oneMarket bothUnresolved ⟨⟨by decide, by decide⟩, by decide, rfl⟩ lateLeg 13 0 {} rfl 1
    (by unfold Journal.Closed; decide +kernel) (by unfold Journal.Closed; decide +kernel) (by decide +kernel)
  have hoff : ¬ ∃ row ∈ (journalAt oneMarket bothUnresolved lateLeg 14).trades, row.id = 1 ∧
      row.close.map (·.exitPrice) = some (vwap ((journalAt oneMarket bothUnresolved lateLeg 14).legsOf 1)) := by
    decide +kernel
  exact hoff hrow

end Schurfer.Commits
