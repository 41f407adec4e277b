import Schurfer.Commits.World

/-!
# Which price may close a trade

The contract between the jobs: a trade is closed at a price that was read from its legs after the terminal one came,
or by an order whose incident has no leg to record.
-/

namespace Schurfer.Commits

open Desk Orders Threads Prog
open LateFill (Failure)
open Legs (Journal Leg)

variable {order : Option String} {exchange id : String} {price : ℚ} {α β : Type} {result : CloseResult}
  {a : CloseAttempt} {f : α → Program β} {o : Op} {t : ℕ} {s : State}

/-- An incident of the close order has no leg to record. -/
def Unlegged (s : State) (exchange : String) (order : Option String) : Prop :=
  ∃ n ∈ s.desk.incidents, n.operation = .closing ∧ n.exchange = exchange ∧ order = some n.orderId ∧
    n.context.leg = none

/-- A new leg is recorded only for a trade without a terminal one; the order of an incident without a leg
closes a trade only while that has no legs; the monitor finds out what remains of a trade whose stop filled;
and the trade key that is read for a close order names the trade the order has its leg in. -/
def Ordered (i : ℕ) (s : State) : Op → Chance → Prop
  | .recordCloseFill f, _ =>
    (f.exchange, f.orderId) ∈ s.journal.legs.map Leg.key ∨ ¬ s.journal.Pinned f.tradeId
  | .closeTrade t exchange order _, _ => Unlegged s exchange order → s.journal.legsOf t = []
  | .remainingTradeAmount t, c =>
    match (answer i s (.remainingTradeAmount t) c).1 with
    | .ok (some remaining) => 0 < remaining
    | _ => False
  | .getTradeKey (some order) pair, _ =>
    ∀ l ∈ s.journal.legs, l.key = (pair.1, order) → ∀ t ∈ s.desk.tradeKeys pair, l.tradeId = t
  | _, _ => True

instance (j : Journal) (t : ℕ) : Decidable (j.Pinned t) := by
  unfold Journal.Pinned
  infer_instance

instance (s : State) (exchange : String) (order : Option String) : Decidable (Unlegged s exchange order) := by
  unfold Unlegged
  infer_instance

instance (i : ℕ) (s : State) (o : Op) (c : Chance) : Decidable (Ordered i s o c) := by
  unfold Ordered
  split
  · infer_instance
  · infer_instance
  · split <;> infer_instance
  · infer_instance
  · infer_instance

structure Onward (s s' : State) : Prop where
  journal : s.journal.Later s'.journal
  attempts : Rows.Grows AttemptRow.Same (fun _ => True) s.desk.attempts s'.desk.attempts
  incidents : Rows.Grows Incident.Same (fun _ => True) s.desk.incidents s'.desk.incidents

theorem Onward.refl (s : State) : Onward s s := ⟨.refl _, .refl .refl _, .refl .refl _⟩

theorem Onward.trans {s1 s2 s3 : State} (h : Onward s1 s2) (h' : Onward s2 s3) : Onward s1 s3 where
  journal := h.journal.trans h'.journal
  attempts := h.attempts.trans (fun _ _ _ => AttemptRow.Same.trans) (fun _ _ _ _ => trivial) h'.attempts
  incidents := h.incidents.trans (fun _ _ _ => Incident.Same.trans) (fun _ _ _ _ => trivial) h'.incidents

theorem Unlegged.onward {s' : State} (hs : Onward s s')
    (h : Unlegged s exchange order) : Unlegged s' exchange order := by
  obtain ⟨n, hn, hop, hexchange, hor, hleg⟩ := h
  obtain ⟨n', hn', hsame⟩ := hs.incidents.mem_forth hn
  refine ⟨n', hn', hsame.operation.trans hop, hsame.exchange.trans hexchange, ?_, ?_⟩
  · rw [hor, hsame.orderId]
  · rw [hsame.context, hleg]

/-- The price is that of the trade's legs, of which the last is there, or the order has no leg to record. -/
def Priced (s : State) (t : ℕ) (exchange : String) (order : Option String) (price : ℚ) : Prop :=
  s.journal.At t price ∨ Unlegged s exchange order

theorem Priced.onward {s' : State}
    (hs : Onward s s') (h : Priced s t exchange order price) : Priced s' t exchange order price :=
  h.imp hs.journal.at (Unlegged.onward hs)

def Completes (s : State) (attemptId : ℕ) (tradeId : Option ℕ) : Prop :=
  (∃ row ∈ s.desk.attempts, row.id = attemptId ∧ row.context = none) ∨ ∀ t ∈ tradeId, s.journal.Pinned t

structure Tidy (s : State) : Prop where
  keys : KeysOk s.desk.attempts
  completed : ∀ row ∈ s.desk.attempts, row.context.isSome = true → row.status = .completed →
    ∀ t ∈ row.tradeId, s.journal.Pinned t
  pending : ∀ q ∈ s.desk.pending, Priced s q.tradeId q.pair.1 q.exitOrderId q.exitPrice

def Permitted (s : State) : Op → Prop
  | .closeTrade t exchange order price => Priced s t exchange order price
  | .setPendingClose q => Priced s q.tradeId q.pair.1 q.exitOrderId q.exitPrice
  | .markCompleted id t _ => Completes s id t
  | _ => True

def contract : Contract State Failure Op Ans Job where
  inv := Tidy
  rely _ := Onward
  pre _ _ _ := Permitted

section

variable {s : State} {i : ℕ} {c : Chance}

theorem journalAnswer_later {value : Ans o} {journal : Journal} (hok : Ordered i s o c)
    (h : journalAnswer s c o = some (value, journal)) : s.journal.Later journal := by
  rcases journalAnswer_cases h with ⟨f, rfl, rfl⟩ | ⟨t, exchange, order, price, -, rfl⟩ | ⟨trade, -, rfl⟩ | rfl
  · exact Journal.recordCloseFillIn_later hok
  · exact Legs.closeTradeIn_later _ _ _
  · exact s.journal.openTradeIn_later _
  · exact .refl _

theorem deskAnswer_tables (i : ℕ) (d : Desk.State) (o : Op) (c : Desk.Chance) :
    Writes o d.attempts (Desk.answer i d o c).2.attempts ∧
      Rows.Grows Incident.Same (fun _ => True) d.incidents (Desk.answer i d o c).2.incidents ∧
      ∀ q ∈ (Desk.answer i d o c).2.pending, q ∈ d.pending ∨ o = .setPendingClose q := by
  rcases answer_cases i d o c with heq | heq
  · rw [heq]
    exact ⟨effect_writes i d c o, effect_incidents i d c o, fun q hq => effect_pending i d c o hq⟩
  · have hms : (missed i d o).attempts = d.attempts ∧ (missed i d o).incidents = d.incidents ∧
        (missed i d o).pending = d.pending := by
      unfold missed
      split <;> exact ⟨rfl, rfl, rfl⟩
    rw [heq, hms.1, hms.2.1, hms.2.2]
    exact ⟨.refl _ _, .refl .refl _, fun q hq => .inl hq⟩

theorem answer_onward (hok : Ordered i s o c) : Onward s (answer i s o c).2 := by
  rcases answer_state i s o c with ⟨value, journal, hown, heq | heq⟩ | ⟨-, heq⟩
  · rw [heq]
    exact ⟨journalAnswer_later hok hown, .refl .refl _, .refl .refl _⟩
  · rw [heq]
    exact .refl s
  · rw [heq]
    obtain ⟨hwr, hin, -⟩ := deskAnswer_tables i s.desk o c.toChance
    exact ⟨.refl _, hwr.grows, hin⟩

theorem Tidy.answer (hs : Tidy s) (hok : Ordered i s o c) (hpre : Permitted s o) : Tidy (Commits.answer i s o c).2 := by
  have hon := answer_onward hok
  rcases answer_state i s o c with ⟨value, journal, hown, heq | heq⟩ | ⟨-, heq⟩
  · rw [heq] at hon ⊢
    exact ⟨hs.keys, fun row hrow hcn hstatus t ht =>
      hon.journal.pinned (hs.completed row hrow hcn hstatus t ht),
      fun q hq => (hs.pending q hq).onward hon⟩
  · rw [heq]
    exact hs
  · rw [heq] at hon ⊢
    obtain ⟨hwr, -, hpending⟩ := deskAnswer_tables i s.desk o c.toChance
    refine ⟨hwr.keysOk hs.keys, fun row' hrow' hcn hstatus t ht => ?_, fun q hq => ?_⟩
    · rcases hwr.completed hrow' hcn hstatus with hold | ⟨row, hrow, hsame, filled, rfl⟩
      · exact hs.completed row' hold hcn hstatus t ht
      · -- the call marks this close: its trade is pinned, for it is no entry
        rcases hpre with ⟨entry, hen, hid, hnn⟩ | hpn
        · obtain rfl : entry = row := List.inj_on_of_nodup_map hs.keys.nodup hen hrow hid
          rw [hsame.context, hnn] at hcn
          cases hcn
        · exact hpn t ht
    · rcases hpending q hq with hold | rfl
      · exact (hs.pending q hold).onward hon
      · exact Priced.onward hon hpre

def refused : Failure := .other "out of order"

theorem kept : Kept (world.guard Ordered refused) contract fun _ => True :=
  Kept.guard refused (fun _ => Onward.refl) (fun _ _ _ _ => Onward.trans)
    (fun _ _ _ _ _ _ hok hinv hpre => ⟨hinv.answer hok hpre, fun _ _ => answer_onward hok⟩)
    (fun _ _ _ _ _ _ hok _ _ _ => answer_onward hok)

end

def Plain : Op → Prop
  | .closeTrade _ _ _ _ | .setPendingClose _ | .markCompleted _ _ _ => False
  | _ => True

theorem permitted_of_plain (h : Plain o) (s : State) : Permitted s o := by
  cases o with
  | closeTrade | setPendingClose | markCompleted => exact h.elim
  | _ => trivial

theorem plain_of_aside (h : o.isAside = true) : Plain o := by
  cases o with
  | closeTrade | setPendingClose | markCompleted => cases h
  | _ => trivial

theorem plain_of_note (h : o.isNote = true) : Plain o := by
  cases o with
  | closeTrade | setPendingClose | markCompleted => cases h
  | _ => trivial

section

variable {i : ℕ} {job : Job} {s : State} {Q : State → β → Prop} {p : Program α} {pair : Pair}

abbrev Does {α : Type} (i : ℕ) (job : Job) (Q : State → α → Prop) (p : Program α) (s : State) : Prop :=
  Ensures (world.guard Ordered refused) contract i job Onward Q p s

theorem along : Along contract i Onward := kept.along i

abbrev Lawful {α : Type} (i : ℕ) (job : Job) (p : Program α) (s : State) : Prop :=
  Does i job (fun _ _ => True) p s

theorem plain_moves (h : List (Call State Failure Op Ans)) (s : State) (o : Op) (ho : Plain o) (hs : Tidy s) :
    contract.pre i job h s o ∧ ∀ c, Onward s ((world.guard Ordered refused).answer i s o c).2 :=
  ⟨permitted_of_plain ho s, fun c => kept.own i job h s o c trivial hs (permitted_of_plain ho s)⟩

theorem lawful_calls (hp : p.Calls Plain) : Lawful i job p s :=
  .of_calls along kept (I := fun _ => True) (fun _ _ _ _ => trivial)
    (fun h s o ho hs _ => plain_moves h s o ho hs) hp trivial

theorem lawful_aside (hp : p.Calls Aside) : Lawful i job p s :=
  lawful_calls (hp.mono fun _ => plain_of_aside)

theorem lawful_notes (hp : p.Calls Note) : Lawful i job p s :=
  lawful_calls (hp.mono fun _ => plain_of_note)

theorem lawful_ret {a : α} : Lawful i job (.ret a) s := .ret along trivial

theorem Does.after
    (hp : Lawful i job p s) (hf : ∀ a s', Onward s s' → Does i job Q (f a) s') : Does i job Q (p >>= f) s :=
  .bind along hp fun a s' hs' _ => hf a s' hs'

theorem Does.step {f : Ans o → Program β} (ho : Plain o)
    (hf : ∀ a s', Onward s s' → Does i job Q (f a) s') : Does i job Q (call o >>= f) s :=
  .after (lawful_calls (.perform ho)) hf

theorem Does.handled {p : Program Unit} {f : Unit → Program β} (hp : Lawful i job p s)
    (hf : ∀ s', Onward s s' → Does i job Q (f ()) s') : Does i job Q ((p.handle fun _ => return ()) >>= f) s :=
  .after (.handle along hp fun _ _ _ => lawful_ret) fun _ s' hs' => hf s' hs'

theorem does_plain (o : Op) (ho : Plain o) {Q : State → Ans o → Prop}
    (hps : ∀ s1 c b, Onward s s1 → Tidy s1 → Ordered i s1 o c → (answer i s1 o c).1 = .ok b →
      Onward s1 (answer i s1 o c).2 → Q (answer i s1 o c).2 b) : Does i job Q (call o) s :=
  .perform kept along (fun _ s1 _ _ => permitted_of_plain ho s1) (fun _ _ _ _ hok => answer_onward hok) hps

theorem lawful_call (hpre : ∀ s1, Onward s s1 → Permitted s1 o) : Lawful i job (call o) s :=
  .perform kept along (fun _ s1 hs1 _ => hpre s1 hs1) (fun _ _ _ _ hok => answer_onward hok)
    fun _ _ _ _ _ _ _ _ => trivial

theorem lawful_tryCommitClose
    (hpr : Priced s t pair.1 order price) : Lawful i job (tryCommitClose pair t order price) s := by
  refine .step trivial fun _ s1 hs1 => ?_
  have hpr1 := hpr.onward hs1
  refine .after (lawful_call fun s2 hs2 => hpr1.onward hs2) fun committed s2 hs2 => ?_
  split
  · exact lawful_calls (.last trivial)
  · have hpr2 := hpr1.onward hs2
    refine .after (lawful_call fun s3 hs3 => hpr2.onward hs3) fun _ s3 _ => ?_
    exact lawful_calls (.last trivial)

theorem lawful_commitAndUntrack
    (hpr : Priced s t pair.1 order price) : Lawful i job (commitAndUntrack pair t order price) s := by
  refine .after (lawful_tryCommitClose hpr) fun committed s1 _ => ?_
  split
  · exact lawful_calls (.last trivial)
  · exact lawful_ret

structure Recorded (s : State) (f : CloseFill) (price : ℚ) : Prop where
  leg : ∃ l ∈ s.journal.legs, l.key = (f.exchange, f.orderId) ∧ l.tradeId = f.tradeId
  at_price : f.terminal = true → s.journal.At f.tradeId price

theorem does_recordCloseFill (f : CloseFill) :
    Does i job (fun s' answered => ∀ price, answered = some price → Recorded s' f price)
      (call (.recordCloseFill f)) s := by
  refine does_plain (.recordCloseFill f) trivial fun s1 c answered _ _ _ han _ price hsm => ?_
  subst hsm
  -- an answer with a price is that of the transaction
  have hjr : journalAnswer s1 c (.recordCloseFill f) = some (s1.journal.recordCloseFillIn (c.leg f)) := rfl
  cases hre : s1.journal.recordCloseFillIn (c.leg f) with
  | mk answered journal =>
    rw [hre] at hjr
    unfold answer at han ⊢
    rw [hjr] at han ⊢
    cases hfl : c.failure with
    | some e =>
      rw [hfl] at han
      cases han
    | none =>
      rw [hfl] at han
      cases han
      obtain ⟨⟨l, hl, hkey, htrade, -⟩, -⟩ := Journal.recordCloseFillIn_some hre
      exact ⟨⟨l, hl, hkey, htrade⟩, fun htr => Journal.recordCloseFillIn_at hre htr⟩

def LoadedOk (s : State) (a : CloseAttempt) : Prop :=
  a.status = .completed → ∀ t ∈ a.tradeId, s.journal.Pinned t

theorem LoadedOk.onward {s' : State} (hs : Onward s s') (h : LoadedOk s a) : LoadedOk s' a :=
  fun hstatus t ht => hs.journal.pinned (h hstatus t ht)

theorem lawful_finalizeRecoveredClose {order : String} (hpr : Priced s t a.exchange (some order) price) :
    Lawful i job (finalizeRecoveredClose a t order price) s := by
  refine .after (lawful_aside (calls_cancelTerminalStop _ _ _ _)) fun _ s1 hs1 => ?_
  refine .step trivial fun _ s2 hs2 => ?_
  exact lawful_commitAndUntrack (hpr.onward (hs1.trans hs2))

theorem lawful_blockedUnready : Lawful i job blockedUnready s :=
  lawful_calls (.last trivial)

theorem lawful_recoverLeg (a : CloseAttempt) (order : Order) (price filled remaining : ℚ) (t : ℕ) :
    Lawful i job (recoverLeg a order price filled remaining t) s := by
  unfold recoverLeg
  dsimp only
  split
  · exact lawful_blockedUnready
  refine Ensures.bind along (does_recordCloseFill _) fun answered s1 _ hrc => ?_
  split
  · exact lawful_blockedUnready
  · rename_i aggregate
    have hleg := hrc aggregate rfl
    split
    · rename_i htr
      have hat : s1.journal.At t aggregate := hleg.at_price htr
      refine Does.after (lawful_call fun s2 hs2 => .inr fun t' ht' => ?_) fun _ s2 hs2 => ?_
      · cases ht'
        exact hs2.journal.pinned hat.pinned
      · refine .after (lawful_finalizeRecoveredClose (.inl (hs2.journal.at hat))) fun _ _ _ => ?_
        exact lawful_ret
    · exact lawful_calls (.step trivial fun _ =>
        .last trivial)

theorem lawful_recoverFilled (a : CloseAttempt) (order : Order) (resolution : FillResolution) :
    Lawful i job (recoverFilled a order resolution) s := by
  refine .after (lawful_calls (.attempt trivial)) fun answer s1 _ => ?_
  split
  · exact lawful_ret
  dsimp only
  split
  · exact lawful_ret
  split
  · exact lawful_ret
  refine .after (lawful_aside (aside_of_look (looks_attemptTradeId a order))) fun tradeId s2 _ => ?_
  split
  · exact lawful_blockedUnready
  · exact lawful_recoverLeg a order _ _ _ _

variable (setup : Setup)

theorem lawful_recoverSent (a : CloseAttempt) : Lawful i job (recoverSent setup a) s := by
  refine .after (lawful_aside (aside_of_look (looks_findCloseAttemptOrder setup a))) fun found s1 _ => ?_
  cases found with
  | none => exact lawful_ret
  | some order =>
    have hrt : ∀ s2, Lawful i job (recoverFound setup a order) s2 := by
      intro s2
      refine .after (lawful_aside (calls_resolveFillPrice setup _ _ _ _)) fun resolution s3 _ => ?_
      split
      · exact lawful_ret
      · split
        · exact lawful_calls (.last trivial)
        · exact lawful_ret
      · exact lawful_recoverFilled a order resolution
    dsimp only
    split
    · exact .step trivial fun _ s2 _ => hrt s2
    · exact hrt s1

theorem lawful_recoverOne (ha : LoadedOk s a) : Lawful i job (recoverOne setup a) s := by
  unfold recoverOne
  split
  · exact lawful_ret
  split
  · rename_i t hstatus htrade
    -- a completed close: the price is read again
    have hpn : s.journal.Pinned t := ha hstatus t htrade
    have hag : Does i job (fun s' answered => ∀ price, answered = some price → s'.journal.At t price)
        (call (.aggregateCloseFillPrice t)) s := by
      refine does_plain (.aggregateCloseFillPrice t) trivial fun s1 c answered hs1 _ _ han _ price hsm => ?_
      subst hsm
      have hpn1 := hs1.journal.pinned hpn
      simp only [answer, journalAnswer] at han ⊢
      split at han
      · exact ⟨hpn1, Except.ok.inj han⟩
      · cases han
    refine Ensures.bind along hag fun answered s1 _ hpr => ?_
    split
    · exact lawful_blockedUnready
    · rename_i price
      exact Does.after (lawful_finalizeRecoveredClose (.inl (hpr price rfl))) fun _ _ _ => lawful_ret
  · exact lawful_recoverSent setup a

theorem lawful_recoverAll {attempts : List CloseAttempt} (hld : ∀ a ∈ attempts, LoadedOk s a) :
    Lawful i job (recoverAll setup attempts) s := by
  induction attempts generalizing s with
  | nil => exact lawful_ret
  | cons a attempts ih =>
    refine .after (lawful_recoverOne setup (hld a List.mem_cons_self)) fun blocked s1 hs1 => ?_
    refine .after (ih fun b hb => (hld b (List.mem_cons_of_mem a hb)).onward hs1) fun rest s2 _ => ?_
    exact lawful_ret

theorem lawful_recoverCloseAttempts : Lawful i job (recoverCloseAttempts setup) s := by
  have hlo : Does i job (fun s' attempts => ∀ a ∈ attempts, LoadedOk s' a) (call .loadRecoverableCloseAttempts) s := by
    refine does_plain .loadRecoverableCloseAttempts trivial fun s1 c attempts _ htd _ han hon a ha hstatus t ht => ?_
    refine hon.journal.pinned ?_
    have hld : a ∈ s1.recoverableCloses := by
      simp only [answer, journalAnswer] at han
      split at han
      · rw [Except.ok.inj han]
        exact ha
      · rw [← Except.ok.inj han] at ha
        cases ha
    obtain ⟨row, hrow, hclose⟩ := List.mem_filterMap.1 hld
    obtain ⟨context, hcn, rfl⟩ := Option.map_eq_some_iff.1 hclose
    exact htd.completed row (List.mem_filter.1 hrow).1 (by rw [hcn]; rfl) hstatus t ht
  exact Ensures.bind along hlo fun attempts s1 _ hld => lawful_recoverAll setup hld

def Quoted (s : State) (exchange order : String) (price : ℚ) : Prop :=
  ∃ l ∈ s.journal.legs, l.key = (exchange, order) ∧ s.journal.At l.tradeId price

theorem Quoted.onward {s' : State} {order : String} (hs : Onward s s')
    (h : Quoted s exchange order price) : Quoted s' exchange order price := by
  obtain ⟨l, hl, hkey, hat⟩ := h
  obtain ⟨l', hl', hkp⟩ := hs.journal.grows.legs.mem_forth hl
  refine ⟨l', hl', hkp.key.trans hkey, ?_⟩
  rw [hkp.tradeId]
  exact hs.journal.at hat

def CloseOk (exchange : String) (s : State) (result : CloseResult) : Prop :=
  result.closed = true → ∀ price, result.exitPrice = some price →
    ∃ order, result.orderId = some order ∧ Quoted s exchange order price

theorem CloseOk.onward {s' : State} (hs : Onward s s')
    (h : CloseOk exchange s result) : CloseOk exchange s' result := by
  intro hclosed price hpr
  obtain ⟨order, hor, hqt⟩ := h hclosed price hpr
  exact ⟨order, hor, hqt.onward hs⟩

theorem closeOk_open (h : result.closed = false) : CloseOk exchange s result :=
  fun hclosed => by rw [h] at hclosed; cases hclosed

theorem closeOk_deferred (h : result.exitPrice = none) : CloseOk exchange s result :=
  fun _ price hpr => by rw [h] at hpr; cases hpr

section

variable (w : CloseWork)

theorem does_deferClose (orderId : String) (v : CloseVolume) (orderTerminal : Option Bool) :
    Does i job (CloseOk w.request.exchange) (deferClose w orderId v orderTerminal) s := by
  have hrs : Does i job (fun _ result => result.exitPrice = none)
      (handleUnresolvedClose w orderId v orderTerminal) s := by
    refine .step trivial fun _ s1 _ => ?_
    refine .step trivial fun tradeId s2 _ => ?_
    refine .step trivial fun _ s3 _ => ?_
    exact .ret along rfl
  refine .bind along hrs fun result s1 _ hnn => ?_
  split
  · exact Does.after (lawful_aside (calls_dropStop w)) fun _ s2 _ => Ensures.ret along (closeOk_deferred hnn)
  · exact .ret along (closeOk_deferred hnn)

theorem lawful_markClose (filled : ℚ) (v : CloseVolume)
    (hpn : v.terminal w.amount = true → ∀ t ∈ w.tradeId, s.journal.Pinned t) :
    Lawful i job (markClose w filled v) s := by
  unfold markClose onAttempt
  split
  · split
    · rename_i htr
      exact lawful_call fun s1 hs1 => .inr fun t ht => hs1.journal.pinned (hpn htr t ht)
    · exact lawful_calls (.last trivial)
    · exact .raise along
  · exact lawful_ret

theorem does_bookClose {order : Order} (hid : order.id = some id) (price : ℚ) (v : CloseVolume) :
    Does i job (CloseOk w.request.exchange) (bookClose w order price v) s := by
  unfold bookClose
  split
  · exact .ret along (closeOk_open rfl)
  rename_i filled hfi
  have hre : Does i job (fun s' answered => ∀ aggregate, answered = some aggregate → ∃ t, w.tradeId = some t ∧
      (∃ l ∈ s'.journal.legs, l.key = (w.request.exchange, id) ∧ l.tradeId = t) ∧
      (v.terminal w.amount = true → s'.journal.At t aggregate))
      (recordLeg w (order.id.getD w.clientOrderId) price filled v) s := by
    unfold recordLeg
    split
    · exact .ret along nofun
    · rename_i t ht
      refine .mono (fun s' answered _ hrc aggregate hsm => ?_) (does_recordCloseFill _)
      have hleg := hrc aggregate hsm
      obtain ⟨l, hl, hkey, htrade⟩ := hleg.leg
      refine ⟨t, ht, ⟨l, hl, ?_, htrade⟩, hleg.at_price⟩
      rw [hkey, hid]
      rfl
  refine .bind along hre fun answered s1 _ hrc => ?_
  split
  · exact does_deferClose w _ v _
  rename_i aggregate
  obtain ⟨t, ht, ⟨l, hl, hkey, htrade⟩, hat⟩ := hrc aggregate rfl
  refine Does.after (lawful_markClose w filled v fun htr t' ht' => ?_) fun _ s2 hs2 => ?_
  · rw [ht] at ht'
    cases ht'
    exact (hat htr).pinned
  split
  · rename_i htr
    have hqt : Quoted s1 w.request.exchange id aggregate := ⟨l, hl, hkey, htrade ▸ hat htr⟩
    refine .after (lawful_aside (calls_dropStop w)) fun _ s3 hs3 => .ret along ?_
    intro _ price' hpr'
    cases hpr'
    exact ⟨id, hid, (hqt.onward hs2).onward hs3⟩
  · exact .step trivial fun _ _ _ => .ret along (closeOk_open rfl)

theorem does_classifyClose {order : Order} (hid : order.id = some id) (resolution : FillResolution)
    (v : CloseVolume) : Does i job (CloseOk w.request.exchange) (classifyClose w order resolution v) s := by
  unfold classifyClose
  split
  · exact .step trivial fun _ _ _ => .ret along (closeOk_open rfl)
  split
  · exact does_deferClose w _ _ _
  split
  · exact .raise along
  · exact does_bookClose w hid _ v

theorem does_settleClose {order : Order} (hid : order.id = some id) :
    Does i job (CloseOk w.request.exchange) (settleClose setup w order) s := by
  unfold settleClose
  simp only [hid]
  refine .after (lawful_calls (calls_onAttempt fun _ _ => .perform trivial)) fun _ s1 _ => ?_
  refine .after (lawful_aside (calls_resolveFillPrice setup _ _ _ _)) fun resolution s2 _ => ?_
  split
  · split
    · exact .after (lawful_calls (calls_onAttempt fun _ _ => .perform trivial)) fun _ _ _ =>
        .ret along (closeOk_open rfl)
    · exact .ret along (closeOk_open rfl)
  · refine .after (lawful_aside (calls_closeVolume w resolution)) fun v s3 _ => ?_
    exact does_classifyClose w hid resolution v

theorem createMarketOrder_id {m : MarketOrder} {c : Chance} {order : Order}
    (h : (answer i s (.createMarketOrder m) c).1 = .ok order) : ∃ id, order.id = some id := by
  simp only [answer, journalAnswer, Desk.answer, Desk.Chance.failureOf] at h
  split at h
  · simp only [Desk.value] at h
    split at h
    · cases h
    · split at h
      · exact ⟨c.text, by rw [← Except.ok.inj h]; rfl⟩
      · exact ⟨c.text, by rw [← Except.ok.inj h]; rfl⟩
  · cases h

theorem does_submitClose : Does i job (CloseOk w.request.exchange) (submitClose setup w) s := by
  have hfa : ∀ (s' : State) (update : ℕ → Program Unit), (∀ attemptId, (update attemptId).Calls Plain) →
      Does i job (CloseOk w.request.exchange) (do
        onAttempt w.attemptId update
        return { closed := false } : Program CloseResult) s' := by
    intro s' update hup
    exact .after (lawful_calls (calls_onAttempt fun id _ => hup id)) fun _ _ _ => .ret along (closeOk_open rfl)
  have hsn : Does i job (fun _ r => ∀ order, r = .ok order → ∃ id, order.id = some id) (tryCall (.createMarketOrder
        { exchange := w.request.exchange
          symbol := w.request.symbol
          direction := closeDirection w.positionSide
          amount := w.amount
          clientOrderId := w.clientOrderId
          reduceOnly := true })) s := by
    refine .attempt kept along (fun _ _ _ _ => trivial) (fun _ _ _ _ hok => answer_onward hok)
      (fun _ _ _ order h => by cases h)
      fun s1 c order _ _ _ han _ order' h => ?_
    cases h
    exact createMarketOrder_id han
  refine .bind along hsn fun r s1 _ hid => ?_
  split
  · rename_i order
    obtain ⟨id, hid⟩ := hid order rfl
    exact does_settleClose setup w hid
  all_goals exact hfa s1 _ fun _ => .perform trivial

end

variable (r : CloseRequest)

theorem does_closeFound (side : Side) (contracts : ℚ) :
    Does i job (CloseOk r.exchange) (closeFound setup r side contracts) s := by
  refine .step trivial fun sl s1 _ => ?_
  refine .after (lawful_aside (aside_of_look (looks_trackedTradeId r))) fun tradeId s2 _ => ?_
  refine .step trivial fun clientOrderId s3 _ => ?_
  refine .step trivial fun attemptId s4 _ => ?_
  split
  · exact does_submitClose setup _
  · exact .step trivial fun _ _ _ => does_submitClose setup _

theorem does_closeLocked : Does i job (CloseOk r.exchange) (closeLocked setup r) s := by
  unfold closeLocked
  split
  · exact .ret along (closeOk_open rfl)
  refine .after ?_ fun active s1 _ => ?_
  · exact lawful_calls (.bind (.attempt trivial) fun _ => trivial)
  split
  · exact .ret along (closeOk_open rfl)
  refine .step trivial fun positions s2 _ => ?_
  split
  · exact .ret along (closeOk_open rfl)
  split
  · exact .ret along (closeOk_open rfl)
  · exact does_closeFound setup r _ _

theorem does_closePosition : Does i job (CloseOk r.exchange) (closePosition setup r) s := by
  refine .step trivial fun locked s1 _ => ?_
  split
  · exact .ensure along (does_closeLocked setup r) (fun _ _ => lawful_calls (.perform trivial))
      fun _ _ _ hs h => h.onward hs
  · exact .ret along (closeOk_open rfl)

end

end Schurfer.Commits
