import Schurfer.Desk.Book
import Schurfer.Lib.Ensures

/-!
# Which stops may be cancelled

A tick cancels a stop only when the entry the stop was placed for is flat, up to the tolerance of a close. Entries are
sent under the lock of their instrument, where no earlier entry holds anything; and a close attempt names a stop whose
entry is no smaller than the close.
-/

namespace Schurfer.Protection

open Desk Orders Threads Prog List
open LateFill (Failure)

variable {orderId exchange symbol : String} {s' s : State} {e e' : VenueOrder} {amount : ℚ} {side : Side}

/-- The order is known, and every entry it was placed for is as `P` says. -/
def Guarded (P : VenueOrder → Prop) (s : State) (exchange orderId : String) : Prop :=
  ∃ o ∈ s.orders, o.key = (exchange, orderId) ∧ ∀ e ∈ s.orders, o.Protects e → P e

def IsFlat (e : VenueOrder) : Prop := e.left ≤ closeTolerance e.executed

/-- A close of the amount is no larger than the entry, if anything is left of that. -/
def Spans (symbol : String) (side : Side) (amount : ℚ) (e : VenueOrder) : Prop :=
  e.left = 0 ∨ (e.holds e.exchange symbol side = true ∧ amount ≤ e.executed)

def Released (s : State) (exchange orderId : String) : Prop :=
  ∀ o ∈ s.orders, o.key = (exchange, orderId) → ∀ e ∈ s.orders, o.Protects e → IsFlat e

theorem Guarded.released (hbk : Book s.orders)
    (h : Guarded IsFlat s exchange orderId) : Released s exchange orderId := by
  obtain ⟨o, ho, hkey, hfl⟩ := h
  intro o' ho' hkey'
  obtain rfl := hbk.eq_of_key ho' ho (hkey'.trans hkey.symm)
  exact hfl

def Named (s : State) (pair : Pair) (orderId : String) : Prop :=
  ∃ o ∈ s.orders, o.key = (pair.1, orderId) ∧ o.pair = pair

def OnStop (P : String → Prop) (context : CloseContext) : Prop := ∀ id, nonEmpty context.slOrderId = some id → P id

theorem closeTolerance_mono {a b : ℚ} (h : a ≤ b) : closeTolerance a ≤ closeTolerance b := by
  exact max_le_max (by linarith) (le_refl _)

theorem isFlat_of_zero (h : e.left = 0) : IsFlat e := by
  unfold IsFlat
  rw [h]
  exact le_max_of_le_right (by norm_num)

theorem executed_of_isEntry (hen : e.isEntry = true) (h : e.Shrinks e') : e'.executed = e.executed := by
  refine h.executed ?_
  unfold VenueOrder.isEntry at hen
  unfold VenueOrder.isStop
  split at hen
  · rename_i side hkind
    rw [hkind]
  · cases hen

theorem IsFlat.shrinks (hen : e.isEntry = true) (hsh : e.Shrinks e') (h : IsFlat e) : IsFlat e' := by
  unfold IsFlat at h ⊢
  rw [executed_of_isEntry hen hsh]
  exact hsh.left_le.trans h

theorem Spans.shrinks (hen : e.isEntry = true)
    (hsh : e.Shrinks e') (h : Spans symbol side amount e) : Spans symbol side amount e' := by
  refine h.imp hsh.left_eq_zero fun ⟨hhl, hle⟩ => ?_
  rw [hsh.exchange, hsh.holds, executed_of_isEntry hen hsh]
  exact ⟨hhl, hle⟩

structure Onward (s s' : State) : Prop where
  orders : Rows.Grows VenueOrder.Shrinks
    (fun n => n.isEntry = true → ∀ o ∈ s.orders, o.tag ≠ some n.clientOrderId) s.orders s'.orders
  attempts : Rows.Grows AttemptRow.Same (fun _ => True) s.attempts s'.attempts
  issued : s.issued ⊆ s'.issued

theorem Onward.refl (s : State) : Onward s s := ⟨.refl .refl _, .refl .refl _, fun _ h => h⟩

theorem Onward.trans {s1 s2 s3 : State} (h : Onward s1 s2) (h' : Onward s2 s3) : Onward s1 s3 where
  orders := by
    refine h.orders.trans (fun _ _ _ => .trans) (fun n n' hn hsh hen => ?_)
      (h'.orders.mono (fun _ _ hsh => hsh) fun n hn hen o ho => ?_)
    · rw [hsh.clientOrderId]
      exact hn (hsh.isEntry ▸ hen)
    · obtain ⟨o', ho', hsh⟩ := h.orders.mem_forth ho
      rw [← hsh.tag]
      exact hn hen o' ho'
  attempts := h.attempts.trans (fun _ _ _ => AttemptRow.Same.trans) (fun _ _ _ _ => trivial) h'.attempts
  issued := fun x hx => h'.issued (h.issued hx)

theorem Guarded.onward {P : VenueOrder → Prop} (hP : ∀ e e', e.isEntry = true → e.Shrinks e' → P e → P e')
    (hs : Onward s s') (h : Guarded P s exchange orderId) : Guarded P s' exchange orderId := by
  obtain ⟨o, ho, hkey, het⟩ := h
  obtain ⟨o', ho', hsh⟩ := hs.orders.mem_forth ho
  refine ⟨o', ho', hsh.key.trans hkey, fun e' he' hpt => ?_⟩
  rcases hs.orders.mem_back he' with ⟨e, he, hmv⟩ | hnew
  · have hpr := (hsh.protects hmv).1 hpt
    exact hP e e' hpr.2.1 hmv (het e he hpr)
  · obtain ⟨-, hen, -, htag⟩ := hpt
    rw [hsh.tag] at htag
    exact absurd htag (hnew hen o ho)

theorem Guarded.isFlat_onward (hs : Onward s s')
    (h : Guarded IsFlat s exchange orderId) : Guarded IsFlat s' exchange orderId :=
  h.onward (fun _ _ => IsFlat.shrinks) hs

theorem Guarded.spans_onward (hs : Onward s s') (h : Guarded (Spans symbol side amount) s exchange orderId) :
    Guarded (Spans symbol side amount) s' exchange orderId :=
  h.onward (fun _ _ => Spans.shrinks) hs

theorem Named.onward {pair : Pair} (hs : Onward s s') (h : Named s pair orderId) : Named s' pair orderId := by
  obtain ⟨o, ho, hkey, hpair⟩ := h
  obtain ⟨o', ho', hsh⟩ := hs.orders.mem_forth ho
  exact ⟨o', ho', hsh.key.trans hkey, hsh.pair.trans hpair⟩

def Foreign (i : ℕ) (s : State) (n : VenueOrder) : Prop :=
  (n.isEntry = true → s.locks n.pair ≠ some i) ∧ ∀ id, n.tag = some id → (id, i) ∉ s.issued

/-- What a thread relies on besides: its locks stay its own, its snapshots what they were, and new orders are
none of its own. -/
structure Rely (i : ℕ) (s s' : State) : Prop extends Onward s s' where
  foreign : Rows.Grows VenueOrder.Shrinks (Foreign i s) s.orders s'.orders
  locks : ∀ pair, s.locks pair = some i → s'.locks pair = some i
  seen : s'.seen i = s.seen i

theorem Rely.refl (i : ℕ) (s : State) : Rely i s s := ⟨.refl s, .refl .refl _, fun _ h => h, rfl⟩

theorem Rely.trans {i : ℕ} {s1 s2 s3 : State} (h : Rely i s1 s2) (h' : Rely i s2 s3) : Rely i s1 s3 where
  toOnward := h.toOnward.trans h'.toOnward
  foreign := by
    refine h.foreign.trans (fun _ _ _ => .trans) (fun n n' hn hsh => ?_)
      (h'.foreign.mono (fun _ _ hsh => hsh) fun n hn => ⟨fun hen hlc => ?_, fun id htag hid => ?_⟩)
    · unfold Foreign
      rw [hsh.isEntry, hsh.pair, hsh.tag]
      exact hn
    · exact hn.1 hen (h.locks _ hlc)
    · exact hn.2 id htag (h.issued hid)
  locks pair hlc := h'.locks pair (h.locks pair hlc)
  seen := h'.seen.trans h.seen

/-- The reconciliation reads the key of a stop only when the tick's snapshot had seen every entry the stop
was placed for; and the precision of the exchange leaves the amount of a position as it is listed. -/
def Settled (setup : Setup) (i : ℕ) (s : State) : Op → Chance → Prop
  | .getStopKey .reconcile pair, _ =>
    ∀ id ∈ s.stopKeys pair, ∀ o ∈ s.orders, o.key = (pair.1, id) → ∀ e ∈ s.orders, o.Protects e →
      e ∈ s.orders.take (s.seen i pair.1)
  | .fetchPositions .close exchange, _ =>
    ∀ p ∈ s.positions exchange, setup.amountToPrecision exchange p.symbol p.contracts = p.contracts
  | _, _ => True

/-- An entry is for the base its symbol begins with, in upper case; a close by hand is of a base whose market
has it in its symbol. -/
def Proper (setup : Setup) : Job → Prop
  | .place r => baseOf r.symbol = r.base.toUpper ∧ (baseOf r.symbol).toUpper = baseOf r.symbol
  | .close exchange base => ∀ symbol ∈ resolveExecutionInstrument (setup.markets exchange) base,
      (baseOf symbol).toUpper = base.toUpper
  | _ => True

instance (setup : Setup) (i : ℕ) (s : State) (o : Op) (c : Chance) : Decidable (Settled setup i s o c) := by
  unfold Settled
  split <;> infer_instance

instance (setup : Setup) (job : Job) : Decidable (Proper setup job) := by
  unfold Proper
  split <;> infer_instance

structure Orderly (s : State) : Prop where
  book : Book s.orders
  upper : ∀ e ∈ s.orders, e.isEntry = true → (baseOf e.symbol).toUpper = baseOf e.symbol
  ids : (s.issued.map Prod.fst).Nodup
  tags : ∀ o ∈ s.orders, ∀ id, o.tag = some id → id ∈ s.issued.map Prod.fst
  stops : ∀ pair id, s.stopKeys pair = some id → Named s pair id
  rows : KeysOk s.attempts
  closes : ∀ row ∈ s.attempts, ∀ context, row.context = some context →
    OnStop (Guarded (Spans row.symbol context.positionSide row.requestedAmount) s row.exchange) context
  completed : ∀ row ∈ s.attempts, row.status = .completed → ∀ context, row.context = some context →
    OnStop (Guarded IsFlat s row.exchange) context

/-- An entry may be sent: under the lock of its instrument, while no entry of that holds anything, and under
an id that is new. -/
structure MayEnter (i : ℕ) (s : State) (m : MarketOrder) : Prop where
  issued : (m.clientOrderId, i) ∈ s.issued
  locked : s.locks m.pair = some i
  idle : ∀ e ∈ s.orders, e.isEntry = true → e.pair = m.pair → e.left = 0
  fresh : ∀ o ∈ s.orders, o.tag ≠ some m.clientOrderId
  upper : (baseOf m.symbol).toUpper = baseOf m.symbol

structure MayProtect (i : ℕ) (s : State) (stop : StopOrder) : Prop where
  issued : (stop.entryClientOrderId, i) ∈ s.issued
  symbols : ∀ o ∈ s.orders, o.tag = some stop.entryClientOrderId → o.exchange = stop.exchange → o.symbol = stop.symbol

def Permitted (i : ℕ) (job : Job) (s : State) : Op → Prop
  | .createMarketOrder m => m.reduceOnly = false → MayEnter i s m
  | .createStopMarketOrder stop => MayProtect i s stop
  | .setStopKey pair orderId => Named s pair orderId
  | .createCloseAttempt n =>
    OnStop (Guarded (Spans n.symbol n.context.positionSide n.requestedAmount) s n.exchange) n.context
  | .markCompleted id _ _ => ∀ row ∈ s.attempts, row.id = id → ∀ context, row.context = some context →
      OnStop (Guarded IsFlat s row.exchange) context
  | .cancelOrder exchange (some orderId) _ => job = .tick → Released s exchange orderId
  | _ => True

def contract : Contract State Failure Op Ans Job where
  inv := Orderly
  rely := Rely
  pre i job _ := Permitted i job

section

variable {i : ℕ} {job : Job} {o : Op} {c : Chance} {n : VenueOrder}

theorem key_not_mem {clientOrderId : String} (h : s.taken exchange orderId clientOrderId = false) :
    (exchange, orderId) ∉ s.orders.map VenueOrder.key := by
  intro hmem
  obtain ⟨o, ho, hkey⟩ := mem_map.1 hmem
  have htk : s.taken exchange orderId clientOrderId = true := by
    unfold State.taken
    rw [Bool.or_eq_true]
    refine .inr (any_eq_true.2 ⟨o, ho, ?_⟩)
    have hexchange : o.exchange = exchange := congrArg Prod.fst hkey
    have hid : o.id = orderId := congrArg Prod.snd hkey
    simp only [hexchange, hid, decide_true, Bool.true_or, Bool.and_true]
  rw [h] at htk
  cases htk

theorem sent_cases (hn : NewOrder s c o n) :
    (n.tag = none ∧ n.isEntry = false ∧ ∃ m, o = .createMarketOrder m ∧ m.reduceOnly = true) ∨
    (∃ m, o = .createMarketOrder m ∧ m.reduceOnly = false ∧ n = newEntryOrder c m) ∨
    ∃ stop, o = .createStopMarketOrder stop ∧ n = newStopOrder c stop := by
  cases o with
  | createMarketOrder m =>
    obtain ⟨-, rfl⟩ := hn
    cases hrd : m.reduceOnly with
    | true => exact .inl ⟨rfl, rfl, m, rfl, hrd⟩
    | false => exact .inr (.inl ⟨m, rfl, hrd, rfl⟩)
  | createStopMarketOrder stop => exact .inr (.inr ⟨stop, rfl, hn.2⟩)
  | _ => exact hn.elim

theorem sent_fits (hpre : Permitted i job s o) (hn : NewOrder s c o n) : Fits s.orders n := by
  cases o with
  | createMarketOrder m =>
    obtain ⟨hfree, rfl⟩ := hn
    have hkey := key_not_mem hfree
    cases hrd : m.reduceOnly with
    | true =>
      refine ⟨⟨le_refl 0, reducedOf_nonneg s c m⟩, hkey, fun hen => ?_, fun o ho id htag => ?_⟩
      · cases hen
      · cases htag
    | false =>
      have hmay := hpre hrd
      refine ⟨⟨le_max_left _ _, le_refl _⟩, hkey, fun _ => hmay.idle, fun o ho id htag htag' => ?_⟩
      cases htag
      exact absurd htag' (hmay.fresh o ho)
  | createStopMarketOrder stop =>
    obtain ⟨hfree, rfl⟩ := hn
    refine ⟨⟨le_refl 0, le_refl 0⟩, key_not_mem hfree, fun hen => ?_, fun o ho id htag htag' hexchange => ?_⟩
    · cases hen
    · cases htag
      exact MayProtect.symbols hpre o ho htag' hexchange
  | _ => exact hn.elim

theorem issued_subset : s.issued ⊆ (answer i s o c).2.issued := by
  rcases answer_issued i s o c with heq | ⟨-, heq⟩
  · rw [heq]
    exact fun _ h => h
  · rw [heq]
    exact subset_append_left _ _

theorem answer_writes : Writes o s.attempts (answer i s o c).2.attempts := by
  rcases answer_cases i s o c with heq | heq
  · rw [heq]
    exact effect_writes i s c o
  · rw [heq, missed_attempts]
    exact .refl _ _

theorem answer_onward (hs : Orderly s) (hpre : Permitted i job s o) : Onward s (answer i s o c).2 where
  orders := by
    refine (answer_orders i s o c hs.book.left_nonneg).grows.mono (fun _ _ h => h) fun n hn hen o' ho' => ?_
    rcases sent_cases hn with ⟨-, hnot, -⟩ | ⟨m, rfl, hrd, rfl⟩ | ⟨stop, rfl, rfl⟩
    · rw [hnot] at hen
      cases hen
    · exact (hpre hrd).fresh o' ho'
    · cases hen
  attempts := answer_writes.grows
  issued := issued_subset

theorem answer_rely (hs : Orderly s) (hpre : Permitted i job s o) {j : ℕ} (hj : j ≠ i) :
    Rely j s (answer i s o c).2 where
  toOnward := answer_onward hs hpre
  foreign := by
    refine (answer_orders i s o c hs.book.left_nonneg).grows.mono (fun _ _ h => h) fun n hn => ?_
    -- an id that was issued to this thread was not to the other
    have hown : ∀ id, (id, i) ∈ s.issued → (id, j) ∉ s.issued := by
      intro id hi hj'
      have heq := inj_on_of_nodup_map hs.ids hi hj' rfl
      exact hj (congrArg Prod.snd heq).symm
    rcases sent_cases hn with ⟨htag, hnot, -⟩ | ⟨m, rfl, hrd, rfl⟩ | ⟨stop, rfl, rfl⟩
    · refine ⟨fun hen => ?_, fun id hid => ?_⟩
      · rw [hnot] at hen
        cases hen
      · rw [htag] at hid
        cases hid
    · have hmay := hpre hrd
      refine ⟨fun _ hlc => ?_, fun id hid => ?_⟩
      · exact hj (Option.some.inj (hlc.symm.trans hmay.locked))
      · cases hid
        exact hown _ hmay.issued
    · refine ⟨fun hen => ?_, fun id hid => ?_⟩
      · cases hen
      · cases hid
        exact hown _ (MayProtect.issued hpre)
  locks _ hlc := answer_locks i s o c hj hlc
  seen := answer_seen i s o c hj

theorem Orderly.answer (hs : Orderly s) (hpre : Permitted i job s o) : Orderly (answer i s o c).2 := by
  have hon : Onward s (Desk.answer i s o c).2 := answer_onward hs hpre
  have hadd := answer_orders i s o c hs.book.left_nonneg
  have hba := fun {n} (hn : n ∈ (Desk.answer i s o c).2.orders) => hadd.grows.mem_back hn
  constructor
  case book => exact hs.book.adds hadd (fun _ _ => NewOrder.unique) fun n hn => sent_fits hpre hn
  case upper =>
    intro e' he' hen
    rcases hba he' with ⟨e, he, hsh⟩ | hnew
    · rw [hsh.symbol]
      exact hs.upper e he (hsh.isEntry ▸ hen)
    · rcases sent_cases hnew with ⟨-, hnot, -⟩ | ⟨m, rfl, hrd, rfl⟩ | ⟨stop, rfl, rfl⟩
      · rw [hnot] at hen
        cases hen
      · exact (hpre hrd).upper
      · cases hen
  case ids =>
    rcases answer_issued i s o c with heq | ⟨hnew, heq⟩
    · rw [heq]
      exact hs.ids
    · rw [heq, map_append]
      refine .append hs.ids (nodup_singleton _) fun id hold hid => hnew ?_
      rwa [mem_singleton.1 hid] at hold
  case tags =>
    intro o' ho' id htag
    have his : ∀ x ∈ s.issued, x.1 ∈ (Desk.answer i s o c).2.issued.map Prod.fst :=
      fun x hx => mem_map_of_mem (hon.issued hx)
    rcases hba ho' with ⟨old, hold, hsh⟩ | hnew
    · rw [hsh.tag] at htag
      obtain ⟨x, hx, rfl⟩ := mem_map.1 (hs.tags old hold id htag)
      exact his x hx
    · rcases sent_cases hnew with ⟨hnn, -⟩ | ⟨m, rfl, hrd, rfl⟩ | ⟨stop, rfl, rfl⟩
      · rw [hnn] at htag
        cases htag
      · cases htag
        exact his _ (hpre hrd).issued
      · cases htag
        exact his _ (MayProtect.issued hpre)
  case stops =>
    intro pair id hkey
    rcases answer_stopKeys i s o c hkey with hold | rfl
    · exact (hs.stops pair id hold).onward hon
    · exact Named.onward hon hpre
  case rows => exact answer_writes.keysOk hs.rows
  case closes =>
    intro row' hrow' context hcn id hid
    rcases answer_writes.close hrow' hcn with ⟨row, hrow, hsame⟩ | ⟨n, rfl, hexchange, hsy, ham, rfl⟩
    · rw [hsame.symbol, hsame.requestedAmount, hsame.exchange]
      exact (hs.closes row hrow context (hsame.context ▸ hcn) id hid).spans_onward hon
    · rw [hexchange, hsy, ham]
      exact Guarded.spans_onward hon (hpre id hid)
  case completed =>
    intro row' hrow' hstatus context hcn id hid
    rcases answer_writes.completed hrow' (by rw [hcn]; rfl) hstatus with hold | ⟨row, hrow, hsame, filled, rfl⟩
    · exact (hs.completed row' hold hstatus context hcn id hid).isFlat_onward hon
    · rw [hsame.exchange]
      exact (hpre row hrow rfl context (hsame.context ▸ hcn) id hid).isFlat_onward hon

def Own : Op → Prop
  | .acquireLock _ | .releaseLock _ | .fetchPositions .snapshot _ | .createStopMarketOrder _ => False
  | .createMarketOrder m => m.reduceOnly = true
  | _ => True

theorem own_keys (ho : Own o) : (answer i s o c).2.locks = s.locks ∧ (answer i s o c).2.seen = s.seen := by
  obtain ⟨t, hmove, hkeys⟩ := answer_keys i s o c
  rw [hkeys.locks, hkeys.seen]
  cases hmove with
  | acquire | release | look => exact ho.elim
  | _ => exact ⟨rfl, rfl⟩

theorem answer_own (ho : Own o) (hs : Orderly s) (hpre : Permitted i job s o) : Rely i s (answer i s o c).2 where
  toOnward := answer_onward hs hpre
  foreign := by
    refine (answer_orders i s o c hs.book.left_nonneg).grows.mono (fun _ _ h => h) fun n hn => ?_
    rcases sent_cases hn with ⟨htag, hnot, -⟩ | ⟨m, rfl, hrd, rfl⟩ | ⟨stop, rfl, rfl⟩
    · refine ⟨fun hen => ?_, fun id hid => ?_⟩
      · rw [hnot] at hen
        cases hen
      · rw [htag] at hid
        cases hid
    · have hrd' : m.reduceOnly = true := ho
      rw [hrd] at hrd'
      cases hrd'
    · exact ho.elim
  locks pair hlc := by rw [own_keys ho |>.1, hlc]
  seen := by rw [own_keys ho |>.2]

theorem Orderly.shrinks (hs : Orderly s)
    (hor : Rows.Adds VenueOrder.Shrinks (fun _ => False) s.orders s'.orders) (his : s'.issued = s.issued)
    (hat : s'.attempts = s.attempts) (hst : ∀ pair id, s'.stopKeys pair = some id → s.stopKeys pair = some id) :
    Orderly s' ∧ Onward s s' := by
  have hon : Onward s s' := by
    refine ⟨hor.grows.mono (fun _ _ h => h) fun n hn => hn.elim, ?_, ?_⟩
    · rw [hat]
      exact .refl .refl _
    · rw [his]
      exact fun _ h => h
  have hba : ∀ o' ∈ s'.orders, ∃ o ∈ s.orders, o.Shrinks o' :=
    fun o' ho' => (hor.grows.mem_back ho').resolve_right id
  refine ⟨?_, hon⟩
  constructor
  case book => exact hs.book.adds hor (fun _ _ h => h.elim) fun _ h => h.elim
  case upper =>
    intro e' he' hen
    obtain ⟨e, he, hsh⟩ := hba e' he'
    rw [hsh.symbol]
    exact hs.upper e he (hsh.isEntry ▸ hen)
  case ids => rw [his]; exact hs.ids
  case tags =>
    intro o' ho' id htag
    obtain ⟨o, ho, hsh⟩ := hba o' ho'
    rw [his]
    exact hs.tags o ho id (hsh.tag ▸ htag)
  case stops => exact fun pair id hkey => (hs.stops pair id (hst pair id hkey)).onward hon
  case rows => rw [hat]; exact hs.rows
  case closes =>
    rw [hat]
    exact fun row hrow context hcn id hid => (hs.closes row hrow context hcn id hid).spans_onward hon
  case completed =>
    rw [hat]
    exact fun row hrow hstatus context hcn id hid =>
      (hs.completed row hrow hstatus context hcn id hid).isFlat_onward hon

theorem env_keys (s : State) (e : Event) : (env s e).locks = s.locks ∧ (env s e).issued = s.issued ∧
    (env s e).seen = s.seen ∧ ∀ pair id, (env s e).stopKeys pair = some id → s.stopKeys pair = some id := by
  cases e with
  | fillStop exchange orderId amount status =>
    simp only [env, fillStop]
    split
    · split <;> exact ⟨rfl, rfl, rfl, fun _ _ h => h⟩
    · exact ⟨rfl, rfl, rfl, fun _ _ h => h⟩
  | loseStopKey pair =>
    refine ⟨rfl, rfl, rfl, fun pair' id h => ?_⟩
    rcases update_cases (f := s.stopKeys) h with hold | ⟨-, hnn⟩
    · exact hold
    · cases hnn
  | _ => exact ⟨rfl, rfl, rfl, fun _ _ h => h⟩

theorem Orderly.env (hs : Orderly s) (e : Event) : Orderly (env s e) ∧ ∀ i, Rely i s (Desk.env s e) := by
  obtain ⟨hlo, his, hsn, hst⟩ := env_keys s e
  have hor : Rows.Adds VenueOrder.Shrinks (fun _ => False) s.orders (Desk.env s e).orders :=
    env_orders hs.book.left_nonneg hs.book.keys e
  obtain ⟨hod, hon⟩ := hs.shrinks hor his (env_attempts s e) hst
  refine ⟨hod, fun i => ⟨hon, hor.grows.mono (fun _ _ h => h) fun _ h => h.elim, fun pair h => ?_, ?_⟩⟩
  · rw [hlo, h]
  · rw [hsn]

theorem Orderly.crash (hs : Orderly s) (i : ℕ) : Orderly (crash i s) ∧ ∀ j, j ≠ i → Rely j s (Desk.crash i s) := by
  have hor : Rows.Adds VenueOrder.Shrinks (fun _ => False) s.orders (Desk.crash i s).orders := .refl .refl _
  obtain ⟨hod, hon⟩ := hs.shrinks hor rfl rfl fun _ _ h => h
  refine ⟨hod, fun j hj => ⟨hon, .refl .refl _, fun pair h => ?_, rfl⟩⟩
  have hne : s.locks pair ≠ some i := fun h' => hj (Option.some.inj (h.symm.trans h'))
  exact (if_neg hne).trans h

def refused : Failure := .other "not settled"

theorem kept (setup : Setup) : Kept (world.guard (Settled setup) refused) contract Own :=
  Kept.guard refused Rely.refl (fun _ _ _ _ => Rely.trans)
    (fun _ _ _ _ _ _ _ hs hpre => ⟨hs.answer hpre, fun _ hj => answer_rely hs hpre hj⟩)
    (fun _ _ _ _ _ _ _ ho hs hpre => answer_own ho hs hpre)

end

end Schurfer.Protection
