import Schurfer.Protection.Contract

/-!
# Closes that drop a stop

Both drop a stop on evidence: the exchange lists no more than the tolerance of the position, or the close order filled
all but the tolerance of what was held when it was sent.
-/

namespace Schurfer.Protection

open Desk Orders Threads Prog List Ensures Option
open LateFill (Failure)

variable {exchange id symbol : String} {order : Order} {a : CloseAttempt} {q price : ℚ} {s' s : State} {v : CloseVolume}
  {context : CloseContext} {o : Op} {resolution : FillResolution} {α : Type} {p : Program α} {c : Chance}

def Calm : Op → Prop
  | .acquireLock _ | .releaseLock _ | .fetchPositions .snapshot _ | .createStopMarketOrder _ | .createMarketOrder _
  | .setStopKey _ _ | .createCloseAttempt _ | .markCompleted _ _ _ | .cancelOrder _ _ _ => False
  | _ => True

theorem calm_cases (h : Calm o) : Own o ∧ ∀ i job s, Permitted i job s o := by
  cases o with
  | acquireLock | releaseLock | createStopMarketOrder | createMarketOrder | setStopKey | createCloseAttempt
  | markCompleted | cancelOrder => exact h.elim
  | fetchPositions reader exchange =>
    cases reader with
    | snapshot => exact h.elim
    | _ => exact ⟨trivial, fun _ _ _ => trivial⟩
  | _ => exact ⟨trivial, fun _ _ _ => trivial⟩

theorem calm_of_booking (hp : p.Calls Booking) : p.Calls Calm := by
  refine hp.mono fun o ho => ?_
  cases o with
  | acquireLock | releaseLock | createStopMarketOrder | createMarketOrder | setStopKey | createCloseAttempt
  | markCompleted | cancelOrder => cases ho
  | fetchPositions reader exchange =>
    cases reader with
    | snapshot => cases ho
    | _ => trivial
  | _ => trivial

theorem calm_of_look (hp : p.Calls Look) : p.Calls Calm := calm_of_booking (booking_of_look hp)

section

variable {setup : Setup} {i t : ℕ} {job : Job} {orderId : String} {side : Side} {pair : Pair} {β : Type}

abbrev Does {α : Type} (setup : Setup) (i : ℕ) (job : Job) (R : State → State → Prop) (Q : State → α → Prop)
    (p : Program α) (s : State) : Prop :=
  Ensures (world.guard (Settled setup) refused) contract i job R Q p s

abbrev Lawful {α : Type} (setup : Setup) (i : ℕ) (job : Job) (p : Program α) (s : State) : Prop :=
  Does setup i job (Rely i) (fun _ _ => True) p s

theorem along : Along contract i (Rely i) := ⟨Rely.refl i, fun _ _ _ => Rely.trans, fun _ _ h => h⟩

theorem calm_moves (h : List (Call State Failure Op Ans)) (s : State) (o : Op) (ho : Calm o) (hs : Orderly s) :
    contract.pre i job h s o ∧ ∀ c, Rely i s ((world.guard (Settled setup) refused).answer i s o c).2 := by
  obtain ⟨hown, hpre⟩ := calm_cases ho
  exact ⟨hpre i job s, fun c => (kept setup).own i job h s o c hown hs (hpre i job s)⟩

theorem lawful_calls (hp : p.Calls Calm) : Lawful setup i job p s :=
  .of_calls along (kept setup) (I := fun _ => True) (fun _ _ _ _ => trivial)
    (fun h s o ho hs _ => calm_moves h s o ho hs) hp trivial

theorem lawful_ret {a : α} : Lawful setup i job (.ret a) s := .ret along trivial

theorem Lawful.bind {f : α → Program β} (hp : Lawful setup i job p s)
    (hf : ∀ a s', Rely i s s' → Lawful setup i job (f a) s') : Lawful setup i job (p >>= f) s :=
  Ensures.bind along hp fun a s' hs' _ => hf a s' hs'

theorem Lawful.step {o : Op} {f : Ans o → Program β} (ho : Calm o)
    (hf : ∀ a s', Rely i s s' → Lawful setup i job (f a) s') : Lawful setup i job (call o >>= f) s :=
  .bind (lawful_calls (.perform ho)) hf

section

variable (o : Op) (ho : Own o) (hpre : ∀ s1, Rely i s s1 → Orderly s1 → Permitted i job s1 o)

include ho hpre

theorem does_own {Q : State → Ans o → Prop}
    (hps : ∀ s1 c b, Rely i s s1 → Orderly s1 → Settled setup i s1 o c → (answer i s1 o c).1 = .ok b →
      Rely i s1 (answer i s1 o c).2 → Q (answer i s1 o c).2 b) : Does setup i job (Rely i) Q (call o) s :=
  .perform (kept setup) along (fun _ s1 hs1 hinv => hpre s1 hs1 hinv)
    (fun s1 _ hs1 hinv _ => answer_own ho hinv (hpre s1 hs1 hinv)) hps

theorem does_attempt {Q : State → Except Failure (Ans o) → Prop} (hra : ∀ s' e, Rely i s s' → Q s' (.error e))
    (hps : ∀ s1 c b, Rely i s s1 → Orderly s1 → Settled setup i s1 o c → (answer i s1 o c).1 = .ok b →
      Rely i s1 (answer i s1 o c).2 → Q (answer i s1 o c).2 (.ok b)) :
    Does setup i job (Rely i) Q (tryCall o) s :=
  .attempt (kept setup) along (fun _ s1 hs1 hinv => hpre s1 hs1 hinv)
    (fun s1 _ hs1 hinv _ => answer_own ho hinv (hpre s1 hs1 hinv)) hra hps

theorem lawful_call : Lawful setup i job (call o) s :=
  does_own o ho hpre fun _ _ _ _ _ _ _ _ => trivial

end

/-- The entries of a stop are flat when the exchange lists no more than the tolerance of a close that spans
them. -/
theorem Guarded.flat_of_heldAmount {amount : ℚ}
    (hs : Orderly s) (hsp : Guarded (Spans symbol side amount) s exchange orderId)
    (hhe : heldAmount (s.positions exchange) symbol side ≤ closeTolerance amount) :
    Guarded IsFlat s exchange orderId := by
  obtain ⟨o, ho, hkey, het⟩ := hsp
  refine ⟨o, ho, hkey, fun e he hpt => ?_⟩
  rcases het e he hpt with hzr | ⟨hhl, hle⟩
  · exact isFlat_of_zero hzr
  · have hexchange : e.exchange = exchange := hpt.2.2.1.trans (congrArg Prod.fst hkey)
    rw [hexchange] at hhl
    calc e.left ≤ heldAmount (s.positions exchange) symbol side :=
          left_le_heldAmount hs.book.left_nonneg he hhl
      _ ≤ closeTolerance amount := hhe
      _ ≤ closeTolerance e.executed := closeTolerance_mono hle

theorem answer_fetchPositions {reader : Reader} {positions : List Position}
    (hrd : reader ≠ .snapshot) (h : (answer i s (.fetchPositions reader exchange) c).1 = .ok positions) :
    positions = s.positions exchange ∧ (answer i s (.fetchPositions reader exchange) c).2 = s := by
  unfold answer at h ⊢
  split at h
  · refine ⟨(Except.ok.inj h).symm, ?_⟩
    cases reader with
    | snapshot => exact absurd rfl hrd
    | _ => rfl
  · cases h

theorem lawful_cancelTerminalStop {slOrderId : Option String}
    (hft : ∀ id, slOrderId = some id → Guarded IsFlat s exchange id) :
    Lawful setup i job (cancelTerminalStop exchange pair slOrderId symbol) s := by
  unfold cancelTerminalStop
  split
  · exact lawful_ret
  · rename_i id
    refine bind along (M := fun _ _ => True) (does_attempt (.cancelOrder exchange (some id) symbol) trivial
      (fun s1 hs1 hinv _ => ?_) (fun _ _ _ => trivial) fun _ _ _ _ _ _ _ _ => trivial) fun answer s1 _ _ => ?_
    · exact ((hft id rfl).isFlat_onward hs1.toOnward).released hinv.book
    · split
      · exact lawful_calls (Calls.perform trivial)
      · exact lawful_ret

def HasRow (s : State) (id : ℕ) (exchange : String) (context : CloseContext) : Prop :=
  ∃ row ∈ s.attempts, row.id = id ∧ row.exchange = exchange ∧ row.context = some context

theorem HasRow.onward {id : ℕ} (hs : Onward s s')
    (h : HasRow s id exchange context) : HasRow s' id exchange context := by
  obtain ⟨row, hrow, hid, hexchange, hcn⟩ := h
  obtain ⟨row', hrow', hsame⟩ := hs.attempts.mem_forth hrow
  exact ⟨row', hrow', hsame.id.trans hid, hsame.exchange.trans hexchange, hsame.context.trans hcn⟩

theorem lawful_markCompleted {id : ℕ} {t : Option ℕ} {filled : Option ℚ}
    (hrow : HasRow s id exchange context) (hft : OnStop (Guarded IsFlat s exchange) context) :
    Lawful setup i job (call (.markCompleted id t filled)) s := by
  refine lawful_call _ trivial fun s1 hs1 hinv row' hrow' hid' context' hcn' sl hsl => ?_
  obtain ⟨row, hmem, hid, hexchange, hcn⟩ := hrow.onward hs1.toOnward
  obtain rfl : row = row' := inj_on_of_nodup_map hinv.rows.nodup hmem hrow' (hid.trans hid'.symm)
  obtain rfl : context = context' := some.inj (hcn.symm.trans hcn')
  rw [hexchange]
  exact (hft sl hsl).isFlat_onward hs1.toOnward

structure Loaded (s : State) (a : CloseAttempt) : Prop where
  row : HasRow s a.id a.exchange a.context
  spans : OnStop (Guarded (Spans a.symbol a.context.positionSide a.requestedAmount) s a.exchange) a.context
  completed : a.status = .completed → OnStop (Guarded IsFlat s a.exchange) a.context

theorem Loaded.onward (hs : Onward s s') (h : Loaded s a) : Loaded s' a :=
  ⟨h.row.onward hs, fun id hid => (h.spans id hid).spans_onward hs,
    fun hstatus id hid => (h.completed hstatus id hid).isFlat_onward hs⟩

theorem lawful_finalizeRecoveredClose {order : String} (hft : OnStop (Guarded IsFlat s a.exchange) a.context) :
    Lawful setup i job (finalizeRecoveredClose a t order price) s := by
  refine .bind (lawful_cancelTerminalStop hft) fun _ s1 _ => ?_
  exact lawful_calls (.step trivial fun _ => calm_of_booking (books_commitAndUntrack _ _ _ _))

theorem calm_blockedUnready : blockedUnready.Calls Calm := .last trivial

theorem lawful_recoverLeg {filled remaining : ℚ} (hrow : HasRow s a.id a.exchange a.context)
    (hft : remaining ≤ closeTolerance a.requestedAmount → OnStop (Guarded IsFlat s a.exchange) a.context) :
    Lawful setup i job (recoverLeg a order price filled remaining t) s := by
  unfold recoverLeg
  dsimp only
  split
  · exact lawful_calls calm_blockedUnready
  refine .step trivial fun aggregate s1 hs1 => ?_
  split
  · exact lawful_calls calm_blockedUnready
  split
  · rename_i htr
    have hsm : remaining ≤ closeTolerance a.requestedAmount := (of_decide_eq_true htr).1
    have hft1 : OnStop (Guarded IsFlat s1 a.exchange) a.context :=
      fun id hid => (hft hsm id hid).isFlat_onward hs1.toOnward
    refine .bind (lawful_markCompleted (hrow.onward hs1.toOnward) hft1) fun _ s2 hs2 => ?_
    refine .bind (lawful_finalizeRecoveredClose fun id hid => ?_) fun _ _ _ => lawful_ret
    exact (hft1 id hid).isFlat_onward hs2.toOnward
  · exact lawful_calls (.step trivial fun _ => .last trivial)

theorem lawful_recoverFilled (hld : Loaded s a) (order : Order) (resolution : FillResolution) :
    Lawful setup i job (recoverFilled a order resolution) s := by
  have hrea : Does setup i job (Rely i) (fun s' r => ∀ positions, r = .ok positions →
      heldAmount positions a.symbol a.context.positionSide ≤ closeTolerance a.requestedAmount →
        OnStop (Guarded IsFlat s' a.exchange) a.context) (tryCall (.fetchPositions .recovery a.exchange)) s := by
    refine does_attempt (.fetchPositions .recovery a.exchange) trivial (fun _ _ _ => trivial)
      nofun fun s1 c listed hs1 hinv _ han _ positions hok hsm id hid => ?_
    cases hok
    obtain ⟨rfl, hst⟩ := answer_fetchPositions (by decide) han
    rw [hst]
    exact ((hld.onward hs1.toOnward).spans id hid).flat_of_heldAmount hinv hsm
  refine bind along hrea fun answer s1 hs1 hft => ?_
  split
  · exact lawful_ret
  rename_i positions
  dsimp only
  split
  · exact lawful_ret
  split
  · exact lawful_ret
  refine Lawful.bind (lawful_calls (calm_of_look (looks_attemptTradeId a order))) fun tradeId s2 hs2 => ?_
  split
  · exact lawful_calls calm_blockedUnready
  · refine lawful_recoverLeg (hld.onward (hs1.trans hs2).toOnward).row fun hsm id hid => ?_
    exact (hft positions rfl hsm id hid).isFlat_onward hs2.toOnward

theorem lawful_recoverSent (hld : Loaded s a) : Lawful setup i job (recoverSent setup a) s := by
  refine .bind (lawful_calls (calm_of_look (looks_findCloseAttemptOrder setup a))) fun found s1 hs1 => ?_
  split
  · exact lawful_ret
  rename_i order
  have hrt : ∀ s2, Rely i s1 s2 → Lawful setup i job (recoverFound setup a order) s2 := by
    intro s2 hs2
    refine .bind (lawful_calls (calm_of_look (looks_resolveFillPrice _ _ _ _ _))) fun resolution s3 hs3 => ?_
    have hld3 := hld.onward ((hs1.trans hs2).trans hs3).toOnward
    split
    · exact lawful_ret
    · split
      · exact lawful_calls (.last trivial)
      · exact lawful_ret
    · exact lawful_recoverFilled hld3 order resolution
  split
  · exact .step trivial fun _ s2 hs2 => hrt s2 hs2
  · exact hrt s1 (.refl i s1)

theorem lawful_recoverOne (hld : Loaded s a) : Lawful setup i job (recoverOne setup a) s := by
  unfold recoverOne
  split
  · exact lawful_ret
  split
  · rename_i t hstatus _
    refine .step trivial fun aggregate s1 hs1 => ?_
    split
    · exact lawful_calls calm_blockedUnready
    · refine .bind (lawful_finalizeRecoveredClose fun id hid => ?_) fun _ _ _ => lawful_ret
      exact (hld.completed hstatus id hid).isFlat_onward hs1.toOnward
  · exact lawful_recoverSent hld

theorem lawful_recoverAll {attempts : List CloseAttempt} (hld : ∀ a ∈ attempts, Loaded s a) :
    Lawful setup i job (recoverAll setup attempts) s := by
  induction attempts generalizing s with
  | nil => exact lawful_ret
  | cons a attempts ih =>
    refine .bind (lawful_recoverOne (hld a mem_cons_self)) fun blocked s1 hs1 => ?_
    refine .bind (ih fun a' ha' => ?_) fun _ _ _ => lawful_ret
    exact (hld a' (mem_cons_of_mem a ha')).onward hs1.toOnward

theorem loaded_of_recoverable (hs : Orderly s) (ha : a ∈ s.recoverableCloses) : Loaded s a := by
  obtain ⟨row, hrow, hclose⟩ := mem_filterMap.1 ha
  have hmem := (mem_filter.1 hrow).1
  obtain ⟨context, hcn, rfl⟩ := map_eq_some_iff.1 hclose
  exact ⟨⟨row, hmem, rfl, rfl, hcn⟩, hs.closes row hmem context hcn,
    fun hstatus => hs.completed row hmem hstatus context hcn⟩

theorem lawful_recoverCloseAttempts : Lawful setup i job (recoverCloseAttempts setup) s := by
  refine bind along (M := fun s' attempts => ∀ a ∈ attempts, Loaded s' a) ?_
    fun attempts s1 _ hld => lawful_recoverAll hld
  refine does_own .loadRecoverableCloseAttempts trivial (fun _ _ _ => trivial)
    fun s1 c attempts _ hinv _ han hmv a ha => ?_
  unfold answer at han
  split at han
  · cases han
    exact (loaded_of_recoverable hinv ha).onward hmv.toOnward
  · cases han
    cases ha

section

variable {r : CloseRequest} {side : Side} {amount bound : ℚ} {w : CloseWork}

structure Closing (i : ℕ) (r : CloseRequest) (side : Side) (amount bound : ℚ) (s : State) : Prop where
  locked : s.locks r.pair = some i
  held : s.held r.exchange r.symbol side ≤ bound
  entries : ∀ e ∈ s.orders, e.isEntry = true → e.pair = r.pair → Spans r.symbol side amount e

theorem Closing.rely (hpair : pairOf r.exchange (baseOf r.symbol) = r.pair) (hs : Rely i s s')
    (h : Closing i r side amount bound s) : Closing i r side amount bound s' where
  locked := hs.locks _ h.locked
  held := by
    refine le_trans (hs.foreign.sum_le (fun o o' hsh => hsh.holding_le _ _ _) fun n hn => ?_) h.held
    refine if_neg fun hhl => ?_
    obtain ⟨hen, hexchange, hsy, -⟩ := VenueOrder.isEntry_of_holds hhl
    have hsame : n.pair = r.pair := by
      rw [← hpair]
      simp only [VenueOrder.pair, hexchange, hsy]
    exact hn.1 hen (hsame ▸ h.locked)
  entries e' he' hen hsame := by
    rcases hs.foreign.mem_back he' with ⟨e, he, hsh⟩ | hnew
    · have hen0 := hsh.isEntry ▸ hen
      exact (h.entries e he hen0 (hsh.pair ▸ hsame)).shrinks hen0 hsh
    · exact absurd (hsame ▸ h.locked) (hnew.1 hen)

theorem closing_of_listed (hs : Orderly s) (hpair : pairOf r.exchange (baseOf r.symbol) = r.pair)
    (hlc : s.locks r.pair = some i) {p : Position} (hp : p ∈ s.positions r.exchange)
    (hsy : p.symbol = r.symbol) (hpos : 0 < p.contracts) (hsd : p.side = some side) :
    Closing i r side p.contracts p.contracts s := by
  obtain ⟨side', hsd', hco⟩ := mem_positions hp
  obtain rfl : side = side' := some.inj (hsd.symm.trans hsd')
  rw [hsy] at hco
  refine ⟨hlc, hco.ge, fun e he hen hsame => ?_⟩
  obtain ⟨holder, hho, hhl, hne, hall⟩ := exists_holder hs.book (hco ▸ hpos)
  by_cases hzr : e.left = 0
  · exact .inl hzr
  · obtain ⟨hen', hexchange', hsy', -⟩ := VenueOrder.isEntry_of_holds hhl
    have hpair' : e.pair = holder.pair := by
      rw [hsame, ← hpair]
      simp only [VenueOrder.pair, hexchange', hsy']
    -- two entries of the instrument that hold something are one
    obtain rfl : e = holder :=
      hs.book.eq_of_key he hho (hs.book.single e he holder hho hen hen' hpair' hzr hne)
    refine .inr ⟨by rw [hexchange']; exact hhl, ?_⟩
    rw [hco, hall]
    exact (hs.book.left e he).2

theorem Closing.spans (h : Closing i r side amount bound s) (hs : Orderly s) (hnm : Named s r.pair id) :
    Guarded (Spans r.symbol side amount) s r.exchange id := by
  obtain ⟨o, ho, hkey, hsame⟩ := hnm
  refine ⟨o, ho, hkey, fun e he hpt => ?_⟩
  exact h.entries e he hpt.2.1 ((hs.book.protects_pair ho he hpt).trans hsame)

theorem Closing.flat (h : Closing i r side amount bound s) (hs : Orderly s) (hnm : Named s r.pair id)
    (hbn : bound ≤ closeTolerance amount) : Guarded IsFlat s r.exchange id := by
  obtain ⟨o, ho, hkey, hsp⟩ := h.spans hs hnm
  refine ⟨o, ho, hkey, fun e he hpt => ?_⟩
  rcases hsp e he hpt with hzr | ⟨hhl, hle⟩
  · exact isFlat_of_zero hzr
  · have hexchange : e.exchange = r.exchange := hpt.2.2.1.trans (congrArg Prod.fst hkey)
    rw [hexchange] at hhl
    calc e.left ≤ s.held r.exchange r.symbol side := left_le_held hs.book.left_nonneg he hhl
      _ ≤ bound := h.held
      _ ≤ closeTolerance amount := hbn
      _ ≤ closeTolerance e.executed := closeTolerance_mono hle

structure Executed (s : State) (exchange : String) (order : Order) (q : ℚ) : Prop where
  nonneg : 0 ≤ q
  filled : ∀ x, order.filled = some x → x ≤ q
  known : ∀ id, order.id = some id → ∃ o ∈ s.orders, o.key = (exchange, id) ∧ o.isStop = false ∧ o.executed = q

theorem Executed.onward (hs : Onward s s') (h : Executed s exchange order q) : Executed s' exchange order q := by
  refine ⟨h.nonneg, h.filled, fun id hid => ?_⟩
  obtain ⟨o, ho, hkey, hstp, hec⟩ := h.known id hid
  obtain ⟨o', ho', hsh⟩ := hs.orders.mem_forth ho
  exact ⟨o', ho', hsh.key.trans hkey, hsh.isStop.trans hstp, (hsh.executed hstp).trans hec⟩

theorem reduces_closeDirection (side : Side) : (closeDirection side).reduces = side := by
  cases side <;> rfl

theorem placeMarket_held {m : MarketOrder} (hs : Orderly s)
    (hfree : s.taken m.exchange c.text m.clientOrderId = false) (hre : m.reduceOnly = true) :
    (placeMarket s c m).held m.exchange m.symbol m.direction.reduces =
      s.held m.exchange m.symbol m.direction.reduces - reducedOf s c m := by
  have hlf := hs.book.left_nonneg
  have hdr := drawFrom_sum (reducedOf_nonneg s c m) hlf (reducedOf_le (held_nonneg hlf))
  have hclose : (newCloseOrder s c m).holding m.exchange m.symbol m.direction.reduces = 0 := by
    refine if_neg fun hhl => ?_
    have hkind := (VenueOrder.isEntry_of_holds hhl).2.2.2
    cases hkind
  unfold placeMarket
  rw [if_neg (by rw [hfree]; exact Bool.false_ne_true), if_pos hre]
  unfold State.held
  rw [map_append, sum_append, map_singleton, sum_singleton, hclose, add_zero]
  exact hdr

def closeOrder (w : CloseWork) : MarketOrder where
  exchange := w.request.exchange
  symbol := w.request.symbol
  direction := closeDirection w.positionSide
  amount := w.amount
  clientOrderId := w.clientOrderId
  reduceOnly := true

theorem answer_closeOrder (hs : Orderly s) (h : (answer i s (.createMarketOrder (closeOrder w)) c).1 = .ok order) :
    Executed (answer i s (.createMarketOrder (closeOrder w)) c).2 w.request.exchange order
        (reducedOf s c (closeOrder w)) ∧
      (answer i s (.createMarketOrder (closeOrder w)) c).2.held w.request.exchange w.request.symbol w.positionSide =
        s.held w.request.exchange w.request.symbol w.positionSide - reducedOf s c (closeOrder w) := by
  unfold answer at h ⊢
  split at h
  · simp only [value] at h
    split at h
    · cases h
    · rename_i hfree
      have htk := Bool.eq_false_iff.2 hfree
      cases h
      refine ⟨⟨reducedOf_nonneg s c _, fun x hx => ?_, fun id hid => ?_⟩, ?_⟩
      · obtain ⟨y, -, rfl⟩ := map_eq_some_iff.1 hx
        exact min_le_right _ _
      · cases hid
        refine ⟨newCloseOrder s c (closeOrder w), ?_, rfl, rfl, rfl⟩
        simp only [effect, placeMarket, htk]
        exact mem_append_right _ mem_cons_self
      · have hhe := placeMarket_held hs htk rfl
        simp only [closeOrder, reduces_closeDirection] at hhe ⊢
        exact hhe
  · cases h

theorem Closing.sent (hpair : pairOf r.exchange (baseOf r.symbol) = r.pair) (hr : w.request = r)
    (hsd : w.positionSide = side) (hs : Orderly s) (hcl : Closing i r side amount bound s)
    (h : (answer i s (.createMarketOrder (closeOrder w)) c).1 = .ok order)
    (hmv : Rely i s (answer i s (.createMarketOrder (closeOrder w)) c).2) :
    ∃ q, Executed (answer i s (.createMarketOrder (closeOrder w)) c).2 r.exchange order q ∧
      Closing i r side amount (bound - q) (answer i s (.createMarketOrder (closeOrder w)) c).2 := by
  subst hr hsd
  obtain ⟨hec, hhe⟩ := answer_closeOrder hs h
  have hcl' := hcl.rely hpair hmv
  refine ⟨_, hec, hcl'.locked, ?_, hcl'.entries⟩
  rw [hhe]
  exact sub_le_sub_right hcl.held _

theorem reported_le (hs : Orderly s) (hid : order.id = some id) (hec : Executed s exchange order q)
    (ho : o = .fetchOrder exchange id symbol ∨ o = .fetchTrades exchange id symbol) (c : Chance) :
    ∀ x ∈ reported o ((world.guard (Settled setup) refused).answer i s o c).1, x ≤ q := by
  obtain ⟨own, hown, hkey, -, hq⟩ := hec.known id hid
  -- the order that is found is the one with the key
  have hfn : ∀ found, s.findOrder exchange id = some found → found.executed = q := by
    intro found h
    have hna := find?_some h
    simp only [Bool.and_eq_true, decide_eq_true_eq] at hna
    have hsame := hs.book.eq_of_key (mem_of_find?_eq_some h) hown
      ((Prod.ext hna.1 hna.2 : found.key = (exchange, id)).trans hkey.symm)
    rw [hsame, hq]
  intro x hx
  have hok : Settled setup i s o c := by rcases ho with rfl | rfl <;> trivial
  rw [guard_answer hok] at hx
  rcases ho with rfl | rfl
  · cases han : (answer i s (.fetchOrder exchange id symbol) c).1 with
    | error e =>
      rw [world_answer, han] at hx
      cases hx
    | ok fetched =>
      rw [world_answer, han] at hx
      have hfl : fetched.filled = some x := mem_toList.1 hx
      unfold answer at han
      split at han
      · simp only [value] at han
        split at han
        · rename_i found hso
          cases han
          obtain ⟨y, -, rfl⟩ := map_eq_some_iff.1 hfl
          exact (min_le_right _ _).trans (hfn found hso).le
        · cases han
      · cases han
  · cases han : (answer i s (.fetchTrades exchange id symbol) c).1 with
    | error e =>
      rw [world_answer, han] at hx
      cases hx
    | ok trades =>
      rw [world_answer, han] at hx
      obtain rfl := mem_singleton.1 hx
      unfold answer at han
      split at han
      · simp only [value] at han
        split at han
        · rename_i found hso
          split at han
          · rename_i hle
            cases han
            exact hle.trans (hfn found hso).le
          · cases han
        · cases han
      · cases han

theorem does_resolveFillPrice (requested : Option ℚ) (hec : Executed s exchange order q) :
    Does setup i job (Rely i) (fun _ r => ∀ x, r.filledAmount = some x → x ≤ q)
      (resolveFillPrice setup exchange symbol order requested) s := by
  refine .of_yields along (kept setup) (I := fun s' => Executed s' exchange order q)
    (P := fun o => ∃ id, order.id = some id ∧
      (o = .fetchOrder exchange id symbol ∨ o = .fetchTrades exchange id symbol))
    (fun _ _ hs h => h.onward hs.toOnward) (fun h s1 o ho hinv _ => calm_moves h s1 o ?_ hinv)
    (f := reported) (G := fun _ x => x ≤ q) (fun _ _ _ _ h => h) (fun s1 o c ho hinv hI => ?_)
    (calls_resolveFillPrice_of setup (fun id hid => ⟨⟨id, hid, .inl rfl⟩, ⟨id, hid, .inr rfl⟩⟩) requested)
    (fun _ _ => (yields_filledAmount hec.nonneg setup exchange symbol hec.filled requested).mono
      fun _ hfl x hx => (hfl x hx).1) hec
  · obtain ⟨id, -, rfl | rfl⟩ := ho <;> trivial
  · obtain ⟨id, hid, ho⟩ := ho
    exact reported_le hinv hid hI ho c

end

section

variable {w : CloseWork}

def StopFlat (w : CloseWork) (s : State) : Prop :=
  ∀ id, w.slOrderId = some id → Guarded IsFlat s w.request.exchange id

theorem StopFlat.onward (hs : Onward s s') (h : StopFlat w s) : StopFlat w s' :=
  fun id hid => (h id hid).isFlat_onward hs

theorem lawful_dropStop (hft : StopFlat w s) : Lawful setup i job (dropStop w) s := by
  exact .bind (lawful_cancelTerminalStop hft) fun _ _ _ => lawful_calls (.perform trivial)

theorem lawful_deferClose {orderTerminal : Option Bool} (hft : v.terminal w.amount = true → StopFlat w s) :
    Lawful setup i job (deferClose w orderId v orderTerminal) s := by
  refine .bind (lawful_calls ?_) fun result s1 hs1 => ?_
  · exact .step trivial fun _ => .step trivial fun _ => .last trivial
  · split
    · rename_i htr
      exact .bind (lawful_dropStop ((hft htr).onward hs1.toOnward)) fun _ _ _ => lawful_ret
    · exact lawful_ret

def OwnRow (w : CloseWork) (s : State) : Prop :=
  ∀ id, w.attemptId = some id → HasRow s id w.request.exchange ⟨w.request.reason, w.positionSide, w.slOrderId⟩

theorem OwnRow.onward (hs : Onward s s') (h : OwnRow w s) : OwnRow w s' :=
  fun id hid => (h id hid).onward hs

theorem calm_recordLeg (orderId : String) (price filled : ℚ) (v : CloseVolume) :
    (recordLeg w orderId price filled v).Calls Calm := by
  unfold recordLeg
  split
  · trivial
  · exact .perform trivial

section

variable (hrow : OwnRow w s) (hft : v.terminal w.amount = true → StopFlat w s)

include hrow hft

theorem lawful_markClose {filled : ℚ} : Lawful setup i job (markClose w filled v) s := by
  unfold markClose onAttempt
  split
  · rename_i id hid
    split
    · rename_i htr
      refine lawful_markCompleted (hrow id hid) fun sl hsl => hft htr sl ?_
      exact (filter_eq_some_iff.1 hsl).1
    · exact lawful_calls (.last trivial)
    · exact .raise along
  · exact lawful_ret

theorem lawful_bookClose : Lawful setup i job (bookClose w order price v) s := by
  unfold bookClose
  split
  · exact lawful_ret
  refine .bind (lawful_calls (calm_recordLeg _ _ _ _)) fun aggregate s1 hs1 => ?_
  have hft1 := fun htr => (hft htr).onward hs1.toOnward
  split
  · exact lawful_deferClose hft1
  refine .bind (lawful_markClose (hrow.onward hs1.toOnward) hft1) fun _ s2 hs2 => ?_
  split
  · rename_i htr
    exact .bind (lawful_dropStop ((hft1 htr).onward hs2.toOnward)) fun _ _ _ => lawful_ret
  · exact lawful_calls (.last trivial)

theorem lawful_classifyClose : Lawful setup i job (classifyClose w order resolution v) s := by
  unfold classifyClose
  split
  · exact lawful_calls (.last trivial)
  split
  · exact lawful_deferClose hft
  split
  · exact .raise along
  · exact lawful_bookClose hrow hft

end

structure Working (w : CloseWork) (q : ℚ) (s : State) : Prop where
  flat : w.amount - q ≤ closeTolerance w.amount → StopFlat w s
  spans : ∀ id, w.slOrderId = some id →
    Guarded (Spans w.request.symbol w.positionSide w.amount) s w.request.exchange id
  row : OwnRow w s

theorem Working.onward (hs : Onward s s') (h : Working w q s) : Working w q s' :=
  ⟨fun hsm => (h.flat hsm).onward hs, fun id hid => (h.spans id hid).spans_onward hs, h.row.onward hs⟩

theorem does_remainingPositionAmount (hwr : Working w q s) : Does setup i job (Rely i)
      (fun s' remaining => ∀ x, remaining = some x → x ≤ closeTolerance w.amount → StopFlat w s')
      (remainingPositionAmount w.request.exchange w.request.symbol w.positionSide) s := by
  refine .bind along (M := fun s' r => ∀ positions, r = .ok positions →
    heldAmount positions w.request.symbol w.positionSide ≤ closeTolerance w.amount → StopFlat w s') ?_
    fun answer s1 _ han => ?_
  · refine does_attempt (.fetchPositions .residual w.request.exchange) trivial (fun _ _ _ => trivial)
      nofun fun s1 c listed hs1 hinv _ han _ positions hok hsm id hid => ?_
    cases hok
    obtain ⟨rfl, hst⟩ := answer_fetchPositions (by decide) han
    rw [hst]
    exact ((hwr.onward hs1.toOnward).spans id hid).flat_of_heldAmount hinv hsm
  · split
    · rename_i positions
      refine .ret along fun x hx hsm => han positions rfl ?_
      rwa [some.inj hx]
    · exact .ret along nofun

/-- A volume that is terminal is evidence: the position as it is listed, or the amount that was filled. -/
theorem does_closeVolume (hwr : Working w q s) (hfl : ∀ x, resolution.filledAmount = some x → x ≤ q) :
    Does setup i job (Rely i) (fun s' v => v.terminal w.amount = true → StopFlat w s')
      (closeVolume w resolution) s := by
  unfold closeVolume
  split
  iterate 2
    refine .bind along (does_remainingPositionAmount hwr) fun remaining s1 _ hsm => ?_
    split
    · exact .ret along fun htr => hsm _ rfl (of_decide_eq_true htr)
    · exact .ret along fun htr => by cases htr
  · refine .ret along fun htr => hwr.flat ?_
    cases ham : resolution.filledAmount with
    | none =>
      rw [ham] at htr
      cases htr
    | some x =>
      rw [ham] at htr
      have hsm : max 0 (w.amount - x) ≤ closeTolerance w.amount := of_decide_eq_true htr
      have hle := hfl x ham
      exact (sub_le_sub_left hle _).trans ((le_max_right _ _).trans hsm)

theorem lawful_settleClose (hwr : Working w q s)
    (hec : Executed s w.request.exchange order q) : Lawful setup i job (settleClose setup w order) s := by
  unfold settleClose
  have hrt : ∀ s1, Rely i s s1 → Lawful setup i job (settleFill setup w order) s1 := by
    intro s1 hs1
    refine bind along (does_resolveFillPrice (some w.amount) (hec.onward hs1.toOnward))
      fun resolution s2 hs2 hfl => ?_
    have hwr2 := hwr.onward (hs1.trans hs2).toOnward
    split
    · split
      · exact Lawful.bind (lawful_calls (calls_onAttempt fun _ _ => Calls.perform trivial)) fun _ _ _ => lawful_ret
      · exact lawful_ret
    · refine .bind along (does_closeVolume hwr2 hfl) fun v s3 hs3 hft => ?_
      exact lawful_classifyClose (hwr2.row.onward hs3.toOnward) hft
  split
  · exact .bind (lawful_calls (calls_onAttempt fun _ _ => .perform trivial)) fun _ s1 hs1 => hrt s1 hs1
  · exact hrt s (.refl i s)

structure Prepared (i : ℕ) (w : CloseWork) (s : State) : Prop where
  closing : Closing i w.request w.positionSide w.amount w.amount s
  stop : ∀ id, w.slOrderId = some id → Named s w.request.pair id
  row : OwnRow w s

theorem Prepared.rely (hpair : pairOf w.request.exchange (baseOf w.request.symbol) = w.request.pair)
    (hs : Rely i s s') (h : Prepared i w s) : Prepared i w s' :=
  ⟨h.closing.rely hpair hs, fun id hid => (h.stop id hid).onward hs.toOnward, h.row.onward hs.toOnward⟩

theorem lawful_submitClose (hpair : pairOf w.request.exchange (baseOf w.request.symbol) = w.request.pair)
    (hpr : Prepared i w s) : Lawful setup i job (submitClose setup w) s := by
  have hsn : Does setup i job (Rely i) (fun s' r => ∀ order, r = .ok order →
      ∃ q, Working w q s' ∧ Executed s' w.request.exchange order q)
      (tryCall (.createMarketOrder (closeOrder w))) s := by
    refine does_attempt (.createMarketOrder (closeOrder w)) rfl (nofun)
      (fun _ _ _ _ h => by cases h) fun s1 c order' hs1 hinv _ han hmv order hok => ?_
    cases hok
    have hpr1 := hpr.rely hpair hs1
    obtain ⟨q, hec, hcl⟩ := hpr1.closing.sent hpair rfl rfl hinv han hmv
    have hinv' : Orderly (answer i s1 (.createMarketOrder (closeOrder w)) c).2 :=
      hinv.answer (show Permitted i job s1 (.createMarketOrder (closeOrder w)) from nofun)
    have hpr' := hpr1.rely hpair hmv
    refine ⟨q, ⟨fun hsm id hid => ?_, fun id hid => ?_, hpr'.row⟩, hec⟩
    · exact hcl.flat hinv' (hpr'.stop id hid) hsm
    · exact hcl.spans hinv' (hpr'.stop id hid)
  refine bind along hsn fun answer s1 _ hse => ?_
  have hmr : ∀ (o : ℕ → Program Unit), (∀ id, (o id).Calls Calm) → Lawful setup i job (do
      onAttempt w.attemptId o
      return { closed := false } : Program CloseResult) s1 := fun o ho =>
    lawful_calls (.bind (calls_onAttempt fun id _ => ho id) fun _ => trivial)
  split
  · obtain ⟨q, hwr, hec⟩ := hse _ rfl
    exact lawful_settleClose hwr hec
  · exact hmr _ fun _ => .perform trivial
  · exact hmr _ fun _ => .perform trivial
  · exact hmr _ fun _ => .perform trivial
  · exact hmr _ fun _ => .perform trivial

end

section

variable {r : CloseRequest} (hpair : pairOf r.exchange (baseOf r.symbol) = r.pair)

theorem does_getStopKey (reader : Reader) (pair : Pair) :
    Does setup i job (Rely i) (fun s' raw => ∀ id, raw = some id → Named s' pair id)
      (call (.getStopKey reader pair)) s := by
  refine does_own (.getStopKey reader pair) trivial (fun _ _ _ => trivial) fun s1 c raw _ hinv _ han hmv id hid => ?_
  unfold answer at han
  split at han
  · cases han
    exact (hinv.stops pair id hid).onward hmv.toOnward
  · cases han

theorem does_createCloseAttempt {n : NewClose}
    (hpre : ∀ s1, Rely i s s1 → Orderly s1 → Permitted i job s1 (.createCloseAttempt n)) :
    Does setup i job (Rely i) (fun s' attemptId => ∀ id, attemptId = some id → HasRow s' id n.exchange n.context)
      (call (.createCloseAttempt n)) s := by
  refine does_own (.createCloseAttempt n) trivial hpre fun s1 c attemptId _ _ _ han _ id hid => ?_
  unfold answer at han ⊢
  split at han
  · simp only [value, effect] at han ⊢
    cases han
    split at hid
    · cases hid
    · rename_i hun
      cases hid
      rw [if_neg hun]
      exact ⟨_, mem_append_right _ mem_cons_self, rfl, rfl, rfl⟩
  · cases han
    cases hid

include hpair in
theorem lawful_closeFound {contracts : ℚ} (hcl : Closing i r side contracts contracts s)
    (hpc : setup.amountToPrecision r.exchange r.symbol contracts = contracts) :
    Lawful setup i job (closeFound setup r side contracts) s := by
  refine bind along (does_getStopKey .close r.pair) fun sl s1 hs1 hnm => ?_
  rw [hpc]
  refine Lawful.bind (lawful_calls (calm_of_look (looks_trackedTradeId r))) fun tradeId s2 hs2 => ?_
  refine Lawful.step trivial fun clientOrderId s3 hs3 => ?_
  have hs₁₃ := hs2.trans hs3
  have hcl3 := hcl.rely hpair (hs1.trans hs₁₃)
  have hnm3 : ∀ id, nonEmpty sl = some id → Named s3 r.pair id :=
    fun id hid => (hnm id (filter_eq_some_iff.1 hid).1).onward hs₁₃.toOnward
  refine bind along (does_createCloseAttempt fun s4 hs4 hinv id hid => ?_) fun attemptId s4 hs4 hrow => ?_
  · have hid' : nonEmpty sl = some id := (filter_eq_some_iff.1 hid).1
    exact (hcl3.rely hpair hs4).spans hinv ((hnm3 id hid').onward hs4.toOnward)
  have hpr : Prepared i ⟨r, side, contracts, nonEmpty sl, tradeId, clientOrderId, attemptId⟩ s4 :=
    ⟨hcl3.rely hpair hs4, fun id hid => (hnm3 id hid).onward hs4.toOnward, hrow⟩
  split
  · exact lawful_submitClose hpair hpr
  · refine Lawful.step trivial fun _ s5 hs5 => ?_
    exact lawful_submitClose hpair (hpr.rely hpair hs5)

include hpair in
theorem lawful_closeLocked (hlc : s.locks r.pair = some i) : Lawful setup i job (closeLocked setup r) s := by
  unfold closeLocked
  split
  · exact lawful_ret
  have hts : (taskActive r).Calls Calm := Calls.bind (.attempt trivial) fun _ => trivial
  refine .bind (lawful_calls hts) fun active s1 hs1 => ?_
  split
  · exact lawful_ret
  have hrea : Does setup i job (Rely i) (fun s' positions => ∀ p ∈ positions, p.symbol = r.symbol → 0 < p.contracts →
      ∀ side, p.side = some side → Closing i r side p.contracts p.contracts s' ∧
        setup.amountToPrecision r.exchange r.symbol p.contracts = p.contracts)
      (call (.fetchPositions .close r.exchange)) s1 := by
    refine does_own (.fetchPositions .close r.exchange) trivial (fun _ _ _ => trivial)
      fun s2 c positions hs2 hinv hsettled han _ p hp hsy hpos side hsd => ?_
    obtain ⟨rfl, hst⟩ := answer_fetchPositions (by decide) han
    rw [hst]
    refine ⟨closing_of_listed hinv hpair (hs2.locks _ (hs1.locks _ hlc)) hp hsy hpos hsd, ?_⟩
    rw [← hsy]
    exact hsettled p hp
  refine bind along hrea fun positions s2 _ hls => ?_
  split
  · exact lawful_ret
  rename_i position hfn
  have hmt := find?_some hfn
  simp only [Bool.and_eq_true, decide_eq_true_eq] at hmt
  split
  · exact lawful_ret
  · rename_i side hsd
    obtain ⟨hcl, hpc⟩ :=
      hls position (mem_of_find?_eq_some hfn) hmt.1 hmt.2 side hsd
    exact lawful_closeFound hpair hcl hpc

def Steady (i : ℕ) (s s' : State) : Prop := Onward s s' ∧ s'.seen i = s.seen i

theorem Steady.of_rely (h : Rely i s s') : Steady i s s' := ⟨h.toOnward, h.seen⟩

theorem steady : Along contract i (Steady i) :=
  ⟨fun s => ⟨.refl s, rfl⟩, fun _ _ _ h h' => ⟨h.1.trans h'.1, h'.2.trans h.2⟩, fun _ _ => Steady.of_rely⟩

theorem lock_seen (ho : o = .acquireLock pair ∨ o = .releaseLock pair) (c : Chance) :
    (answer i s o c).2.seen = s.seen := by
  rcases answer_cases i s o c with heq | heq
  · rw [heq]
    rcases ho with rfl | rfl <;> simp only [effect] <;> split <;> rfl
  · rw [heq]
    rcases ho with rfl | rfl <;> rfl

theorem does_acquireLock (pair : Pair) :
    Does setup i job (Steady i) (fun s' locked => locked = true → s'.locks pair = some i)
      (call (.acquireLock pair)) s := by
  refine .perform (kept setup) steady (fun _ _ _ _ => trivial) (fun s1 c _ hinv _ => ⟨?_, ?_⟩)
    fun s1 c locked _ _ _ han _ htru => ?_
  · exact answer_onward hinv (show Permitted i job s1 (.acquireLock pair) from trivial)
  · rw [world_answer, lock_seen (.inl rfl)]
  · rw [world_answer] at han ⊢
    unfold answer at han ⊢
    split at han
    · have hfree : (decide (s1.locks pair = none) && c.flag) = true := by
        rw [← htru]
        exact Except.ok.inj han
      rw [Bool.and_eq_true, decide_eq_true_eq] at hfree
      simp only [effect, if_pos hfree, Function.update_self]
    · cases han

theorem lawful_releaseLock (pair : Pair) :
    Does setup i job (Steady i) (fun _ _ => True) (call (.releaseLock pair)) s := by
  refine .perform (kept setup) steady (fun _ _ _ _ => trivial) (fun s1 c _ hinv _ => ⟨?_, ?_⟩)
    fun _ _ _ _ _ _ _ _ => trivial
  · exact answer_onward hinv (show Permitted i job s1 (.releaseLock pair) from trivial)
  · rw [world_answer, lock_seen (.inr rfl)]

include hpair in
theorem lawful_closePosition : Does setup i job (Steady i) (fun _ _ => True) (closePosition setup r) s := by
  refine .bind steady (does_acquireLock r.pair) fun locked s1 _ hlc => ?_
  split
  · rename_i htru
    refine .ensure steady ?_ (fun s2 _ => lawful_releaseLock r.pair) fun _ _ _ _ _ => trivial
    exact (lawful_closeLocked hpair (hlc htru)).weaken fun _ => Steady.of_rely
  · exact .ret steady trivial

end

end

end Schurfer.Protection
