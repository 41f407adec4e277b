import Schurfer.LateFill.Placing
import Schurfer.Protection.Close

/-!
# Entries and their stops

An entry is sent under the lock of its instrument, after the exchange listed no position of it, and under an id that
no order has yet. Everything that is placed for it afterwards is of its symbol.
-/

namespace Schurfer.Protection

open Desk Orders Threads Prog List
open LateFill (Failure)

variable {s' s : State} {o : Op} {positions : List OpenPosition} {α : Type} {id : String} {p : LateFill.Program α}

section

variable {setup : Setup} {i : ℕ} {job : Job} {r : EntryRequest} {c : Chance}

def Listed (r : EntryRequest) (s : State) (positions : List OpenPosition) : Prop :=
  ∀ e ∈ s.orders, e.isEntry = true → e.pair = r.pair →
    e.left = 0 ∨ ∃ p ∈ positions, p.base.toUpper = r.base.toUpper

theorem Listed.mono {positions' : List OpenPosition} (h : Listed r s positions)
    (hsub : positions ⊆ positions') : Listed r s positions' := by
  intro e he hen hpair
  refine (h e he hen hpair).imp_right fun ⟨p, hp, hbs⟩ => ⟨p, hsub hp, hbs⟩

theorem Listed.rely (hs : Rely i s s')
    (hlc : s.locks r.pair = some i) (h : Listed r s positions) : Listed r s' positions := by
  intro e' he' hen hpair
  rcases hs.foreign.mem_back he' with ⟨e, he, hsh⟩ | hnew
  · exact (h e he (hsh.isEntry ▸ hen) (hsh.pair ▸ hpair)).imp_left hsh.left_eq_zero
  · exact absurd (hpair ▸ hlc) (hnew.1 hen)

theorem listed_of_positions (hs : Orderly s) : Listed r s
    (((s.positions r.exchange).filter (·.contracts ≠ 0)).map fun p => ⟨r.exchange, p⟩) := by
  intro e he hen hpair
  have hexchange : e.exchange = r.exchange := congrArg Prod.fst hpair
  have hbs : (baseOf e.symbol).toUpper = r.base.toUpper := congrArg Prod.snd hpair
  refine (flat_or_listed hs.book.left_nonneg he hen).imp_right fun ⟨p, hp, hsy⟩ => ?_
  rw [hexchange] at hp
  refine ⟨⟨r.exchange, p⟩, mem_map.2 ⟨p, hp, rfl⟩, ?_⟩
  rw [← hbs, ← hsy]
  rfl

theorem does_fetchAllPositions (hlc : s.locks r.pair = some i) (exchanges : List String) :
    Does setup i job (Rely i) (fun s' out => r.exchange ∈ exchanges → r.exchange ∉ out.2 → Listed r s' out.1)
      (fetchAllPositions .entry exchanges) s := by
  induction exchanges generalizing s with
  | nil => exact .ret along nofun
  | cons exchange exchanges ih =>
    have hrea : Does setup i job (Rely i) (fun s' answer => ∀ positions, answer = .ok positions →
        r.exchange = exchange → Listed r s' ((positions.filter (·.contracts ≠ 0)).map fun p => ⟨exchange, p⟩))
        (tryCall (.fetchPositions .entry exchange)) s := by
      refine does_attempt (.fetchPositions .entry exchange) trivial (fun _ _ _ => trivial)
        nofun fun s1 c listed _ hinv _ han _ positions hok hexchange => ?_
      cases hok
      obtain ⟨rfl, hstt⟩ := answer_fetchPositions (by decide) han
      rw [hstt, ← hexchange]
      exact listed_of_positions hinv
    refine .bind along hrea fun answer s1 hs1 hls => ?_
    have hlc1 := hs1.locks _ hlc
    refine .bind along (ih hlc1) fun rest s2 hs2 hre => ?_
    split
    · rename_i positions
      refine .ret along fun hmem hfl => ?_
      rcases mem_cons.1 hmem with hhd | htl
      · exact ((hls positions rfl hhd).rely hs2 hlc1).mono (subset_append_left _ _)
      · exact (hre htl hfl).mono (subset_append_right _ _)
    · refine .ret along fun hmem hfl => ?_
      have hne : r.exchange ≠ exchange := fun heq => hfl (heq ▸ mem_cons_self)
      exact hre ((mem_cons.1 hmem).resolve_left hne) fun h => hfl (mem_cons_of_mem _ h)

structure Tagged (i : ℕ) (id exchange symbol : String) (s : State) : Prop where
  issued : (id, i) ∈ s.issued
  symbols : ∀ o ∈ s.orders, o.tag = some id → o.exchange = exchange → o.symbol = symbol

def Entering (i : ℕ) (id exchange symbol : String) (s s' : State) : Prop :=
  Onward s s' ∧ (Tagged i id exchange symbol s → Tagged i id exchange symbol s')

theorem Tagged.rely {exchange symbol : String} (hs : Rely i s s')
    (h : Tagged i id exchange symbol s) : Tagged i id exchange symbol s' := by
  refine ⟨hs.issued h.issued, fun o' ho' htag hexchange => ?_⟩
  rcases hs.foreign.mem_back ho' with ⟨o, ho, hsh⟩ | hnew
  · rw [hsh.symbol]
    exact h.symbols o ho (hsh.tag ▸ htag) (hsh.exchange ▸ hexchange)
  · exact absurd h.issued (hnew.2 id htag)

theorem entering (id exchange symbol : String) : Along contract i (Entering i id exchange symbol) :=
  ⟨fun s => ⟨.refl s, fun h => h⟩, fun _ _ _ h h' => ⟨h.1.trans h'.1, fun ht => h'.2 (h.2 ht)⟩,
    fun _ _ h => ⟨h.toOnward, Tagged.rely h⟩⟩

theorem answer_entering {exchange symbol : String} (hs : Orderly s) (hpre : Permitted i job s o)
    (hse : ∀ n, NewOrder s c o n → n.tag = some id → n.exchange = exchange → n.symbol = symbol) :
    Entering i id exchange symbol s (answer i s o c).2 := by
  refine ⟨answer_onward hs hpre, fun h => ⟨issued_subset h.issued, fun o' ho' htag hexchange => ?_⟩⟩
  rcases (answer_orders i s o c hs.book.left_nonneg).grows.mem_back ho' with ⟨old, hold, hsh⟩ | hnew
  · rw [hsh.symbol]
    exact h.symbols old hold (hsh.tag ▸ htag) (hsh.exchange ▸ hexchange)
  · exact hse o' hnew htag hexchange

def EntryRow (id : ℕ) (s : State) : Prop := ∃ row ∈ s.attempts, row.id = id ∧ row.context = none

theorem EntryRow.onward {id : ℕ} (hs : Onward s s') (h : EntryRow id s) : EntryRow id s' := by
  obtain ⟨row, hrow, hid, hcn⟩ := h
  obtain ⟨row', hrow', hsame⟩ := hs.attempts.mem_forth hrow
  exact ⟨row', hrow', hsame.id.trans hid, hsame.context.trans hcn⟩

section

variable {w : EntryWork}

def OnVenue (r : EntryRequest) (w : EntryWork) : Op → Prop
  | .createStopMarketOrder stop =>
    stop.exchange = r.exchange ∧ stop.entryClientOrderId = w.clientOrderId ∧ stop.symbol = r.symbol
  | .fetchOrders exchange symbol _ _ => exchange = r.exchange ∧ symbol = r.symbol
  | .cancelOrder _ _ _ => True
  | .fetchTicker _ _ | .priceToPrecision _ _ _ | .monotonic | .sleep _ => True
  | _ => False

def EntryCall (r : EntryRequest) (w : EntryWork) (o : Op) : Prop :=
  OnVenue r w o ∨ Calm o ∨ ∃ t filled, o = .markCompleted w.attemptId t filled

structure Sending (i : ℕ) (r : EntryRequest) (w : EntryWork) (s : State) : Prop where
  tagged : Tagged i w.clientOrderId r.exchange r.symbol s
  row : EntryRow w.attemptId s

theorem Sending.entering (hs : Entering i w.clientOrderId r.exchange r.symbol s s')
    (h : Sending i r w s) : Sending i r w s' :=
  ⟨hs.2 h.tagged, h.row.onward hs.1⟩

theorem permitted_entryCall (ho : EntryCall r w o) (hs : Orderly s) (hsn : Sending i r w s) :
    Permitted i (.place r) s o := by
  rcases ho with hvn | hcl | ⟨t, filled, rfl⟩
  · cases o with
    | createStopMarketOrder stop =>
      obtain ⟨hexchange, hid, hsy⟩ := hvn
      refine ⟨hid ▸ hsn.tagged.issued, fun o ho htag hsame => ?_⟩
      rw [hsy]
      exact hsn.tagged.symbols o ho (hid ▸ htag) (hsame.trans hexchange)
    | cancelOrder exchange orderId symbol =>
      cases orderId with
      | none => trivial
      | some => exact nofun
    | fetchOrders | fetchTicker | priceToPrecision | monotonic | sleep => trivial
    | _ => exact hvn.elim
  · exact (calm_cases hcl).2 _ _ _
  · intro row hrow hid context hcn
    obtain ⟨own, hown, hid', hnn⟩ := hsn.row
    obtain rfl : own = row := inj_on_of_nodup_map hs.rows.nodup hown hrow (hid'.trans hid.symm)
    rw [hnn] at hcn
    cases hcn

theorem sent_entryCall (ho : EntryCall r w o) {n : VenueOrder} (hn : NewOrder s c o n) : n.symbol = r.symbol := by
  rcases sent_cases hn with ⟨-, -, m, rfl, -⟩ | ⟨m, rfl, -⟩ | ⟨stop, rfl, rfl⟩
  · rcases ho with h | h | ⟨t, filled, h⟩
    · exact h.elim
    · exact h.elim
    · cases h
  · rcases ho with h | h | ⟨t, filled, h⟩
    · exact h.elim
    · exact h.elim
    · cases h
  · rcases ho with h | h | ⟨t, filled, h⟩
    · exact h.2.2
    · exact h.elim
    · cases h

theorem entryCall_moves (h : List (Call State Failure Op Ans)) (s : State) (o : Op) (ho : EntryCall r w o)
    (hs : Orderly s) (hsn : Sending i r w s) : contract.pre i (.place r) h s o ∧
      ∀ c, Entering i w.clientOrderId r.exchange r.symbol s
        ((world.guard (Settled setup) refused).answer i s o c).2 := by
  have hpre := permitted_entryCall ho hs hsn
  refine ⟨hpre, fun c => ?_⟩
  by_cases hok : Settled setup i s o c
  · rw [guard_answer hok]
    exact answer_entering hs hpre fun n hn _ _ => sent_entryCall ho hn
  · rw [guard_answer_not hok]
    exact (entering _ _ _).refl s

abbrev Enters {α : Type} (setup : Setup) (i : ℕ) (r : EntryRequest) (w : EntryWork) (Q : State → α → Prop)
    (p : Program α) (s : State) : Prop :=
  Does setup i (.place r) (Entering i w.clientOrderId r.exchange r.symbol) Q p s

theorem enters_calls {p : Program α} (hp : p.Calls (EntryCall r w)) (hsn : Sending i r w s) :
    Enters setup i r w (fun _ _ => True) p s :=
  .of_calls (entering _ _ _) (kept setup) (fun _ _ => Sending.entering)
    (fun h s o ho hs hI => entryCall_moves h s o ho hs hI) hp hsn

theorem enters_bind {p : Program α} {f : α → Program β} {Q : State → β → Prop} (hp : p.Calls (EntryCall r w))
    (hsn : Sending i r w s) (hf : ∀ a s', Sending i r w s' → Enters setup i r w Q (f a) s') :
    Enters setup i r w Q (p >>= f) s :=
  .bind (entering _ _ _) (enters_calls hp hsn) fun a s' hs' _ => hf a s' (hsn.entering hs')

theorem calm_of_note (ho : Note o) : Calm o := by
  cases o with
  | revokePnlReadiness | createIncident | newClientOrderId | openTrade | setTradeKey | exitKeys | flatten
  | markAccepted | markSubmissionUnknown | markFailed => trivial
  | _ => cases ho

theorem entryCall_of_note {p : Program α} (hp : p.Calls Note) : p.Calls (EntryCall r w) :=
  hp.mono fun _ ho => .inr (.inl (calm_of_note ho))

theorem calls_onVenue (hp : p.Calls (LateFill.OnSymbol r.symbol)) :
    (onVenue r.exchange w.clientOrderId p).Calls (OnVenue r w) := by
  refine .interpret hp fun o ho => ?_
  cases o with
  | fetchOrders => exact .perform ⟨rfl, ho⟩
  | createStopMarketOrder => exact .perform ⟨rfl, rfl, ho⟩
  | fetchTicker | cancelOrder | priceToPrecision | monotonic | sleep => exact .perform trivial
  | _ => trivial

theorem entryCall_onVenue (hp : p.Calls (LateFill.OnSymbol r.symbol)) :
    (onVenue r.exchange w.clientOrderId p).Calls (EntryCall r w) :=
  (calls_onVenue hp).mono fun _ => .inl

def shownOrders : (o : Op) → Except Failure (Ans o) → List Order
  | .fetchOrders _ _ _ _, .ok orders => orders
  | .createStopMarketOrder _, .ok order => [order]
  | _, _ => []

def OfPair (pair : Pair) (s : State) (order : Order) : Prop := ∃ id, order.id = some id ∧ Named s pair id

section

variable (hpair : pairOf r.exchange (baseOf r.symbol) = r.pair)

include hpair

theorem shown_ofPair (ho : OnVenue r w o) (c : Chance) :
    ∀ x ∈ shownOrders o ((world.guard (Settled setup) refused).answer i s o c).1,
      OfPair r.pair ((world.guard (Settled setup) refused).answer i s o c).2 x := by
  have hnm : ∀ {s' : State} {n : VenueOrder}, n ∈ s'.orders → n.exchange = r.exchange → n.symbol = r.symbol →
      OfPair r.pair s' (n.view c) := by
    intro s' n hn hexchange hsy
    refine ⟨n.id, rfl, n, hn, Prod.ext hexchange rfl, ?_⟩
    rw [← hpair]
    simp only [VenueOrder.pair, hexchange, hsy]
  intro x hx
  cases o with
  | fetchOrders exchange symbol listing trigger =>
    obtain ⟨rfl, rfl⟩ := ho
    have hok : Settled setup i s (.fetchOrders r.exchange r.symbol listing trigger) c := trivial
    rw [guard_answer hok] at hx ⊢
    rw [world_answer] at hx ⊢
    unfold answer at hx ⊢
    split at hx
    · obtain ⟨n, hn, rfl⟩ := mem_map.1 hx
      obtain ⟨hmem, hmt⟩ := mem_filter.1 hn
      simp only [Bool.and_eq_true, decide_eq_true_eq] at hmt
      exact hnm hmem hmt.1.1 hmt.1.2
    · cases hx
  | createStopMarketOrder stop =>
    have hok : Settled setup i s (.createStopMarketOrder stop) c := trivial
    rw [guard_answer hok] at hx ⊢
    rw [world_answer] at hx ⊢
    unfold answer at hx ⊢
    split at hx
    · simp only [value, effect, placeStop] at hx ⊢
      split at hx
      · cases hx
      · rename_i hfree
        obtain rfl := mem_singleton.1 hx
        rw [if_neg hfree]
        exact hnm (mem_append_right _ mem_cons_self) ho.1 ho.2.2
    · cases hx
  | _ => cases hx

theorem enters_placeProtectiveStop
    (hsn : Sending i r w s) (direction : String) (amount trigger : ℚ) (firstSequence : ℕ) :
    Enters setup i r w (fun s' stop => ∀ order, stop.order = some order → OfPair r.pair s' order)
      (onVenue r.exchange w.clientOrderId (LateFill.placeProtectiveStop (setup.has r.exchange)
        ⟨r.symbol, direction, amount, trigger, w.clientOrderId⟩ firstSequence)) s := by
  have hsy : (⟨r.symbol, direction, amount, trigger, w.clientOrderId⟩ : LateFill.StopRequest).symbol = r.symbol :=
    rfl
  refine .of_yields (entering _ _ _) (kept setup) (P := OnVenue r w) (fun _ _ => Sending.entering)
    (fun h s o ho hs hI => entryCall_moves h s o (.inl ho) hs hI) (f := shownOrders) (G := OfPair r.pair)
    (fun s1 s2 order hs ⟨id, hid, hnm⟩ => ⟨id, hid, hnm.onward hs.1⟩)
    (fun s1 o c ho _ _ => shown_ofPair hpair ho c)
    (calls_onVenue (LateFill.calls_placeProtectiveStop _ (fun _ ho _ => ho) hsy _))
    (fun s' _ => (LateFill.yields_placeProtectiveStop _ _).interpret (fun o => ?_) fun o _ => by cases o <;> rfl) hsn
  cases o with
  | fetchOrders | createStopMarketOrder => exact .perform fun _ h => h
  | fetchTicker | cancelOrder | priceToPrecision | monotonic | sleep => exact .perform fun _ _ x hx => by cases hx
  | _ => trivial

theorem enters_protectOpen (hsn : Sending i r w s) (order : Order) (resolution : FillResolution) :
    Enters setup i r w (fun _ _ => True) (protectOpen setup r w order resolution) s := by
  have hR := entering (i := i) w.clientOrderId r.exchange r.symbol
  refine enters_bind (entryCall_onVenue (LateFill.calls_stopTrigger (fun _ ho _ => ho) _ _ _ _)) hsn
    fun trigger s1 hsn1 => ?_
  refine .bind hR (enters_placeProtectiveStop hpair hsn1 _ _ _ _) fun stop s2 hs2 hsp => ?_
  have hsn2 := hsn1.entering hs2
  split
  · exact enters_calls (entryCall_of_note (notes_flattenEntry r)) hsn2
  · rename_i slOrder hsl
    obtain ⟨id, hid, hnm⟩ := hsp slOrder hsl
    rw [hid, Option.getD_some]
    have htr : Enters setup i r w (fun _ _ => True) (tryCall (.setStopKey r.pair id)) s2 := by
      refine .attempt (kept setup) hR (fun _ s3 hs3 _ => hnm.onward hs3.toOnward) (fun s3 c hs3 hinv _ => ?_)
        (fun _ _ _ => trivial) fun _ _ _ _ _ _ _ _ => trivial
      have hpre : Permitted i (.place r) s3 (.setStopKey r.pair id) := hnm.onward hs3.toOnward
      exact hR.rely _ _ (answer_own trivial hinv hpre)
    refine .bind hR htr fun _ s3 hs3 _ => ?_
    refine enters_calls ((calls_journalOpen r w order resolution).mono fun o ho => ?_) (hsn2.entering hs3)
    rcases ho with hnt | hmr
    · exact .inr (.inl (calm_of_note hnt))
    · exact .inr (.inr hmr)

theorem enters_continueOpen (hsn : Sending i r w s)
    (order : Order) : Enters setup i r w (fun _ _ => True) (continueOpen setup r w order) s := by
  refine enters_bind (entryCall_of_note (.perform rfl)) hsn fun _ s1 hsn1 => ?_
  refine enters_bind (entryCall_of_note (.perform rfl)) hsn1 fun _ s2 hsn2 => ?_
  have hrs : (resolveFillPrice setup r.exchange r.symbol order (some w.amount)).Calls (EntryCall r w) :=
    (calm_of_look (looks_resolveFillPrice _ _ _ _ _)).mono fun _ ho => .inr (.inl ho)
  refine enters_bind hrs hsn2 fun resolution s3 hsn3 => ?_
  split
  · exact enters_calls (entryCall_of_note (.step rfl fun _ => .last rfl)) hsn3
  · exact enters_protectOpen hpair hsn3 order resolution

theorem enters_settleFound (hsn : Sending i r w s)
    (found : Order) : Enters setup i r w (fun _ _ => True) (settleFound setup r w found) s := by
  have hst : ∀ guard : LateFill.FillGuard, guard.symbol = r.symbol →
      (LateFill.settleActiveEntry (setup.has r.exchange) r.symbol guard found).Calls (LateFill.OnSymbol r.symbol) :=
    fun _ hgr => LateFill.calls_settleActiveEntry _ (fun _ ho _ => ho) hgr found
  refine enters_bind (entryCall_onVenue (hst _ rfl)) hsn fun settled s1 hsn1 => ?_
  split
  · exact enters_calls (entryCall_of_note (.last rfl)) hsn1
  split
  · exact enters_calls (entryCall_of_note (.step rfl fun _ => notes_flattenEntry r)) hsn1
  · exact enters_continueOpen hpair hsn1 _

end

theorem calls_findEntry (has : LateFill.Has) (symbol clientOrderId : String) :
    (findEntry has symbol clientOrderId).Calls (LateFill.OnSymbol symbol) := by
  have hlk : ∀ (looks : List ℚ) (started : ℚ),
      (findEntryAt has symbol clientOrderId started looks).Calls (LateFill.OnSymbol symbol) := by
    intro looks started
    induction looks with
    | nil => trivial
    | cons due looks ih =>
      refine .step trivial fun now => .bind (LateFill.calls_sleepFor (fun _ => trivial) _) fun _ =>
        .bind (LateFill.calls_lookUp has (fun _ ho _ => ho) _) fun found => ?_
      split
      · trivial
      · exact ih
  exact .step trivial fun started => hlk _ started

theorem enters_recoverUnknownEntry (hpair : pairOf r.exchange (baseOf r.symbol) = r.pair)
    (hsn : Sending i r w s) : Enters setup i r w (fun _ _ => True) (recoverUnknownEntry setup r w) s := by
  refine enters_bind (entryCall_of_note (.perform rfl)) hsn fun _ s1 hsn1 => ?_
  refine enters_bind (entryCall_onVenue (calls_findEntry _ _ _)) hsn1 fun found s2 hsn2 => ?_
  split
  · exact .ret (entering _ _ _) trivial
  split
  · exact enters_continueOpen hpair hsn2 _
  · exact enters_settleFound hpair hsn2 _

structure Ready (i : ℕ) (r : EntryRequest) (id : String) (s : State) : Prop where
  locked : s.locks r.pair = some i
  idle : Listed r s []
  issued : (id, i) ∈ s.issued
  fresh : ∀ o ∈ s.orders, o.tag ≠ some id

theorem Ready.rely (hs : Rely i s s') (h : Ready i r id s) : Ready i r id s' := by
  refine ⟨hs.locks _ h.locked, h.idle.rely hs h.locked, hs.issued h.issued, fun o' ho' htag => ?_⟩
  rcases hs.foreign.mem_back ho' with ⟨o, ho, hsh⟩ | hnew
  · exact h.fresh o ho (hsh.tag ▸ htag)
  · exact hnew.2 id htag h.issued

theorem enters_submitEntry (hpr : Proper setup (.place r)) (hrd : Ready i r w.clientOrderId s)
    (hrow : EntryRow w.attemptId s) : Enters setup i r w (fun _ _ => True) (submitEntry setup r w) s := by
  have hpair : pairOf r.exchange (baseOf r.symbol) = r.pair := by
    unfold EntryRequest.pair pairOf
    rw [hpr.2, hpr.1]
  have hR := entering (i := i) w.clientOrderId r.exchange r.symbol
  have hsn : Sending i r w s :=
    ⟨⟨hrd.issued, fun o ho htag => absurd htag (hrd.fresh o ho)⟩, hrow⟩
  set m : MarketOrder :=
    { exchange := r.exchange
      symbol := r.symbol
      direction := entryDirection r.side
      amount := w.amount
      clientOrderId := w.clientOrderId
      reduceOnly := false } with hm
  have hmay : ∀ s1, Rely i s s1 → Permitted i (.place r) s1 (.createMarketOrder m) := by
    intro s1 hs1 _
    have hrd1 := hrd.rely hs1
    refine ⟨hrd1.issued, ?_, fun e he hen hsame => ?_, hrd1.fresh, hpr.2⟩
    · exact (congrArg s1.locks hpair).trans hrd1.locked
    · rcases hrd1.idle e he hen (hsame.trans hpair) with hzr | ⟨p, hp, -⟩
      · exact hzr
      · cases hp
  have hsd : Enters setup i r w (fun _ _ => True) (tryCall (.createMarketOrder m)) s := by
    refine .attempt (kept setup) hR (fun _ s1 hs1 _ => hmay s1 hs1) (fun s1 c hs1 hinv _ => ?_)
      (fun _ _ _ => trivial) fun _ _ _ _ _ _ _ _ => trivial
    refine answer_entering hinv (hmay s1 hs1) fun n hn _ _ => ?_
    rw [hn.2]
    rfl
  refine .bind hR hsd fun answer s1 hs1 _ => ?_
  have hsn1 := hsn.entering hs1
  have hrf : Enters setup i r w (fun _ _ => True) (do
      call (.markFailed w.attemptId)
      return .refused : Program EntryResult) s1 :=
    enters_calls (entryCall_of_note (.last rfl)) hsn1
  split
  · exact enters_continueOpen hpair hsn1 _
  · exact hrf
  · exact hrf
  · exact hrf
  · exact enters_recoverUnknownEntry hpair hsn1

end

theorem does_newClientOrderId :
    Does setup i job (Rely i) (fun s' id => (id, i) ∈ s'.issued ∧ ∀ o ∈ s'.orders, o.tag ≠ some id)
      (call .newClientOrderId) s := by
  refine does_own .newClientOrderId trivial (fun _ _ _ => trivial) fun s1 c id _ hinv _ han _ => ?_
  unfold answer at han ⊢
  split at han
  · simp only [value, effect] at han ⊢
    split at han
    · cases han
    · rename_i hnew
      cases han
      rw [if_neg hnew]
      refine ⟨mem_append_right _ mem_cons_self, fun o ho htag => hnew ?_⟩
      obtain ⟨x, hx, hte⟩ := mem_map.1 (hinv.tags o ho _ htag)
      rw [Bool.or_eq_true]
      exact .inl (any_eq_true.2 ⟨x, hx, decide_eq_true hte⟩)
  · cases han

theorem does_createAttempt (entry : NewEntry) :
    Does setup i job (Rely i) (fun s' attemptId => ∀ id, attemptId = some id → EntryRow id s')
      (call (.createAttempt entry)) s := by
  refine does_own (.createAttempt entry) trivial (fun _ _ _ => trivial) fun s1 c attemptId _ _ _ han _ id hid => ?_
  unfold answer at han ⊢
  split at han
  · simp only [value, effect] at han ⊢
    cases han
    split at hid
    · cases hid
    · rename_i hun
      cases hid
      rw [if_neg hun]
      exact ⟨_, mem_append_right _ mem_cons_self, rfl, rfl⟩
  · cases han
    cases hid

theorem onward : Along contract i Onward := ⟨.refl, fun _ _ _ => .trans, fun _ _ h => h.toOnward⟩

theorem lawful_placeLocked (hpr : Proper setup (.place r)) (hlc : s.locks r.pair = some i) :
    Does setup i (.place r) Onward (fun _ _ => True) (placeLocked setup r) s := by
  have hkp : ∀ {s s' : State}, Rely i s s' → Onward s s' := fun h => h.toOnward
  refine .bind onward ((does_fetchAllPositions hlc setup.exchanges).carry fun _ => hkp)
    fun out s1 _ ⟨hs1, hls⟩ => ?_
  split
  · exact .ret onward trivial
  rename_i ham
  split
  · exact .raise onward
  rename_i hmem
  -- the exchange was read, and lists nothing of the instrument
  have ham' : positionsAdmit r out.1 out.2 = true := by simpa using ham
  simp only [positionsAdmit, Bool.and_eq_true, decide_eq_true_eq, all_eq_true] at ham'
  have hil : Listed r s1 [] := by
    intro e he hen hpair
    refine (hls (not_not.1 hmem) ham'.1 e he hen hpair).imp_right fun ⟨p, hp, hbs⟩ => ?_
    exact absurd hbs (ham'.2 p hp)
  have hlc1 := hs1.locks _ hlc
  refine .bind onward (.carry (fun _ => hkp) (lawful_calls (.perform trivial)))
    fun admitted s2 _ ⟨hs2, _⟩ => ?_
  split
  · exact .ret onward trivial
  refine .bind onward (does_newClientOrderId.carry fun _ => hkp) fun id s3 _ ⟨hs3, hid⟩ => ?_
  have hs₁₃ := hs2.trans hs3
  have hrd3 : Ready i r id s3 := ⟨hs₁₃.locks _ hlc1, hil.rely hs₁₃ hlc1, hid.1, hid.2⟩
  refine .bind onward ((does_createAttempt _).carry fun _ => hkp) fun attemptId s4 _ ⟨hs4, hrow⟩ => ?_
  split
  · exact .ret onward trivial
  refine .bind onward (.carry (fun _ => hkp) (lawful_calls (.perform trivial)))
    fun pass s5 _ ⟨hs5, _⟩ => ?_
  split
  · refine (enters_submitEntry hpr (hrd3.rely (hs4.trans hs5)) ?_).weaken fun _ h => h.1
    exact (hrow _ rfl).onward hs5.toOnward
  · exact .weaken (fun _ => hkp) (lawful_calls (.last trivial))

theorem lawful_placeOrder (hpr : Proper setup (.place r)) :
    Does setup i (.place r) Onward (fun _ _ => True) (placeOrder setup r) s := by
  refine .bind onward (.weaken (fun _ h => h.toOnward) (lawful_calls (.perform trivial)))
    fun isOpen s1 _ _ => ?_
  split
  · refine .bind onward ((does_acquireLock r.pair).weaken fun _ h => h.1) fun locked s2 _ hlc => ?_
    split
    · rename_i htru
      exact .ensure onward (lawful_placeLocked hpr (hlc htru))
        (fun s3 _ => (lawful_releaseLock r.pair).weaken fun _ h => h.1) fun _ _ _ _ _ => trivial
    · exact .ret onward trivial
  · exact .ret onward trivial

end

end Schurfer.Protection
