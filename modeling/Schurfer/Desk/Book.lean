import Schurfer.Desk.Parts

/-!
# The order books

Every order stays the order it is, what is left of it does not grow, and a call adds at most one. The books are in
order (`Book`) when at most one entry of an instrument holds anything.
-/

namespace Schurfer.Desk

open Orders LateFill List VenueOrder Function Bool

variable {s : State} {o e : VenueOrder} {N : VenueOrder → Prop} {side : Side} {c : Chance}

namespace VenueOrder

def isStop (o : VenueOrder) : Bool :=
  match o.kind with
  | .stop _ _ => true
  | _ => false

def key (o : VenueOrder) : String × String := (o.exchange, o.id)

def tag (o : VenueOrder) : Option String :=
  match o.kind with
  | .entry _ => some o.clientOrderId
  | .stop entryClientOrderId _ => some entryClientOrderId
  | .close => none

/-- The order is a stop that was placed for the entry. -/
def Protects (o e : VenueOrder) : Prop :=
  o.isStop = true ∧ e.isEntry = true ∧ e.exchange = o.exchange ∧ o.tag = some e.clientOrderId

instance (o e : VenueOrder) : Decidable (o.Protects e) := by
  unfold Protects
  infer_instance

theorem tag_of_isEntry (h : e.isEntry = true) : e.tag = some e.clientOrderId := by
  unfold isEntry at h
  unfold tag
  split at h
  · rename_i side hkind
    rw [hkind]
  · cases h

theorem isEntry_of_holds {exchange symbol : String} (h : o.holds exchange symbol side = true) :
    o.isEntry = true ∧ o.exchange = exchange ∧ o.symbol = symbol ∧ o.kind = .entry side := by
  simp only [holds, and_eq_true, decide_eq_true_eq] at h
  obtain ⟨⟨hexchange, hsy⟩, hkind⟩ := h
  refine ⟨?_, hexchange, hsy, hkind⟩
  simp only [isEntry, hkind]

end VenueOrder

def MarketOrder.pair (m : MarketOrder) : Pair := pairOf m.exchange (baseOf m.symbol)

structure VenueOrder.Shrinks (o o' : VenueOrder) : Prop where
  exchange : o'.exchange = o.exchange
  id : o'.id = o.id
  clientOrderId : o'.clientOrderId = o.clientOrderId
  symbol : o'.symbol = o.symbol
  kind : o'.kind = o.kind
  left_le : o'.left ≤ o.left
  left_nonneg : 0 ≤ o.left → 0 ≤ o'.left
  executed_le : o.executed ≤ o'.executed
  executed : o.isStop = false → o'.executed = o.executed

namespace VenueOrder.Shrinks

variable {o' o1 o2 o3 : VenueOrder}

theorem refl (o : VenueOrder) : o.Shrinks o :=
  ⟨rfl, rfl, rfl, rfl, rfl, le_refl _, fun h => h, le_refl _, fun _ => rfl⟩

section

variable (h : o.Shrinks o')

include h

theorem isStop : o'.isStop = o.isStop := by
  simp only [VenueOrder.isStop, h.kind]

theorem isEntry : o'.isEntry = o.isEntry := by
  simp only [VenueOrder.isEntry, h.kind]

theorem pair : o'.pair = o.pair := by
  simp only [VenueOrder.pair, h.exchange, h.symbol]

theorem key : o'.key = o.key := by
  simp only [VenueOrder.key, h.exchange, h.id]

theorem tag : o'.tag = o.tag := by
  simp only [VenueOrder.tag, h.kind, h.clientOrderId]

theorem holds (exchange symbol : String) (side : Side) :
    o'.holds exchange symbol side = o.holds exchange symbol side := by
  simp only [VenueOrder.holds, h.exchange, h.symbol, h.kind]

theorem protects {e' : VenueOrder} (he : e.Shrinks e') : o'.Protects e' ↔ o.Protects e := by
  simp only [VenueOrder.Protects, h.isStop, he.isEntry, he.exchange, h.exchange, h.tag, he.clientOrderId]

end

theorem trans (h1 : o1.Shrinks o2) (h2 : o2.Shrinks o3) : o1.Shrinks o3 where
  exchange := h2.exchange.trans h1.exchange
  id := h2.id.trans h1.id
  clientOrderId := h2.clientOrderId.trans h1.clientOrderId
  symbol := h2.symbol.trans h1.symbol
  kind := h2.kind.trans h1.kind
  left_le := h2.left_le.trans h1.left_le
  left_nonneg h := h2.left_nonneg (h1.left_nonneg h)
  executed_le := h1.executed_le.trans h2.executed_le
  executed h := (h2.executed (h1.isStop.trans h)).trans (h1.executed h)

theorem left_eq_zero (h : o.Shrinks o') (hzr : o.left = 0) : o'.left = 0 :=
  le_antisymm (h.left_le.trans hzr.le) (h.left_nonneg hzr.ge)

theorem holding_le (h : o.Shrinks o') (exchange symbol : String) (side : Side) :
    o'.holding exchange symbol side ≤ o.holding exchange symbol side := by
  unfold holding
  rw [h.holds]
  split
  · exact h.left_le
  · exact le_refl 0

end VenueOrder.Shrinks

section

variable {pick : VenueOrder → Bool} {x : ℚ} {orders : List VenueOrder}

theorem drawFrom_shrinks (hx : 0 ≤ x) (hlf : ∀ o ∈ orders, 0 ≤ o.left) :
    List.Forall₂ VenueOrder.Shrinks orders (drawFrom pick x orders) := by
  induction orders generalizing x with
  | nil => exact .nil
  | cons o orders ih =>
    have ho : 0 ≤ o.left := hlf o mem_cons_self
    have hrs : ∀ o' ∈ orders, 0 ≤ o'.left := fun o' h => hlf o' (mem_cons_of_mem o h)
    unfold drawFrom
    split
    · refine .cons ⟨rfl, rfl, rfl, rfl, rfl, ?_, fun _ => ?_, le_refl _, fun _ => rfl⟩ (ih ?_ hrs)
      · exact sub_le_self _ (le_min hx ho)
      · exact sub_nonneg.2 (min_le_right x o.left)
      · exact sub_nonneg.2 (min_le_left x o.left)
    · exact .cons (.refl o) (ih hx hrs)

theorem drawFrom_sum {exchange symbol : String} (hx : 0 ≤ x)
    (hlf : ∀ o ∈ orders, 0 ≤ o.left) (hhe : x ≤ (orders.map (holding exchange symbol side)).sum) :
    ((drawFrom (holds exchange symbol side) x orders).map (holding exchange symbol side)).sum =
      (orders.map (holding exchange symbol side)).sum - x := by
  induction orders generalizing x with
  | nil =>
    simp [drawFrom, le_antisymm hhe hx]
  | cons o orders ih =>
    have hrs : ∀ o' ∈ orders, 0 ≤ o'.left := fun o' h => hlf o' (mem_cons_of_mem o h)
    rw [map_cons, sum_cons] at hhe
    unfold drawFrom
    split
    · rename_i hpc
      have hold : o.holding exchange symbol side = o.left := if_pos hpc
      have hnew : ({ o with left := o.left - min x o.left } : VenueOrder).holding exchange symbol side =
          o.left - min x o.left := if_pos hpc
      rw [hold] at hhe
      have hle : x - min x o.left ≤ (orders.map (holding exchange symbol side)).sum := by
        rcases le_total x o.left with h | h
        · rw [min_eq_left h, sub_self]
          refine sum_nonneg fun y hy => ?_
          obtain ⟨o', ho', rfl⟩ := mem_map.1 hy
          unfold holding
          split
          · exact hrs o' ho'
          · exact le_refl 0
        · rw [min_eq_right h]
          linarith
      rw [map_cons, sum_cons, map_cons, sum_cons, hold, hnew, ih (sub_nonneg.2 (min_le_left x o.left)) hrs hle]
      ring
    · rename_i hpc
      have hold : o.holding exchange symbol side = 0 := if_neg hpc
      rw [hold, zero_add] at hhe
      rw [map_cons, sum_cons, map_cons, sum_cons, hold, ih hx hrs hhe]
      ring

end

def NewOrder (s : State) (c : Chance) : Op → VenueOrder → Prop
  | .createMarketOrder m, n => s.taken m.exchange c.text m.clientOrderId = false ∧
      n = if m.reduceOnly then newCloseOrder s c m else newEntryOrder c m
  | .createStopMarketOrder stop, n => s.taken stop.exchange c.text stop.clientOrderId = false ∧ n = newStopOrder c stop
  | _, _ => False

theorem NewOrder.unique {o : Op} {n n' : VenueOrder} (h : NewOrder s c o n) (h' : NewOrder s c o n') : n = n' := by
  cases o with
  | createMarketOrder | createStopMarketOrder => exact h.2.trans h'.2.symm
  | _ => exact h.elim

def Op.isOrderCall : Op → Bool
  | .createMarketOrder _ | .createStopMarketOrder _ | .cancelOrder _ _ _ => true
  | _ => false

def Op.isKeyCall : Op → Bool
  | .acquireLock _ | .releaseLock _ | .setStopKey _ _ | .deleteStopKey _ | .fetchPositions _ _
  | .newClientOrderId => true
  | _ => false

structure SameKeys (s s' : State) : Prop where
  locks : s'.locks = s.locks
  stopKeys : s'.stopKeys = s.stopKeys
  issued : s'.issued = s.issued
  seen : s'.seen = s.seen

/-- What a call does to the locks, the stop keys, the issued ids and the looks: at most one of them changes. -/
inductive KeyMove (i : ℕ) (s : State) (c : Chance) : Op → State → Prop
  | same (o : Op) : KeyMove i s c o s
  | acquire (pair : Pair) (hfree : s.locks pair = none) :
    KeyMove i s c (.acquireLock pair) { s with locks := Function.update s.locks pair (some i) }
  | release (pair : Pair) (hhe : s.locks pair = some i) :
    KeyMove i s c (.releaseLock pair) { s with locks := Function.update s.locks pair none }
  | setStop (pair : Pair) (orderId : String) :
    KeyMove i s c (.setStopKey pair orderId) { s with stopKeys := Function.update s.stopKeys pair (some orderId) }
  | deleteStop (pair : Pair) :
    KeyMove i s c (.deleteStopKey pair) { s with stopKeys := Function.update s.stopKeys pair none }
  | issue (hnew : c.text ∉ s.issued.map Prod.fst) :
    KeyMove i s c .newClientOrderId { s with issued := s.issued ++ [(c.text, i)] }
  | look (exchange : String) (seen : String → ℕ) :
    KeyMove i s c (.fetchPositions .snapshot exchange) { s with seen := Function.update s.seen i seen }

theorem SameKeys.refl (s : State) : SameKeys s s := ⟨rfl, rfl, rfl, rfl⟩

theorem effect_parts (i : ℕ) (s : State) (c : Chance) (o : Op) :
    (o.isOrderCall = false → (effect i s c o).orders = s.orders) ∧
      (o.isKeyCall = false → SameKeys s (effect i s c o)) := by
  cases o with
  | createMarketOrder m =>
    refine ⟨fun h => Bool.noConfusion h, fun _ => ?_⟩
    simp only [effect, placeMarket]
    split
    · exact .refl s
    · split <;> exact ⟨rfl, rfl, rfl, rfl⟩
  | createStopMarketOrder stop =>
    refine ⟨fun h => Bool.noConfusion h, fun _ => ?_⟩
    simp only [effect, placeStop]
    split <;> exact ⟨rfl, rfl, rfl, rfl⟩
  | cancelOrder exchange orderId symbol =>
    refine ⟨fun h => Bool.noConfusion h, fun _ => ?_⟩
    cases orderId <;> exact ⟨rfl, rfl, rfl, rfl⟩
  | acquireLock | releaseLock | newClientOrderId =>
    refine ⟨fun _ => ?_, fun h => Bool.noConfusion h⟩
    simp only [effect]
    split <;> rfl
  | setStopKey | deleteStopKey => exact ⟨fun _ => rfl, fun h => Bool.noConfusion h⟩
  | fetchPositions reader exchange => refine ⟨fun _ => ?_, fun h => Bool.noConfusion h⟩; cases reader <;> rfl
  | deleteTradeKeyIfMatches pair tradeId =>
    simp only [effect]
    split <;> exact ⟨fun _ => rfl, fun _ => ⟨rfl, rfl, rfl, rfl⟩⟩
  | createAttempt | createCloseAttempt =>
    simp only [effect]
    split <;> exact ⟨fun _ => rfl, fun _ => ⟨rfl, rfl, rfl, rfl⟩⟩
  | openTrade trade =>
    simp only [effect, State.openTrade]
    split <;> exact ⟨fun _ => rfl, fun _ => ⟨rfl, rfl, rfl, rfl⟩⟩
  | recordCloseFill f =>
    have hkp : ∀ s', s' = s ∨ s' = { s with fills := s.fills ++ [f] } → s'.orders = s.orders ∧ SameKeys s s' := by
      rintro s' (rfl | rfl)
      · exact ⟨rfl, .refl s'⟩
      · exact ⟨rfl, rfl, rfl, rfl, rfl⟩
    have hst : (s.recordCloseFill f).2 = s ∨ (s.recordCloseFill f).2 = { s with fills := s.fills ++ [f] } := by
      unfold State.recordCloseFill
      split
      · split
        · exact .inl rfl
        · exact .inl rfl
        · split
          · exact .inr rfl
          · exact .inl rfl
      · exact .inl rfl
    obtain ⟨hor, hkeys⟩ := hkp _ hst
    exact ⟨fun _ => hor, fun _ => hkeys⟩
  | createIncident n =>
    simp only [effect, State.createIncident]
    split <;> exact ⟨fun _ => rfl, fun _ => ⟨rfl, rfl, rfl, rfl⟩⟩
  | _ => exact ⟨fun _ => rfl, fun _ => ⟨rfl, rfl, rfl, rfl⟩⟩

theorem reducedOf_nonneg (s : State) (c : Chance) (m : MarketOrder) : 0 ≤ reducedOf s c m := le_max_left _ _

theorem reducedOf_le {m : MarketOrder} (hhe : 0 ≤ s.held m.exchange m.symbol m.direction.reduces) :
    reducedOf s c m ≤ s.held m.exchange m.symbol m.direction.reduces := by
  exact max_le hhe ((min_le_right _ _).trans (min_le_right _ _))

theorem cancel_orders (s : State) (exchange orderId : String) :
    Rows.Adds VenueOrder.Shrinks N s.orders (cancel s exchange orderId).orders := by
  refine .map fun o _ => ?_
  split
  · exact ⟨rfl, rfl, rfl, rfl, rfl, le_refl _, fun h => h, le_refl _, fun _ => rfl⟩
  · exact .refl o

theorem effect_orders (hlf : ∀ o ∈ s.orders, 0 ≤ o.left) (i : ℕ) (c : Chance) (o : Op) :
    Rows.Adds VenueOrder.Shrinks (NewOrder s c o) s.orders (effect i s c o).orders := by
  cases hcl : o.isOrderCall with
  | false =>
    rw [(effect_parts i s c o).1 hcl]
    exact .refl .refl _
  | true =>
    cases o with
    | cancelOrder exchange orderId symbol =>
      cases orderId with
      | none => exact .refl .refl _
      | some orderId => exact cancel_orders s exchange orderId
    | createStopMarketOrder stop =>
      simp only [effect, placeStop]
      split
      · exact .refl .refl _
      · rename_i hfree
        exact .append .refl ⟨eq_false_iff.2 hfree, rfl⟩
    | createMarketOrder m =>
      simp only [effect, placeMarket]
      split
      · exact .refl .refl _
      rename_i hfree
      split
      · rename_i hrd
        exact ⟨_, drawFrom_shrinks (reducedOf_nonneg s c m) hlf,
          .inr ⟨_, ⟨eq_false_iff.2 hfree, (if_pos hrd).symm⟩, rfl⟩⟩
      · rename_i hrd
        exact .append .refl ⟨eq_false_iff.2 hfree, (if_neg hrd).symm⟩
    | _ => cases hcl

theorem env_orders (hlf : ∀ o ∈ s.orders, 0 ≤ o.left) (hkeys : (s.orders.map key).Nodup)
    (e : Event) : Rows.Adds VenueOrder.Shrinks N s.orders (env s e).orders := by
  cases e with
  | fillStop exchange orderId amount status =>
    simp only [env, fillStop]
    split
    · rename_i exchange' id clientOrderId symbol entryClientOrderId side amount' executed left resting hfn
      split
      · exact .refl .refl _
      have hx : (0 : ℚ) ≤ max 0 (min amount (s.held exchange symbol side)) := le_max_left _ _
      refine ⟨_, Rows.forall₂_map_right (fun _ _ _ => .trans) (drawFrom_shrinks hx hlf) fun o ho o' hsh => ?_, .inl rfl⟩
      split
      · -- the order that executes more is the stop that was found
        rename_i hna
        have hmem := mem_of_find?_eq_some hfn
        have hnm := find?_some hfn
        simp only [and_eq_true, decide_eq_true_eq] at hnm
        have hkey : o.key = (exchange, orderId) := by
          rw [← hsh.key]
          exact Prod.ext hna.1 hna.2
        have hsame := inj_on_of_nodup_map hkeys ho hmem (hkey.trans (Prod.ext hnm.1.symm hnm.2.symm))
        have hsp : o'.isStop = true := by
          rw [hsh.isStop, hsame]
          rfl
        refine ⟨rfl, rfl, rfl, rfl, rfl, le_refl _, fun h => h, le_add_of_nonneg_right hx, fun h => ?_⟩
        rw [hsp] at h
        cases h
      · exact .refl o'
    · exact .refl .refl _
  | _ => exact .refl .refl _

section

variable (i : ℕ) (s : State) (o : Op) (c : Chance) {pair : Pair} {j : ℕ}

theorem missed_orders : (missed i s o).orders = s.orders := by
  unfold missed
  split <;> rfl

theorem answer_orders (hlf : ∀ o ∈ s.orders, 0 ≤ o.left) :
    Rows.Adds VenueOrder.Shrinks (NewOrder s c o) s.orders (answer i s o c).2.orders := by
  rcases answer_cases i s o c with heq | heq
  · rw [heq]
    exact effect_orders hlf i c o
  · rw [heq, missed_orders]
    exact .refl .refl _

theorem answer_keys : ∃ t, KeyMove i s c o t ∧ SameKeys t (answer i s o c).2 := by
  rcases answer_cases i s o c with heq | heq
  · rw [heq]
    cases hcl : o.isKeyCall with
    | false => exact ⟨s, .same o, (effect_parts i s c o).2 hcl⟩
    | true =>
      refine ⟨effect i s c o, ?_, .refl _⟩
      cases o with
      | acquireLock pair =>
        simp only [effect]
        split
        · rename_i hfree
          exact .acquire pair hfree.1
        · exact .same _
      | releaseLock pair =>
        simp only [effect]
        split
        · rename_i hhe
          exact .release pair hhe
        · exact .same _
      | setStopKey pair orderId => exact .setStop pair orderId
      | deleteStopKey pair => exact .deleteStop pair
      | fetchPositions reader exchange =>
        cases reader with
        | snapshot => exact .look exchange _
        | _ => exact .same _
      | newClientOrderId =>
        simp only [effect]
        split
        · exact .same _
        · rename_i hnew
          refine .issue fun hmem => hnew ?_
          obtain ⟨x, hx, hte⟩ := mem_map.1 hmem
          rw [or_eq_true]
          exact .inl (any_eq_true.2 ⟨x, hx, decide_eq_true hte⟩)
      | _ => cases hcl
  · refine ⟨missed i s o, ?_, heq ▸ .refl _⟩
    unfold missed
    split
    · exact .look _ _
    · exact .same o

theorem answer_locks (hj : j ≠ i) (h : s.locks pair = some j) : (answer i s o c).2.locks pair = some j := by
  obtain ⟨t, hmove, hkeys⟩ := answer_keys i s o c
  rw [hkeys.locks]
  cases hmove with
  | acquire pair' hfree =>
    have hne : pair ≠ pair' := fun heq => by rw [← heq, h] at hfree; cases hfree
    exact (update_of_ne hne _ _).trans h
  | release pair' hhe =>
    have hne : pair ≠ pair' := fun heq => by
      rw [← heq, h] at hhe
      exact hj (Option.some.inj hhe)
    exact (update_of_ne hne _ _).trans h
  | _ => exact h

theorem answer_issued : (answer i s o c).2.issued = s.issued ∨
    (c.text ∉ s.issued.map Prod.fst ∧ (answer i s o c).2.issued = s.issued ++ [(c.text, i)]) := by
  obtain ⟨t, hmove, hkeys⟩ := answer_keys i s o c
  rw [hkeys.issued]
  cases hmove with
  | issue hnew => exact .inr ⟨hnew, rfl⟩
  | _ => exact .inl rfl

theorem update_cases {κ β : Type} [DecidableEq κ] {f : κ → Option β} {k k' : κ} {value : Option β} {b : β}
    (h : Function.update f k' value k = some b) : f k = some b ∨ (k' = k ∧ value = some b) := by
  by_cases hkey : k = k'
  · subst hkey
    rw [update_self] at h
    exact .inr ⟨rfl, h⟩
  · rw [update_of_ne hkey] at h
    exact .inl h

theorem answer_stopKeys {orderId : String} (h : (answer i s o c).2.stopKeys pair = some orderId) :
    s.stopKeys pair = some orderId ∨ o = .setStopKey pair orderId := by
  obtain ⟨t, hmove, hkeys⟩ := answer_keys i s o c
  rw [hkeys.stopKeys] at h
  cases hmove with
  | setStop pair' orderId' =>
    rcases update_cases h with hold | ⟨rfl, hset⟩
    · exact .inl hold
    · cases hset
      exact .inr rfl
  | deleteStop pair' =>
    rcases update_cases h with hold | ⟨-, hno⟩
    · exact .inl hold
    · cases hno
  | _ => exact .inl h

theorem answer_seen (hj : j ≠ i) : (answer i s o c).2.seen j = s.seen j := by
  obtain ⟨t, hmove, hkeys⟩ := answer_keys i s o c
  rw [hkeys.seen]
  cases hmove with
  | look => exact update_of_ne hj _ _
  | _ => rfl

end

/-- Nothing is held that was not executed, ids are not shared, at most one entry of an instrument holds
anything, and the orders of one entry are of one symbol. -/
structure Book (orders : List VenueOrder) : Prop where
  left : ∀ o ∈ orders, 0 ≤ o.left ∧ o.left ≤ o.executed
  keys : (orders.map VenueOrder.key).Nodup
  single : ∀ e ∈ orders, ∀ e' ∈ orders, e.isEntry = true → e'.isEntry = true → e.pair = e'.pair →
    e.left ≠ 0 → e'.left ≠ 0 → e.key = e'.key
  symbols : ∀ o ∈ orders, ∀ o' ∈ orders, ∀ id, o.tag = some id → o'.tag = some id →
    o.exchange = o'.exchange → o.symbol = o'.symbol

structure Fits (orders : List VenueOrder) (n : VenueOrder) : Prop where
  left : 0 ≤ n.left ∧ n.left ≤ n.executed
  key : n.key ∉ orders.map VenueOrder.key
  single : n.isEntry = true → ∀ e ∈ orders, e.isEntry = true → e.pair = n.pair → e.left = 0
  symbols : ∀ o ∈ orders, ∀ id, n.tag = some id → o.tag = some id → o.exchange = n.exchange → o.symbol = n.symbol

section

variable {orders orders' : List VenueOrder}

theorem Book.left_nonneg (h : Book orders) : ∀ o ∈ orders, 0 ≤ o.left := fun o ho => (h.left o ho).1

theorem Book.eq_of_key (h : Book orders) {o' : VenueOrder} (ho : o ∈ orders) (ho' : o' ∈ orders)
    (hkey : o.key = o'.key) : o = o' :=
  inj_on_of_nodup_map h.keys ho ho' hkey

theorem Book.adds (h : Book orders) (hadd : Rows.Adds VenueOrder.Shrinks N orders orders')
    (hun : ∀ n n', N n → N n' → n = n') (hft : ∀ n, N n → Fits orders n) : Book orders' := by
  -- an order is an old one that shrank, or the new one
  have hba := fun {o'} (ho' : o' ∈ orders') => hadd.grows.mem_back ho'
  refine ⟨fun o' ho' => ?_, ?_, fun e1 h1 e2 h2 hen1 hen2 hpair hlf1 hlf2 => ?_,
    fun o1 h1 o2 h2 id htag1 htag2 hexchange => ?_⟩
  · rcases hba ho' with ⟨o, ho, hsh⟩ | hnew
    · obtain ⟨hnn, hle⟩ := h.left o ho
      exact ⟨hsh.left_nonneg hnn, hsh.left_le.trans (hle.trans hsh.executed_le)⟩
    · exact (hft o' hnew).left
  · rcases hadd.map_eq (f := key) (fun _ _ hsh => hsh.key) with heq | ⟨n, hn, heq⟩
    · rw [heq]
      exact h.keys
    · rw [heq]
      refine .append h.keys (nodup_singleton _) fun key hold hnew => ?_
      rw [mem_singleton.1 hnew] at hold
      exact (hft n hn).key hold
  · rcases hba h1 with ⟨o1, ho1, hs1⟩ | hnew1 <;> rcases hba h2 with ⟨o2, ho2, hs2⟩ | hnew2
    · rw [hs1.key, hs2.key]
      refine h.single o1 ho1 o2 ho2 (hs1.isEntry ▸ hen1) (hs2.isEntry ▸ hen2) ?_
        (mt hs1.left_eq_zero hlf1) (mt hs2.left_eq_zero hlf2)
      rw [← hs1.pair, ← hs2.pair, hpair]
    · have hzr := (hft e2 hnew2).single hen2 o1 ho1 (hs1.isEntry ▸ hen1) (hs1.pair ▸ hpair)
      exact absurd (hs1.left_eq_zero hzr) hlf1
    · have hzr := (hft e1 hnew1).single hen1 o2 ho2 (hs2.isEntry ▸ hen2) (hs2.pair ▸ hpair.symm)
      exact absurd (hs2.left_eq_zero hzr) hlf2
    · rw [hun e1 e2 hnew1 hnew2]
  · rcases hba h1 with ⟨p1, hp1, hs1⟩ | hnew1 <;> rcases hba h2 with ⟨p2, hp2, hs2⟩ | hnew2
    · rw [hs1.symbol, hs2.symbol]
      rw [hs1.tag] at htag1
      rw [hs2.tag] at htag2
      rw [hs1.exchange, hs2.exchange] at hexchange
      exact h.symbols p1 hp1 p2 hp2 id htag1 htag2 hexchange
    · rw [hs1.symbol]
      rw [hs1.tag] at htag1
      rw [hs1.exchange] at hexchange
      exact (hft o2 hnew2).symbols p1 hp1 id htag2 htag1 hexchange
    · rw [hs2.symbol]
      rw [hs2.tag] at htag2
      rw [hs2.exchange] at hexchange
      exact ((hft o1 hnew1).symbols p2 hp2 id htag1 htag2 hexchange.symm).symm
    · rw [hun o1 o2 hnew1 hnew2]

theorem Book.protects_pair (h : Book orders) (ho : o ∈ orders) (he : e ∈ orders)
    (hpr : o.Protects e) : e.pair = o.pair := by
  obtain ⟨-, hen, hexchange, htag⟩ := hpr
  have hsy := h.symbols e he o ho _ (tag_of_isEntry hen) htag hexchange
  simp only [pair, hexchange, hsy]

end

section

variable {exchange symbol : String} {side : Side}

section

variable (hlf : ∀ o ∈ s.orders, 0 ≤ o.left)

include hlf

theorem holding_nonneg {x : ℚ} (hx : x ∈ s.orders.map (holding exchange symbol side)) : 0 ≤ x := by
  obtain ⟨o, ho, rfl⟩ := mem_map.1 hx
  unfold holding
  split
  · exact hlf o ho
  · exact le_refl 0

theorem held_nonneg : 0 ≤ s.held exchange symbol side :=
  sum_nonneg fun _ hx => holding_nonneg hlf hx

theorem left_le_held (he : e ∈ s.orders)
    (hhl : e.holds exchange symbol side = true) : e.left ≤ s.held exchange symbol side := by
  have hmem : e.left ∈ s.orders.map (holding exchange symbol side) :=
    mem_map.2 ⟨e, he, if_pos hhl⟩
  exact single_le_sum (fun _ hx => holding_nonneg hlf hx) _ hmem

end

theorem mem_positions_of_holds (he : e ∈ s.orders) (hhl : e.holds exchange symbol side = true) :
    ⟨symbol, some side, s.held exchange symbol side⟩ ∈ s.positions exchange := by
  obtain ⟨-, hexchange, hsy, hkind⟩ := isEntry_of_holds hhl
  refine mem_map.2 ⟨(symbol, side), mem_dedup.2 (mem_filterMap.2 ⟨e, he, ?_⟩), rfl⟩
  simp only [instrument, hkind, hexchange, hsy, if_true]

theorem flat_or_listed (hlf : ∀ o ∈ s.orders, 0 ≤ o.left) (he : e ∈ s.orders) (hen : e.isEntry = true) :
    e.left = 0 ∨ ∃ p ∈ (s.positions e.exchange).filter (·.contracts ≠ 0), p.symbol = e.symbol := by
  obtain ⟨side, hkind⟩ : ∃ side, e.kind = .entry side := by
    unfold isEntry at hen
    split at hen
    · rename_i side hkind
      exact ⟨side, hkind⟩
    · cases hen
  have hhl : e.holds e.exchange e.symbol side = true := by
    simp only [holds, hkind, decide_true, Bool.and_true]
  by_cases hzr : s.held e.exchange e.symbol side = 0
  · have hle := left_le_held hlf he hhl
    exact .inl (le_antisymm (hle.trans hzr.le) (hlf e he))
  · refine .inr ⟨_, mem_filter.2 ⟨mem_positions_of_holds he hhl, ?_⟩, rfl⟩
    simpa using hzr

theorem left_le_heldAmount (hlf : ∀ o ∈ s.orders, 0 ≤ o.left) (he : e ∈ s.orders)
    (hhl : e.holds exchange symbol side = true) : e.left ≤ heldAmount (s.positions exchange) symbol side := by
  have hle := left_le_held hlf he hhl
  by_cases hpos : 0 < s.held exchange symbol side
  · refine hle.trans (single_le_sum (fun x hx => ?_) _ (mem_map.2
      ⟨_, mem_filter.2 ⟨mem_positions_of_holds he hhl, ?_⟩, rfl⟩))
    · obtain ⟨p, hp, rfl⟩ := mem_map.1 hx
      have hcn := (mem_filter.1 hp).2
      simp only [Bool.and_eq_true, decide_eq_true_eq] at hcn
      exact hcn.2.le
    · simp only [decide_true, Bool.true_and, decide_eq_true_eq]
      exact hpos
  · refine hle.trans ((not_lt.1 hpos).trans (sum_nonneg fun x hx => ?_))
    obtain ⟨p, hp, rfl⟩ := mem_map.1 hx
    have hcn := (mem_filter.1 hp).2
    simp only [Bool.and_eq_true, decide_eq_true_eq] at hcn
    exact hcn.2.le

theorem mem_positions {p : Position} (hp : p ∈ s.positions exchange) :
    ∃ side, p.side = some side ∧ p.contracts = s.held exchange p.symbol side := by
  obtain ⟨⟨symbol, side⟩, -, rfl⟩ := mem_map.1 hp
  exact ⟨side, rfl, rfl⟩

theorem exists_holder (hbk : Book s.orders) (hpos : 0 < s.held exchange symbol side) :
    ∃ e ∈ s.orders, e.holds exchange symbol side = true ∧ e.left ≠ 0 ∧ s.held exchange symbol side = e.left := by
  obtain ⟨e, he, hne⟩ : ∃ e ∈ s.orders, e.holding exchange symbol side ≠ 0 := by
    by_contra hno
    push Not at hno
    have hzr : s.held exchange symbol side = 0 := sum_eq_zero fun x hx => by
      obtain ⟨o, ho, rfl⟩ := mem_map.1 hx
      exact hno o ho
    exact hpos.ne' hzr
  have hhl : e.holds exchange symbol side = true := by
    by_contra hnot
    exact hne (if_neg hnot)
  have hlf : e.holding exchange symbol side = e.left := if_pos hhl
  rw [hlf] at hne
  refine ⟨e, he, hhl, hne, ?_⟩
  obtain ⟨hen, hexchange, hsy, -⟩ := isEntry_of_holds hhl
  -- any other order of the instrument holds nothing
  have hot : ∀ o, o ≠ e → o ∈ s.orders → o.holding exchange symbol side = 0 := by
    intro o ho hmem
    unfold holding
    split
    · rename_i hhl'
      obtain ⟨hen', hexchange', hsy', -⟩ := isEntry_of_holds hhl'
      by_contra hne'
      refine ho (hbk.eq_of_key hmem he (hbk.single o hmem e he hen' hen ?_ hne' hne))
      simp only [pair, hexchange', hexchange, hsy', hsy]
    · rfl
  unfold State.held
  rw [sum_map_eq_nsmul_single e _ hot, count_eq_one_of_mem hbk.keys.of_map he, one_nsmul, hlf]

end

end Schurfer.Desk
