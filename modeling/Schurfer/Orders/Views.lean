import Schurfer.Lib.Rows
import Schurfer.Lib.Threads
import Schurfer.Orders.Listing

/-!
# One view from four reads

`list_orders` reads the open orders, plain and conditional, and then the closed ones, and between two reads the
exchange moves on. A resting order is seen by the conditional listing of open orders alone, an active one by the plain
listing alone.
-/

namespace Schurfer.Orders

open Threads List Rows.Grows

inductive Stage
  | resting
  | active
  | terminal
deriving DecidableEq

def Stage.rank : Stage → ℕ
  | .resting => 0
  | .active => 1
  | .terminal => 2

def Stage.shownBy (stage : Stage) : Listing → Bool → Bool
  | .openOrders, false => decide (stage = .active)
  | .openOrders, true => decide (stage = .resting)
  | .closedOrders, _ => decide (stage = .terminal)

structure ExchangeOrder where
  id : String
  symbol : String
  stage : Stage
  gone : Bool := false
  id_ne : id ≠ "" := by decide

open ExchangeOrder

structure Exchange where
  orders : List ExchangeOrder
  ids : (orders.map ExchangeOrder.id).Nodup

open Exchange

def Exchange.stageOf (x : Exchange) (symbol id : String) : Option Stage :=
  (x.orders.find? fun o => o.id = id && o.symbol = symbol && !o.gone).map stage

inductive Advance
  | place (o : ExchangeOrder)
  | toStage (id : String) (stage : Stage)
  | drop (id : String)

def ExchangeOrder.move (o : ExchangeOrder) : Advance → ExchangeOrder
  | .toStage id stage => if o.id = id ∧ o.stage.rank ≤ stage.rank then { o with stage } else o
  | .drop id => if o.id = id then { o with gone := true } else o
  | .place _ => o

theorem ExchangeOrder.move_id (o : ExchangeOrder) (m : Advance) : (o.move m).id = o.id := by
  cases m with
  | place => rfl
  | toStage | drop => simp only [move]; split <;> rfl

def Exchange.advance (x : Exchange) (m : Advance) : Exchange where
  orders :=
    match m with
    | .place o => if o.id ∈ x.orders.map ExchangeOrder.id then x.orders else x.orders ++ [o]
    | m => x.orders.map (·.move m)
  ids := by
    have hmap : ∀ m : Advance, ((x.orders.map (·.move m)).map ExchangeOrder.id).Nodup := by
      intro m
      rw [List.map_map]
      have hsame : ExchangeOrder.id ∘ (·.move m) = ExchangeOrder.id := funext fun o => o.move_id m
      rw [hsame]
      exact x.ids
    cases m with
    | place o =>
      dsimp only
      split
      · exact x.ids
      · rename_i hnew
        rw [List.map_append, List.map_singleton]
        exact List.Nodup.append x.ids (List.nodup_singleton _) (List.disjoint_singleton.2 hnew)
    | toStage id stage => exact hmap _
    | drop id => exact hmap _

structure Read where
  symbol : String
  listing : Listing
  trigger : Bool

structure Reading where
  failure : Option String := none
  view : String → Order := fun _ => { id := none, clientOrderId := none, status := none, filled := none }

variable {id symbol : String} {x x₃ x₂ x₁ : Exchange} {listed orders : List Order} {c : Reading} {o : Read} {y : Order}
  (has : Listing → Bool)

def Exchange.shows (x : Exchange) (o : Read) (c : Reading) : List Order :=
  (x.orders.filter fun e => e.symbol = o.symbol && !e.gone && e.stage.shownBy o.listing o.trigger).map
    fun e => { c.view e.id with id := some e.id }

def exchangeAnswer (x : Exchange) (o : Read) (c : Reading) : Except String (List Order) × Exchange :=
  match c.failure with
  | some e => (.error e, x)
  | none => (.ok (x.shows o c), x)

def exchangeWorld : World Exchange String Read (fun _ => List Order) Reading Advance :=
  ⟨fun _ => exchangeAnswer, advance, fun _ x => x⟩

def listSymbol (has : Listing → Bool) (symbol : String) : Prog String Read (fun _ => List Order) (List Order) :=
  listOrders has (fun capability => s!"exchange cannot {capability}") fun listing trigger =>
    Prog.perform ⟨symbol, listing, trigger⟩

theorem Exchange.stageOf_eq_some {stage : Stage} : x.stageOf symbol id = some stage ↔
      ∃ o ∈ x.orders, o.id = id ∧ o.symbol = symbol ∧ o.gone = false ∧ o.stage = stage := by
  unfold stageOf
  rw [Option.map_eq_some_iff]
  constructor
  · rintro ⟨o, hfn, rfl⟩
    have hpr := find?_some hfn
    simp only [Bool.and_eq_true, decide_eq_true_eq, Bool.not_eq_true'] at hpr
    exact ⟨o, mem_of_find?_eq_some hfn, hpr.1.1, hpr.1.2, hpr.2, rfl⟩
  · rintro ⟨o, ho, rfl, rfl, hgn, rfl⟩
    cases hfn : x.orders.find? fun e => e.id = o.id && e.symbol = o.symbol && !e.gone with
    | none =>
      have hnot := find?_eq_none.1 hfn o ho
      simp [hgn] at hnot
    | some e =>
      have hpr := find?_some hfn
      simp only [Bool.and_eq_true, decide_eq_true_eq] at hpr
      have heq : e = o := inj_on_of_nodup_map x.ids (mem_of_find?_eq_some hfn) ho hpr.1.1
      exact ⟨e, rfl, by rw [heq]⟩

structure ExchangeOrder.Forward (o o' : ExchangeOrder) : Prop where
  id : o'.id = o.id
  symbol : o'.symbol = o.symbol
  rank : o.stage.rank ≤ o'.stage.rank
  gone : o'.gone = false → o.gone = false

theorem ExchangeOrder.Forward.refl (o : ExchangeOrder) : o.Forward o :=
  ⟨rfl, rfl, le_refl _, fun h => h⟩

theorem ExchangeOrder.Forward.trans {o1 o2 o3 : ExchangeOrder} (h : o1.Forward o2) (h' : o2.Forward o3) :
    o1.Forward o3 :=
  ⟨h'.id.trans h.id, h'.symbol.trans h.symbol, h.rank.trans h'.rank, fun hgn => h.gone (h'.gone hgn)⟩

theorem ExchangeOrder.forward_move (o : ExchangeOrder) (m : Advance) : o.Forward (o.move m) := by
  cases m with
  | place => exact .refl o
  | toStage id stage =>
    simp only [move]
    split
    · rename_i h
      exact ⟨rfl, rfl, h.2, fun hgn => hgn⟩
    · exact .refl o
  | drop id =>
    simp only [move]
    split
    · exact ⟨rfl, rfl, le_refl _, nofun⟩
    · exact .refl o

def Exchange.Forward (x x' : Exchange) : Prop :=
  Rows.Grows ExchangeOrder.Forward (fun _ => True) x.orders x'.orders

theorem Exchange.Forward.refl (x : Exchange) : x.Forward x := Rows.Grows.refl .refl _

theorem Exchange.Forward.trans (h : x₁.Forward x₂) (h' : x₂.Forward x₃) : x₁.Forward x₃ :=
  Rows.Grows.trans (fun _ _ _ => .trans) (fun _ _ _ _ => trivial) h h'

theorem Exchange.forward_advance (x : Exchange) (m : Advance) : x.Forward (x.advance m) := by
  have hmap : Rows.Grows ExchangeOrder.Forward (fun _ => True) x.orders (x.orders.map (·.move m)) :=
    map fun o _ => o.forward_move m
  cases m with
  | place o =>
    unfold Exchange.Forward advance
    dsimp only
    split
    · exact refl .refl _
    · exact append .refl fun _ _ => trivial
  | toStage | drop => exact hmap

theorem Exchange.Forward.between (h : x₁.Forward x₂) (h' : x₂.Forward x₃)
    {stage1 stage3 : Stage} (h1 : x₁.stageOf symbol id = some stage1) (h3 : x₃.stageOf symbol id = some stage3) :
    ∃ stage2, x₂.stageOf symbol id = some stage2 ∧ stage1.rank ≤ stage2.rank ∧ stage2.rank ≤ stage3.rank := by
  obtain ⟨o1, ho1, rfl, rfl, hgn1, rfl⟩ := stageOf_eq_some.1 h1
  obtain ⟨o3, ho3, hid, hsy, hgn3, rfl⟩ := stageOf_eq_some.1 h3
  obtain ⟨o2, ho2, hmv⟩ := mem_forth h ho1
  obtain ⟨o₃', ho₃', hmv'⟩ := mem_forth h' ho2
  -- ids are not given twice
  have hsame : o₃' = o3 :=
    inj_on_of_nodup_map x₃.ids ho₃' ho3 ((hmv'.id.trans hmv.id).trans hid.symm)
  subst hsame
  exact ⟨o2.stage, stageOf_eq_some.2 ⟨o2, ho2, hmv.id, hmv.symbol, hmv'.gone hgn3, rfl⟩, hmv.rank, hmv'.rank⟩

theorem moreComplete_key {seen order : Order} (h : seen.key = order.key) :
    (moreComplete seen order).key = order.key := by
  rcases mem_moreComplete seen order with heq | heq
  · rw [heq, h]
  · rw [heq]

theorem merge_keeps {x : Order} (order : Order) (hx : x ∈ orders) : ∃ y ∈ merge orders order, y.key = x.key := by
  unfold merge
  split
  · refine ⟨_, mem_map.2 ⟨x, hx, rfl⟩, ?_⟩
    split
    · rename_i h
      rw [moreComplete_key h, h]
    · rfl
  · exact ⟨x, mem_append_left _ hx, rfl⟩

theorem merge_adds (orders : List Order) (order : Order) : ∃ y ∈ merge orders order, y.key = order.key := by
  unfold merge
  split
  · rename_i h
    obtain ⟨seen, hsn, hkey⟩ := any_eq_true.1 h.2
    have hkey' : seen.key = order.key := by simpa using hkey
    refine ⟨_, mem_map.2 ⟨seen, hsn, rfl⟩, ?_⟩
    rw [if_pos hkey', moreComplete_key hkey']
  · exact ⟨order, mem_append_right _ (mem_singleton_self _), rfl⟩

theorem foldl_merge_key {x : Order} (hx : x ∈ orders ∨ x ∈ listed) :
    ∃ y ∈ listed.foldl merge orders, y.key = x.key := by
  induction listed generalizing orders x with
  | nil =>
    rcases hx with hx | hx
    · exact ⟨x, hx, rfl⟩
    · cases hx
  | cons order listed ih =>
    rw [foldl_cons]
    rcases hx with hx | hx
    · obtain ⟨y, hy, hkey⟩ := merge_keeps order hx
      obtain ⟨z, hz, hkey'⟩ := ih (.inl hy)
      exact ⟨z, hz, hkey'.trans hkey⟩
    · rcases mem_cons.1 hx with rfl | hx
      · obtain ⟨y, hy, hkey⟩ := merge_adds orders x
        obtain ⟨z, hz, hkey'⟩ := ih (.inl hy)
        exact ⟨z, hz, hkey'.trans hkey⟩
      · exact ih (.inr hx)

def readers : Contract Exchange String Read (fun _ => List Order) String where
  inv _ := True
  rely _ := Exchange.Forward
  pre _ _ _ _ _ := True

def ReadsOf (symbol : String) (h : List (Call Exchange String Read fun _ => List Order)) (result : List Order) : Prop :=
  ∃ x₁ x₂ x₃ x₄ c₁ c₂ c₃ c₄, h.map (·.before) = [x₁, x₂, x₃, x₄] ∧
    x₁.Forward x₂ ∧ x₂.Forward x₃ ∧ x₃.Forward x₄ ∧
    result = (shows x₁ ⟨symbol, .openOrders, false⟩ c₁ ++ shows x₂ ⟨symbol, .openOrders, true⟩ c₂ ++
      shows x₃ ⟨symbol, .closedOrders, false⟩ c₃ ++
      shows x₄ ⟨symbol, .closedOrders, true⟩ c₄).foldl merge []

theorem exchangeAnswer_state (x : Exchange) (o : Read) (c : Reading) : (exchangeAnswer x o c).2 = x := by
  unfold exchangeAnswer
  split <;> rfl

theorem exchangeAnswer_ok (h : (exchangeAnswer x o c).1 = .ok listed) : listed = x.shows o c := by
  unfold exchangeAnswer at h
  split at h
  · cases h
  · exact (Except.ok.inj h).symm

theorem safe_read {i : ℕ} {h : List (Call Exchange String Read fun _ => List Order)}
    {f : List Order → Prog String Read (fun _ => List Order) (List Order)}
    {post : List (Call Exchange String Read fun _ => List Order) → List Order → Prop}
    (hrs : ∀ x₁ c, x.Forward x₁ → Safe exchangeWorld readers i symbol
      (fun h _ r => ∀ result, r = .ok result → post h result) (f (x₁.shows o c))
      (h ++ [⟨x₁, o, .ok (x₁.shows o c)⟩]) x₁) :
    Safe exchangeWorld readers i symbol (fun h _ r => ∀ result, r = .ok result → post h result)
      (Prog.perform o >>= f) h x := by
  refine .bind (.perform fun x₁ hfr _ => ⟨trivial, fun c => ⟨trivial, fun j _ => ?_, ?_⟩⟩)
  · have hst : (exchangeWorld.answer i x₁ o c).2 = x₁ := exchangeAnswer_state x₁ o c
    rw [hst]
    exact Exchange.Forward.refl x₁
  · have hst : (exchangeWorld.answer i x₁ o c).2 = x₁ := exchangeAnswer_state x₁ o c
    rw [hst]
    cases han : (exchangeWorld.answer i x₁ o c).1 with
    | error => exact nofun
    | ok listed =>
      obtain rfl := exchangeAnswer_ok han
      exact hrs x₁ c hfr

theorem safe_listSymbol (i : ℕ) (symbol : String) (x : Exchange) :
    Safe exchangeWorld readers i symbol (fun h _ r => ∀ result, r = .ok result → ReadsOf symbol h result)
      (listSymbol has symbol) [] x := by
  unfold listSymbol listOrders
  split
  · exact nofun
  refine safe_read fun x₁ c1 _ => safe_read fun x₂ c2 h2 => ?_
  split
  · exact nofun
  refine safe_read fun x₃ c3 h3 => safe_read fun x4 c4 h4 => ?_
  intro result hr
  cases hr
  exact ⟨x₁, x₂, x₃, x4, c1, c2, c3, c4, rfl, h2, h3, h4, rfl⟩

theorem readers_sound : Sound exchangeWorld (listSymbol has) readers
    fun _ symbol h _ r => ∀ result, r = .ok result → ReadsOf symbol h result where
  refl _ x := Exchange.Forward.refl x
  trans _ _ _ _ h h' := Exchange.Forward.trans h h'
  env x m _ := ⟨trivial, fun _ => x.forward_advance m⟩
  crash _ x _ := ⟨trivial, fun _ _ => Exchange.Forward.refl x⟩
  start i symbol x _ := safe_listSymbol has i symbol x

theorem key_of_id (hid : y.id = some id) (hne : id ≠ "") : y.key = some id := by
  simp [Order.key, nonEmpty, hid, hne]

theorem shows_iff : (∃ y ∈ x.shows o c, y.id = some id) ↔
      ∃ stage, x.stageOf o.symbol id = some stage ∧ stage.shownBy o.listing o.trigger = true := by
  constructor
  · rintro ⟨y, hy, hid⟩
    obtain ⟨e, he, rfl⟩ := mem_map.1 hy
    obtain ⟨hmem, hsh⟩ := mem_filter.1 he
    simp only [Bool.and_eq_true, decide_eq_true_eq, Bool.not_eq_true'] at hsh
    have hid' : e.id = id := Option.some.inj hid
    exact ⟨e.stage, stageOf_eq_some.2 ⟨e, hmem, hid', hsh.1.1, hsh.1.2, rfl⟩, hsh.2⟩
  · rintro ⟨stage, hsg, hsh⟩
    obtain ⟨e, hmem, rfl, hsy, hgn, rfl⟩ := stageOf_eq_some.1 hsg
    refine ⟨{ c.view e.id with id := some e.id }, mem_map.2 ⟨e, mem_filter.2 ⟨hmem, ?_⟩, rfl⟩, rfl⟩
    simp [hsy, hgn, hsh]

theorem shows_id (hy : y ∈ x.shows o c) : ∃ id, id ≠ "" ∧ y.id = some id := by
  obtain ⟨e, -, rfl⟩ := mem_map.1 hy
  exact ⟨e.id, e.id_ne, rfl⟩

theorem foldl_merge_id (hids : ∀ y ∈ listed, ∃ id, id ≠ "" ∧ y.id = some id) :
    (∃ y ∈ listed.foldl merge [], y.id = some id) ↔ ∃ y ∈ listed, y.id = some id := by
  have hba : ∀ y ∈ listed.foldl merge [], y ∈ listed := by
    intro y hy
    rcases mem_foldl_merge hy with hnil | hmem
    · cases hnil
    · exact hmem
  constructor
  · rintro ⟨y, hy, hid⟩
    exact ⟨y, hba y hy, hid⟩
  · rintro ⟨y, hy, hid⟩
    obtain ⟨z, hz, hkey⟩ := foldl_merge_key (.inr hy)
    obtain ⟨id', hne', hid'⟩ := hids z (hba z hz)
    obtain ⟨id'', hne, hid''⟩ := hids y hy
    obtain rfl : id'' = id := Option.some.inj (hid''.symm.trans hid)
    rw [key_of_id hid' hne', key_of_id hid hne] at hkey
    exact ⟨z, hz, hid'.trans hkey⟩

theorem view_iff {x4 : Exchange} {c1 c2 c3 c4 : Reading} :
    (∃ y ∈ (shows x₁ ⟨symbol, .openOrders, false⟩ c1 ++ shows x₂ ⟨symbol, .openOrders, true⟩ c2 ++
      shows x₃ ⟨symbol, .closedOrders, false⟩ c3 ++
      shows x4 ⟨symbol, .closedOrders, true⟩ c4).foldl merge [], y.id = some id) ↔
    x₁.stageOf symbol id = some .active ∨ x₂.stageOf symbol id = some .resting ∨
      x₃.stageOf symbol id = some .terminal ∨ x4.stageOf symbol id = some .terminal := by
  have hrd : ∀ {x : Exchange} {o : Read} {c : Reading} {stage : Stage},
      (∀ stage', stage'.shownBy o.listing o.trigger = decide (stage' = stage)) →
      ((∃ y ∈ x.shows o c, y.id = some id) ↔ x.stageOf o.symbol id = some stage) := by
    intro x o c stage hsh
    rw [shows_iff]
    constructor
    · rintro ⟨stage', hsg, h⟩
      rw [hsh, decide_eq_true_eq] at h
      rw [hsg, h]
    · exact fun h => ⟨stage, h, by rw [hsh]; simp⟩
  rw [foldl_merge_id]
  · have h1 := hrd (x := x₁) (o := ⟨symbol, .openOrders, false⟩) (c := c1) fun _ => rfl
    have h2 := hrd (x := x₂) (o := ⟨symbol, .openOrders, true⟩) (c := c2) fun _ => rfl
    have h3 := hrd (x := x₃) (o := ⟨symbol, .closedOrders, false⟩) (c := c3) fun _ => rfl
    have h4 := hrd (x := x4) (o := ⟨symbol, .closedOrders, true⟩) (c := c4) fun _ => rfl
    rw [← h1, ← h2, ← h3, ← h4]
    simp only [mem_append, or_assoc, or_and_right, exists_or]
  · intro y hy
    simp only [mem_append] at hy
    rcases hy with ((hy | hy) | hy) | hy
    all_goals exact shows_id hy

/-- **The view of `list_orders` is complete exactly when no order slips between its reads**: rests at the first, is
active at the second, and is active still at the last. -/
theorem listOrders_complete_iff (has : Listing → Bool) (x₀ : Exchange) (moves : List (Move String Reading Advance))
    (i : ℕ) (symbol : String) (h : List (Call Exchange String Read fun _ => List Order)) (result : List Order)
    (hreturned : (Config.run exchangeWorld (listSymbol has) ⟨x₀, []⟩ moves).threads[i]? =
      some ⟨symbol, h, some (.ret result)⟩) :
    ∃ x₁ x₂ x₃ x₄, h.map (·.before) = [x₁, x₂, x₃, x₄] ∧
      ((∀ id, x₁.stageOf symbol id ≠ none → x₄.stageOf symbol id ≠ none → ∃ y ∈ result, y.id = some id) ↔
        ∀ id, ¬ (x₁.stageOf symbol id = some .resting ∧ x₂.stageOf symbol id = some .active ∧
          x₄.stageOf symbol id = some .active)) := by
  have hok := (readers_sound has).reached (s := x₀) trivial moves
  obtain ⟨s, -, hpost⟩ := (hok.threads i _ hreturned).safe _ rfl
  have hreads : ReadsOf symbol h result := hpost result rfl
  obtain ⟨x₁, x₂, x₃, x₄, c1, c2, c3, c4, hbefore, h2, h3, h4, rfl⟩ := hreads
  refine ⟨x₁, x₂, x₃, x₄, hbefore, fun hall id hslip => ?_, fun hnone id hfirst hlast => ?_⟩
  · -- none of the reads shows an order that slipped
    obtain ⟨hresting, hactive, hstill⟩ := hslip
    obtain ⟨stage3, hstage3, -, hrank⟩ := h3.between h4 hactive hstill
    have hview := view_iff.1 (hall id (by simp [hresting]) (by simp [hstill]))
    rw [hresting, hactive, hstage3, hstill] at hview
    rcases hview with h | h | h | h
    · cases h
    · cases h
    · cases h
      exact absurd hrank (by decide)
    · cases h
  · -- one of the reads shows an order that did not
    rw [view_iff]
    obtain ⟨stage1, hstage1⟩ := Option.ne_none_iff_exists'.1 hfirst
    obtain ⟨stage4, hstage4⟩ := Option.ne_none_iff_exists'.1 hlast
    obtain ⟨stage2, hstage2, hle₁₂, hle₂₄⟩ := h2.between (h3.trans h4) hstage1 hstage4
    have hslip := hnone id
    rw [hstage1, hstage2, hstage4] at hslip ⊢
    revert hslip hle₁₂ hle₂₄
    cases stage1 <;> cases stage2 <;> cases stage4 <;> simp [Stage.rank]

/-! Reads of an exchange with one resting stop. -/

def restingStop : Exchange := ⟨[⟨"1", "BTC/USDT:USDT", .resting, false, by decide⟩], by decide⟩

def fourReads : List (Move String Reading Advance) :=
  [.start "BTC/USDT:USDT", .call 0 {}, .call 0 {}, .call 0 {}, .call 0 {}]

theorem restingStop_listed : ∃ result : List Order, (∃ y ∈ result, y.id = some "1") ∧ ∃ h,
    (Config.run exchangeWorld (listSymbol fun _ => true) ⟨restingStop, []⟩ fourReads).threads[0]? =
      some ⟨"BTC/USDT:USDT", h, some (.ret result)⟩ ∧
    ∃ x₁ x₂ x₃ x₄, h.map (·.before) = [x₁, x₂, x₃, x₄] ∧
      ((∀ id, x₁.stageOf "BTC/USDT:USDT" id ≠ none → x₄.stageOf "BTC/USDT:USDT" id ≠ none →
          ∃ y ∈ result, y.id = some id) ↔
        ∀ id, ¬ (x₁.stageOf "BTC/USDT:USDT" id = some .resting ∧ x₂.stageOf "BTC/USDT:USDT" id = some .active ∧
          x₄.stageOf "BTC/USDT:USDT" id = some .active)) := by
  refine ⟨_, ?_, _, rfl, listOrders_complete_iff (fun _ => true) restingStop fourReads 0 "BTC/USDT:USDT" _ _ rfl⟩
  exact ⟨_, mem_cons_self, rfl⟩

def triggering : List (Move String Reading Advance) :=
  [.start "BTC/USDT:USDT", .call 0 {}, .env (.toStage "1" .active), .call 0 {}, .call 0 {}, .call 0 {}]

/-- **An order that triggers between the two listings of open orders is in neither**: it rests when the active
orders are read, and is active when the resting ones are. -/
theorem triggered_order_missed : ¬ ∀ (has : Listing → Bool) (x₀ : Exchange)
    (moves : List (Move String Reading Advance)) (i : ℕ) (symbol : String)
    (h : List (Call Exchange String Read fun _ => List Order)) (result : List Order),
    (Config.run exchangeWorld (listSymbol has) ⟨x₀, []⟩ moves).threads[i]? = some ⟨symbol, h, some (.ret result)⟩ →
    ∀ x₁ x₂ x₃ x₄, h.map (·.before) = [x₁, x₂, x₃, x₄] → ∀ id, x₁.stageOf symbol id ≠ none →
      x₄.stageOf symbol id ≠ none → ∃ y ∈ result, y.id = some id := by
  intro hclaim
  obtain ⟨y, hy, -⟩ := hclaim (fun _ => true) restingStop triggering 0 "BTC/USDT:USDT" _ _ rfl _ _ _ _ rfl "1"
    (by decide) (by decide)
  cases hy

end Schurfer.Orders
