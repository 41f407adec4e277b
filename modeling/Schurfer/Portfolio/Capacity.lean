import Mathlib.Data.Finset.Card
import Schurfer.Journal.Model
import Schurfer.Lib.Rows
import Schurfer.Lib.Txn

/-!
# Portfolio capacity

`order_attempts.create_attempt` counts, under one advisory lock, the positions its caller has seen and the entry
attempts that may hold one beside them. Callers bring a list of positions they read at any time before.
-/

namespace Schurfer.Portfolio

open List

abbrev Pair := String × String

structure VenueOrder where
  /-- it may still be filled -/
  active : Bool
  /-- something of it was filled -/
  filled : Bool
  /-- what was filled is in a position -/
  held : Bool
deriving DecidableEq

structure Entry where
  exchange : String
  base : String
  status : AttemptStatus
  /-- the row's `trade_id` is set -/
  linked : Bool
  /-- the trade the entry is journalled as -/
  trade : Option TradeStatus
  /-- the order, once the exchange has it -/
  order : Option VenueOrder
  /-- `place_order` was told that nothing was filled -/
  toldNoFill : Bool
deriving DecidableEq

namespace Entry

def pair (e : Entry) : Pair := (e.exchange, e.base.toUpper)

def isActive (e : Entry) : Bool := ∃ order ∈ e.order, order.active = true

def isHeld (e : Entry) : Bool := ∃ order ∈ e.order, order.held = true

def isExposed (e : Entry) : Bool := e.isActive || e.isHeld

/-- The condition of `durable_slots`: the attempt is not resolved, or completed without a trade or with an
open one. -/
def occupies (e : Entry) : Bool :=
  match e.status with
  | .pending | .accepted | .submissionUnknown | .manualRequired => true
  | .completed => e.linked = false || e.trade = some .open
  | .partlyFilled | .failed | .noFill => false

end Entry

abbrev State := List Entry

inductive Reservation
  | attempt (id : ℕ)
  | portfolioCapacityReached (occupiedSlots maxPositions : ℕ)
deriving DecidableEq

variable (s : State)

def durableSlots : List Pair := ((s.filter Entry.occupies).map Entry.pair).dedup

def observedPairs (openPositions : List Pair) : List Pair :=
  (openPositions.filter fun p => p.1 ≠ "" ∧ p.2 ≠ "").map fun p => (p.1, p.2.toUpper)

def countDurableOnlyEntrySlots (observed : List Pair) : ℕ :=
  ((durableSlots s).filter fun d => d ∉ observed).length

def occupiedSlots (openPositions : List Pair) : ℕ :=
  openPositions.length + countDurableOnlyEntrySlots s (observedPairs openPositions)

def createAttempt (openPositions : List Pair) (maxPositions : ℕ) (exchange base : String) : Reservation × State :=
  if maxPositions ≤ occupiedSlots s openPositions then
    (.portfolioCapacityReached (occupiedSlots s openPositions) maxPositions, s)
  else
    (.attempt s.length, s ++
      [{ exchange, base := base.toUpper, status := .pending, linked := false, trade := none, order := none
         toldNoFill := false }])

inductive EntryOp
  /-- the exchange takes the order -/
  | submit
  /-- the exchange fills the order, in part or in full -/
  | fill
  /-- the order ends on the exchange -/
  | finish
  /-- what the entry filled is closed again -/
  | flatten
  /-- `resolve_fill_price` answers `none`: the order's last look and the trades show nothing filled -/
  | reportNoFill
  | markAccepted
  | markSubmissionUnknown
  | markFailed
  /-- `mark_completed` and `link_completed_trade`, with the entry's trade or with none -/
  | markCompleted (withTrade : Bool)
  /-- the outcomes reconciliation finds on the exchange -/
  | resolveAccepted
  | resolveCompleted
  | resolveNoFill
  | resolveManual
  | openTrade
  | closeTrade
deriving DecidableEq

def Entry.setOrder (e : Entry) (f : VenueOrder → VenueOrder) : Entry := { e with order := e.order.map f }

def Entry.after (e : Entry) : EntryOp → Entry
  | .submit =>
    -- the request is on its way while the attempt is pending or its outcome unknown
    if e.order = none ∧ (e.status = .pending ∨ e.status = .submissionUnknown) then
      { e with order := some ⟨true, false, false⟩ }
    else e
  | .fill => if e.isActive then e.setOrder fun o => { o with filled := true, held := true } else e
  | .finish => e.setOrder fun o => { o with active := false }
  | .flatten => e.setOrder fun o => { o with held := false }
  | .reportNoFill => if ∃ o ∈ e.order, o.filled = false then { e with toldNoFill := true } else e
  | .markAccepted => { e with status := .accepted }
  | .markSubmissionUnknown => { e with status := .submissionUnknown }
  | .markFailed =>
    -- refused before it was taken, or told that nothing was filled
    if e.order = none ∧ e.status = .pending ∨ e.toldNoFill = true then { e with status := .failed } else e
  | .markCompleted withTrade =>
    if withTrade = true ∧ e.trade = none then e else { e with status := .completed, linked := withTrade }
  | .resolveAccepted => { e with status := .accepted }
  | .resolveCompleted => { e with status := .completed }
  | .resolveNoFill =>
    if ∃ o ∈ e.order, o.active = false ∧ o.filled = false then { e with status := .noFill } else e
  | .resolveManual => { e with status := .manualRequired }
  | .openTrade => if e.trade = none ∧ (∃ o ∈ e.order, o.filled = true) then { e with trade := some .open } else e
  | .closeTrade =>
    -- no position survives the closing of its trade
    if e.trade = some .open ∧ e.isHeld = false then { e with trade := some .closed } else e

inductive Step
  | create (openPositions : List Pair) (maxPositions : ℕ) (exchange base : String)
  | entry (i : ℕ) (op : EntryOp)

def step : Step → State
  | .create openPositions maxPositions exchange base => (createAttempt s openPositions maxPositions exchange base).2
  | .entry i op => s.modify i (·.after op)

abbrev stateAt (steps : List Step) (n : ℕ) : State := Run.stateAt step [] steps n

def positions : List Pair := (s.filter Entry.isHeld).map Entry.pair

def slots : Finset Pair := (durableSlots s).toFinset ∪ (positions s).toFinset

theorem durableSlots_length_le (openPositions : List Pair) :
    (durableSlots s).length ≤ occupiedSlots s openPositions := by
  set observed := observedPairs openPositions with hob
  have hle : observed.length ≤ openPositions.length := by
    rw [hob, observedPairs, length_map]
    exact length_filter_le _ _
  have hsn : ((durableSlots s).filter fun d => d ∈ observed).length ≤ observed.length := by
    refine (List.Nodup.subperm ?_ ?_).length_le
    · exact (nodup_dedup _).filter _
    · intro d hd
      exact of_decide_eq_true (mem_filter.1 hd).2
  have hsp : (durableSlots s).length = ((durableSlots s).filter fun d => d ∈ observed).length +
        ((durableSlots s).filter fun d => d ∉ observed).length := by
    rw [← countP_eq_length_filter, ← countP_eq_length_filter,
      length_eq_countP_add_countP (fun d => decide (d ∈ observed))]
    simp
  unfold occupiedSlots countDurableOnlyEntrySlots
  rw [← hob]
  omega

namespace Entry

variable {e : Entry} {o : VenueOrder}

structure Backed (e : Entry) : Prop where
  occupies : e.isExposed = true → e.occupies = true
  closed : e.trade ≠ none → e.trade ≠ some .open → e.isExposed = false
  told : e.toldNoFill = true → e.isExposed = false
  traded : e.trade ≠ none → e.order ≠ none
  reported : e.toldNoFill = true → e.order ≠ none
  filled : ∀ o ∈ e.order, o.held = true → o.filled = true
  linked : e.linked = true → e.trade ≠ none

theorem isExposed_of_none (h : e.order = none) : e.isExposed = false := by
  simp [isExposed, isActive, isHeld, h]

theorem isExposed_of_some (h : e.order = some o) : e.isExposed = (o.active || o.held) := by
  simp [isExposed, isActive, isHeld, h]

section

variable (h : e.Backed) {linked : Bool}

include h

theorem Backed.withStatus {status : AttemptStatus} (hln : linked = true → e.trade ≠ none)
    (hoc : e.isExposed = true → Entry.occupies { e with status, linked } = true) : Backed { e with status, linked } :=
  ⟨hoc, h.closed, h.told, h.traded, h.reported, h.filled, hln⟩

theorem Backed.completed (hln : linked = true → e.trade ≠ none) : Backed { e with status := .completed, linked } := by
  refine h.withStatus hln fun hep => ?_
  cases linked with
  | false => rfl
  | true =>
    have hop : e.trade = some .open := by
      by_contra hne
      rw [h.closed (hln rfl) hne] at hep
      cases hep
    simp [Entry.occupies, hop]

theorem Backed.setOrder {f : VenueOrder → VenueOrder} (hactive : ∀ o, (f o).active = true → o.active = true)
    (hhl : ∀ o, (f o).held = true → o.held = true) (hfl : ∀ o, (f o).filled = o.filled) : (e.setOrder f).Backed := by
  have hls : (e.setOrder f).isExposed = true → e.isExposed = true := by
    intro hep
    cases ho : e.order with
    | none => rw [isExposed_of_none (by simp [Entry.setOrder, ho])] at hep; cases hep
    | some o =>
      rw [isExposed_of_some (o := f o) (by simp [Entry.setOrder, ho]), Bool.or_eq_true] at hep
      rw [isExposed_of_some ho, Bool.or_eq_true]
      exact hep.imp (hactive o) (hhl o)
  have hnot : e.isExposed = false → (e.setOrder f).isExposed = false := by
    intro hno
    by_contra hep
    rw [hls (by simpa using hep)] at hno
    cases hno
  have hsm : e.order ≠ none → (e.setOrder f).order ≠ none := by
    intro hne
    simpa [Entry.setOrder] using hne
  refine ⟨fun hep => h.occupies (hls hep), fun htrade hne => hnot (h.closed htrade hne),
    fun htl => hnot (h.told htl), fun htrade => hsm (h.traded htrade),
    fun htl => hsm (h.reported htl), fun o' ho' hhl' => ?_, h.linked⟩
  obtain ⟨o, ho, rfl⟩ := Option.map_eq_some_iff.1 ho'
  rw [hfl]
  exact h.filled o ho (hhl o hhl')

theorem Backed.submit (hnn : e.order = none) (hstatus : e.status = .pending ∨ e.status = .submissionUnknown) :
    Backed { e with order := some ⟨true, false, false⟩ } := by
  have htrade : e.trade = none := by
    by_contra hne
    exact h.traded hne hnn
  refine ⟨fun _ => ?_, fun hne => absurd htrade hne, fun htl => absurd hnn (h.reported htl), fun _ => by simp,
    fun _ => by simp, fun o ho hhl => ?_, h.linked⟩
  · rcases hstatus with hstatus | hstatus <;> simp [Entry.occupies, hstatus]
  · cases ho
    cases hhl

theorem Backed.fill (hactive : e.isActive = true) :
    (e.setOrder fun o => { o with filled := true, held := true }).Backed := by
  have hep : e.isExposed = true := by simp [isExposed, hactive]
  have hsm : e.order ≠ none → (e.setOrder fun o => { o with filled := true, held := true }).order ≠ none := by
    intro hne
    simpa [Entry.setOrder] using hne
  refine ⟨fun _ => h.occupies hep, fun htrade hne => ?_, fun htl => ?_, fun htrade => hsm (h.traded htrade),
    fun htl => hsm (h.reported htl), fun o ho _ => ?_, h.linked⟩
  · rw [h.closed htrade hne] at hep
    cases hep
  · rw [h.told htl] at hep
    cases hep
  · obtain ⟨_, -, rfl⟩ := Option.map_eq_some_iff.1 ho
    rfl

theorem Backed.not_exposed (ho : e.order = some o) (hactive : o.active = false)
    (hfl : o.filled = false) : e.isExposed = false := by
  have hhl : o.held = false := by
    by_contra hhl
    rw [h.filled o ho (by simpa using hhl)] at hfl
    cases hfl
  rw [isExposed_of_some ho, hactive, hhl]
  rfl

theorem after_backed {op : EntryOp} (hended : op = .reportNoFill ∨ op = .closeTrade → e.isActive = false) :
    (e.after op).Backed := by
  cases op with
  | submit =>
    dsimp only [after]
    split
    · rename_i hsb
      exact h.submit hsb.1 hsb.2
    · exact h
  | fill =>
    dsimp only [after]
    split
    · rename_i hactive
      exact h.fill hactive
    · exact h
  | finish => exact h.setOrder nofun (fun o ho => ho) fun o => rfl
  | flatten => exact h.setOrder (fun o ho => ho) nofun fun o => rfl
  | reportNoFill =>
    dsimp only [after]
    split
    · rename_i hun
      obtain ⟨o, ho, hfl⟩ := hun
      have hactive : o.active = false := by simpa [isActive, Option.mem_def.1 ho] using hended (.inl rfl)
      have hnot : e.isExposed = false := h.not_exposed ho hactive hfl
      refine ⟨h.occupies, h.closed, fun _ => hnot, h.traded, fun _ => ?_, h.filled, h.linked⟩
      rw [Option.mem_def.1 ho]
      simp
    · exact h
  | markAccepted | markSubmissionUnknown | resolveAccepted | resolveManual => exact h.withStatus h.linked fun _ => rfl
  | markFailed =>
    dsimp only [after]
    split
    · rename_i hfa
      have hnot : e.isExposed = false := by
        rcases hfa with ⟨hnn, -⟩ | htl
        · exact isExposed_of_none hnn
        · exact h.told htl
      exact h.withStatus h.linked fun hep => by rw [hnot] at hep; cases hep
    · exact h
  | markCompleted withTrade =>
    dsimp only [after]
    split
    · exact h
    · rename_i hli
      exact h.completed fun hwt hnn => hli ⟨hwt, hnn⟩
  | resolveCompleted => exact h.completed h.linked
  | resolveNoFill =>
    dsimp only [after]
    split
    · rename_i hen
      obtain ⟨o, ho, hactive, hfl⟩ := hen
      have hnot := h.not_exposed ho hactive hfl
      exact h.withStatus h.linked fun hep => by rw [hnot] at hep; cases hep
    · exact h
  | openTrade =>
    dsimp only [after]
    split
    · rename_i hop
      obtain ⟨hnn, o, ho, -⟩ := hop
      refine ⟨fun hep => ?_, fun _ hne => absurd rfl hne, h.told, fun _ => by rw [Option.mem_def.1 ho]; simp,
        h.reported, h.filled, fun _ => by simp⟩
      have hoc := h.occupies hep
      unfold Entry.occupies at hoc ⊢
      split at hoc <;> simp_all
    · exact h
  | closeTrade =>
    dsimp only [after]
    split
    · rename_i hclose
      obtain ⟨hop, hheld⟩ := hclose
      have hnot : e.isExposed = false := by simp [isExposed, hended (.inr rfl), hheld]
      refine ⟨fun hep => ?_, fun _ _ => hnot, h.told, fun _ => h.traded (by rw [hop]; simp), h.reported,
        h.filled, fun _ => by simp⟩
      have hsame : e.isExposed = true := hep
      rw [hnot] at hsame
      cases hsame
    · exact h

end

end Entry

/-- An order has ended on the exchange when it is reported as not filled, and when its trade is closed. -/
def EndedFirst (steps : List Step) : Prop :=
  ∀ n i op, steps[n]? = some (.entry i op) → op = .reportNoFill ∨ op = .closeTrade →
    ∀ e, (stateAt steps n)[i]? = some e → e.isActive = false

theorem stateAt_backed {steps : List Step} (hended : EndedFirst steps) (n : ℕ) : ∀ e ∈ stateAt steps n, e.Backed := by
  refine Run.invariant (I := fun s => ∀ e ∈ s, Entry.Backed e) (by simp) (fun n c hc hs => ?_) n
  cases c with
  | create openPositions maxPositions exchange base =>
    unfold step createAttempt
    dsimp only
    split
    · exact hs
    · intro e he
      rcases mem_append.1 he with he | he
      · exact hs e he
      · rw [mem_singleton.1 he]
        exact ⟨fun _ => rfl, by simp, by simp, by simp, by simp, by simp, by simp⟩
  | entry i op =>
    intro e he
    rcases Rows.mem_modify he with he | ⟨old, hold, rfl⟩
    · exact hs e he
    · exact Entry.after_backed (hs old (mem_of_getElem? hold)) fun hop => hended n i op hc hop old hold

theorem slots_eq {s : State} (h : ∀ e ∈ s, e.Backed) : slots s = (durableSlots s).toFinset := by
  refine Finset.union_eq_left.2 fun p hp => ?_
  rw [mem_toFinset] at hp ⊢
  obtain ⟨e, he, rfl⟩ := mem_map.1 hp
  obtain ⟨hmem, hhl⟩ := mem_filter.1 he
  have hep : e.isExposed = true := by simp [Entry.isExposed, hhl]
  rw [durableSlots, mem_dedup]
  exact mem_map_of_mem (mem_filter.2 ⟨hmem, (h e hmem).occupies hep⟩)

theorem durableSlots_append (s : State) (e : Entry) :
    (durableSlots (s ++ [e])).toFinset.card ≤ (durableSlots s).length + 1 := by
  have hsu : (durableSlots (s ++ [e])).toFinset ⊆ insert e.pair (durableSlots s).toFinset := by
    intro p hp
    rw [mem_toFinset, durableSlots, mem_dedup] at hp
    obtain ⟨e', he', rfl⟩ := mem_map.1 hp
    obtain ⟨hmem, hoc⟩ := mem_filter.1 he'
    rcases mem_append.1 hmem with hmem | hmem
    · refine Finset.mem_insert_of_mem ?_
      rw [mem_toFinset, durableSlots, mem_dedup]
      exact mem_map_of_mem (mem_filter.2 ⟨hmem, hoc⟩)
    · rw [mem_singleton.1 hmem]
      exact Finset.mem_insert_self _ _
  calc (durableSlots (s ++ [e])).toFinset.card
      ≤ (insert e.pair (durableSlots s).toFinset).card := Finset.card_le_card hsu
    _ ≤ (durableSlots s).toFinset.card + 1 := Finset.card_insert_le _ _
    _ ≤ (durableSlots s).length + 1 := Nat.add_le_add_right (toFinset_card_le _) 1

/-- **Portfolio capacity**: in every run in which an order has ended when it is reported as not filled and when its
trade is closed, no commit that writes an entry attempt leaves more pairs exposed than there are slots. -/
theorem portfolio_capacity (steps : List Step) (hended : EndedFirst steps) {n : ℕ} {openPositions : List Pair}
    {maxPositions : ℕ} {exchange base : String}
    (hcreate : steps[n]? = some (.create openPositions maxPositions exchange base)) {id : ℕ}
    (hreserved : (createAttempt (stateAt steps n) openPositions maxPositions exchange base).1 = .attempt id) :
    (slots (stateAt steps (n + 1))).card ≤ maxPositions := by
  rw [slots_eq (stateAt_backed hended (n + 1))]
  have hnext : stateAt steps (n + 1) = (createAttempt (stateAt steps n) openPositions maxPositions exchange base).2 :=
    Run.stateAt_succ hcreate
  rw [hnext]
  unfold createAttempt at hreserved ⊢
  split
  · rename_i hfull
    rw [if_pos hfull] at hreserved
    cases hreserved
  · rename_i hroom
    have hcount := durableSlots_length_le (stateAt steps n) openPositions
    refine (durableSlots_append _ _).trans ?_
    omega

def turnSteps : List Step :=
  [.create [] 1 "bybit" "abc", .entry 0 .submit, .entry 0 .finish, .entry 0 .reportNoFill, .entry 0 .markFailed,
    .create [] 1 "bybit" "xyz"]

theorem turnSteps_capacity : (stateAt turnSteps 6).length = 2 ∧ (slots (stateAt turnSteps 6)).card ≤ 1 := by
  have hended : EndedFirst turnSteps := by
    intro n i op hn hop e he
    have hlt : n < 6 := (List.getElem?_eq_some_iff.1 hn).1
    interval_cases n <;> simp [turnSteps] at hn <;> obtain ⟨rfl, rfl⟩ := hn <;> simp at hop
    have hstate : (stateAt turnSteps 3)[0]? =
        some ⟨"bybit", "ABC", .pending, false, none, some ⟨false, false, false⟩, false⟩ := by
      decide +kernel
    rw [hstate] at he
    cases he
    rfl
  have hreserved : (createAttempt (stateAt turnSteps 5) [] 1 "bybit" "xyz").1 = .attempt 1 := by decide +kernel
  exact ⟨by decide +kernel, portfolio_capacity turnSteps hended (n := 5) rfl hreserved⟩

def lateSteps : List Step :=
  [.create [] 1 "bybit" "abc", .entry 0 .submit, .entry 0 .reportNoFill, .entry 0 .markFailed, .entry 0 .fill,
    .create [] 1 "bybit" "xyz"]

/-- With one slot, one pair holds a position and another has a pending entry. -/
theorem noFill_overbooks :
    positions (stateAt lateSteps 4) = [] ∧
      (createAttempt (stateAt lateSteps 5) (positions (stateAt lateSteps 4)) 1 "bybit" "xyz").1 = .attempt 1 ∧
      positions (stateAt lateSteps 6) = [("bybit", "ABC")] ∧
      slots (stateAt lateSteps 6) = {("bybit", "ABC"), ("bybit", "XYZ")} ∧
      1 < (slots (stateAt lateSteps 6)).card := by
  decide +kernel

end Schurfer.Portfolio
