import Mathlib.Algebra.BigOperators.Group.List.Basic
import Schurfer.Probe.Model

/-!
# The ledger as a sum over reservations

The aggregates of `_LEDGER` filter the same rows differently. `share` is what one reservation adds to them, from its
state and the trade it is joined to, and the aggregates are the sums of the shares.
-/

namespace Schurfer.Probe

open List

inductive Share
  | reserve (usd : ℚ)
  | pnl (usd : Option ℚ)
  | nothing
deriving DecidableEq

def share (r : Row) (t : Option Trade) : Share :=
  match r.state, t with
  | .placed, some x => if settled x then .pnl x.pnlUsd else .reserve r.chain.reserveUsd
  | .reserved, _ | .sending, _ | .placed, none => .reserve r.chain.reserveUsd
  | .refusedBeforeSend, _ | .released, _ => .nothing

def Share.reserved : Share → ℚ
  | .reserve usd => usd
  | _ => 0

def Share.realized : Share → ℚ
  | .pnl usd => usd.getD 0
  | _ => 0

def Db.shareOf (db : Db) (r : Row) : Share := share r (db.tradeOf r)

def Db.rowsOf (db : Db) (probeId : String) : List Row := db.reservations.filter (·.probeId = probeId)

section

variable (r : Row) (t : Option Trade)

theorem share_reserved : (share r t).reserved = if holdsReserve r t then r.chain.reserveUsd else 0 := by
  cases hs : r.state with
  | placed =>
    cases t with
    | none => simp [share, holdsReserve, hs, Share.reserved]
    | some x => cases hx : settled x <;> simp [share, holdsReserve, hs, hx, Share.reserved]
  | _ => simp [share, holdsReserve, hs, Share.reserved]

theorem share_realized : (share r t).realized = if isRealized r t then pnlOf t else 0 := by
  cases hs : r.state with
  | placed =>
    cases t with
    | none => simp [share, isRealized, hs, Share.realized]
    | some x => cases hx : settled x <;> simp [share, isRealized, hs, hx, Share.realized, pnlOf]
  | _ => simp [share, isRealized, hs, Share.realized]

/-- A closed trade's reserve is held exactly while the trade is not settled. -/
theorem isUnsettled_iff : isUnsettled r t = true ↔
    r.state = .placed ∧ (∃ x ∈ t, x.status = .closed) ∧ share r t = .reserve r.chain.reserveUsd := by
  cases t with
  | none => simp [isUnsettled]
  | some x =>
    cases hs : r.state with
    | placed => cases hx : settled x <;> simp [isUnsettled, share, hs, hx]
    | _ => simp [isUnsettled, hs]

theorem spendsEntry_of_holdsSlot (h : holdsSlot r t = true) : spendsEntry r = true := by
  simp only [holdsSlot, decide_eq_true_eq] at h
  rw [spendsEntry, decide_eq_true_eq]
  exact h.imp_right fun h => h.imp_right And.left

end

theorem sum_filter_map {α : Type} (rows : List α) (p : α → Bool) (f : α → ℚ) :
    ((rows.filter p).map f).sum = (rows.map fun r => if p r then f r else 0).sum := by
  induction rows with
  | nil => rfl
  | cons r rows ih => cases hp : p r <;> simp [hp, ih]

/-- **The ledger partitions the reservations of a probe.** A share is a reserve, the result of a settled trade,
or nothing; an absent result is in neither sum. -/
theorem ledger_partitions (db : Db) (probeId : String) :
    (∀ r ∈ db.rowsOf probeId,
      ((r.state = .reserved ∨ r.state = .sending) → db.shareOf r = .reserve r.chain.reserveUsd) ∧
      (r.state = .placed → db.shareOf r =
        if ∃ x ∈ db.tradeOf r, settled x = true then .pnl ((db.tradeOf r).bind (·.pnlUsd))
        else .reserve r.chain.reserveUsd) ∧
      ((r.state = .refusedBeforeSend ∨ r.state = .released) → db.shareOf r = .nothing)) ∧
    (db.ledger probeId).reservedOpen = ((db.rowsOf probeId).map fun r => (db.shareOf r).reserved).sum ∧
    (db.ledger probeId).realizedClosed = ((db.rowsOf probeId).map fun r => (db.shareOf r).realized).sum ∧
    (db.ledger probeId).closedUnsettled = (db.rowsOf probeId).countP (fun r => r.state = .placed ∧
      (∃ x ∈ db.tradeOf r, x.status = .closed) ∧ db.shareOf r = .reserve r.chain.reserveUsd) ∧
    (db.ledger probeId).slotsHeld ≤ (db.ledger probeId).entriesSpent := by
  refine ⟨fun r _ => ⟨?_, ?_, ?_⟩, ?_, ?_, ?_, ?_⟩
  · rintro (hs | hs) <;> simp [Db.shareOf, share, hs]
  · intro hs
    cases ht : db.tradeOf r with
    | none | some => simp [Db.shareOf, share, hs, ht]
  · rintro (hs | hs) <;> simp [Db.shareOf, share, hs]
  · simp only [Db.shareOf, share_reserved]
    exact sum_filter_map _ _ _
  · simp only [Db.shareOf, share_realized]
    exact sum_filter_map _ _ _
  · refine countP_congr fun r _ => ?_
    rw [decide_eq_true_eq]
    exact isUnsettled_iff r _
  · exact countP_mono_left fun r _ => spendsEntry_of_holdsSlot r _

def unpricedDb : Db where
  reservations := [{ chain := ⟨"probe-1", "k", "d", "11111111111111111111111111111111", "XYZUSDT", .short, 20, 2,
    ⟨5, 1 / 1000, 1 / 10000, 2⟩, 0⟩, state := .placed, tradeId := some 9 }]
  trades := fun _ => some ⟨.closed, none, .liveExchangeCostsV1, .complete⟩

/-- The trade is settled without a result: its reservation frees the reserve of 2 and adds nothing. -/
theorem unpriced_in_neither :
    (unpricedDb.rowsOf "probe-1").map (fun r => (r.state, r.chain.reserveUsd)) = [(.placed, 2)] ∧
    unpricedDb.ledger "probe-1" = ⟨1, 0, 0, 0, 0⟩ := by
  decide +kernel

end Schurfer.Probe
