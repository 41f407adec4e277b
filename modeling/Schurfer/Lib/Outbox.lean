import Mathlib.Data.List.Pairwise
import Mathlib.Tactic

/-!
# Outboxes with a consumer group

An entry is named by its position. A group hands out every entry as new once, in order, and keeps what it handed out
as pending until it is acknowledged.
-/

structure Outbox (α : Type) where
  log : List α
  deleted : List ℕ
  inside : ∀ i ∈ deleted, i < log.length

namespace Outbox

open List

variable {α : Type} {e : ℕ × α} {count : ℕ}

def empty : Outbox α := ⟨[], [], nofun⟩

variable (s : Outbox α)

def add (a : α) : Outbox α where
  log := s.log ++ [a]
  deleted := s.deleted
  inside i hi := by
    rw [List.length_append]
    exact Nat.lt_add_right _ (s.inside i hi)

def delete (i : ℕ) : Outbox α :=
  if h : i < s.log.length then
    { s with
      deleted := i :: s.deleted
      inside := fun j hj => by
        rcases List.mem_cons.1 hj with rfl | hj
        · exact h
        · exact s.inside j hj }
  else s

def Has (i : ℕ) (a : α) : Prop := s.log[i]? = some a ∧ i ∉ s.deleted

def get? (i : ℕ) : Option α := if i ∈ s.deleted then none else s.log[i]?

def entriesFrom (start : ℕ) : List (ℕ × α) :=
  (List.range s.log.length).filterMap fun i => if start ≤ i then (s.get? i).map (i, ·) else none

structure Group where
  next : ℕ := 0
  pending : List ℕ := []

def Group.ack (g : Group) (i : ℕ) : Group := { g with pending := g.pending.filter (· ≠ i) }

def newEntries (g : Group) (count : ℕ) : List (ℕ × α) := (s.entriesFrom g.next).take count

def Group.deliver (g : Group) (batch : List (ℕ × α)) : Group :=
  match batch.getLast? with
  | none => g
  | some last => ⟨last.1 + 1, g.pending ++ batch.map Prod.fst⟩

def idleEntries (g : Group) (idle : List ℕ) (count : ℕ) : List (ℕ × α) :=
  ((g.pending.filter (· ∈ idle)).filterMap fun i => (s.get? i).map (i, ·)).take count

def Group.forget (g : Group) (s : Outbox α) (idle : List ℕ) : Group :=
  { g with pending := g.pending.filter fun i => i ∉ idle ∨ (s.get? i).isSome }

section

variable {s : Outbox α} {i : ℕ} {a : α} {g : Group}

theorem get?_eq_some : s.get? i = some a ↔ s.Has i a := by
  unfold get? Has
  split
  · rename_i hi
    exact ⟨nofun, fun h => absurd hi h.2⟩
  · rename_i hi
    exact ⟨fun h => ⟨h, hi⟩, fun h => h.1⟩

theorem Has.lt (h : s.Has i a) : i < s.log.length := (List.getElem?_eq_some_iff.1 h.1).1

@[simp] theorem add_log (s : Outbox α) (a : α) : (s.add a).log = s.log ++ [a] := rfl

@[simp] theorem delete_log (s : Outbox α) (i : ℕ) : (s.delete i).log = s.log := by
  unfold delete
  split <;> rfl

theorem mem_deleted_delete {j : ℕ} (h : j ∈ (s.delete i).deleted) : j = i ∨ j ∈ s.deleted := by
  unfold delete at h
  split at h
  · exact mem_cons.1 h
  · exact .inr h

theorem deleted_subset_delete (s : Outbox α) (i : ℕ) : s.deleted ⊆ (s.delete i).deleted := by
  intro j hj
  unfold delete
  split
  · exact mem_cons_of_mem i hj
  · exact hj

theorem mem_entriesFrom {start : ℕ} : e ∈ s.entriesFrom start ↔ start ≤ e.1 ∧ s.Has e.1 e.2 := by
  unfold entriesFrom
  rw [mem_filterMap]
  constructor
  · rintro ⟨j, -, hj⟩
    split at hj
    · rename_i hst
      obtain ⟨b, hb, rfl⟩ := Option.map_eq_some_iff.1 hj
      exact ⟨hst, get?_eq_some.1 hb⟩
    · cases hj
  · rintro ⟨hst, hhas⟩
    refine ⟨e.1, mem_range.2 hhas.lt, ?_⟩
    rw [if_pos hst, get?_eq_some.2 hhas]
    rfl

theorem entriesFrom_sorted (s : Outbox α) (start : ℕ) : (s.entriesFrom start).Pairwise (·.1 < ·.1) := by
  refine List.Pairwise.filterMap _ ?_ pairwise_lt_range
  intro i j hij e he e' he'
  have hkey : ∀ {k : ℕ} {x : ℕ × α}, (if start ≤ k then (s.get? k).map (k, ·) else none) = some x → x.1 = k := by
    intro k x hx
    split at hx
    · obtain ⟨b, -, rfl⟩ := Option.map_eq_some_iff.1 hx
      rfl
    · cases hx
  rw [hkey he, hkey he']
  exact hij

theorem mem_newEntries (h : e ∈ s.newEntries g count) : s.Has e.1 e.2 :=
  (mem_entriesFrom.1 (mem_of_mem_take h)).2

theorem deliver_next_le (h : g.next ≤ s.log.length) (count : ℕ) :
    (g.deliver (s.newEntries g count)).next ≤ s.log.length := by
  unfold Group.deliver
  cases hlast : (s.newEntries g count).getLast? with
  | none => exact h
  | some => exact (mem_newEntries (mem_of_getLast? hlast)).lt

theorem next_le_of_not_read (hhas : s.Has i a) (hnx : g.next ≤ i)
    (hnot : (i, a) ∉ s.newEntries g count) : (g.deliver (s.newEntries g count)).next ≤ i := by
  unfold Group.deliver
  cases hlast : (s.newEntries g count).getLast? with
  | none => exact hnx
  | some last =>
    have hen : (i, a) ∈ s.entriesFrom g.next := mem_entriesFrom.2 ⟨hnx, hhas⟩
    have hsr := s.entriesFrom_sorted g.next
    rw [← take_append_drop count (s.entriesFrom g.next)] at hen hsr
    rcases mem_append.1 hen with hbt | hrs
    · exact absurd hbt hnot
    · exact (pairwise_append.1 hsr).2.2 last (mem_of_getLast? hlast) (i, a) hrs

theorem mem_pending_deliver {batch : List (ℕ × α)} (h : i ∈ g.pending ∨ i ∈ batch.map Prod.fst) :
    i ∈ (g.deliver batch).pending := by
  unfold Group.deliver
  cases hlast : batch.getLast? with
  | none =>
    rw [getLast?_eq_none_iff.1 hlast] at h
    exact h.resolve_right not_mem_nil
  | some => exact mem_append.2 h

theorem mem_idleEntries {idle : List ℕ} (h : e ∈ s.idleEntries g idle count) : s.Has e.1 e.2 := by
  obtain ⟨i, -, hi⟩ := mem_filterMap.1 (mem_of_mem_take h)
  obtain ⟨b, hb, rfl⟩ := Option.map_eq_some_iff.1 hi
  exact get?_eq_some.1 hb

end

structure Covers (s : Outbox α) (g : Group) : Prop where
  bounded : g.next ≤ s.log.length
  held : ∀ i a, s.Has i a → g.next ≤ i ∨ i ∈ g.pending

section

variable {s : Outbox α} {g : Group}

theorem Covers.fresh (s : Outbox α) : s.Covers {} := ⟨Nat.zero_le _, fun i _ _ => .inl (Nat.zero_le i)⟩

section

variable (h : s.Covers g) (i : ℕ)

include h

theorem Covers.add (a : α) : (s.add a).Covers g := by
  refine ⟨?_, fun i b hb => ?_⟩
  · rw [add_log, length_append]
    exact Nat.le_add_right_of_le h.bounded
  · by_cases hi : i < s.log.length
    · refine h.held i b ⟨?_, hb.2⟩
      rw [← getElem?_append_left hi]
      exact hb.1
    · exact .inl (h.bounded.trans (not_lt.1 hi))

theorem Covers.readNew (count : ℕ) : s.Covers (g.deliver (s.newEntries g count)) := by
  refine ⟨deliver_next_le h.bounded count, fun i a hhas => ?_⟩
  rcases h.held i a hhas with hnx | hpending
  · by_cases hbt : (i, a) ∈ s.newEntries g count
    · exact .inr (mem_pending_deliver (.inr (mem_map_of_mem hbt)))
    · exact .inl (next_le_of_not_read hhas hnx hbt)
  · exact .inr (mem_pending_deliver (.inl hpending))

theorem Covers.claim (idle : List ℕ) : s.Covers (g.forget s idle) := by
  refine ⟨h.bounded, fun i a hhas => ?_⟩
  rcases h.held i a hhas with hnx | hpending
  · exact .inl hnx
  · refine .inr (mem_filter.2 ⟨hpending, ?_⟩)
    rw [get?_eq_some.2 hhas]
    simp

theorem Covers.delete : (s.delete i).Covers g := by
  refine ⟨by rw [delete_log]; exact h.bounded, fun j a hhas => h.held j a ⟨?_, ?_⟩⟩
  · rw [← delete_log s i]
    exact hhas.1
  · exact fun hj => hhas.2 (s.deleted_subset_delete i hj)

theorem Covers.settle : (s.delete i).Covers (g.ack i) := by
  have hdel := h.delete i
  refine ⟨hdel.bounded, fun j a hhas => ?_⟩
  rcases hdel.held j a hhas with hnx | hpending
  · exact .inl hnx
  · refine .inr (mem_filter.2 ⟨hpending, ?_⟩)
    have hne : j ≠ i := by
      rintro rfl
      refine hhas.2 ?_
      have hlt : j < s.log.length := by
        rw [← delete_log s j]
        exact hhas.lt
      unfold Outbox.delete
      rw [dif_pos hlt]
      exact mem_cons_self
    simp [hne]

end

end

end Outbox
