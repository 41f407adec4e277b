import Mathlib.Tactic

/-!
# Uncommitted rows over a table

A transaction sees the committed rows with its own writes in their place. A write carries the whole row,
and rows are told apart by their key.
-/

namespace Overlay

open List

variable {ρ κ : Type} [DecidableEq κ] {key : ρ → κ} {vs ws rows : List ρ} {r : ρ}

def onto (key : ρ → κ) (ws rows : List ρ) : List ρ := ws ++ rows.filter fun r => key r ∉ ws.map key

@[simp] theorem onto_nil : onto key [] rows = rows := by
  simp [onto]

theorem mem_onto : r ∈ onto key ws rows ↔ r ∈ ws ∨ r ∈ rows ∧ key r ∉ ws.map key := by
  rw [onto, mem_append, mem_filter, decide_eq_true_iff]

theorem mem_map_onto {k : κ} : k ∈ (onto key ws rows).map key ↔ k ∈ ws.map key ∨ k ∈ rows.map key := by
  constructor
  · intro h
    obtain ⟨r, hr, rfl⟩ := mem_map.1 h
    rcases mem_onto.1 hr with hr | ⟨hr, -⟩
    · exact .inl (mem_map_of_mem hr)
    · exact .inr (mem_map_of_mem hr)
  · intro h
    by_cases hk : k ∈ ws.map key
    · obtain ⟨w, hw, rfl⟩ := mem_map.1 hk
      exact mem_map_of_mem (mem_onto.2 (.inl hw))
    · obtain ⟨r, hr, rfl⟩ := mem_map.1 (h.resolve_left hk)
      exact mem_map_of_mem (mem_onto.2 (.inr ⟨hr, hk⟩))

theorem onto_onto : onto key (onto key vs ws) rows = onto key vs (onto key ws rows) := by
  have hkeys : ∀ r ∈ rows, decide (key r ∉ (onto key vs ws).map key) =
      (decide (key r ∉ vs.map key) && decide (key r ∉ ws.map key)) := by
    intro r _
    simp only [mem_map_onto, not_or, Bool.decide_and]
  rw [onto, filter_congr hkeys, onto, onto, onto, filter_append, filter_filter, append_assoc]

theorem nodup_onto (hws : (ws.map key).Nodup) (hrw : (rows.map key).Nodup) : ((onto key ws rows).map key).Nodup := by
  rw [onto, map_append, nodup_append]
  refine ⟨hws, hrw.sublist (filter_sublist.map key), ?_⟩
  rintro k hk k' hk' rfl
  obtain ⟨r, hr, rfl⟩ := mem_map.1 hk'
  exact of_decide_eq_true (mem_filter.1 hr).2 hk

omit [DecidableEq κ] in
theorem length_le_one {l : List ρ} (h : (l.map key).Nodup) (hsame : ∀ a ∈ l, ∀ b ∈ l, key a = key b) :
    l.length ≤ 1 := by
  match l, h, hsame with
  | [], _, _ => exact Nat.zero_le 1
  | [_], _, _ => exact le_rfl
  | a :: b :: _, h, hsame =>
    have hab := hsame a (by simp) b (by simp)
    simp [hab] at h

omit [DecidableEq κ] in
theorem key_mem_filter {p : ρ → Bool} (hrw : (rows.map key).Nodup) (hr : r ∈ rows) :
    key r ∈ (rows.filter p).map key ↔ p r := by
  rw [mem_map]
  refine ⟨fun ⟨r', hr', hkey⟩ => ?_, fun hp => ⟨r, mem_filter.2 ⟨hr, hp⟩, rfl⟩⟩
  obtain ⟨hr', hp⟩ := mem_filter.1 hr'
  rwa [← inj_on_of_nodup_map hrw hr' hr hkey]

theorem mem_onto_map {p : ρ → Bool} {f : ρ → ρ} (hrw : (rows.map key).Nodup) (hf : ∀ r, key (f r) = key r) :
    r ∈ onto key ((rows.filter p).map f) rows ↔ ∃ r0 ∈ rows, (if p r0 then f r0 else r0) = r := by
  have hkeys : ∀ r0 ∈ rows, key r0 ∈ ((rows.filter p).map f).map key ↔ p r0 := by
    intro r0 hr0
    rw [map_map, show key ∘ f = key from funext hf, key_mem_filter hrw hr0]
  rw [mem_onto]
  constructor
  · rintro (hr | ⟨hr, hkey⟩)
    · obtain ⟨r0, hr0, rfl⟩ := mem_map.1 hr
      obtain ⟨hr0, hp⟩ := mem_filter.1 hr0
      exact ⟨r0, hr0, if_pos hp⟩
    · exact ⟨r, hr, if_neg (mt (hkeys r hr).2 hkey)⟩
  · rintro ⟨r0, hr0, rfl⟩
    split
    · rename_i hp
      exact .inl (mem_map_of_mem (mem_filter.2 ⟨hr0, hp⟩))
    · rename_i hp
      exact .inr ⟨hr0, mt (hkeys r0 hr0).1 hp⟩

end Overlay
