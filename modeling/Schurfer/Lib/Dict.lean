import Mathlib.Data.List.AList

/-!
# Dictionaries filled from rows

A dictionary is an association list without repeated keys. A later row of a key overrides (`Dict.ofRows`) or joins
(`Dict.groups`) the earlier ones.
-/

abbrev Dict (κ ν : Type) := AList fun _ : κ => ν

namespace Dict

open List

variable {κ ν ρ : Type} [DecidableEq κ] {k : κ} {d : Dict κ ν} {row : ρ} {v : ν}

theorem lookup_insert_eq (d : Dict κ ν) (k k' : κ) (v : ν) :
    (AList.insert k v d).lookup k' = if k' = k then some v else d.lookup k' := by
  split
  · rename_i h
    rw [h]
    exact AList.lookup_insert d
  · rename_i h
    exact AList.lookup_insert_ne h

def ofRows (key : ρ → κ) (value : ρ → ν) (rows : List ρ) : Dict κ ν :=
  rows.foldl (fun d row => AList.insert (key row) (value row) d) ∅

def update (key : ρ → κ) (value : ρ → ν) (d : Dict κ ν) (rows : List ρ) : Dict κ ν :=
  rows.foldl (fun d row => AList.insert (key row) (value row) d) d

section

variable {key : ρ → κ} {value : ρ → ν} {rows : List ρ}

theorem lookup_update :
    (update key value d rows).lookup k = ((rows.reverse.find? (key · = k)).map value).or (d.lookup k) := by
  unfold update
  induction rows generalizing d with
  | nil => rfl
  | cons row rows ih =>
    rw [foldl_cons, ih, reverse_cons, find?_append, lookup_insert_eq]
    cases rows.reverse.find? (key · = k) with
    | some => rfl
    | none =>
      by_cases h : key row = k
      · simp [h]
      · simp [h, Ne.symm h]

theorem filter_key_eq (hnd : (rows.map key).Nodup) (h : row ∈ rows) : rows.filter (key · = key row) = [row] := by
  induction rows with
  | nil => cases h
  | cons first rows ih =>
    obtain ⟨hfr, hnd⟩ := nodup_cons.1 hnd
    rcases mem_cons.1 h with rfl | hmem
    · have hnn : rows.filter (key · = key row) = [] := by
        refine filter_eq_nil_iff.2 fun other hot hkey => hfr ?_
        rw [← of_decide_eq_true hkey]
        exact mem_map_of_mem hot
      rw [filter_cons_of_pos (by simp), hnn]
    · have hne : key first ≠ key row := fun heq => hfr (heq ▸ mem_map_of_mem hmem)
      rw [filter_cons_of_neg (by simpa using hne), ih hnd hmem]

theorem lookup_update_of_mem (hnd : (rows.map key).Nodup) (h : row ∈ rows) :
    (update key value d rows).lookup (key row) = some (value row) := by
  rw [lookup_update, ← head?_filter, filter_reverse, filter_key_eq hnd h]
  rfl

theorem lookup_update_of_not_mem (h : ∀ row ∈ rows, key row ≠ k) : (update key value d rows).lookup k = d.lookup k := by
  have hnn : rows.reverse.find? (key · = k) = none := by
    refine find?_eq_none.2 fun row hrow => ?_
    simpa using h row (mem_reverse.1 hrow)
  rw [lookup_update, hnn]
  rfl

theorem lookup_ofRows_eq : (ofRows key value rows).lookup k = (rows.reverse.find? (key · = k)).map value := by
  have h : (update key value ∅ rows).lookup k = ((rows.reverse.find? (key · = k)).map value).or none := lookup_update
  rwa [Option.or_none] at h

theorem lookup_ofRows (h : (ofRows key value rows).lookup k = some v) :
    ∃ row ∈ rows, key row = k ∧ value row = v := by
  rw [lookup_ofRows_eq, Option.map_eq_some_iff] at h
  obtain ⟨row, hfn, rfl⟩ := h
  exact ⟨row, mem_reverse.1 (mem_of_find?_eq_some hfn), by simpa using find?_some hfn, rfl⟩

theorem exists_lookup_ofRows (key : ρ → κ) (value : ρ → ν) (h : row ∈ rows) :
    ∃ row' ∈ rows, key row' = key row ∧ (ofRows key value rows).lookup (key row) = some (value row') := by
  cases hfn : rows.reverse.find? (key · = key row) with
  | none =>
    have hnn := find?_eq_none.1 hfn row (mem_reverse.2 h)
    simp at hnn
  | some row' =>
    refine ⟨row', mem_reverse.1 (mem_of_find?_eq_some hfn), by simpa using find?_some hfn, ?_⟩
    rw [lookup_ofRows_eq, hfn]
    rfl

end

def group (d : Dict κ (List ν)) (k : κ) : List ν := (d.lookup k).getD []

def push (d : Dict κ (List ν)) (k : κ) (v : ν) : Dict κ (List ν) := AList.insert k (group d k ++ [v]) d

theorem group_push (d : Dict κ (List ν)) (k k' : κ) (v : ν) :
    group (push d k v) k' = if k' = k then group d k ++ [v] else group d k' := by
  unfold group push
  rw [lookup_insert_eq]
  split
  · rfl
  · rfl

theorem mem_group_push {d : Dict κ (List ν)} {k' : κ} {v' : ν} :
    v' ∈ group (push d k v) k' ↔ v' ∈ group d k' ∨ k' = k ∧ v' = v := by
  rw [group_push]
  split
  · rename_i h
    simp [h]
  · rename_i h
    simp [h]

theorem mem_of_mem_group {d : Dict κ (List ν)} (h : v ∈ group d k) : k ∈ d := by
  rw [← AList.lookup_isSome]
  unfold group at h
  cases hk : d.lookup k with
  | none => rw [hk] at h; cases h
  | some => rfl

end Dict
