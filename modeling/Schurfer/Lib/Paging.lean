import Mathlib.Data.List.Sort
import Mathlib.Order.Basic
import Mathlib.Tactic

/-!
# Reading a growing history backwards, page by page

A server answers with at most `limit` of the newest rows of a range. The history may grow between two answers, but is
always complete up to its newest row, so a reader who goes on below the oldest row of every full page misses nothing.
-/

namespace Paging

open List

variable {α : Type*} [LinearOrder α]

def page (rows : List α) (covers : α → Bool) (limit : ℕ) : List α :=
  ((rows.filter covers).insertionSort (· ≥ ·)).take limit

section

variable {rows : List α} {covers : α → Bool} {t : α} {limit : ℕ}

theorem mem_page (h : t ∈ page rows covers limit) : t ∈ rows ∧ covers t = true := by
  have hsr := mem_of_mem_take h
  rwa [mem_insertionSort, mem_filter] at hsr

theorem page_or_older (hnd : rows.Nodup) (ht : t ∈ rows) (hcv : covers t = true) : t ∈ page rows covers limit ∨
      ((page rows covers limit).length = limit ∧ ∀ u ∈ page rows covers limit, t < u) := by
  unfold page
  generalize hs : (rows.filter covers).insertionSort (· ≥ ·) = sorted
  have hmem : t ∈ sorted := by
    rw [← hs, mem_insertionSort, mem_filter]
    exact ⟨ht, hcv⟩
  have hde : sorted.Pairwise (· ≥ ·) := by
    rw [← hs]
    exact pairwise_insertionSort (· ≥ ·) _
  have hds : sorted.Nodup := by
    rw [← hs, (perm_insertionSort _ _).nodup_iff]
    exact hnd.filter _
  by_cases hin : t ∈ sorted.take limit
  · exact .inl hin
  · -- the row is in the rest of the list, below everything taken
    have hrs : t ∈ sorted.drop limit := by
      rw [← take_append_drop limit sorted, mem_append] at hmem
      exact hmem.resolve_left hin
    refine .inr ⟨?_, ?_⟩
    · have hln : limit < sorted.length := by
        by_contra hsh
        rw [drop_eq_nil_of_le (not_lt.1 hsh)] at hrs
        exact not_mem_nil hrs
      rw [length_take, min_eq_left hln.le]
    · intro u hu
      rw [← take_append_drop limit sorted, pairwise_append] at hde
      have hle : t ≤ u := hde.2.2 u hu t hrs
      refine lt_of_le_of_ne hle ?_
      rintro rfl
      exact hin hu

end

/-- A history that only grows and lists exactly the rows up to its newest one; `history n` is what
the `n`-th answer sees. -/
structure Growing (history : ℕ → List α) : Prop where
  grows : ∀ {n m}, n ≤ m → history n ⊆ history m
  complete : ∀ {n m t u}, t ∈ history m → u ∈ history n → t ≤ u → t ∈ history n
  nodup : ∀ n, (history n).Nodup

theorem Growing.listed {history : ℕ → List α} (h : Growing history) {n m k : ℕ} {t u : α}
    (ht : t ∈ history m) (hu : u ∈ history n) (hle : t ≤ u) (hk : n ≤ k) : t ∈ history k :=
  h.grows hk (h.complete ht hu hle)

end Paging
