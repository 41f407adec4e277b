import Mathlib.Algebra.Order.Field.Rat
import Mathlib.Data.List.Forall2
import Mathlib.Tactic

/-!
# Tables whose rows are never deleted

A table is a list, a row is named by its position, and a write replaces a row or appends one.
-/

namespace Rows

open List

variable {α β : Type} {f : α → α} {i : ℕ} {t l : List α} {r old new : α} {R : α → α → Prop} {column : α → β}

def Evolves (R : α → α → Prop) (t t' : List α) : Prop :=
  ∀ (i : ℕ) (r : α), t[i]? = some r → ∃ r', t'[i]? = some r' ∧ R r r'

section

variable {t' : List α}

instance [Std.Refl R] : Std.Refl (Evolves R) :=
  ⟨fun _ _ r hr => ⟨r, hr, Std.Refl.refl r⟩⟩

instance [IsTrans α R] : IsTrans (List α) (Evolves R) := by
  refine ⟨fun t₁ t₂ t₃ h₁ h₂ i r hr => ?_⟩
  obtain ⟨r₂, hr₂, h12⟩ := h₁ i r hr
  obtain ⟨r₃, hr₃, h23⟩ := h₂ i r₂ hr₂
  exact ⟨r₃, hr₃, IsTrans.trans r r₂ r₃ h12 h23⟩

theorem Evolves.append [Std.Refl R] (t u : List α) : Evolves R t (t ++ u) := by
  intro i r hr
  have hi : i < t.length := (List.getElem?_eq_some_iff.1 hr).1
  exact ⟨r, by rw [getElem?_append_left hi, hr], Std.Refl.refl r⟩

theorem Evolves.set [Std.Refl R] (hi : t[i]? = some old) (hR : R old new) : Evolves R t (t.set i new) := by
  intro j r hr
  have hlt : i < t.length := (List.getElem?_eq_some_iff.1 hi).1
  by_cases hij : i = j
  · subst hij
    rw [hi, Option.some.injEq] at hr
    subst hr
    exact ⟨new, by rw [getElem?_set_self hlt], hR⟩
  · exact ⟨r, by rw [getElem?_set_ne hij, hr], Std.Refl.refl r⟩

end

inductive Grows (R : α → α → Prop) (N : α → Prop) : List α → List α → Prop
  | nil {new : List α} (hnew : ∀ r ∈ new, N r) : Grows R N [] new
  | cons {r r' : α} {t t' : List α} (hr : R r r') (ht : Grows R N t t') : Grows R N (r :: t) (r' :: t')

section

variable {N : α → Prop} {t' t₁ t₂ t₃ : List α} {r' : α}

theorem Grows.append (hR : ∀ r, R r r) {new : List α} (hnew : ∀ r ∈ new, N r) : Grows R N t (t ++ new) := by
  induction t with
  | nil => exact .nil hnew
  | cons r t ih => exact .cons (hR r) ih

theorem Grows.refl (hR : ∀ r, R r r) (t : List α) : Grows R N t t := by
  have h : Grows R N t (t ++ []) := .append hR nofun
  rwa [append_nil] at h

theorem Grows.map (hf : ∀ r ∈ t, R r (f r)) : Grows R N t (t.map f) := by
  induction t with
  | nil => exact .nil nofun
  | cons r t ih =>
    exact .cons (hf r mem_cons_self) (ih fun r' hr' => hf r' (mem_cons_of_mem r hr'))

theorem Grows.mono {R' : α → α → Prop} {N' : α → Prop} (hR : ∀ r r', R r r' → R' r r') (hN : ∀ r, N r → N' r)
    (h : Grows R N t t') : Grows R' N' t t' := by
  induction h with
  | nil hnew => exact .nil fun r hr => hN r (hnew r hr)
  | cons hr _ ih => exact .cons (hR _ _ hr) ih

theorem Grows.mem_back (h : Grows R N t t') (hr' : r' ∈ t') : (∃ r ∈ t, R r r') ∨ N r' := by
  induction h with
  | nil hnew => exact .inr (hnew r' hr')
  | @cons r r1 t t' hr ht ih =>
    rcases mem_cons.1 hr' with rfl | hmem
    · exact .inl ⟨r, mem_cons_self, hr⟩
    · rcases ih hmem with ⟨r2, hr2, hR⟩ | hnew
      · exact .inl ⟨r2, mem_cons_of_mem r hr2, hR⟩
      · exact .inr hnew

theorem Grows.mem_forth (h : Grows R N t t') (hr : r ∈ t) : ∃ r' ∈ t', R r r' := by
  induction h with
  | nil => cases hr
  | @cons r1 r2 t t' h1 ht ih =>
    rcases mem_cons.1 hr with rfl | hmem
    · exact ⟨r2, mem_cons_self, h1⟩
    · obtain ⟨r', hr', hR⟩ := ih hmem
      exact ⟨r', mem_cons_of_mem r2 hr', hR⟩

/-- What was new after the first step is moved along `R` by the second, and has to stay new. -/
theorem Grows.trans (hR : ∀ r1 r2 r3, R r1 r2 → R r2 r3 → R r1 r3) (hN : ∀ r r', N r → R r r' → N r')
    (h1 : Grows R N t₁ t₂) (h2 : Grows R N t₂ t₃) : Grows R N t₁ t₃ := by
  induction h1 generalizing t₃ with
  | nil hnew =>
    refine .nil fun r hr => ?_
    rcases h2.mem_back hr with ⟨r2, hr2, hmv⟩ | hnew'
    · exact hN r2 r (hnew r2 hr2) hmv
    · exact hnew'
  | cons hr _ ih =>
    cases h2 with
    | cons hr' ht' => exact .cons (hR _ _ _ hr hr') (ih ht')

theorem Grows.length_le (h : Grows R N t t') : t.length ≤ t'.length := by
  induction h with
  | nil => exact Nat.zero_le _
  | cons _ _ ih => exact Nat.succ_le_succ ih

theorem Grows.sum_le {f : α → ℚ} (hR : ∀ r r', R r r' → f r' ≤ f r) (hN : ∀ r, N r → f r = 0)
    (h : Grows R N t t') : (t'.map f).sum ≤ (t.map f).sum := by
  induction h with
  | @nil new hnew =>
    have hzr : (new.map f).sum = 0 := by
      refine sum_eq_zero fun x hx => ?_
      obtain ⟨r, hr, rfl⟩ := mem_map.1 hx
      exact hN r (hnew r hr)
    rw [hzr]
    exact le_refl 0
  | cons hr _ ih =>
    exact add_le_add (hR _ _ hr) ih

theorem Grows.mem_take_of_le (h : Grows R N t t') {n : ℕ} (hn : n ≤ t.length)
    (hr' : r' ∈ t'.take n) : ∃ r ∈ t.take n, R r r' := by
  induction h generalizing n with
  | nil hnew =>
    obtain rfl : n = 0 := Nat.le_zero.1 hn
    simp at hr'
  | @cons r r1 t t' hr ht ih =>
    cases n with
    | zero => simp at hr'
    | succ n =>
      rw [take_succ_cons] at hr' ⊢
      rcases mem_cons.1 hr' with rfl | hmem
      · exact ⟨r, mem_cons_self, hr⟩
      · obtain ⟨r2, hr2, hR⟩ := ih (Nat.le_of_succ_le_succ hn) hmem
        exact ⟨r2, mem_cons_of_mem r hr2, hR⟩

end

def Adds (R : α → α → Prop) (N : α → Prop) (t t' : List α) : Prop :=
  ∃ moved, List.Forall₂ R t moved ∧ (t' = moved ∨ ∃ r, N r ∧ t' = moved ++ [r])

section

variable {D : α → α → Prop} {N : α → Prop} {t' : List α}

theorem Adds.refl (hR : ∀ r, R r r) (t : List α) : Adds R N t t :=
  ⟨t, forall₂_same.2 fun r _ => hR r, .inl rfl⟩

theorem Adds.append (hR : ∀ r, R r r) (hr : N r) : Adds R N t (t ++ [r]) :=
  ⟨t, forall₂_same.2 fun r _ => hR r, .inr ⟨r, hr, rfl⟩⟩

theorem Adds.map (hf : ∀ r ∈ t, R r (f r)) : Adds R N t (t.map f) :=
  ⟨t.map f, forall₂_map_right_iff.2 (forall₂_same.2 hf), .inl rfl⟩

theorem Adds.grows (h : Adds R N t t') : Grows R N t t' := by
  have hmv : ∀ {t moved new : List α}, List.Forall₂ R t moved → (∀ r ∈ new, N r) → Grows R N t (moved ++ new) := by
    intro t moved new hm hnew
    induction hm with
    | nil => exact .nil hnew
    | cons hr _ ih => exact .cons hr ih
  obtain ⟨moved, hm, rfl | ⟨r, hr, rfl⟩⟩ := h
  · have hgr : Grows R N t (t' ++ []) := hmv hm nofun
    rwa [append_nil] at hgr
  · refine hmv hm fun r' hr' => ?_
    rwa [mem_singleton.1 hr']

end

theorem forall₂_map_right (hR : ∀ r1 r2 r3, R r1 r2 → R r2 r3 → R r1 r3)
    {moved : List α} (h : List.Forall₂ R t moved) (hf : ∀ r ∈ t, ∀ r', R r r' → R r' (f r')) :
    List.Forall₂ R t (moved.map f) := by
  induction h with
  | nil => exact .nil
  | @cons r r' t moved hr _ ih =>
    exact .cons (hR r r' _ hr (hf r mem_cons_self r' hr)) (ih fun x hx => hf x (mem_cons_of_mem r hx))

theorem Adds.map_eq {N : α → Prop} {t' : List α} (h : Adds R N t t') {f : α → β}
    (hf : ∀ r r', R r r' → f r' = f r) : t'.map f = t.map f ∨ ∃ r, N r ∧ t'.map f = t.map f ++ [f r] := by
  have hmv : ∀ {t moved : List α}, List.Forall₂ R t moved → moved.map f = t.map f := by
    intro t moved hm
    induction hm with
    | nil => rfl
    | cons hr _ ih => rw [map_cons, map_cons, hf _ _ hr, ih]
  obtain ⟨moved, hm, rfl | ⟨r, hr, rfl⟩⟩ := h
  · exact .inl (hmv hm)
  · refine .inr ⟨r, hr, ?_⟩
    rw [map_append, hmv hm, map_singleton]

theorem mem_modify (h : r ∈ l.modify i f) : r ∈ l ∨ ∃ old, l[i]? = some old ∧ r = f old := by
  obtain ⟨j, hj⟩ := mem_iff_getElem?.1 h
  rw [getElem?_modify] at hj
  obtain ⟨old, hold, rfl⟩ := Option.map_eq_some_iff.1 hj
  by_cases hij : i = j
  · subst hij
    exact .inr ⟨old, hold, if_pos rfl⟩
  · rw [if_neg hij]
    exact .inl (mem_of_getElem? hold)

theorem countP_set_le {p : α → Bool} (hi : l[i]? = some old)
    (h : p new = true → p old = true) : (l.set i new).countP p ≤ l.countP p := by
  obtain ⟨hlt, rfl⟩ := List.getElem?_eq_some_iff.1 hi
  rw [countP_set hlt]
  by_cases hn : p new = true
  · have hpos : 0 < l.countP p := countP_pos_iff.2 ⟨l[i], getElem_mem hlt, h hn⟩
    rw [if_pos hn, if_pos (h hn)]
    omega
  · rw [if_neg hn]
    omega

theorem map_set_eq {f : α → β} (hi : l[i]? = some old) (h : f new = f old) : (l.set i new).map f = l.map f := by
  obtain ⟨hlt, rfl⟩ := List.getElem?_eq_some_iff.1 hi
  rw [map_set, h]
  apply ext_getElem (by simp)
  intro j h1 h2
  by_cases hij : i = j
  · subst hij
    simp
  · rw [getElem_set_ne hij]

theorem map_column (hf : ∀ r, column (f r) = column r) (t : List α) : (t.map f).map column = t.map column := by
  rw [map_map]
  exact map_congr_left fun r _ => hf r

end Rows
