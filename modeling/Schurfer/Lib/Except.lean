import Mathlib.Data.List.Basic
import Mathlib.Data.List.Forall2

/-!
# Computations that may raise

`Except.raiseIf c e` stops with `e` when `c` holds. Each lemma here says when a computation
returned, in terms of its parts.
-/

namespace Except

open List

variable {ε α β : Type} {f : α → Except ε β} {x : Except ε α} {l : List α} {u : Unit} {a : α} {e : ε}

def raiseIf (c : Prop) [Decidable c] (e : ε) : Except ε Unit :=
  if c then throw e else pure ()

@[simp] theorem raiseIf_ok {c : Prop} [Decidable c] : raiseIf c e = .ok u ↔ ¬ c := by
  unfold raiseIf
  split
  · simpa [throw, throwThe, MonadExceptOf.throw]
  · simpa [pure, Except.pure]

@[simp] theorem throw_ne_ok : (throw e : Except ε α) ≠ .ok a := by
  simp [throw, throwThe, MonadExceptOf.throw]

@[simp] theorem pure_ok {b : α} : (pure a : Except ε α) = .ok b ↔ a = b := by
  simp [pure, Except.pure]

theorem bind_ok {b : β} : (x >>= f) = .ok b ↔ ∃ a, x = .ok a ∧ f a = .ok b := by
  cases x with
  | error | ok => simp [bind, Except.bind]

@[simp] theorem mapError_ok {ε' : Type} {f : ε → ε'} : x.mapError f = .ok a ↔ x = .ok a := by
  cases x <;> simp [Except.mapError]

theorem forM_ok {f : α → Except ε Unit} : l.forM f = .ok u ↔ ∀ a ∈ l, f a = .ok () := by
  induction l with
  | nil => simp [pure, Except.pure]
  | cons a l ih =>
    have hcn : (a :: l).forM f = (f a >>= fun _ => l.forM f) := rfl
    rw [hcn, bind_ok]
    constructor
    · rintro ⟨⟨⟩, ha, hl⟩ x hx
      rcases mem_cons.1 hx with rfl | hx
      · exact ha
      · exact ih.1 hl x hx
    · intro h
      exact ⟨⟨⟩, h a mem_cons_self, ih.2 fun x hx => h x (mem_cons_of_mem _ hx)⟩

theorem mapM_ok {bs : List β} : l.mapM f = .ok bs ↔ List.Forall₂ (fun a b => f a = .ok b) l bs := by
  induction l generalizing bs with
  | nil => simp [pure, Except.pure, eq_comm]
  | cons a l ih =>
    rw [mapM_cons, bind_ok]
    constructor
    · rintro ⟨b, hb, h⟩
      obtain ⟨bs', hbs', h⟩ := bind_ok.1 h
      obtain rfl : b :: bs' = bs := by simpa [pure, Except.pure] using h
      exact .cons hb (ih.1 hbs')
    · intro h
      cases h with
      | cons hb hbs => exact ⟨_, hb, bind_ok.2 ⟨_, ih.2 hbs, rfl⟩⟩

section

variable {l : List α} {bs : List β}

theorem mapM_mem (h : l.mapM f = .ok bs) : (∀ b ∈ bs, ∃ a ∈ l, f a = .ok b) ∧ ∀ a ∈ l, ∃ b ∈ bs, f a = .ok b := by
  have h' := mapM_ok.1 h
  clear h
  induction h' with
  | nil => simp
  | @cons a b l bs hab _ ih =>
    refine ⟨fun x hx => ?_, fun x hx => ?_⟩
    · rcases mem_cons.1 hx with rfl | hx
      · exact ⟨a, mem_cons_self, hab⟩
      · obtain ⟨y, hy, hxy⟩ := ih.1 x hx
        exact ⟨y, mem_cons_of_mem _ hy, hxy⟩
    · rcases mem_cons.1 hx with rfl | hx
      · exact ⟨b, mem_cons_self, hab⟩
      · obtain ⟨y, hy, hxy⟩ := ih.2 x hx
        exact ⟨y, mem_cons_of_mem _ hy, hxy⟩

theorem mapM_pairwise {R : α → α → Prop} {S : β → β → Prop} (h : l.mapM f = .ok bs)
    (hl : l.Pairwise R) (hS : ∀ a a' b b', R a a' → f a = .ok b → f a' = .ok b' → S b b') : bs.Pairwise S := by
  induction l generalizing bs with
  | nil =>
    rw [forall₂_nil_left_iff.1 (mapM_ok.1 h)]
    exact .nil
  | cons a l ih =>
    obtain ⟨b, bs', hab, hrs, rfl⟩ := forall₂_cons_left_iff.1 (mapM_ok.1 h)
    obtain ⟨ha, hl⟩ := pairwise_cons.1 hl
    have hrs := mapM_ok.2 hrs
    refine pairwise_cons.2 ⟨fun b' hb' => ?_, ih hrs hl⟩
    obtain ⟨a', ha', hab'⟩ := (mapM_mem hrs).1 b' hb'
    exact hS a a' b b' (ha a' ha') hab hab'

end

end Except
