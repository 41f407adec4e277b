import Mathlib.Algebra.Order.Field.Rat
import Mathlib.Tactic

/-!
# Arithmetic that may round

The numbers a program computes with. Rational numbers are among them as they are; the result of an operation may be
rounded, infinite or not a number at all, and nothing is assumed of it.
-/

class Arith (N : Type) where
  ofRat : ℚ → N
  /-- nothing for a number that is not finite -/
  value : N → Option ℚ
  value_ofRat (x : ℚ) : value (ofRat x) = some x
  add : N → N → N
  sub : N → N → N
  mul : N → N → N
  div : N → N → N
  le : N → N → Bool

namespace Arith

/-- The exact arithmetic, which programs are modelled with where nothing depends on the rounding. -/
@[default_instance]
instance exact : Arith ℚ := ⟨id, some, fun _ => rfl, (· + ·), (· - ·), (· * ·), (· / ·), (· ≤ ·)⟩

variable {N : Type} [Arith N]

/-- A positive finite number. -/
def Positive (n : N) : Prop := ∃ x, value n = some x ∧ 0 < x

theorem positive_ofRat {x : ℚ} (hx : 0 < x) : Positive (ofRat x : N) := ⟨x, value_ofRat x, hx⟩

end Arith
