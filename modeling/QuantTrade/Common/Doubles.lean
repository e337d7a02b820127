import Mathlib.Data.Int.Notation
import Mathlib.Data.Rat.Init
import Mathlib.Tactic.Common

/-!
# The arithmetic of doubles

Where the source computes with doubles, the arithmetic is a parameter here.  Nothing is assumed of
it, so what is proved holds whatever the doubles are rounded to.  The exact arithmetic of rational
numbers is one instance.
-/

namespace QuantTrade

/-- Literals, casts from and to integers, the operations, the square root and the comparisons. -/
class Doubles (F : Type) extends Add F, Sub F, Neg F, Mul F, Div F where
  lit : ℚ → F
  ofInt : ℤ → F
  toInt : F → ℤ
  sqrt : F → F
  lt : F → F → Bool
  le : F → F → Bool

/-- Doubles without rounding; the square root is that of the squares. -/
instance : Doubles ℚ where
  lit x := x
  ofInt x := x
  toInt x := x.num.tdiv x.den
  sqrt x := (x.num.toNat.sqrt : ℚ) / (x.den.sqrt : ℚ)
  lt x y := decide (x < y)
  le x y := decide (x ≤ y)

end QuantTrade
