import Mathlib.Algebra.Order.Floor.Ring
import Mathlib.Data.Rat.Floor
import Mathlib.Tactic.FieldSimp
import Mathlib.Tactic.Linarith
import Mathlib.Tactic.Positivity
import Mathlib.Tactic.Ring

/-!
# Cxsw.Lib.JsFixed — `Number.prototype.toFixed`

The text of a number with `f` digits behind the point is kept as its sign and its digits without the point.  A number
is rounded to the nearest text, and one that is halfway between two texts away from zero; the sign is that of the
number, also where the digits are all 0.
-/

namespace Cxsw.Js

section Defs

/-- A text with a fixed number of digits behind the point. -/
structure Fixed where
  minus : Bool
  scaled : ℕ
  deriving DecidableEq

/-- `q.toFixed(f)`, for a number below `10 ^ 21` in size. -/
def toFixed (f : ℕ) (q : ℚ) : Fixed := ⟨q < 0, ⌊|q| * 10 ^ f + 1 / 2⌋₊⟩

/-- What `parseFloat` makes of the text. -/
def Fixed.value (f : ℕ) (t : Fixed) : ℚ := if t.minus then -(t.scaled / 10 ^ f) else t.scaled / 10 ^ f

/-- The text, with at least one digit in front of the point. -/
def Fixed.text (f : ℕ) (t : Fixed) : List Char :=
  (if t.minus then ['-'] else []) ++ Nat.toDigits 10 (t.scaled / 10 ^ f) ++
    '.' :: (Nat.toDigits 10 (t.scaled % 10 ^ f)).leftpad f '0'

end Defs

section Value

variable {f : ℕ} {q : ℚ}

theorem Fixed.value_eq_zero_iff {t : Fixed} : t.value f = 0 ↔ t.scaled = 0 := by
  have hpow : (10 : ℚ) ^ f ≠ 0 := by positivity
  unfold Fixed.value
  split_ifs <;> simp

end Value

end Cxsw.Js
