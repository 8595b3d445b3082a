import Mathlib.Algebra.Order.Ring.Nat

/-!
# Cxsw.Lib.Word — 32-bit machine arithmetic on `ℕ` and `ℤ`

`u32`, `u32Sub` and `s32` are the wrapped results of C's `unsigned int` and `int` operations.  Each has a lemma
that removes it when the exact result is in range.
-/

namespace Cxsw

/-- Wrap to `unsigned int`. -/
def u32 (n : ℕ) : ℕ := n % 2 ^ 32

/-- `a - b` in `unsigned int`. -/
def u32Sub (a b : ℕ) : ℕ := (a + 2 ^ 32 - b) % 2 ^ 32

/-- Wrap to `int`. -/
def s32 (x : ℤ) : ℤ := (x + 2 ^ 31) % 2 ^ 32 - 2 ^ 31

theorem u32_of_lt {n : ℕ} (h : n < 2 ^ 32) : u32 n = n := Nat.mod_eq_of_lt h

theorem u32Sub_of_le {a b : ℕ} (h : b ≤ a) (ha : a < 2 ^ 32) : u32Sub a b = a - b := by
  unfold u32Sub
  omega

theorem s32_of_range {x : ℤ} (h1 : -2 ^ 31 ≤ x) (h2 : x < 2 ^ 31) : s32 x = x := by
  unfold s32
  omega

theorem s32_add_s32 (a b : ℤ) : s32 (a + s32 b) = s32 (a + b) := by
  unfold s32
  omega

theorem s32_sub_s32 (a b : ℤ) : s32 (a - s32 b) = s32 (a - b) := by
  unfold s32
  omega

end Cxsw
