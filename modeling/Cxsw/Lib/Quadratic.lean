import Mathlib.Algebra.Order.Ring.Int
import Mathlib.Tactic.Linarith
import Mathlib.Tactic.Ring

/-!
# Cxsw.Lib.Quadratic — times whose differences change by the same amount

The first difference is `interval`, and every other one is larger by `add`.

* `reach`: the time of the `k`-th, by its closed form; `reach_succ`: the difference.
-/

namespace Cxsw.Quadratic

/-- The sum of the numbers below `k`. -/
def tri (k : ℕ) : ℤ := (k * (k - 1) : ℤ) / 2

theorem two_mul_tri (k : ℕ) : 2 * tri k = k * (k - 1) := by
  have heven : (2 : ℤ) ∣ k * (k - 1) := by
    have h := Int.even_mul_pred_self (k : ℤ)
    exact h.two_dvd
  exact Int.mul_ediv_cancel' heven

theorem tri_zero : tri 0 = 0 := rfl

theorem tri_one : tri 1 = 0 := rfl

theorem tri_succ (k : ℕ) : tri (k + 1) = tri k + k := by
  have h1 := two_mul_tri k
  have h2 := two_mul_tri (k + 1)
  push_cast at h2
  linarith

theorem tri_nonneg (k : ℕ) : 0 ≤ tri k := by
  induction k with
  | zero => exact le_rfl
  | succ k ih =>
    rw [tri_succ]
    omega

/-- The time of the `k`-th. -/
def reach (interval add : ℤ) (k : ℕ) : ℤ := add * tri k + interval * k

variable (interval add : ℤ)

theorem reach_zero : reach interval add 0 = 0 := by
  unfold reach
  rw [tri_zero]
  ring

theorem reach_one : reach interval add 1 = interval := by
  unfold reach
  rw [tri_one]
  ring

/-- **The next one** is later by `interval + add * k`. -/
theorem reach_succ (k : ℕ) : reach interval add (k + 1) = reach interval add k + (interval + add * k) := by
  unfold reach
  rw [tri_succ]
  push_cast
  ring

end Cxsw.Quadratic
