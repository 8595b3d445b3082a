import Mathlib.Tactic.Linarith
import Mathlib.Tactic.Ring

/-!
# Cxsw.Lib.DigitalLine — the integer line accumulator

An accumulator starts at `-M`; each tick adds `2 s`, and when the sum is not negative it emits a pulse and takes
`2 M` off.  `pulses s M k` is the number of pulses after `k` ticks in closed form, the nearest integer to
`k s / M`; `err s M k` is the accumulator.  With `s ≤ M` each tick emits at most one pulse, and `M` ticks emit
exactly `s`.
-/

namespace Cxsw.DigitalLine

variable {s M k : ℕ}

/-- Pulses in the first `k` ticks. -/
def pulses (s M k : ℕ) : ℕ := (2 * s * k + M) / (2 * M)

/-- The accumulator after `k` ticks. -/
def err (s M k : ℕ) : ℤ := 2 * s * k - M - 2 * M * (pulses s M k : ℤ)

theorem pulses_zero (hM : 0 < M) : pulses s M 0 = 0 := Nat.div_eq_of_lt (by omega)

theorem err_zero (hM : 0 < M) : err s M 0 = -M := by simp [err, pulses_zero hM]

theorem pulses_full (hM : 0 < M) : pulses s M M = s := by
  have h : 2 * s * M + M = M + 2 * M * s := by ring
  unfold pulses
  rw [h, Nat.add_mul_div_left _ _ (by omega), Nat.div_eq_of_lt (by omega), Nat.zero_add]

/-- The accumulator stays below zero, and within one period of it. -/
theorem err_range (hM : 0 < M) (s k : ℕ) : -(2 * M : ℤ) ≤ err s M k ∧ err s M k < 0 := by
  have h1 := Nat.div_add_mod (2 * s * k + M) (2 * M)
  have h2 := Nat.mod_lt (2 * s * k + M) (show 0 < 2 * M by omega)
  have h3 : (2 * M * pulses s M k : ℤ) + ((2 * s * k + M) % (2 * M) : ℕ) = 2 * s * k + M := by
    exact_mod_cast h1
  unfold err
  constructor <;> omega

/-- **One tick**: it emits a pulse iff the sum is not negative. -/
theorem pulses_succ (hM : 0 < M) (hs : s ≤ M) :
    pulses s M (k + 1) = pulses s M k + if 0 ≤ err s M k + 2 * s then 1 else 0 := by
  obtain ⟨h1, h2⟩ := err_range hM s k
  have hdef : (2 * s * k : ℤ) + M = err s M k + 2 * M + 2 * M * (pulses s M k : ℤ) := by
    unfold err
    ring
  have hnext : (2 * s * (k + 1 : ℕ) + M : ℤ) = err s M k + 2 * s + 2 * M + 2 * M * (pulses s M k : ℤ) := by
    push_cast
    linarith
  have key : ∀ q : ℕ, (2 * M * q : ℤ) ≤ 2 * s * (k + 1 : ℕ) + M →
      (2 * s * (k + 1 : ℕ) + M : ℤ) < 2 * M * q + 2 * M → pulses s M (k + 1) = q := by
    intro q hl hu
    have hl' : 2 * M * q ≤ 2 * s * (k + 1) + M := by exact_mod_cast hl
    have hu' : 2 * s * (k + 1) + M < 2 * M * q + 2 * M := by exact_mod_cast hu
    exact Nat.div_eq_of_lt_le (by linarith) (by linarith)
  split_ifs with h
  · refine key _ ?_ ?_
    · push_cast at hnext ⊢
      linarith
    · push_cast at hnext ⊢
      have : (s : ℤ) ≤ M := by exact_mod_cast hs
      linarith
  · refine key _ ?_ ?_ <;> · push_cast at hnext ⊢; linarith

theorem err_succ (hM : 0 < M) (hs : s ≤ M) :
    err s M (k + 1) = err s M k + 2 * s - if 0 ≤ err s M k + 2 * s then 2 * M else 0 := by
  have h := pulses_succ (k := k) hM hs
  unfold err at h ⊢
  rw [h]
  split_ifs <;> push_cast <;> ring

theorem pulses_mono (s : ℕ) {j k : ℕ} (h : j ≤ k) : pulses s M j ≤ pulses s M k :=
  Nat.div_le_div_right (Nat.add_le_add_right (Nat.mul_le_mul_left _ h) _)

end Cxsw.DigitalLine
