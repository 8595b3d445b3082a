import Mathlib.Algebra.Group.Prod
import Mathlib.Algebra.Order.Ring.Nat

/-!
# Cxsw.Lib.TimedPin — a pin set by a timer

A callback changes a state and says after how long it is called again.  `times p n s` are the time that the pin is high
and the whole time, over the `n` intervals after the next callbacks.

* `times_cycles`: callbacks that lead back to where they started take the same times again and again.
* `times_map`: two pins with the same levels and intervals have the same times.
-/

namespace Cxsw

/-- A callback, with the time until the next, and the level of the pin. -/
structure TimedPin (σ : Type) where
  run : σ → σ × ℕ
  level : σ → Bool

namespace TimedPin

variable {σ τ : Type} (p : TimedPin σ) (q : TimedPin τ)

/-- The state after `n` callbacks. -/
def after : ℕ → σ → σ
  | 0, s => s
  | n + 1, s => after n (p.run s).1

/-- The high time and the whole time of the interval after a callback. -/
def interval (s : σ) : ℕ × ℕ :=
  (if p.level (p.run s).1 then (p.run s).2 else 0, (p.run s).2)

/-- The high time and the whole time of `n` intervals. -/
def times : ℕ → σ → ℕ × ℕ
  | 0, _ => 0
  | n + 1, s => p.interval s + times n (p.run s).1

theorem times_add (m n : ℕ) (s : σ) : p.times (m + n) s = p.times m s + p.times n (p.after m s) := by
  induction m generalizing s with
  | zero => simp [times, after]
  | succ m ih =>
    rw [Nat.succ_add, times, times, after, ih, add_assoc]

/-- Callbacks that lead back to where they started take the same times again and again. -/
theorem times_cycles {k : ℕ} {s : σ} (h : p.after k s = s) (n : ℕ) : p.times (n * k) s = n • p.times k s := by
  induction n with
  | zero => rw [Nat.zero_mul, zero_nsmul, times]
  | succ n ih => rw [Nat.succ_mul, Nat.add_comm, times_add, h, ih, succ_nsmul, add_comm]

/-- Two pins with the same levels and intervals, on the states that meet an invariant. -/
theorem times_map {f : σ → τ} {I : σ → Prop} (hstep : ∀ s, I s → I (p.run s).1)
    (hrun : ∀ s, I s → q.run (f s) = (f (p.run s).1, (p.run s).2)) (hlevel : ∀ s, q.level (f s) = p.level s)
    (n : ℕ) {s : σ} (hs : I s) : q.times n (f s) = p.times n s := by
  induction n generalizing s with
  | zero => rfl
  | succ n ih =>
    have hinterval : q.interval (f s) = p.interval s := by
      unfold interval
      rw [hrun s hs, hlevel]
    rw [times, times, hinterval, hrun s hs, ih (hstep s hs)]

end TimedPin

end Cxsw
