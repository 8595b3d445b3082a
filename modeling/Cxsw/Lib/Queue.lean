import Mathlib.Data.List.Basic

/-!
# Cxsw.Lib.Queue — bounded FIFO queues

A queue of capacity `cap` is a list of at most `cap` elements, oldest first.  `push` and `pop` move a whole block
or nothing.
-/

namespace Cxsw

variable {α : Type*} {cap : ℕ}

/-- A FIFO queue of capacity `cap`, oldest element first. -/
abbrev BQueue (α : Type*) (cap : ℕ) : Type _ := { q : List α // q.length ≤ cap }

namespace BQueue

/-- The empty queue. -/
def empty (α : Type*) (cap : ℕ) : BQueue α cap := ⟨[], Nat.zero_le _⟩

/-- Append a block at the back; `none` when it does not fit. -/
def push (q : BQueue α cap) (xs : List α) : Option (BQueue α cap) :=
  if h : q.1.length + xs.length ≤ cap then some ⟨q.1 ++ xs, by simpa using h⟩ else none

theorem drop_length_le (q : BQueue α cap) (n : ℕ) : (q.1.drop n).length ≤ cap := by
  have h := q.2
  rw [List.length_drop]
  omega

/-- Take the `n` oldest elements; `none` when there are fewer. -/
def pop (q : BQueue α cap) (n : ℕ) : Option (List α × BQueue α cap) :=
  if n ≤ q.1.length then some (q.1.take n, ⟨q.1.drop n, q.drop_length_le n⟩) else none

theorem push_eq_none {q : BQueue α cap} {xs : List α} (h : cap < q.1.length + xs.length) :
    q.push xs = none := dif_neg (by omega)

theorem push_eq_some {q : BQueue α cap} {xs : List α} (h : q.1.length + xs.length ≤ cap) :
    q.push xs = some ⟨q.1 ++ xs, by simpa using h⟩ := dif_pos h

theorem pop_eq_none {q : BQueue α cap} {n : ℕ} (h : q.1.length < n) : q.pop n = none := if_neg (by omega)

theorem pop_eq_some {q : BQueue α cap} {n : ℕ} (h : n ≤ q.1.length) :
    q.pop n = some (q.1.take n, ⟨q.1.drop n, q.drop_length_le n⟩) := if_pos h

end BQueue

end Cxsw
