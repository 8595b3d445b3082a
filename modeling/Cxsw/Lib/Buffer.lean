import Cxsw.Lib.CString
import Cxsw.Lib.Ring

/-!
# Cxsw.Lib.Buffer — fixed buffers

A buffer is the list of its bytes.  A write past its end has no result, and neither has looking for the end of a string
in a buffer without a zero.

* `store_eq_some_iff`, `strcpy_eq_some_iff`: when there is room.
* `str_splice_zero`: a zero written into a string cuts it off.
-/

namespace Cxsw.Buffer

open CString

/-- `memcpy(buff + off, bytes, n)`. -/
def store (buff : List UInt8) (off : ℕ) (bytes : List UInt8) : Option (List UInt8) :=
  if off + bytes.length ≤ buff.length then some (Ring.splice buff off bytes) else none

/-- The string in a buffer. -/
def load (buff : List UInt8) : Option (List UInt8) := if 0 ∈ buff then some (str buff) else none

/-- `strcpy(buff, s)`. -/
def strcpy (buff s : List UInt8) : Option (List UInt8) := store buff 0 (s ++ [0])

/-- A buffer of zeros. -/
def zeros (size : ℕ) : List UInt8 := List.replicate size 0

variable {buff bytes s t : List UInt8} {off : ℕ}

theorem length_zeros (size : ℕ) : (zeros size).length = size := List.length_replicate

theorem store_of_le (h : off + bytes.length ≤ buff.length) : store buff off bytes = some (Ring.splice buff off bytes) :=
  if_pos h

theorem store_eq_some_iff :
    store buff off bytes = some t ↔ off + bytes.length ≤ buff.length ∧ Ring.splice buff off bytes = t := by
  unfold store
  split_ifs with h
  · simp [h]
  · simp [h]

theorem load_of_mem (h : 0 ∈ buff) : load buff = some (str buff) := if_pos h

theorem strcpy_eq_some_iff :
    strcpy buff s = some t ↔ s.length < buff.length ∧ Ring.splice buff 0 (s ++ [0]) = t := by
  unfold strcpy
  rw [store_eq_some_iff, List.length_append, List.length_singleton, Nat.zero_add, Nat.succ_le_iff]

/-- A buffer with a zero is its string, the zero and the rest. -/
theorem exists_eq_str_append (h : 0 ∈ buff) : ∃ rest, buff = str buff ++ 0 :: rest := by
  induction buff with
  | nil => exact absurd h List.not_mem_nil
  | cons b buff ih =>
    by_cases hb : b = 0
    · exact ⟨buff, by simp [str, hb]⟩
    · obtain ⟨rest, hrest⟩ := ih ((List.mem_cons.mp h).resolve_left (Ne.symm hb))
      refine ⟨rest, ?_⟩
      have hstr : str (b :: buff) = b :: str buff := List.takeWhile_cons_of_pos (decide_eq_true hb)
      rw [hstr, List.cons_append, ← hrest]

/-- The string ends inside the buffer exactly if there is a zero. -/
theorem strlen_lt_iff : strlen buff < buff.length ↔ 0 ∈ buff := by
  constructor
  · intro h
    by_contra hno
    rw [← length_str, str_eq_self hno] at h
    exact lt_irrefl _ h
  · intro h
    obtain ⟨rest, hrest⟩ := exists_eq_str_append h
    have hlen := congrArg List.length hrest
    rw [List.length_append, List.length_cons, length_str] at hlen
    omega

theorem take_strlen (buff : List UInt8) : buff.take (strlen buff) = str buff :=
  (List.prefix_iff_eq_take.mp (List.takeWhile_prefix _)).symm

/-- One write after another, where the first ends. -/
theorem splice_splice (h : off + s.length ≤ buff.length) :
    Ring.splice (Ring.splice buff off s) (off + s.length) t = Ring.splice buff off (s ++ t) := by
  have hlen : (buff.take off ++ s).length = off + s.length := by
    rw [List.length_append, List.length_take_of_le (by omega)]
  unfold Ring.splice
  rw [← hlen, List.take_left, List.drop_append, List.drop_of_length_le (by omega), List.nil_append,
    Nat.add_sub_cancel_left, List.drop_drop, hlen]
  simp only [List.append_assoc, List.length_append, Nat.add_assoc]

theorem splice_singleton (h : off < buff.length) (b : UInt8) : Ring.splice buff off [b] = buff.set off b := by
  rw [← Ring.splice_set h, Ring.splice_nil]

theorem str_splice_str (hs : (0 : UInt8) ∉ s) (rest : List UInt8) :
    str (Ring.splice rest 0 (s ++ [0])) = s := by
  unfold Ring.splice
  rw [List.take_zero, List.nil_append, List.append_assoc, List.singleton_append]
  exact str_append_zero hs _

/-- A text at the start of a buffer of zeros. -/
theorem splice_zeros (size : ℕ) (s : List UInt8) : Ring.splice (zeros size) 0 s = s ++ zeros (size - s.length) := by
  simp [Ring.splice, zeros]

theorem str_append_of_mem (h : 0 ∈ s) (t : List UInt8) : str (s ++ t) = str s := by
  obtain ⟨rest, hrest⟩ := exists_eq_str_append h
  conv_lhs => rw [hrest, List.append_assoc, List.cons_append]
  exact str_append_zero (zero_not_mem_str s) _

/-- The string of a padded text is that of the text. -/
theorem str_padded (s : List UInt8) (n : ℕ) : str (s ++ zeros n) = str s := by
  by_cases h : 0 ∈ s
  · exact str_append_of_mem h _
  · rw [zeros, str_append_zeros h, str_eq_self h]

/-- A zero written into a string cuts it off. -/
theorem str_splice_zero (hoff : off ≤ strlen buff) :
    str (Ring.splice buff off [0]) = (str buff).take off := by
  have htake : buff.take off = (str buff).take off := by
    rw [← take_strlen, List.take_take, Nat.min_eq_left hoff]
  unfold Ring.splice
  rw [List.append_assoc, List.singleton_append, htake]
  refine str_append_zero (fun hz => ?_) _
  exact zero_not_mem_str buff (List.mem_of_mem_take hz)

end Cxsw.Buffer
