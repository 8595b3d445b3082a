import Mathlib.Data.List.Rotate

/-!
# Cxsw.Lib.Ring — cyclic windows of a list

A cyclic buffer of `B` cells is a list of length `B`; `window cells a n` is the `n` cells met from index `a` on,
wrapping at the end.  Writing after the window extends it (`window_ringWrite`), reading from its start is a
prefix of it (`ringRead_eq_window`, `window_take`, `window_drop`).  Both copies come in the two pieces a C ring
uses: up to the end of the buffer and, when the block wraps, the rest from the start.
-/

namespace Cxsw.Ring

variable {α : Type*}

/-- The `n` cells from index `a`, cyclically. -/
def window (cells : List α) (a n : ℕ) : List α := (cells.rotate a).take n

/-- Overwrite the cells from `off` on by `data`. -/
def splice (cells : List α) (off : ℕ) (data : List α) : List α :=
  cells.take off ++ data ++ cells.drop (off + data.length)

/-- Write `data` from index `w` on, wrapping at the end. -/
def ringWrite (cells : List α) (w : ℕ) (data : List α) : List α :=
  if w + data.length ≤ cells.length then splice cells w data
  else splice (splice cells w (data.take (cells.length - w))) 0 (data.drop (cells.length - w))

/-- Read `n` cells from index `a` on, wrapping at the end. -/
def ringRead (cells : List α) (a n : ℕ) : List α :=
  if a + n ≤ cells.length then (cells.drop a).take n
  else (cells.drop a).take (cells.length - a) ++ cells.take (a + n - cells.length)

@[simp] theorem window_length (cells : List α) (a n : ℕ) :
    (window cells a n).length = min n cells.length := by
  simp [window]

@[simp] theorem window_zero (cells : List α) (a : ℕ) : window cells a 0 = [] := by
  simp [window]

@[simp] theorem splice_nil (cells : List α) (off : ℕ) : splice cells off [] = cells := by
  simp [splice]

theorem splice_length {cells data : List α} {off : ℕ} (h : off + data.length ≤ cells.length) :
    (splice cells off data).length = cells.length := by
  simp [splice]
  omega

theorem getElem?_splice {cells data : List α} {off : ℕ} (h : off + data.length ≤ cells.length) (i : ℕ) :
    (splice cells off data)[i]? =
      if i < off then cells[i]? else if i < off + data.length then data[i - off]? else cells[i]? := by
  have hoff : (cells.take off).length = off := by simp; omega
  unfold splice
  rcases Nat.lt_or_ge i off with h1 | h1
  · rw [if_pos h1, List.append_assoc, List.getElem?_append_left (by omega), List.getElem?_take_of_lt h1]
  · rw [if_neg (by omega), List.append_assoc, List.getElem?_append_right (by omega), hoff]
    rcases Nat.lt_or_ge i (off + data.length) with h2 | h2
    · rw [if_pos h2, List.getElem?_append_left (by omega)]
    · rw [if_neg (by omega), List.getElem?_append_right (by omega), List.getElem?_drop]
      congr 1
      omega

theorem splice_set {cells : List α} {off : ℕ} (h : off < cells.length) (b : α) (data : List α) :
    splice (cells.set off b) (off + 1) data = splice cells off (b :: data) := by
  have htake : (cells.set off b).take (off + 1) = cells.take off ++ [b] := by
    rw [List.set_eq_take_append_cons_drop, if_pos h, List.take_append, List.length_take_of_le h.le,
      Nat.add_sub_cancel_left, List.take_take, Nat.min_eq_right (Nat.le_succ off)]
    rfl
  have hdrop : (cells.set off b).drop (off + 1 + data.length) = cells.drop (off + (data.length + 1)) := by
    rw [List.drop_set_of_lt (by omega), Nat.add_right_comm, Nat.add_assoc]
  unfold splice
  rw [htake, hdrop, List.append_assoc (cells.take off), List.length_cons]
  rfl

theorem ringWrite_length {cells data : List α} {w : ℕ} (hw : w ≤ cells.length)
    (hd : data.length ≤ cells.length) : (ringWrite cells w data).length = cells.length := by
  unfold ringWrite
  split_ifs with h
  · exact splice_length h
  · have h1 : (splice cells w (data.take (cells.length - w))).length = cells.length :=
      splice_length (by simp; omega)
    rw [splice_length (by rw [h1]; simp; omega), h1]

/-- A cell of the written buffer, by its distance from the write index. -/
theorem getElem?_ringWrite {cells data : List α} {w i : ℕ} (hw : w < cells.length) (hi : i < cells.length)
    (hd : data.length ≤ cells.length) :
    (ringWrite cells w data)[i]? =
      if w ≤ i ∧ i < w + data.length then data[i - w]?
      else if i + cells.length < w + data.length then data[i + cells.length - w]?
      else cells[i]? := by
  unfold ringWrite
  split_ifs with h h1 h2 h3 h4
  · rw [getElem?_splice h, if_neg (by omega), if_pos h1.2]
  · omega
  · rw [getElem?_splice h]
    split_ifs <;> first | rfl | omega
  all_goals
    have hs : w + (data.take (cells.length - w)).length ≤ cells.length := by simp; omega
    have hl := splice_length hs
    rw [getElem?_splice (by rw [hl]; simp; omega), if_neg (by omega)]
  · rw [if_neg (by simp; omega), getElem?_splice hs, if_neg (by omega), if_pos (by simp; omega),
      List.getElem?_take_of_lt (by omega)]
  · rw [if_pos (by simp; omega), List.getElem?_drop]
    congr 1
    omega
  · rw [if_neg (by simp; omega), getElem?_splice hs, if_pos (by omega)]

theorem getElem?_window {cells : List α} {a n k : ℕ} (ha : a < cells.length) (hk : k < n)
    (hn : n ≤ cells.length) :
    (window cells a n)[k]? =
      if a + k < cells.length then cells[a + k]? else cells[a + k - cells.length]? := by
  unfold window
  rw [List.getElem?_take_of_lt hk, List.getElem?_rotate (by omega)]
  split_ifs with h
  · rw [Nat.mod_eq_of_lt (by omega), Nat.add_comm]
  · rw [Nat.mod_eq_sub_mod (by omega), Nat.mod_eq_of_lt (by omega), Nat.add_comm]

theorem window_take (cells : List α) (a : ℕ) {m n : ℕ} (h : m ≤ n) :
    (window cells a n).take m = window cells a m := by
  simp [window, List.take_take, Nat.min_eq_left h]

/-- Dropping the first `m` cells of a window moves its start. -/
theorem window_drop {cells : List α} {a m n : ℕ} (ha : a < cells.length) (hm : m ≤ n)
    (hn : n ≤ cells.length) :
    (window cells a n).drop m =
      window cells (if a + m < cells.length then a + m else a + m - cells.length) (n - m) := by
  have hlen : (window cells a n).length = n := by simp [hn]
  refine List.ext_getElem? fun k => ?_
  rw [List.getElem?_drop]
  rcases Nat.lt_or_ge k (n - m) with hk | hk
  · rw [getElem?_window ha (by omega) hn, getElem?_window (by split_ifs <;> omega) hk (by omega)]
    split_ifs <;> first | omega | (congr 1; omega)
  · rw [List.getElem?_eq_none (by omega), List.getElem?_eq_none (by simp; omega)]

/-- The two-piece read returns the window. -/
theorem ringRead_eq_window {cells : List α} {a n : ℕ} (ha : a < cells.length) (hn : n ≤ cells.length) :
    ringRead cells a n = window cells a n := by
  unfold ringRead window
  rw [List.rotate_eq_drop_append_take (by omega), List.take_append]
  have hlen : (cells.drop a).length = cells.length - a := by simp
  split_ifs with h
  · have hz : n - (cells.drop a).length = 0 := by omega
    rw [hz, List.take_zero, List.append_nil]
  · have h1 : (cells.drop a).take (cells.length - a) = (cells.drop a).take n := by
      rw [List.take_of_length_le (by rw [hlen]), List.take_of_length_le (by rw [hlen]; omega)]
    have h2 : min (n - (cells.length - a)) a = a + n - cells.length := by omega
    rw [h1, hlen, List.take_take, h2]

/-- **Writing after the window extends it.** -/
theorem window_ringWrite {cells d : List α} {a n w : ℕ} (ha : a < cells.length)
    (hfit : n + d.length ≤ cells.length)
    (hw : w = if a + n < cells.length then a + n else a + n - cells.length) :
    window (ringWrite cells w d) a (n + d.length) = window cells a n ++ d := by
  have hwl : w < cells.length := by rw [hw]; split_ifs <;> omega
  have hlen : (ringWrite cells w d).length = cells.length := ringWrite_length (by omega) (by omega)
  have hwin : (window cells a n).length = n := by simp; omega
  refine List.ext_getElem? fun k => ?_
  rcases Nat.lt_or_ge k (n + d.length) with hk | hk
  · rw [getElem?_window (by omega) hk (by omega), hlen]
    rcases Nat.lt_or_ge k n with hkn | hkn
    · -- a cell of the old window: it is not one of the written cells
      rw [List.getElem?_append_left (by omega), getElem?_window ha hkn (by omega)]
      split_ifs at hw ⊢ <;>
        (rw [getElem?_ringWrite hwl (by omega) (by omega), if_neg (by omega), if_neg (by omega)])
    · -- a written cell
      rw [List.getElem?_append_right (by omega), hwin]
      split_ifs at hw ⊢ with h1 h2
      · rw [getElem?_ringWrite hwl (by omega) (by omega), if_pos (by omega)]
        congr 1
        omega
      · omega
      · rw [getElem?_ringWrite hwl (by omega) (by omega), if_neg (by omega), if_pos (by omega)]
        congr 1
        omega
      · rw [getElem?_ringWrite hwl (by omega) (by omega), if_pos (by omega)]
        congr 1
        omega
  · rw [List.getElem?_eq_none (by simp; omega), List.getElem?_eq_none (by simp; omega)]

/-! ## Single cells -/

theorem ringWrite_singleton {cells : List α} {w : ℕ} (hw : w < cells.length) (x : α) :
    ringWrite cells w [x] = cells.set w x := by
  unfold ringWrite splice
  rw [if_pos (show w + [x].length ≤ cells.length from hw), List.set_eq_take_append_cons_drop, if_pos hw,
    List.append_assoc, List.singleton_append, List.length_singleton]

/-- Storing behind a window extends it. -/
theorem window_set_end {cells : List α} {a n w : ℕ} (ha : a < cells.length) (hn : n < cells.length)
    (hw : w = if a + n < cells.length then a + n else a + n - cells.length) (x : α) :
    window (cells.set w x) a (n + 1) = window cells a n ++ [x] := by
  have hwl : w < cells.length := by rw [hw]; split_ifs <;> omega
  rw [← ringWrite_singleton hwl]
  exact window_ringWrite ha (show n + [x].length ≤ cells.length from hn) hw

/-- A window is its first cell and the window behind it. -/
theorem window_succ {cells : List α} {a n : ℕ} (ha : a < cells.length) (hn : n < cells.length) :
    window cells a (n + 1) =
      cells[a] :: window cells (if a + 1 < cells.length then a + 1 else a + 1 - cells.length) n := by
  have hdrop := window_drop ha (show 1 ≤ n + 1 by omega) (show n + 1 ≤ cells.length by omega)
  have hhead : (window cells a (n + 1))[0]? = some cells[a] := by
    rw [getElem?_window ha (by omega) (by omega), if_pos (by omega), Nat.add_zero, List.getElem?_eq_getElem ha]
  cases hw : window cells a (n + 1) with
  | nil =>
    rw [hw] at hhead
    simp at hhead
  | cons x xs =>
    rw [hw] at hdrop hhead
    rw [List.drop_one, List.tail_cons, Nat.add_sub_cancel] at hdrop
    rw [List.getElem?_cons_zero] at hhead
    rw [hdrop, Option.some.inj hhead]

/-- Storing before a window leaves it. -/
theorem window_set_start {cells : List α} {a n : ℕ} (ha : a < cells.length) (hn : n < cells.length) (x : α) :
    window (cells.set a x) (if a + 1 < cells.length then a + 1 else a + 1 - cells.length) n =
      window cells (if a + 1 < cells.length then a + 1 else a + 1 - cells.length) n := by
  refine List.ext_getElem? fun k => ?_
  rcases Nat.lt_or_ge k n with hk | hk
  · have hlen : (cells.set a x).length = cells.length := List.length_set
    have hb : (if a + 1 < cells.length then a + 1 else a + 1 - cells.length) < cells.length := by split_ifs <;> omega
    rw [getElem?_window (by rw [hlen]; exact hb) hk (by omega), getElem?_window hb hk (by omega), hlen]
    split_ifs <;> exact List.getElem?_set_ne (by omega)
  · rw [List.getElem?_eq_none (by simp; omega), List.getElem?_eq_none (by simp; omega)]

end Cxsw.Ring
