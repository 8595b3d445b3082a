import Cxsw.Lib.Ring

/-!
# Cxsw.Lib.Span — regions of a store

A `Span` is a block of cells of a list.  `SameOutside` says that two lists differ in the span only.  A write of data
that fit into the span, however much of it the store has room for (`writeAt`), changes nothing outside
(`Span.sameOutside_writeAt`), so what a disjoint span holds stays (`SameOutside.read_eq`); a write that fills the span
is read back (`Span.read_splice`).
-/

namespace Cxsw

open Cxsw.Ring

/-- Overwrite the cells from `off` on by `data`, as far as there are cells. -/
def writeAt {α : Type*} (xs : List α) (off : ℕ) (data : List α) : List α := splice xs off (data.take (xs.length - off))

theorem writeAt_of_room {α : Type*} {xs data : List α} {off : ℕ} (h : off + data.length ≤ xs.length) :
    writeAt xs off data = splice xs off data := by
  rw [writeAt, List.take_of_length_le (by omega)]

theorem writeAt_within {α : Type*} {xs a b c : List α} {off k : ℕ} (ha : off + a.length ≤ xs.length)
    (hb : b.length ≤ a.length) (hc : k + c.length ≤ a.length) :
    writeAt (writeAt (writeAt xs off a) off b) (off + k) c = splice (splice (splice xs off a) off b) (off + k) c := by
  have h1 : (splice xs off a).length = xs.length := splice_length ha
  have h2 : (splice (splice xs off a) off b).length = xs.length := by
    rw [splice_length (by omega), h1]
  rw [writeAt_of_room ha, writeAt_of_room (show off + b.length ≤ _ by omega),
    writeAt_of_room (show off + k + c.length ≤ _ by omega)]

/-- The `len` cells from `base` on. -/
structure Span where
  base : ℕ
  len : ℕ

namespace Span

variable {α : Type*} {s t : Span} {xs ys zs : List α}

/-- What the span holds. -/
def read (s : Span) (xs : List α) : List α := (xs.drop s.base).take s.len

/-- The span lies in a store of `n` cells. -/
def Inside (s : Span) (n : ℕ) : Prop := s.base + s.len ≤ n

/-- The spans have no cell in common, one being below the other. -/
def Apart (s t : Span) : Prop := s.base + s.len ≤ t.base ∨ t.base + t.len ≤ s.base

/-- The stores differ in the span only. -/
def SameOutside (s : Span) (xs ys : List α) : Prop :=
  xs.length = ys.length ∧ ∀ i, i < s.base ∨ s.base + s.len ≤ i → xs[i]? = ys[i]?

theorem SameOutside.refl (s : Span) (xs : List α) : s.SameOutside xs xs := ⟨rfl, fun _ _ => rfl⟩

theorem SameOutside.trans (h1 : s.SameOutside xs ys) (h2 : s.SameOutside ys zs) : s.SameOutside xs zs :=
  ⟨h1.1.trans h2.1, fun i hi => (h1.2 i hi).trans (h2.2 i hi)⟩

theorem Apart.symm (h : s.Apart t) : t.Apart s := Or.symm h

theorem getElem?_read (s : Span) (xs : List α) (i : ℕ) :
    (s.read xs)[i]? = if i < s.len then xs[s.base + i]? else none := by
  unfold read
  by_cases hi : i < s.len
  · rw [if_pos hi, List.getElem?_take_of_lt hi, List.getElem?_drop]
  · rw [if_neg hi, List.getElem?_eq_none (by rw [List.length_take]; omega)]

/-- **What a span holds** is the same in stores that differ in another one only. -/
theorem SameOutside.read_eq (h : s.SameOutside xs ys) (ht : t.Apart s) : t.read xs = t.read ys := by
  apply List.ext_getElem?
  intro i
  rw [getElem?_read, getElem?_read]
  by_cases hi : i < t.len
  · rw [if_pos hi, if_pos hi]
    apply h.2
    unfold Apart at ht
    omega
  · rw [if_neg hi, if_neg hi]

/-- **A write into a span** changes nothing outside. -/
theorem sameOutside_writeAt {off : ℕ} {data : List α} (hlo : s.base ≤ off) (hhi : off + data.length ≤ s.base + s.len) :
    s.SameOutside (writeAt xs off data) xs := by
  unfold writeAt
  by_cases hoff : off ≤ xs.length
  · have hlen : off + (data.take (xs.length - off)).length ≤ xs.length := by
      rw [List.length_take]
      omega
    refine ⟨splice_length hlen, fun i hi => ?_⟩
    rw [getElem?_splice hlen]
    rw [List.length_take] at hlen ⊢
    split_ifs
    · rfl
    · omega
    · rfl
  · have hroom : xs.length - off = 0 := by omega
    rw [hroom, List.take_zero, splice_nil]
    exact SameOutside.refl s xs

/-- A write that fills the span is read back. -/
theorem read_splice {data : List α} (hin : s.Inside xs.length) (hlen : data.length = s.len) :
    s.read (splice xs s.base data) = data := by
  have hfits : s.base + data.length ≤ xs.length := by
    rw [hlen]
    exact hin
  apply List.ext_getElem?
  intro i
  rw [getElem?_read, getElem?_splice hfits]
  by_cases hi : i < s.len
  · rw [if_pos hi, if_neg (by omega), if_pos (by omega), Nat.add_sub_cancel_left]
  · rw [if_neg hi, List.getElem?_eq_none (by omega)]

end Span

end Cxsw
