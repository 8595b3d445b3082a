import Mathlib.Data.List.Basic
import Mathlib.Data.BitVec
import Cxsw.Lib.Ring

/-!
# Cxsw.Lib.Layout — values of a fixed size in memory

A `Layout α` gives every value of `α` the same number of bytes and reads it back from them.  Integers are
little-endian (`Layout.le`); a record is the product of its fields, in order.

* `leNat_leBytes`: the bytes of a number give it back up to their width.
* `readAt_of_drop`: a value is read back where its bytes stand.
* `take_splice`: writing at the end of what has been written extends it.
-/

namespace Cxsw

/-- How the values of `α` stand in memory. -/
structure Layout (α : Type*) where
  size : ℕ
  enc : α → List UInt8
  dec : List UInt8 → α
  enc_length : ∀ a, (enc a).length = size
  dec_enc : ∀ a, dec (enc a) = a

/-! ## Integers -/

/-- The `k` low bytes of a number, the lowest first. -/
def leBytes : ℕ → ℕ → List UInt8
  | 0, _ => []
  | k + 1, n => UInt8.ofNat n :: leBytes k (n / 256)

/-- The number that bytes give, the lowest first. -/
def leNat : List UInt8 → ℕ
  | [] => 0
  | b :: bs => b.toNat + 256 * leNat bs

theorem leBytes_length (k n : ℕ) : (leBytes k n).length = k := by
  induction k generalizing n with
  | zero => rfl
  | succ k ih => rw [leBytes, List.length_cons, ih]

theorem leNat_leBytes (k n : ℕ) : leNat (leBytes k n) = n % 2 ^ (8 * k) := by
  induction k generalizing n with
  | zero => simp [leBytes, leNat, Nat.mod_one]
  | succ k ih =>
    have hb : (UInt8.ofNat n).toNat = n % 256 := UInt8.toNat_ofNat'
    have hp : 2 ^ (8 * (k + 1)) = 256 * 2 ^ (8 * k) := by
      rw [Nat.mul_succ, Nat.pow_add, Nat.mul_comm]
    rw [leBytes, leNat, ih, hb, hp, Nat.mod_mul]

namespace Layout

variable {α β : Type*}

/-- A little-endian integer of `k` bytes. -/
def le (k : ℕ) : Layout (BitVec (8 * k)) where
  size := k
  enc v := leBytes k v.toNat
  dec bs := BitVec.ofNat _ (leNat bs)
  enc_length v := leBytes_length k v.toNat
  dec_enc v := by
    rw [leNat_leBytes, Nat.mod_eq_of_lt v.isLt, BitVec.ofNat_toNat, BitVec.setWidth_eq]

/-- An array of bytes. -/
def bytes (n : ℕ) : Layout (Fin n → UInt8) where
  size := n
  enc v := List.ofFn v
  dec bs i := bs.getD i 0
  enc_length v := List.length_ofFn
  dec_enc v := by
    ext i
    simp [List.getD_eq_getElem?_getD]

/-- Two values, one after the other. -/
def prod (l : Layout α) (m : Layout β) : Layout (α × β) where
  size := l.size + m.size
  enc p := l.enc p.1 ++ m.enc p.2
  dec bs := (l.dec (bs.take l.size), m.dec (bs.drop l.size))
  enc_length p := by rw [List.length_append, l.enc_length, m.enc_length]
  dec_enc p := by
    show (_, _) = p
    rw [List.take_left' (l.enc_length p.1), List.drop_left' (l.enc_length p.1), l.dec_enc, m.dec_enc]

/-- The layout of a record, from that of its fields. -/
def record (l : Layout α) (mk : α → β) (fields : β → α) (h : ∀ b, mk (fields b) = b) : Layout β where
  size := l.size
  enc b := l.enc (fields b)
  dec bs := mk (l.dec bs)
  enc_length b := l.enc_length (fields b)
  dec_enc b := by rw [l.dec_enc, h]

/-- The value that stands at `pos`. -/
def readAt (l : Layout α) (buf : List UInt8) (pos : ℕ) : α := l.dec ((buf.drop pos).take l.size)

theorem readAt_of_drop (l : Layout α) {a : α} {buf post : List UInt8} {pos : ℕ} (h : buf.drop pos = l.enc a ++ post) :
    l.readAt buf pos = a := by
  unfold readAt
  rw [h, List.take_left' (l.enc_length a), l.dec_enc]

end Layout

namespace Ring

/-- Writing behind what has been written extends it. -/
theorem take_splice {α : Type*} {cells data : List α} {off : ℕ} (h : off ≤ cells.length) :
    (splice cells off data).take (off + data.length) = cells.take off ++ data := by
  unfold splice
  rw [List.take_left' (by rw [List.length_append, List.length_take_of_le h])]

end Ring

end Cxsw
