import Mathlib.Data.UInt
import Cxsw.Lib.CString
import Cxsw.Lib.Vlq

/-!
# Cxsw.Chelper.Vlq — integers on the wire (`klippy/chelper/msgblock.c`, `src/command.c`, `klippy/msgproto.py`)

`encode_int` and `parse_int` stand in the same words in the host's library and in the firmware; `PT_uint32` is the
version of the host's Python code, and `PT_int32` is the same type with `signed` set.

A pointer into a message is the bytes from there on.  A read past the end has no result.

* `encodeInt`, `parseInt`, `PT.encode`, `PT.parse`: the code.
* `encodeInt_eq`, `PT.encode_eq`, `parseInt_eq`, `PT.parse_eq`: the same as numbers in groups of seven bits.
* `vlq_round_trip`: every integer comes back, in each direction; except that the firmware's numbers below `-2^26` are
  parsed by `PT_int32` as `2^32` too large.
-/

namespace Cxsw.Link

/-! ## The code -/

section Defs

/-- `sv`: the same bits as an `int32_t`. -/
def int32 (v : UInt32) : ℤ := v.toBitVec.toInt

/-- `encode_int`. -/
def encodeInt (v : UInt32) : List UInt8 :=
  let sv := int32 v
  let f4 := [(v &&& 0x7f).toUInt8]
  let f3 := (((v >>> 7) &&& 0x7f) ||| 0x80).toUInt8 :: f4
  let f2 := (((v >>> 14) &&& 0x7f) ||| 0x80).toUInt8 :: f3
  let f1 := (((v >>> 21) &&& 0x7f) ||| 0x80).toUInt8 :: f2
  if sv < 3 * 2 ^ 5 ∧ sv ≥ -2 ^ 5 then f4
  else if sv < 3 * 2 ^ 12 ∧ sv ≥ -2 ^ 12 then f3
  else if sv < 3 * 2 ^ 19 ∧ sv ≥ -2 ^ 19 then f2
  else if sv < 3 * 2 ^ 26 ∧ sv ≥ -2 ^ 26 then f1
  else ((v >>> 28) ||| 0x80).toUInt8 :: f1

/-- The loop of `parse_int`, behind the byte `c`. -/
def parseLoop (v : UInt32) (c : UInt8) : List UInt8 → Option (UInt32 × List UInt8)
  | [] => if c &&& 0x80 ≠ 0 then none else some (v, [])
  | d :: p => if c &&& 0x80 ≠ 0 then parseLoop ((v <<< 7) ||| (d &&& 0x7f).toUInt32) d p else some (v, d :: p)

/-- `parse_int`: the value, and the pointer behind it. -/
def parseInt : List UInt8 → Option (UInt32 × List UInt8)
  | [] => none
  | c :: p =>
    let v := (c &&& 0x7f).toUInt32
    parseLoop (if c &&& 0x60 = 0x60 then v ||| -0x20 else v) c p

namespace PT

/-- `PT_uint32.encode`, on Python's integers. -/
def encode (v : ℤ) : List UInt8 :=
  let byte (k : ℕ) (mark : ℕ) : UInt8 := UInt8.ofNat ((v / 2 ^ k % 128).toNat ||| mark)
  (if v ≥ 0xc000000 ∨ v < -0x4000000 then [byte 28 0x80] else []) ++
  (if v ≥ 0x180000 ∨ v < -0x80000 then [byte 21 0x80] else []) ++
  (if v ≥ 0x3000 ∨ v < -0x1000 then [byte 14 0x80] else []) ++
  (if v ≥ 0x60 ∨ v < -0x20 then [byte 7 0x80] else []) ++ [byte 0 0]

/-- The loop of `PT_uint32.parse`, behind the byte `c`.  `v << 7` has room for the seven bits of the next byte. -/
def parseLoop (v : ℤ) (c : UInt8) : List UInt8 → Option (ℤ × List UInt8)
  | [] => if c &&& 0x80 ≠ 0 then none else some (v, [])
  | d :: p => if c &&& 0x80 ≠ 0 then parseLoop (v * 2 ^ 7 + (d &&& 0x7f).toNat) d p else some (v, d :: p)

/-- `PT_uint32.parse`; `v |= -0x20` sets all bits from the sixth on, two of which are set. -/
def parse (signed : Bool) : List UInt8 → Option (ℤ × List UInt8)
  | [] => none
  | c :: p =>
    let v : ℤ := (c &&& 0x7f).toNat
    (parseLoop (if c &&& 0x60 = 0x60 then v - 0x60 + -0x20 else v) c p).map fun r =>
      (if signed then r.1 else r.1 % 2 ^ 32, r.2)

end PT

end Defs

/-! ## Bits -/

section Bits

theorem and_80_ne_zero : ∀ c : UInt8, c &&& 0x80 ≠ 0 ↔ 128 ≤ c.toNat := CString.forall_uint8 (by decide +kernel)

theorem and_60_eq : ∀ c : UInt8, c &&& 0x60 = 0x60 ↔ 96 ≤ c.toNat % 128 := CString.forall_uint8 (by decide +kernel)

theorem toNat_and_7f (c : UInt8) : (c &&& 0x7f).toNat = c.toNat % 128 := by
  rw [UInt8.toNat_and]
  exact Nat.and_two_pow_sub_one_eq_mod c.toNat 7

theorem or_80 {x : ℕ} (h : x < 128) : x ||| 128 = x + 128 := by
  have h7 : 2 ^ 7 * 1 + x = 2 ^ 7 * 1 ||| x := Nat.two_pow_add_eq_or_of_lt h 1
  calc x ||| 128 = 2 ^ 7 * 1 ||| x := Nat.or_comm _ _
    _ = 2 ^ 7 * 1 + x := h7.symm
    _ = x + 128 := by omega

/-- A group of seven bits with the mark. -/
theorem marked_eq (v : UInt32) {s : UInt32} (hs : s.toNat < 32) :
    (((v >>> s) &&& 0x7f) ||| 0x80).toUInt8 = UInt8.ofNat (v.toNat / 2 ^ s.toNat % 128 + 128) := by
  apply UInt8.toNat_inj.mp
  have hlt : v.toNat / 2 ^ s.toNat % 128 < 128 := Nat.mod_lt _ (by decide)
  have hand : ((v >>> s) &&& 0x7f).toNat = v.toNat / 2 ^ s.toNat % 128 := by
    rw [UInt32.toNat_and, UInt32.toNat_shiftRight, Nat.mod_eq_of_lt hs, Nat.shiftRight_eq_div_pow]
    exact Nat.and_two_pow_sub_one_eq_mod _ 7
  rw [UInt32.toNat_toUInt8, UInt32.toNat_or, hand, UInt8.toNat_ofNat']
  rw [show (0x80 : UInt32).toNat = 128 from rfl, or_80 hlt]

/-- Seven bits below those of `v`. -/
theorem shiftLeft_or (v : UInt32) {w : UInt32} (hw : w.toNat < 128) : (v <<< 7) ||| w = v * 128 + w := by
  have hv := v.toNat_lt
  have h7 : 2 ^ 7 * (v.toNat % 2 ^ 25) + w.toNat = 2 ^ 7 * (v.toNat % 2 ^ 25) ||| w.toNat :=
    Nat.two_pow_add_eq_or_of_lt hw _
  have hshift : (v <<< 7).toNat = 2 ^ 7 * (v.toNat % 2 ^ 25) := by
    rw [UInt32.toNat_shiftLeft, Nat.shiftLeft_eq]
    change v.toNat * 2 ^ 7 % 2 ^ 32 = _
    omega
  apply UInt32.toNat_inj.mp
  rw [UInt32.toNat_or, hshift, ← h7, UInt32.toNat_add, UInt32.toNat_mul]
  change _ = (v.toNat * 128 % 2 ^ 32 + w.toNat) % 2 ^ 32
  omega

theorem and_7f_toUInt32 : ∀ d : UInt8, (d &&& 0x7f).toUInt32 = UInt32.ofInt ((d.toNat : ℤ) % 128) :=
  CString.forall_uint8 (by decide +kernel)

/-- The value of the first group. -/
theorem first_group : ∀ c : UInt8,
    (if c &&& 0x60 = 0x60 then (c &&& 0x7f).toUInt32 ||| -0x20 else (c &&& 0x7f).toUInt32) =
      UInt32.ofInt (Vlq.signed c) :=
  CString.forall_uint8 (by decide +kernel)

theorem int32_cases (v : UInt32) :
    (v.toNat < 2 ^ 31 ∧ int32 v = v.toNat) ∨ (2 ^ 31 ≤ v.toNat ∧ int32 v = v.toNat - 2 ^ 32) := by
  have hv := v.toNat_lt
  unfold int32
  rw [BitVec.toInt_eq_toNat_cond]
  simp only [UInt32.toNat_toBitVec]
  split_ifs <;> omega

end Bits

/-! ## The code as groups of seven bits -/

section Groups

open Vlq

/-- How many groups are used besides the last one. -/
def width (z : ℤ) : ℕ :=
  if Fits 0 z then 0 else if Fits 1 z then 1 else if Fits 2 z then 2 else if Fits 3 z then 3 else 4

/-- What `encode_int` writes: five bytes hold the number without its sign. -/
def wireValue (v : UInt32) : ℤ := if Fits 3 (int32 v) then int32 v else v.toNat

theorem fits_width {z : ℤ} (h1 : -2 ^ 31 ≤ z) (h2 : z < 2 ^ 32) : Fits (width z) z := by
  unfold width
  split_ifs with h0 h1 h2 h3
  · exact h0
  · exact h1
  · exact h2
  · exact h3
  · constructor <;> norm_num <;> omega

theorem wireValue_range (v : UInt32) : -2 ^ 31 ≤ wireValue v ∧ wireValue v < 2 ^ 32 := by
  have hv := v.toNat_lt
  unfold wireValue
  rcases int32_cases v with h | h <;> split_ifs <;> omega

theorem ofInt_wireValue (v : UInt32) : UInt32.ofInt (wireValue v) = v := by
  have hv := v.toNat_lt
  apply UInt32.toNat_inj.mp
  unfold wireValue UInt32.ofInt
  rw [UInt32.toNat_ofNat']
  rcases int32_cases v with h | h <;> split_ifs <;> omega

theorem group_natCast (i n : ℕ) : group i (n : ℤ) = n / 128 ^ i % 128 := by
  unfold group
  norm_cast

/-- A group in the middle, as `encode_int` makes it. -/
theorem marked_group (v : UInt32) {s : UInt32} (i : ℕ) (hs : s.toNat < 32) (hi : s.toNat = 7 * i) :
    (((v >>> s) &&& 0x7f) ||| 0x80).toUInt8 = UInt8.ofNat (group i (v.toNat : ℤ) + 128) := by
  rw [marked_eq v hs, group_natCast, hi, pow_mul]
  norm_num

theorem last_group (v : UInt32) : (v &&& 0x7f).toUInt8 = UInt8.ofNat (group 0 (v.toNat : ℤ)) := by
  have hand : (v &&& 0x7f).toNat = v.toNat % 128 := by
    rw [UInt32.toNat_and]
    exact Nat.and_two_pow_sub_one_eq_mod _ 7
  apply UInt8.toNat_inj.mp
  rw [UInt32.toNat_toUInt8, hand, UInt8.toNat_ofNat', group_natCast]
  norm_num

theorem first_group_shift (v : UInt32) : ((v >>> 28) ||| 0x80 : UInt32) = ((v >>> 28) &&& 0x7f) ||| 0x80 := by
  have hv := v.toNat_lt
  congr 1
  apply UInt32.toNat_inj.mp
  rw [UInt32.toNat_and, UInt32.toNat_shiftRight, Nat.shiftRight_eq_div_pow]
  change v.toNat / 2 ^ 28 = (v.toNat / 2 ^ 28) &&& (2 ^ 7 - 1)
  rw [Nat.and_two_pow_sub_one_eq_mod]
  omega

/-- The groups below the fifth do not see the sign. -/
theorem write_int32 (v : UInt32) {k : ℕ} (hk : k ≤ 3) : write k (v.toNat : ℤ) = write k (int32 v) := by
  apply write_congr
  rcases int32_cases v with h | h
  · rw [h.2]
  · have hpow : (2 : ℤ) ^ 32 = 2 ^ (32 - 7 * (k + 1)) * 128 ^ (k + 1) := by
      rw [show (128 : ℤ) = 2 ^ 7 by norm_num, ← pow_mul, ← pow_add]
      congr 1
      omega
    rw [h.2, hpow, Int.sub_mul_emod_self_right]

theorem fits_zero (z : ℤ) : z < 3 * 2 ^ 5 ∧ z ≥ -2 ^ 5 ↔ Fits 0 z := by
  unfold Fits
  norm_num
  omega

theorem fits_one (z : ℤ) : z < 3 * 2 ^ 12 ∧ z ≥ -2 ^ 12 ↔ Fits 1 z := by
  unfold Fits
  norm_num
  omega

theorem fits_two (z : ℤ) : z < 3 * 2 ^ 19 ∧ z ≥ -2 ^ 19 ↔ Fits 2 z := by
  unfold Fits
  norm_num
  omega

theorem fits_three (z : ℤ) : z < 3 * 2 ^ 26 ∧ z ≥ -2 ^ 26 ↔ Fits 3 z := by
  unfold Fits
  norm_num
  omega

theorem fits_succ {k : ℕ} {z : ℤ} (h : Fits k z) : Fits (k + 1) z := by
  obtain ⟨h1, h2⟩ := h
  have hpos : (0 : ℤ) < 128 ^ k := by positivity
  rw [Fits, pow_succ]
  constructor <;> omega

theorem width_of_not_fits {z : ℤ} (h : ¬ Fits 3 z) : width z = 4 := by
  have h2 : ¬ Fits 2 z := mt fits_succ h
  have h1 : ¬ Fits 1 z := mt fits_succ h2
  have h0 : ¬ Fits 0 z := mt fits_succ h1
  unfold width
  rw [if_neg h0, if_neg h1, if_neg h2, if_neg h]

/-- **`encode_int` writes groups.** -/
theorem encodeInt_eq (v : UInt32) : encodeInt v = write (width (wireValue v)) (wireValue v) := by
  have hv := v.toNat_lt
  have h0 : [(v &&& 0x7f).toUInt8] = write 0 (v.toNat : ℤ) := by rw [last_group, write]
  have h1 : (((v >>> 7) &&& 0x7f) ||| 0x80).toUInt8 :: write 0 (v.toNat : ℤ) = write 1 (v.toNat : ℤ) := by
    rw [marked_group v 1 (by decide) rfl, ← write]
  have h2 : (((v >>> 14) &&& 0x7f) ||| 0x80).toUInt8 :: write 1 (v.toNat : ℤ) = write 2 (v.toNat : ℤ) := by
    rw [marked_group v 2 (by decide) rfl, ← write]
  have h3 : (((v >>> 21) &&& 0x7f) ||| 0x80).toUInt8 :: write 2 (v.toNat : ℤ) = write 3 (v.toNat : ℤ) := by
    rw [marked_group v 3 (by decide) rfl, ← write]
  have h4 : ((v >>> 28) ||| 0x80).toUInt8 :: write 3 (v.toNat : ℤ) = write 4 (v.toNat : ℤ) := by
    rw [first_group_shift, marked_group v 4 (by decide) rfl, ← write]
  unfold encodeInt
  simp only [h0, h1, h2, h3, h4, fits_zero, fits_one, fits_two, fits_three]
  unfold wireValue
  by_cases hf : Fits 3 (int32 v)
  · rw [if_pos hf, if_pos hf]
    unfold width
    split_ifs
    · exact write_int32 v (by decide)
    · exact write_int32 v (by decide)
    · exact write_int32 v (by decide)
    · exact write_int32 v (by decide)
  · have hf2 : ¬ Fits 2 (int32 v) := mt fits_succ hf
    have hf1 : ¬ Fits 1 (int32 v) := mt fits_succ hf2
    have hf0 : ¬ Fits 0 (int32 v) := mt fits_succ hf1
    rw [if_neg hf, if_neg hf, if_neg hf0, if_neg hf1, if_neg hf2, width_of_not_fits]
    -- the number is large without its sign as well
    rw [← fits_three] at hf ⊢
    rcases int32_cases v with h | h <;> omega

/-- The same in Python, for integers of any size. -/
theorem PT.encode_eq (z : ℤ) : PT.encode z = write (width z) z := by
  have hlast : UInt8.ofNat ((z / 2 ^ 0 % 128).toNat ||| 0) = UInt8.ofNat (group 0 z) := by
    rw [Nat.or_zero]
    rfl
  have hmark (i : ℕ) : UInt8.ofNat ((z / 2 ^ (7 * i) % 128).toNat ||| 0x80) = UInt8.ofNat (group i z + 128) := by
    have hg : (z / 2 ^ (7 * i) % 128).toNat = group i z := by
      rw [pow_mul]
      rfl
    rw [hg, or_80 (group_lt i z)]
  have h1 := hmark 1
  have h2 := hmark 2
  have h3 := hmark 3
  have h4 := hmark 4
  have c0 : z ≥ 0x60 ∨ z < -0x20 ↔ ¬ Fits 0 z := by
    rw [← fits_zero]
    omega
  have c1 : z ≥ 0x3000 ∨ z < -0x1000 ↔ ¬ Fits 1 z := by
    rw [← fits_one]
    omega
  have c2 : z ≥ 0x180000 ∨ z < -0x80000 ↔ ¬ Fits 2 z := by
    rw [← fits_two]
    omega
  have c3 : z ≥ 0xc000000 ∨ z < -0x4000000 ↔ ¬ Fits 3 z := by
    rw [← fits_three]
    omega
  unfold PT.encode
  simp only [c0, c1, c2, c3, hlast]
  norm_num only at h1 h2 h3 h4 ⊢
  rw [h1, h2, h3, h4]
  -- a number that fits into some groups fits into more
  unfold width
  split_ifs with f3 f2 f1 f0 f0 f1 f0 f0 f2 f1 f0 f0 f1 f0 f0 <;>
    first
      | rfl
      | exact absurd (fits_succ ‹Fits 0 z›) ‹¬ Fits 1 z›
      | exact absurd (fits_succ ‹Fits 1 z›) ‹¬ Fits 2 z›
      | exact absurd (fits_succ ‹Fits 2 z›) ‹¬ Fits 3 z›

theorem parseLoop_eq (z : ℤ) (c : UInt8) (p : List UInt8) :
    parseLoop (UInt32.ofInt z) c p =
      (if 128 ≤ c.toNat then readOn z p else some (z, p)).map fun r => (UInt32.ofInt r.1, r.2) := by
  induction p generalizing z c with
  | nil =>
    rw [parseLoop]
    by_cases hc : 128 ≤ c.toNat
    · rw [if_pos ((and_80_ne_zero c).mpr hc), if_pos hc]
      rfl
    · rw [if_neg (mt (and_80_ne_zero c).mp hc), if_neg hc]
      rfl
  | cons d p ih =>
    rw [parseLoop]
    by_cases hc : 128 ≤ c.toNat
    · have hlow : (d &&& 0x7f).toUInt32.toNat < 128 := by
        rw [UInt8.toNat_toUInt32, toNat_and_7f]
        exact Nat.mod_lt _ (by decide)
      rw [if_pos ((and_80_ne_zero c).mpr hc), if_pos hc, shiftLeft_or _ hlow, and_7f_toUInt32, readOn, ← ih]
      congr 1
      rw [UInt32.ofInt_add, UInt32.ofInt_mul]
      rfl
    · rw [if_neg (mt (and_80_ne_zero c).mp hc), if_neg hc]
      rfl

/-- **`parse_int` reads the groups**, modulo `2 ^ 32`. -/
theorem parseInt_eq (s : List UInt8) : parseInt s = (read s).map fun r => (UInt32.ofInt r.1, r.2) := by
  cases s with
  | nil => rfl
  | cons c p =>
    rw [parseInt, Vlq.read]
    simp only [first_group]
    exact parseLoop_eq _ c p

theorem PT.parseLoop_eq (z : ℤ) (c : UInt8) (p : List UInt8) :
    PT.parseLoop z c p = if 128 ≤ c.toNat then readOn z p else some (z, p) := by
  induction p generalizing z c with
  | nil =>
    rw [PT.parseLoop]
    by_cases hc : 128 ≤ c.toNat
    · rw [if_pos ((and_80_ne_zero c).mpr hc), if_pos hc, readOn]
    · rw [if_neg (mt (and_80_ne_zero c).mp hc), if_neg hc]
  | cons d p ih =>
    rw [PT.parseLoop]
    by_cases hc : 128 ≤ c.toNat
    · rw [if_pos ((and_80_ne_zero c).mpr hc), if_pos hc, readOn, ih, toNat_and_7f]
      norm_num
    · rw [if_neg (mt (and_80_ne_zero c).mp hc), if_neg hc]

theorem PT.parse_eq (signed : Bool) (s : List UInt8) :
    PT.parse signed s = (read s).map fun r => (if signed then r.1 else r.1 % 2 ^ 32, r.2) := by
  cases s with
  | nil => rfl
  | cons c p =>
    have hfirst : (if c &&& 0x60 = 0x60 then ((c &&& 0x7f).toNat : ℤ) - 0x60 + -0x20 else (c &&& 0x7f).toNat) =
        Vlq.signed c := by
      rw [toNat_and_7f]
      unfold Vlq.signed
      by_cases h : 96 ≤ c.toNat % 128
      · rw [if_pos ((and_60_eq c).mpr h), if_pos h]
        omega
      · rw [if_neg (mt (and_60_eq c).mp h), if_neg h]
        omega
    rw [PT.parse, Vlq.read]
    simp only [hfirst, PT.parseLoop_eq]

end Groups

/-! ## Round trips -/

section RoundTrips

variable {z : ℤ}

/-- What Python gets for a number of the firmware. -/
def PT.received (signed : Bool) (v : UInt32) : ℤ :=
  if signed then if int32 v < -2 ^ 26 then int32 v + 2 ^ 32 else int32 v else v.toNat

theorem width_le (z : ℤ) : width z ≤ 4 := by
  unfold width
  split_ifs <;> decide

theorem width_le_one (h : Vlq.Fits 1 z) : width z ≤ 1 := by
  unfold width
  rw [if_pos h]
  split_ifs <;> decide

theorem width_le_two (h : Vlq.Fits 2 z) : width z ≤ 2 := by
  unfold width
  rw [if_pos h]
  split_ifs <;> decide

theorem length_encodeInt (v : UInt32) : (encodeInt v).length = width (wireValue v) + 1 := by
  rw [encodeInt_eq, Vlq.length_write]

theorem PT.length_encode (z : ℤ) : (PT.encode z).length = width z + 1 := by
  rw [PT.encode_eq, Vlq.length_write]

/-- From Python to the firmware. -/
theorem parseInt_encode (h1 : -2 ^ 31 ≤ z) (h2 : z < 2 ^ 32) (rest : List UInt8) :
    parseInt (PT.encode z ++ rest) = some (UInt32.ofInt z, rest) := by
  rw [parseInt_eq, PT.encode_eq, Vlq.read_write (fits_width h1 h2)]
  rfl

/-- From the firmware to Python. -/
theorem PT.parse_encodeInt (signed : Bool) (v : UInt32) (rest : List UInt8) :
    PT.parse signed (encodeInt v ++ rest) = some (PT.received signed v, rest) := by
  have hv := v.toNat_lt
  obtain ⟨h1, h2⟩ := wireValue_range v
  rw [PT.parse_eq, encodeInt_eq, Vlq.read_write (fits_width h1 h2)]
  have hmod : wireValue v % 2 ^ 32 = v.toNat := by
    unfold wireValue
    rcases int32_cases v with h | h <;> split_ifs <;> omega
  have hsigned : wireValue v = if int32 v < -2 ^ 26 then int32 v + 2 ^ 32 else int32 v := by
    unfold wireValue
    simp only [← fits_three]
    rcases int32_cases v with h | h <;> split_ifs <;> omega
  cases signed with
  | false => simp only [PT.received, Option.map_some, Bool.false_eq_true, if_false, hmod]
  | true => simp [PT.received, hsigned]

/-- **Every integer comes back**, whatever follows it: from the library or the firmware to either of them, and to Python
as an unsigned one; from Python to the firmware.  As a signed one Python gets a number of the firmware below `-2^26` as
`2^32` too large, since its five bytes hold no sign.  An integer takes one to five bytes. -/
theorem vlq_round_trip (rest : List UInt8) :
    (∀ v : UInt32, parseInt (encodeInt v ++ rest) = some (v, rest) ∧
      PT.parse false (encodeInt v ++ rest) = some ((v.toNat : ℤ), rest) ∧
      PT.parse true (encodeInt v ++ rest) = some (if int32 v < -2 ^ 26 then int32 v + 2 ^ 32 else int32 v, rest) ∧
      1 ≤ (encodeInt v).length ∧ (encodeInt v).length ≤ 5) ∧
    ∀ z : ℤ, -2 ^ 31 ≤ z → z < 2 ^ 32 →
      parseInt (PT.encode z ++ rest) = some (UInt32.ofInt z, rest) ∧
        PT.parse true (PT.encode z ++ rest) = some (z, rest) ∧
      1 ≤ (PT.encode z).length ∧ (PT.encode z).length ≤ 5 := by
  constructor
  · intro v
    have hlen := length_encodeInt v
    have hle := width_le (wireValue v)
    refine ⟨?_, PT.parse_encodeInt false v rest, PT.parse_encodeInt true v rest, by omega, by omega⟩
    obtain ⟨h1, h2⟩ := wireValue_range v
    rw [parseInt_eq, encodeInt_eq, Vlq.read_write (fits_width h1 h2), Option.map_some, ofInt_wireValue]
  · intro z h1 h2
    have hlen := PT.length_encode z
    have hle := width_le z
    refine ⟨parseInt_encode h1 h2 rest, ?_, by omega, by omega⟩
    rw [PT.parse_eq, PT.encode_eq, Vlq.read_write (fits_width h1 h2)]
    rfl

end RoundTrips

end Cxsw.Link
