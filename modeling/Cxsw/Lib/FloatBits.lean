import Mathlib.Data.BitVec
import Mathlib.Data.Nat.Log
import Mathlib.Tactic.Linarith

/-!
# Cxsw.Lib.FloatBits — `float` and `unsigned short`, on the bits of an IEEE single

`floatOfU16` is exact.  `u16OfFloat` truncates toward zero; where the truncated value is no `unsigned short` the
conversion is undefined, and the parameter `ub` says what it gives there.

* `u16OfFloat_floatOfU16`: a whole number survives.
* `floatOfU16_u16OfFloat_iff`: nothing else does, whatever `ub` is.
-/

namespace Cxsw

/-- `(float)n`. -/
def floatOfU16 (n : BitVec 16) : BitVec 32 :=
  if n.toNat = 0 then 0
  else BitVec.ofNat 32 ((127 + n.toNat.log2) * 2 ^ 23 + (n.toNat - 2 ^ n.toNat.log2) * 2 ^ (23 - n.toNat.log2))

/-- `(U16)x`: the exponent is below 127 where `|x| < 1`, and below 143 where `|x| < 2 ^ 16`. -/
def u16OfFloat (ub : BitVec 32 → BitVec 16) (x : BitVec 32) : BitVec 16 :=
  let exponent := x.toNat / 2 ^ 23 % 256
  if exponent < 127 then 0
  else if exponent < 143 ∧ x.toNat < 2 ^ 31 then
    BitVec.ofNat 16 ((2 ^ 23 + x.toNat % 2 ^ 23) / 2 ^ (150 - exponent))
  else ub x

theorem floatOfU16_fields {n : BitVec 16} (h : n.toNat ≠ 0) :
    (floatOfU16 n).toNat / 2 ^ 23 = 127 + n.toNat.log2 ∧
      (floatOfU16 n).toNat % 2 ^ 23 = (n.toNat - 2 ^ n.toNat.log2) * 2 ^ (23 - n.toNat.log2) ∧
      n.toNat.log2 < 16 := by
  have hlog : n.toNat.log2 < 16 := (Nat.log2_lt h).mpr n.isLt
  have hlow : 2 ^ n.toNat.log2 ≤ n.toNat := Nat.log2_self_le h
  have hhigh : n.toNat < 2 ^ n.toNat.log2 * 2 := by
    rw [← Nat.pow_succ]
    exact Nat.lt_log2_self
  have hsplit : 2 ^ n.toNat.log2 * 2 ^ (23 - n.toNat.log2) = 2 ^ 23 := by
    rw [← Nat.pow_add]
    congr 1
    omega
  -- the mantissa fits its field
  have hm : (n.toNat - 2 ^ n.toNat.log2) * 2 ^ (23 - n.toNat.log2) < 2 ^ 23 := by
    rw [← hsplit]
    exact Nat.mul_lt_mul_of_pos_right (by omega) (Nat.two_pow_pos _)
  have hbits : (floatOfU16 n).toNat =
      (127 + n.toNat.log2) * 2 ^ 23 + (n.toNat - 2 ^ n.toNat.log2) * 2 ^ (23 - n.toNat.log2) := by
    unfold floatOfU16
    rw [if_neg h, BitVec.toNat_ofNat, Nat.mod_eq_of_lt (by omega)]
  rw [hbits]
  refine ⟨by omega, by omega, hlog⟩

/-- A whole number survives the conversion to `float` and back. -/
theorem u16OfFloat_floatOfU16 (ub : BitVec 32 → BitVec 16) (n : BitVec 16) : u16OfFloat ub (floatOfU16 n) = n := by
  by_cases h : n.toNat = 0
  · have h0 : n = 0 := BitVec.eq_of_toNat_eq h
    subst h0
    rfl
  · obtain ⟨hexp, hfrac, hlog⟩ := floatOfU16_fields h
    have hlow : 2 ^ n.toNat.log2 ≤ n.toNat := Nat.log2_self_le h
    have hsplit : 2 ^ 23 = 2 ^ n.toNat.log2 * 2 ^ (23 - n.toNat.log2) := by
      rw [← Nat.pow_add]
      congr 1
      omega
    have hshift : 150 - (127 + n.toNat.log2) = 23 - n.toNat.log2 := by omega
    unfold u16OfFloat
    dsimp only
    rw [hexp, hfrac, Nat.mod_eq_of_lt (by omega), if_neg (by omega), if_pos ⟨by omega, by omega⟩, hshift]
    conv_lhs => rw [hsplit]
    rw [← Nat.add_mul, Nat.mul_div_cancel _ (Nat.two_pow_pos _), Nat.add_sub_cancel' hlow, BitVec.ofNat_toNat,
      BitVec.setWidth_eq]

/-- **Only the whole numbers of the type survive** the conversion to `unsigned short` and back. -/
theorem floatOfU16_u16OfFloat_iff (ub : BitVec 32 → BitVec 16) (x : BitVec 32) :
    floatOfU16 (u16OfFloat ub x) = x ↔ ∃ n, x = floatOfU16 n := by
  constructor
  · intro h
    exact ⟨u16OfFloat ub x, h.symm⟩
  · rintro ⟨n, rfl⟩
    rw [u16OfFloat_floatOfU16]

end Cxsw
