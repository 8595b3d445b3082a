import Mathlib

/-!
# Cxsw.Lib.Single — `float` and the integer types, on the bits of an IEEE single

The conversions are those of Lean's model of the format: to `float` they round to nearest, from `float` they truncate
toward zero.  Where C leaves the result open it is what the processor gives: the nearest value of the 32-bit type, and
0 for a NaN.

* `s32OfFloat_floatOfInt`: a whole number below `2 ^ 24` survives.
-/

namespace Cxsw

open Float.Model Float.Model.UnpackedFloat

/-- `(float)n`. -/
def floatOfInt (n : ℤ) : BitVec 32 := (Float32.Model.ofInt n).toBits.toBitVec

/-- `(S32)x`. -/
def s32OfFloat (x : BitVec 32) : BitVec 32 := (Float32.Model.ofBits ⟨x⟩).toInt32.toBitVec

/-- `(U32)x`. -/
def u32OfFloat (x : BitVec 32) : BitVec 32 := (Float32.Model.ofBits ⟨x⟩).toUInt32.toBitVec

/-- `(S16)x`, by way of an `S32`. -/
def s16OfFloat (x : BitVec 32) : BitVec 16 := (s32OfFloat x).setWidth 16

/-- `x + y`. -/
def floatAdd (x y : BitVec 32) : BitVec 32 := (Float32.ofBits ⟨x⟩ + Float32.ofBits ⟨y⟩).toBits.toBitVec

/-- `x - y`. -/
def floatSub (x y : BitVec 32) : BitVec 32 := (Float32.ofBits ⟨x⟩ - Float32.ofBits ⟨y⟩).toBits.toBitVec

/-- `x < y`. -/
def FloatLt (x y : BitVec 32) : Prop := Float32.ofBits ⟨x⟩ < Float32.ofBits ⟨y⟩

instance (x y : BitVec 32) : Decidable (FloatLt x y) := inferInstanceAs (Decidable (Float32.ofBits _ < _))

/-- The bits of a constant such as `0.1f`. -/
def floatConst (x : Float32) : BitVec 32 := x.toBits.toBitVec

/-! ## Whole numbers -/

section Whole

/-- The mantissa of a whole number below `2 ^ 24`, shifted to its 24 bits. -/
theorem shifted_bounds {m : ℕ} (h0 : 0 < m) (h24 : m < 2 ^ 24) :
    m.log2 ≤ 23 ∧ 2 ^ 23 ≤ m * 2 ^ (23 - m.log2) ∧ m * 2 ^ (23 - m.log2) < 2 ^ 24 := by
  have hlog : m.log2 < 24 := (Nat.log2_lt h0.ne').mpr h24
  have hlow : 2 ^ m.log2 ≤ m := Nat.log2_self_le h0.ne'
  have hhigh : m < 2 ^ (m.log2 + 1) := Nat.lt_log2_self
  refine ⟨by omega, ?_, ?_⟩
  · calc 2 ^ 23 = 2 ^ m.log2 * 2 ^ (23 - m.log2) := by rw [← Nat.pow_add]; congr 1; omega
      _ ≤ m * 2 ^ (23 - m.log2) := Nat.mul_le_mul_right _ hlow
  · calc m * 2 ^ (23 - m.log2) < 2 ^ (m.log2 + 1) * 2 ^ (23 - m.log2) :=
        Nat.mul_lt_mul_of_pos_right hhigh (Nat.two_pow_pos _)
      _ = 2 ^ 24 := by rw [← Nat.pow_add]; congr 1; omega

theorem log2_of_bounds {n : ℕ} (hlow : 2 ^ 23 ≤ n) (hhigh : n < 2 ^ 24) : n.log2 = 23 := by
  have h1 : n.log2 < 24 := (Nat.log2_lt (by omega)).mpr hhigh
  have h2 : ¬ n.log2 < 23 := by
    intro h
    have := (Nat.log2_lt (by omega)).mp h
    omega
  omega

theorem roundWithAccuracy_of_bounds (s : Sign) {n : ℕ} (hlow : 2 ^ 23 ≤ n) (hhigh : n < 2 ^ 24) {e : ℤ}
    (he : -149 ≤ e) : roundWithAccuracy Format.binary32 s n e .exact = .finite s n e (by omega) := by
  have hlog := log2_of_bounds hlow hhigh
  have hshift : shiftToTargetExponent Format.binary32 n e .exact = (⟨n, false, false⟩, e) := by
    have htarget : (Format.binary32.targetExponent (totalExponent n e) - e).toNat = 0 := by
      simp only [Format.targetExponent, totalExponent, Format.mantissaBits, Format.minExponent, hlog]
      omega
    simp only [shiftToTargetExponent, shiftToExponent, htarget]
    simp [HShiftRight.hShiftRight, Nat.repeat, ExtendedMantissa.ofMantissaAndAccuracy]
  simp only [roundWithAccuracy, hshift, ExtendedMantissa.roundedMantissa, ExtendedMantissa.accuracy,
    Accuracy.roundToNearestEven]
  rw [dif_neg (by omega)]

/-- A whole number, with its mantissa shifted to 24 bits. -/
theorem round_whole (s : Sign) {m : ℕ} (h0 : 0 < m) (h24 : m < 2 ^ 24) :
    round Format.binary32 s m 0 =
      .finite s (m * 2 ^ (23 - m.log2)) (-(23 - m.log2 : ℕ)) (Nat.mul_pos h0 (Nat.two_pow_pos _)) := by
  obtain ⟨hlog, hlow, hhigh⟩ := shifted_bounds h0 h24
  have hshift : (0 - Format.binary32.targetExponent (totalExponent m 0)).toNat = 23 - m.log2 := by
    simp only [Format.targetExponent, totalExponent, Format.mantissaBits, Format.minExponent]
    omega
  have hround : round Format.binary32 s m 0 =
      roundWithAccuracy Format.binary32 s (m <<< (0 - Format.binary32.targetExponent (totalExponent m 0)).toNat)
        (0 - ((0 - Format.binary32.targetExponent (totalExponent m 0)).toNat : ℤ)) .exact := rfl
  rw [hround, hshift, Nat.shiftLeft_eq, Int.zero_sub]
  exact roundWithAccuracy_of_bounds s hlow hhigh (by omega)

theorem unpackSign_packComponents {spec : Format} (s : Sign) (e : BitVec spec.exponentBits)
    (m : BitVec spec.mantissaBitsWithoutImplicit) : Sign.ofBitVec (unpackSign (packComponents spec s e m)) = s := by
  have hbit : unpackSign (packComponents spec s e m) = s.toBitVec := by
    apply BitVec.eq_of_getLsbD_eq
    intro i hi
    have hi0 : i = 0 := by omega
    subst hi0
    simp [unpackSign, packComponents, BitVec.getLsbD_append, BitVec.getElem_append]
  rw [hbit]
  cases s <;> rfl

theorem unpack_pack_of_bounds (s : Sign) {n : ℕ} (hlow : 2 ^ 23 ≤ n) (hhigh : n < 2 ^ 24) {e : ℤ} (he0 : -149 ≤ e)
    (he1 : e ≤ 0) :
    UnpackedFloat.unpack Format.binary32 (UnpackedFloat.pack Format.binary32 (.finite s n e (by omega))) =
      .finite s n e (by omega) := by
  obtain ⟨b, hb⟩ : ∃ b : ℕ, e = b - 150 := ⟨(e + 150).toNat, by omega⟩
  have hbias : (e + (Format.binary32.exponentBias : ℤ) + (23 : ℕ)).toNat = b := by
    simp only [Format.exponentBias]
    omega
  have hpack : UnpackedFloat.pack Format.binary32 (.finite s n e (by omega)) =
      packComponents Format.binary32 s (BitVec.ofNat 8 b) (BitVec.ofNat 23 n) := by
    simp only [UnpackedFloat.pack]
    rw [hbias, if_neg (by omega), if_pos (by rw [log2_of_bounds hlow hhigh]; rfl)]
  have hexp1 : BitVec.ofNat 8 b ≠ -1#8 := by
    intro h
    have hnat := congrArg BitVec.toNat h
    rw [BitVec.toNat_ofNat] at hnat
    have h255 : (-1#8).toNat = 255 := by decide
    omega
  have hexp0 : BitVec.ofNat 8 b ≠ 0#8 := by
    intro h
    have hnat := congrArg BitVec.toNat h
    rw [BitVec.toNat_ofNat, BitVec.toNat_ofNat] at hnat
    omega
  rw [hpack]
  simp only [UnpackedFloat.unpack, unpackExponent_packComponents, unpackMantissa_packComponents,
    unpackSign_packComponents]
  rw [if_neg hexp1, if_neg hexp0]
  have hmantissa : (1#1 ++ BitVec.ofNat 23 n).toNat = n := by
    have hadd : 2 ^ 23 + n % 2 ^ 23 = n := by omega
    rw [BitVec.toNat_append, BitVec.toNat_ofNat, BitVec.toNat_ofNat,
      ← Nat.shiftLeft_add_eq_or_of_lt (Nat.mod_lt n (by decide))]
    exact hadd
  have hexponent : ((BitVec.ofNat 8 b).toNat : ℤ) - (Format.binary32.exponentBias + 23) = e := by
    rw [BitVec.toNat_ofNat]
    simp only [Format.exponentBias]
    omega
  simp only [UnpackedFloat.finite.injEq, true_and]
  exact ⟨hmantissa, hexponent⟩

theorem mantissa_shiftRight (em : ExtendedMantissa) (k : ℕ) : (em >>> k).mantissa = em.mantissa / 2 ^ k := by
  simp only [HShiftRight.hShiftRight]
  induction k with
  | zero => simp [Nat.repeat]
  | succ k ih =>
    simp only [Nat.repeat, ExtendedMantissa.shiftRightOne]
    rw [ih, Nat.div_div_eq_div_mul, ← Nat.pow_succ]

theorem roundToInt_shifted (s : Sign) (m k : ℕ) : roundToInt s (m * 2 ^ k) (-k) = s.apply m := by
  have hdown : (-(k : ℤ)).toNat = 0 := by omega
  have hup : ((0 : ℤ) - (-k - (0 : ℕ))).toNat = k := by omega
  simp only [roundToInt, decreaseExponent, shiftToExponent, Int.sub_zero, hdown, hup, Nat.shiftLeft_zero,
    mantissa_shiftRight, ExtendedMantissa.ofMantissaAndAccuracy]
  rw [Nat.mul_div_cancel _ (Nat.two_pow_pos k)]

/-- What the bits of a whole number below `2 ^ 24` stand for. -/
theorem unpack_pack_round (s : Sign) {m : ℕ} (h0 : 0 < m) (h24 : m < 2 ^ 24) :
    UnpackedFloat.unpack Format.binary32 (UnpackedFloat.pack Format.binary32 (round Format.binary32 s m 0)) =
      round Format.binary32 s m 0 := by
  obtain ⟨hlog, hlow, hhigh⟩ := shifted_bounds h0 h24
  rw [round_whole s h0 h24]
  exact unpack_pack_of_bounds s hlow hhigh (by omega) (by omega)

theorem toInt_round (s : Sign) {m : ℕ} (h0 : 0 < m) (h24 : m < 2 ^ 24) (a b : ℤ) :
    (round Format.binary32 s m 0).toInt a b = s.apply m := by
  rw [round_whole s h0 h24]
  exact roundToInt_shifted s m (23 - m.log2)

/-- The float of a whole number below `2 ^ 24` stands for it, and is itself when packed again. -/
theorem ofInt_whole {z : ℤ} (hz : z.natAbs < 2 ^ 24) :
    UnpackedFloat.unpack Format.binary32 (UnpackedFloat.pack Format.binary32 (UnpackedFloat.ofInt Format.binary32 z)) =
        UnpackedFloat.ofInt Format.binary32 z ∧
      ∀ a b, (UnpackedFloat.ofInt Format.binary32 z).toInt a b = z := by
  rcases lt_trichotomy z 0 with hneg | rfl | hpos
  · have hcmp : UnpackedFloat.ofInt Format.binary32 z = round Format.binary32 .negative (-z).toNat 0 := by
      simp only [UnpackedFloat.ofInt, UnpackedFloat.normalize, Int.compare_eq_lt.mpr hneg]
    rw [hcmp]
    refine ⟨unpack_pack_round _ (by omega) (by omega), fun a b => ?_⟩
    rw [toInt_round _ (by omega) (by omega)]
    simp only [Sign.apply]
    omega
  · exact ⟨rfl, fun a b => rfl⟩
  · have hcmp : UnpackedFloat.ofInt Format.binary32 z = round Format.binary32 .positive z.toNat 0 := by
      simp only [UnpackedFloat.ofInt, UnpackedFloat.normalize, Int.compare_eq_gt.mpr hpos]
    rw [hcmp]
    refine ⟨unpack_pack_round _ (by omega) (by omega), fun a b => ?_⟩
    rw [toInt_round _ (by omega) (by omega)]
    simp only [Sign.apply]
    omega

/-- A whole number below `2 ^ 24` survives the way to `float` and back. -/
theorem s32OfFloat_floatOfInt {z : ℤ} (hz : z.natAbs < 2 ^ 24) : s32OfFloat (floatOfInt z) = BitVec.ofInt 32 z := by
  obtain ⟨hbits, hvalue⟩ := ofInt_whole hz
  have hread : (Float32.Model.ofBits ⟨floatOfInt z⟩).unpack = UnpackedFloat.ofInt Format.binary32 z := by
    simp only [Float32.Model.unpack, Float32.Model.ofBits, Float32.Model.pack, floatOfInt, Float32.Model.ofInt]
    rw [hbits, hbits]
  have hclamp : Int32.ofIntClamp z = Int32.ofInt z := by
    have hmin : Int32.minValue.toInt = -2147483648 := by decide
    have hmax : Int32.maxValue.toInt = 2147483647 := by decide
    rw [Int32.ofIntClamp, dif_pos (by omega), dif_pos (by omega)]
    rfl
  simp only [s32OfFloat, Float32.Model.toInt32, hread, UnpackedFloat.toInt32, hvalue, hclamp]
  rfl

end Whole

end Cxsw
