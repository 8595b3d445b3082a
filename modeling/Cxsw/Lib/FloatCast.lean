import Mathlib.Data.Rat.Floor
import Mathlib.Tactic.Linarith

/-!
# Cxsw.Lib.FloatCast — conversions from exact numbers to machine integers

A conversion truncates toward zero and clamps to the range of the integer type, as the conversion instructions of
the target do.
-/

namespace Cxsw

/-- Truncation toward zero. -/
def truncQ (x : ℚ) : ℤ := if x < 0 then ⌈x⌉ else ⌊x⌋

/-- `(S32)x`. -/
def toS32 (x : ℚ) : ℤ := max (-2 ^ 31) (min (2 ^ 31 - 1) (truncQ x))

/-- `(U32)x`. -/
def toU32 (x : ℚ) : ℕ := (max 0 (min (2 ^ 32 - 1) (truncQ x))).toNat

/-- `(U32)n` for an `S32`. -/
def u32OfS32 (n : ℤ) : ℕ := (n % 2 ^ 32).toNat

theorem truncQ_of_nonneg {x : ℚ} (h : 0 ≤ x) : truncQ x = ⌊x⌋ := if_neg (not_lt.mpr h)

theorem truncQ_neg (x : ℚ) : truncQ (-x) = -truncQ x := by
  unfold truncQ
  rcases lt_trichotomy x 0 with h | h | h
  · rw [if_pos h, if_neg (by linarith), Int.floor_neg]
  · simp [h]
  · rw [if_pos (by linarith), if_neg (by linarith), Int.ceil_neg]

/-- Truncation takes off less than one. -/
theorem abs_truncQ_sub_lt (x : ℚ) : |(truncQ x : ℚ) - x| < 1 := by
  unfold truncQ
  rw [abs_lt]
  split_ifs with h
  · have h1 : (⌈x⌉ : ℚ) < x + 1 := Int.ceil_lt_add_one x
    have h2 : x ≤ ⌈x⌉ := Int.le_ceil x
    constructor <;> linarith
  · have h1 : x - 1 < (⌊x⌋ : ℚ) := Int.sub_one_lt_floor x
    have h2 : (⌊x⌋ : ℚ) ≤ x := Int.floor_le x
    constructor <;> linarith

theorem truncQ_nonneg {x : ℚ} (h : 0 ≤ x) : (0 : ℚ) ≤ truncQ x ∧ (truncQ x : ℚ) ≤ x := by
  rw [truncQ_of_nonneg h]
  exact ⟨by exact_mod_cast Int.floor_nonneg.mpr h, Int.floor_le x⟩

theorem truncQ_nonpos {x : ℚ} (h : x ≤ 0) : x ≤ truncQ x ∧ (truncQ x : ℚ) ≤ 0 := by
  obtain ⟨h0, h1⟩ := truncQ_nonneg (neg_nonneg.mpr h)
  rw [truncQ_neg] at h0 h1
  push_cast at h0 h1
  exact ⟨by linarith, by linarith⟩

/-- Truncation takes a number toward zero. -/
theorem abs_truncQ_le (x : ℚ) : |(truncQ x : ℚ)| ≤ |x| := by
  rcases le_total 0 x with h | h
  · obtain ⟨h0, h1⟩ := truncQ_nonneg h
    rwa [abs_of_nonneg h0, abs_of_nonneg h]
  · obtain ⟨h0, h1⟩ := truncQ_nonpos h
    rw [abs_of_nonpos h1, abs_of_nonpos h]
    linarith

/-- So does taking the whole part off. -/
theorem abs_sub_truncQ_le (x : ℚ) : |x - truncQ x| ≤ |x| := by
  rcases le_total 0 x with h | h
  · obtain ⟨h0, h1⟩ := truncQ_nonneg h
    rw [abs_of_nonneg (by linarith), abs_of_nonneg h]
    linarith
  · obtain ⟨h0, h1⟩ := truncQ_nonpos h
    rw [abs_of_nonpos (by linarith), abs_of_nonpos h]
    linarith

theorem le_truncQ_iff {x : ℚ} {n : ℤ} (h : n ≤ 0) : n ≤ truncQ x ↔ (n : ℚ) < x + 1 := by
  unfold truncQ
  split_ifs with hx
  · rw [Int.le_ceil_iff]
    constructor <;> intro <;> linarith
  · have hn : (n : ℚ) ≤ 0 := by exact_mod_cast h
    have h0 : 0 ≤ ⌊x⌋ := Int.floor_nonneg.mpr (not_lt.mp hx)
    exact iff_of_true (by omega) (by linarith [not_lt.mp hx])

theorem truncQ_le_iff {x : ℚ} {n : ℤ} (h : 0 ≤ n) : truncQ x ≤ n ↔ x < (n : ℚ) + 1 := by
  have hneg := le_truncQ_iff (x := -x) (n := -n) (by omega)
  rw [truncQ_neg] at hneg
  push_cast at hneg
  constructor
  · intro hle
    linarith [hneg.mp (by omega)]
  · intro hlt
    have := hneg.mpr (by linarith)
    omega

/-- The conversion changes a number by at most one exactly where it is at most one outside the range of `S32`. -/
theorem abs_toS32_sub_le_iff (x : ℚ) : |(toS32 x : ℚ) - x| ≤ 1 ↔ -2 ^ 31 - 1 ≤ x ∧ x ≤ 2 ^ 31 := by
  have htrunc := abs_lt.mp (abs_truncQ_sub_lt x)
  rw [abs_le]
  by_cases hlow : truncQ x < -2 ^ 31
  · have hval : toS32 x = -2 ^ 31 := by
      unfold toS32
      omega
    have hx : x ≤ -2 ^ 31 - 1 := by
      by_contra hnot
      have := (le_truncQ_iff (x := x) (n := -2 ^ 31) (by norm_num)).mpr (by push_cast; linarith)
      omega
    rw [hval]
    push_cast
    constructor
    · rintro ⟨-, h⟩
      constructor <;> linarith
    · rintro ⟨h, -⟩
      constructor <;> linarith
  by_cases hhigh : 2 ^ 31 - 1 < truncQ x
  · have hval : toS32 x = 2 ^ 31 - 1 := by
      unfold toS32
      omega
    have hx : (2 ^ 31 : ℚ) ≤ x := by
      by_contra hnot
      have := (truncQ_le_iff (x := x) (n := 2 ^ 31 - 1) (by norm_num)).mpr (by push_cast; linarith)
      omega
    rw [hval]
    push_cast
    constructor
    · rintro ⟨h, -⟩
      constructor <;> linarith
    · rintro ⟨-, h⟩
      constructor <;> linarith
  · have hval : toS32 x = truncQ x := by
      unfold toS32
      omega
    have h1 : (-2 ^ 31 : ℚ) ≤ truncQ x := by exact_mod_cast not_lt.mp hlow
    have h2 : (truncQ x : ℚ) ≤ 2 ^ 31 - 1 := by exact_mod_cast not_lt.mp hhigh
    rw [hval]
    exact iff_of_true ⟨by linarith, by linarith⟩ ⟨by linarith, by linarith⟩

theorem toS32_lt (x : ℚ) : toS32 x < 2 ^ 31 := by
  unfold toS32
  omega

theorem toS32_nonneg {x : ℚ} (h : 0 ≤ x) : 0 ≤ toS32 x := by
  have : 0 ≤ ⌊x⌋ := Int.floor_nonneg.mpr h
  unfold toS32
  rw [truncQ_of_nonneg h]
  omega

theorem truncQ_intCast (n : ℤ) : truncQ (n : ℚ) = n := by
  unfold truncQ
  rw [Int.ceil_intCast, Int.floor_intCast, ite_self]

theorem toS32_intCast {n : ℤ} (h0 : -2 ^ 31 ≤ n) (h1 : n < 2 ^ 31) : toS32 (n : ℚ) = n := by
  unfold toS32
  rw [truncQ_intCast]
  omega

/-- A negative number converted to `S32` and then to `U32` is in the upper half. -/
theorem le_u32OfS32_toS32 {n : ℤ} (h : n < 0) : 2 ^ 31 ≤ u32OfS32 (toS32 (n : ℚ)) := by
  have hrange : -2 ^ 31 ≤ toS32 (n : ℚ) ∧ toS32 (n : ℚ) < 0 := by
    unfold toS32
    rw [truncQ_intCast]
    omega
  unfold u32OfS32
  omega

theorem toS32_of_abs_lt {x : ℚ} (h : |x| < 2 ^ 31) : toS32 x = truncQ x := by
  have habs : |truncQ x| < 2 ^ 31 := by exact_mod_cast (abs_truncQ_le x).trans_lt h
  obtain ⟨h0, h1⟩ := abs_lt.mp habs
  unfold toS32
  omega

theorem toS32_of_nonneg {x : ℚ} (h : 0 ≤ x) (hlt : ⌊x⌋ < 2 ^ 31) : toS32 x = ⌊x⌋ := by
  have h0 : 0 ≤ ⌊x⌋ := Int.floor_nonneg.mpr h
  unfold toS32
  rw [truncQ_of_nonneg h]
  omega

theorem toS32_neg_of_nonneg {x : ℚ} (h : 0 ≤ x) (hlt : ⌊x⌋ < 2 ^ 31) : toS32 (-x) = -⌊x⌋ := by
  have h0 : 0 ≤ ⌊x⌋ := Int.floor_nonneg.mpr h
  unfold toS32
  rw [truncQ_neg, truncQ_of_nonneg h]
  omega

theorem toU32_of_nonneg {x : ℚ} (h : 0 ≤ x) (hlt : ⌊x⌋ < 2 ^ 32) : (toU32 x : ℤ) = ⌊x⌋ := by
  have h0 : 0 ≤ ⌊x⌋ := Int.floor_nonneg.mpr h
  unfold toU32
  rw [truncQ_of_nonneg h]
  omega

/-- A nonnegative `S32` as a word is at most itself. -/
theorem u32OfS32_le {n : ℤ} (h : 0 ≤ n) : (u32OfS32 n : ℤ) ≤ n := by
  unfold u32OfS32
  omega

theorem u32OfS32_of_nonneg {n : ℤ} (h0 : 0 ≤ n) (h1 : n < 2 ^ 31) : u32OfS32 n = n.toNat := by
  unfold u32OfS32
  omega

/-- A nonnegative number converted to `S32` and then to `U32` stays below `2 ^ 31`. -/
theorem u32OfS32_toS32_lt {x : ℚ} (h : 0 ≤ x) : u32OfS32 (toS32 x) < 2 ^ 31 := by
  have h1 := toS32_nonneg h
  have h2 := toS32_lt x
  rw [u32OfS32_of_nonneg h1 h2]
  omega

end Cxsw
