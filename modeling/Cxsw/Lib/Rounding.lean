import Mathlib.Data.Int.Log
import Mathlib.Tactic.Ring
import Cxsw.Lib.FloatCast

/-!
# Cxsw.Lib.Rounding — rounding to a number of binary digits

`roundTo p` rounds a number to `p` binary digits, to nearest and to even in the middle, as the operations on
floating-point numbers do in the normal range of their format.

* `halfEven`: the nearest whole number.
* `roundTo_of_grid`, `exists_grid`: the numbers with at most `p` digits are those that are kept.
* `roundTo_mono`: the order is kept.
* `Arithmetic`: what the operations of a program on `float` make of their exact results; `exact` and `single` are two.
* `Arithmetic.Summed`: a sum taken step by step in an arithmetic; `Summed.eq_sum`: in the exact one it is the sum.
-/

namespace Cxsw

/-! ## Whole numbers -/

section Whole

/-- The nearest whole number; in the middle the even one. -/
def halfEven (y : ℚ) : ℤ :=
  if y - ⌊y⌋ < 1 / 2 then ⌊y⌋ else if 1 / 2 < y - ⌊y⌋ then ⌊y⌋ + 1 else ⌊y⌋ + ⌊y⌋ % 2

theorem halfEven_intCast (n : ℤ) : halfEven n = n := by
  unfold halfEven
  rw [Int.floor_intCast, sub_self, if_pos (by norm_num)]

theorem floor_le_halfEven (y : ℚ) : ⌊y⌋ ≤ halfEven y ∧ halfEven y ≤ ⌊y⌋ + 1 := by
  unfold halfEven
  split_ifs <;> omega

theorem le_halfEven {y : ℚ} {n : ℤ} (h : (n : ℚ) ≤ y) : n ≤ halfEven y :=
  (Int.le_floor.mpr h).trans (floor_le_halfEven y).1

theorem halfEven_le {y : ℚ} {n : ℤ} (h : y ≤ n) : halfEven y ≤ n := by
  rcases (Int.floor_le_floor h).lt_or_eq with hlt | heq
  · rw [Int.floor_intCast] at hlt
    have := (floor_le_halfEven y).2
    omega
  · -- the number lies between its floor `n` and `n`
    rw [Int.floor_intCast] at heq
    have hy : y = n := le_antisymm h (heq ▸ Int.floor_le y)
    rw [hy, halfEven_intCast]

theorem halfEven_near (y : ℚ) : |(halfEven y : ℚ) - y| ≤ 1 / 2 := by
  have hlow := Int.floor_le y
  have hhigh := Int.lt_floor_add_one y
  unfold halfEven
  rw [abs_le]
  split_ifs with h1 h2
  · constructor <;> linarith
  · push_cast
    constructor <;> linarith
  · -- in the middle both neighbours are a half away
    have hmid : y - ⌊y⌋ = 1 / 2 := le_antisymm (not_lt.mp h2) (not_lt.mp h1)
    rcases Int.emod_two_eq_zero_or_one ⌊y⌋ with hmod | hmod
    · rw [hmod, add_zero]
      constructor <;> linarith
    · rw [hmod]
      push_cast
      constructor <;> linarith

theorem halfEven_mono {x y : ℚ} (h : x ≤ y) : halfEven x ≤ halfEven y := by
  rcases (Int.floor_le_floor h).lt_or_eq with hlt | heq
  · have hx := (floor_le_halfEven x).2
    have hy := (floor_le_halfEven y).1
    omega
  · unfold halfEven
    rw [heq]
    split_ifs <;> first | omega | linarith

end Whole

/-! ## Binary digits -/

section Digits

variable {p : ℕ} {x y : ℚ}

/-- The exponent of the last of the `p` digits. -/
def lastDigit (p : ℕ) (x : ℚ) : ℤ := Int.log 2 x + 1 - p

/-- A positive number rounded to `p` digits. -/
def roundPos (p : ℕ) (x : ℚ) : ℚ := halfEven (x / 2 ^ lastDigit p x) * 2 ^ lastDigit p x

/-- A number rounded to `p` digits. -/
def roundTo (p : ℕ) (x : ℚ) : ℚ := if x < 0 then -roundPos p (-x) else roundPos p x

theorem two_zpow_pos (k : ℤ) : (0 : ℚ) < 2 ^ k := zpow_pos (by norm_num) k

theorem binade (h : 0 < x) : (2 : ℚ) ^ Int.log 2 x ≤ x ∧ x < 2 ^ (Int.log 2 x + 1) :=
  ⟨by exact_mod_cast Int.zpow_log_le_self (b := 2) (by norm_num) h,
    by exact_mod_cast Int.lt_zpow_succ_log_self (b := 2) (by norm_num) x⟩

/-- What is a multiple of the last digit is kept. -/
theorem roundPos_of_multiple {n : ℤ} (h : x = n * 2 ^ lastDigit p x) : roundPos p x = x := by
  have hn : x / 2 ^ lastDigit p x = n := by
    rw [div_eq_iff (two_zpow_pos _).ne']
    exact h
  unfold roundPos
  rw [hn, halfEven_intCast]
  exact h.symm

theorem roundPos_of_grid (hp : 0 < p) {m : ℕ} {k : ℤ} (hm : 0 < m) (hle : m ≤ 2 ^ p) :
    roundPos p (m * 2 ^ k) = m * 2 ^ k := by
  have hmpos : (0 : ℚ) < m := by exact_mod_cast hm
  obtain ⟨hlow, hhigh⟩ := binade (x := m * 2 ^ k) (mul_pos hmpos (two_zpow_pos k))
  rcases le_or_gt (lastDigit p (m * 2 ^ k)) k with hfine | hcoarse
  · -- the digits of `m` are among the `p`
    obtain ⟨j, hj⟩ := Int.eq_ofNat_of_zero_le (Int.sub_nonneg.mpr hfine)
    refine roundPos_of_multiple (n := m * 2 ^ j) ?_
    push_cast
    rw [mul_assoc, ← zpow_natCast (2 : ℚ) j, ← zpow_add₀ (by norm_num), ← hj]
    congr 2
    omega
  · -- one digit too many: `m` is the power of two
    have hpow : (2 : ℚ) ^ (p + k : ℤ) ≤ m * 2 ^ k := by
      refine le_trans (zpow_le_zpow_right₀ (by norm_num) ?_) hlow
      unfold lastDigit at hcoarse
      omega
    have hm2 : m = 2 ^ p := by
      rw [zpow_add₀ (by norm_num), zpow_natCast] at hpow
      have := le_of_mul_le_mul_right hpow (two_zpow_pos k)
      exact le_antisymm hle (by exact_mod_cast this)
    have hx : (m : ℚ) * 2 ^ k = 2 ^ (p + k : ℤ) := by
      rw [hm2, zpow_add₀ (by norm_num), zpow_natCast]
      push_cast
      rfl
    have hlog : Int.log 2 ((m : ℚ) * 2 ^ k) = p + k := by
      rw [hx]
      exact_mod_cast Int.log_zpow (R := ℚ) (b := 2) (by norm_num) (p + k)
    have hlast : lastDigit p (m * 2 ^ k) = k + 1 := by
      unfold lastDigit
      omega
    obtain ⟨q, rfl⟩ := Nat.exists_eq_succ_of_ne_zero hp.ne'
    refine roundPos_of_multiple (n := 2 ^ q) ?_
    rw [hlast, hx]
    push_cast
    rw [← zpow_natCast (2 : ℚ) q, ← zpow_add₀ (by norm_num)]
    congr 1
    omega

/-- A rounded number stays within its binade, up to the next power of two. -/
theorem roundPos_bounds (hp : 0 < p) (h : 0 < x) :
    (2 : ℚ) ^ Int.log 2 x ≤ roundPos p x ∧ roundPos p x ≤ 2 ^ (Int.log 2 x + 1) := by
  obtain ⟨hlow, hhigh⟩ := binade h
  have hdigit := two_zpow_pos (lastDigit p x)
  obtain ⟨q, rfl⟩ := Nat.exists_eq_succ_of_ne_zero hp.ne'
  have hlog : Int.log 2 x = q + lastDigit (q + 1) x := by
    unfold lastDigit
    push_cast
    omega
  have hscale (n : ℕ) : (2 : ℚ) ^ (n + lastDigit (q + 1) x : ℤ) = ((2 ^ n : ℤ) : ℚ) * 2 ^ lastDigit (q + 1) x := by
    rw [zpow_add₀ (by norm_num), zpow_natCast]
    push_cast
    rfl
  have hlow' : ((2 ^ q : ℤ) : ℚ) ≤ x / 2 ^ lastDigit (q + 1) x := by
    rw [le_div_iff₀ hdigit, ← hscale, ← hlog]
    exact hlow
  have hhigh' : x / 2 ^ lastDigit (q + 1) x ≤ ((2 ^ (q + 1) : ℤ) : ℚ) := by
    rw [div_le_iff₀ hdigit, ← hscale]
    refine hhigh.le.trans (le_of_eq ?_)
    congr 1
    push_cast
    omega
  unfold roundPos
  constructor
  · rw [hlog, hscale]
    exact mul_le_mul_of_nonneg_right (by exact_mod_cast le_halfEven hlow') hdigit.le
  · rw [show Int.log 2 x + 1 = (q + 1 : ℕ) + lastDigit (q + 1) x by push_cast; omega, hscale]
    exact mul_le_mul_of_nonneg_right (by exact_mod_cast halfEven_le hhigh') hdigit.le

theorem roundPos_mono (hp : 0 < p) (hx : 0 < x) (h : x ≤ y) : roundPos p x ≤ roundPos p y := by
  have hy := hx.trans_le h
  rcases (Int.log_mono_right (b := 2) hx h).lt_or_eq with hlt | heq
  · calc roundPos p x ≤ 2 ^ (Int.log 2 x + 1) := (roundPos_bounds hp hx).2
      _ ≤ 2 ^ Int.log 2 y := zpow_le_zpow_right₀ (by norm_num) hlt
      _ ≤ roundPos p y := (roundPos_bounds hp hy).1
  · have hlast : lastDigit p x = lastDigit p y := by
      unfold lastDigit
      rw [heq]
    have hdigit := two_zpow_pos (lastDigit p y)
    unfold roundPos
    rw [hlast]
    refine mul_le_mul_of_nonneg_right ?_ hdigit.le
    exact_mod_cast halfEven_mono (div_le_div_of_nonneg_right h hdigit.le)

theorem roundTo_neg (p : ℕ) (x : ℚ) : roundTo p (-x) = -roundTo p x := by
  have hzero : roundPos p 0 = 0 := by
    unfold roundPos
    rw [zero_div, show halfEven 0 = 0 by exact_mod_cast halfEven_intCast 0]
    simp
  unfold roundTo
  rcases lt_trichotomy x 0 with h | rfl | h
  · rw [if_neg (by linarith), if_pos h, neg_neg]
  · simp [hzero]
  · rw [if_pos (by linarith), if_neg (by linarith), neg_neg]

theorem roundTo_of_pos (h : 0 < x) : roundTo p x = roundPos p x := if_neg h.not_gt

theorem roundTo_zero (p : ℕ) : roundTo p 0 = 0 := by
  have h := roundTo_neg p 0
  rw [neg_zero] at h
  linarith

/-- **The error of rounding** to `p` digits is at most the part `2 ^ p` of the number. -/
theorem roundTo_error (p : ℕ) (x : ℚ) : |roundTo p x - x| ≤ |x| / 2 ^ p := by
  have hpos : ∀ y : ℚ, 0 < y → |roundPos p y - y| ≤ y / 2 ^ p := by
    intro y hy
    have hdigit := two_zpow_pos (lastDigit p y)
    have hlast : (2 : ℚ) ^ lastDigit p y * 2 ^ p = 2 * 2 ^ Int.log 2 y := by
      rw [← zpow_natCast (2 : ℚ) p, ← zpow_add₀ (by norm_num), ← zpow_one_add₀ (by norm_num)]
      congr 1
      unfold lastDigit
      omega
    have hhalf := mul_le_mul_of_nonneg_right (halfEven_near (y / 2 ^ lastDigit p y)) hdigit.le
    rw [← abs_of_pos hdigit, ← abs_mul, abs_of_pos hdigit, sub_mul, div_mul_cancel₀ _ hdigit.ne'] at hhalf
    refine hhalf.trans ?_
    rw [le_div_iff₀ (by positivity), mul_assoc, hlast]
    linarith [(binade hy).1]
  rcases lt_trichotomy x 0 with h | rfl | h
  · have hneg := hpos (-x) (by linarith)
    rw [← roundTo_of_pos (by linarith), roundTo_neg, ← abs_neg, show -(-roundTo p x - -x) = roundTo p x - x by ring]
      at hneg
    rwa [abs_of_neg h]
  · simp [roundTo_zero]
  · rw [roundTo_of_pos h, abs_of_pos h]
    exact hpos x h

/-- A positive number with `p` digits is a multiple of the last. -/
theorem exists_multiple (h : 0 < x) (hx : roundTo p x = x) : ∃ n : ℤ, x = n * 2 ^ lastDigit p x := by
  rw [roundTo_of_pos h] at hx
  exact ⟨_, hx.symm⟩

/-- **A number with at most `p` digits** is kept. -/
theorem roundTo_of_grid (hp : 0 < p) {m k : ℤ} (h : |m| ≤ 2 ^ p) : roundTo p (m * 2 ^ k) = m * 2 ^ k := by
  have hpos : ∀ n : ℕ, 0 < n → n ≤ 2 ^ p → roundTo p (n * 2 ^ k) = n * 2 ^ k := by
    intro n hn hle
    rw [roundTo_of_pos (mul_pos (by exact_mod_cast hn) (two_zpow_pos k)), roundPos_of_grid hp hn hle]
  rcases lt_trichotomy m 0 with hneg | rfl | hm
  · obtain ⟨n, hn⟩ := Int.eq_ofNat_of_zero_le (show 0 ≤ -m by omega)
    have hle : n ≤ 2 ^ p := by
      rw [abs_of_neg hneg, hn] at h
      exact_mod_cast h
    rw [show m = -(n : ℤ) by omega, Int.cast_neg, Int.cast_natCast, neg_mul, roundTo_neg, hpos n (by omega) hle]
  · rw [Int.cast_zero, zero_mul, roundTo_zero]
  · obtain ⟨n, rfl⟩ := Int.eq_ofNat_of_zero_le hm.le
    have hle : n ≤ 2 ^ p := by
      rw [abs_of_pos hm] at h
      exact_mod_cast h
    rw [Int.cast_natCast, hpos n (by omega) hle]

theorem roundTo_intCast (hp : 0 < p) {n : ℤ} (h : |n| ≤ 2 ^ p) : roundTo p n = n := by
  have hgrid := roundTo_of_grid hp (k := 0) h
  rwa [zpow_zero, mul_one] at hgrid

/-- What is rounded has at most `p` digits. -/
theorem exists_grid (p : ℕ) (x : ℚ) : ∃ m k : ℤ, |m| ≤ 2 ^ p ∧ roundTo p x = m * 2 ^ k := by
  have hpos : ∀ y : ℚ, 0 < y → ∃ m k : ℤ, |m| ≤ 2 ^ p ∧ roundTo p y = m * 2 ^ k := by
    intro y hy
    refine ⟨halfEven (y / 2 ^ lastDigit p y), lastDigit p y, ?_, roundTo_of_pos hy⟩
    have hdigit := two_zpow_pos (lastDigit p y)
    have h0 : 0 ≤ halfEven (y / 2 ^ lastDigit p y) :=
      le_halfEven (by rw [Int.cast_zero]; exact div_nonneg hy.le hdigit.le)
    have h1 : halfEven (y / 2 ^ lastDigit p y) ≤ 2 ^ p := by
      refine halfEven_le ?_
      rw [div_le_iff₀ hdigit]
      refine (binade hy).2.le.trans (le_of_eq ?_)
      push_cast
      rw [← zpow_natCast (2 : ℚ) p, ← zpow_add₀ (by norm_num)]
      congr 1
      unfold lastDigit
      omega
    rwa [abs_of_nonneg h0]
  rcases lt_trichotomy x 0 with h | rfl | h
  · obtain ⟨m, k, hm, hx⟩ := hpos (-x) (by linarith)
    refine ⟨-m, k, by rwa [abs_neg], ?_⟩
    rw [roundTo_neg] at hx
    push_cast
    linarith
  · exact ⟨0, 0, by simp, by rw [roundTo_zero]; simp⟩
  · exact hpos x h

/-- Rounding twice is rounding once. -/
theorem roundTo_roundTo (hp : 0 < p) (x : ℚ) : roundTo p (roundTo p x) = roundTo p x := by
  obtain ⟨m, k, hm, hx⟩ := exists_grid p x
  rw [hx, roundTo_of_grid hp hm]

theorem roundTo_mono (hp : 0 < p) (hx : 0 ≤ x) (h : x ≤ y) : roundTo p x ≤ roundTo p y := by
  rcases hx.lt_or_eq with hpos | rfl
  · rw [roundTo_of_pos hpos, roundTo_of_pos (hpos.trans_le h)]
    exact roundPos_mono hp hpos h
  · rw [roundTo_zero]
    rcases h.lt_or_eq with hpos | rfl
    · rw [roundTo_of_pos hpos]
      exact (two_zpow_pos _).le.trans (roundPos_bounds hp hpos).1
    · rw [roundTo_zero]

end Digits

/-! ## Arithmetics -/

section Arithmetics

/-- The arithmetic of a program on `float`: what becomes of a constant in its text, of the value of an expression with
such constants where it is assigned, and of the result of an operation. -/
structure Arithmetic where
  const : ℚ → ℚ
  assign : ℚ → ℚ
  op : ℚ → ℚ
  op_neg : ∀ x, op (-x) = -op x
  op_mono : ∀ x y, 0 ≤ x → x ≤ y → op x ≤ op y
  op_whole : ∀ n : ℕ, n ≤ 1000 → op n = n
  op_assign : ∀ x, op (assign x) = assign x
  /-- The whole part of a `float` is one, and so is what is left. -/
  op_truncQ : ∀ x, op x = x → op (truncQ x) = truncQ x ∧ op (x - truncQ x) = x - truncQ x
  /-- A `float` below one, times a power of ten, stays below it. -/
  op_below : ∀ x, op x = x → 0 ≤ x → x < 1 → ∀ n ∈ [(100 : ℚ), 1000], op (x * n) < n

/-- Exact arithmetic. -/
def Arithmetic.exact : Arithmetic where
  const x := x
  assign x := x
  op x := x
  op_neg _ := rfl
  op_mono _ _ _ h := h
  op_whole _ _ := rfl
  op_assign _ := rfl
  op_truncQ _ _ := ⟨rfl, rfl⟩
  op_below x _ _ h1 n hn := by
    have hpos : 0 < n := by
      simp only [List.mem_cons, List.not_mem_nil, or_false] at hn
      rcases hn with rfl | rfl <;> norm_num
    exact mul_lt_of_lt_one_left hpos h1

/-- A number of `p` digits is whole, or its digits go behind the point. -/
theorem whole_or_fraction {p : ℕ} {x : ℚ} (hx : roundTo p x = x) :
    (∃ n : ℤ, x = n) ∨ ∃ (m : ℤ) (j : ℕ), |(m : ℚ)| ≤ 2 ^ p ∧ x = m / 2 ^ j := by
  obtain ⟨m, k, hm, hgrid⟩ := exists_grid p x
  rw [hx] at hgrid
  rcases le_or_gt 0 k with hk | hk
  · obtain ⟨j, rfl⟩ := Int.eq_ofNat_of_zero_le hk
    refine Or.inl ⟨m * 2 ^ j, ?_⟩
    rw [hgrid, zpow_natCast]
    push_cast
    rfl
  · obtain ⟨j, hj⟩ := Int.eq_ofNat_of_zero_le (show 0 ≤ -k by omega)
    refine Or.inr ⟨m, j, by exact_mod_cast hm, ?_⟩
    rw [hgrid, show k = -(j : ℤ) by omega, zpow_neg, zpow_natCast]
    rfl

/-- Truncation and what it leaves keep within the digits. -/
theorem roundTo_truncQ {p : ℕ} (hp : 0 < p) {x : ℚ} (hx : roundTo p x = x) :
    roundTo p (truncQ x) = truncQ x ∧ roundTo p (x - truncQ x) = x - truncQ x := by
  rcases whole_or_fraction hx with ⟨n, rfl⟩ | ⟨m, j, hm, hgrid⟩
  · rw [truncQ_intCast, sub_self]
    exact ⟨hx, roundTo_zero p⟩
  · have hpow : (0 : ℚ) < 2 ^ j := by positivity
    have hpow1 : (1 : ℚ) ≤ 2 ^ j := one_le_pow₀ (by norm_num)
    have hback : x * 2 ^ j = m := by rw [hgrid, div_mul_cancel₀ _ hpow.ne']
    have habs : |x| * 2 ^ j ≤ 2 ^ p := by rwa [← abs_of_pos hpow, ← abs_mul, hback]
    constructor
    · refine roundTo_intCast hp ?_
      have hle : |(truncQ x : ℚ)| ≤ 2 ^ p := by
        calc |(truncQ x : ℚ)| ≤ |x| := abs_truncQ_le x
          _ ≤ |x| * 2 ^ j := le_mul_of_one_le_right (abs_nonneg x) hpow1
          _ ≤ 2 ^ p := habs
      exact_mod_cast hle
    · have hdigits : ((m - truncQ x * 2 ^ j : ℤ) : ℚ) = (x - truncQ x) * 2 ^ j := by
        rw [sub_mul, hback]
        push_cast
        rfl
      have hrest : x - truncQ x = ((m - truncQ x * 2 ^ j : ℤ) : ℚ) * 2 ^ (-(j : ℤ)) := by
        rw [hdigits, zpow_neg, zpow_natCast, mul_inv_cancel_right₀ hpow.ne']
      rw [hrest]
      refine roundTo_of_grid hp ?_
      have hle : |((m - truncQ x * 2 ^ j : ℤ) : ℚ)| ≤ 2 ^ p := by
        calc |((m - truncQ x * 2 ^ j : ℤ) : ℚ)| = |x - truncQ x| * 2 ^ j := by rw [hdigits, abs_mul, abs_of_pos hpow]
          _ ≤ |x| * 2 ^ j := mul_le_mul_of_nonneg_right (abs_sub_truncQ_le x) hpow.le
          _ ≤ 2 ^ p := habs
      exact_mod_cast hle

/-- The largest number below one. -/
theorem le_of_lt_one {p : ℕ} (hp : 0 < p) {x : ℚ} (hx : roundTo p x = x) (h1 : x < 1) : x ≤ 1 - 1 / 2 ^ p := by
  have hhalf : (1 : ℚ) / 2 ^ p ≤ 1 / 2 := by
    refine one_div_le_one_div_of_le (by norm_num) ?_
    calc (2 : ℚ) = 2 ^ 1 := (pow_one 2).symm
      _ ≤ 2 ^ p := pow_le_pow_right₀ (by norm_num) hp
  rcases whole_or_fraction hx with ⟨n, rfl⟩ | ⟨m, j, hm, hgrid⟩
  · have hn : n < 1 := by exact_mod_cast h1
    have hle : (n : ℚ) ≤ 0 := by exact_mod_cast Int.lt_add_one_iff.mp hn
    linarith
  · have hpow : (0 : ℚ) < 2 ^ j := by positivity
    rw [hgrid, div_lt_one hpow] at h1
    have hm1 : (m : ℚ) + 1 ≤ 2 ^ j := by
      have hlt : m < 2 ^ j := by exact_mod_cast h1
      exact_mod_cast Int.add_one_le_iff.mpr hlt
    rw [hgrid, div_le_iff₀ hpow, sub_mul, one_mul]
    rcases le_or_gt j p with hle | hgt
    · have hfine : 1 / (2 : ℚ) ^ p * 2 ^ j ≤ 1 := by
        rw [one_div, inv_mul_le_iff₀ (by positivity), mul_one]
        exact pow_le_pow_right₀ (by norm_num) hle
      linarith
    · -- more places behind the point than digits: the number is at most a half
      have hm2 : (m : ℚ) ≤ 2 ^ p := (le_abs_self _).trans hm
      have hdouble : (2 : ℚ) ^ p * 2 ≤ 2 ^ j := by
        rw [← pow_succ]
        exact pow_le_pow_right₀ (by norm_num) hgt
      have hpart : 1 / (2 : ℚ) ^ p * 2 ^ j ≤ 1 / 2 * 2 ^ j := mul_le_mul_of_nonneg_right hhalf hpow.le
      linarith

/-- A number of 24 digits below one, times a power of ten, stays below it. -/
theorem roundTo_below {x : ℚ} (hx : roundTo 24 x = x) (h0 : 0 ≤ x) (h1 : x < 1) :
    ∀ n ∈ [(100 : ℚ), 1000], roundTo 24 (x * n) < n := by
  have hlast : ∀ n ∈ [(100 : ℚ), 1000], 0 ≤ n ∧ roundTo 24 ((1 - 1 / 2 ^ 24) * n) < n := by decide +kernel
  intro n hn
  obtain ⟨hn0, hlt⟩ := hlast n hn
  refine lt_of_le_of_lt (roundTo_mono (by norm_num) (mul_nonneg h0 hn0) ?_) hlt
  exact mul_le_mul_of_nonneg_right (le_of_lt_one (by norm_num) hx h1) hn0

/-- Single precision, with the constants and the sums with them in double: 24 and 53 digits. -/
def Arithmetic.single : Arithmetic where
  const := roundTo 53
  assign x := roundTo 24 (roundTo 53 x)
  op := roundTo 24
  op_neg := roundTo_neg 24
  op_mono _ _ := roundTo_mono (by norm_num)
  op_whole n h := by
    have hle : |(n : ℤ)| ≤ 2 ^ 24 := by
      rw [Nat.abs_cast]
      omega
    exact_mod_cast roundTo_intCast (by norm_num) hle
  op_assign x := roundTo_roundTo (by norm_num) _
  op_truncQ _ := roundTo_truncQ (by norm_num)
  op_below _ := roundTo_below

theorem Arithmetic.op_zero (R : Arithmetic) : R.op 0 = 0 := by exact_mod_cast R.op_whole 0 (by omega)

theorem Arithmetic.op_nonneg (R : Arithmetic) {x : ℚ} (h : 0 ≤ x) : 0 ≤ R.op x := by
  have hmono := R.op_mono 0 x le_rfl h
  rwa [R.op_zero] at hmono

theorem Arithmetic.op_nonpos (R : Arithmetic) {x : ℚ} (h : x ≤ 0) : R.op x ≤ 0 := by
  have hneg := R.op_nonneg (neg_nonneg.mpr h)
  rw [R.op_neg] at hneg
  linarith

theorem Arithmetic.op_le (R : Arithmetic) {x y : ℚ} (h : x ≤ y) : R.op x ≤ R.op y := by
  rcases le_total 0 x with hx | hx
  · exact R.op_mono x y hx h
  · rcases le_total 0 y with hy | hy
    · exact (R.op_nonpos hx).trans (R.op_nonneg hy)
    · have hmono := R.op_mono (-y) (-x) (by linarith) (by linarith)
      rw [R.op_neg, R.op_neg] at hmono
      linarith

theorem Arithmetic.abs_op (R : Arithmetic) (x : ℚ) : |R.op x| = R.op |x| := by
  rcases le_total 0 x with h | h
  · rw [abs_of_nonneg h, abs_of_nonneg (R.op_nonneg h)]
  · rw [abs_of_nonpos h, abs_of_nonpos (R.op_nonpos h), R.op_neg]

theorem single_op_op (x : ℚ) : Arithmetic.single.op (Arithmetic.single.op x) = Arithmetic.single.op x :=
  roundTo_roundTo (by norm_num) x

/-- **An operation in single precision** is off by the part `2 ^ 24` of its result at most. -/
theorem single_op_error (x : ℚ) : |Arithmetic.single.op x - x| ≤ |x| / 2 ^ 24 := roundTo_error 24 x

/-- A value that is assigned is rounded twice. -/
theorem single_assign_error (x : ℚ) : |Arithmetic.single.assign x - x| ≤ 5 / 2 ^ 26 * |x| := by
  have hdouble := roundTo_error 53 x
  have hsingle := roundTo_error 24 (roundTo 53 x)
  have hle := abs_sub_abs_le_abs_sub (roundTo 53 x) x
  have hsplit := abs_add_le (roundTo 24 (roundTo 53 x) - roundTo 53 x) (roundTo 53 x - x)
  rw [sub_add_sub_cancel] at hsplit
  show |roundTo 24 (roundTo 53 x) - x| ≤ _
  linarith [abs_nonneg x]

/-- A sum taken step by step: `total` is what has been made of the summands, assigned one by one. -/
inductive Arithmetic.Summed (R : Arithmetic) : List ℚ → ℚ → Prop
  | nil : R.Summed [] 0
  | concat {xs : List ℚ} {total : ℚ} (x : ℚ) (h : R.Summed xs total) :
    R.Summed (xs ++ [R.assign x]) (R.assign (total + x))

/-- The sum of a list, where each addition is rounded. -/
def Arithmetic.sum (R : Arithmetic) (total : ℚ) (xs : List ℚ) : ℚ := xs.foldl (fun total x => R.op (total + x)) total

/-- What the roundings add to such a sum. -/
def Arithmetic.sumError (R : Arithmetic) : ℚ → List ℚ → ℚ
  | _, [] => 0
  | total, x :: xs => R.op (total + x) - (total + x) + R.sumError (R.op (total + x)) xs

theorem Arithmetic.sum_eq (R : Arithmetic) (total : ℚ) (xs : List ℚ) :
    R.sum total xs = total + xs.sum + R.sumError total xs := by
  induction xs generalizing total with
  | nil => simp [Arithmetic.sum, sumError]
  | cons x xs ih =>
    rw [sumError, List.sum_cons]
    refine (ih _).trans ?_
    ring

theorem Arithmetic.single_op_sum {total : ℚ} (h : single.op total = total) (xs : List ℚ) :
    single.op (single.sum total xs) = single.sum total xs := by
  induction xs generalizing total with
  | nil => exact h
  | cons x xs ih => exact ih (roundTo_roundTo (by norm_num) _)

/-- `n` additions of `x`.  The condition never holds; looking at the total makes an evaluation work out each one before
the next. -/
def Arithmetic.addTimes (R : Arithmetic) (x : ℚ) : ℕ → ℚ → ℚ
  | 0, total => total
  | n + 1, total => if total.num = 0 ∧ total.den = 0 then total else R.addTimes x n (R.assign (total + x))

theorem Arithmetic.addTimes_succ (R : Arithmetic) (x : ℚ) (n : ℕ) (total : ℚ) :
    R.addTimes x (n + 1) total = R.addTimes x n (R.assign (total + x)) :=
  if_neg fun h => total.den_nz h.2

theorem Arithmetic.addTimes_exact (x : ℚ) (n : ℕ) (total : ℚ) : exact.addTimes x n total = total + n * x := by
  induction n generalizing total with
  | zero =>
    rw [Nat.cast_zero, zero_mul, add_zero]
    rfl
  | succ n ih =>
    rw [addTimes_succ, ih]
    show total + x + n * x = _
    push_cast
    ring

theorem Arithmetic.Summed.op_eq {R : Arithmetic} {xs : List ℚ} {total : ℚ} (h : R.Summed xs total) :
    R.op total = total := by
  cases h with
  | nil => exact_mod_cast R.op_whole 0 (by omega)
  | concat x _ => exact R.op_assign _

theorem Arithmetic.Summed.eq_sum {xs : List ℚ} {total : ℚ} (h : exact.Summed xs total) : total = xs.sum := by
  induction h with
  | nil => rfl
  | concat x _ ih =>
    rw [List.sum_append, List.sum_singleton, ← ih]
    rfl

end Arithmetics

end Cxsw
