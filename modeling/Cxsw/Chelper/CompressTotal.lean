import Cxsw.Chelper.CompressBisectAdd

/-!
# Cxsw.Chelper.CompressTotal — the search for a move has a result (`klippy/chelper/stepcompress.c`)

The products of `compress_bisect_add` are those of `int32_t`.  That the steps of a move lie in order bounds its curve
by its line, so they stay in range for points up to `CLOCK_DIFF_MAX`; and every round takes a value from the range of
`add`.

* `Sized`, `sized_of_good`: the products of a move that hits its points.
* `extend_total`, `Search.round_total`: no round of the loops overflows.
* `bisect_succeeds`: the search ends with a move that passes the check.
-/

namespace Cxsw.StepCompress
open Quadratic (tri reach)

variable {points : ℕ → Points} {num : ℕ} {add lo hi interval : ℤ} {count fuel : ℕ} {maxError : UInt32}

/-! ## The size of a move -/

section Sizes

/-- Points that are near, with limits that are not far apart. -/
structure Near (points : ℕ → Points) (num : ℕ) : Prop where
  spaced : Spaced points num
  near : ∀ k < num, int32 (points k).maxp ≤ 3 * 2 ^ 28
  early : int32 (points 0).maxp ≤ int32 (points 0).minp + 2 ^ 16
  few : num ≤ 46340

/-- The range of the products that a move comes to. -/
structure Sized (interval add : ℤ) (count : ℕ) : Prop where
  first : 0 ≤ interval ∧ interval ≤ 3 * 2 ^ 28
  curve : -(3 * 2 ^ 28) ≤ add * tri count ∧ add * tri count ≤ 3 * 2 ^ 28
  slope : -2 ^ 24 ≤ add * count ∧ add * count ≤ 2 ^ 24
  line : 0 ≤ interval * count ∧ interval * count ≤ 2 * (3 * 2 ^ 28)
  next : interval * (count + 1) ≤ 2 * (3 * 2 ^ 28) + 2 ^ 27
  last : 0 ≤ reach interval add count ∧ reach interval add count ≤ 3 * 2 ^ 28

theorem Spaced.minp_nonneg (h : Spaced points num) {k : ℕ} (hk : k < num) : 0 ≤ int32 (points k).minp := by
  rcases Nat.eq_zero_or_pos k with rfl | hpos
  · exact h.nonneg
  · exact (h.nonneg.trans (h.ordered 0 h.nonempty)).trans (h.maxp_lt hpos hk).le

/-- **The products stay in range**: a step that is not earlier than the one before it bounds the curve by the line. -/
theorem sized_of_good (h : Near points num) (hadd : -2 ^ 15 ≤ add ∧ add < 2 ^ 15)
    (hgood : Good points interval add count)
    (hnum : count ≤ num) : Sized interval add count := by
  obtain ⟨m, rfl⟩ := Nat.exists_eq_add_of_le' hgood.1
  obtain ⟨h1, h2⟩ := hgood.2 m (Nat.lt_succ_self m)
  obtain ⟨hf1, hf2⟩ := hgood.2 0 (Nat.succ_pos m)
  rw [Quadratic.reach_one] at hf1 hf2
  have hpos := h.spaced.minp_nonneg (show m < num by omega)
  have hpos0 := h.spaced.minp_nonneg (show 0 < num by omega)
  have hnear := h.near m (by omega)
  have hnear0 := h.near 0 (by omega)
  -- the last difference is not negative
  have hlast : 0 ≤ interval + add * m := by
    rcases Nat.eq_zero_or_pos m with rfl | hm
    · rw [Nat.cast_zero, mul_zero, add_zero]
      omega
    · obtain ⟨k, rfl⟩ := Nat.exists_eq_add_of_le' (show 1 ≤ m from hm)
      have hprev := (hgood.2 k (by omega)).2
      have hapart := h.spaced.apart k (by omega)
      have hsucc := Quadratic.reach_succ interval add (k + 1)
      omega
  have htri := Quadratic.two_mul_tri (m + 1)
  have htri0 := Quadratic.tri_nonneg (m + 1)
  push_cast at htri
  have hi0 : 0 ≤ interval := by omega
  have hm0 : (0 : ℤ) ≤ m := Int.natCast_nonneg m
  have hreach : reach interval add (m + 1) = add * tri (m + 1) + interval * (m + 1) := by
    unfold reach
    push_cast
    ring
  have hprod : 0 ≤ (interval + add * m) * (m + 1) := mul_nonneg hlast (by omega)
  have hcurve2 : 2 * (add * tri (m + 1)) = add * m * (m + 1) := by
    calc 2 * (add * tri (m + 1)) = add * (2 * tri (m + 1)) := by ring
      _ = add * m * (m + 1) := by rw [htri]; ring
  have hline0 : 0 ≤ interval * (m + 1) := mul_nonneg hi0 (by omega)
  -- the curve takes away at most half of the line
  have hsum : 0 ≤ interval * (m + 1) + 2 * (add * tri (m + 1)) := by
    rw [hcurve2]
    linarith [hprod, add_mul interval (add * m) ((m : ℤ) + 1)]
  have hcurve : -(3 * 2 ^ 28) ≤ add * tri (m + 1) ∧ add * tri (m + 1) ≤ 3 * 2 ^ 28 := by omega
  have hline : interval * (m + 1) ≤ 2 * (3 * 2 ^ 28) := by omega
  refine ⟨⟨hi0, by omega⟩, hcurve, ?_, ?_, ?_, by omega, by omega⟩
  · push_cast
    rcases le_or_gt (m + 1) 512 with hsmall | hlarge
    · have h3 : (m : ℤ) + 1 ≤ 512 := by omega
      constructor <;> nlinarith
    · have h3 : (513 : ℤ) ≤ m + 1 := by omega
      have h4 : -4000000 ≤ add * m := by nlinarith
      have h5 : add * m ≤ 4000000 := by nlinarith
      rw [mul_add, mul_one]
      omega
  · push_cast
    exact ⟨hline0, hline⟩
  · push_cast
    rw [mul_add (interval) ((m : ℤ) + 1), mul_one]
    rcases le_or_gt (m + 1) 64 with hsmall | hlarge
    · have h3 : tri (m + 1) ≤ 2016 := by nlinarith
      have h4 : -(2 ^ 15 * 2016) ≤ add * tri (m + 1) := by nlinarith
      omega
    · have h3 : (65 : ℤ) ≤ m + 1 := by omega
      have h4 : interval ≤ 2 ^ 25 := by nlinarith
      omega


end Sizes

/-! ## The inner loop -/

section Inner

variable {k bound c : ℤ}

theorem int32s_pair {a b : ℤ} : Int32s [a, b] ↔ (-2 ^ 31 ≤ a ∧ a < 2 ^ 31) ∧ -2 ^ 31 ≤ b ∧ b < 2 ^ 31 := by
  simp [Int32s]

theorem raiseMin_total (lo bound : ℤ) (hk : 0 < k) (h1 : -2 ^ 31 ≤ lo * k ∧ lo * k < 2 ^ 31) (h2 : -2 ^ 31 ≤ bound - c)
    (h3 : bound - c + k < 2 ^ 31) :
    ∃ lo', raiseMin lo k bound c = some lo' ∧ (lo' = lo ∨ (lo' - 1) * k < bound - c) := by
  unfold raiseMin
  rw [if_neg (not_not.mpr (int32s_pair.mpr ⟨h1, h2, by omega⟩))]
  split_ifs with hlt
  · obtain ⟨r, hr⟩ : ∃ r, idivUp (bound - c) k = some r := by
      unfold idivUp
      split_ifs with hn
      · exact ⟨_, checked_eq_some.mpr ⟨int32s_pair.mpr ⟨⟨by omega, h3⟩, by omega, by omega⟩, rfl⟩⟩
      · exact ⟨_, rfl⟩
    exact ⟨r, hr, Or.inr (idivUp_spec hk hr).2⟩
  · exact ⟨lo, rfl, Or.inl rfl⟩

theorem lowerMax_total (hi bound : ℤ) (hk : 0 < k) (h1 : -2 ^ 31 ≤ hi * k ∧ hi * k < 2 ^ 31)
    (h2 : -2 ^ 31 + k ≤ bound - c)
    (h3 : bound - c < 2 ^ 31) :
    ∃ hi', lowerMax hi k bound c = some hi' ∧ (hi' = hi ∨ bound - c < (hi' + 1) * k) := by
  unfold lowerMax
  rw [if_neg (not_not.mpr (int32s_pair.mpr ⟨h1, by omega, h3⟩))]
  split_ifs with hlt
  · obtain ⟨r, hr⟩ : ∃ r, idivDown (bound - c) k = some r := by
      unfold idivDown
      split_ifs with hn
      · exact ⟨_, rfl⟩
      · exact ⟨_, checked_eq_some.mpr ⟨int32s_pair.mpr ⟨⟨by omega, by omega⟩, by omega, by omega⟩, rfl⟩⟩
    exact ⟨r, hr, Or.inr (idivDown_spec hk hr).2⟩
  · exact ⟨hi, rfl, Or.inl rfl⟩

/-- The range in which the intervals of a search stay, even where there is none that fits. -/
structure Wide (lo hi : ℤ) : Prop where
  lo : 0 ≤ lo ∧ lo ≤ 3 * 2 ^ 28 + 2 ^ 24
  hi : -(3 * 2 ^ 27 + 2 ^ 24) ≤ hi ∧ hi ≤ 3 * 2 ^ 28

/-- The same after the inner loop, and their products. -/
def Extended.Bounded : Extended → Prop
  | .covered _ _ => True
  | .stopped _ count lo hi =>
    Wide lo hi ∧ lo * (count + 1 : ℕ) ≤ 2 * (3 * 2 ^ 28) + 2 ^ 27 ∧
      -(3 * 2 ^ 28 + 2 ^ 25) ≤ hi * (count + 1 : ℕ) ∧ hi * (count + 1 : ℕ) ≤ 2 * (3 * 2 ^ 28) + 2 ^ 27

theorem products (h : Near points num) (hadd : -2 ^ 15 ≤ add ∧ add < 2 ^ 15) (hcount : 1 ≤ count) (hlt : count < num)
    (hgood : ∀ i, lo ≤ i → i ≤ hi → Good points i add count) (hcase : lo ≤ hi ∨ (count = 1 ∧ Wide lo hi)) :
    Wide lo hi ∧ (0 ≤ lo * (count + 1 : ℕ) ∧ lo * (count + 1 : ℕ) ≤ 2 * (3 * 2 ^ 28) + 2 ^ 27) ∧
      (-(3 * 2 ^ 28 + 2 ^ 25) ≤ hi * (count + 1 : ℕ) ∧ hi * (count + 1 : ℕ) ≤ 2 * (3 * 2 ^ 28) + 2 ^ 27) ∧
      -(3 * 2 ^ 28 + 2 ^ 24) ≤ add * tri (count + 1) ∧ add * tri (count + 1) ≤ 3 * 2 ^ 28 + 2 ^ 24 := by
  have hcurve : add * tri (count + 1) = add * tri count + add * count := by
    rw [Quadratic.tri_succ, mul_add]
  rcases hcase with hle | ⟨rfl, hwide⟩
  · obtain ⟨l1, l2, l3, -, l5, -⟩ := sized_of_good h hadd (hgood lo le_rfl hle) hlt.le
    obtain ⟨r1, -, -, -, r5, -⟩ := sized_of_good h hadd (hgood hi hle le_rfl) hlt.le
    have hpos : (0 : ℤ) ≤ (count : ℤ) + 1 := by omega
    have hl0 := mul_nonneg l1.1 hpos
    have hr0 := mul_nonneg r1.1 hpos
    push_cast
    refine ⟨⟨⟨l1.1, by omega⟩, by omega, r1.2⟩, ⟨hl0, l5⟩, ⟨by omega, r5⟩, ?_, ?_⟩
    · rw [hcurve]
      omega
    · rw [hcurve]
      omega
  · have hone : add * tri (1 + 1) = add := by
      rw [hcurve, Quadratic.tri_one]
      ring
    obtain ⟨h1, h2⟩ := hwide
    refine ⟨⟨h1, h2⟩, ?_, ?_, ?_⟩
    · push_cast
      omega
    · push_cast
      omega
    · rw [hone]
      omega

/-- **A round of the inner loop** does not overflow, and leaves the ranges wide enough. -/
theorem limits_total (h : Near points num) (hadd : -2 ^ 15 ≤ add ∧ add < 2 ^ 15) (hcount : 1 ≤ count)
    (hlt : count < num)
    (hgood : ∀ i, lo ≤ i → i ≤ hi → Good points i add count) (hcase : lo ≤ hi ∨ (count = 1 ∧ Wide lo hi)) :
    Int32s [(count + 1 : ℕ) * ((count + 1 : ℕ) - 1), add * tri (count + 1)] ∧
      ∃ lo' hi', raiseMin lo (count + 1 : ℕ) (int32 (points count).minp) (add * tri (count + 1)) = some lo' ∧
        lowerMax hi (count + 1 : ℕ) (int32 (points count).maxp) (add * tri (count + 1)) = some hi' ∧
        ∀ interval, (Extended.stopped interval count lo' hi').Bounded := by
  obtain ⟨⟨w1, w2⟩, ⟨p1, p2⟩, ⟨p3, p4⟩, p5, p6⟩ := products h hadd hcount hlt hgood hcase
  have hmin := h.spaced.minp_nonneg hlt
  have hord := h.spaced.ordered count hlt
  have hnear := h.near count hlt
  have hfew := h.few
  have hn2 : (2 : ℤ) ≤ (count + 1 : ℕ) := by omega
  have hn3 : ((count + 1 : ℕ) : ℤ) ≤ 46340 := by omega
  have hsquare : ((count + 1 : ℕ) : ℤ) * ((count + 1 : ℕ) - 1) ≤ 46340 * 46339 :=
    mul_le_mul hn3 (by omega) (by omega) (by norm_num)
  have hsquare0 : 0 ≤ ((count + 1 : ℕ) : ℤ) * ((count + 1 : ℕ) - 1) := mul_nonneg (by omega) (by omega)
  simp only [Extended.Bounded]
  generalize ((count + 1 : ℕ) : ℤ) = n at *
  generalize add * tri (count + 1) = c at *
  refine ⟨int32s_pair.mpr ⟨⟨by omega, by omega⟩, by omega, by omega⟩, ?_⟩
  obtain ⟨lo', hlo, hlo'⟩ := raiseMin_total (k := n) (c := c) lo (int32 (points count).minp) (by omega)
    ⟨by omega, by omega⟩ (by omega) (by omega)
  obtain ⟨hi', hhi, hhi'⟩ := lowerMax_total (k := n) (c := c) hi (int32 (points count).maxp) (by omega)
    ⟨by omega, by omega⟩ (by omega) (by omega)
  obtain ⟨hl1, -⟩ := raiseMin_spec (by omega) hlo
  obtain ⟨hh1, -⟩ := lowerMax_spec (by omega) hhi
  refine ⟨lo', hi', hlo, hhi, fun interval => ⟨⟨⟨by omega, ?_⟩, ?_, by omega⟩, ?_, ?_, ?_⟩⟩
  · rcases hlo' with rfl | hlt
    · exact w1.2
    · nlinarith
  · rcases hhi' with rfl | hlt
    · exact w2.1
    · nlinarith
  · rcases hlo' with rfl | hlt
    · exact p2
    · have hexpand : (lo' - 1) * n = lo' * n - n := by ring
      omega
  · rcases hhi' with rfl | hlt
    · exact p3
    · have hexpand : (hi' + 1) * n = hi' * n + n := by ring
      omega
  · exact (mul_le_mul_of_nonneg_right hh1 (by omega)).trans p4

/-- **The inner loop does not overflow.** -/
theorem extend_total (h : Near points num) (hadd : -2 ^ 15 ≤ add ∧ add < 2 ^ 15) (hcount : 1 ≤ count)
    (hle : count ≤ num) (hfuel : num < count + fuel) (hgood : ∀ i, lo ≤ i → i ≤ hi → Good points i add count)
    (hcase : lo ≤ hi ∨ (count = 1 ∧ Wide lo hi)) (interval : ℤ) :
    ∃ r, extend points num add fuel count lo hi interval = some r ∧ r.Bounded := by
  induction fuel generalizing count lo hi interval with
  | zero => exact absurd hle (by omega)
  | succ fuel ih =>
    rw [extend]
    by_cases hend : num ≤ count
    · rw [if_pos hend]
      exact ⟨_, rfl, trivial⟩
    obtain ⟨hfit, lo', hi', hlo, hhi, hbounded⟩ := limits_total h hadd hcount (by omega) hgood hcase
    rw [if_neg hend, if_neg (not_not.mpr hfit), hlo, hhi]
    simp only
    by_cases hcross : lo' > hi'
    · rw [if_pos hcross]
      exact ⟨_, rfl, hbounded interval⟩
    · rw [if_neg hcross]
      obtain ⟨hl1, hl2⟩ := raiseMin_spec (by omega) hlo
      obtain ⟨hh1, hh2⟩ := lowerMax_spec (by omega) hhi
      exact ih (Nat.succ_le_succ (Nat.zero_le _)) (by omega) (by omega) (good_next hgood hl1 hh1 hl2 hh2)
        (Or.inl (not_lt.mp hcross)) _

end Inner

/-! ## The outer loop -/

namespace Search

variable {s t : Search}

theorem errdelta_spec (herr : maxError.toNat ≤ 2 ^ 16) (h1 : 1 < count) (h2 : count ≤ 0x200) :
    0 ≤ errdelta maxError count ∧ errdelta maxError count * (count * count : ℕ) ≤ 11 * 2 ^ 16 := by
  have hsquare : 1 * 1 ≤ count * count ∧ count * count ≤ 0x200 * 0x200 :=
    ⟨Nat.mul_le_mul (by omega) (by omega), Nat.mul_le_mul h2 h2⟩
  have hprod : (maxError * 11).toNat = maxError.toNat * 11 := by
    rw [UInt32.toNat_mul]
    change maxError.toNat * 11 % 2 ^ 32 = _
    omega
  have hcount : (UInt32.ofNat (count * count)).toNat = count * count := by
    rw [UInt32.toNat_ofNat']
    omega
  have hdiv : (maxError * 11 / UInt32.ofNat (count * count)).toNat = maxError.toNat * 11 / (count * count) := by
    rw [UInt32.toNat_div, hprod, hcount]
  have hle := Nat.div_mul_le_self (maxError.toNat * 11) (count * count)
  have hle' := Nat.div_le_self (maxError.toNat * 11) (count * count)
  unfold errdelta
  rw [int32_of_lt (by omega), hdiv]
  exact ⟨Int.natCast_nonneg _, by exact_mod_cast hle.trans (by omega)⟩

theorem deviate_total (herr : maxError.toNat ≤ 2 ^ 16) (h1 : 1 ≤ count) (h2 : count ≤ 0x200)
    (hadd : -2 ^ 15 ≤ t.add ∧ t.add < 2 ^ 15) (hmin : -2 ^ 15 ≤ t.minadd ∧ t.minadd ≤ t.add + 1)
    (hmax : t.add - 1 ≤ t.maxadd ∧ t.maxadd < 2 ^ 15)
    (hcurve : -(3 * 2 ^ 28 + 2 ^ 24) ≤ t.add * tri (count + 1) ∧ t.add * tri (count + 1) ≤ 3 * 2 ^ 28 + 2 ^ 24) :
    ∃ t', t.deviate maxError count = some t' ∧ t'.outerMininterval = t.outerMininterval ∧
      t'.outerMaxinterval = t.outerMaxinterval ∧ SameMoves t t' ∧
      (-2 ^ 30 ≤ t'.minadd * tri (count + 1) ∧ t'.minadd * tri (count + 1) ≤ 2 ^ 30) ∧
      -2 ^ 30 ≤ t'.maxadd * tri (count + 1) ∧ t'.maxadd * tri (count + 1) ≤ 2 ^ 30 := by
  have htwo := Quadratic.two_mul_tri (count + 1)
  push_cast at htwo
  unfold deviate
  by_cases hone : 1 < count
  · obtain ⟨he0, he⟩ := errdelta_spec herr hone h2
    have htri : 0 < tri (count + 1) ∧ tri (count + 1) ≤ count * count ∧ tri (count + 1) ≤ 131328 := by
      have hc : (count : ℤ) ≤ 512 := by omega
      have hc2 : (2 : ℤ) ≤ count := by omega
      refine ⟨by nlinarith, by nlinarith, by nlinarith⟩
    push_cast at he
    have hdelta : errdelta maxError count * tri (count + 1) ≤ 11 * 2 ^ 16 := by
      have := mul_le_mul_of_nonneg_left htri.2.1 he0
      linarith
    have hdelta0 : errdelta maxError count ≤ 11 * 2 ^ 16 := by nlinarith
    have hsq : (count : ℤ) * count ≤ 512 * 512 := by nlinarith
    generalize errdelta maxError count = e at *
    rw [if_pos hone, checked, if_pos]
    · refine ⟨_, rfl, rfl, rfl, ⟨rfl, rfl, rfl, rfl, rfl, rfl⟩, ?_, ?_⟩
      · simp only
        have hlo : t.add - e ≤ max t.minadd (t.add - e) := le_max_right _ _
        have hhi : max t.minadd (t.add - e) ≤ t.add + 1 := max_le hmin.2 (by omega)
        have h3 := mul_le_mul_of_nonneg_right hlo htri.1.le
        have h4 := mul_le_mul_of_nonneg_right hhi htri.1.le
        constructor <;> linarith
      · simp only
        have hlo : t.add - 1 ≤ min t.maxadd (t.add + e) := le_min hmax.1 (by omega)
        have hhi : min t.maxadd (t.add + e) ≤ t.add + e := min_le_right _ _
        have h3 := mul_le_mul_of_nonneg_right hlo htri.1.le
        have h4 := mul_le_mul_of_nonneg_right hhi htri.1.le
        constructor <;> linarith
    · intro x hx
      simp only [List.mem_cons, List.not_mem_nil, or_false] at hx
      rcases hx with rfl | rfl | rfl
      · push_cast
        constructor <;> nlinarith
      · omega
      · omega
  · have hc : count = 1 := by omega
    subst hc
    have htri : tri (1 + 1) = 1 := by rw [Quadratic.tri_succ, Quadratic.tri_one]; rfl
    rw [if_neg hone]
    refine ⟨t, rfl, rfl, rfl, ⟨rfl, rfl, rfl, rfl, rfl, rfl⟩, ?_, ?_⟩
    · rw [htri]
      omega
    · rw [htri]
      omega

/-- The products of the outer intervals. -/
structure Outer (n lo hi : ℤ) : Prop where
  lo : 0 ≤ lo * n ∧ lo * n ≤ 2 * (3 * 2 ^ 28) + 2 ^ 27 + 2 ^ 26
  hi : -(3 * 2 ^ 28 + 2 ^ 25) ≤ hi * n ∧ hi * n ≤ 2 * (3 * 2 ^ 28) + 2 ^ 27 + 2 ^ 26

theorem limit_total (h1 : 1 ≤ count) (h2 : count ≤ 0x200) {point : Points}
    (hminp : 0 ≤ int32 point.minp ∧ int32 point.minp ≤ 3 * 2 ^ 28)
    (hmaxp : 0 ≤ int32 point.maxp ∧ int32 point.maxp ≤ 3 * 2 ^ 28)
    (houter : Outer (count + 1 : ℕ) t.outerMininterval t.outerMaxinterval)
    (hmin : -2 ^ 30 ≤ t.minadd * tri (count + 1) ∧ t.minadd * tri (count + 1) ≤ 2 ^ 30)
    (hmax : -2 ^ 30 ≤ t.maxadd * tri (count + 1) ∧ t.maxadd * tri (count + 1) ≤ 2 ^ 30) :
    ∃ t', t.limit count point = some t' ∧ t'.outerMininterval = t.outerMininterval ∧
      t'.outerMaxinterval = t.outerMaxinterval ∧ SameMoves t t' := by
  have htwo := Quadratic.two_mul_tri (count + 1)
  push_cast at htwo
  have htri : 0 < tri (count + 1) ∧ tri (count + 1) ≤ 131328 := by
    have hc : (count : ℤ) ≤ 512 := by omega
    have hc1 : (1 : ℤ) ≤ count := by omega
    exact ⟨by nlinarith, by nlinarith⟩
  obtain ⟨⟨o1, o2⟩, o3, o4⟩ := houter
  obtain ⟨minadd, hraise, -⟩ := raiseMin_total (c := t.outerMaxinterval * (count + 1 : ℕ)) t.minadd (int32 point.minp)
    htri.1 ⟨by omega, by omega⟩ (by omega) (by omega)
  obtain ⟨maxadd, hlower, -⟩ := lowerMax_total (c := t.outerMininterval * (count + 1 : ℕ)) t.maxadd (int32 point.maxp)
    htri.1 ⟨by omega, by omega⟩ (by omega) (by omega)
  unfold limit
  rw [if_neg (not_not.mpr (int32s_pair.mpr ⟨⟨by omega, by omega⟩, by omega, by omega⟩)), hraise, hlower]
  exact ⟨_, rfl, rfl, rfl, rfl, rfl, rfl, rfl, rfl, rfl⟩

/-- **The end of a round does not overflow.** -/
theorem narrow_total (t : Search) (interval : ℤ) (point : Points) (lo' hi' : ℤ) (herr : maxError.toNat ≤ 2 ^ 16)
    (h1 : 1 ≤ count) (h2 : count ≤ 0x200)
    (hminp : 0 ≤ int32 point.minp ∧ int32 point.minp ≤ 3 * 2 ^ 28)
    (hmaxp : 0 ≤ int32 point.maxp ∧ int32 point.maxp ≤ 3 * 2 ^ 28) (hranges : t.Ranges points)
    (hcurve : -(3 * 2 ^ 28 + 2 ^ 24) ≤ t.add * tri (count + 1) ∧ t.add * tri (count + 1) ≤ 3 * 2 ^ 28 + 2 ^ 24)
    (hlo : Outer (count + 1 : ℕ) lo' t.outerMaxinterval) (hhi : Outer (count + 1 : ℕ) t.outerMininterval hi')
    (hwlo : Wide lo' t.outerMaxinterval) (hwhi : Wide t.outerMininterval hi') :
    ∃ r, t.narrow maxError interval count point lo' hi' = some r ∧
      ∀ s', r = .again s' → Wide s'.outerMininterval s'.outerMaxinterval ∧ SameMoves t s' := by
  obtain ⟨-, -, hmin, hmax, hadd⟩ := hranges
  -- the one or the other side of the ranges
  have hturn : ∃ t', t' = t.turn (reach interval t.add (count + 1)) (int32 point.minp) lo' hi' ∧ t'.add = t.add ∧
      Outer (count + 1 : ℕ) t'.outerMininterval t'.outerMaxinterval ∧ Wide t'.outerMininterval t'.outerMaxinterval ∧
      SameMoves t t' ∧ (-2 ^ 15 ≤ t'.minadd ∧ t'.minadd ≤ t'.add + 1) ∧ t'.add - 1 ≤ t'.maxadd ∧
        t'.maxadd < 2 ^ 15 := by
    refine ⟨_, rfl, ?_⟩
    unfold turn
    split_ifs
    · exact ⟨rfl, hhi, hwhi, ⟨rfl, rfl, rfl, rfl, rfl, rfl⟩, ⟨by simp only; omega, le_rfl⟩, by simp only; omega,
        by simp only; omega⟩
    · exact ⟨rfl, hlo, hwlo, ⟨rfl, rfl, rfl, rfl, rfl, rfl⟩, ⟨by simp only; omega, by simp only; omega⟩, le_rfl,
        by simp only; omega⟩
  obtain ⟨t₁, ht₁, htadd, houter, hwide, hsame, hm1, hm2⟩ := hturn
  obtain ⟨t₂, hdev, hd1, hd2, hd3, hd4, hd5⟩ := deviate_total herr h1 h2 (by rw [htadd]; omega) hm1 hm2
    (by rw [htadd]; exact hcurve)
  obtain ⟨t₃, hlim, hl1, hl2, hl3⟩ := limit_total h1 h2 hminp hmaxp (hd1.symm ▸ hd2.symm ▸ houter) hd4 hd5
  unfold narrow
  rw [← ht₁, hdev]
  simp only [hlim]
  split_ifs with hempty
  · exact ⟨_, rfl, fun s' heq => nomatch heq⟩
  · refine ⟨_, rfl, fun s' heq => ?_⟩
    cases heq
    refine ⟨?_, ?_⟩
    · simp only [hl1, hl2, hd1, hd2]
      exact hwide
    · exact hsame.trans (hd3.trans (hl3.trans ⟨rfl, rfl, rfl, rfl, rfl, rfl⟩))

/-- The best move so far is short, so that a long one is better. -/
structure Short (points : ℕ → Points) (s : Search) : Prop where
  count : 1 ≤ s.bestcount ∧ s.bestcount ≤ 0x200
  reach : s.bestreach ≤ int32 (points (s.bestcount - 1)).maxp

theorem Short.of_same (h : s.Short points) (hs : SameMoves s t) : t.Short points := by
  obtain ⟨-, h2, -, h4, -, -⟩ := hs
  refine ⟨?_, ?_⟩
  · rw [h2]
    exact h.count
  · rw [h2, h4]
    exact h.reach

/-- **A long move is better** than the short ones. -/
theorem better_of_long (h : Spaced points num) (hgood : Good points interval add count) (hlt : count < num)
    (hlong : 0x200 < count) (hbest : s.Fresh points ∨ s.Short points) : s.better interval
    (reach interval add count) := by
  have hlast := (hgood.2 (count - 1) (by omega)).1
  rw [Nat.sub_add_cancel hgood.1] at hlast
  have hpos := h.minp_nonneg (show count - 1 < num by omega)
  refine Or.inl ?_
  rcases hbest with hfresh | hshort
  · have := hfresh.1
    omega
  · have hcount := hshort.count
    have := h.maxp_lt (show s.bestcount - 1 < count - 1 by omega) (show count - 1 < num by omega)
    have := hshort.reach
    omega

theorem reach_total (h : Near points num) (hadd : -2 ^ 15 ≤ add ∧ add < 2 ^ 15) (hcount : 1 ≤ count) (hlt : count < num)
    (hcase : Good points interval add count ∨ (count = 1 ∧ Wide lo interval)) :
    Int32s [(count : ℤ) * (count - 1), add * tri count, interval * count, reach interval add count,
      interval * (count + 1 : ℕ), reach interval add (count + 1)] := by
  have hfew := h.few
  have hsucc := Quadratic.reach_succ interval add count
  have hsquare : (count : ℤ) * (count - 1) ≤ 46340 * 46339 := mul_le_mul (by omega) (by omega) (by omega) (by norm_num)
  have hsquare0 : 0 ≤ (count : ℤ) * (count - 1) := mul_nonneg (by omega) (by omega)
  have hall : (-2 ^ 31 ≤ add * tri count ∧ add * tri count < 2 ^ 31) ∧
      (-2 ^ 31 ≤ interval * count ∧ interval * count < 2 ^ 31) ∧
      (-2 ^ 31 ≤ reach interval add count ∧ reach interval add count < 2 ^ 31) ∧
      (-2 ^ 31 ≤ interval * (count + 1 : ℕ) ∧ interval * (count + 1 : ℕ) < 2 ^ 31) ∧
      -2 ^ 31 ≤ reach interval add (count + 1) ∧ reach interval add (count + 1) < 2 ^ 31 := by
    rcases hcase with hgood | ⟨rfl, -, hwide⟩
    · obtain ⟨z1, z2, z3, z4, z5, z6⟩ := sized_of_good h hadd hgood hlt.le
      have h0 := mul_nonneg z1.1 (show (0 : ℤ) ≤ (count : ℤ) + 1 by omega)
      push_cast
      omega
    · rw [Quadratic.reach_one] at *
      rw [Quadratic.tri_one]
      push_cast at *
      omega
  intro x hx
  simp only [List.mem_cons, List.not_mem_nil, or_false] at hx
  obtain ⟨h1, h2, h3, h4, h5⟩ := hall
  rcases hx with rfl | rfl | rfl | rfl | rfl | rfl
  · omega
  · exact h1
  · exact h2
  · exact h3
  · exact h4
  · exact h5

theorem noted_short (hranges : s.Ranges points)
    (hbest : s.Fresh points ∨ (s.Best points num ∧ 1 < num) ∧ s.Short points)
    (hfirst : count = 1 → interval = s.outerMaxinterval)
    (hgood : s.outerMininterval ≤ s.outerMaxinterval → Good points interval s.add count)
    (hempty : s.outerMaxinterval < s.outerMininterval → count = 1) (hcount : 1 ≤ count) (hshort : count ≤ 0x200)
    {t : Search}
    (ht : t = if s.better interval (reach interval s.add count) then s.note interval (reach interval s.add count) count
      else s) (h0 : 0 ≤ int32 (points 0).maxp) (hnoted : t.Best points num) : t.Short points := by
  by_cases hb : s.better interval (reach interval s.add count)
  · have hlast := ((hgood (ranges_of_better hranges (hbest.imp id fun hb => hb.1.1) hfirst hempty hb)).2 (count - 1)
      (by omega)).2
    rw [Nat.sub_add_cancel hcount] at hlast
    rw [if_pos hb] at ht
    unfold note at ht
    simp only at ht
    split_ifs at ht <;> subst ht <;> exact ⟨⟨hcount, hshort⟩, hlast⟩
  · rw [if_neg hb] at ht
    subst ht
    rcases hbest with hfresh | hbest
    · have h1 := hfresh.1
      have h2 := hnoted.reach
      omega
    · exact hbest.2

theorem outer_total (h : Near points num) (hadd : -2 ^ 15 ≤ s.add ∧ s.add < 2 ^ 15) (hranges : s.Ranges points)
    (hwide : Wide s.outerMininterval s.outerMaxinterval) (hcount : 1 ≤ count) (hlt : count < num)
    (hshort : count ≤ 0x200)
    (hcase : Good points interval s.add count ∨ (count = 1 ∧ Wide s.outerMininterval interval))
    (hempty : s.outerMaxinterval < s.outerMininterval → count = 1) :
    (-(3 * 2 ^ 28 + 2 ^ 24) ≤ s.add * tri (count + 1) ∧ s.add * tri (count + 1) ≤ 3 * 2 ^ 28 + 2 ^ 24) ∧
      (-(3 * 2 ^ 28 + 2 ^ 25) ≤ s.outerMaxinterval * (count + 1 : ℕ) ∧
        s.outerMaxinterval * (count + 1 : ℕ) ≤ 2 * (3 * 2 ^ 28) + 2 ^ 27 + 2 ^ 26) ∧
      0 ≤ s.outerMininterval * (count + 1 : ℕ) ∧
        s.outerMininterval * (count + 1 : ℕ) ≤ 2 * (3 * 2 ^ 28) + 2 ^ 27 + 2 ^ 26 := by
  obtain ⟨⟨w1, w2⟩, w3, w4⟩ := hwide
  have hcurve : s.add * tri (count + 1) = s.add * tri count + s.add * count := by
    rw [Quadratic.tri_succ, mul_add]
  rcases Nat.lt_or_ge 1 count with h2 | h1
  · have hgood := hcase.resolve_right (by omega)
    have hle : s.outerMininterval ≤ s.outerMaxinterval := by
      by_contra hgt
      exact absurd (hempty (not_le.mp hgt)) (by omega)
    obtain ⟨z1, z2, z3, z4, z5, z6⟩ := sized_of_good h hadd hgood hlt.le
    have hfirst := (hgood.2 0 (by omega)).1
    rw [Quadratic.reach_one] at hfirst
    have hearly := h.early
    have houter := hranges.outerMax
    -- the outer intervals are near those of the move
    have hn : (0 : ℤ) ≤ (count + 1 : ℕ) := Int.natCast_nonneg _
    have hupper : s.outerMaxinterval * (count + 1 : ℕ) ≤ interval * (count + 1) + 2 ^ 16 * 513 := by
      have h3 := mul_le_mul_of_nonneg_right (show s.outerMaxinterval ≤ interval + 2 ^ 16 by omega) hn
      push_cast at h3 ⊢
      have h4 : (count : ℤ) ≤ 512 := by omega
      linarith [add_mul interval ((2 : ℤ) ^ 16) ((count : ℤ) + 1)]
    have hlower := mul_le_mul_of_nonneg_right hle hn
    have h0 := mul_nonneg w1 hn
    exact ⟨by rw [hcurve]; omega, by omega, h0, by omega⟩
  · have hc : count = 1 := by omega
    subst hc
    have hone : s.add * tri (1 + 1) = s.add := by
      rw [hcurve, Quadratic.tri_one]
      ring
    rw [hone]
    push_cast
    omega

/-- **A round does not overflow.** -/
theorem round_total (h : Near points num) (herr : maxError.toNat ≤ 2 ^ 16) (hranges : s.Ranges points)
    (hwide : Wide s.outerMininterval s.outerMaxinterval)
    (hbest : s.Fresh points ∨ (s.Best points num ∧ 1 < num) ∧ s.Short points) :
    ∃ r, s.round points num maxError = some r ∧
      ∀ s', r = .again s' → Wide s'.outerMininterval s'.outerMaxinterval ∧ s'.Short points := by
  have hadd : -2 ^ 15 ≤ s.add ∧ s.add < 2 ^ 15 := by
    obtain ⟨-, -, h3, h4, h5⟩ := hranges
    omega
  have hstart : ∀ i, s.outerMininterval ≤ i → i ≤ s.outerMaxinterval → Good points i s.add 1 :=
    fun i h1 h2 => good_one (hranges.outerMin.trans h1) (h2.trans hranges.outerMax)
  have hone : 1 < num ∨ (s.outerMininterval ≤ s.outerMaxinterval ∧ 1 ≤ num) :=
    hbest.symm.imp (fun hb => hb.1.2) fun hfresh => ⟨hfresh.2.2.1, h.spaced.nonempty⟩
  obtain ⟨r, hextend, hbounded⟩ := extend_total h hadd le_rfl h.spaced.nonempty
    (show num < 1 + (num + 1) by omega) hstart
    (Or.inr ⟨rfl, hwide⟩) s.outerMaxinterval
  have hfine := extend_spec hone hstart hextend
  unfold round
  rw [hextend]
  cases r with
  | covered interval count => exact ⟨_, rfl, fun s' heq => nomatch heq⟩
  | stopped interval count lo' hi' =>
    have hfine' := hfine
    obtain ⟨hcount, hnum, hlo, hhi, hfirst, hgood, hempty⟩ := hfine
    obtain ⟨hw, hb1, hb2, hb3⟩ := hbounded
    have hcase : Good points interval s.add count ∨ (count = 1 ∧ Wide s.outerMininterval interval) := by
      rcases le_or_gt s.outerMininterval s.outerMaxinterval with hle | hgt
      · exact Or.inl (hgood hle)
      · exact Or.inr ⟨hempty hgt, hfirst (hempty hgt) ▸ hwide⟩
    have hfit := reach_total h hadd hcount hnum hcase
    simp only [hfit, not_true_eq_false, if_false]
    by_cases hstop : s.better interval (reach interval s.add count) ∧ 0x200 < count
    · rw [if_pos hstop]
      exact ⟨_, rfl, fun s' heq => nomatch heq⟩
    rw [if_neg hstop]
    -- the move is not long
    have hshort : count ≤ 0x200 := by
      by_contra hlong
      have hbetter : s.better interval (reach interval s.add count) := by
        rcases hcase with hgood | ⟨hone, -⟩
        · exact better_of_long h.spaced hgood hnum (by omega) (hbest.imp id And.right)
        · omega
      exact hstop ⟨hbetter, by omega⟩
    have hnoted := noted h.spaced hranges (hbest.imp id fun hb => hb.1.1) hfine' _ rfl
    have hord0 := h.spaced.ordered 0 h.spaced.nonempty
    have hshorter := noted_short hranges hbest hfirst hgood hempty hcount hshort rfl (h.spaced.nonneg.trans hord0)
      hnoted
    obtain ⟨t1, t2, t3, t4, t5⟩ := note_ranges s interval (reach interval s.add count) count
      (s.better interval (reach interval s.add count)) rfl
    obtain ⟨hcurve, hmax, hmin⟩ := outer_total h hadd hranges hwide hcount hnum hshort hcase hempty
    generalize (if s.better interval (reach interval s.add count) then s.note interval (reach interval s.add count)
      count
      else s) = t at *
    have hminp := h.spaced.minp_nonneg hnum
    have hord := h.spaced.ordered count hnum
    have hnear := h.near count hnum
    have htranges : t.Ranges points := by
      obtain ⟨r1, r2, r3, r4, r5⟩ := hranges
      exact ⟨t2 ▸ r1, t3 ▸ r2, t4 ▸ r3, t5 ▸ r4, by rw [t1, t4, t5]; exact r5⟩
    obtain ⟨r, hr, hagain⟩ := narrow_total t interval (points count) lo' hi' herr hcount hshort
      ⟨hminp, by omega⟩ ⟨by omega, hnear⟩
      htranges (by rw [t1]; exact hcurve)
      ⟨⟨mul_nonneg hw.lo.1 (by omega), by omega⟩, by rw [t3]; exact hmax⟩
      ⟨by rw [t2]; exact hmin, by omega, by omega⟩ ⟨hw.lo, by rw [t3]; exact hwide.hi⟩ ⟨by rw [t2]; exact hwide.lo,
        hw.hi⟩
    refine ⟨r, hr, fun s' heq => ?_⟩
    obtain ⟨hw', hsame⟩ := hagain s' heq
    exact ⟨hw', hshorter.of_same hsame⟩

/-- **The search ends**, without an overflow. -/
theorem loop_total (fuel : ℕ) (h : Near points num) (herr : maxError.toNat ≤ 2 ^ 16) (hranges : s.Ranges points)
    (hwide : Wide s.outerMininterval s.outerMaxinterval)
    (hbest : s.Fresh points ∨ (s.Best points num ∧ 1 < num) ∧ s.Short points)
    (hfuel : s.maxadd - s.minadd < fuel) : ∃ r, loop points num maxError fuel s = some r := by
  induction fuel generalizing s with
  | zero =>
    obtain ⟨-, -, -, -, h5⟩ := hranges
    omega
  | succ fuel ih =>
    obtain ⟨r, hr, hagain⟩ := round_total h herr hranges hwide hbest
    have hfine := round_spec h.spaced hranges (hbest.imp id And.left) hr
    rw [loop, hr]
    cases r with
    | found interval count add => exact ⟨_, rfl⟩
    | stop s' => exact ⟨_, rfl⟩
    | again s' =>
      obtain ⟨h1, h2, h3⟩ := hfine
      obtain ⟨hw, hs⟩ := hagain s' rfl
      exact ih h1 hw (Or.inr ⟨h2, hs⟩) (by omega)

end Search

/-! ## Queues -/

section Queues

variable {lsc : UInt32} {queue : List UInt32}

/-- **The search succeeds**: for a queue of step times that rise up to `CLOCK_DIFF_MAX`, of which there are not too
many, and an error that is small against it, `compress_bisect_add` does not overflow and ends, and `check_line` accepts
what it finds. -/
theorem bisect_succeeds (h : Rising lsc queue) (hnear : ∀ i < queue.length, ticks lsc queue i ≤ 3 * 2 ^ 28)
    (herr : maxError.toNat ≤ 2 ^ 16) (hfew : queue.length ≤ 46340) :
    ∃ move, compressBisectAdd maxError lsc queue = some move ∧ checkLine maxError lsc queue move = true := by
  have hlen : 1 ≤ queue.length := List.length_pos_iff.mpr h.nonempty
  have hs : Spaced (minmaxPoint maxError lsc queue) (min queue.length 65535) :=
    spaced_of_rising h (by omega) (Nat.min_le_left _ _)
  have hlimits (i : ℕ) (hi : i < queue.length) := limits_eq maxError h hi
  have hearly := (early_le maxError lsc queue 0).2
  have hn : Near (minmaxPoint maxError lsc queue) (min queue.length 65535) := by
    refine ⟨hs, fun k hk => ?_, ?_, by omega⟩
    · rw [(hlimits k (by omega)).2]
      exact_mod_cast hnear k (by omega)
    · rw [(hlimits 0 (by omega)).1, (hlimits 0 (by omega)).2]
      omega
  have hord := hs.ordered 0 (by omega)
  have h0 := hs.nonneg
  have hmax := hn.near 0 (by omega)
  obtain ⟨⟨interval, count, add⟩, hloop⟩ := Search.loop_total (s := .start (minmaxPoint maxError lsc queue 0))
    (2 ^ 16 + 1) hn herr
    ⟨le_rfl, le_rfl, le_rfl, le_rfl, show (-0x8000 : ℤ) ≤ 0 by decide, show (0 : ℤ) ≤ 0x7fff by decide⟩
    ⟨⟨h0, (hord.trans hmax).trans (by norm_num)⟩,
      ((show (-(3 * 2 ^ 27 + 2 ^ 24) : ℤ) ≤ 0 by norm_num).trans h0).trans hord, hmax⟩
    (Or.inl ⟨rfl, rfl, hord, rfl⟩) (show (0x7fff : ℤ) - -0x8000 < (2 ^ 16 + 1 : ℕ) by norm_num)
  have hmove : compressBisectAdd maxError lsc queue =
      some ⟨UInt32.ofInt interval, UInt16.ofNat count, Int16.ofInt add⟩ := by
    unfold compressBisectAdd
    simp only [hloop, Option.map_some]
  obtain ⟨interval', count', add', hfound, heq⟩ := compressBisectAdd_found h hmove
  exact ⟨_, hmove, heq ▸ checkLine_of_found h hfound⟩

theorem bisect_succeeds_concreteCase :
    ∃ move, compressBisectAdd 20 100 [1100, 2090, 3105] = some move ∧ checkLine 20 100 [1100, 2090, 3105] move = true :=
  bisect_succeeds rising_concreteCase (by decide) (by decide) (by decide)

end Queues

end Cxsw.StepCompress
