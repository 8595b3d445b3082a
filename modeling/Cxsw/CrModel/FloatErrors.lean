import Mathlib.Tactic.FieldSimp
import Cxsw.CrModel.FloatMotion

/-!
# Cxsw.CrModel.FloatErrors — how far the coordinates are off in single precision (`CrMotion/CrMotionPlanner.cpp`)

Every product, quotient and sum of a move is rounded to 24 digits, so the steps that are planned and the coordinate that
the correction leaves may differ.  Here by how much, for moves of not too many steps.

* `roundAt_error`, `addSteps_error`: `ROUND`, and whole steps that are added to a coordinate.
* `FloatRange.correctSteps_error`: the steps of X, Y or E, and the way that they stand for.
* `FloatRange.lineSteps_correct`: the planner and the correction make the same steps of it.
* `FloatRange.correctZ_error`: what Z carries makes up for the steps, but for the roundings.
-/

namespace Cxsw.Motion

/-! ## The errors -/

section Errors

variable {n : ℕ} {current target x : ℚ} {a : Axis}

theorem op_natCast (h : n ≤ 2 ^ 24) : Arithmetic.single.op n = n := by
  have habs : |(n : ℤ)| ≤ 2 ^ 24 := by
    rw [Nat.abs_cast]
    exact_mod_cast h
  exact_mod_cast roundTo_intCast (by norm_num) habs

theorem op_intCast {k : ℤ} (h : |k| ≤ 2 ^ 24) : Arithmetic.single.op k = k := roundTo_intCast (by norm_num) h

theorem op_le_of_grid {y : ℚ} (hy : Arithmetic.single.op y = y) (h : x ≤ y) : Arithmetic.single.op x ≤ y := by
  have hmono := Arithmetic.single.op_le h
  rwa [hy] at hmono

/-- Numbers that are not rounded. -/
theorem op_of_mem_grid : ∀ y ∈ [(2 : ℚ) ^ 30 + 2 ^ 10, 2 - 1 / 2 ^ 23, 1, 15 / 16, 1 / 2, 7 / 16],
    Arithmetic.single.op y = y := by
  decide +kernel

/-- The constants of the conversions. -/
theorem const_bounds : 0 ≤ Arithmetic.single.const (1 / 1000000) ∧ Arithmetic.single.const (1 / 1000000) ≤ 7 / 16 ∧
    2 ≤ Arithmetic.single.const (254 / 10) ∧ Arithmetic.single.assign (100 / 100) = 1 := by
  decide +kernel

theorem eolAt_bounds : 0 < eolAt .single ∧ eolAt .single ≤ 101 / 100000000 := by
  decide +kernel

theorem roundAt_of_nonneg (h0 : 0 ≤ x) (h : x ≤ 2 ^ 30) :
    roundAt .single x = ⌊Arithmetic.single.op (x + 1 / 2)⌋ ∧ ⌊Arithmetic.single.op (x + 1 / 2)⌋ < 2 ^ 31 := by
  have hc := const_bounds.1
  have hup : Arithmetic.single.op (x + 1 / 2) ≤ 2 ^ 30 + 2 ^ 10 :=
    op_le_of_grid (op_of_mem_grid _ (by simp)) (by linarith)
  have hlt : ⌊Arithmetic.single.op (x + 1 / 2)⌋ < 2 ^ 31 :=
    Int.floor_lt.mpr (hup.trans_lt (by norm_num))
  unfold roundAt
  rw [if_neg (by linarith)]
  exact ⟨toS32_of_nonneg (Arithmetic.single.op_nonneg (by linarith)) hlt, hlt⟩

theorem roundAt_small (h0 : 0 ≤ x) (h : x ≤ 7 / 16) : roundAt .single x = 0 := by
  rw [(roundAt_of_nonneg h0 (h.trans (by norm_num))).1, Int.floor_eq_zero_iff]
  refine ⟨Arithmetic.single.op_nonneg (by linarith), ?_⟩
  calc Arithmetic.single.op (x + 1 / 2) ≤ 15 / 16 := op_le_of_grid (op_of_mem_grid _ (by simp)) (by linarith)
    _ < 1 := by norm_num

theorem roundAt_neg (h0 : 0 ≤ x) (h : x ≤ 2 ^ 30) : roundAt .single (-x) = -roundAt .single x := by
  have hc := const_bounds.2.1
  by_cases hneg : -x < -Arithmetic.single.const (1 / 1000000)
  · obtain ⟨hround, hlt⟩ := roundAt_of_nonneg h0 h
    rw [hround]
    unfold roundAt
    rw [if_pos hneg, show -x - 1 / 2 = -(x + 1 / 2) by ring, Arithmetic.single.op_neg]
    exact toS32_neg_of_nonneg (Arithmetic.single.op_nonneg (by linarith)) hlt
  · -- a number this small is rounded to zero from either side
    have hsmall : x ≤ 7 / 16 := by linarith [not_lt.mp hneg]
    have hlow : 0 ≤ Arithmetic.single.op (-x + 1 / 2) := Arithmetic.single.op_nonneg (by linarith)
    have hhigh : Arithmetic.single.op (-x + 1 / 2) ≤ 1 / 2 :=
      op_le_of_grid (op_of_mem_grid _ (by simp)) (by linarith)
    have hfloor : ⌊Arithmetic.single.op (-x + 1 / 2)⌋ = 0 :=
      Int.floor_eq_zero_iff.mpr ⟨hlow, hhigh.trans_lt (by norm_num)⟩
    rw [roundAt_small h0 hsmall, neg_zero]
    unfold roundAt
    rw [if_neg hneg, toS32_of_nonneg hlow (by rw [hfloor]; norm_num), hfloor]

/-- **`ROUND`** is off by a half and the rounding of its sum. -/
theorem roundAt_error (h : |x| ≤ 2 ^ 30) : |(roundAt .single x : ℚ) - x| ≤ 1 / 2 + (|x| + 1 / 2) / 2 ^ 24 := by
  have hpos : ∀ y : ℚ, 0 ≤ y → y ≤ 2 ^ 30 → |(roundAt .single y : ℚ) - y| ≤ 1 / 2 + (y + 1 / 2) / 2 ^ 24 := by
    intro y h0 hy
    have herr := single_op_error (y + 1 / 2)
    rw [abs_of_nonneg (show 0 ≤ y + 1 / 2 by linarith)] at herr
    obtain ⟨hlow, hhigh⟩ := abs_le.mp herr
    have hfloor := Int.floor_le (Arithmetic.single.op (y + 1 / 2))
    have hfloor' := Int.lt_floor_add_one (Arithmetic.single.op (y + 1 / 2))
    rw [(roundAt_of_nonneg h0 hy).1, abs_le]
    constructor <;> linarith
  rcases le_total 0 x with h0 | h0
  · rw [abs_of_nonneg h0] at h ⊢
    exact hpos x h0 h
  · rw [abs_of_nonpos h0] at h ⊢
    have hneg := hpos (-x) (by linarith) h
    have hodd := roundAt_neg (x := -x) (by linarith) h
    rw [neg_neg] at hodd
    rw [hodd, Int.cast_neg, ← abs_neg, show -(-(roundAt .single (-x) : ℚ) - x) = roundAt .single (-x) - -x by ring]
    exact hneg

/-- A move that starts less than `2 ^ 22` steps from zero and goes less than `2 ^ 18` steps. -/
structure FloatRange (n : ℕ) (current target : ℚ) : Prop where
  pos : 0 < n
  fine : n ≤ 400000
  place : |current| * n ≤ 2 ^ 22
  way : |target - current| * n ≤ 2 ^ 18

instance (n : ℕ) (current target : ℚ) : Decidable (FloatRange n current target) :=
  decidable_of_iff (0 < n ∧ n ≤ 400000 ∧ |current| * n ≤ 2 ^ 22 ∧ |target - current| * n ≤ 2 ^ 18)
    ⟨fun ⟨h1, h2, h3, h4⟩ => ⟨h1, h2, h3, h4⟩, fun h => ⟨h.pos, h.fine, h.place, h.way⟩⟩

theorem dis_error (hn : n ≤ 2 ^ 24) (current target : ℚ) :
    |Arithmetic.single.op (disAt .single current target * Arithmetic.single.op n) - (target - current) * n| ≤
      3 / 2 ^ 24 * (|target - current| * n) := by
  have hn0 : (0 : ℚ) ≤ n := Nat.cast_nonneg n
  have h1 := mul_le_mul_of_nonneg_right (single_op_error (target - current)) hn0
  have h2 := single_op_error (disAt .single current target * n)
  have hnabs : |(n : ℚ)| = n := Nat.abs_cast n
  rw [← hnabs, ← abs_mul, hnabs, sub_mul] at h1
  rw [op_natCast hn]
  rw [abs_mul, hnabs] at h2
  have hdis : |disAt .single current target| * n ≤ (1 + 1 / 2 ^ 24) * (|target - current| * n) := by
    have hsplit := abs_add_le (target - current) (disAt .single current target - (target - current))
    rw [add_sub_cancel] at hsplit
    have hone := mul_le_mul_of_nonneg_right (hsplit.trans (add_le_add_right (single_op_error (target - current)) _))
      hn0
    refine hone.trans (le_of_eq ?_)
    ring
  have hd : 0 ≤ |target - current| * n := mul_nonneg (abs_nonneg _) (Nat.cast_nonneg n)
  have hsum := abs_add_le (Arithmetic.single.op (disAt .single current target * n) - disAt .single current target * n)
    (disAt .single current target * n - (target - current) * n)
  rw [sub_add_sub_cancel] at hsum
  refine hsum.trans ((add_le_add h2 h1).trans ?_)
  linarith

/-- The way in steps, as it is rounded to whole ones. -/
def floatWay (n : ℕ) (current target : ℚ) : ℚ :=
  Arithmetic.single.op (disAt .single current target * Arithmetic.single.op n)

theorem FloatRange.floatWay_error (h : FloatRange n current target) :
    |floatWay n current target - (target - current) * n| ≤ 3 / 64 ∧ |floatWay n current target| ≤ 2 ^ 18 + 1 := by
  have herr := dis_error (n := n) (h.fine.trans (by norm_num)) current target
  have hway := h.way
  have hbound : |floatWay n current target - (target - current) * n| ≤ 3 / 64 := by
    refine herr.trans ?_
    linarith
  refine ⟨hbound, ?_⟩
  have hsplit := abs_add_le (floatWay n current target - (target - current) * n) ((target - current) * n)
  rw [sub_add_cancel, abs_mul (target - current), Nat.abs_cast] at hsplit
  linarith

theorem correctStepsAt_leftOut (h : a = .E ∧ |disAt .single current target| < minEAt .single) :
    correctStepsAt .single current target n a = 0 :=
  if_pos ⟨h.1, (abs_lt.mp h.2).2, (abs_lt.mp h.2).1⟩

/-- **The steps of X, Y or E** are the way in steps, up to little more than a half. -/
theorem FloatRange.correctSteps_error (h : FloatRange n current target)
    (hcut : a = .E → ¬|disAt .single current target| < minEAt .single) :
    |(correctStepsAt .single current target n a : ℚ) - (target - current) * n| ≤ 5 / 8 ∧
      |correctStepsAt .single current target n a| ≤ 2 ^ 18 + 2 := by
  obtain ⟨herr, hle⟩ := h.floatWay_error
  have hround := roundAt_error (x := floatWay n current target) (hle.trans (by norm_num))
  have hsteps : correctStepsAt .single current target n a = roundAt .single (floatWay n current target) :=
    if_neg fun hc => hcut hc.1 (abs_lt.mpr ⟨hc.2.2, hc.2.1⟩)
  rw [hsteps]
  have hnear : |(roundAt .single (floatWay n current target) : ℚ) - floatWay n current target| ≤ 17 / 32 := by
    refine hround.trans ?_
    have hpart := div_le_div_of_nonneg_right (add_le_add_left hle (1 / 2 : ℚ)) (show (0 : ℚ) ≤ 2 ^ 24 by norm_num)
    linarith
  constructor
  · have hsplit := abs_add_le ((roundAt .single (floatWay n current target) : ℚ) - floatWay n current target)
      (floatWay n current target - (target - current) * n)
    rw [sub_add_sub_cancel] at hsplit
    linarith
  · have hsplit := abs_add_le ((roundAt .single (floatWay n current target) : ℚ) - floatWay n current target)
      (floatWay n current target)
    rw [sub_add_cancel] at hsplit
    have hq : |(roundAt .single (floatWay n current target) : ℚ)| ≤ 2 ^ 18 + 2 := by linarith
    exact_mod_cast hq

theorem mmPerSteps_error (h0 : 0 < n) (hn : n ≤ 2 ^ 24) : |mmPerStepsAt .single n * n - 1| ≤ 1 / 2 ^ 24 := by
  have hpos : (0 : ℚ) < n := Nat.cast_pos.mpr h0
  have herr := mul_le_mul_of_nonneg_right (single_op_error (1 / (n : ℚ))) hpos.le
  have hmul : 1 / (n : ℚ) * n = 1 := div_mul_cancel₀ 1 hpos.ne'
  rw [← abs_of_pos hpos, ← abs_mul, abs_of_pos hpos, sub_mul, hmul, abs_of_pos (one_div_pos.mpr hpos),
    div_mul_eq_mul_div,
    hmul] at herr
  unfold mmPerStepsAt
  rwa [op_natCast hn]

/-- **Whole steps that are added to a coordinate**, in steps. -/
theorem addSteps_error (h0 : 0 < n) (hn : n ≤ 2 ^ 24) {k : ℤ} (hk : |k| ≤ 2 ^ 24) (x : ℚ) :
    |(Arithmetic.single.op (x + Arithmetic.single.op (Arithmetic.single.op k * mmPerStepsAt .single n)) - x) * n - k| ≤
      (|x| * n + 4 * |(k : ℚ)|) / 2 ^ 24 := by
  have hmm := mul_le_mul_of_nonneg_left (mmPerSteps_error h0 hn) (abs_nonneg (k : ℚ))
  rw [← abs_mul, mul_sub, mul_one] at hmm
  rw [op_intCast hk]
  set mm := mmPerStepsAt .single n
  set q := Arithmetic.single.op (k * mm)
  have hn0 : (0 : ℚ) ≤ n := Nat.cast_nonneg n
  have hscale : ∀ y z : ℚ, |y| ≤ z → |y * n| ≤ z * n := by
    intro y z hyz
    rw [abs_mul, abs_of_nonneg hn0]
    exact mul_le_mul_of_nonneg_right hyz hn0
  have hkmm : |(k : ℚ) * mm * n| ≤ (1 + 1 / 2 ^ 24) * |(k : ℚ)| := by
    have hsplit := abs_add_le ((k : ℚ) * (mm * n) - k) k
    rw [sub_add_cancel] at hsplit
    rw [mul_assoc]
    linarith
  have hq := hscale _ _ (single_op_error (k * mm))
  rw [div_mul_eq_mul_div, ← abs_of_nonneg hn0, ← abs_mul, abs_of_nonneg hn0] at hq
  have hqk : |q * n - k| ≤ (2 + 1 / 2 ^ 24) / 2 ^ 24 * |(k : ℚ)| := by
    have hsplit := abs_add_le ((q - k * mm) * n) (k * (mm * n) - k)
    rw [show (q - (k : ℚ) * mm) * n + (k * (mm * n) - k) = q * n - k by ring] at hsplit
    linarith
  have hsum := hscale _ _ (single_op_error (x + q))
  have hxq : |x + q| * n ≤ |x| * n + (1 + 1 / 2 ^ 22) * |(k : ℚ)| := by
    have hsplit := abs_add_le (x * n) (q * n)
    have hsplit' := abs_add_le (q * n - k) k
    rw [sub_add_cancel] at hsplit'
    rw [← add_mul, abs_mul (x + q), abs_mul x, abs_of_nonneg hn0] at hsplit
    linarith [abs_nonneg (k : ℚ)]
  have hlast := abs_add_le ((Arithmetic.single.op (x + q) - (x + q)) * n) (q * n - k)
  rw [show (Arithmetic.single.op (x + q) - (x + q)) * n + (q * n - k) = (Arithmetic.single.op (x + q) - x) * n - k by
    ring] at hlast
  rw [div_mul_eq_mul_div] at hsum
  linarith [abs_nonneg (k : ℚ)]

/-- **A coordinate that is converted to inches** and back is off by the roundings of a quotient and a product. -/
theorem inMmAt_mmToInchAt (x : ℚ) : |inMmAt .single .inch (mmToInchAt .single x) - x| ≤ 3 / 2 ^ 24 * |x| := by
  have hc : 0 < Arithmetic.single.const (254 / 10) := by linarith [const_bounds.2.2.1]
  unfold inMmAt mmToInchAt
  dsimp only
  set c := Arithmetic.single.const (254 / 10)
  set i := Arithmetic.single.assign (x / c)
  have hquot := mul_le_mul_of_nonneg_right (single_assign_error (x / c)) hc.le
  rw [mul_assoc, ← abs_of_pos hc, ← abs_mul, ← abs_mul, abs_of_pos hc, sub_mul, div_mul_cancel₀ x hc.ne'] at hquot
  have hprod := single_assign_error (i * c)
  have hle := abs_sub_abs_le_abs_sub (i * c) x
  have hsplit := abs_add_le (Arithmetic.single.assign (i * c) - i * c) (i * c - x)
  rw [sub_add_sub_cancel] at hsplit
  linarith [abs_nonneg x]

/-- The flow leaves the distance as it is: 100 percent, or not set. -/
def PlainFlowAt (flowRatio : ℚ) : Prop :=
  flowRatio = 100 ∨ Arithmetic.single.assign (flowRatio / 100) ≤ eolAt .single

/-- The moves of the extruder that the correction follows: a retract of the least extrusion or of none, and the flow not
changed, unless the distance is left out. -/
def ExtrudesAt (flowRatio : ℚ) (retract : Bool) (current target : ℚ) : Prop :=
  let dis := disAt .single current target
  (retract = true → dis = 0 ∨ minEAt .single ≤ |dis|) ∧ (|dis| < minEAt .single ∨ PlainFlowAt flowRatio)

theorem axisStepsAt_rounded {flowRatio delta : ℚ} (ha : a ≠ .Z) (hdelta : Arithmetic.single.op delta = delta)
    (hflow : a = .E → PlainFlowAt flowRatio) : axisStepsAt .single flowRatio delta n a =
      roundAt .single (Arithmetic.single.op (|delta| * Arithmetic.single.op n)) := by
  cases a with
  | X => rfl
  | Y => rfl
  | Z => exact absurd rfl ha
  | E =>
    unfold axisStepsAt
    dsimp only
    rcases hflow rfl with rfl | hsmall
    · have hone := const_bounds.2.2.2
      rw [hone, one_mul, ← Arithmetic.abs_op, hdelta, ite_self]
    · rw [if_neg (not_lt.mpr hsmall)]

theorem abs_floatWay (n : ℕ) (current target : ℚ) : |floatWay n current target| =
    Arithmetic.single.op (|disAt .single current target| * Arithmetic.single.op n) := by
  unfold floatWay
  rw [Arithmetic.abs_op, abs_mul, abs_of_nonneg (Arithmetic.single.op_nonneg (Nat.cast_nonneg n))]

theorem FloatRange.floatWay_small (h : FloatRange n current target)
    (hsmall : |disAt .single current target| ≤ eolAt .single) : |floatWay n current target| ≤ 7 / 16 := by
  have hfine : (n : ℚ) ≤ 400000 := by exact_mod_cast h.fine
  rw [abs_floatWay, op_natCast (h.fine.trans (by norm_num))]
  refine op_le_of_grid (op_of_mem_grid _ (by simp)) ?_
  calc |disAt .single current target| * n ≤ 101 / 100000000 * 400000 :=
        mul_le_mul (hsmall.trans eolAt_bounds.2) hfine (Nat.cast_nonneg n) (by norm_num)
    _ ≤ 7 / 16 := by norm_num

/-- **The planner and the correction** make the same steps of a way of X, Y or E. -/
theorem FloatRange.lineSteps_correct (h : FloatRange n current target) (ha : a ≠ .Z) {flowRatio : ℚ} {retract : Bool}
    (he : a = .E → ExtrudesAt flowRatio retract current target) :
    lineStepsAt .single flowRatio (deltaAt .single retract current target a) n a =
      correctStepsAt .single current target n a := by
  have hfloat : Arithmetic.single.op (disAt .single current target) = disAt .single current target := single_op_op _
  by_cases hcut : a = .E ∧ |disAt .single current target| < minEAt .single
  · obtain ⟨rfl, hlt⟩ := hcut
    have hzero : deltaAt .single retract current target .E = 0 := by
      cases retract with
      | false => exact if_pos ⟨rfl, rfl, hlt⟩
      | true =>
        have hdis := ((he rfl).1 rfl).resolve_right (not_le.mpr hlt)
        exact (if_neg (by simp)).trans hdis
    rw [hzero, lineStepsAt_zero]
    exact (correctStepsAt_leftOut ⟨rfl, hlt⟩).symm
  · have hdelta : deltaAt .single retract current target a = disAt .single current target :=
      if_neg fun hc => hcut ⟨hc.1, hc.2.2⟩
    have hcorrect : correctStepsAt .single current target n a = roundAt .single (floatWay n current target) :=
      if_neg fun hc => hcut ⟨hc.1, abs_lt.mpr ⟨hc.2.2, hc.2.1⟩⟩
    have hsteps := axisStepsAt_rounded (n := n) ha hfloat fun hE =>
      (he hE).2.resolve_left fun hlt => hcut ⟨hE, hlt⟩
    have hrange : |floatWay n current target| ≤ 2 ^ 30 := h.floatWay_error.2.trans (by norm_num)
    have hsign : 0 ≤ (Arithmetic.single.op n) := Arithmetic.single.op_nonneg (Nat.cast_nonneg n)
    rw [← abs_floatWay] at hsteps
    rw [hdelta, hcorrect]
    unfold lineStepsAt
    rw [hsteps]
    rcases lt_or_ge (disAt .single current target) 0 with hneg | hpos
    · -- backward
      have hnonpos : floatWay n current target ≤ 0 :=
        Arithmetic.single.op_nonpos (mul_nonpos_of_nonpos_of_nonneg hneg.le hsign)
      have hway : floatWay n current target = -|floatWay n current target| := by
        rw [abs_of_nonpos hnonpos, neg_neg]
      rw [if_pos (hneg.trans eolAt_bounds.1), hway, abs_neg, abs_abs, roundAt_neg (abs_nonneg _) hrange]
    · have hway : |floatWay n current target| = floatWay n current target :=
        abs_of_nonneg (Arithmetic.single.op_nonneg (mul_nonneg hpos hsign))
      rw [hway]
      split_ifs with heol
      · -- forward, by less than `EOL_DATA`: no step
        have hsmall := h.floatWay_small (by rw [abs_of_nonneg hpos]; exact heol.le)
        rw [hway] at hsmall
        rw [roundAt_small (hway ▸ abs_nonneg _) hsmall, neg_zero]
      · rfl

/-- `TempF` is the way of Z in steps. -/
theorem FloatRange.tempF_error (h : FloatRange n current target) :
    |tempFAt .single n current target - (current - target) * n| ≤ 4 / 2 ^ 24 * (|target - current| * n) ∧
      |tempFAt .single n current target| ≤ 2 ^ 18 + 1 := by
  have hn : (0 : ℚ) < n := Nat.cast_pos.mpr h.pos
  have hmm := mmPerSteps_error h.pos (h.fine.trans (by norm_num))
  set mm := mmPerStepsAt .single n with hmmdef
  have hmm0 : mm ≠ 0 := by
    intro h0
    rw [h0, zero_mul, zero_sub, abs_neg, abs_one] at hmm
    norm_num at hmm
  set w := Arithmetic.single.op (current - target) with hw
  have hwerr := mul_le_mul_of_nonneg_right (single_op_error (current - target)) hn.le
  rw [← hw, ← abs_of_pos hn, ← abs_mul, abs_of_pos hn, abs_sub_comm current target, div_mul_eq_mul_div] at hwerr
  have hwn : |w * n| ≤ (1 + 1 / 2 ^ 24) * (|target - current| * n) := by
    have hsplit := abs_add_le ((w - (current - target)) * n) ((current - target) * n)
    rw [← add_mul, sub_add_cancel, abs_mul (current - target), abs_of_pos hn, abs_sub_comm current target] at hsplit
    linarith
  -- the quotient, with the rounding of its divisor
  have hquot : |w * n - w / mm| ≤ |w / mm| / 2 ^ 24 := by
    have hfactor : w * n - w / mm = w / mm * (mm * n - 1) := by
      field_simp
    rw [hfactor, abs_mul, div_eq_mul_one_div |w / mm|]
    exact mul_le_mul_of_nonneg_left hmm (abs_nonneg _)
  have hle : |w / mm| ≤ (1 + 1 / 2 ^ 22) * |w * n| := by
    have hsplit := abs_sub_abs_le_abs_sub (w / mm) (w * n)
    rw [abs_sub_comm] at hsplit
    linarith [abs_nonneg (w / mm)]
  have hop := single_op_error (w / mm)
  have hd : 0 ≤ |target - current| * (n : ℚ) := mul_nonneg (abs_nonneg _) hn.le
  have hsum := abs_add_le (tempFAt .single n current target - w / mm) (w / mm - w * n)
  have hsum' := abs_add_le (tempFAt .single n current target - w * n) ((w - (current - target)) * n)
  rw [sub_add_sub_cancel] at hsum
  rw [show tempFAt .single n current target - w * n + (w - (current - target)) * n =
    tempFAt .single n current target - (current - target) * n by ring] at hsum'
  rw [abs_sub_comm (w / mm)] at hsum
  change |tempFAt .single n current target - w / mm| ≤ _ at hop
  have hbound : |tempFAt .single n current target - (current - target) * n| ≤
      4 / 2 ^ 24 * (|target - current| * n) := by linarith
  refine ⟨hbound, ?_⟩
  have hsplit := abs_add_le (tempFAt .single n current target - (current - target) * n) ((current - target) * n)
  rw [sub_add_cancel, abs_mul (current - target), abs_of_pos hn, abs_sub_comm current target] at hsplit
  linarith [h.way]

theorem mmPerSteps_bounds (h0 : 0 < n) (hn : n ≤ 2 ^ 24) :
    0 < mmPerStepsAt .single n ∧ mmPerStepsAt .single n ≤ 1 ∧ 1 - 1 / 2 ^ 24 ≤ mmPerStepsAt .single n * n := by
  have hn0 : (0 : ℚ) < n := Nat.cast_pos.mpr h0
  obtain ⟨hlow, -⟩ := abs_le.mp (mmPerSteps_error h0 hn)
  refine ⟨(mul_pos_iff_of_pos_right hn0).mp (by linarith), ?_, by linarith⟩
  unfold mmPerStepsAt
  rw [op_natCast hn]
  refine op_le_of_grid (op_of_mem_grid _ (by simp)) ?_
  rw [div_le_one hn0]
  exact_mod_cast h0

theorem truncated_rest (hx : Arithmetic.single.op x = x) :
    Arithmetic.single.op (x - truncQ x) = x - truncQ x ∧ |x - truncQ x| ≤ 1 - 1 / 2 ^ 24 := by
  obtain ⟨-, hrest⟩ := Arithmetic.single.op_truncQ x hx
  have hlt := abs_truncQ_sub_lt x
  rw [abs_sub_comm] at hlt
  refine ⟨hrest, le_of_lt_one (by norm_num) ?_ hlt⟩
  have habs := Arithmetic.single.abs_op (x - truncQ x)
  rw [hrest] at habs
  exact habs.symm

/-- The steps that Z takes are the whole part of its way, which is more than `EOL_DATA`. -/
theorem deltaStepAt_truncQ (h : FloatRange n current target)
    (hmoves : eolAt .single < |Arithmetic.single.op (current - target)|) :
    let tempF := tempFAt .single n current target
    deltaStepAt .single tempF = truncQ tempF ∧ |truncQ tempF| ≤ 2 ^ 24 := by
  intro tempF
  obtain ⟨hmm0, hmm1, -⟩ := mmPerSteps_bounds h.pos (h.fine.trans (by norm_num))
  have hle : |truncQ tempF| ≤ 2 ^ 18 + 1 := by
    have hcast := (abs_truncQ_le tempF).trans h.tempF_error.2
    exact_mod_cast hcast
  have hfar : eolAt .single < |tempF| := by
    refine hmoves.trans_le ?_
    show _ ≤ |tempFAt .single n current target|
    unfold tempFAt
    rw [Arithmetic.abs_op _ (_ / _), abs_div, abs_of_pos hmm0]
    have hmono := Arithmetic.single.op_le (le_div_self (abs_nonneg (Arithmetic.single.op (current - target)))
      hmm0 hmm1)
    rwa [← Arithmetic.abs_op, single_op_op] at hmono
  refine ⟨?_, hle.trans (by norm_num)⟩
  obtain ⟨hlow, hhigh⟩ := abs_le.mp hle
  have heol := eolAt_bounds.1
  unfold deltaStepAt
  split_ifs with hup
  · have hpos : 0 ≤ tempF := by
      by_contra hneg
      rw [abs_of_neg (not_le.mp hneg)] at hfar
      linarith
    rw [truncQ_of_nonneg hpos] at hlow hhigh ⊢
    exact toS32_intCast (by omega) (by omega)
  · have hneg : tempF < 0 := by linarith [not_lt.mp hup]
    have htrunc : truncQ tempF = ⌈tempF⌉ := if_pos hneg
    rw [htrunc] at hlow hhigh ⊢
    exact toS32_intCast (by omega) (by omega)

theorem tempStepAt_one (hx : Arithmetic.single.op x = x) (h : |x| < 2) :
    |tempStepAt .single x| ≤ 1 ∧ Arithmetic.single.op (x - tempStepAt .single x) = x - tempStepAt .single x ∧
      |x - tempStepAt .single x| ≤ 1 - 1 / 2 ^ 24 := by
  have hbounds : 0 ≤ Arithmetic.single.op (1 - eolAt .single) ∧
      Arithmetic.single.op (1 - eolAt .single) ≤ 1 - 1 / 2 ^ 24 ∧
      Arithmetic.single.op (-1 + eolAt .single) ≤ 0 ∧
      -(1 - 1 / 2 ^ 24) ≤ Arithmetic.single.op (-1 + eolAt .single) := by
    decide +kernel
  have htrunc : |truncQ x| ≤ 1 := by
    have hlt : |(truncQ x : ℚ)| < 2 := (abs_truncQ_le x).trans_lt h
    have hlt' : |truncQ x| < 2 := by exact_mod_cast hlt
    omega
  obtain ⟨hlow, hhigh⟩ := abs_le.mp htrunc
  unfold tempStepAt
  split_ifs with hup hdown
  · have hpos : 0 ≤ x := hbounds.1.trans hup.le
    rw [truncQ_of_nonneg hpos] at hlow hhigh
    rw [toS32_intCast (by omega) (by omega), ← truncQ_of_nonneg hpos]
    exact ⟨htrunc, truncated_rest hx⟩
  · rcases (hdown.le.trans hbounds.2.2.1).lt_or_eq with hneg | rfl
    · have hceil : truncQ x = ⌈x⌉ := if_pos hneg
      rw [hceil] at hlow hhigh
      rw [toS32_intCast (by omega) (by omega), ← hceil]
      exact ⟨htrunc, truncated_rest hx⟩
    · exact absurd hdown hbounds.2.2.1.not_gt
  · rw [Int.cast_zero, sub_zero]
    exact ⟨by norm_num, hx, abs_le.mpr ⟨hbounds.2.2.2.trans (not_lt.mp hdown), (not_lt.mp hup).trans hbounds.2.1⟩⟩

/-- What Z carries: a `FLOAT` below one. -/
def CarryOk (r : Remainder) : Prop := Arithmetic.single.op r.deltamm = r.deltamm ∧ |r.deltamm| ≤ 1 - 1 / 2 ^ 24

/-- What Z carries with the part of a step that a way leaves. -/
theorem grownAt_error (h : FloatRange n current target) {r : Remainder} (hr : CarryOk r)
    (hmoves : eolAt .single < |Arithmetic.single.op (current - target)|) :
    let tempF := tempFAt .single n current target
    let grown := grownAt .single r.deltamm tempF
    Arithmetic.single.op grown = grown ∧ |grown| < 2 ∧ |grown - (r.deltamm + (tempF - truncQ tempF))| ≤ 2 / 2 ^ 24 := by
  intro tempF grown
  obtain ⟨hstep, hle⟩ := deltaStepAt_truncQ h hmoves
  obtain ⟨hrest, hone⟩ := truncated_rest (x := tempF) (single_op_op _)
  have hgrown : grown = Arithmetic.single.op (r.deltamm + (tempF - truncQ tempF)) := by
    show grownAt .single r.deltamm tempF = _
    unfold grownAt
    rw [hstep, op_intCast hle, hrest]
  have hsum : |r.deltamm + (tempF - truncQ tempF)| ≤ 2 - 1 / 2 ^ 23 := by
    have hsplit := abs_add_le r.deltamm (tempF - truncQ tempF)
    linarith [hr.2]
  have herr := single_op_error (r.deltamm + (tempF - truncQ tempF))
  rw [hgrown]
  refine ⟨single_op_op _, ?_, by linarith⟩
  rw [Arithmetic.abs_op]
  exact (op_le_of_grid (op_of_mem_grid _ (by simp)) hsum).trans_lt (by norm_num)

/-- By how much the roundings of a move may be off, in steps. -/
def moveSlack (n : ℕ) (current target : ℚ) : ℚ := (|current| * n + 5 * (|target - current| * n) + 12) / 2 ^ 24

/-- **Z**: what it carries is the difference between the coordinate and the steps of the correction, but for the
roundings. -/
theorem FloatRange.correctZ_error (h : FloatRange n current target) {r : Remainder} (hr : CarryOk r)
    (hmoves : eolAt .single < |Arithmetic.single.op (current - target)|) :
    let z := correctZAt .single n r current target
    |-(deltaStepAt .single (tempFAt .single n current target) : ℚ) - (z.1 - current) * n -
      (z.2.deltamm - r.deltamm)| ≤ moveSlack n current target ∧ CarryOk z.2 := by
  obtain ⟨hT, -⟩ := h.tempF_error
  obtain ⟨hstep, -⟩ := deltaStepAt_truncQ h hmoves
  obtain ⟨hfloat, hgrown, herr⟩ := grownAt_error h hr hmoves
  intro z
  set T := tempFAt .single n current target with hTdef
  set d := grownAt .single r.deltamm T with hddef
  obtain ⟨hk, hkept, hbelow⟩ := tempStepAt_one hfloat hgrown
  set k := tempStepAt .single d with hkdef
  have hopk : Arithmetic.single.op k = k := op_intCast (hk.trans (by norm_num))
  have hlast := addSteps_error h.pos (h.fine.trans (by norm_num)) (hk.trans (by norm_num)) target
  rw [hopk] at hlast
  set l := Arithmetic.single.op (target + Arithmetic.single.op (k * mmPerStepsAt .single n))
  have hz : z = (l, ⟨d - k, l⟩) := by
    show correctZAt .single n r current target = _
    unfold correctZAt
    rw [if_pos hmoves, ← hTdef]
    dsimp only
    rw [← hddef, ← hkdef, hopk, hkept]
  rw [hz, hstep]
  refine ⟨?_, hkept, hbelow⟩
  dsimp only
  have htarget : |target| * n ≤ |current| * n + |target - current| * n := by
    rw [← add_mul]
    refine mul_le_mul_of_nonneg_right ?_ (Nat.cast_nonneg n)
    have hsplit := abs_add_le current (target - current)
    rwa [add_sub_cancel] at hsplit
  have hk1 : |(k : ℚ)| ≤ 1 := by exact_mod_cast hk
  have hsplit : -(truncQ T : ℚ) - (l - current) * n - (d - k - r.deltamm) =
      -((l - target) * n - k) - (d - (r.deltamm + (T - truncQ T))) - (T - (current - target) * n) := by ring
  rw [hsplit]
  have h1 := abs_sub (-((l - target) * n - k) - (d - (r.deltamm + (T - truncQ T)))) (T - (current - target) * n)
  have h2 := abs_sub (-((l - target) * n - k)) (d - (r.deltamm + (T - truncQ T)))
  rw [abs_neg] at h2
  unfold moveSlack
  linarith

end Errors

end Cxsw.Motion
