import Cxsw.CrMotion.PlanRing

/-!
# Cxsw.CrMotion.CorrectTarget — the coordinate that a move reaches (`CrMotion/CrMotionPlanner.cpp`)

Steppers make whole steps, so a move ends beside its target.  `StuffLineBuff` takes the steps of a line from its
displacement; `CorrectTargetCoordinate` computes again where they lead.  X, Y and E are rounded in both, Z is cut off in
the first, and the second carries what was cut off from move to move.

* `correctTargetCoordinate`: the function.
* `lineSteps_eq_correctSteps`, `lineSteps_e`: both round to the same steps.
* `correctZ_carry`: what Z carries is the difference between the coordinate and the steps, and less than a step.
* `planBlock_moves`: the look-ahead leaves the steps of the line that was planned as they are.
-/

namespace Cxsw.Motion

/-! ## The correction -/

section Defs

/-- What is carried from call to call: `CrMotion::Deltamm[Z]`, in steps, and `OldTarget.Z`. -/
structure Remainder where
  deltamm : ℚ
  oldTarget : ℚ

/-- `DeltaStep[Z]`: the steps towards zero. -/
def deltaStepZ (tempF : ℚ) : ℤ := if -eolData < tempF then toS32 (⌊tempF⌋ : ℤ) else toS32 (⌈tempF⌉ : ℤ)

/-- `TempStep`: the whole step that the remainder has grown to. -/
def tempStep (deltamm : ℚ) : ℤ :=
  if 1 - eolData < deltamm then toS32 (⌊deltamm⌋ : ℤ)
  else if deltamm < -1 + eolData then toS32 (⌈deltamm⌉ : ℤ)
  else 0

/-- `TargetCorrected->Z`, with the remainder that is left. -/
def correctZ (mmPerSteps : ℚ) (r : Remainder) (current target : ℚ) : ℚ × Remainder :=
  if eolData < |current - target| then
    let tempF := (current - target) / mmPerSteps
    let deltamm := r.deltamm + (tempF - deltaStepZ tempF)
    let corrected := target + tempStep deltamm * mmPerSteps
    (corrected, ⟨deltamm - tempStep deltamm, corrected⟩)
  else (r.oldTarget, r)

/-- `Steps`; that of Z is not used. -/
def correctSteps (delta : ℚ) (stepsPerMm : ℕ) : Axis → ℤ
  | .X => toS32 (round (delta * stepsPerMm))
  | .Y => toS32 (round (delta * stepsPerMm))
  | .Z => toS32 (⌊|delta| * stepsPerMm⌋ : ℤ)
  | .E => if delta < minEChange ∧ -minEChange < delta then 0 else toS32 (round (delta * stepsPerMm))

/-- `CorrectTargetCoordinate`, for a result that was zero: when a stepper does not answer it stays so. -/
def correctTargetCoordinate (m : Machine) (r : Remainder) (current target : Axis → ℚ) : (Axis → ℚ) × Remainder :=
  match axisAttr m with
  | none => (fun _ => 0, r)
  | some attr =>
    let mmPerSteps : Axis → ℚ := fun a => 1 / (attr a).stepsPerMm
    let steps : Axis → ℤ := fun a => correctSteps (target a - current a) (attr a).stepsPerMm a
    let z := correctZ (mmPerSteps .Z) r (current .Z) (target .Z)
    (fun
      | .Z => z.1
      | a => current a + steps a * mmPerSteps a, z.2)

/-- The steps of a line on an axis, signed by its direction. -/
def movedSteps (x : PlanLineAxis) : ℤ :=
  match x.dir with
  | .forward => x.steps
  | .backward => -x.steps

/-- The signed steps that `StuffLineBuff` plans for a displacement. -/
def lineSteps (flowRatio delta : ℚ) (stepsPerMm : ℕ) (a : Axis) : ℤ :=
  if delta < eolData then -axisSteps flowRatio delta stepsPerMm a else axisSteps flowRatio delta stepsPerMm a

/-- The nearest whole number. -/
def halfUp (x : ℚ) : ℤ := ⌊x + 1 / 2⌋

/-- The whole steps in a distance of `x` steps. -/
def wholeSteps (x : ℚ) : Axis → ℤ
  | .Z => ⌊x⌋
  | _ => halfUp x

/-- The steps per millimeter for which a distance below `EOL_DATA`, whose direction counts as backward or which is not
corrected, is no step. -/
def Resolution (n : ℕ) : Axis → Prop
  | .X | .Y => 0 < n ∧ n ≤ 500000
  | .Z => 0 < n ∧ n < 1000000
  | .E => 0 < n

/-- The flow leaves the distance as it is: 100 percent, or not set. -/
def PlainFlow (flowRatio : ℚ) : Prop := flowRatio = 100 ∨ flowRatio / 100 ≤ eolData

end Defs

/-! ## Rounding -/

section Rounding

theorem halfUp_nonneg {x : ℚ} (h : 0 ≤ x) : 0 ≤ halfUp x := Int.floor_nonneg.mpr (by linarith)

theorem halfUp_eq_zero {x : ℚ} (h0 : 0 ≤ x) (h1 : x < 1 / 2) : halfUp x = 0 := by
  unfold halfUp
  rw [Int.floor_eq_zero_iff]
  constructor <;> linarith

theorem round_of_nonneg {x : ℚ} (h : 0 ≤ x) : round x = x + 1 / 2 := by
  unfold round
  rw [if_neg (by linarith)]

/-- A number that is not negative is rounded to the nearest. -/
theorem toS32_round_of_nonneg {x : ℚ} (h : 0 ≤ x) (hlt : halfUp x < 2 ^ 31) : toS32 (round x) = halfUp x := by
  rw [round_of_nonneg h]
  exact toS32_of_nonneg (by linarith) hlt

/-- `ROUND` is odd, also between `-EOL_DATA` and zero, where it adds a half to a negative number. -/
theorem toS32_round_of_neg {x : ℚ} (h : x < 0) (hlt : halfUp (-x) < 2 ^ 31) : toS32 (round x) = -halfUp (-x) := by
  by_cases hs : x < -(1 / 1000000)
  · have hround : round x = -(-x + 1 / 2) := by
      unfold round
      rw [if_pos hs]
      ring
    rw [hround]
    exact toS32_neg_of_nonneg (by linarith) hlt
  · have hround : round x = x + 1 / 2 := by
      unfold round
      rw [if_neg hs]
    have hsmall : -(1 / 1000000) ≤ x := not_lt.mp hs
    have hz : ⌊x + 1 / 2⌋ = 0 := by
      rw [Int.floor_eq_zero_iff]
      constructor <;> linarith
    rw [hround, toS32_of_nonneg (by linarith) (by rw [hz]; norm_num), hz,
      halfUp_eq_zero (by linarith) (by linarith), neg_zero]

theorem steps_nonneg (delta : ℚ) (n : ℕ) : 0 ≤ |delta| * (n : ℚ) := mul_nonneg (abs_nonneg _) (Nat.cast_nonneg _)

theorem roundedSteps {x : ℚ} (h : 0 ≤ x) (hlt : halfUp x < 2 ^ 31) :
    (u32OfS32 (toS32 (round x)) : ℤ) = halfUp x := by
  have h0 := halfUp_nonneg h
  rw [toS32_round_of_nonneg h hlt, u32OfS32_of_nonneg h0 hlt, Int.toNat_of_nonneg h0]

/-- **Rounding with the direction apart**: the nearest step count of the distance, signed by the direction of the line,
is the rounded displacement, if the distances that count as backward although they are not round to nothing. -/
theorem signed_halfUp {delta : ℚ} {n : ℕ} (hn : 0 < n) (hlt : halfUp (|delta| * n) < 2 ^ 31)
    (hsmall : 0 ≤ delta → delta < eolData → halfUp (|delta| * n) = 0) :
    (if delta < eolData then -halfUp (|delta| * n) else halfUp (|delta| * n)) = toS32 (round (delta * n)) := by
  have hn' : (0 : ℚ) < n := Nat.cast_pos.mpr hn
  by_cases hd : delta < 0
  · have hneg : delta * n < 0 := mul_neg_of_neg_of_pos hd hn'
    have habs : |delta| * (n : ℚ) = -(delta * n) := by
      rw [abs_of_neg hd]
      ring
    have hle : delta < eolData := by
      unfold eolData
      linarith
    rw [habs] at hlt ⊢
    rw [if_pos hle, toS32_round_of_neg hneg hlt]
  · have hd0 : 0 ≤ delta := not_lt.mp hd
    have habs : |delta| * (n : ℚ) = delta * n := by rw [abs_of_nonneg hd0]
    have hround : toS32 (round (delta * n)) = halfUp (|delta| * n) := by
      rw [habs] at hlt ⊢
      exact toS32_round_of_nonneg (mul_nonneg hd0 hn'.le) hlt
    rw [hround]
    by_cases hle : delta < eolData
    · rw [if_pos hle, hsmall hd0 hle, neg_zero]
    · rw [if_neg hle]

end Rounding

/-! ## X, Y and E -/

section Rounded

variable {flowRatio delta : ℚ} {n : ℕ}

theorem lineSteps_eq_correctSteps {a : Axis} (ha : a = .X ∨ a = .Y) (hn : Resolution n a)
    (hlt : wholeSteps (|delta| * n) a < 2 ^ 31) : lineSteps flowRatio delta n a = correctSteps delta n a := by
  -- both axes are treated alike
  have hxy : ∀ (hn : 0 < n ∧ n ≤ 500000), halfUp (|delta| * n) < 2 ^ 31 →
      (if delta < eolData then -(u32OfS32 (toS32 (round (|delta| * n))) : ℤ)
        else (u32OfS32 (toS32 (round (|delta| * n))) : ℤ)) = toS32 (round (delta * n)) := by
    intro hn hlt
    rw [roundedSteps (steps_nonneg _ _) hlt]
    refine signed_halfUp hn.1 hlt fun h0 hle => halfUp_eq_zero (steps_nonneg _ _) ?_
    have hn' : (n : ℚ) ≤ 500000 := by exact_mod_cast hn.2
    rw [abs_of_nonneg h0]
    unfold eolData at hle
    calc delta * n ≤ delta * 500000 := mul_le_mul_of_nonneg_left hn' h0
      _ < 1 / 1000000 * 500000 := mul_lt_mul_of_pos_right hle (by norm_num)
      _ = 1 / 2 := by norm_num
  obtain rfl | rfl := ha
  · exact hxy hn hlt
  · exact hxy hn hlt

theorem flowed_of_plain (h : PlainFlow flowRatio) : flowed flowRatio delta n = |delta| * n := by
  unfold flowed
  obtain h | h := h
  · rw [h]
    split_ifs
    · norm_num
    · rfl
  · rw [if_neg (not_lt.mpr h)]

theorem flowed_zero : flowed flowRatio 0 n = 0 := by
  unfold flowed
  simp

/-- A distance below the least extrusion is left out in both, whatever the flow is. -/
theorem lineSteps_e {d : ℚ} (hn : 0 < n) (hd : d = if |delta| < minEChange then 0 else delta)
    (hlt : halfUp (|delta| * n) < 2 ^ 31) (hflow : |delta| < minEChange ∨ PlainFlow flowRatio) :
    lineSteps flowRatio d n .E = correctSteps delta n .E := by
  unfold lineSteps axisSteps correctSteps
  dsimp only
  by_cases hmin : |delta| < minEChange
  · rw [if_pos hmin] at hd
    have hcorrect : delta < minEChange ∧ -minEChange < delta := ⟨(abs_lt.mp hmin).2, (abs_lt.mp hmin).1⟩
    have hz : halfUp 0 = 0 := halfUp_eq_zero le_rfl (by norm_num)
    rw [hd, flowed_zero, roundedSteps le_rfl (by rw [hz]; norm_num), hz, neg_zero, ite_self]
    exact (if_pos hcorrect).symm
  · rw [if_neg hmin] at hd
    have hcorrect : ¬(delta < minEChange ∧ -minEChange < delta) := fun h => hmin (abs_lt.mpr ⟨h.2, h.1⟩)
    rw [if_neg hcorrect, hd, flowed_of_plain (hflow.resolve_left hmin), roundedSteps (steps_nonneg _ _) hlt]
    refine signed_halfUp hn hlt fun h0 hle => absurd ?_ hmin
    rw [abs_of_nonneg h0]
    unfold eolData at hle
    unfold minEChange
    linarith

end Rounded

/-! ## Z -/

section Carried

/-- What `tempStep` leaves of a remainder is less than a step. -/
theorem tempStep_rest {x : ℚ} (h : |x| < 2) : |x - tempStep x| < 1 := by
  obtain ⟨h1, h2⟩ := abs_lt.mp h
  rw [abs_lt]
  unfold tempStep eolData
  split_ifs with hup hdown
  · have hfloor : 0 ≤ ⌊x⌋ ∧ ⌊x⌋ < 2 := ⟨Int.floor_nonneg.mpr (by linarith), Int.floor_lt.mpr (by exact_mod_cast h2)⟩
    rw [toS32_intCast (by omega) (by omega)]
    constructor
    · linarith [Int.floor_le x]
    · linarith [Int.lt_floor_add_one x]
  · have hceil : -2 < ⌈x⌉ ∧ ⌈x⌉ ≤ 0 := ⟨Int.lt_ceil.mpr (by exact_mod_cast h1), Int.ceil_le.mpr (by
      rw [Int.cast_zero]
      linarith)⟩
    rw [toS32_intCast (by omega) (by omega)]
    constructor
    · linarith [Int.ceil_lt_add_one x]
    · linarith [Int.le_ceil x]
  · rw [Int.cast_zero]
    constructor <;> linarith

/-- The step count of a distance that is cut off. -/
theorem cutSteps {flowRatio delta : ℚ} {n : ℕ} (hlt : ⌊|delta| * (n : ℚ)⌋ < 2 ^ 31) :
    (axisSteps flowRatio delta n .Z : ℤ) = ⌊|delta| * (n : ℚ)⌋ := by
  have h0 : 0 ≤ ⌊|delta| * (n : ℚ)⌋ := Int.floor_nonneg.mpr (steps_nonneg _ _)
  unfold axisSteps
  rw [toS32_intCast (by omega) hlt, u32OfS32_of_nonneg h0 hlt, Int.toNat_of_nonneg h0]

/-- `DeltaStep[Z]` is the step count of the line with the sign turned; its fraction is less than a step. -/
theorem deltaStepZ_eq {flowRatio delta : ℚ} {n : ℕ} (hn : 0 < n) (hdelta : eolData < |delta|)
    (hlt : ⌊|delta| * (n : ℚ)⌋ < 2 ^ 31) :
    deltaStepZ (-delta * n) = -lineSteps flowRatio delta n .Z ∧ |-delta * n - deltaStepZ (-delta * n)| < 1 := by
  have hn' : (1 : ℚ) ≤ n := by exact_mod_cast hn
  have h0 : 0 ≤ ⌊|delta| * (n : ℚ)⌋ := Int.floor_nonneg.mpr (steps_nonneg _ _)
  have hle : |delta| ≤ |delta| * n := le_mul_of_one_le_right (abs_nonneg _) hn'
  unfold lineSteps deltaStepZ
  rw [cutSteps hlt]
  unfold eolData at *
  by_cases hd : delta < 0
  · rw [abs_of_neg hd] at *
    rw [if_pos (by linarith), if_pos (by linarith), toS32_intCast (by omega) hlt, neg_neg, abs_lt]
    refine ⟨rfl, ?_, ?_⟩
    · linarith [Int.floor_le (-delta * n)]
    · linarith [Int.lt_floor_add_one (-delta * n)]
  · rw [abs_of_nonneg (not_lt.mp hd)] at *
    have hceil : ⌈-delta * (n : ℚ)⌉ = -⌊delta * (n : ℚ)⌋ := by rw [neg_mul, Int.ceil_neg]
    rw [if_neg (by linarith), if_neg (by linarith), hceil, toS32_intCast (by omega) (by omega), abs_lt]
    refine ⟨rfl, ?_, ?_⟩
    · push_cast
      linarith [Int.lt_floor_add_one (delta * n)]
    · push_cast
      linarith [Int.floor_le (delta * n)]

theorem lineSteps_z_small {flowRatio delta : ℚ} {n : ℕ} (hn : n < 1000000) (hdelta : |delta| ≤ eolData) :
    lineSteps flowRatio delta n .Z = 0 := by
  have hn' : (n : ℚ) < 1000000 := by exact_mod_cast hn
  have hz : ⌊|delta| * (n : ℚ)⌋ = 0 := by
    rw [Int.floor_eq_zero_iff]
    refine ⟨steps_nonneg _ _, ?_⟩
    unfold eolData at hdelta
    calc |delta| * n ≤ 1 / 1000000 * n := mul_le_mul_of_nonneg_right hdelta (Nat.cast_nonneg _)
      _ < 1 / 1000000 * 1000000 := mul_lt_mul_of_pos_left hn' (by norm_num)
      _ = 1 := by norm_num
  unfold lineSteps
  rw [cutSteps (by rw [hz]; norm_num), hz, neg_zero, ite_self]

/-- **The carry**: the steps of the line are the way of the coordinate and of the remainder together, and the remainder
stays below a step. -/
theorem correctZ_carry {n : ℕ} (hn : Resolution n .Z) {flowRatio : ℚ} {r : Remainder} {current target : ℚ}
    (hr : |r.deltamm| < 1) (hold : r.oldTarget = current)
    (hlt : wholeSteps (|target - current| * n) .Z < 2 ^ 31) :
    (correctZ (1 / n) r current target).1 * n + (correctZ (1 / n) r current target).2.deltamm =
      current * n + r.deltamm + lineSteps flowRatio (target - current) n .Z ∧
      |(correctZ (1 / n) r current target).2.deltamm| < 1 ∧
      (correctZ (1 / n) r current target).2.oldTarget = (correctZ (1 / n) r current target).1 := by
  have hn0 : (n : ℚ) ≠ 0 := Nat.cast_ne_zero.mpr hn.1.ne'
  unfold correctZ
  rw [abs_sub_comm current target]
  by_cases hdelta : eolData < |target - current|
  · rw [if_pos hdelta]
    dsimp only
    have htemp : (current - target) / (1 / (n : ℚ)) = -(target - current) * n := by
      rw [div_div_eq_mul_div, div_one]
      ring
    obtain ⟨hsteps, hfrac⟩ := @deltaStepZ_eq flowRatio _ _ hn.1 hdelta hlt
    rw [htemp]
    set deltamm := r.deltamm + (-(target - current) * n - deltaStepZ (-(target - current) * n)) with hdeltamm
    have hgrown : |deltamm| < 2 := by
      have hsum := abs_add_le r.deltamm (-(target - current) * n - deltaStepZ (-(target - current) * n))
      rw [← hdeltamm] at hsum
      linarith
    refine ⟨?_, tempStep_rest hgrown, rfl⟩
    have hback : (tempStep deltamm : ℚ) * (1 / n) * n = tempStep deltamm := by
      rw [mul_assoc, one_div, inv_mul_cancel₀ hn0, mul_one]
    calc (target + tempStep deltamm * (1 / n)) * n + (deltamm - tempStep deltamm)
        = target * n + deltamm := by rw [add_mul, hback]; ring
      _ = current * n + r.deltamm - deltaStepZ (-(target - current) * n) := by rw [hdeltamm]; ring
      _ = current * n + r.deltamm + lineSteps flowRatio (target - current) n .Z := by rw [hsteps]; push_cast; ring
  · rw [if_neg hdelta, lineSteps_z_small hn.2 (not_lt.mp hdelta), hold]
    exact ⟨by simp, hr, rfl⟩

end Carried

/-! ## The line in the ring -/

section InRing

theorem sameMove_update {buff buff' : ℕ → PlanLine} (h : ∀ k, SameMove (buff k) (buff' k)) {i : ℕ} {line : PlanLine}
    (hl : SameMove (buff' i) line) : ∀ k, SameMove (buff k) (Function.update buff' i line k) := by
  intro k
  obtain rfl | hk := eq_or_ne k i
  · rw [Function.update_self]
    exact (h k).trans hl
  · rw [Function.update_of_ne hk]
    exact h k

theorem reverseLoop_sameMove {buff : ℕ → PlanLine} (smooth : ℕ) :
    ∀ (fuel : ℕ) (buff' : ℕ → PlanLine) (index : ℕ) (next : Option ℕ), (∀ k, SameMove (buff k) (buff' k)) →
      ∀ k, SameMove (buff k) (reverseLoop smooth fuel buff' index next k)
  | 0, _, _, _, h => h
  | fuel + 1, buff', index, next, h => by
    have h1 := sameMove_update h (reverseAdjust_rewrites (buff' index) (next.map buff')).1
    unfold reverseLoop
    dsimp only
    split_ifs
    · exact h
    · exact reverseLoop_sameMove smooth fuel _ _ _ h1
    · exact h1

theorem forwardLoop_sameMove {buff : ℕ → PlanLine} (tail : ℕ) :
    ∀ (fuel : ℕ) (buff' : ℕ → PlanLine) (smooth index : ℕ) (previous : Option ℕ), (∀ k, SameMove (buff k) (buff' k)) →
      ∀ k, SameMove (buff k) ((forwardLoop tail fuel buff' smooth index previous).1 k)
  | 0, _, _, _, _, h => h
  | fuel + 1, buff', smooth, index, previous, h => by
    unfold forwardLoop
    dsimp only
    split_ifs
    · exact h
    · cases previous with
      | none => exact forwardLoop_sameMove tail fuel _ _ _ _ h
      | some p =>
        obtain ⟨⟨h1, -⟩, h2, -⟩ := forwardAdjust_rewrites (buff' p) (buff' index)
        refine forwardLoop_sameMove tail fuel _ _ _ _ (sameMove_update (sameMove_update h h1) ?_)
        -- the second store may be into the slot of the first
        obtain rfl | hne := eq_or_ne index p
        · rw [Function.update_self]
          exact h2
        · rw [Function.update_of_ne hne]
          exact h2
    · exact forwardLoop_sameMove tail fuel _ _ _ _ h

theorem trapezoidLoop_sameMove {buff : ℕ → PlanLine} (tail : ℕ) :
    ∀ (fuel : ℕ) (buff' : ℕ → PlanLine) (index : ℕ), (∀ k, SameMove (buff k) (buff' k)) →
      ∀ k, SameMove (buff k) (trapezoidLoop tail fuel buff' index k)
  | 0, _, _, h => h
  | fuel + 1, buff', index, h => by
    unfold trapezoidLoop
    dsimp only
    split_ifs
    · exact h
    · exact trapezoidLoop_sameMove tail fuel _ _ (sameMove_update h (calculateForLine_rewrites _).1)
    · exact trapezoidLoop_sameMove tail fuel _ _ h

/-- The look-ahead changes no steps and no directions. -/
theorem smoothRecalc_sameMove (g : PlanRing) (k : ℕ) : SameMove (g.lineBuff k) ((smoothRecalc g).lineBuff k) := by
  have hrefl : ∀ k, SameMove (g.lineBuff k) (g.lineBuff k) := fun k => SameMove.refl _
  unfold smoothRecalc trapezoidCalculate
  dsimp only
  refine trapezoidLoop_sameMove _ _ _ _ ?_ k
  split_ifs
  · exact forwardLoop_sameMove _ _ _ _ _ _ (reverseLoop_sameMove _ _ _ _ _ hrefl)
  · exact hrefl

theorem SameMove.movedSteps_eq {l k : PlanLine} (h : SameMove l k) (a : Axis) :
    movedSteps (k.axis a) = movedSteps (l.axis a) := by
  unfold movedSteps
  rw [(h a).1, (h a).2]

/-- What `StuffLineBuff` writes, as signed steps. -/
theorem stuffLineBuff_moves {m : Machine} {attr : Axis → StepperAttr} {flowRatio : ℚ} {prev prev' : Previous}
    {delta : Axis → ℚ} {block line : PlanLine} (hattr : axisAttr m = some attr)
    (h : stuffLineBuff m flowRatio prev delta block = some (line, prev')) (a : Axis) :
    movedSteps (line.axis a) = lineSteps flowRatio (delta a) (attr a).stepsPerMm a := by
  unfold stuffLineBuff at h
  rw [hattr] at h
  have hline : line = (stuffBlock m attr flowRatio prev delta block).1 := (congrArg Prod.fst (Option.some.inj h)).symm
  rw [hline]
  unfold lineSteps
  by_cases hd : delta a < eolData
  · rw [if_pos hd]
    simp [movedSteps, stuffBlock, dirOf, hd]
  · rw [if_neg hd]
    simp [movedSteps, stuffBlock, dirOf, hd]

/-- **A planned line**: behind the look-ahead the slot that was filled has the steps of the displacement. -/
theorem planBlock_moves {m : Machine} {p : Planner} {d : Axis → ℚ} {request : ℚ × ℚ}
    (h : 0 ≤ (planBlock m p d request).1) : ∃ attr, axisAttr m = some attr ∧ ∀ a,
      movedSteps (((planBlock m p d request).2.ring.lineBuff p.ring.lineBuffTail).axis a) =
        lineSteps p.feedrate.flowRatio (d a) (attr a).stepsPerMm a := by
  unfold planBlock at h ⊢
  cases hst : stuffTail m p d request with
  | none =>
    rw [hst] at h
    exact absurd h (show ¬(0 : ℤ) ≤ -1 by decide)
  | some r =>
    obtain ⟨attr, hattr, -⟩ := Option.map_eq_some_iff.mp hst
    refine ⟨attr, hattr, fun a => ?_⟩
    dsimp only
    rw [(smoothRecalc_sameMove (pushLine p.ring r.1) p.ring.lineBuffTail).movedSteps_eq]
    have hslot : (pushLine p.ring r.1).lineBuff p.ring.lineBuffTail = { r.1 with usable := true } :=
      Function.update_self ..
    rw [hslot]
    exact stuffLineBuff_moves hattr hst a

/-- The displacement that a line is planned for. -/
def plannedDis (retract : Bool) (current target : Axis → ℚ) : Axis → ℚ :=
  if retract then dis target current else cutE (dis target current)

theorem plan_moves {m : Machine} {p : Planner} {current target : Axis → ℚ} {retract : Bool}
    (h : 0 ≤ (if retract then planRetract m p current target else planLine m p current target).1) :
    ∃ attr, axisAttr m = some attr ∧ ∀ a,
      movedSteps (((if retract then planRetract m p current target
        else planLine m p current target).2.ring.lineBuff p.ring.lineBuffTail).axis a) =
        lineSteps p.feedrate.flowRatio (plannedDis retract current target a) (attr a).stepsPerMm a := by
  cases retract with
  | true =>
    simp only [if_true, planRetract, plannedDis] at h ⊢
    split_ifs at h ⊢
    · exact absurd h (show ¬(0 : ℤ) ≤ -1 by decide)
    · exact planBlock_moves h
  | false =>
    simp only [Bool.false_eq_true, if_false, planLine, plannedDis] at h ⊢
    split_ifs at h ⊢
    · exact absurd h (show ¬(0 : ℤ) ≤ -1 by decide)
    · obtain ⟨attr, hattr, hmoves⟩ := planBlock_moves h
      rw [checkFeedrate_flowRatio] at hmoves
      exact ⟨attr, hattr, hmoves⟩

theorem plannedDis_of_ne {a : Axis} (ha : a ≠ .E) (retract : Bool) (current target : Axis → ℚ) :
    plannedDis retract current target a = target a - current a := by
  unfold plannedDis
  cases retract <;> cases a <;> first | rfl | exact absurd rfl ha

/-- A retract keeps a distance that is too small to be corrected, unless there is none. -/
theorem plannedDis_e {retract : Bool} {current target : Axis → ℚ}
    (h : retract = true → target .E - current .E = 0 ∨ minEChange ≤ |target .E - current .E|) :
    plannedDis retract current target .E =
      if |target .E - current .E| < minEChange then 0 else target .E - current .E := by
  cases retract with
  | false => rfl
  | true =>
    show target .E - current .E = _
    obtain h0 | hmin := h rfl
    · rw [h0, ite_self]
    · rw [if_neg (not_lt.mpr hmin)]

theorem correct_rounded {m : Machine} {attr : Axis → StepperAttr} {r : Remainder} {current target : Axis → ℚ} {a : Axis}
    (hattr : axisAttr m = some attr) (ha : a ≠ .Z) (hn : 0 < (attr a).stepsPerMm) :
    (correctTargetCoordinate m r current target).1 a * (attr a).stepsPerMm =
      current a * (attr a).stepsPerMm + correctSteps (target a - current a) (attr a).stepsPerMm a := by
  have hcorrected : (correctTargetCoordinate m r current target).1 a = current a +
      correctSteps (target a - current a) (attr a).stepsPerMm a * (1 / (attr a).stepsPerMm) := by
    unfold correctTargetCoordinate
    rw [hattr]
    cases a <;> first | rfl | exact absurd rfl ha
  have hn0 : ((attr a).stepsPerMm : ℚ) ≠ 0 := Nat.cast_ne_zero.mpr hn.ne'
  rw [hcorrected, add_mul, mul_assoc, one_div, inv_mul_cancel₀ hn0, mul_one]

theorem correct_z {m : Machine} {attr : Axis → StepperAttr} (r : Remainder) (current target : Axis → ℚ)
    (hattr : axisAttr m = some attr) :
    (correctTargetCoordinate m r current target).1 .Z =
      (correctZ (1 / (attr .Z).stepsPerMm) r (current .Z) (target .Z)).1 ∧
      (correctTargetCoordinate m r current target).2 =
        (correctZ (1 / (attr .Z).stepsPerMm) r (current .Z) (target .Z)).2 := by
  unfold correctTargetCoordinate
  rw [hattr]
  exact ⟨rfl, rfl⟩

end InRing

end Cxsw.Motion
