import Cxsw.Lib.Rounding
import Cxsw.CrModel.PutMotionCoord

/-!
# Cxsw.CrModel.FloatMotion — the coordinates in `FLOAT` (`CrModel/CrMotion.cpp`, `CrMotion/CrMotionPlanner.cpp`)

The planner and the correction compute with `FLOAT`, each from its own differences, products and quotients.  Where it
matters how these are rounded the coordinates are modelled here, in any arithmetic: what `PutMotionCoord` does to them,
and how many steps the planner makes of a line.  Whether a line is taken, and the flow that it is planned with, is up to
the planner that the call finds.

* `FloatMotion.put`: a call of `PutMotionCoord`.
* `put_exact`: without rounding it is the call of the model in rational numbers.
* `FloatMotion.put_still`, `FloatMotion.put_z_still`: in single precision, what a call leaves of the axes that its
  target leaves.
-/

namespace Cxsw.Motion

/-! ## The functions -/

section Defs

variable (R : Arithmetic)

/-- `EOL_DATA` and `MIN_E_CHANGE`. -/
def eolAt : ℚ := R.op eolData

def minEAt : ℚ := R.op minEChange

/-- `INCH_TO_MM` of a coordinate in inches. -/
def inMmAt (unit : MotionUnitType) (x : ℚ) : ℚ :=
  match unit with
  | .inch => R.assign (x * R.const (254 / 10))
  | .millimeter => x

/-- `MM_TO_INCH`. -/
def mmToInchAt (x : ℚ) : ℚ := R.assign (x / R.const (254 / 10))

/-- `MmPerSteps`. -/
def mmPerStepsAt (n : ℕ) : ℚ := R.op (1 / R.op n)

/-- `(S32)ROUND(Num)`. -/
def roundAt (num : ℚ) : ℤ :=
  toS32 (if num < -R.const (1 / 1000000) then R.op (num - 1 / 2) else R.op (num + 1 / 2))

/-- `Dis` and `Dis_E`. -/
def disAt (current target : ℚ) : ℚ := R.op (target - current)

/-- `Delta` of a line. -/
def deltaAt (retract : Bool) (current target : ℚ) (a : Axis) : ℚ :=
  if a = .E ∧ retract = false ∧ |disAt R current target| < minEAt R then 0 else disAt R current target

/-- `Block->Axis[i].Steps`. -/
def axisStepsAt (flowRatio delta : ℚ) (n : ℕ) : Axis → ℤ
  | .X => roundAt R (R.op (|delta| * R.op n))
  | .Y => roundAt R (R.op (|delta| * R.op n))
  | .Z => toS32 (⌊R.op (|delta| * R.op n)⌋ : ℤ)
  | .E =>
    let ratio := R.assign (flowRatio / 100)
    roundAt R (if eolAt R < ratio then R.op (R.op (ratio * |delta|) * R.op n) else R.op (|delta| * R.op n))

/-- The same, signed by the direction. -/
def lineStepsAt (flowRatio delta : ℚ) (n : ℕ) (a : Axis) : ℤ :=
  if delta < eolAt R then -axisStepsAt R flowRatio delta n a else axisStepsAt R flowRatio delta n a

/-- `Steps` of X, Y or E. -/
def correctStepsAt (current target : ℚ) (n : ℕ) (a : Axis) : ℤ :=
  let dis := disAt R current target
  if a = .E ∧ dis < minEAt R ∧ -minEAt R < dis then 0 else roundAt R (R.op (dis * R.op n))

/-- `TempF`, in steps. -/
def tempFAt (n : ℕ) (current target : ℚ) : ℚ := R.op (R.op (current - target) / mmPerStepsAt R n)

/-- `DeltaStep[Z]`. -/
def deltaStepAt (tempF : ℚ) : ℤ := if -eolAt R < tempF then toS32 (⌊tempF⌋ : ℤ) else toS32 (⌈tempF⌉ : ℤ)

/-- `CrMotion::Deltamm[Z]` with the part of a step that a way leaves. -/
def grownAt (deltamm tempF : ℚ) : ℚ := R.op (deltamm + R.op (tempF - R.op (deltaStepAt R tempF)))

/-- `TempStep`. -/
def tempStepAt (deltamm : ℚ) : ℤ :=
  if R.op (1 - eolAt R) < deltamm then toS32 (⌊deltamm⌋ : ℤ)
  else if deltamm < R.op (-1 + eolAt R) then toS32 (⌈deltamm⌉ : ℤ)
  else 0

/-- `TargetCorrected->Z`, with the remainder that is left. -/
def correctZAt (n : ℕ) (r : Remainder) (current target : ℚ) : ℚ × Remainder :=
  if eolAt R < |R.op (current - target)| then
    let deltamm := grownAt R r.deltamm (tempFAt R n current target)
    let corrected := R.op (target + R.op (R.op (tempStepAt R deltamm) * mmPerStepsAt R n))
    (corrected, ⟨R.op (deltamm - R.op (tempStepAt R deltamm)), corrected⟩)
  else (r.oldTarget, r)

/-- `TargetCorrected` of X, Y or E. -/
def correctAt (n : ℕ) (current target : ℚ) (a : Axis) : ℚ :=
  R.op (current + R.op (R.op (correctStepsAt R current target n a) * mmPerStepsAt R n))

/-- `LatestCoord`, `MotionUnit` and what the correction carries, with the signed sum of the planned steps. -/
structure FloatMotion where
  latestCoord : Axis → ℚ
  motionUnit : MotionUnitType
  remainder : Remainder
  plannedSteps : Axis → ℤ

/-- The steppers of a call that is accepted. -/
def Attempt.taken (a : Attempt) : Option (Axis → StepperAttr) :=
  if isPlanLineBuffFull a.planner.ring then none else axisAttr a.machine

/-- `PutMotionCoord`. -/
def FloatMotion.put (s : FloatMotion) (a : Attempt) (c : MotionGcode) : FloatMotion :=
  match a.taken with
  | none => s
  | some attr =>
    let current : Axis → ℚ := fun ax => inMmAt R s.motionUnit (s.latestCoord ax)
    let target : Axis → ℚ := fun ax => inMmAt R s.motionUnit (c.coord ax)
    let z := correctZAt R (attr .Z).stepsPerMm s.remainder (current .Z) (target .Z)
    { s with
      latestCoord := fun ax =>
        if ax = .Z then z.1 else correctAt R (attr ax).stepsPerMm (current ax) (target ax) ax
      remainder := z.2
      plannedSteps := fun ax => s.plannedSteps ax + lineStepsAt R a.planner.feedrate.flowRatio
        (deltaAt R c.retractFlag (current ax) (target ax) ax) (attr ax).stepsPerMm ax }

/-- `SetMotionUnitType`. -/
def FloatMotion.setMotionUnitType (s : FloatMotion) (unit : MotionUnitType) : FloatMotion :=
  if s.motionUnit = unit then s
  else
    { s with
      latestCoord := match unit with
        | .inch => fun a => mmToInchAt R (s.latestCoord a)
        | .millimeter => fun a => inMmAt R .inch (s.latestCoord a)
      motionUnit := unit }

/-- Everything that is stored is a `FLOAT`. -/
structure FloatMotion.IsFloat (s : FloatMotion) : Prop where
  latestCoord : ∀ a, R.op (s.latestCoord a) = s.latestCoord a
  oldTarget : R.op s.remainder.oldTarget = s.remainder.oldTarget

/-- The coordinates of the model in rational numbers. -/
def Tracking.floats (s : Tracking) : FloatMotion :=
  ⟨s.motion.latestCoord, s.motion.motionUnit, s.motion.remainder, s.plannedSteps⟩

end Defs

/-! ## A call -/

section Call

variable {R : Arithmetic} {s : FloatMotion} {a : Attempt} {c : MotionGcode} {attr : Axis → StepperAttr} {ax : Axis}

theorem taken_isSome_iff (a : Attempt) : a.taken.isSome = true ↔ a.Accepts := by
  unfold Attempt.taken Attempt.Accepts
  split_ifs with hfull
  · simp [hfull]
  · simp [Bool.eq_false_iff.mpr hfull]

theorem taken_of_accepts (h : a.Accepts) : ∃ attr, a.taken = some attr :=
  Option.isSome_iff_exists.mp ((taken_isSome_iff a).mpr h)

theorem taken_of_not_accepts (h : ¬a.Accepts) : a.taken = none :=
  Option.not_isSome_iff_eq_none.mp fun hsome => h ((taken_isSome_iff a).mp hsome)

theorem FloatMotion.put_refused (h : ¬a.Accepts) : s.put R a c = s := by
  unfold FloatMotion.put
  rw [taken_of_not_accepts h]

theorem FloatMotion.put_motionUnit : (s.put R a c).motionUnit = s.motionUnit := by
  unfold FloatMotion.put
  cases a.taken <;> rfl

/-- Z of an accepted call. -/
theorem FloatMotion.put_z (h : a.taken = some attr) :
    let z := correctZAt R (attr .Z).stepsPerMm s.remainder (inMmAt R s.motionUnit (s.latestCoord .Z))
      (inMmAt R s.motionUnit (c.coord .Z))
    (s.put R a c).latestCoord .Z = z.1 ∧ (s.put R a c).remainder = z.2 := by
  unfold FloatMotion.put
  rw [h]
  exact ⟨rfl, rfl⟩

/-- X, Y and E of an accepted call. -/
theorem FloatMotion.put_rounded (h : a.taken = some attr) (hax : ax ≠ .Z) : (s.put R a c).latestCoord ax =
    correctAt R (attr ax).stepsPerMm (inMmAt R s.motionUnit (s.latestCoord ax)) (inMmAt R s.motionUnit (c.coord ax))
      ax := by
  unfold FloatMotion.put
  rw [h]
  exact if_neg hax

theorem FloatMotion.put_steps (h : a.taken = some attr) : (s.put R a c).plannedSteps ax = s.plannedSteps ax +
    lineStepsAt R a.planner.feedrate.flowRatio (deltaAt R c.retractFlag (inMmAt R s.motionUnit (s.latestCoord ax))
      (inMmAt R s.motionUnit (c.coord ax)) ax) (attr ax).stepsPerMm ax := by
  unfold FloatMotion.put
  rw [h]

theorem FloatMotion.IsFloat.setMotionUnitType (hs : s.IsFloat R) (unit : MotionUnitType) :
    (s.setMotionUnitType R unit).IsFloat R := by
  unfold FloatMotion.setMotionUnitType
  split_ifs
  · exact hs
  · refine ⟨fun a => ?_, hs.oldTarget⟩
    cases unit
    · exact R.op_assign _
    · exact R.op_assign _

end Call

/-! ## Without rounding -/

section Exact

theorem u32OfS32_toS32 {x : ℚ} (h : 0 ≤ x) : (u32OfS32 (toS32 x) : ℤ) = toS32 x := by
  have hrange : 0 ≤ toS32 x ∧ toS32 x < 2 ^ 31 := by
    have := Int.floor_nonneg.mpr h
    unfold toS32
    rw [truncQ_of_nonneg h]
    omega
  unfold u32OfS32
  omega

theorem axisSteps_exact (flowRatio delta : ℚ) (n : ℕ) (a : Axis) :
    (axisSteps flowRatio delta n a : ℤ) = axisStepsAt .exact flowRatio delta n a := by
  have hround : ∀ x : ℚ, 0 ≤ x → (u32OfS32 (toS32 (round x)) : ℤ) = roundAt .exact x := by
    intro x hx
    exact u32OfS32_toS32 (by rw [round_of_nonneg hx]; linarith)
  have hn : (0 : ℚ) ≤ n := Nat.cast_nonneg n
  have hd := abs_nonneg delta
  cases a with
  | X => exact hround _ (mul_nonneg hd hn)
  | Y => exact hround _ (mul_nonneg hd hn)
  | Z => exact u32OfS32_toS32 (by exact_mod_cast Int.floor_nonneg.mpr (mul_nonneg hd hn))
  | E =>
    refine hround _ ?_
    unfold flowed
    split_ifs with hflow
    · have hratio : (0 : ℚ) ≤ flowRatio / 100 := le_trans (by norm_num [eolData]) hflow.le
      exact mul_nonneg (mul_nonneg hratio hd) hn
    · exact mul_nonneg hd hn

theorem lineSteps_exact (flowRatio delta : ℚ) (n : ℕ) (a : Axis) :
    lineStepsAt .exact flowRatio delta n a = lineSteps flowRatio delta n a := by
  unfold lineStepsAt lineSteps
  rw [axisSteps_exact]
  rfl

theorem inMmAt_exact (unit : MotionUnitType) (coord : Axis → ℚ) (a : Axis) :
    inMmAt .exact unit (coord a) = inMm unit coord a := by
  cases unit <;> rfl

theorem deltaAt_exact (retract : Bool) (current target : Axis → ℚ) (a : Axis) :
    deltaAt .exact retract (current a) (target a) a = plannedDis retract current target a := by
  by_cases ha : a = .E
  · subst ha
    cases retract with
    | true => exact if_neg (by simp)
    | false => exact if_congr (and_iff_right rfl |>.trans (and_iff_right rfl)) rfl rfl
  · rw [plannedDis_of_ne ha]
    exact if_neg fun h => ha h.1

theorem correctStepsAt_exact (current target : ℚ) (n : ℕ) {a : Axis} (ha : a ≠ .Z) :
    correctStepsAt .exact current target n a = correctSteps (target - current) n a := by
  unfold correctStepsAt
  cases a with
  | X => exact if_neg fun h => absurd h.1 (by decide)
  | Y => exact if_neg fun h => absurd h.1 (by decide)
  | Z => exact absurd rfl ha
  | E => exact if_congr (and_iff_right rfl) rfl rfl

theorem correct_exact {m : Machine} {attr : Axis → StepperAttr} (hattr : axisAttr m = some attr) (r : Remainder)
    (current target : Axis → ℚ) :
    (correctTargetCoordinate m r current target).2 =
        (correctZAt .exact (attr .Z).stepsPerMm r (current .Z) (target .Z)).2 ∧
      ∀ a, (correctTargetCoordinate m r current target).1 a =
        if a = .Z then (correctZAt .exact (attr .Z).stepsPerMm r (current .Z) (target .Z)).1
        else correctAt .exact (attr a).stepsPerMm (current a) (target a) a := by
  unfold correctTargetCoordinate
  rw [hattr]
  refine ⟨rfl, fun a => ?_⟩
  split_ifs with ha
  · subst ha
    rfl
  · unfold correctAt
    rw [correctStepsAt_exact _ _ _ ha]
    cases a <;> first | rfl | exact absurd rfl ha

/-- **Without rounding** a call is that of the model in rational numbers, in the planner that it finds. -/
theorem put_exact (s : Tracking) (a : Attempt) (c : MotionGcode) :
    (motionEvent { s with motion := { s.motion with planner := a.planner } } (.putMotionCoord a.machine c)).floats =
      s.floats.put .exact a c := by
  have hiff := planMove_nonneg_iff a.machine { s.motion with planner := a.planner } c
  by_cases hacc : a.Accepts
  · obtain ⟨attr, htaken⟩ := taken_of_accepts hacc
    have hnot : ¬(planMove a.machine { s.motion with planner := a.planner } c).1 < 0 := not_lt.mpr (hiff.mpr hacc)
    have hattr : axisAttr a.machine = some attr := by
      unfold Attempt.taken at htaken
      rwa [if_neg (by simp [hacc.1])] at htaken
    obtain ⟨attr', hattr', hmoves⟩ := plan_moves (hiff.mpr hacc)
    obtain rfl := Option.some.inj (hattr.symm.trans hattr')
    obtain ⟨hrest, hcoord⟩ := correct_exact hattr s.motion.remainder (inMm s.motion.motionUnit s.motion.latestCoord)
      (inMm s.motion.motionUnit c.coord)
    unfold FloatMotion.put Tracking.floats
    rw [htaken]
    simp only [motionEvent, putMotionCoord, if_neg hnot, FloatMotion.mk.injEq, inMmAt_exact]
    refine ⟨funext hcoord, trivial, hrest, funext fun ax => ?_⟩
    have hmove := hmoves ax
    rw [setFeedRate_flowRatio, ← lineSteps_exact, ← deltaAt_exact] at hmove
    rw [if_neg (by decide), ← hmove]
    rfl
  · rw [put_refused fun h => hacc (hiff.mp h), FloatMotion.put_refused hacc]
    rfl

end Exact

/-! ## Single precision -/

section Single

variable {s : FloatMotion} {a : Attempt} {c : MotionGcode} {ax : Axis}

theorem single_op_assign (x : ℚ) : Arithmetic.single.op (Arithmetic.single.assign x) = Arithmetic.single.assign x :=
  Arithmetic.single.op_assign x

theorem inMmAt_isFloat (unit : MotionUnitType) {x : ℚ} (h : Arithmetic.single.op x = x) :
    Arithmetic.single.op (inMmAt .single unit x) = inMmAt .single unit x := by
  cases unit with
  | inch => exact single_op_assign _
  | millimeter => exact h

theorem correctZAt_isFloat {n : ℕ} {r : Remainder} {current target : ℚ}
    (h : Arithmetic.single.op r.oldTarget = r.oldTarget) :
    Arithmetic.single.op (correctZAt .single n r current target).1 = (correctZAt .single n r current target).1 ∧
      (correctZAt .single n r current target).2.oldTarget = (correctZAt .single n r current target).1 := by
  unfold correctZAt
  split_ifs
  · exact ⟨single_op_op _, rfl⟩
  · exact ⟨h, rfl⟩

theorem FloatMotion.IsFloat.put (hs : s.IsFloat .single) : (s.put .single a c).IsFloat .single := by
  by_cases hacc : a.Accepts
  · obtain ⟨attr, htaken⟩ := taken_of_accepts hacc
    obtain ⟨hz, hr⟩ := @FloatMotion.put_z .single s a c attr htaken
    obtain ⟨hfloat, hold⟩ := @correctZAt_isFloat (attr .Z).stepsPerMm s.remainder
      (inMmAt .single s.motionUnit (s.latestCoord .Z)) (inMmAt .single s.motionUnit (c.coord .Z)) hs.oldTarget
    refine ⟨fun ax => ?_, ?_⟩
    · by_cases hax : ax = .Z
      · rw [hax, hz, hfloat]
      · rw [FloatMotion.put_rounded htaken hax]
        exact single_op_op _
    · rw [hr, hold, hfloat]
  · rw [FloatMotion.put_refused hacc]
    exact hs

theorem disAt_self (x : ℚ) : disAt .single x x = 0 := by
  unfold disAt
  rw [sub_self, Arithmetic.op_zero]

theorem roundAt_zero : roundAt .single 0 = 0 := by decide +kernel

theorem lineStepsAt_zero (flowRatio : ℚ) (n : ℕ) (ax : Axis) : lineStepsAt .single flowRatio 0 n ax = 0 := by
  have hzero : axisStepsAt .single flowRatio 0 n ax = 0 := by
    cases ax with
    | X => simp [axisStepsAt, Arithmetic.op_zero, roundAt_zero]
    | Y => simp [axisStepsAt, Arithmetic.op_zero, roundAt_zero]
    | Z => simp [axisStepsAt, Arithmetic.op_zero, toS32, truncQ]
    | E => simp [axisStepsAt, Arithmetic.op_zero, roundAt_zero]
  unfold lineStepsAt
  rw [hzero, neg_zero, ite_self]

theorem lineStepsAt_still (flowRatio x : ℚ) (retract : Bool) (n : ℕ) (ax : Axis) :
    lineStepsAt .single flowRatio (deltaAt .single retract x x ax) n ax = 0 := by
  unfold deltaAt
  rw [disAt_self, ite_self]
  exact lineStepsAt_zero flowRatio n ax

theorem correctAt_still {x : ℚ} (hx : Arithmetic.single.op x = x) (n : ℕ) (ax : Axis) :
    correctAt .single n x x ax = x := by
  have hsteps : correctStepsAt .single x x n ax = 0 := by
    unfold correctStepsAt
    simp only [disAt_self, zero_mul, Arithmetic.op_zero, roundAt_zero, ite_self]
  unfold correctAt
  rw [hsteps, Int.cast_zero, Arithmetic.op_zero, zero_mul, Arithmetic.op_zero, add_zero, hx]

theorem correctZAt_still (n : ℕ) (r : Remainder) (x : ℚ) : correctZAt .single n r x x = (r.oldTarget, r) := by
  unfold correctZAt
  rw [sub_self, Arithmetic.op_zero, abs_zero, if_neg (by decide +kernel)]

/-- **An axis that the target leaves**: nothing is planned on it, but its coordinate is then in millimeters. -/
theorem FloatMotion.put_still (hs : s.IsFloat .single) (hacc : a.Accepts) (hax : ax ≠ .Z)
    (hc : c.coord ax = s.latestCoord ax) :
    (s.put .single a c).latestCoord ax = inMmAt .single s.motionUnit (s.latestCoord ax) ∧
      (s.put .single a c).plannedSteps ax = s.plannedSteps ax := by
  obtain ⟨attr, htaken⟩ := taken_of_accepts hacc
  rw [FloatMotion.put_rounded htaken hax, FloatMotion.put_steps htaken, hc, lineStepsAt_still, add_zero]
  exact ⟨correctAt_still (inMmAt_isFloat _ (hs.latestCoord ax)) _ _, rfl⟩

/-- **A target that leaves Z**: nothing is planned, and the coordinate is `OldTarget.Z`. -/
theorem FloatMotion.put_z_still (hacc : a.Accepts) (hc : c.coord .Z = s.latestCoord .Z) :
    (s.put .single a c).latestCoord .Z = s.remainder.oldTarget ∧
      (s.put .single a c).remainder = s.remainder ∧ (s.put .single a c).plannedSteps .Z = s.plannedSteps .Z := by
  obtain ⟨attr, htaken⟩ := taken_of_accepts hacc
  obtain ⟨hz, hr⟩ := @FloatMotion.put_z .single s a c attr htaken
  rw [hc, correctZAt_still] at hz hr
  rw [FloatMotion.put_steps htaken, hc, lineStepsAt_still, add_zero]
  exact ⟨hz, hr, rfl⟩

end Single

end Cxsw.Motion
