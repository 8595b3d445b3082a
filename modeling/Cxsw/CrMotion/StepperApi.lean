import Cxsw.CrMotion.PlanLine
import Cxsw.Lib.Rounding
import Mathlib.Tactic.FieldSimp

/-!
# Cxsw.CrMotion.StepperApi — the current coordinate (`CrMotion/StepperApi.cpp`)

`StepperSetCurCoordinate` turns a coordinate into whole steps on each axis, `StepperGetCurCoordinate` turns the steps
back.  The products and quotients are those of an `Arithmetic`, which rounds them; the conversion to `S32` is `toS32`.

* `StepperGetCurCoordinate` reads the steps of all four axes, but divides those of X for Z and those of Y for E.
* `coordinate_round_trip_iff`: when the values read back are within one step of those set, on every axis, and stay
  when they are set.
* `sharedSteps_exact_iff`: the condition where nothing is rounded.
* `curCoordination_within_one_step_iff`: the coordinate that is stored on the way has no condition across axes.
-/

namespace Cxsw.Motion

/-! ## The steppers -/

section Steppers

/-- `Info[Fd].Stepper` of the four axes, and `CurCoordination`.  `opened` says that `CrStepperIoctl` takes the
descriptor of the axis. -/
structure Steppers where
  opened : Axis → Bool
  stepsPerMm : Axis → ℕ
  curPosition : Axis → ℤ
  curCoordination : Axis → ℚ

/-- `CRSTEPPER_SET_POS`. -/
def Steppers.setPos (s : Steppers) (a : Axis) (pos : ℤ) : Option Steppers :=
  if s.opened a then some { s with curPosition := Function.update s.curPosition a pos } else none

/-- `CRSTEPPER_GET_POS`. -/
def Steppers.getPos (s : Steppers) (a : Axis) : Option ℤ :=
  if s.opened a then some (s.curPosition a) else none

/-- `StepsPerMm` after `StepperGetAttr` into a zeroed record. -/
def Steppers.attrStepsPerMm (s : Steppers) (a : Axis) : ℕ :=
  if s.opened a then s.stepsPerMm a else 0

variable (R : Arithmetic)

/-- A coordinate in steps, `x * StepsPerMm` as an `S32`. -/
def stepsAt (n : ℕ) (x : ℚ) : ℤ := toS32 (R.op (x * R.op n))

/-- Steps as a coordinate, `(FLOAT)Pos / StepsPerMm`. -/
def coordinateAt (n : ℕ) (pos : ℤ) : ℚ := R.op (R.op pos / R.op n)

/-- One axis of `StepperSetCurCoordinate`. -/
def Steppers.setAxis (s : Steppers) (a : Axis) (x : ℚ) : Option Steppers :=
  let pos := stepsAt R (s.attrStepsPerMm a) x
  match s.setPos a pos with
  | none => none
  | some t =>
    some { t with curCoordination := Function.update t.curCoordination a (coordinateAt R (s.attrStepsPerMm a) pos) }

/-- The axes one after the other, up to the first that fails. -/
def Steppers.setAxes (pos : Axis → ℚ) : List Axis → Steppers → Steppers × ℤ
  | [], s => (s, 0)
  | a :: rest, s =>
    match s.setAxis R a (pos a) with
    | none => (s, -1)
    | some t => Steppers.setAxes pos rest t

/-- `StepperSetCurCoordinate`. -/
def stepperSetCurCoordinate (s : Steppers) (pos : Axis → ℚ) : Steppers × ℤ :=
  s.setAxes R pos Axis.all

/-- `StepperGetCurCoordinate`; `none` stands for a return value of −1, which leaves `*Pos` as it is. -/
def stepperGetCurCoordinate (s : Steppers) : Option (Axis → ℚ) := do
  let posX ← s.getPos .X
  let posY ← s.getPos .Y
  let _posZ ← s.getPos .Z
  let _posE ← s.getPos .E
  return fun
    | .X => coordinateAt R (s.attrStepsPerMm .X) posX
    | .Y => coordinateAt R (s.attrStepsPerMm .Y) posY
    -- the steps of X and of Y once more
    | .Z => coordinateAt R (s.attrStepsPerMm .Z) posX
    | .E => coordinateAt R (s.attrStepsPerMm .E) posY

end Steppers

/-! ## What the functions do when all axes are open -/

section Spec

variable (R : Arithmetic) {s : Steppers} {pos : Axis → ℚ}

/-- The steps that a coordinate is set to. -/
def Steppers.stepsOf (s : Steppers) (pos : Axis → ℚ) (a : Axis) : ℤ := stepsAt R (s.stepsPerMm a) (pos a)

/-- The axis whose steps `StepperGetCurCoordinate` divides for an axis. -/
def readAxis : Axis → Axis
  | .X | .Z => .X
  | .Y | .E => .Y

theorem readAxis_readAxis (a : Axis) : readAxis (readAxis a) = readAxis a := by cases a <;> rfl

theorem setAxis_of_opened {a : Axis} {x : ℚ} (h : s.opened a = true) :
    s.setAxis R a x = some
      { s with
        curPosition := Function.update s.curPosition a (stepsAt R (s.stepsPerMm a) x)
        curCoordination := Function.update s.curCoordination a
          (coordinateAt R (s.stepsPerMm a) (stepsAt R (s.stepsPerMm a) x)) } := by
  simp [Steppers.setAxis, Steppers.setPos, Steppers.attrStepsPerMm, h]

theorem setAxes_of_opened (hopen : ∀ a, s.opened a = true) (axes : List Axis) :
    s.setAxes R pos axes =
      ({ s with
          curPosition := fun a => if a ∈ axes then s.stepsOf R pos a else s.curPosition a
          curCoordination := fun a =>
            if a ∈ axes then coordinateAt R (s.stepsPerMm a) (s.stepsOf R pos a) else s.curCoordination a },
        0) := by
  induction axes generalizing s with
  | nil => simp [Steppers.setAxes]
  | cons a rest ih =>
    rw [Steppers.setAxes, setAxis_of_opened R (hopen a)]
    refine (ih (by exact hopen)).trans ?_
    simp only [Prod.mk.injEq, Steppers.mk.injEq, true_and, and_true, Steppers.stepsOf, List.mem_cons]
    constructor
    · funext b
      by_cases hb : b = a
      · subst hb
        simp
      · simp [hb]
    · funext b
      by_cases hb : b = a
      · subst hb
        simp
      · simp [hb]

theorem stepperSetCurCoordinate_spec (hopen : ∀ a, s.opened a = true) :
    stepperSetCurCoordinate R s pos =
      ({ s with
          curPosition := s.stepsOf R pos
          curCoordination := fun a => coordinateAt R (s.stepsPerMm a) (s.stepsOf R pos a) }, 0) := by
  rw [stepperSetCurCoordinate, setAxes_of_opened R hopen]
  simp [Axis.mem_all]

theorem stepperGetCurCoordinate_spec (hopen : ∀ a, s.opened a = true) :
    stepperGetCurCoordinate R s = some fun a => coordinateAt R (s.stepsPerMm a) (s.curPosition (readAxis a)) := by
  simp only [stepperGetCurCoordinate, Steppers.getPos, Steppers.attrStepsPerMm, hopen, if_true]
  refine congrArg some (funext fun a => ?_)
  cases a <;> rfl

end Spec

/-! ## Setting and reading back -/

section RoundTrip

variable (R : Arithmetic) {s : Steppers} {pos : Axis → ℚ}

/-- The coordinate read after one was set. -/
def setThenGet (s : Steppers) (pos : Axis → ℚ) : Option (Axis → ℚ) :=
  stepperGetCurCoordinate R (stepperSetCurCoordinate R s pos).1

/-- Both calls succeed, each axis reads within one step of what was set, and setting the coordinate that was read
does not change what is read. -/
def RoundTrip (s : Steppers) (pos : Axis → ℚ) : Prop :=
  (stepperSetCurCoordinate R s pos).2 = 0 ∧
    ∃ got, setThenGet R s pos = some got ∧ (∀ a, |got a - pos a| ≤ 1 / s.stepsPerMm a) ∧
      setThenGet R (stepperSetCurCoordinate R s pos).1 got = some got

/-- By how many steps the rounded coordinate of `pos` steps is off. -/
def quotientError (n : ℕ) (pos : ℤ) : ℚ := coordinateAt R n pos * n - pos

/-- The steps that the coordinate read for `pos` steps is set to. -/
def stepsAgain (n : ℕ) (pos : ℤ) : ℤ := stepsAt R n (coordinateAt R n pos)

/-- The steps of X are within one step of Z as well, those of Y of E, what the rounded quotients are off being counted;
and the steps that X and Y are set to again are the same to the quotients. -/
def SharedSteps (s : Steppers) (pos : Axis → ℚ) : Prop :=
  (∀ a, |s.stepsOf R pos (readAxis a) + quotientError R (s.stepsPerMm a) (s.stepsOf R pos (readAxis a))
      - pos a * s.stepsPerMm a| ≤ 1) ∧
    ∀ a, coordinateAt R (s.stepsPerMm a) (stepsAgain R (s.stepsPerMm (readAxis a)) (s.stepsOf R pos (readAxis a))) =
      coordinateAt R (s.stepsPerMm a) (s.stepsOf R pos (readAxis a))

theorem setThenGet_spec (hopen : ∀ a, s.opened a = true) :
    setThenGet R s pos = some fun a => coordinateAt R (s.stepsPerMm a) (s.stepsOf R pos (readAxis a)) := by
  rw [setThenGet, stepperSetCurCoordinate_spec R hopen]
  exact stepperGetCurCoordinate_spec R (by exact hopen)

theorem abs_sub_le_iff_steps {n : ℕ} (h : 0 < n) (y x : ℚ) : |y - x| ≤ 1 / n ↔ |y * n - x * n| ≤ 1 := by
  have hn : (0 : ℚ) < n := by exact_mod_cast h
  rw [← sub_mul, abs_mul, abs_of_pos hn, le_div_iff₀ hn]

/-- What is read once the coordinate that was read is set. -/
theorem setThenGet_again (hopen : ∀ a, s.opened a = true) {got : Axis → ℚ} (h : setThenGet R s pos = some got) :
    setThenGet R (stepperSetCurCoordinate R s pos).1 got = some fun a =>
      coordinateAt R (s.stepsPerMm a) (stepsAgain R (s.stepsPerMm (readAxis a)) (s.stepsOf R pos (readAxis a))) := by
  rw [setThenGet_spec R hopen] at h
  obtain rfl := Option.some.inj h
  rw [stepperSetCurCoordinate_spec R hopen]
  refine (setThenGet_spec R (by exact hopen)).trans (congrArg some (funext fun a => ?_))
  simp only [Steppers.stepsOf, stepsAgain, readAxis_readAxis]

/-- The steps per millimetre of the machine's axes. -/
def machineSteppers : Steppers where
  opened _ := true
  stepsPerMm
    | .X | .Y => 80
    | .Z => 400
    | .E => 93
  curPosition _ := 0
  curCoordination _ := 0

/-- At 100 steps per millimetre 0.535 is read as 0.53, and that as 0.52. -/
example :
    coordinateAt .single 100 (stepsAt .single 100 (roundTo 24 (535 / 1000))) = roundTo 24 (53 / 100) ∧
      coordinateAt .single 100 (stepsAgain .single 100 53) = roundTo 24 (52 / 100) := by
  decide +kernel

end RoundTrip

/-! ## Exact arithmetic -/

section Exact

variable {s : Steppers} {pos : Axis → ℚ}

theorem abs_div_sub_le_iff {n : ℕ} (h : 0 < n) (k : ℤ) (x : ℚ) :
    |(k : ℚ) / n - x| ≤ 1 / n ↔ |(k : ℚ) - x * n| ≤ 1 := by
  have hn : (n : ℚ) ≠ 0 := by exact_mod_cast h.ne'
  rw [abs_sub_le_iff_steps h, div_mul_cancel₀ _ hn]

theorem quotientError_exact {n : ℕ} (h : 0 < n) (k : ℤ) : quotientError .exact n k = 0 := by
  have hn : (n : ℚ) ≠ 0 := by exact_mod_cast h.ne'
  exact sub_eq_zero_of_eq (div_mul_cancel₀ _ hn)

theorem stepsAgain_exact {n : ℕ} (h : 0 < n) (x : ℚ) : stepsAgain .exact n
    (stepsAt .exact n x) = stepsAt .exact n x := by
  have hn : (n : ℚ) ≠ 0 := by exact_mod_cast h.ne'
  show toS32 ((toS32 (x * n) : ℚ) / n * n) = toS32 (x * n)
  rw [div_mul_cancel₀ _ hn]
  exact toS32_intCast (by unfold toS32; omega) (toS32_lt _)

/-- Where nothing is rounded, the steps of X and of Y are to fit, within one step of those of Z and of E. -/
theorem sharedSteps_exact_iff (hsteps : ∀ a, 0 < s.stepsPerMm a) :
    SharedSteps .exact s pos ↔
      (-2 ^ 31 - 1 ≤ pos .X * s.stepsPerMm .X ∧ pos .X * s.stepsPerMm .X ≤ 2 ^ 31) ∧
        (-2 ^ 31 - 1 ≤ pos .Y * s.stepsPerMm .Y ∧ pos .Y * s.stepsPerMm .Y ≤ 2 ^ 31) ∧
        |(toS32 (pos .X * s.stepsPerMm .X) : ℚ) - pos .Z * s.stepsPerMm .Z| ≤ 1 ∧
        |(toS32 (pos .Y * s.stepsPerMm .Y) : ℚ) - pos .E * s.stepsPerMm .E| ≤ 1 := by
  rw [← abs_toS32_sub_le_iff, ← abs_toS32_sub_le_iff]
  have hagain : ∀ a, coordinateAt .exact (s.stepsPerMm a)
      (stepsAgain .exact (s.stepsPerMm (readAxis a)) (s.stepsOf .exact pos (readAxis a))) =
        coordinateAt .exact (s.stepsPerMm a) (s.stepsOf .exact pos (readAxis a)) :=
    fun a => congrArg _ (stepsAgain_exact (hsteps _) _)
  have hnear : ∀ a, |(s.stepsOf .exact pos (readAxis a) : ℚ)
      + quotientError .exact (s.stepsPerMm a) (s.stepsOf .exact pos (readAxis a)) - pos a * s.stepsPerMm a| ≤ 1 ↔
        |(s.stepsOf .exact pos (readAxis a) : ℚ) - pos a * s.stepsPerMm a| ≤ 1 := by
    intro a
    rw [quotientError_exact (hsteps a), add_zero]
  unfold SharedSteps
  rw [and_iff_left hagain, forall_congr' hnear]
  constructor
  · exact fun h => ⟨h .X, h .Y, h .Z, h .E⟩
  · rintro ⟨hX, hY, hZ, hE⟩ a
    cases a
    · exact hX
    · exact hY
    · exact hZ
    · exact hE

/-- The coordinate that is stored is within one step on each axis whose steps fit, where nothing is rounded. -/
theorem curCoordination_within_one_step_iff (hopen : ∀ a, s.opened a = true) (hsteps : ∀ a, 0 < s.stepsPerMm a)
    (a : Axis) :
    |(stepperSetCurCoordinate .exact s pos).1.curCoordination a - pos a| ≤ 1 / s.stepsPerMm a ↔
      -2 ^ 31 - 1 ≤ pos a * s.stepsPerMm a ∧ pos a * s.stepsPerMm a ≤ 2 ^ 31 := by
  rw [stepperSetCurCoordinate_spec .exact hopen]
  exact (abs_div_sub_le_iff (hsteps a) _ _).trans (abs_toS32_sub_le_iff _)

end Exact

end Cxsw.Motion
