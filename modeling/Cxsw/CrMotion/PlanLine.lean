import Mathlib.Data.Rat.Defs

/-!
# Cxsw.CrMotion.PlanLine — the plan line (`CrMotion/CrMotionPlanner.h`)

The record that the planner fills and the step generator executes.  `FLOAT` is `ℚ`, the unsigned fields are `ℕ`,
the `S32` ones `ℤ`.  The per-axis `EnterStatus`, `EntrySpeed` and `ExitSpeed` are marked unused in the source and
left out.
-/

namespace Cxsw.Motion

/-- `Axis_t`. -/
inductive Axis
  | X
  | Y
  | Z
  | E
  deriving DecidableEq

/-- The position of an axis in the enumeration. -/
def Axis.index : Axis → ℕ
  | .X => 0
  | .Y => 1
  | .Z => 2
  | .E => 3

/-- The order of `LOOP_XYZE`. -/
def Axis.all : List Axis := [.X, .Y, .Z, .E]

theorem Axis.mem_all (a : Axis) : a ∈ Axis.all := by cases a <;> decide

theorem Axis.index_injective {a b : Axis} (h : a.index = b.index) : a = b := by
  cases a <;> cases b <;> first | rfl | exact absurd h (by decide)

theorem Axis.index_lt (a : Axis) : a.index < 4 := by cases a <;> decide

/-- `Dir_t`. -/
inductive Dir
  | forward
  | backward
  deriving DecidableEq

/-- `CrMotionStatus_t`. -/
inductive CrMotionStatus
  | stop
  | accelerate
  | decelerate
  | uniform
  deriving DecidableEq

/-- `PlanLineResultant_t`. -/
structure PlanLineResultant where
  isEndLine : Bool
  enterStatus : CrMotionStatus
  acceleration : ℚ
  maxSpeed : ℚ
  entrySpeed : ℚ
  entrySpeedSqr : ℚ
  exitSpeed : ℚ
  exitSpeedSqr : ℚ
  lineLength : ℚ
  maxEntrySpeed : ℚ
  stepEventCnt : ℕ
  entryRate : ℕ
  entryRateSqr : ℕ
  exitRate : ℕ
  exitRateSqr : ℕ
  nominalRate : ℕ
  accelStepPerS2 : ℕ
  accelStepPerSecTick : ℕ

/-- `PlanLineAxis_t`. -/
structure PlanLineAxis where
  dir : Dir
  steps : ℕ
  uniformStartStep : ℕ
  decelStartStep : ℕ
  maxSpeed : ℤ
  maxAccel : ℤ
  maxJerk : ℤ

/-- `PlanLine_t`. -/
structure PlanLine where
  usable : Bool
  axis : Axis → PlanLineAxis
  planCalc : PlanLineResultant

/-- A zeroed record. -/
def PlanLine.zero : PlanLine where
  usable := false
  axis _ := ⟨.forward, 0, 0, 0, 0, 0, 0⟩
  planCalc := ⟨false, .stop, 0, 0, 0, 0, 0, 0, 0, 0, 0, 0, 0, 0, 0, 0, 0, 0⟩

/-- The largest step count of the axes, as `StuffLineBuff` takes it. -/
def PlanLine.maxSteps (l : PlanLine) : ℕ :=
  max (max (l.axis .X).steps (max (l.axis .Y).steps (l.axis .Z).steps)) (l.axis .E).steps

theorem PlanLine.steps_le_maxSteps (l : PlanLine) (a : Axis) : (l.axis a).steps ≤ l.maxSteps := by
  cases a <;> unfold maxSteps <;> omega

end Cxsw.Motion
