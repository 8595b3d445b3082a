import Cxsw.Lib.FloatCast
import Cxsw.Lib.Word
import Cxsw.CrMotion.PlanLine

/-!
# Cxsw.CrMotion.StuffLine — preparing a plan line (`CrMotion/CrMotionPlanner.cpp`, `StuffLineBuff`)

`StuffLineBuff` turns a displacement into step counts, directions, rates and the largest speed at which the line
may be entered.  Numbers of type `FLOAT` are exact rationals here; a division by zero gives zero.

* `stuffLineBuff`: the function, cut into its stages.
* `Stuffed`: what it guarantees about every line it fills, whatever the machine and the request are.
* `stuffBlock_stuffed`, `stuffLineBuff_stuffed`: it does.
-/

namespace Cxsw.Motion

/-! ## What the planner reads -/

section Defs

/-- `EOL_DATA`. -/
def eolData : ℚ := 1 / 1000000

/-- `MIN_E_CHANGE`. -/
def minEChange : ℚ := 1 / 100

/-- `MINIMUM_PLANNER_SPEED`. -/
def minimumPlannerSpeed : ℚ := 1 / 20

/-- `SQR`. -/
def sqr (n : ℚ) : ℚ := n * n

/-- `ROUND`. -/
def round (num : ℚ) : ℚ := if num < -(1 / 1000000) then num - 1 / 2 else num + 1 / 2

/-- `StepperAttr_t` and `StepperMotionAttr_t` of one axis. -/
structure StepperAttr where
  stepsPerMm : ℕ
  maxVelocity : ℤ
  jerk : ℤ
  acceleration : ℤ

/-- What is outside the planner: the steppers (`none` when `CrStepperIoctl` fails) and the square root. -/
structure Machine where
  stepper : Axis → Option StepperAttr
  /-- The estimate of `CalcSqrt` for arguments away from zero, which it takes from the bits of a `float`. -/
  root : ℚ → ℚ

/-- `CalcSqrt`. -/
def calcSqrt (m : Machine) (num : ℚ) : ℚ := if -eolData ≤ num ∧ num ≤ eolData then 0 else m.root num

/-- `FeedrateAttr_t`, the fields that the planner reads. -/
structure FeedrateAttr where
  feedrateRatio : ℕ
  feedrate : ℚ
  flowRatio : ℚ
  retractRate : ℚ
  retractAccel : ℚ
  travelAccelXYZ : ℤ
  accelXYZ : ℤ

/-- `PreviousSafeSpeed`, `PreviouSpeed` and `PreviousMaxSpeed`. -/
structure Previous where
  safeSpeed : ℚ
  speed : Axis → ℚ
  maxSpeed : ℚ

/-- Their initial values. -/
def Previous.init : Previous := ⟨0, fun _ => 0, 0⟩

/-! ## The stages of `StuffLineBuff` -/

/-- The direction of an axis. -/
def dirOf (delta : ℚ) : Dir := if delta < eolData then .backward else .forward

/-- The extruder distance with the flow applied. -/
def flowed (flowRatio delta : ℚ) (stepsPerMm : ℕ) : ℚ :=
  if eolData < flowRatio / 100 then flowRatio / 100 * |delta| * stepsPerMm else |delta| * stepsPerMm

/-- The step count of an axis: rounded for X, Y and E, cut off for Z. -/
def axisSteps (flowRatio delta : ℚ) (stepsPerMm : ℕ) : Axis → ℕ
  | .X => u32OfS32 (toS32 (round (|delta| * stepsPerMm)))
  | .Y => u32OfS32 (toS32 (round (|delta| * stepsPerMm)))
  | .Z => u32OfS32 (toS32 (⌊|delta| * stepsPerMm⌋ : ℤ))
  | .E => u32OfS32 (toS32 (round (flowed flowRatio delta stepsPerMm)))

/-- The factor that brings every axis below its own speed limit. -/
def speedFactor (attr : Axis → StepperAttr) (speed : Axis → ℚ) : ℚ :=
  Axis.all.foldl (fun factor a =>
    if ((attr a).maxVelocity : ℚ) < |speed a| then min factor ((attr a).maxVelocity / |speed a|) else factor) 1

/-- `AxisAccelStepPerS2`. -/
def axisAccelStepPerS2 (attr : StepperAttr) : ℕ := u32 (u32OfS32 attr.acceleration * attr.stepsPerMm)

/-- The acceleration in steps, limited by every axis that moves. -/
def limitAccel (attr : Axis → StepperAttr) (steps : Axis → ℕ) (maxSteps : ℕ) (accel : ℚ) : ℚ :=
  if steps .X ≠ 0 ∨ steps .Y ≠ 0 ∨ steps .Z ≠ 0 then
    Axis.all.foldl (fun accel a =>
      if steps a ≠ 0 ∧ (axisAccelStepPerS2 (attr a) : ℚ) < accel then
        let compare : ℚ := u32 (axisAccelStepPerS2 (attr a) * maxSteps)
        if compare < accel * steps a then compare / steps a else accel
      else accel) accel
  else accel

/-- `SafeSpeed`: the speed at which no axis exceeds its jerk when it starts from rest.  The pair holds `Limited`. -/
def safeSpeed (attr : Axis → StepperAttr) (speed : Axis → ℚ) (maxSpeed : ℚ) : ℚ :=
  (Axis.all.foldl (fun (r : ℚ × Bool) a =>
    let jerk := |speed a|
    let maxJerk : ℚ := (attr a).jerk
    if maxJerk < jerk then
      if r.2 then (if maxSpeed * maxJerk < jerk * r.1 then maxSpeed * maxJerk / jerk else r.1, true)
      else (r.1 * (maxJerk / jerk), true)
    else r) (maxSpeed, false)).1

/-- The speed change of an axis at the junction, by whether it coasts or reverses. -/
def junctionJerk (vExit vEntry : ℚ) : ℚ :=
  if vEntry < vExit then
    if 0 < vEntry ∨ vExit < 0 then vExit - vEntry else max vExit (-vEntry)
  else
    if vEntry < 0 ∨ 0 < vExit then vEntry - vExit else max (-vExit) vEntry

/-- `VmaxJunction` from the line before: the smaller of the two speeds, reduced by the jerk of every axis. -/
def vmaxJunctionRaw (attr : Axis → StepperAttr) (prev : Previous) (speed : Axis → ℚ) (maxSpeed : ℚ) : ℚ :=
  let vmaxJunction := if maxSpeed < prev.maxSpeed then maxSpeed else prev.maxSpeed
  let smallerSpeedFactor := if maxSpeed < prev.maxSpeed then vmaxJunction / prev.maxSpeed else 1
  let r := Axis.all.foldl (fun (r : ℚ × Bool) a =>
    let vExit := prev.speed a * smallerSpeedFactor * (if r.2 then r.1 else 1)
    let vEntry := speed a * (if r.2 then r.1 else 1)
    let jerk := junctionJerk vExit vEntry
    if ((attr a).jerk : ℚ) < jerk then (r.1 * (((attr a).jerk : ℚ) / jerk), true) else r) (1, false)
  if r.2 then vmaxJunction * r.1 else vmaxJunction

/-- `VmaxJunction`. -/
def vmaxJunction (attr : Axis → StepperAttr) (prev : Previous) (speed : Axis → ℚ) (maxSpeed safe : ℚ) : ℚ :=
  if eolData < prev.maxSpeed ∨ prev.maxSpeed < -eolData then
    let v := vmaxJunctionRaw attr prev speed maxSpeed
    let threshold := v * (99 / 100)
    if threshold < prev.safeSpeed ∧ threshold < safe then safe else v
  else safe

/-- `StuffLineBuff` once the steppers have answered.  `block` has `Acceleration` and `MaxSpeed` set by the caller;
`UniformStartStep` and `DecelStartStep` keep what the slot held.  A division by zero gives zero here where the source
stores what `float` makes of it; `Defined` tells the lines that were filled without one. -/
def stuffBlock (m : Machine) (attr : Axis → StepperAttr) (flowRatio : ℚ) (prev : Previous) (delta : Axis → ℚ)
    (block : PlanLine) : PlanLine × Previous :=
  let steps : Axis → ℕ := fun a => axisSteps flowRatio (delta a) (attr a).stepsPerMm a
  let axis : Axis → PlanLineAxis := fun a =>
    { block.axis a with
      maxSpeed := (attr a).maxVelocity
      maxJerk := (attr a).jerk
      maxAccel := (attr a).acceleration
      dir := dirOf (delta a)
      steps := steps a }
  let maxSteps := PlanLine.maxSteps { block with axis := axis }
  let millimeters := calcSqrt m (sqr (delta .X) + sqr (delta .Y) + sqr (delta .Z))
  let millimeters := if millimeters ≤ eolData then |delta .E| else millimeters
  let inverseMillimeters := if millimeters ≤ eolData then 0 else 1 / millimeters
  let inverseSec := block.planCalc.maxSpeed * inverseMillimeters
  let maxSpeed := millimeters * inverseSec
  let nominalRate := toU32 (⌈(maxSteps : ℚ) * inverseSec⌉ : ℤ)
  let speed : Axis → ℚ := fun a => delta a * inverseSec
  let factor := speedFactor attr speed
  let speed : Axis → ℚ := fun a => if factor < 1 then speed a * factor else speed a
  let maxSpeed := if factor < 1 then maxSpeed * factor else maxSpeed
  let nominalRate := if factor < 1 then toU32 (nominalRate * factor) else nominalRate
  let stepPerMM := maxSteps * inverseMillimeters
  let accel := limitAccel attr steps maxSteps (block.planCalc.acceleration * stepPerMM)
  let accelStepPerS2 := toU32 accel
  let safe := safeSpeed attr speed maxSpeed
  ({ block with
      axis := axis
      planCalc := { block.planCalc with
        isEndLine := true
        enterStatus := .accelerate
        acceleration := accel / stepPerMM
        maxSpeed := maxSpeed
        entrySpeed := minimumPlannerSpeed
        entrySpeedSqr := sqr minimumPlannerSpeed
        exitSpeed := minimumPlannerSpeed
        exitSpeedSqr := sqr minimumPlannerSpeed
        lineLength := millimeters
        maxEntrySpeed := vmaxJunction attr prev speed maxSpeed safe
        stepEventCnt := maxSteps
        nominalRate := nominalRate
        accelStepPerS2 := accelStepPerS2
        accelStepPerSecTick := toU32 (accelStepPerS2 * (sqr 4096 / 1000000)) } },
    ⟨safe, speed, maxSpeed⟩)

/-- The attributes of all axes, when every `CrStepperIoctl` succeeds. -/
def axisAttr (m : Machine) : Option (Axis → StepperAttr) := do
  let x ← m.stepper .X
  let y ← m.stepper .Y
  let z ← m.stepper .Z
  let e ← m.stepper .E
  return fun
    | .X => x
    | .Y => y
    | .Z => z
    | .E => e

/-- `StuffLineBuff`, for a ring that is not full; `none` is the return code `-1`.  What a failing call has written
is in the free slot at the tail, and the next one overwrites it. -/
def stuffLineBuff (m : Machine) (flowRatio : ℚ) (prev : Previous) (delta : Axis → ℚ) (block : PlanLine) :
    Option (PlanLine × Previous) :=
  (axisAttr m).map fun attr => stuffBlock m attr flowRatio prev delta block

/-- No division was by zero when the line was filled: it makes a step and has a length, and no limit of an axis is
negative. -/
def Defined (l : PlanLine) : Prop :=
  0 < l.planCalc.stepEventCnt ∧ eolData < l.planCalc.lineLength ∧
    ∀ a ∈ Axis.all, 0 ≤ (l.axis a).maxSpeed ∧ 0 ≤ (l.axis a).maxJerk

instance (l : PlanLine) : Decidable (Defined l) := inferInstanceAs (Decidable (_ ∧ _ ∧ _))

end Defs

/-! ## What a filled line satisfies -/

section Spec

/-- What `StuffLineBuff` guarantees. -/
structure Stuffed (l : PlanLine) : Prop where
  stepEventCnt : l.planCalc.stepEventCnt = l.maxSteps
  maxSteps_lt : l.maxSteps < 2 ^ 31
  enterStatus : l.planCalc.enterStatus = .accelerate
  lineLength : 0 ≤ l.planCalc.lineLength
  acceleration : 0 ≤ l.planCalc.acceleration
  entrySpeedSqr : l.planCalc.entrySpeedSqr = sqr minimumPlannerSpeed
  exitSpeedSqr : l.planCalc.exitSpeedSqr = sqr minimumPlannerSpeed

theorem round_nonneg {x : ℚ} (h : 0 ≤ x) : 0 ≤ round x := by
  unfold round
  rw [if_neg (by linarith)]
  linarith

theorem flowed_nonneg (flowRatio delta : ℚ) (n : ℕ) : 0 ≤ flowed flowRatio delta n := by
  have h : 0 ≤ |delta| * (n : ℚ) := mul_nonneg (abs_nonneg _) (Nat.cast_nonneg _)
  unfold flowed
  split_ifs with hf
  · have h0 : 0 ≤ flowRatio / 100 := by
      unfold eolData at hf
      linarith
    rw [mul_assoc]
    exact mul_nonneg h0 h
  · exact h

theorem axisSteps_lt (flowRatio delta : ℚ) (n : ℕ) (a : Axis) : axisSteps flowRatio delta n a < 2 ^ 31 := by
  have h : 0 ≤ |delta| * (n : ℚ) := mul_nonneg (abs_nonneg _) (Nat.cast_nonneg _)
  cases a with
  | X => exact u32OfS32_toS32_lt (round_nonneg h)
  | Y => exact u32OfS32_toS32_lt (round_nonneg h)
  | Z => exact u32OfS32_toS32_lt (by exact_mod_cast Int.floor_nonneg.mpr h)
  | E => exact u32OfS32_toS32_lt (round_nonneg (flowed_nonneg _ _ _))

theorem limitAccel_nonneg (attr : Axis → StepperAttr) (steps : Axis → ℕ) (maxSteps : ℕ) {accel : ℚ}
    (h : 0 ≤ accel) : 0 ≤ limitAccel attr steps maxSteps accel := by
  have hfold : ∀ (as : List Axis) (accel : ℚ), 0 ≤ accel →
      0 ≤ as.foldl (fun accel a =>
        if steps a ≠ 0 ∧ (axisAccelStepPerS2 (attr a) : ℚ) < accel then
          let compare : ℚ := u32 (axisAccelStepPerS2 (attr a) * maxSteps)
          if compare < accel * steps a then compare / steps a else accel
        else accel) accel := by
    intro as
    induction as with
    | nil => exact fun _ h => h
    | cons a as ih =>
      intro accel h
      refine ih _ ?_
      dsimp only
      split_ifs
      · exact div_nonneg (Nat.cast_nonneg _) (Nat.cast_nonneg _)
      · exact h
      · exact h
  unfold limitAccel
  split_ifs
  · exact hfold _ _ h
  · exact h

/-- The length of a line is the square root, or the extruder distance when that is close to zero. -/
theorem lineLength_nonneg (x e : ℚ) : 0 ≤ if x ≤ eolData then |e| else x := by
  split_ifs with h
  · exact abs_nonneg _
  · unfold eolData at h
    linarith

/-- `MaxSteps` depends on the step counts only. -/
theorem maxSteps_lt_of_steps {l : PlanLine} {n : ℕ} (h : ∀ a, (l.axis a).steps < n) : l.maxSteps < n := by
  have hx := h .X
  have hy := h .Y
  have hz := h .Z
  have he := h .E
  unfold PlanLine.maxSteps
  omega

/-- **Every line that `StuffLineBuff` fills** has these properties, if its caller asked for no negative
acceleration. -/
theorem stuffBlock_stuffed (m : Machine) (attr : Axis → StepperAttr) (flowRatio : ℚ) (prev : Previous)
    (delta : Axis → ℚ) {block : PlanLine} (ha : 0 ≤ block.planCalc.acceleration) :
    Stuffed (stuffBlock m attr flowRatio prev delta block).1 := by
  have hinv : ∀ x : ℚ, 0 ≤ if x ≤ eolData then (0 : ℚ) else 1 / x := by
    intro x
    split_ifs with h
    · exact le_refl _
    · unfold eolData at h
      exact div_nonneg (by norm_num) (by linarith)
  refine ⟨rfl, ?_, rfl, lineLength_nonneg _ _, ?_, rfl, rfl⟩
  · exact maxSteps_lt_of_steps fun a => axisSteps_lt _ _ _ _
  · refine div_nonneg (limitAccel_nonneg _ _ _ (mul_nonneg ha ?_)) ?_
    · exact mul_nonneg (Nat.cast_nonneg _) (hinv _)
    · exact mul_nonneg (Nat.cast_nonneg _) (hinv _)

theorem stuffLineBuff_stuffed {m : Machine} {flowRatio : ℚ} {prev prev' : Previous} {delta : Axis → ℚ}
    {block block' : PlanLine} (ha : 0 ≤ block.planCalc.acceleration)
    (h : stuffLineBuff m flowRatio prev delta block = some (block', prev')) : Stuffed block' := by
  obtain ⟨attr, -, he⟩ := Option.map_eq_some_iff.mp h
  have hb := stuffBlock_stuffed m attr flowRatio prev delta ha
  rw [he] at hb
  exact hb

end Spec

end Cxsw.Motion
