import Cxsw.Lib.Checked
import Cxsw.CrMotion.AxisLimits
import Cxsw.CrMotion.HandedOut

/-!
# Cxsw.CrMotion.ZeroDivisors — the divisions of the planner (`CrMotion/CrMotionPlanner.cpp`, `SmoothAlgorithm.cpp`)

`StuffLineBuff` and `CalculateForLine` divide by lengths, speeds, step counts and accelerations, with a test before
some of the divisions.  Here they are once more with every division checked: where a divisor is zero, there is no
result.

* `stuffBlockChecked`, `calculateForLineChecked`: the two functions; those they call before them.
* `Planner.callChecked`: the calls of the planner, each with the look-ahead over all pending lines.
* `Moves`: the displacement makes a step, and the line has a length.
* `stuffBlockChecked_eq`, `calculateForLineChecked_eq`: exactly then is there a result, and it is that of the model.
* `calls_defined_iff`: the calls of a run all have results where every displacement that is accepted moves.
-/

namespace Cxsw.Motion

/-! ## The functions, with their divisions checked -/

section Defs

/-- `SpeedFactor`. -/
def speedFactorChecked (attr : Axis → StepperAttr) (speed : Axis → ℚ) : Option ℚ :=
  Axis.all.foldlM (fun factor a =>
    if ((attr a).maxVelocity : ℚ) < |speed a| then
      (divChecked ((attr a).maxVelocity : ℚ) |speed a|).map (min factor)
    else some factor) 1

/-- The limited acceleration. -/
def limitAccelChecked (attr : Axis → StepperAttr) (steps : Axis → ℕ) (maxSteps : ℕ) (accel : ℚ) : Option ℚ :=
  if steps .X ≠ 0 ∨ steps .Y ≠ 0 ∨ steps .Z ≠ 0 then
    Axis.all.foldlM (fun accel a =>
      if steps a ≠ 0 ∧ (axisAccelStepPerS2 (attr a) : ℚ) < accel then
        let compare : ℚ := u32 (axisAccelStepPerS2 (attr a) * maxSteps)
        if compare < accel * steps a then divChecked compare (steps a) else some accel
      else some accel) accel
  else some accel

/-- `SafeSpeed`. -/
def safeSpeedChecked (attr : Axis → StepperAttr) (speed : Axis → ℚ) (maxSpeed : ℚ) : Option ℚ :=
  (Axis.all.foldlM (fun (r : ℚ × Bool) a =>
    let jerk := |speed a|
    let maxJerk : ℚ := (attr a).jerk
    if maxJerk < jerk then
      if r.2 then
        if maxSpeed * maxJerk < jerk * r.1 then (divChecked (maxSpeed * maxJerk) jerk).map (·, true)
        else some (r.1, true)
      else (divChecked maxJerk jerk).map fun ratio => (r.1 * ratio, true)
    else some r) (maxSpeed, false)).map Prod.fst

/-- `VmaxJunction` from the line before. -/
def vmaxJunctionRawChecked (attr : Axis → StepperAttr) (prev : Previous) (speed : Axis → ℚ) (maxSpeed : ℚ) :
    Option ℚ := do
  let vmaxJunction := if maxSpeed < prev.maxSpeed then maxSpeed else prev.maxSpeed
  let smallerSpeedFactor ← (if maxSpeed < prev.maxSpeed then divChecked vmaxJunction prev.maxSpeed else some 1)
  let r ← Axis.all.foldlM (fun (r : ℚ × Bool) a =>
    let vExit := prev.speed a * smallerSpeedFactor * (if r.2 then r.1 else 1)
    let vEntry := speed a * (if r.2 then r.1 else 1)
    let jerk := junctionJerk vExit vEntry
    if ((attr a).jerk : ℚ) < jerk then (divChecked ((attr a).jerk : ℚ) jerk).map fun ratio => (r.1 * ratio, true)
    else some r) (1, false)
  return if r.2 then vmaxJunction * r.1 else vmaxJunction

/-- `VmaxJunction`. -/
def vmaxJunctionChecked (attr : Axis → StepperAttr) (prev : Previous) (speed : Axis → ℚ) (maxSpeed safe : ℚ) :
    Option ℚ :=
  if eolData < prev.maxSpeed ∨ prev.maxSpeed < -eolData then do
    let v ← vmaxJunctionRawChecked attr prev speed maxSpeed
    let threshold := v * (99 / 100)
    return if threshold < prev.safeSpeed ∧ threshold < safe then safe else v
  else some safe

/-- `StuffLineBuff` once the steppers have answered.  What it does not compute by a division is as in `stuffBlock`. -/
def stuffBlockChecked (m : Machine) (attr : Axis → StepperAttr) (flowRatio : ℚ) (prev : Previous) (delta : Axis → ℚ)
    (block : PlanLine) : Option (PlanLine × Previous) := do
  let line := (stuffBlock m attr flowRatio prev delta block).1
  let steps : Axis → ℕ := fun a => axisSteps flowRatio (delta a) (attr a).stepsPerMm a
  let maxSteps := line.maxSteps
  let millimeters := calcSqrt m (sqr (delta .X) + sqr (delta .Y) + sqr (delta .Z))
  let millimeters := if millimeters ≤ eolData then |delta .E| else millimeters
  let inverseMillimeters ← (if millimeters ≤ eolData then some 0 else divChecked 1 millimeters)
  let inverseSec := block.planCalc.maxSpeed * inverseMillimeters
  let maxSpeed := millimeters * inverseSec
  let nominalRate := toU32 (⌈(maxSteps : ℚ) * inverseSec⌉ : ℤ)
  let speed : Axis → ℚ := fun a => delta a * inverseSec
  let factor ← speedFactorChecked attr speed
  let speed : Axis → ℚ := fun a => if factor < 1 then speed a * factor else speed a
  let maxSpeed := if factor < 1 then maxSpeed * factor else maxSpeed
  let nominalRate := if factor < 1 then toU32 (nominalRate * factor) else nominalRate
  let stepPerMM := maxSteps * inverseMillimeters
  let accel ← limitAccelChecked attr steps maxSteps (block.planCalc.acceleration * stepPerMM)
  let acceleration ← divChecked accel stepPerMM
  let accelStepPerS2 := toU32 accel
  let safe ← safeSpeedChecked attr speed maxSpeed
  let vmaxJunction ← vmaxJunctionChecked attr prev speed maxSpeed safe
  return ({ line with
      planCalc := { line.planCalc with
        acceleration := acceleration
        maxSpeed := maxSpeed
        lineLength := millimeters
        maxEntrySpeed := vmaxJunction
        nominalRate := nominalRate
        accelStepPerS2 := accelStepPerS2
        accelStepPerSecTick := toU32 (accelStepPerS2 * (sqr 4096 / 1000000)) } },
    ⟨safe, speed, maxSpeed⟩)

/-- `AccelerationDistance`. -/
def accelerationDistanceChecked (initialRateSqr targetRateSqr accel : ℚ) : Option ℚ :=
  if accel ≤ eolData ∧ -eolData ≤ accel then some 0 else divChecked (targetRateSqr - initialRateSqr) (accel * 2)

/-- `IntersectionDistance`. -/
def intersectionDistanceChecked (initialRateSqr finalRateSqr accel distance : ℚ) : Option ℚ :=
  if accel ≤ eolData ∧ -eolData ≤ accel then some 0
  else divChecked (accel * 2 * distance - initialRateSqr + finalRateSqr) (accel * 4)

/-- `PlateauSteps` from the two distances. -/
def plateauOf (eventSteps : ℕ) (accelerateDistance decelerateDistance : ℚ) : ℤ :=
  s32 (u32Sub (u32Sub eventSteps (u32OfS32 (toS32 (⌈accelerateDistance⌉ : ℤ))))
    (u32OfS32 (toS32 (⌊decelerateDistance⌋ : ℤ))))

/-- What `CalculateForLine` writes, from the rates and the distances. -/
def layOut (l : PlanLine) (entryRateSqr exitRateSqr accelerateDistance decelerateDistance intersection : ℚ) :
    PlanLine :=
  let plateauSteps := plateauOf (longestOf l).2 accelerateDistance decelerateDistance
  let accelerateSteps := u32OfS32 (toS32 (⌈accelerateDistance⌉ : ℤ))
  let uniformStartStep :=
    if plateauSteps < 0 then min (toU32 (max intersection 0)) (longestOf l).2 else accelerateSteps
  let decelStartStep := if plateauSteps < 0 then uniformStartStep else u32 (accelerateSteps + u32OfS32 plateauSteps)
  { l with
    axis := fun a =>
      if a = (longestOf l).1 then
        { l.axis a with decelStartStep := decelStartStep, uniformStartStep := uniformStartStep }
      else l.axis a
    planCalc := { l.planCalc with
      enterStatus := .accelerate
      entryRateSqr := toU32 entryRateSqr
      exitRateSqr := toU32 exitRateSqr } }

/-- `CalculateForLine` from the rates on. -/
def layOutChecked (l : PlanLine) (nominalSqr entryRateSqr exitRateSqr : ℚ) : Option PlanLine := do
  let accelerateDistance ← accelerationDistanceChecked entryRateSqr nominalSqr l.planCalc.accelStepPerS2
  let decelerateDistance ← accelerationDistanceChecked nominalSqr exitRateSqr (u32Sub 0 l.planCalc.accelStepPerS2)
  let intersection ← (if plateauOf (longestOf l).2 accelerateDistance decelerateDistance < 0 then
    intersectionDistanceChecked entryRateSqr exitRateSqr l.planCalc.accelStepPerS2 (longestOf l).2 else some 0)
  return layOut l entryRateSqr exitRateSqr accelerateDistance decelerateDistance intersection

/-- `CalculateForLine`. -/
def calculateForLineChecked (l : PlanLine) : Option PlanLine := do
  let c := l.planCalc
  let stepPerMm ← divChecked ((longestOf l).2 : ℚ) c.lineLength
  let nominalSqr : ℚ := u32 (c.nominalRate * c.nominalRate)
  layOutChecked l nominalSqr (min (sqr stepPerMm * c.entrySpeedSqr) nominalSqr)
    (min (sqr stepPerMm * c.exitSpeedSqr) nominalSqr)

/-- `TrapezoidCalculate`. -/
def trapezoidLoopChecked (tail : ℕ) : ℕ → (ℕ → PlanLine) → ℕ → Option (ℕ → PlanLine)
  | 0, buff, _ => some buff
  | fuel + 1, buff, index =>
    if index = tail then some buff
    else do
      let buff ←
        (if (buff index).usable then (calculateForLineChecked (buff index)).map (Function.update buff index)
        else some buff)
      trapezoidLoopChecked tail fuel buff (nextPlanLineIndex index)

/-- `SmoothRecalc`; the walks divide by nothing. -/
def smoothRecalcChecked (g : PlanRing) : Option PlanRing :=
  let g := if prevPlanLineIndex g.lineBuffTail ≠ g.smoothIndex then forwardScan (reverseScan g) else g
  (trapezoidLoopChecked g.lineBuffTail buffMaxSize g.lineBuff g.lineBuffHead).map
    fun buff => { g with lineBuff := buff }

/-- The slot at the tail with the request of the caller. -/
def requestBlock (p : Planner) (request : ℚ × ℚ) : PlanLine :=
  let block := p.ring.lineBuff p.ring.lineBuffTail
  { block with planCalc := { block.planCalc with acceleration := request.1, maxSpeed := request.2 } }

/-- The part that `PlanLine` and `PlanRetract` share. -/
def planBlockChecked (m : Machine) (p : Planner) (d : Axis → ℚ) (request : ℚ × ℚ) : Option (ℤ × Planner) :=
  match axisAttr m with
  | none => some (-1, p)
  | some attr => do
    let (line, previous) ← stuffBlockChecked m attr p.feedrate.flowRatio p.previous d (requestBlock p request)
    let ring ← smoothRecalcChecked (pushLine p.ring line)
    return (0, { p with ring := ring, previous := previous })

/-- `PlanLine`. -/
def planLineChecked (m : Machine) (p : Planner) (current target : Axis → ℚ) : Option (ℤ × Planner) :=
  if isPlanLineBuffFull p.ring then some (-1, p)
  else
    let p := { p with feedrate := checkFeedrate p.feedrate }
    let d := dis target current
    planBlockChecked m p (cutE d) (requestLine p.feedrate d)

/-- `PlanRetract`. -/
def planRetractChecked (m : Machine) (p : Planner) (current target : Axis → ℚ) : Option (ℤ × Planner) :=
  if isPlanLineBuffFull p.ring then some (-1, p)
  else planBlockChecked m p (dis target current) (requestRetract p.feedrate)

/-- The planner after a call, where all its divisions have a result. -/
def Planner.callChecked (p : Planner) : PlannerCall → Option Planner
  | .planLine m current target => (planLineChecked m p current target).map Prod.snd
  | .planRetract m current target => (planRetractChecked m p current target).map Prod.snd
  | .getNextPlanLine => some (p.call .getNextPlanLine)
  | .planLineBuffClear => some (p.call .planLineBuffClear)
  | .feedrateAttrSet attr => some (p.call (.feedrateAttrSet attr))

end Defs

/-! ## Where the divisors are not zero -/

section Divisors

/-- No speed and no jerk is limited to a negative number. -/
structure AttrOk (attr : Axis → StepperAttr) : Prop where
  maxVelocity : ∀ a, 0 ≤ (attr a).maxVelocity
  jerk : ∀ a, 0 ≤ (attr a).jerk

variable {attr : Axis → StepperAttr}

theorem AttrOk.maxVelocity_nonneg (h : AttrOk attr) (a : Axis) : (0 : ℚ) ≤ (attr a).maxVelocity := by
  exact_mod_cast h.maxVelocity a

theorem AttrOk.jerk_nonneg (h : AttrOk attr) (a : Axis) : (0 : ℚ) ≤ (attr a).jerk := by
  exact_mod_cast h.jerk a

theorem speedFactorChecked_eq (h : AttrOk attr) (speed : Axis → ℚ) :
    speedFactorChecked attr speed = some (speedFactor attr speed) :=
  foldlM_eq_some (fun factor a => divChecked_of_lt (h.maxVelocity_nonneg a) (min factor) factor _) 1 Axis.all

theorem limitAccelChecked_eq (attr : Axis → StepperAttr) (steps : Axis → ℕ) (maxSteps : ℕ) (accel : ℚ) :
    limitAccelChecked attr steps maxSteps accel = some (limitAccel attr steps maxSteps accel) := by
  unfold limitAccelChecked limitAccel
  split_ifs
  · refine foldlM_eq_some (fun accel a => ?_) accel Axis.all
    dsimp only
    split_ifs with hguard
    · exact divChecked_of_ne _ (by exact_mod_cast hguard.1)
    · rfl
    · rfl
  · rfl

theorem safeSpeedChecked_eq (h : AttrOk attr) (speed : Axis → ℚ) (maxSpeed : ℚ) :
    safeSpeedChecked attr speed maxSpeed = some (safeSpeed attr speed maxSpeed) := by
  refine congrArg (Option.map Prod.fst) (foldlM_eq_some (fun r a => ?_) (maxSpeed, false) Axis.all)
  dsimp only
  split_ifs with hover
  · rw [divChecked_of_ne _ ((h.jerk_nonneg a).trans_lt hover).ne']
    rfl
  · rfl
  · rw [divChecked_of_ne _ ((h.jerk_nonneg a).trans_lt hover).ne']
    rfl
  · rfl

theorem vmaxJunctionRawChecked_eq (h : AttrOk attr) {prev : Previous} (hprev : prev.maxSpeed ≠ 0) (speed : Axis → ℚ)
    (maxSpeed : ℚ) :
    vmaxJunctionRawChecked attr prev speed maxSpeed = some (vmaxJunctionRaw attr prev speed maxSpeed) := by
  have hsmaller : (if maxSpeed < prev.maxSpeed then
      divChecked (if maxSpeed < prev.maxSpeed then maxSpeed else prev.maxSpeed) prev.maxSpeed else some 1) =
      some (if maxSpeed < prev.maxSpeed then
        (if maxSpeed < prev.maxSpeed then maxSpeed else prev.maxSpeed) / prev.maxSpeed else 1) := by
    split_ifs
    · exact divChecked_of_ne _ hprev
    · rfl
  unfold vmaxJunctionRawChecked
  dsimp only
  rw [hsmaller, Option.bind_eq_bind, Option.bind_some,
    foldlM_eq_some (fun r a => divChecked_of_lt (h.jerk_nonneg a) (fun ratio => (r.1 * ratio, true)) r _) (1, false)
      Axis.all]
  rfl

theorem vmaxJunctionChecked_eq (h : AttrOk attr) (prev : Previous) (speed : Axis → ℚ) (maxSpeed safe : ℚ) :
    vmaxJunctionChecked attr prev speed maxSpeed safe = some (vmaxJunction attr prev speed maxSpeed safe) := by
  unfold vmaxJunctionChecked vmaxJunction
  split_ifs with hfast
  · have hprev : prev.maxSpeed ≠ 0 := by
      unfold eolData at hfast
      rintro h0
      rw [h0] at hfast
      rcases hfast with hpos | hneg <;> linarith
    rw [vmaxJunctionRawChecked_eq h hprev]
    rfl
  · rfl

variable {m : Machine} {flowRatio : ℚ} {prev : Previous} {delta : Axis → ℚ} {block : PlanLine}

/-- The displacement makes a step on some axis, and the line has a length. -/
def Moves (m : Machine) (attr : Axis → StepperAttr) (flowRatio : ℚ) (delta : Axis → ℚ) : Prop :=
  (∃ a ∈ Axis.all, axisSteps flowRatio (delta a) (attr a).stepsPerMm a ≠ 0) ∧ eolData < lineMillimeters m delta

instance : Decidable (Moves m attr flowRatio delta) := inferInstanceAs (Decidable (_ ∧ _))

theorem stuffed_maxSteps_pos_iff :
    0 < (stuffed m attr flowRatio prev delta block).maxSteps ↔
      ∃ a ∈ Axis.all, axisSteps flowRatio (delta a) (attr a).stepsPerMm a ≠ 0 := by
  constructor
  · intro hpos
    by_contra hnone
    simp only [not_exists, not_and, not_not] at hnone
    have hlt := maxSteps_lt_of_steps (l := stuffed m attr flowRatio prev delta block) (n := 1) fun a => by
      rw [stuffed_steps]
      exact Nat.lt_one_iff.mpr (hnone a (Axis.mem_all a))
    omega
  · rintro ⟨a, -, ha⟩
    have hle := PlanLine.steps_le_maxSteps (stuffed m attr flowRatio prev delta block) a
    rw [stuffed_steps] at hle
    exact (Nat.pos_of_ne_zero ha).trans_le hle

/-- `StepPerMM` is zero exactly where nothing moves. -/
theorem stepPerMM_ne_zero_iff :
    stepPerMM m attr flowRatio prev delta block ≠ 0 ↔ Moves m attr flowRatio delta := by
  have hlength : inverseMillimeters m delta ≠ 0 ↔ eolData < lineMillimeters m delta := by
    constructor
    · intro hne
      by_contra hshort
      exact hne (if_pos (not_lt.mp hshort))
    · intro hlen
      rw [inverseMillimeters_eq hlen]
      exact one_div_ne_zero (lineMillimeters_pos hlen).ne'
  unfold stepPerMM Moves
  rw [mul_ne_zero_iff, Nat.cast_ne_zero, ← Nat.pos_iff_ne_zero, stuffed_maxSteps_pos_iff, hlength]

/-- **The lines filled without a division by zero** are those of displacements that move, where no limit is
negative. -/
theorem defined_stuffed_iff :
    Defined (stuffed m attr flowRatio prev delta block) ↔ AttrOk attr ∧ Moves m attr flowRatio delta := by
  have hattr : (∀ a ∈ Axis.all, 0 ≤ (attr a).maxVelocity ∧ 0 ≤ (attr a).jerk) ↔ AttrOk attr :=
    ⟨fun h => ⟨fun a => (h a a.mem_all).1, fun a => (h a a.mem_all).2⟩, fun h a _ => ⟨h.1 a, h.2 a⟩⟩
  have hsteps : 0 < (stuffed m attr flowRatio prev delta block).maxSteps ↔ _ := stuffed_maxSteps_pos_iff
  unfold Defined Moves
  rw [stuffed_lineLength, ← hattr, ← hsteps]
  exact ⟨fun h => ⟨h.2.2, h.1, h.2.1⟩, fun h => ⟨h.2.1, h.2.2, h.1⟩⟩

/-- **`StuffLineBuff`** has a result exactly for a displacement that moves. -/
theorem stuffBlockChecked_eq (h : AttrOk attr) :
    stuffBlockChecked m attr flowRatio prev delta block =
      if Moves m attr flowRatio delta then some (stuffBlock m attr flowRatio prev delta block) else none := by
  have hinverse : (if lineMillimeters m delta ≤ eolData then some 0 else divChecked 1 (lineMillimeters m delta)) =
      some (inverseMillimeters m delta) := by
    unfold inverseMillimeters
    split_ifs with hshort
    · rfl
    · exact divChecked_of_ne _ (lineMillimeters_pos (not_le.mp hshort)).ne'
  have hchecked : stuffBlockChecked m attr flowRatio prev delta block =
      (divChecked (limitAccel attr (requestSteps attr flowRatio delta)
        (stuffed m attr flowRatio prev delta block).maxSteps
        (block.planCalc.acceleration * stepPerMM m attr flowRatio prev delta block))
        (stepPerMM m attr flowRatio prev delta block)).map fun acceleration =>
          ({ stuffed m attr flowRatio prev delta block with
            planCalc := { (stuffed m attr flowRatio prev delta block).planCalc with acceleration := acceleration } },
            (stuffBlock m attr flowRatio prev delta block).2) := by
    unfold lineMillimeters at hinverse
    unfold stuffBlockChecked
    dsimp only at hinverse ⊢
    rw [hinverse]
    simp only [Option.bind_eq_bind, Option.bind_some, speedFactorChecked_eq h, limitAccelChecked_eq,
      safeSpeedChecked_eq h, vmaxJunctionChecked_eq h]
    rw [Option.map_eq_bind]
    rfl
  rw [hchecked]
  by_cases hmove : Moves m attr flowRatio delta
  · rw [if_pos hmove, divChecked_of_ne _ (stepPerMM_ne_zero_iff.mpr hmove)]
    rfl
  · rw [if_neg hmove, divChecked_of_eq _ (not_not.mp fun hne => hmove (stepPerMM_ne_zero_iff.mp hne))]
    rfl

theorem accelerationDistanceChecked_eq (initial target accel : ℚ) :
    accelerationDistanceChecked initial target accel = some (accelerationDistance initial target accel) := by
  unfold accelerationDistanceChecked accelerationDistance
  split_ifs with hstand
  · rfl
  · refine divChecked_of_ne _ (mul_ne_zero ?_ two_ne_zero)
    rintro rfl
    exact hstand (by norm_num [eolData])

theorem intersectionDistanceChecked_eq (initial final accel distance : ℚ) :
    intersectionDistanceChecked initial final accel distance =
      some (intersectionDistance initial final accel distance) := by
  unfold intersectionDistanceChecked intersectionDistance
  split_ifs with hstand
  · rfl
  · refine divChecked_of_ne _ (mul_ne_zero ?_ four_ne_zero)
    rintro rfl
    exact hstand (by norm_num [eolData])

/-- Where there is a plateau, the point where the ramps would meet is not used. -/
theorem layOut_of_plateau {l : PlanLine} {accelerateDistance decelerateDistance : ℚ}
    (h : ¬ plateauOf (longestOf l).2 accelerateDistance decelerateDistance < 0)
    (entryRateSqr exitRateSqr intersection intersection' : ℚ) :
    layOut l entryRateSqr exitRateSqr accelerateDistance decelerateDistance intersection =
      layOut l entryRateSqr exitRateSqr accelerateDistance decelerateDistance intersection' := by
  unfold layOut
  simp only [h, if_false]

theorem layOutChecked_eq (l : PlanLine) (nominalSqr entryRateSqr exitRateSqr : ℚ) :
    layOutChecked l nominalSqr entryRateSqr exitRateSqr =
      some (layOut l entryRateSqr exitRateSqr
        (accelerationDistance entryRateSqr nominalSqr l.planCalc.accelStepPerS2)
        (accelerationDistance nominalSqr exitRateSqr (u32Sub 0 l.planCalc.accelStepPerS2 : ℕ))
        (intersectionDistance entryRateSqr exitRateSqr l.planCalc.accelStepPerS2 (longestOf l).2)) := by
  unfold layOutChecked
  rw [accelerationDistanceChecked_eq, accelerationDistanceChecked_eq, intersectionDistanceChecked_eq,
    Option.bind_eq_bind, Option.bind_some, Option.bind_some]
  generalize accelerationDistance entryRateSqr nominalSqr l.planCalc.accelStepPerS2 = accelerateDistance
  generalize accelerationDistance nominalSqr exitRateSqr (u32Sub 0 l.planCalc.accelStepPerS2 : ℕ) = decelerateDistance
  generalize intersectionDistance entryRateSqr exitRateSqr l.planCalc.accelStepPerS2 (longestOf l).2 = intersection
  by_cases hshort : plateauOf (longestOf l).2 accelerateDistance decelerateDistance < 0
  · rw [if_pos hshort, Option.bind_some]
    rfl
  · rw [if_neg hshort, Option.bind_some]
    exact congrArg some (layOut_of_plateau hshort _ _ _ _)

/-- **`CalculateForLine`** has a result for a line with a length. -/
theorem calculateForLineChecked_eq {l : PlanLine} (h : l.planCalc.lineLength ≠ 0) :
    calculateForLineChecked l = some (calculateForLine l) := by
  unfold calculateForLineChecked
  dsimp only
  rw [divChecked_of_ne _ h, Option.bind_eq_bind, Option.bind_some, layOutChecked_eq]
  rfl

end Divisors

/-! ## The calls of a run -/

section Runs

/-- A line that may be laid out has a length. -/
def SlotSound (l : PlanLine) : Prop := l.usable = true → 0 < l.planCalc.lineLength

/-- The look-ahead leaves the lengths alone. -/
theorem keeps_slotSound : Keeps SlotSound where
  reverse _ _ h := h
  forward _ _ hp hc := ⟨hp, hc⟩
  phases _ h := h
  consume _ _ h := by cases h

theorem trapezoidLoopChecked_eq (tail : ℕ) :
    ∀ (fuel : ℕ) (buff : ℕ → PlanLine) (index : ℕ), (∀ k, SlotSound (buff k)) →
      trapezoidLoopChecked tail fuel buff index = some (trapezoidLoop tail fuel buff index)
  | 0, _, _, _ => rfl
  | fuel + 1, buff, index, h => by
    unfold trapezoidLoopChecked trapezoidLoop
    dsimp only
    by_cases hend : index = tail
    · rw [if_pos hend, if_pos hend]
    · rw [if_neg hend, if_neg hend]
      by_cases hu : (buff index).usable = true
      · rw [if_pos hu, if_pos hu, calculateForLineChecked_eq (h index hu).ne', Option.map_some, Option.bind_eq_bind,
          Option.bind_some]
        exact trapezoidLoopChecked_eq tail fuel _ _ (update_slots h (keeps_slotSound.phases _ (h index)) index)
      · rw [if_neg hu, if_neg hu, Option.bind_eq_bind, Option.bind_some]
        exact trapezoidLoopChecked_eq tail fuel _ _ h

theorem smoothRecalcChecked_eq {g : PlanRing} (h : ∀ k, SlotSound (g.lineBuff k)) :
    smoothRecalcChecked g = some (smoothRecalc g) := by
  unfold smoothRecalcChecked smoothRecalc trapezoidCalculate
  dsimp only
  rw [trapezoidLoopChecked_eq, Option.map_some]
  split_ifs
  · exact keeps_slotSound.forwardLoop _ _ _ _ _ _ (keeps_slotSound.reverseLoop _ _ _ _ _ h)
  · exact h

variable {m : Machine} {p : Planner} {d : Axis → ℚ} {request : ℚ × ℚ}

/-- The slots after a line with a length is put in. -/
theorem slotSound_push (h : ∀ k, SlotSound (p.ring.lineBuff k)) (line : PlanLine)
    (hl : 0 < line.planCalc.lineLength) : ∀ k, SlotSound ((pushLine p.ring line).lineBuff k) :=
  update_slots h (l := { line with usable := true }) (fun _ => hl) _

/-- What a call that is accepted needs: its displacement moves. -/
def PlanMoves (m : Machine) (p : Planner) (d : Axis → ℚ) : Prop :=
  ∀ attr ∈ axisAttr m, Moves m attr p.feedrate.flowRatio d

instance : Decidable (PlanMoves m p d) := by
  unfold PlanMoves
  infer_instance

/-- The settings of a machine whose steppers answer. -/
def MachineOk (m : Machine) : Prop := ∀ attr ∈ axisAttr m, AttrOk attr

variable (request) in
theorem planBlockChecked_eq (hm : MachineOk m) (h : ∀ k, SlotSound (p.ring.lineBuff k)) (hd : PlanMoves m p d) :
    planBlockChecked m p d request = some (planBlock m p d request) ∧
      ∀ k, SlotSound ((planBlock m p d request).2.ring.lineBuff k) := by
  unfold planBlockChecked planBlock
  cases hattr : axisAttr m with
  | none =>
    have hst : stuffTail m p d request = none := by
      unfold stuffTail stuffLineBuff
      rw [hattr]
      rfl
    rw [hst]
    exact ⟨rfl, h⟩
  | some attr =>
    have hst : stuffTail m p d request =
        some (stuffBlock m attr p.feedrate.flowRatio p.previous d (requestBlock p request)) := by
      unfold stuffTail stuffLineBuff
      rw [hattr]
      rfl
    have hmove := hd attr hattr
    have hring := slotSound_push h (stuffed m attr p.feedrate.flowRatio p.previous d (requestBlock p request))
      (lineMillimeters_pos hmove.2)
    dsimp only
    rw [hst, stuffBlockChecked_eq (hm attr hattr), if_pos hmove, Option.bind_eq_bind, Option.bind_some]
    constructor
    · have hsmooth := smoothRecalcChecked_eq hring
      unfold stuffed at hsmooth
      dsimp only
      rw [hsmooth]
      rfl
    · exact keeps_slotSound.smoothRecalc hring

/-- A displacement that does not move has no result. -/
theorem planBlockChecked_none (hm : MachineOk m) (hd : ¬ PlanMoves m p d) : planBlockChecked m p d request = none := by
  obtain ⟨attr, hattr, hstand⟩ : ∃ attr, axisAttr m = some attr ∧ ¬ Moves m attr p.feedrate.flowRatio d := by
    unfold PlanMoves at hd
    simp only [not_forall] at hd
    obtain ⟨attr, hattr, hstand⟩ := hd
    exact ⟨attr, hattr, hstand⟩
  unfold planBlockChecked
  rw [hattr]
  dsimp only
  rw [stuffBlockChecked_eq (hm attr hattr), if_neg hstand]
  rfl

/-- What a call needs. -/
def CallMoves (p : Planner) : PlannerCall → Prop
  | .planLine m current target => isPlanLineBuffFull p.ring = false → PlanMoves m p (cutE (dis target current))
  | .planRetract m current target => isPlanLineBuffFull p.ring = false → PlanMoves m p (dis target current)
  | _ => True

instance : (p : Planner) → (c : PlannerCall) → Decidable (CallMoves p c)
  | p, .planLine m current target =>
    inferInstanceAs (Decidable (isPlanLineBuffFull p.ring = false → PlanMoves m p (cutE (dis target current))))
  | p, .planRetract m current target =>
    inferInstanceAs (Decidable (isPlanLineBuffFull p.ring = false → PlanMoves m p (dis target current)))
  | _, .getNextPlanLine => isTrue trivial
  | _, .planLineBuffClear => isTrue trivial
  | _, .feedrateAttrSet _ => isTrue trivial

/-- The settings of the machine of a call. -/
def CallOk : PlannerCall → Prop
  | .planLine m _ _ => MachineOk m
  | .planRetract m _ _ => MachineOk m
  | _ => True

/-- The check of the feedrate changes nothing that a displacement is judged by. -/
theorem planMoves_checkFeedrate :
    PlanMoves m { p with feedrate := checkFeedrate p.feedrate } d ↔ PlanMoves m p d := by
  unfold PlanMoves
  rw [checkFeedrate_flowRatio]

theorem callChecked_eq {c : PlannerCall} (hc : CallOk c) (h : ∀ k, SlotSound (p.ring.lineBuff k))
    (hd : CallMoves p c) : p.callChecked c = some (p.call c) ∧ ∀ k, SlotSound ((p.call c).ring.lineBuff k) := by
  cases c with
  | planLine m current target =>
    unfold Planner.callChecked Planner.call planLineChecked planLine
    dsimp only
    cases hfull : isPlanLineBuffFull p.ring with
    | true => exact ⟨rfl, h⟩
    | false =>
      obtain ⟨heq, hkeep⟩ := planBlockChecked_eq (p := { p with feedrate := checkFeedrate p.feedrate })
        (requestLine (checkFeedrate p.feedrate) (dis target current)) hc h
        (planMoves_checkFeedrate.mpr (hd hfull))
      rw [if_neg Bool.false_ne_true, if_neg Bool.false_ne_true, heq]
      exact ⟨rfl, hkeep⟩
  | planRetract m current target =>
    unfold Planner.callChecked Planner.call planRetractChecked planRetract
    dsimp only
    cases hfull : isPlanLineBuffFull p.ring with
    | true => exact ⟨rfl, h⟩
    | false =>
      obtain ⟨heq, hkeep⟩ := planBlockChecked_eq (requestRetract p.feedrate) hc h (hd hfull)
      rw [if_neg Bool.false_ne_true, if_neg Bool.false_ne_true, heq]
      exact ⟨rfl, hkeep⟩
  | getNextPlanLine =>
    refine ⟨rfl, ?_⟩
    unfold Planner.call getNextPlanLine
    dsimp only
    split_ifs
    · exact h
    · exact update_slots h (keeps_slotSound.consume _ (h _)) _
    · exact h
  | planLineBuffClear => exact ⟨rfl, keeps_slotSound.clearLoop _ _ _ _ h⟩
  | feedrateAttrSet attr => exact ⟨rfl, h⟩

theorem callChecked_none {c : PlannerCall} (hc : CallOk c) (hd : ¬ CallMoves p c) : p.callChecked c = none := by
  cases c with
  | planLine m current target =>
    obtain ⟨hfull, hstand⟩ : isPlanLineBuffFull p.ring = false ∧ ¬ PlanMoves m p (cutE (dis target current)) :=
      Classical.not_imp.mp hd
    unfold Planner.callChecked planLineChecked
    rw [hfull]
    dsimp only
    rw [if_neg Bool.false_ne_true, planBlockChecked_none hc (mt planMoves_checkFeedrate.mp hstand)]
    rfl
  | planRetract m current target =>
    obtain ⟨hfull, hstand⟩ : isPlanLineBuffFull p.ring = false ∧ ¬ PlanMoves m p (dis target current) :=
      Classical.not_imp.mp hd
    unfold Planner.callChecked planRetractChecked
    rw [hfull]
    dsimp only
    rw [if_neg Bool.false_ne_true, planBlockChecked_none hc hstand]
    rfl
  | getNextPlanLine => exact absurd trivial hd
  | planLineBuffClear => exact absurd trivial hd
  | feedrateAttrSet attr => exact absurd trivial hd

/-- The machine of the examples, with the square root of `0.004 ^ 2`. -/
def shortMachine : Machine := { exampleMachine with root := fun _ => 1 / 250 }

theorem shortMachine_ok : MachineOk shortMachine := by
  intro attr hattr
  obtain rfl := Option.some.inj hattr
  exact ⟨fun a => by cases a <;> decide, fun a => by cases a <;> decide⟩

/-- A position on the X axis. -/
def xAt (x : ℚ) : Axis → ℚ := fun a => if a = .X then x else 0

/-- A first move of X to `x` that is accepted, but not defined. -/
def Undefined (x : ℚ) : Prop :=
  CallOk (.planLine shortMachine (xAt 0) (xAt x)) ∧ (planLine shortMachine Planner.init (xAt 0) (xAt x)).1 = 0 ∧
    ([PlannerCall.planLine shortMachine (xAt 0) (xAt x)].foldlM Planner.callChecked Planner.init).isSome = false

end Runs

end Cxsw.Motion
