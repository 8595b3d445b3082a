import Mathlib.Logic.Function.Basic
import Cxsw.CrMotion.StuffLine

/-!
# Cxsw.CrMotion.SmoothAlgorithm — the look-ahead (`CrMotion/SmoothAlgorithm.cpp`)

After a line is added to the ring, `SmoothRecalc` walks back over the pending lines and raises their entry speeds as
far as the braking distance allows, walks forward and lowers what cannot be reached by accelerating, and lays every
line out again in phases.  `SmoothIndex` persists between the calls: the walks stop there.

* `reverseAdjust`, `forwardAdjust`: one line, one pair of lines.
* `reverseScan`, `forwardScan`, `trapezoidCalculate`: the loops over the ring, with fuel for one turn of it.
* `calculateForLine`: the phases of a line.
-/

namespace Cxsw.Motion

/-! ## The ring -/

section Ring

/-- `BUFF_MAX_SIZE`. -/
def buffMaxSize : ℕ := 16

/-- `NextPlanLineIndex`; the mask is a remainder. -/
def nextPlanLineIndex (index : ℕ) : ℕ := (index + 1) % buffMaxSize

/-- `PrevPlanLineIndex`. -/
def prevPlanLineIndex (index : ℕ) : ℕ := (index + (buffMaxSize - 1)) % buffMaxSize

/-- `LineBuff`, its two indices and `SmoothIndex`. -/
structure PlanRing where
  lineBuff : ℕ → PlanLine
  lineBuffHead : ℕ
  lineBuffTail : ℕ
  smoothIndex : ℕ

/-- The initial ring. -/
def PlanRing.init : PlanRing := ⟨fun _ => PlanLine.zero, 0, 0, 0⟩

end Ring

/-! ## The phases of a line -/

section Phases

/-- `AccelerationDistance`. -/
def accelerationDistance (initialRateSqr targetRateSqr accel : ℚ) : ℚ :=
  if accel ≤ eolData ∧ -eolData ≤ accel then 0 else (targetRateSqr - initialRateSqr) / (accel * 2)

/-- `IntersectionDistance`. -/
def intersectionDistance (initialRateSqr finalRateSqr accel distance : ℚ) : ℚ :=
  if accel ≤ eolData ∧ -eolData ≤ accel then 0
  else (accel * 2 * distance - initialRateSqr + finalRateSqr) / (accel * 4)

/-- The longest axis, as `CalculateForLine` searches it. -/
def longestOf (l : PlanLine) : Axis × ℕ :=
  Axis.all.foldl (fun r a => if r.2 < (l.axis a).steps then (a, (l.axis a).steps) else r) (.X, (l.axis .X).steps)

/-- `CalculateForLine`.  `AccelStepPerS2` is unsigned, so its negation wraps before it becomes a `float`. -/
def calculateForLine (l : PlanLine) : PlanLine :=
  let c := l.planCalc
  let longestAxis := (longestOf l).1
  let eventSteps := (longestOf l).2
  let stepPerMm : ℚ := eventSteps / c.lineLength
  let nominalSqr : ℚ := u32 (c.nominalRate * c.nominalRate)
  let entryRateSqr := min (sqr stepPerMm * c.entrySpeedSqr) nominalSqr
  let exitRateSqr := min (sqr stepPerMm * c.exitSpeedSqr) nominalSqr
  let accelerateSteps := u32OfS32 (toS32 (⌈accelerationDistance entryRateSqr nominalSqr c.accelStepPerS2⌉ : ℤ))
  let decelerateSteps := u32OfS32 (toS32
    (⌊accelerationDistance nominalSqr exitRateSqr (u32Sub 0 c.accelStepPerS2)⌋ : ℤ))
  let plateauSteps := s32 (u32Sub (u32Sub eventSteps accelerateSteps) decelerateSteps)
  let intersection := toU32 (max (intersectionDistance entryRateSqr exitRateSqr c.accelStepPerS2 eventSteps) 0)
  let uniformStartStep := if plateauSteps < 0 then min intersection eventSteps else accelerateSteps
  let decelStartStep := if plateauSteps < 0 then uniformStartStep else u32 (accelerateSteps + u32OfS32 plateauSteps)
  { l with
    axis := fun a =>
      if a = longestAxis then
        { l.axis a with decelStartStep := decelStartStep, uniformStartStep := uniformStartStep }
      else l.axis a
    planCalc := { c with
      enterStatus := .accelerate
      entryRateSqr := toU32 entryRateSqr
      exitRateSqr := toU32 exitRateSqr } }

/-- `TrapezoidCalculate`: every usable line from the head to the tail.  A line is not usable while it is being laid
out; afterwards it is again. -/
def trapezoidLoop (tail : ℕ) : ℕ → (ℕ → PlanLine) → ℕ → (ℕ → PlanLine)
  | 0, buff, _ => buff
  | fuel + 1, buff, index =>
    if index = tail then buff
    else
      let buff := if (buff index).usable then Function.update buff index (calculateForLine (buff index)) else buff
      trapezoidLoop tail fuel buff (nextPlanLineIndex index)

end Phases

/-! ## The walks -/

section Scans

/-- `max_allowable_speed_sqr`. -/
def maxAllowableSpeedSqr (accel targetVelocitySqr distance : ℚ) : ℚ :=
  targetVelocitySqr - 2 * accel * distance

/-- `ReverseAdjust`. -/
def reverseAdjust (current : PlanLine) (next : Option PlanLine) : PlanLine :=
  let c := current.planCalc
  let nextEntrySqr := match next with
    | some n => n.planCalc.entrySpeedSqr
    | none => sqr minimumPlannerSpeed
  let maxEntrySpeedSqr := sqr c.maxEntrySpeed
  let adjust := c.entrySpeedSqr ≠ maxEntrySpeedSqr ∧ current.usable = true
  let maxAllowSpeedSqr := maxAllowableSpeedSqr (-c.acceleration) nextEntrySqr c.lineLength
  { current with
    planCalc := { c with
      entrySpeedSqr := if adjust then min maxAllowSpeedSqr maxEntrySpeedSqr else c.entrySpeedSqr
      exitSpeedSqr := if adjust then nextEntrySqr else c.exitSpeedSqr } }

/-- The entry speed that `ForwardAdjust` leaves. -/
def forwardEntry (previous current : PlanLine) : ℚ :=
  let p := previous.planCalc
  let c := current.planCalc
  let newEntrySpeedSqr := maxAllowableSpeedSqr (-p.acceleration) p.entrySpeedSqr p.lineLength
  if p.entrySpeedSqr < c.entrySpeedSqr ∧ newEntrySpeedSqr < c.entrySpeedSqr ∧ current.usable = true then
    newEntrySpeedSqr
  else c.entrySpeedSqr

/-- `ForwardAdjust`: the previous line and the current one. -/
def forwardAdjust (previous current : PlanLine) : PlanLine × PlanLine :=
  let entrySpeedSqr := forwardEntry previous current
  ({ previous with
      planCalc := { previous.planCalc with
        exitSpeedSqr := if previous.usable then entrySpeedSqr else previous.planCalc.exitSpeedSqr } },
    { current with planCalc := { current.planCalc with entrySpeedSqr := entrySpeedSqr } })

/-- The loop of `ReverseScan`; `next` is the slot that was adjusted before. -/
def reverseLoop (smooth : ℕ) : ℕ → (ℕ → PlanLine) → ℕ → Option ℕ → (ℕ → PlanLine)
  | 0, buff, _, _ => buff
  | fuel + 1, buff, index, next =>
    if index = smooth then buff
    else
      let buff := Function.update buff index (reverseAdjust (buff index) (next.map buff))
      if (buff (prevPlanLineIndex index)).usable then
        reverseLoop smooth fuel buff (prevPlanLineIndex index) (some index)
      else buff

/-- The loop of `ForwardScan`: the lines and `SmoothIndex`. -/
def forwardLoop (tail : ℕ) : ℕ → (ℕ → PlanLine) → ℕ → ℕ → Option ℕ → (ℕ → PlanLine) × ℕ
  | 0, buff, smooth, _, _ => (buff, smooth)
  | fuel + 1, buff, smooth, index, previous =>
    if index = tail then (buff, smooth)
    else if (buff index).usable then
      match previous with
      | none => forwardLoop tail fuel buff smooth (nextPlanLineIndex index) (some index)
      | some p =>
        let r := forwardAdjust (buff p) (buff index)
        forwardLoop tail fuel (Function.update (Function.update buff p r.1) index r.2) smooth
          (nextPlanLineIndex index) (some index)
    else forwardLoop tail fuel buff index (nextPlanLineIndex index) previous

/-- `ReverseScan`. -/
def reverseScan (g : PlanRing) : PlanRing :=
  { g with lineBuff := reverseLoop g.smoothIndex buffMaxSize g.lineBuff (prevPlanLineIndex g.lineBuffTail) none }

/-- `ForwardScan`. -/
def forwardScan (g : PlanRing) : PlanRing :=
  let r := forwardLoop g.lineBuffTail buffMaxSize g.lineBuff g.smoothIndex g.smoothIndex none
  { g with lineBuff := r.1, smoothIndex := r.2 }

/-- `TrapezoidCalculate`. -/
def trapezoidCalculate (g : PlanRing) : PlanRing :=
  { g with lineBuff := trapezoidLoop g.lineBuffTail buffMaxSize g.lineBuff g.lineBuffHead }

/-- `SmoothRecalc`. -/
def smoothRecalc (g : PlanRing) : PlanRing :=
  let g := if prevPlanLineIndex g.lineBuffTail ≠ g.smoothIndex then forwardScan (reverseScan g) else g
  trapezoidCalculate g

end Scans

end Cxsw.Motion
