import Cxsw.CrMotion.JunctionJerk

/-!
# Cxsw.CrMotion.AxisLimits — the limits of the axes (`CrMotion/CrMotionPlanner.cpp`, `StuffLineBuff`)

`StuffLineBuff` takes the speed and the acceleration that its caller asks for and lowers them until no axis is beyond
its own limits.  The speed is scaled by the smallest ratio of a limit and an axis speed.  The acceleration is compared
in steps: those of the axis against those of the longest one.

* `lineMillimeters`, `requestSteps`: the length and the step counts.
* `stuffBlock_speed`, `stuffBlock_rate`, `stuffBlock_accel`: the results in terms of the request.
* `WithinLimits`: the limits in millimetres.
* `LimitsKept`: what the function keeps.  The acceleration is limited in steps, and a line of the extruder alone keeps
  the one that is asked for.
* `limitsKept`: it keeps that.
-/

namespace Cxsw.Motion

open Within

/-! ## The results of `StuffLineBuff` -/

section Results

/-- `Millimeters`. -/
def lineMillimeters (m : Machine) (delta : Axis → ℚ) : ℚ :=
  let millimeters := calcSqrt m (sqr (delta .X) + sqr (delta .Y) + sqr (delta .Z))
  if millimeters ≤ eolData then |delta .E| else millimeters

/-- `Axis[i].Steps`. -/
def requestSteps (attr : Axis → StepperAttr) (flowRatio : ℚ) (delta : Axis → ℚ) (a : Axis) : ℕ :=
  axisSteps flowRatio (delta a) (attr a).stepsPerMm a

/-- `InverseMillimeters`. -/
def inverseMillimeters (m : Machine) (delta : Axis → ℚ) : ℚ :=
  if lineMillimeters m delta ≤ eolData then 0 else 1 / lineMillimeters m delta

variable (m : Machine) (attr : Axis → StepperAttr) (flowRatio : ℚ) (prev : Previous) (delta : Axis → ℚ)
  (block : PlanLine)

/-- The filled line. -/
def stuffed : PlanLine := (stuffBlock m attr flowRatio prev delta block).1

/-- `InverseSec`. -/
def inverseSec : ℚ := block.planCalc.maxSpeed * inverseMillimeters m delta

/-- `SpeedFactor`. -/
def requestFactor : ℚ := speedFactor attr fun a => delta a * inverseSec m delta block

/-- `StepPerMM`. -/
def stepPerMM : ℚ := (stuffed m attr flowRatio prev delta block).maxSteps * inverseMillimeters m delta

theorem stuffed_lineLength :
    (stuffed m attr flowRatio prev delta block).planCalc.lineLength = lineMillimeters m delta := rfl

theorem stuffed_steps (a : Axis) :
    ((stuffed m attr flowRatio prev delta block).axis a).steps = requestSteps attr flowRatio delta a := rfl

theorem stuffed_maxSpeed :
    (stuffed m attr flowRatio prev delta block).planCalc.maxSpeed =
      if requestFactor m attr delta block < 1 then
        lineMillimeters m delta * inverseSec m delta block * requestFactor m attr delta block
      else lineMillimeters m delta * inverseSec m delta block := rfl

theorem stuffed_nominalRate :
    (stuffed m attr flowRatio prev delta block).planCalc.nominalRate =
      if requestFactor m attr delta block < 1 then
        toU32 (toU32 (⌈((stuffed m attr flowRatio prev delta block).maxSteps : ℚ) * inverseSec m delta block⌉ : ℤ) *
          requestFactor m attr delta block)
      else toU32 (⌈((stuffed m attr flowRatio prev delta block).maxSteps : ℚ) * inverseSec m delta block⌉ : ℤ) := rfl

theorem stuffed_acceleration :
    (stuffed m attr flowRatio prev delta block).planCalc.acceleration =
      limitAccel attr (requestSteps attr flowRatio delta) (stuffed m attr flowRatio prev delta block).maxSteps
        (block.planCalc.acceleration * stepPerMM m attr flowRatio prev delta block) /
      stepPerMM m attr flowRatio prev delta block := rfl

end Results

/-! ## Scaling and limiting -/

section Scaling

variable {attr : Axis → StepperAttr}

/-- No limit is negative. -/
structure Limiting (attr : Axis → StepperAttr) : Prop where
  maxVelocity : ∀ a, 0 ≤ (attr a).maxVelocity
  acceleration : ∀ a, 0 ≤ (attr a).acceleration

/-- The scaling factor is the one of a smallest ratio. -/
theorem speedFactor_eq (h : Limiting attr) (speed : Axis → ℚ) :
    speedFactor attr speed = factor (fun a => ((attr a).maxVelocity : ℚ)) (fun a => |speed a|) Axis.all :=
  foldl_min_eq_factor (fun a => by exact_mod_cast h.maxVelocity a) (fun a => abs_nonneg _) Axis.all

/-- It keeps every axis within its speed. -/
theorem speedFactor_keeps (h : Limiting attr) (speed : Axis → ℚ) :
    0 ≤ speedFactor attr speed ∧ speedFactor attr speed ≤ 1 ∧
      ∀ a, speedFactor attr speed * |speed a| ≤ (attr a).maxVelocity := by
  have hlimit (a : Axis) : (0 : ℚ) ≤ (attr a).maxVelocity := by exact_mod_cast h.maxVelocity a
  rw [speedFactor_eq h]
  obtain ⟨hone, hall⟩ := (le_factor_iff hlimit fun a => abs_nonneg (speed a)).mp le_rfl
  exact ⟨factor_nonneg hlimit fun a => abs_nonneg (speed a), hone, fun a => hall a (Axis.mem_all a)⟩

/-- A word never holds more than the product that was put into it. -/
theorem axisAccelStepPerS2_le {s : StepperAttr} (h : 0 ≤ s.acceleration) :
    (axisAccelStepPerS2 s : ℚ) ≤ s.acceleration * s.stepsPerMm := by
  have hword : axisAccelStepPerS2 s ≤ u32OfS32 s.acceleration * s.stepsPerMm := Nat.mod_le _ _
  have hint : (u32OfS32 s.acceleration : ℚ) ≤ s.acceleration := by exact_mod_cast u32OfS32_le h
  calc (axisAccelStepPerS2 s : ℚ) ≤ u32OfS32 s.acceleration * s.stepsPerMm := by exact_mod_cast hword
    _ ≤ s.acceleration * s.stepsPerMm := by gcongr

/-- **The limited acceleration** keeps every axis within its own, in steps. -/
theorem limitAccel_keeps (h : Limiting attr) {steps : Axis → ℕ} {maxSteps : ℕ} (hmax : ∀ a, steps a ≤ maxSteps)
    (accel : ℚ) (hmove : steps .X ≠ 0 ∨ steps .Y ≠ 0 ∨ steps .Z ≠ 0) (a : Axis) :
    limitAccel attr steps maxSteps accel * steps a ≤
      (attr a).acceleration * (attr a).stepsPerMm * maxSteps := by
  have hlimit (a : Axis) : (0 : ℚ) ≤ (attr a).acceleration := by exact_mod_cast h.acceleration a
  have hword (a : Axis) := axisAccelStepPerS2_le (h.acceleration a)
  have hcompare (a : Axis) : (u32 (axisAccelStepPerS2 (attr a) * maxSteps) : ℚ) ≤
      (attr a).acceleration * (attr a).stepsPerMm * maxSteps := by
    have hle : u32 (axisAccelStepPerS2 (attr a) * maxSteps) ≤ axisAccelStepPerS2 (attr a) * maxSteps := Nat.mod_le _ _
    calc (u32 (axisAccelStepPerS2 (attr a) * maxSteps) : ℚ) ≤ axisAccelStepPerS2 (attr a) * maxSteps := by
          exact_mod_cast hle
      _ ≤ (attr a).acceleration * (attr a).stepsPerMm * maxSteps := by gcongr; exact hword a
  unfold limitAccel
  rw [if_pos hmove]
  refine (foldl_lower (P := fun a (x : ℚ) => x * steps a ≤ (attr a).acceleration * (attr a).stepsPerMm * maxSteps)
    ?_ ?_ ?_ Axis.all accel).2 a (Axis.mem_all a)
  · intro x a
    dsimp only
    split_ifs with hguard hover
    · have hpos : (0 : ℚ) < steps a := by exact_mod_cast Nat.pos_of_ne_zero hguard.1
      exact (div_le_iff₀ hpos).mpr hover.le
    · exact le_rfl
    · exact le_rfl
  · intro x a
    dsimp only
    split_ifs with hguard hover
    · have hpos : (0 : ℚ) < steps a := by exact_mod_cast Nat.pos_of_ne_zero hguard.1
      rw [div_mul_cancel₀ _ hpos.ne']
      exact hcompare a
    · exact (not_lt.mp hover).trans (hcompare a)
    · -- the axis stands, or what it can do is not less than what is asked of the longest one
      by_cases hstand : steps a = 0
      · rw [hstand, Nat.cast_zero, mul_zero]
        have := hlimit a
        positivity
      · have hx : x ≤ axisAccelStepPerS2 (attr a) := not_lt.mp fun hlt => hguard ⟨hstand, hlt⟩
        calc x * steps a ≤ axisAccelStepPerS2 (attr a) * steps a := by gcongr
          _ ≤ axisAccelStepPerS2 (attr a) * maxSteps := by gcongr; exact hmax a
          _ ≤ (attr a).acceleration * (attr a).stepsPerMm * maxSteps := by gcongr; exact hword a
  · intro a x y hyx hx
    exact (mul_le_mul_of_nonneg_right hyx (Nat.cast_nonneg _)).trans hx

/-- A rate rounded up and the scaled rate cut off are less than one from the scaled rate. -/
theorem abs_floor_ceil_mul_sub_lt (r : ℚ) {f : ℚ} (h0 : 0 ≤ f) (h1 : f < 1) :
    |(⌊(⌈r⌉ : ℚ) * f⌋ : ℚ) - r * f| < 1 := by
  have hup : r * f ≤ ⌈r⌉ * f := by
    gcongr
    exact Int.le_ceil r
  have hdown : (⌈r⌉ : ℚ) * f ≤ (r + 1) * f := by
    gcongr
    exact (Int.ceil_lt_add_one r).le
  have hcut := Int.floor_le ((⌈r⌉ : ℚ) * f)
  have hcut' := Int.lt_floor_add_one ((⌈r⌉ : ℚ) * f)
  rw [abs_lt]
  constructor <;> linarith

end Scaling

/-! ## What a line keeps -/

section Spec

/-- One of the axes of the head has a step. -/
def HeadMoves (l : PlanLine) : Prop := (l.axis .X).steps ≠ 0 ∨ (l.axis .Y).steps ≠ 0 ∨ (l.axis .Z).steps ≠ 0

/-- The nominal rate is the one of the nominal speed, up to the rounding to a whole number of steps. -/
def RateMatches (l : PlanLine) : Prop :=
  |(l.planCalc.nominalRate : ℚ) - l.planCalc.stepEventCnt / l.planCalc.lineLength * l.planCalc.maxSpeed| < 1

instance (l : PlanLine) : Decidable (RateMatches l) := inferInstanceAs (Decidable (_ < _))

/-- Every axis is within its speed and its acceleration at the nominal ones of the line, and the two nominal speeds are
the same. -/
structure WithinLimits (attr : Axis → StepperAttr) (delta : Axis → ℚ) (l : PlanLine) : Prop where
  speed : ∀ a, |delta a| / l.planCalc.lineLength * l.planCalc.maxSpeed ≤ (attr a).maxVelocity
  rate : RateMatches l
  acceleration : ∀ a, |delta a| / l.planCalc.lineLength * l.planCalc.acceleration ≤ (attr a).acceleration

/-- What `StuffLineBuff` keeps of it for a line `l` that is asked for with `block`: the speeds; the rate, where the one
that is asked for fits a word; the acceleration of every axis in steps, so also in millimetres where the axis makes all
of its steps.  It does not limit the acceleration of the extruder alone. -/
structure LimitsKept (attr : Axis → StepperAttr) (delta : Axis → ℚ) (block l : PlanLine) : Prop where
  speed : ∀ a, |delta a| / l.planCalc.lineLength * l.planCalc.maxSpeed ≤ (attr a).maxVelocity
  rate : l.planCalc.stepEventCnt / l.planCalc.lineLength * block.planCalc.maxSpeed ≤ 2 ^ 32 - 1 → RateMatches l
  stepAcceleration : HeadMoves l → ∀ a, (l.axis a).steps / l.planCalc.lineLength * l.planCalc.acceleration ≤
    (attr a).acceleration * (attr a).stepsPerMm
  acceleration : HeadMoves l → ∀ a, 0 < (attr a).stepsPerMm → |delta a| * (attr a).stepsPerMm ≤ (l.axis a).steps →
    |delta a| / l.planCalc.lineLength * l.planCalc.acceleration ≤ (attr a).acceleration
  extruder : ¬ HeadMoves l → (l.axis .E).steps ≠ 0 → l.planCalc.acceleration = block.planCalc.acceleration

variable {m : Machine} {attr : Axis → StepperAttr} {flowRatio : ℚ} {prev : Previous} {delta : Axis → ℚ}
  {block : PlanLine}

theorem lineMillimeters_pos (hlen : eolData < lineMillimeters m delta) : 0 < lineMillimeters m delta := by
  unfold eolData at hlen
  linarith

theorem inverseMillimeters_eq (hlen : eolData < lineMillimeters m delta) :
    inverseMillimeters m delta = 1 / lineMillimeters m delta :=
  if_neg (not_le.mpr hlen)

/-- The nominal speed is the scaled request. -/
theorem stuffed_maxSpeed_eq (h : Limiting attr) (hlen : eolData < lineMillimeters m delta) :
    (stuffed m attr flowRatio prev delta block).planCalc.maxSpeed =
      block.planCalc.maxSpeed * requestFactor m attr delta block := by
  have hpos := lineMillimeters_pos hlen
  have hspeed : lineMillimeters m delta * inverseSec m delta block = block.planCalc.maxSpeed := by
    unfold inverseSec
    rw [inverseMillimeters_eq hlen]
    field_simp
  obtain ⟨-, hone, -⟩ := speedFactor_keeps h fun a => delta a * inverseSec m delta block
  rw [stuffed_maxSpeed, hspeed]
  split_ifs with hless
  · rfl
  · rw [show requestFactor m attr delta block = 1 from le_antisymm hone (not_lt.mp hless), mul_one]

theorem stuffed_speed (h : Limiting attr) (hlen : eolData < lineMillimeters m delta)
    (hs : 0 ≤ block.planCalc.maxSpeed) (a : Axis) :
    |delta a| / lineMillimeters m delta * (stuffed m attr flowRatio prev delta block).planCalc.maxSpeed ≤
      (attr a).maxVelocity := by
  have hpos := lineMillimeters_pos hlen
  obtain ⟨-, -, hkeep⟩ := speedFactor_keeps h fun a => delta a * inverseSec m delta block
  have haxis : |delta a * inverseSec m delta block| =
      |delta a| / lineMillimeters m delta * block.planCalc.maxSpeed := by
    unfold inverseSec
    rw [inverseMillimeters_eq hlen, abs_mul, abs_of_nonneg (mul_nonneg hs (one_div_nonneg.mpr hpos.le))]
    ring
  rw [stuffed_maxSpeed_eq h hlen]
  calc |delta a| / lineMillimeters m delta * (block.planCalc.maxSpeed * requestFactor m attr delta block) =
        requestFactor m attr delta block * |delta a * inverseSec m delta block| := by
        rw [haxis]
        ring
    _ ≤ (attr a).maxVelocity := hkeep a

theorem stuffed_rateMatches (h : Limiting attr) (hlen : eolData < lineMillimeters m delta)
    (hs : 0 ≤ block.planCalc.maxSpeed)
    (hfit : ((stuffed m attr flowRatio prev delta block).maxSteps : ℚ) / lineMillimeters m delta *
      block.planCalc.maxSpeed ≤ 2 ^ 32 - 1) :
    RateMatches (stuffed m attr flowRatio prev delta block) := by
  have hpos := lineMillimeters_pos hlen
  obtain ⟨hzero, hone, -⟩ := speedFactor_keeps h fun a => delta a * inverseSec m delta block
  have hrequest : ((stuffed m attr flowRatio prev delta block).maxSteps : ℚ) * inverseSec m delta block =
      (stuffed m attr flowRatio prev delta block).maxSteps / lineMillimeters m delta * block.planCalc.maxSpeed := by
    unfold inverseSec
    rw [inverseMillimeters_eq hlen]
    ring
  set r : ℚ := (stuffed m attr flowRatio prev delta block).maxSteps / lineMillimeters m delta * block.planCalc.maxSpeed
    with hr
  have hr0 : 0 ≤ r := mul_nonneg (div_nonneg (Nat.cast_nonneg _) hpos.le) hs
  -- the rate that is asked for, as a word
  have hceil0 : 0 ≤ ⌈r⌉ := Int.ceil_nonneg hr0
  have hceil1 : ⌈r⌉ ≤ 2 ^ 32 - 1 := Int.ceil_le.mpr (by push_cast; linarith)
  have hword : (toU32 (⌈r⌉ : ℤ) : ℚ) = ⌈r⌉ := by
    have hint : (toU32 (⌈r⌉ : ℤ) : ℤ) = ⌈r⌉ := by
      rw [toU32_of_nonneg (by exact_mod_cast hceil0) (by rw [Int.floor_intCast]; omega), Int.floor_intCast]
    exact_mod_cast hint
  have hscaled : ((stuffed m attr flowRatio prev delta block).planCalc.stepEventCnt : ℚ) /
      (stuffed m attr flowRatio prev delta block).planCalc.lineLength *
      (block.planCalc.maxSpeed * requestFactor m attr delta block) = r * requestFactor m attr delta block := by
    rw [hr, mul_assoc]
    rfl
  unfold RateMatches
  rw [stuffed_maxSpeed_eq h hlen, hscaled, stuffed_nominalRate, hrequest]
  split_ifs with hless
  · have hprod0 : 0 ≤ (⌈r⌉ : ℚ) * requestFactor m attr delta block :=
      mul_nonneg (by exact_mod_cast hceil0) hzero
    have hprod1 : ⌊(⌈r⌉ : ℚ) * requestFactor m attr delta block⌋ < 2 ^ 32 := by
      have hle : (⌈r⌉ : ℚ) * requestFactor m attr delta block ≤ ⌈r⌉ :=
        mul_le_of_le_one_right (by exact_mod_cast hceil0) hone
      have := (Int.floor_mono hle).trans (Int.floor_intCast ⌈r⌉).le
      omega
    have hcut : (toU32 ((⌈r⌉ : ℚ) * requestFactor m attr delta block) : ℚ) =
        ⌊(⌈r⌉ : ℚ) * requestFactor m attr delta block⌋ := by
      exact_mod_cast toU32_of_nonneg hprod0 hprod1
    rw [hword, hcut]
    exact abs_floor_ceil_mul_sub_lt r hzero hless
  · rw [show requestFactor m attr delta block = 1 from le_antisymm hone (not_lt.mp hless), mul_one, hword,
      abs_of_nonneg (by linarith [Int.le_ceil r])]
    linarith [Int.ceil_lt_add_one r]

theorem stuffed_maxSteps_pos {a : Axis} (ha : ((stuffed m attr flowRatio prev delta block).axis a).steps ≠ 0) :
    (0 : ℚ) < (stuffed m attr flowRatio prev delta block).maxSteps := by
  have hle := PlanLine.steps_le_maxSteps (stuffed m attr flowRatio prev delta block) a
  exact_mod_cast (Nat.pos_of_ne_zero ha).trans_le hle

theorem stepPerMM_eq (hlen : eolData < lineMillimeters m delta) :
    stepPerMM m attr flowRatio prev delta block =
      (stuffed m attr flowRatio prev delta block).maxSteps / lineMillimeters m delta := by
  unfold stepPerMM
  rw [inverseMillimeters_eq hlen, mul_one_div]

theorem stuffed_stepAcceleration (h : Limiting attr) (hlen : eolData < lineMillimeters m delta)
    (hmove : HeadMoves (stuffed m attr flowRatio prev delta block)) (a : Axis) :
    (requestSteps attr flowRatio delta a : ℚ) / lineMillimeters m delta *
      (stuffed m attr flowRatio prev delta block).planCalc.acceleration ≤
      (attr a).acceleration * (attr a).stepsPerMm := by
  have hpos := lineMillimeters_pos hlen
  have hmax : (0 : ℚ) < (stuffed m attr flowRatio prev delta block).maxSteps := by
    rcases hmove with hx | hy | hz
    · exact stuffed_maxSteps_pos hx
    · exact stuffed_maxSteps_pos hy
    · exact stuffed_maxSteps_pos hz
  have hsteps : ∀ a, requestSteps attr flowRatio delta a ≤ (stuffed m attr flowRatio prev delta block).maxSteps :=
    PlanLine.steps_le_maxSteps (stuffed m attr flowRatio prev delta block)
  have hkeep := limitAccel_keeps h hsteps
    (block.planCalc.acceleration * stepPerMM m attr flowRatio prev delta block) hmove a
  rw [stuffed_acceleration]
  set accel := limitAccel attr (requestSteps attr flowRatio delta) (stuffed m attr flowRatio prev delta block).maxSteps
    (block.planCalc.acceleration * stepPerMM m attr flowRatio prev delta block)
  have hratio : (requestSteps attr flowRatio delta a : ℚ) / lineMillimeters m delta *
      (accel / stepPerMM m attr flowRatio prev delta block) =
      accel * requestSteps attr flowRatio delta a / (stuffed m attr flowRatio prev delta block).maxSteps := by
    rw [stepPerMM_eq hlen]
    field_simp
  rw [hratio]
  exact (div_le_iff₀ hmax).mpr hkeep

/-- **The limits that `StuffLineBuff` keeps**, for every displacement, request and setting without a negative number,
where the line has a length. -/
theorem limitsKept {l : PlanLine} {prev' : Previous} (hattr : axisAttr m = some attr) (h : Limiting attr)
    (hs : 0 ≤ block.planCalc.maxSpeed) (ha : 0 ≤ block.planCalc.acceleration)
    (hl : stuffLineBuff m flowRatio prev delta block = some (l, prev')) (hlen : eolData < l.planCalc.lineLength) :
    LimitsKept attr delta block l := by
  have hstuffed : l = stuffed m attr flowRatio prev delta block := by
    unfold stuffLineBuff at hl
    rw [hattr, Option.map_some] at hl
    exact (congrArg Prod.fst (Option.some.inj hl)).symm
  subst hstuffed
  have hpos := lineMillimeters_pos hlen
  have haccel : 0 ≤ (stuffed m attr flowRatio prev delta block).planCalc.acceleration :=
    (stuffBlock_stuffed m attr flowRatio prev delta ha).acceleration
  refine ⟨stuffed_speed h hlen hs, stuffed_rateMatches h hlen hs, stuffed_stepAcceleration h hlen, ?_, ?_⟩
  · intro hmove a hspm hall
    have hsteps := stuffed_stepAcceleration h hlen hmove a
    have hspm' : (0 : ℚ) < (attr a).stepsPerMm := by exact_mod_cast hspm
    refine le_of_mul_le_mul_right ?_ hspm'
    calc |delta a| / lineMillimeters m delta *
          (stuffed m attr flowRatio prev delta block).planCalc.acceleration * (attr a).stepsPerMm =
          |delta a| * (attr a).stepsPerMm / lineMillimeters m delta *
            (stuffed m attr flowRatio prev delta block).planCalc.acceleration := by ring
      _ ≤ requestSteps attr flowRatio delta a / lineMillimeters m delta *
            (stuffed m attr flowRatio prev delta block).planCalc.acceleration := by gcongr; exact hall
      _ ≤ (attr a).acceleration * (attr a).stepsPerMm := hsteps
  · intro hmove he
    have hunlimited : limitAccel attr (requestSteps attr flowRatio delta)
        (stuffed m attr flowRatio prev delta block).maxSteps
        (block.planCalc.acceleration * stepPerMM m attr flowRatio prev delta block) =
        block.planCalc.acceleration * stepPerMM m attr flowRatio prev delta block := if_neg hmove
    have hne : stepPerMM m attr flowRatio prev delta block ≠ 0 := by
      rw [stepPerMM_eq hlen]
      exact (div_pos (stuffed_maxSteps_pos he) hpos).ne'
    rw [stuffed_acceleration, hunlimited, mul_div_cancel_right₀ _ hne]

/-! Settings for the examples, with the acceleration of X left open: 80 steps per millimetre for the head, 93 for the
extruder, which is to accelerate by 500. -/

/-- The settings. -/
def limitAttr (accelX : ℤ) (a : Axis) : StepperAttr :=
  match a with
  | .X => ⟨80, 50, 10, accelX⟩
  | .Y => ⟨80, 50, 10, 1000⟩
  | .Z => ⟨400, 5, 1, 100⟩
  | .E => ⟨93, 50, 5, 500⟩

/-- The machine; its square root is right for a move of one millimetre. -/
def limitMachine (accelX : ℤ) : Machine := ⟨fun a => some (limitAttr accelX a), id⟩

/-- A slot with a request for 50 mm/s at 1000 mm/s². -/
def limitBlock : PlanLine :=
  { PlanLine.zero with planCalc := { PlanLine.zero.planCalc with maxSpeed := 50, acceleration := 1000 } }

/-- A move of X and of the extruder. -/
def moveXE (x e : ℚ) (a : Axis) : ℚ :=
  match a with
  | .X => x
  | .Y => 0
  | .Z => 0
  | .E => e

/-- The line that is filled for it. -/
def limitLine (accelX : ℤ) (flowRatio x e : ℚ) : PlanLine :=
  stuffed (limitMachine accelX) (limitAttr accelX) flowRatio Previous.init (moveXE x e) limitBlock

theorem axisAttr_limitMachine (accelX : ℤ) : axisAttr (limitMachine accelX) = some (limitAttr accelX) := by
  have hfun : (fun a => match a with
      | .X => limitAttr accelX .X
      | .Y => limitAttr accelX .Y
      | .Z => limitAttr accelX .Z
      | .E => limitAttr accelX .E) = limitAttr accelX := by
    funext a
    cases a <;> rfl
  rw [← hfun]
  rfl

theorem limitLine_stuffed (accelX : ℤ) (flowRatio x e : ℚ) :
    stuffLineBuff (limitMachine accelX) flowRatio Previous.init (moveXE x e) limitBlock =
      some (limitLine accelX flowRatio x e,
        (stuffBlock (limitMachine accelX) (limitAttr accelX) flowRatio Previous.init (moveXE x e) limitBlock).2) := by
  unfold stuffLineBuff
  rw [axisAttr_limitMachine]
  rfl

/-- One millimetre of X with one of filament. -/
theorem limitsKept_moveXE : LimitsKept (limitAttr 1000) (moveXE 1 1) limitBlock (limitLine 1000 100 1 1) :=
  limitsKept (axisAttr_limitMachine 1000) ⟨fun a => by cases a <;> decide, fun a => by cases a <;> decide⟩
    (by decide +kernel) (by decide +kernel) (limitLine_stuffed 1000 100 1 1) (by decide +kernel)

/-- The limits are exceeded: by the extruder alone, by the extruder where the flow takes half of its steps away, by an
axis whose limit is negative; and the rate is cut off where the one that is asked for is no word. -/
theorem not_withinLimits :
    ¬ WithinLimits (limitAttr 1000) (moveXE 0 1) (limitLine 1000 100 0 1) ∧
      ¬ WithinLimits (limitAttr 1000) (moveXE 1 1) (limitLine 1000 50 1 1) ∧
      ¬ WithinLimits (limitAttr (-1)) (moveXE 1 0) (limitLine (-1) 100 1 0) ∧
      ¬ WithinLimits (limitAttr 1000) (moveXE 1 1000000) (limitLine 1000 100 1 1000000) := by
  refine ⟨fun h => ?_, fun h => ?_, fun h => ?_, fun h => ?_⟩
  · exact absurd (h.acceleration .E) (by decide +kernel)
  · exact absurd (h.acceleration .E) (by decide +kernel)
  · exact absurd (h.acceleration .X) (by decide +kernel)
  · exact absurd h.rate (by decide +kernel)

end Spec

end Cxsw.Motion
