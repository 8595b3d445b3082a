import Cxsw.CrMotion.SmoothAlgorithm

/-!
# Cxsw.CrMotion.Trapezoid — the phases of a line (`CrMotion/SmoothAlgorithm.cpp`, `CalculateForLine`)

`CalculateForLine` counts the steps in which the longest axis comes from the entry rate to the nominal rate and those
in which it comes back to the exit rate, and marks where the acceleration ends and the deceleration starts.  A line
too short for both gets one mark, where the two ramps meet.

* `accelerateSteps`, `decelerateSteps`: the two counts.
* `Suffices`: what a phase of so many steps can do to a squared rate.
* `Partitioned`: the marks cut the line into phases that suffice, and the words that lead there do not wrap.
* `partitioned_iff`: which lines.  The deceleration is counted with `-AccelStepPerS2`, and that word is unsigned.
-/

namespace Cxsw.Motion

/-! ## The counts and the marks -/

section Defs

/-- The longest axis in millimetres is `StepPerMm` as long in steps. -/
def stepPerMm (l : PlanLine) : ℚ := (longestOf l).2 / l.planCalc.lineLength

/-- The square of the rate at which the line is entered. -/
def entrySqr (l : PlanLine) : ℚ := sqr (stepPerMm l) * l.planCalc.entrySpeedSqr

/-- The square of the rate at which it is left. -/
def exitSqr (l : PlanLine) : ℚ := sqr (stepPerMm l) * l.planCalc.exitSpeedSqr

/-- The square of the nominal rate. -/
def nominalSqr (l : PlanLine) : ℚ := sqr l.planCalc.nominalRate

/-- `SQR(NominalRate)` as the program has it, a word. -/
def squaredWord (l : PlanLine) : ℕ := u32 (l.planCalc.nominalRate * l.planCalc.nominalRate)

/-- `AccelerateSteps` before the test for a plateau. -/
def accelerateSteps (l : PlanLine) : ℕ :=
  u32OfS32 (toS32 (⌈accelerationDistance (min (entrySqr l) (squaredWord l)) (squaredWord l)
    l.planCalc.accelStepPerS2⌉ : ℤ))

/-- `DecelerateSteps`. -/
def decelerateSteps (l : PlanLine) : ℕ :=
  u32OfS32 (toS32 (⌊accelerationDistance (squaredWord l) (min (exitSqr l) (squaredWord l))
    (u32Sub 0 l.planCalc.accelStepPerS2)⌋ : ℤ))

/-- `PlateauSteps` before it is reset. -/
def plateauSteps (l : PlanLine) : ℤ :=
  s32 (u32Sub (u32Sub (longestOf l).2 (accelerateSteps l)) (decelerateSteps l))

/-- `AccelerateSteps` of a line without a plateau. -/
def meetingStep (l : PlanLine) : ℕ :=
  min (toU32 (max (intersectionDistance (min (entrySqr l) (squaredWord l)) (min (exitSqr l) (squaredWord l))
    l.planCalc.accelStepPerS2 (longestOf l).2) 0)) (longestOf l).2

/-- `UniformStartStep` of the longest axis. -/
def uniformStart (l : PlanLine) : ℕ := ((calculateForLine l).axis (longestOf l).1).uniformStartStep

/-- `DecelStartStep` of the longest axis. -/
def decelStart (l : PlanLine) : ℕ := ((calculateForLine l).axis (longestOf l).1).decelStartStep

theorem calculateForLine_longest (l : PlanLine) :
    (calculateForLine l).axis (longestOf l).1 =
      { l.axis (longestOf l).1 with
        uniformStartStep := if plateauSteps l < 0 then meetingStep l else accelerateSteps l
        decelStartStep :=
          if plateauSteps l < 0 then if plateauSteps l < 0 then meetingStep l else accelerateSteps l
          else u32 (accelerateSteps l + u32OfS32 (plateauSteps l)) } :=
  if_pos rfl

theorem marks_of_plateau {l : PlanLine} (h : 0 ≤ plateauSteps l) :
    uniformStart l = accelerateSteps l ∧
      decelStart l = u32 (accelerateSteps l + u32OfS32 (plateauSteps l)) := by
  unfold uniformStart decelStart
  rw [calculateForLine_longest]
  have hn : ¬ plateauSteps l < 0 := not_lt.mpr h
  simp only [hn, if_false, and_self]

theorem marks_of_meeting {l : PlanLine} (h : plateauSteps l < 0) :
    uniformStart l = meetingStep l ∧ decelStart l = meetingStep l := by
  unfold uniformStart decelStart
  rw [calculateForLine_longest]
  simp only [h, if_true, and_self]

end Defs

/-! ## A partition that serves -/

section Spec

/-- A phase of so many steps at `accel` leads from the squared rate `slow` to `fast`, or beyond. -/
def Suffices (accel slow fast : ℚ) (steps : ℕ) : Prop := fast - slow ≤ 2 * accel * steps

/-- The square of the largest rate of the line: the nominal one on a plateau, otherwise what the acceleration gives. -/
def peakSqr (l : PlanLine) : ℚ :=
  if uniformStart l < decelStart l then nominalSqr l
  else min (nominalSqr l) (entrySqr l + 2 * l.planCalc.accelStepPerS2 * uniformStart l)

/-- A line that moves, at a positive acceleration and with both rates between the minimum and the nominal rate.  The
bounds are those of the fields: `AccelStepPerS2` is a word, and `StuffLineBuff` takes its step counts from an `S32`. -/
structure RatedLine (l : PlanLine) : Prop where
  eventSteps : 1 ≤ (longestOf l).2
  eventSteps_lt : (longestOf l).2 < 2 ^ 31
  accel_pos : 1 ≤ l.planCalc.accelStepPerS2
  accel_lt : l.planCalc.accelStepPerS2 < 2 ^ 32
  entry_min : sqr minimumPlannerSpeed ≤ l.planCalc.entrySpeedSqr
  exit_min : sqr minimumPlannerSpeed ≤ l.planCalc.exitSpeedSqr
  entry_le : entrySqr l ≤ nominalSqr l
  exit_le : exitSqr l ≤ nominalSqr l

/-- The marks are in order and inside the line, the first phase suffices for the largest rate and the last one for
the exit rate, and the words on the way are the exact numbers. -/
structure Partitioned (l : PlanLine) : Prop where
  square : squaredWord l = l.planCalc.nominalRate * l.planCalc.nominalRate
  accelerate : (accelerateSteps l : ℤ) = ⌈(nominalSqr l - entrySqr l) / (2 * l.planCalc.accelStepPerS2)⌉
  decelerate : (decelerateSteps l : ℤ) = ⌊(nominalSqr l - exitSqr l) / (2 * l.planCalc.accelStepPerS2)⌋
  ordered : uniformStart l ≤ decelStart l
  inside : decelStart l ≤ (longestOf l).2
  accelerates : Suffices l.planCalc.accelStepPerS2 (entrySqr l) (peakSqr l) (uniformStart l)
  slows : Suffices l.planCalc.accelStepPerS2 (exitSqr l) (peakSqr l) ((longestOf l).2 - decelStart l)

theorem longestOf_snd (l : PlanLine) : (longestOf l).2 = l.maxSteps := by
  unfold longestOf PlanLine.maxSteps Axis.all
  simp only [List.foldl_cons, List.foldl_nil]
  grind

theorem Stuffed.eventSteps_lt {l : PlanLine} (h : Stuffed l) : (longestOf l).2 < 2 ^ 31 :=
  (longestOf_snd l).trans_lt h.maxSteps_lt

theorem peakSqr_le (l : PlanLine) : peakSqr l ≤ nominalSqr l := by
  unfold peakSqr
  split_ifs
  · exact le_refl _
  · exact min_le_left _ _

end Spec

/-! ## The counts against the exact distances -/

section Counts

theorem accelerationDistance_eq {accel : ℚ} (h : 1 ≤ accel) (initial target : ℚ) :
    accelerationDistance initial target accel = (target - initial) / (2 * accel) := by
  have hne : ¬ (accel ≤ eolData ∧ -eolData ≤ accel) := by
    rintro ⟨hle, -⟩
    unfold eolData at hle
    linarith
  unfold accelerationDistance
  rw [if_neg hne, mul_comm accel 2]

theorem intersectionDistance_eq {accel : ℚ} (h : 1 ≤ accel) (initial final distance : ℚ) :
    intersectionDistance initial final accel distance = (accel * 2 * distance - initial + final) / (accel * 4) := by
  have hne : ¬ (accel ≤ eolData ∧ -eolData ≤ accel) := by
    rintro ⟨hle, -⟩
    unfold eolData at hle
    linarith
  unfold intersectionDistance
  rw [if_neg hne]

theorem u32OfS32_toS32_ceil {x : ℚ} (h0 : 0 ≤ x) (h1 : x ≤ 2 ^ 31 - 1) :
    (u32OfS32 (toS32 (⌈x⌉ : ℤ)) : ℤ) = ⌈x⌉ := by
  have hlow : 0 ≤ ⌈x⌉ := Int.ceil_nonneg h0
  have hhigh : ⌈x⌉ ≤ 2 ^ 31 - 1 := Int.ceil_le.mpr (by push_cast; linarith)
  rw [toS32_intCast (by omega) (by omega), u32OfS32_of_nonneg hlow (by omega), Int.toNat_of_nonneg hlow]

variable {l : PlanLine}

theorem RatedLine.one_le_accel (h : RatedLine l) : (1 : ℚ) ≤ l.planCalc.accelStepPerS2 := by
  exact_mod_cast h.accel_pos

theorem entrySqr_nonneg (h : RatedLine l) : 0 ≤ entrySqr l := by
  have hs : 0 ≤ l.planCalc.entrySpeedSqr := (mul_self_nonneg _).trans h.entry_min
  exact mul_nonneg (mul_self_nonneg _) hs

theorem exitSqr_nonneg (h : RatedLine l) : 0 ≤ exitSqr l := by
  have hs : 0 ≤ l.planCalc.exitSpeedSqr := (mul_self_nonneg _).trans h.exit_min
  exact mul_nonneg (mul_self_nonneg _) hs

/-- Where the square of the nominal rate fits the word, the word is the square. -/
theorem squaredWord_cast (hsq : squaredWord l = l.planCalc.nominalRate * l.planCalc.nominalRate) :
    (squaredWord l : ℚ) = nominalSqr l := by
  rw [hsq]
  unfold nominalSqr sqr
  push_cast
  rfl

theorem squaredWord_eq_iff :
    squaredWord l = l.planCalc.nominalRate * l.planCalc.nominalRate ↔
      l.planCalc.nominalRate * l.planCalc.nominalRate < 2 ^ 32 := by
  constructor
  · intro h
    rw [← h]
    exact Nat.mod_lt _ (by norm_num)
  · exact u32_of_lt

/-- A nominal rate whose square fits a word has sixteen bits. -/
theorem nominalSqr_le (hsq : l.planCalc.nominalRate * l.planCalc.nominalRate < 2 ^ 32) :
    nominalSqr l ≤ 65535 * 65535 := by
  have hrate : l.planCalc.nominalRate ≤ 65535 := by
    by_contra hgt
    have := Nat.mul_le_mul (not_le.mp hgt) (not_le.mp hgt)
    omega
  have hle : l.planCalc.nominalRate * l.planCalc.nominalRate ≤ 65535 * 65535 := Nat.mul_le_mul hrate hrate
  unfold nominalSqr sqr
  exact_mod_cast hle

/-- The exact distance between two rates below the nominal one fits an `S32`. -/
theorem distance_le (h : RatedLine l) (hsq : l.planCalc.nominalRate * l.planCalc.nominalRate < 2 ^ 32) {x : ℚ}
    (hx : 0 ≤ x) : (nominalSqr l - x) / (2 * l.planCalc.accelStepPerS2) ≤ 2 ^ 31 - 1 := by
  have ha := h.one_le_accel
  have hn := nominalSqr_le hsq
  rw [div_le_iff₀ (by linarith)]
  calc nominalSqr l - x ≤ 65535 * 65535 := by linarith
    _ ≤ (2 ^ 31 - 1) * (2 * 1) := by norm_num
    _ ≤ (2 ^ 31 - 1) * (2 * l.planCalc.accelStepPerS2) := by gcongr

theorem distance_nonneg (h : RatedLine l) {x : ℚ} (hx : x ≤ nominalSqr l) :
    0 ≤ (nominalSqr l - x) / (2 * l.planCalc.accelStepPerS2) := by
  have ha := h.one_le_accel
  exact div_nonneg (by linarith) (by linarith)

/-- `AccelerateSteps` is exact where the nominal rate has sixteen bits. -/
theorem accelerateSteps_eq (h : RatedLine l) (hsq : l.planCalc.nominalRate * l.planCalc.nominalRate < 2 ^ 32) :
    (accelerateSteps l : ℤ) = ⌈(nominalSqr l - entrySqr l) / (2 * l.planCalc.accelStepPerS2)⌉ := by
  unfold accelerateSteps
  rw [squaredWord_cast (squaredWord_eq_iff.mpr hsq), min_eq_left h.entry_le, accelerationDistance_eq h.one_le_accel]
  exact u32OfS32_toS32_ceil (distance_nonneg h h.entry_le) (distance_le h hsq (entrySqr_nonneg h))

theorem accelerateSteps_lt (h : RatedLine l) (hsq : l.planCalc.nominalRate * l.planCalc.nominalRate < 2 ^ 32) :
    accelerateSteps l < 2 ^ 31 := by
  have heq := accelerateSteps_eq h hsq
  have hle : ⌈(nominalSqr l - entrySqr l) / (2 * l.planCalc.accelStepPerS2)⌉ ≤ 2 ^ 31 - 1 :=
    Int.ceil_le.mpr (by push_cast; linarith [distance_le h hsq (entrySqr_nonneg h)])
  omega

theorem negAccel (h : RatedLine l) : (1 : ℚ) ≤ (u32Sub 0 l.planCalc.accelStepPerS2 : ℕ) := by
  have h0 := h.accel_pos
  have h1 := h.accel_lt
  have hone : 1 ≤ u32Sub 0 l.planCalc.accelStepPerS2 := by
    unfold u32Sub
    omega
  exact_mod_cast hone

/-- A line that is left at the nominal rate has nothing to brake. -/
theorem decelerateSteps_of_nominal (h : RatedLine l)
    (hsq : squaredWord l = l.planCalc.nominalRate * l.planCalc.nominalRate) (hexit : exitSqr l = nominalSqr l) :
    decelerateSteps l = 0 := by
  unfold decelerateSteps
  rw [squaredWord_cast hsq, hexit, min_self, accelerationDistance_eq (negAccel h), sub_self, zero_div, Int.floor_zero]
  decide

/-- A line that is left at a smaller rate: the word `-AccelStepPerS2` is positive, so the distance is negative. -/
theorem le_decelerateSteps (h : RatedLine l)
    (hsq : squaredWord l = l.planCalc.nominalRate * l.planCalc.nominalRate) (hexit : exitSqr l < nominalSqr l) :
    2 ^ 31 ≤ decelerateSteps l := by
  have ha := negAccel h
  unfold decelerateSteps
  rw [squaredWord_cast hsq, min_eq_left h.exit_le, accelerationDistance_eq ha]
  refine le_u32OfS32_toS32 (Int.floor_lt.mpr ?_)
  push_cast
  exact div_neg_of_neg_of_pos (by linarith) (by linarith)

end Counts

/-! ## Which lines are partitioned -/

section Partition

variable {l : PlanLine}

/-- Words and the plateau: without a deceleration the difference of two counts is exact. -/
theorem plateauSteps_of_nominal (h : RatedLine l) (hacc : accelerateSteps l < 2 ^ 31) (hdec : decelerateSteps l = 0) :
    plateauSteps l = (longestOf l).2 - accelerateSteps l := by
  have he := h.eventSteps_lt
  unfold plateauSteps
  rw [hdec]
  unfold u32Sub s32
  omega

/-- A line that is left at the nominal rate and reaches it accelerates first and has a plateau to its end. -/
theorem marks_of_reached (h : RatedLine l) (hdec : decelerateSteps l = 0)
    (hle : accelerateSteps l ≤ (longestOf l).2) :
    uniformStart l = accelerateSteps l ∧ decelStart l = (longestOf l).2 := by
  have he := h.eventSteps_lt
  have hplateau := plateauSteps_of_nominal h (by omega) hdec
  obtain ⟨huniform, hdecel⟩ := marks_of_plateau (l := l) (by omega)
  refine ⟨huniform, hdecel.trans ?_⟩
  rw [hplateau, u32OfS32_of_nonneg (by omega) (by omega), u32_of_lt (by omega)]
  omega

/-- A line that is left at the nominal rate and is too short to reach it accelerates to its end. -/
theorem marks_of_unreached (h : RatedLine l)
    (hsq : l.planCalc.nominalRate * l.planCalc.nominalRate < 2 ^ 32) (hexit : exitSqr l = nominalSqr l)
    (hacc : accelerateSteps l < 2 ^ 31) (hgt : (longestOf l).2 < accelerateSteps l) :
    uniformStart l = (longestOf l).2 ∧ decelStart l = (longestOf l).2 := by
  have he := h.eventSteps_lt
  have ha := h.one_le_accel
  have hword := squaredWord_eq_iff.mpr hsq
  have hplateau := plateauSteps_of_nominal h hacc (decelerateSteps_of_nominal h hword hexit)
  -- the ramps would meet behind the last step
  have hfar : ((longestOf l).2 : ℚ) < (nominalSqr l - entrySqr l) / (2 * l.planCalc.accelStepPerS2) := by
    have hceil : ((longestOf l).2 : ℤ) < ⌈(nominalSqr l - entrySqr l) / (2 * l.planCalc.accelStepPerS2)⌉ := by
      rw [← accelerateSteps_eq h hsq]
      exact_mod_cast hgt
    exact_mod_cast Int.lt_ceil.mp hceil
  have hmeet : ((longestOf l).2 : ℚ) ≤
      intersectionDistance (entrySqr l) (nominalSqr l) l.planCalc.accelStepPerS2 (longestOf l).2 := by
    rw [intersectionDistance_eq ha, le_div_iff₀ (by linarith)]
    rw [lt_div_iff₀ (by linarith)] at hfar
    linarith
  have hmeeting : meetingStep l = (longestOf l).2 := by
    unfold meetingStep
    rw [squaredWord_cast hword, min_eq_left h.entry_le, hexit, min_self]
    refine min_eq_right ?_
    have hmax := hmeet.trans (le_max_left _ 0)
    have hfloor : ((longestOf l).2 : ℤ) ≤ ⌊max (intersectionDistance (entrySqr l) (nominalSqr l)
        l.planCalc.accelStepPerS2 (longestOf l).2) 0⌋ := Int.le_floor.mpr (by exact_mod_cast hmax)
    unfold toU32
    rw [truncQ_of_nonneg (le_max_right _ _)]
    omega
  obtain ⟨huniform, hdecel⟩ := marks_of_meeting (l := l) (by omega)
  exact ⟨huniform.trans hmeeting, hdecel.trans hmeeting⟩

/-- A line that is left at the nominal rate has nothing to slow down for. -/
theorem suffices_exit (hexit : exitSqr l = nominalSqr l) (h : RatedLine l) (steps : ℕ) :
    Suffices l.planCalc.accelStepPerS2 (exitSqr l) (peakSqr l) steps := by
  have ha := h.one_le_accel
  have hpeak := peakSqr_le l
  have hsteps : (0 : ℚ) ≤ steps := Nat.cast_nonneg steps
  unfold Suffices
  rw [hexit]
  calc peakSqr l - nominalSqr l ≤ 0 := by linarith
    _ ≤ 2 * l.planCalc.accelStepPerS2 * steps := by positivity

theorem partitioned_of_nominal (h : RatedLine l) (hexit : exitSqr l = nominalSqr l)
    (hsq : l.planCalc.nominalRate * l.planCalc.nominalRate < 2 ^ 32) : Partitioned l := by
  have ha := h.one_le_accel
  have hword := squaredWord_eq_iff.mpr hsq
  have hdec := decelerateSteps_of_nominal h hword hexit
  have haccEq := accelerateSteps_eq h hsq
  have hacc := accelerateSteps_lt h hsq
  have hdecEq : (decelerateSteps l : ℤ) = ⌊(nominalSqr l - exitSqr l) / (2 * l.planCalc.accelStepPerS2)⌋ := by
    rw [hdec, hexit, sub_self, zero_div, Int.floor_zero]
    rfl
  rcases le_or_gt (accelerateSteps l) (longestOf l).2 with hle | hgt
  · obtain ⟨huniform, hdecel⟩ := marks_of_reached h hdec hle
    refine ⟨hword, haccEq, hdecEq, by omega, by omega, ?_, suffices_exit hexit h _⟩
    -- the count is the distance to the nominal rate, rounded up
    have hceil : (nominalSqr l - entrySqr l) / (2 * l.planCalc.accelStepPerS2) ≤ accelerateSteps l := by
      have := Int.le_ceil ((nominalSqr l - entrySqr l) / (2 * l.planCalc.accelStepPerS2))
      rw [← haccEq] at this
      exact_mod_cast this
    rw [div_le_iff₀ (by linarith)] at hceil
    have hpeak := peakSqr_le l
    unfold Suffices
    rw [huniform]
    linarith
  · obtain ⟨huniform, hdecel⟩ := marks_of_unreached h hsq hexit hacc hgt
    refine ⟨hword, haccEq, hdecEq, by omega, by omega, ?_, suffices_exit hexit h _⟩
    -- the two marks coincide, so the peak is what the acceleration gives
    have hpeak : peakSqr l ≤ entrySqr l + 2 * l.planCalc.accelStepPerS2 * uniformStart l := by
      unfold peakSqr
      rw [if_neg (by omega)]
      exact min_le_right _ _
    unfold Suffices
    linarith

/-- **Which lines are partitioned**: those that are left at the nominal rate itself, with a nominal rate of at most
sixteen bits.  Any other exit rate gives a count of deceleration steps above `2 ^ 31`. -/
theorem partitioned_iff (h : RatedLine l) :
    Partitioned l ↔
      exitSqr l = nominalSqr l ∧ l.planCalc.nominalRate * l.planCalc.nominalRate < 2 ^ 32 := by
  constructor
  · intro hp
    have hsq := squaredWord_eq_iff.mp hp.square
    refine ⟨?_, hsq⟩
    by_contra hne
    have hwrap := le_decelerateSteps h hp.square (lt_of_le_of_ne h.exit_le hne)
    have hexact := hp.decelerate
    have hle : ⌊(nominalSqr l - exitSqr l) / (2 * l.planCalc.accelStepPerS2)⌋ ≤ 2 ^ 31 - 1 :=
      Int.floor_le_iff.mpr (by push_cast; linarith [distance_le h hsq (exitSqr_nonneg h)])
    omega
  · rintro ⟨hexit, hsq⟩
    exact partitioned_of_nominal h hexit hsq

/-- Ten millimetres along X in 800 steps, at 100 mm/s and 1000 mm/s², entered at the smallest speed. -/
def tenMm (exitSpeedSqr : ℚ) : PlanLine :=
  { PlanLine.zero with
    axis := fun a => { PlanLine.zero.axis a with steps := if a = .X then 800 else 0 }
    planCalc := { PlanLine.zero.planCalc with
      lineLength := 10
      entrySpeedSqr := sqr minimumPlannerSpeed
      exitSpeedSqr := exitSpeedSqr
      nominalRate := 8000
      accelStepPerS2 := 80000 } }

theorem tenMm_eventSteps (exitSpeedSqr : ℚ) : (longestOf (tenMm exitSpeedSqr)).2 = 800 := by
  rw [longestOf_snd]
  simp [PlanLine.maxSteps, tenMm]

theorem tenMm_rate (exitSpeedSqr speedSqr : ℚ) : sqr (stepPerMm (tenMm exitSpeedSqr)) * speedSqr = 6400 * speedSqr := by
  unfold stepPerMm sqr
  rw [tenMm_eventSteps]
  norm_num [tenMm]

theorem tenMm_rated {exitSpeedSqr : ℚ} (h0 : sqr minimumPlannerSpeed ≤ exitSpeedSqr) (h1 : exitSpeedSqr ≤ 10000) :
    RatedLine (tenMm exitSpeedSqr) := by
  have hnominal : nominalSqr (tenMm exitSpeedSqr) = 6400 * 10000 := by
    norm_num [nominalSqr, sqr, tenMm]
  have hbelow : ∀ speedSqr ≤ (10000 : ℚ),
      sqr (stepPerMm (tenMm exitSpeedSqr)) * speedSqr ≤ nominalSqr (tenMm exitSpeedSqr) := by
    intro speedSqr hle
    rw [tenMm_rate, hnominal]
    linarith
  refine ⟨?_, ?_, by norm_num [tenMm], by norm_num [tenMm], le_refl _, h0, hbelow _ (h0.trans h1), hbelow _ h1⟩
  · rw [tenMm_eventSteps]
    norm_num
  · rw [tenMm_eventSteps]
    norm_num

/-- Left at its nominal speed, the line is partitioned. -/
theorem partitioned_tenMm : Partitioned (tenMm 10000) :=
  (partitioned_iff (tenMm_rated (by decide +kernel) (by norm_num))).mpr ⟨by decide +kernel, by decide⟩

/-- Left at the smallest speed, as the last line always is, it decelerates from its step 801 on. -/
theorem not_partitioned : ¬ ∀ l, RatedLine l → Partitioned l := by
  intro hall
  have hp := hall (tenMm (sqr minimumPlannerSpeed)) (tenMm_rated (le_refl _) (by decide +kernel))
  exact absurd hp.inside (by decide +kernel)

end Partition

end Cxsw.Motion
