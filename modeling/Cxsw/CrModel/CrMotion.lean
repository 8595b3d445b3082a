import Cxsw.Lib.Run
import Cxsw.CrMotion.CorrectTarget

/-!
# Cxsw.CrModel.CrMotion — the coordinate behind the planned lines (`CrModel/CrMotion.cpp`)

`PutMotionCoord` plans a line from `LatestCoord` to the target and then moves `LatestCoord` to where the whole steps of
the line lead.  The steps planned so far are counted on the side, from the lines that the planner puts into the ring.
Enabling the steppers changes neither.

* `putMotionCoord`, `setMotionUnitType`: the two functions that change `LatestCoord` between moves.
* `Tracked`: the coordinate of an axis stands for the steps planned on it, but for what Z carries.
* `EventOk`: the moves for which the planner and the correction agree on an axis.
* `position_tracked`: in every run of such moves the axis stays tracked; there is no drift.
* `position_drifts`: what happens without.
-/

namespace Cxsw.Motion

/-! ## The moves -/

section Defs

/-- `MotionUnitType_t`. -/
inductive MotionUnitType
  | millimeter
  | inch
  deriving DecidableEq

/-- `MotionGcode_t`, what `PutMotionCoord` reads of it. -/
structure MotionGcode where
  retractFlag : Bool
  coord : Axis → ℚ
  feedRate : ℚ

/-- `INCH_TO_MM` and `MM_TO_INCH`. -/
def inchToMm (n : ℚ) : ℚ := n * (254 / 10)

def mmToInch (n : ℚ) : ℚ := n / (254 / 10)

/-- The planner, `LatestCoord`, `MotionUnit`, and what `CorrectTargetCoordinate` carries. -/
structure CrMotion where
  planner : Planner
  latestCoord : Axis → ℚ
  motionUnit : MotionUnitType
  remainder : Remainder

/-- A coordinate in millimeters. -/
def inMm (unit : MotionUnitType) (coord : Axis → ℚ) : Axis → ℚ :=
  match unit with
  | .inch => fun a => inchToMm (coord a)
  | .millimeter => coord

/-- The feed rate of a move, in units per minute, is set for the following ones too. -/
def setFeedRate (unit : MotionUnitType) (f : FeedrateAttr) (feedRate : ℚ) : FeedrateAttr :=
  if 1 / 1000000 < feedRate then
    { f with
      feedrate := match unit with
        | .inch => inchToMm (feedRate / 60)
        | .millimeter => feedRate / 60 }
  else f

/-- The first half of `PutMotionCoord`: the line from `LatestCoord` to the target is planned. -/
def planMove (m : Machine) (s : CrMotion) (c : MotionGcode) : ℤ × Planner :=
  let curCoordinate := inMm s.motionUnit s.latestCoord
  let target := inMm s.motionUnit c.coord
  let planner := { s.planner with feedrate := setFeedRate s.motionUnit s.planner.feedrate c.feedRate }
  if c.retractFlag then planRetract m planner curCoordinate target else planLine m planner curCoordinate target

/-- `PutMotionCoord`: the other half corrects `LatestCoord`, if the line was accepted. -/
def putMotionCoord (m : Machine) (s : CrMotion) (c : MotionGcode) : ℤ × CrMotion :=
  let r := planMove m s c
  if r.1 < 0 then (r.1, { s with planner := r.2 })
  else
    let result := correctTargetCoordinate m s.remainder (inMm s.motionUnit s.latestCoord) (inMm s.motionUnit c.coord)
    (1, { s with planner := r.2, latestCoord := result.1, remainder := result.2 })

/-- `SetMotionUnitType`. -/
def setMotionUnitType (s : CrMotion) (unit : MotionUnitType) : CrMotion :=
  if s.motionUnit = unit then s
  else
    { s with
      latestCoord := match unit with
        | .inch => fun a => mmToInch (s.latestCoord a)
        | .millimeter => fun a => inchToMm (s.latestCoord a)
      motionUnit := unit }

/-- The motion after power-on. -/
def initMotion : CrMotion := ⟨Planner.init, fun _ => 0, .millimeter, ⟨0, 0⟩⟩

/-- The motion, and the signed sum of the steps planned on every axis. -/
structure Tracking where
  motion : CrMotion
  plannedSteps : Axis → ℤ

/-- What happens to the motion. -/
inductive MotionEvent
  | putMotionCoord (m : Machine) (coord : MotionGcode)
  | setMotionUnitType (unit : MotionUnitType)
  | getNextPlanLine
  | planLineBuffClear
  | feedrateAttrSet (attr : FeedrateAttr)

/-- The planner is called by others. -/
def Tracking.call (s : Tracking) (c : PlannerCall) : Tracking :=
  { s with motion := { s.motion with planner := s.motion.planner.call c } }

/-- The state after an event.  The steps of an accepted move are those of the line in the slot that was filled. -/
def motionEvent (s : Tracking) : MotionEvent → Tracking
  | .putMotionCoord m coord =>
    let r := Motion.putMotionCoord m s.motion coord
    { motion := r.2
      plannedSteps := fun a =>
        if r.1 < 0 then s.plannedSteps a
        else s.plannedSteps a +
          movedSteps ((r.2.planner.ring.lineBuff s.motion.planner.ring.lineBuffTail).axis a) }
  | .setMotionUnitType unit => { s with motion := Motion.setMotionUnitType s.motion unit }
  | .getNextPlanLine => s.call .getNextPlanLine
  | .planLineBuffClear => s.call .planLineBuffClear
  | .feedrateAttrSet attr => s.call (.feedrateAttrSet attr)

/-- The same as a relation. -/
def MotionStep (s : Tracking) (e : MotionEvent) (t : Tracking) : Prop := t = motionEvent s e

/-- `LatestCoord` in steps stands for the planned steps; for Z up to the remainder, which is less than a step. -/
def Tracked (n : ℕ) (a : Axis) (s : Tracking) : Prop :=
  match a with
  | .Z => (s.plannedSteps .Z : ℚ) = inMm s.motion.motionUnit s.motion.latestCoord .Z * n + s.motion.remainder.deltamm ∧
      |s.motion.remainder.deltamm| < 1
  | a => (s.plannedSteps a : ℚ) = inMm s.motion.motionUnit s.motion.latestCoord a * n

/-- The state that a run may start from.  `OldTarget.Z`, the coordinate of a move that leaves Z, is synchronised too. -/
def Synced (n : ℕ) (a : Axis) (s : Tracking) : Prop :=
  Tracked n a s ∧ (a = .Z → s.motion.remainder.oldTarget = inMm s.motion.motionUnit s.motion.latestCoord .Z)

/-- The moves of the extruder that the correction follows: a retract of the least extrusion or of none, and the flow
not changed, unless the distance is left out. -/
def ExtruderOk (s : CrMotion) (c : MotionGcode) : Prop :=
  (c.retractFlag = true → c.coord .E - s.latestCoord .E = 0 ∨ minEChange ≤ |c.coord .E - s.latestCoord .E|) ∧
    (|c.coord .E - s.latestCoord .E| < minEChange ∨ PlainFlow s.planner.feedrate.flowRatio)

/-- A move that an axis of `n` steps per millimeter can follow: it is in millimeters, and its steps fit an `S32`. -/
def EventOk (n : ℕ) (a : Axis) (s : Tracking) : MotionEvent → Prop
  | .putMotionCoord m c => s.motion.motionUnit = .millimeter ∧ (∀ attr ∈ axisAttr m, (attr a).stepsPerMm = n) ∧
      wholeSteps (|c.coord a - s.motion.latestCoord a| * n) a < 2 ^ 31 ∧ (a = .E → ExtruderOk s.motion c)
  | _ => True

end Defs

/-! ## One event -/

section Step

variable {n : ℕ} {a : Axis} {s : Tracking}

theorem Synced.call (h : Synced n a s) (c : PlannerCall) : Synced n a (s.call c) := by
  cases a <;> exact h

theorem setFeedRate_flowRatio (unit : MotionUnitType) (f : FeedrateAttr) (feedRate : ℚ) :
    (setFeedRate unit f feedRate).flowRatio = f.flowRatio := by
  unfold setFeedRate
  split_ifs <;> rfl

theorem setMotionUnitType_inMm (s : CrMotion) (unit : MotionUnitType) (a : Axis) :
    inMm (setMotionUnitType s unit).motionUnit (setMotionUnitType s unit).latestCoord a =
      inMm s.motionUnit s.latestCoord a := by
  unfold setMotionUnitType
  by_cases h : s.motionUnit = unit
  · rw [if_pos h]
  · rw [if_neg h]
    cases unit with
    | inch =>
      have hmm : s.motionUnit = .millimeter := by
        cases hu : s.motionUnit with
        | inch => exact absurd hu h
        | millimeter => rfl
      rw [hmm]
      show mmToInch (s.latestCoord a) * (254 / 10) = s.latestCoord a
      unfold mmToInch
      exact div_mul_cancel₀ _ (by norm_num)
    | millimeter =>
      have hinch : s.motionUnit = .inch := by
        cases hu : s.motionUnit with
        | inch => rfl
        | millimeter => exact absurd hu h
      rw [hinch]
      rfl

theorem setMotionUnitType_remainder (s : CrMotion) (unit : MotionUnitType) :
    (setMotionUnitType s unit).remainder = s.remainder := by
  unfold setMotionUnitType
  split_ifs <;> rfl

theorem Synced.setMotionUnitType (h : Synced n a s) (unit : MotionUnitType) :
    Synced n a (motionEvent s (.setMotionUnitType unit)) := by
  unfold Synced Tracked at *
  dsimp only [motionEvent]
  rw [setMotionUnitType_remainder]
  simp only [setMotionUnitType_inMm]
  exact h

/-- The steps of an accepted line, in millimeters. -/
theorem planMove_moves {m : Machine} {s : CrMotion} {c : MotionGcode} (hunit : s.motionUnit = .millimeter)
    (h : 0 ≤ (planMove m s c).1) : ∃ attr, axisAttr m = some attr ∧ ∀ a,
      movedSteps (((planMove m s c).2.ring.lineBuff s.planner.ring.lineBuffTail).axis a) =
        lineSteps s.planner.feedrate.flowRatio (plannedDis c.retractFlag s.latestCoord c.coord a)
          (attr a).stepsPerMm a := by
  obtain ⟨attr, hattr, hmoves⟩ := plan_moves h
  refine ⟨attr, hattr, fun a => ?_⟩
  have hmove := hmoves a
  rw [hunit, setFeedRate_flowRatio] at hmove
  unfold planMove
  rw [hunit]
  exact hmove

theorem put_accepted {m : Machine} {c : MotionGcode} (hunit : s.motion.motionUnit = .millimeter)
    (h : 0 ≤ (planMove m s.motion c).1) : ∃ attr, axisAttr m = some attr ∧
      (∀ a, (motionEvent s (.putMotionCoord m c)).plannedSteps a = s.plannedSteps a +
        lineSteps s.motion.planner.feedrate.flowRatio (plannedDis c.retractFlag s.motion.latestCoord c.coord a)
          (attr a).stepsPerMm a) ∧
      (motionEvent s (.putMotionCoord m c)).motion.latestCoord =
        (correctTargetCoordinate m s.motion.remainder s.motion.latestCoord c.coord).1 ∧
      (motionEvent s (.putMotionCoord m c)).motion.motionUnit = .millimeter ∧
      (motionEvent s (.putMotionCoord m c)).motion.remainder =
        (correctTargetCoordinate m s.motion.remainder s.motion.latestCoord c.coord).2 := by
  obtain ⟨attr, hattr, hmoves⟩ := planMove_moves hunit h
  have hnot : ¬(planMove m s.motion c).1 < 0 := not_lt.mpr h
  refine ⟨attr, hattr, fun a => ?_, ?_⟩
  · simp only [motionEvent, putMotionCoord, if_neg hnot]
    rw [if_neg (by decide), hmoves]
  · simp only [motionEvent, putMotionCoord, if_neg hnot, hunit]
    exact ⟨rfl, trivial, rfl⟩

theorem put_refused {m : Machine} {c : MotionGcode} (h : ¬0 ≤ (planMove m s.motion c).1) :
    motionEvent s (.putMotionCoord m c) =
      { s with motion := { s.motion with planner := (planMove m s.motion c).2 } } := by
  have hneg : (planMove m s.motion c).1 < 0 := not_le.mp h
  simp only [motionEvent, putMotionCoord, if_pos hneg]

/-- On every axis but Z the steps of the line are those of the correction. -/
theorem lineSteps_corrected (ha : a ≠ .Z) (hn : Resolution n a) {c : MotionGcode}
    (hfits : wholeSteps (|c.coord a - s.motion.latestCoord a| * n) a < 2 ^ 31)
    (hextruder : a = .E → ExtruderOk s.motion c) :
    lineSteps s.motion.planner.feedrate.flowRatio (plannedDis c.retractFlag s.motion.latestCoord c.coord a) n a =
      correctSteps (c.coord a - s.motion.latestCoord a) n a := by
  cases a with
  | X =>
    rw [plannedDis_of_ne (by decide)]
    exact lineSteps_eq_correctSteps (Or.inl rfl) hn hfits
  | Y =>
    rw [plannedDis_of_ne (by decide)]
    exact lineSteps_eq_correctSteps (Or.inr rfl) hn hfits
  | Z => exact absurd rfl ha
  | E =>
    obtain ⟨hretract, hflow⟩ := hextruder rfl
    exact lineSteps_e hn (plannedDis_e hretract) hfits hflow

theorem Resolution.pos (hn : Resolution n a) : 0 < n := by
  cases a with
  | X => exact hn.1
  | Y => exact hn.1
  | Z => exact hn.1
  | E => exact hn

theorem tracked_of_ne (ha : a ≠ .Z) :
    Tracked n a s ↔ (s.plannedSteps a : ℚ) = inMm s.motion.motionUnit s.motion.latestCoord a * n := by
  cases a <;> first | exact Iff.rfl | exact absurd rfl ha

/-- Of an accepted move the steps of X, Y and E follow the coordinate. -/
theorem put_rounded (ha : a ≠ .Z) (hn : Resolution n a) {m : Machine} {c : MotionGcode}
    (hok : EventOk n a s (.putMotionCoord m c)) (hacc : 0 ≤ (planMove m s.motion c).1) :
    ((motionEvent s (.putMotionCoord m c)).plannedSteps a : ℚ) -
        inMm (motionEvent s (.putMotionCoord m c)).motion.motionUnit
          (motionEvent s (.putMotionCoord m c)).motion.latestCoord a * n =
      s.plannedSteps a - inMm s.motion.motionUnit s.motion.latestCoord a * n := by
  obtain ⟨hunit, hsteps, hfits, hextruder⟩ := hok
  obtain ⟨attr, hattr, hplanned, hlatest, hunit', -⟩ := put_accepted hunit hacc
  have hn' : (attr a).stepsPerMm = n := hsteps attr hattr
  have hcorrect := @correct_rounded _ _ s.motion.remainder s.motion.latestCoord c.coord _ hattr ha (hn' ▸ hn.pos)
  rw [hunit', hplanned, hlatest, hunit]
  rw [hn'] at hcorrect ⊢
  rw [lineSteps_corrected ha hn hfits hextruder, Int.cast_add]
  show _ - (correctTargetCoordinate m s.motion.remainder s.motion.latestCoord c.coord).1 a * n = _
  rw [hcorrect]
  unfold inMm
  ring

theorem tracked_put_rounded (ha : a ≠ .Z) (hn : Resolution n a) {m : Machine} {c : MotionGcode}
    (hok : EventOk n a s (.putMotionCoord m c)) (hacc : 0 ≤ (planMove m s.motion c).1) (h : Tracked n a s) :
    Tracked n a (motionEvent s (.putMotionCoord m c)) := by
  rw [tracked_of_ne ha] at h ⊢
  rw [← sub_eq_zero, put_rounded ha hn hok hacc, h, sub_self]

/-- An accepted move carries the remainder of Z on. -/
theorem synced_put_z (hn : Resolution n .Z) {m : Machine} {c : MotionGcode}
    (hok : EventOk n .Z s (.putMotionCoord m c)) (hacc : 0 ≤ (planMove m s.motion c).1) (h : Synced n .Z s) :
    Synced n .Z (motionEvent s (.putMotionCoord m c)) := by
  obtain ⟨hunit, hsteps, hfits, -⟩ := hok
  obtain ⟨attr, hattr, hplanned, hlatest, hunit', hremainder⟩ := put_accepted hunit hacc
  have hn' : (attr .Z).stepsPerMm = n := hsteps attr hattr
  obtain ⟨⟨htracked, hrest⟩, hold⟩ := h
  rw [hunit] at htracked hold
  obtain ⟨hcarry, hrest', hold'⟩ := @correctZ_carry n hn s.motion.planner.feedrate.flowRatio s.motion.remainder
    (s.motion.latestCoord .Z) (c.coord .Z) hrest (hold rfl) hfits
  obtain ⟨hz, hr⟩ := correct_z s.motion.remainder s.motion.latestCoord c.coord hattr
  rw [hn'] at hz hr
  rw [← hz, ← hr] at hcarry
  rw [← hr] at hrest'
  rw [← hz, ← hr] at hold'
  have hdis := plannedDis_of_ne (show Axis.Z ≠ .E by decide) c.retractFlag s.motion.latestCoord c.coord
  refine ⟨⟨?_, by rw [hremainder]; exact hrest'⟩, fun _ => by rw [hremainder, hunit', hlatest]; exact hold'⟩
  rw [hplanned, hunit', hlatest, hremainder, hn', hdis, Int.cast_add, htracked]
  exact hcarry.symm

/-- **Step lemma**: every event of its kind keeps an axis synchronised. -/
theorem synced_step (hn : Resolution n a) {e : MotionEvent} (hok : EventOk n a s e) (h : Synced n a s) :
    Synced n a (motionEvent s e) := by
  cases e with
  | putMotionCoord m c =>
    by_cases hacc : 0 ≤ (planMove m s.motion c).1
    · by_cases ha : a = .Z
      · subst ha
        exact synced_put_z hn hok hacc h
      · exact ⟨tracked_put_rounded ha hn hok hacc h.1, fun hz => absurd hz ha⟩
    · rw [put_refused hacc]
      cases a <;> exact h
  | setMotionUnitType unit => exact h.setMotionUnitType unit
  | getNextPlanLine => exact h.call _
  | planLineBuffClear => exact h.call _
  | feedrateAttrSet attr => exact h.call _

end Step

/-! ## Runs -/

section Runs

/-- **Run lemma**: events of their kinds keep an axis synchronised. -/
theorem synced_run {n : ℕ} {a : Axis} {s t : Tracking} {events : List MotionEvent} (hn : Resolution n a)
    (hs : Synced n a s) (h : Run (Guarded MotionStep (EventOk n a)) s events t) : Synced n a t := by
  refine h.invariant hs ?_
  rintro t e u ht ⟨rfl, hok⟩
  exact synced_step hn hok ht

/-- **Position tracking**: whatever moves are made, refused or accepted, retracts among them, the coordinate of an axis
stands for the steps that were planned on it; rounding does not accumulate. -/
theorem position_tracked {n : ℕ} {a : Axis} {s t : Tracking} {events : List MotionEvent} (hn : Resolution n a)
    (hs : Synced n a s) (h : Run (Guarded MotionStep (EventOk n a)) s events t) : Tracked n a t :=
  (synced_run hn hs h).1

/-- The state after power-on. -/
def startTracking : Tracking := ⟨initMotion, fun _ => 0⟩

theorem synced_start (n : ℕ) (a : Axis) : Synced n a startTracking := by
  refine ⟨?_, fun _ => rfl⟩
  cases a with
  | Z =>
    constructor
    · simp [startTracking, initMotion, inMm]
    · norm_num [startTracking, initMotion]
  | _ => simp [Tracked, startTracking, initMotion, inMm]

instance decidableTracked (n : ℕ) (s : Tracking) : (a : Axis) → Decidable (Tracked n a s)
  | .Z => inferInstanceAs (Decidable (_ ∧ _))
  | .X => inferInstanceAs (Decidable (_ = _))
  | .Y => inferInstanceAs (Decidable (_ = _))
  | .E => inferInstanceAs (Decidable (_ = _))

instance decidableResolution (n : ℕ) : (a : Axis) → Decidable (Resolution n a)
  | .X => inferInstanceAs (Decidable (_ ∧ _))
  | .Y => inferInstanceAs (Decidable (_ ∧ _))
  | .Z => inferInstanceAs (Decidable (_ ∧ _))
  | .E => inferInstanceAs (Decidable (0 < n))

instance decidablePlainFlow (flowRatio : ℚ) : Decidable (PlainFlow flowRatio) :=
  inferInstanceAs (Decidable (_ ∨ _))

instance decidableExtruderOk (s : CrMotion) (c : MotionGcode) : Decidable (ExtruderOk s c) :=
  inferInstanceAs (Decidable ((_ → _ ∨ _) ∧ (_ ∨ _)))

instance decidableEventOk (n : ℕ) (a : Axis) (s : Tracking) : (e : MotionEvent) → Decidable (EventOk n a s e)
  | .putMotionCoord _ _ => inferInstanceAs (Decidable (_ ∧ _ ∧ _ ∧ (_ → _)))
  | .setMotionUnitType _ => isTrue trivial
  | .getNextPlanLine => isTrue trivial
  | .planLineBuffClear => isTrue trivial
  | .feedrateAttrSet _ => isTrue trivial

/-- Steppers of one resolution. -/
def steppersOf (stepsPerMm : ℕ) : Machine := ⟨fun _ => some ⟨stepsPerMm, 50, 10, 1000⟩, id⟩

/-- A move of one axis from the origin. -/
def moveTo (retract : Bool) (a : Axis) (x : ℚ) : MotionGcode := ⟨retract, fun b => if b = a then x else 0, 1200⟩

/-- Moves of all kinds, with a change of the unit between them. -/
def mixedMoves : List MotionEvent :=
  [.putMotionCoord (steppersOf 80) ⟨false, fun | .X => 1 / 3 | .Y => -2 / 7 | .Z => 1 / 30 | .E => 1 / 9, 1200⟩,
    .setMotionUnitType .inch, .getNextPlanLine, .setMotionUnitType .millimeter,
    .putMotionCoord (steppersOf 80) (moveTo true .E (-7 / 9)),
    .putMotionCoord (steppersOf 80) ⟨false, fun | .X => 1 | .Y => -1 | .Z => 1 / 25 | .E => 1 / 2, 0⟩]

theorem position_tracked_mixedMoves :
    (mixedMoves.foldl motionEvent startTracking).plannedSteps .X = 80 ∧
      (mixedMoves.foldl motionEvent startTracking).motion.remainder.deltamm ≠ 0 ∧
      ∀ a, Tracked 80 a (mixedMoves.foldl motionEvent startTracking) := by
  refine ⟨by decide +kernel, by decide +kernel, fun a => ?_⟩
  have hn : Resolution 80 a := by cases a <;> decide
  have hok : AllSteps motionEvent (EventOk 80 a) startTracking mixedMoves := by cases a <;> decide +kernel
  exact position_tracked hn (synced_start 80 a) (Run.of_allSteps hok)

/-- A move that is accepted and after which the axis is not tracked any more. -/
def Drifts (n : ℕ) (a : Axis) (s : Tracking) (m : Machine) (c : MotionGcode) : Prop :=
  Tracked n a s ∧ (putMotionCoord m s.motion c).1 = 1 ∧ ¬Tracked n a (motionEvent s (.putMotionCoord m c))

instance decidableDrifts (n : ℕ) (a : Axis) (s : Tracking) (m : Machine) (c : MotionGcode) :
    Decidable (Drifts n a s m c) :=
  inferInstanceAs (Decidable (_ ∧ _ ∧ ¬_))

/-- **Moves that are not tracked**: a flow of 200 percent; a retract below the least extrusion; a move in inches;
resolutions for which a distance below `EOL_DATA` is a step; more steps than an `S32` has; and, after the coordinate of
Z was set, a move that leaves Z. -/
theorem position_drifts :
    Drifts 100 .E (motionEvent startTracking (.feedrateAttrSet ⟨100, 10, 200, 0, 0, 0, 0⟩)) (steppersOf 100)
        (moveTo false .E 1) ∧
      Drifts 100 .E startTracking (steppersOf 100) (moveTo true .E (9 / 1000)) ∧
      Drifts 100 .X (motionEvent startTracking (.setMotionUnitType .inch)) (steppersOf 100) (moveTo false .X 1) ∧
      Drifts 600000 .X startTracking (steppersOf 600000) (moveTo false .X (9 / 10000000)) ∧
      Drifts 1000000 .Z startTracking (steppersOf 1000000) (moveTo false .Z (1 / 1000000)) ∧
      Drifts 100 .X startTracking (steppersOf 100) (moveTo false .X (-30000000)) ∧
      Drifts 100 .Z { startTracking with motion := { initMotion with remainder := ⟨0, 10⟩ } } (steppersOf 100)
        (moveTo false .X 1) := by
  decide +kernel

end Runs

end Cxsw.Motion
