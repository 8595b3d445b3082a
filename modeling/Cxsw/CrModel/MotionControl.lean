import Cxsw.CrModel.CrMotion

/-!
# Cxsw.CrModel.MotionControl — what else sets the coordinate (`CrModel/CrMotion.cpp`)

Besides the moves, `LatestCoord` is written by `SetLatestCoord`, by homing, by the moves of the user interface, by the
stops and by a change of the unit.  Pause and resume plan lines from it and leave it.  Where the ring is full these
functions sleep until another thread has made room.

* `controlEvent`: one call of a function of `CrMotion`.
* `z_stays_put_iff`: in exactly the runs in which `OldTarget.Z` is up to date whenever a move leaves Z, such a move
  leaves Z.
* `pause_neutral_iff`: what the moves between pause and resume must do for both to cancel out.
-/

namespace Cxsw.Motion

/-! ## The functions -/

section Defs

/-- The motion with `PauseCoord` and the modes, and the sum of the displacements planned so far. -/
structure MotionControl where
  motion : CrMotion
  pauseCoord : Axis → ℚ
  isRelativeMotion : Bool
  isRelativeExtrude : Bool
  planned : Axis → ℚ

/-- After power-on. -/
def initControl : MotionControl := ⟨initMotion, fun _ => 0, false, false, fun _ => 0⟩

namespace MotionControl

/-- Another thread calls the planner. -/
def call (s : MotionControl) (c : PlannerCall) : MotionControl :=
  { s with motion := { s.motion with planner := s.motion.planner.call c } }

/-- An attempt of `PlanLine` or `PlanRetract`. -/
def plan (m : Machine) (s : MotionControl) (retract : Bool) (current target : Axis → ℚ) : ℤ × MotionControl :=
  let r := if retract then planRetract m s.motion.planner current target
    else planLine m s.motion.planner current target
  (r.1, { s with
    motion := { s.motion with planner := r.2 }
    planned := fun a => if r.1 < 0 then s.planned a else s.planned a + plannedDis retract current target a })

/-- `while (PlanLine(..) < 0) CrM_Sleep(..)`.  Between two attempts another thread calls the planner; the calls that
were not needed are left.  The loop has no result where the calls are used up. -/
def planWaiting (m : Machine) (retract : Bool) (current target : Axis → ℚ) :
    MotionControl → List PlannerCall → Option (MotionControl × List PlannerCall)
  | s, [] =>
    let r := s.plan m retract current target
    if r.1 < 0 then none else some (r.2, [])
  | s, c :: calls =>
    let r := s.plan m retract current target
    if r.1 < 0 then planWaiting m retract current target (r.2.call c) calls else some (r.2, c :: calls)

/-- `PutMotionCoord`. -/
def putMotionCoord (m : Machine) (s : MotionControl) (c : MotionGcode) : ℤ × MotionControl :=
  let r := Motion.putMotionCoord m s.motion c
  (r.1, { s with
    motion := r.2
    planned := fun a =>
      if r.1 < 0 then s.planned a
      else s.planned a +
        plannedDis c.retractFlag (inMm s.motion.motionUnit s.motion.latestCoord) (inMm s.motion.motionUnit c.coord) a })

/-- `LatestCoord` is written. -/
def setLatestCoord (s : MotionControl) (coord : Axis → ℚ) : MotionControl :=
  { s with motion := { s.motion with latestCoord := coord } }

/-- The options of `G28`. -/
structure HomeMark where
  o : Bool
  r : Bool
  x : Bool
  y : Bool
  z : Bool

/-- A run of `MoveHomeX`, `MoveHomeY` or `MoveHomeZ`: the calls of the planner meanwhile, and the result. -/
structure MoveHome where
  calls : List PlannerCall
  homed : Bool

/-- An axis is homed if its option is given. -/
def moveHome (s : MotionControl) (opt : Bool) (a : Axis) (h : MoveHome) : MotionControl :=
  if opt then
    let s := h.calls.foldl call s
    if h.homed then s.setLatestCoord (Function.update s.motion.latestCoord a 0) else s
  else s

/-- `Target`, which differs from `LatestCoord` on one axis. -/
def shifted (coord : Axis → ℚ) (a : Axis) (d : ℚ) : Axis → ℚ := Function.update coord a (coord a + d)

/-- The line of `AutoMoveHome` that raises Z. -/
def raiseZ (m : Machine) (s : MotionControl) (opt : Bool) (calls : List PlannerCall) : Option MotionControl :=
  let coord := s.motion.latestCoord
  if opt then (planWaiting m false coord (shifted coord .Z 2) s calls).map Prod.fst else some s

/-- `AutoMoveHome`. -/
def autoMoveHome (m : Machine) (s : MotionControl) (mark : HomeMark) (isHome : Bool) (homing : Axis → MoveHome)
    (calls : List PlannerCall) : Option MotionControl :=
  let s := { s with motion := { s.motion with remainder := { s.motion.remainder with deltamm := 0 } } }
  if mark.o && isHome then some s
  else
    (s.raiseZ m mark.r calls).map fun s =>
      ((s.moveHome mark.x .X (homing .X)).moveHome mark.y .Y (homing .Y)).moveHome mark.z .Z (homing .Z)

/-- The move of `HandleStepperMoveMsg`. -/
def handleStepperMoveMsg (m : Machine) (s : MotionControl) (moveDis : Axis → ℚ) (calls : List PlannerCall) :
    Option MotionControl := do
  let curFinish := s.motion.latestCoord
  let target : Axis → ℚ := fun a => curFinish a + moveDis a
  let r ← planWaiting m false curFinish target s calls
  some (r.1.setLatestCoord target)

/-- `StopMotionUrgently`, with the positions of the steppers. -/
def stopMotionUrgently (s : MotionControl) (pos : Axis → ℚ) : MotionControl :=
  (s.call .planLineBuffClear).setLatestCoord pos

/-- `MotionStop`. -/
def motionStop (m : Machine) (s : MotionControl) (pos : Axis → ℚ) (isHome : Bool) (homing : Axis → MoveHome)
    (calls : List PlannerCall) : Option MotionControl := do
  let s ← (s.stopMotionUrgently pos).autoMoveHome m ⟨false, true, true, true, true⟩ isHome homing calls
  some (s.setLatestCoord fun _ => 0)

/-- `MotionPause`.  `CurCoordinate` is not advanced by the planned lines. -/
def motionPause (m : Machine) (s : MotionControl) (calls : List PlannerCall) : Option MotionControl := do
  let curCoordinate := s.motion.latestCoord
  let r ← planWaiting m true curCoordinate (shifted curCoordinate .E (-5)) s calls
  let r ← planWaiting m false curCoordinate (shifted curCoordinate .Z 2) r.1 r.2
  let r ← planWaiting m false curCoordinate
    (fun
      | .X => 2
      | .Y => 2
      | a => curCoordinate a) r.1 r.2
  some { r.1 with pauseCoord := curCoordinate }

/-- `MotionResume`. -/
def motionResume (m : Machine) (s : MotionControl) (calls : List PlannerCall) : Option MotionControl := do
  let curCoordinate := s.pauseCoord
  let coord := s.motion.latestCoord
  let r ← planWaiting m false curCoordinate
    (fun
      | .X => coord .X
      | .Y => coord .Y
      | a => curCoordinate a) s calls
  let r ← planWaiting m false curCoordinate (Function.update curCoordinate .Z (coord .Z)) r.1 r.2
  let r ← planWaiting m true curCoordinate (Function.update curCoordinate .E (coord .E)) r.1 r.2
  some r.1

/-- `SetMotionUnitType`, which converts `PauseCoord` as well. -/
def setMotionUnitType (s : MotionControl) (unit : MotionUnitType) : MotionControl :=
  { s with
    motion := Motion.setMotionUnitType s.motion unit
    pauseCoord :=
      if s.motion.motionUnit = unit then s.pauseCoord
      else match unit with
        | .inch => fun a => mmToInch (s.pauseCoord a)
        | .millimeter => fun a => inchToMm (s.pauseCoord a) }

/-- `SetRelativeMotion`, `SetAbsluteMotion`, `SetRelativeExtrude` and `SetAbsluteExtrude`. -/
def setRelativeMotion (s : MotionControl) : MotionControl :=
  { s with isRelativeMotion := true, isRelativeExtrude := true }

def setAbsluteMotion (s : MotionControl) : MotionControl :=
  { s with isRelativeMotion := false, isRelativeExtrude := false }

def setRelativeExtrude (s : MotionControl) : MotionControl := { s with isRelativeExtrude := true }

def setAbsluteExtrude (s : MotionControl) : MotionControl := { s with isRelativeExtrude := false }

end MotionControl

open MotionControl

/-- A call of a function of `CrMotion`, or of the planner by others. -/
inductive ControlEvent
  | putMotionCoord (m : Machine) (coord : MotionGcode)
  | setLatestCoord (coord : Axis → ℚ)
  | autoMoveHome (m : Machine) (mark : HomeMark) (isHome : Bool) (homing : Axis → MoveHome) (calls : List PlannerCall)
  | handleStepperMoveMsg (m : Machine) (moveDis : Axis → ℚ) (calls : List PlannerCall)
  | stopMotionUrgently (pos : Axis → ℚ)
  | motionStop (m : Machine) (pos : Axis → ℚ) (isHome : Bool) (homing : Axis → MoveHome) (calls : List PlannerCall)
  | motionPause (m : Machine) (calls : List PlannerCall)
  | motionResume (m : Machine) (calls : List PlannerCall)
  | setMotionUnitType (unit : MotionUnitType)
  | setRelativeMotion
  | setAbsluteMotion
  | setRelativeExtrude
  | setAbsluteExtrude
  | call (c : PlannerCall)

/-- The state after a call that returns. -/
def controlEvent (s : MotionControl) : ControlEvent → Option MotionControl
  | .putMotionCoord m coord => some (s.putMotionCoord m coord).2
  | .setLatestCoord coord => some (s.setLatestCoord coord)
  | .autoMoveHome m mark isHome homing calls => s.autoMoveHome m mark isHome homing calls
  | .handleStepperMoveMsg m moveDis calls => s.handleStepperMoveMsg m moveDis calls
  | .stopMotionUrgently pos => some (s.stopMotionUrgently pos)
  | .motionStop m pos isHome homing calls => s.motionStop m pos isHome homing calls
  | .motionPause m calls => s.motionPause m calls
  | .motionResume m calls => s.motionResume m calls
  | .setMotionUnitType unit => some (s.setMotionUnitType unit)
  | .setRelativeMotion => some s.setRelativeMotion
  | .setAbsluteMotion => some s.setAbsluteMotion
  | .setRelativeExtrude => some s.setRelativeExtrude
  | .setAbsluteExtrude => some s.setAbsluteExtrude
  | .call c => some (s.call c)

/-- The same as a relation. -/
def ControlStep (s : MotionControl) (e : ControlEvent) (t : MotionControl) : Prop := controlEvent s e = some t

end Defs

/-! ## One call -/

section Calls

namespace MotionControl

/-- A line of displacement `d` has been planned; the planner is as it may. -/
def Planned (s : MotionControl) (d : Axis → ℚ) (t : MotionControl) : Prop :=
  ∃ planner : Planner, t =
    { s with motion := { s.motion with planner := planner }, planned := fun a => s.planned a + d a }

theorem plan_planned {m : Machine} {s : MotionControl} {retract : Bool} {current target : Axis → ℚ}
    (h : ¬(s.plan m retract current target).1 < 0) :
    s.Planned (plannedDis retract current target) (s.plan m retract current target).2 := by
  refine ⟨(s.plan m retract current target).2.motion.planner, ?_⟩
  unfold plan at h ⊢
  dsimp only at h ⊢
  simp only [if_neg h]

/-- **The loop**: whatever happens while it waits, it plans one line. -/
theorem planWaiting_planned {m : Machine} {retract : Bool} {current target : Axis → ℚ} {t : MotionControl} :
    ∀ {calls rest : List PlannerCall} {s : MotionControl},
      planWaiting m retract current target s calls = some (t, rest) → s.Planned (plannedDis retract current target) t
  | [], rest, s, h => by
    simp only [planWaiting] at h
    split_ifs at h with hneg
    rw [Option.some.injEq, Prod.mk.injEq] at h
    rw [← h.1]
    exact plan_planned hneg
  | c :: calls, rest, s, h => by
    simp only [planWaiting] at h
    split_ifs at h with hneg
    · -- the attempt was refused
      obtain ⟨planner, hplanner⟩ := planWaiting_planned h
      refine ⟨planner, ?_⟩
      rw [hplanner]
      unfold plan at hneg ⊢
      dsimp only at hneg ⊢
      simp only [call, if_pos hneg]
    · rw [Option.some.injEq, Prod.mk.injEq] at h
      rw [← h.1]
      exact plan_planned hneg

theorem Planned.trans {s t u : MotionControl} {d d' : Axis → ℚ} (h : s.Planned d t) (h' : t.Planned d' u) :
    s.Planned (d + d') u := by
  obtain ⟨planner, rfl⟩ := h
  obtain ⟨planner', rfl⟩ := h'
  refine ⟨planner', ?_⟩
  simp only [Pi.add_apply, add_assoc]

theorem handleStepperMoveMsg_eq {m : Machine} {s t : MotionControl} {moveDis : Axis → ℚ} {calls : List PlannerCall}
    (h : s.handleStepperMoveMsg m moveDis calls = some t) : ∃ planner : Planner, t = { s with
      motion := { s.motion with
        planner := planner
        latestCoord := fun a => s.motion.latestCoord a + moveDis a }
      planned := fun a => s.planned a + cutE moveDis a } := by
  obtain ⟨⟨u, rest⟩, hwait, hset⟩ := Option.bind_eq_some_iff.mp h
  obtain ⟨planner, rfl⟩ := planWaiting_planned hwait
  refine ⟨planner, ?_⟩
  have hdis : dis (fun a => s.motion.latestCoord a + moveDis a) s.motion.latestCoord = moveDis := by
    ext a
    exact add_sub_cancel_left _ _
  rw [← Option.some.inj hset]
  unfold plannedDis
  rw [hdis]
  rfl

/-- The displacement of the three lines of a pause. -/
def pauseDis (coord : Axis → ℚ) : Axis → ℚ
  | .X => 2 - coord .X
  | .Y => 2 - coord .Y
  | .Z => 2
  | .E => -5

theorem motionPause_eq {m : Machine} {s t : MotionControl} {calls : List PlannerCall}
    (h : s.motionPause m calls = some t) : ∃ planner : Planner, t = { s with
      motion := { s.motion with planner := planner }
      pauseCoord := s.motion.latestCoord
      planned := fun a => s.planned a + pauseDis s.motion.latestCoord a } := by
  obtain ⟨⟨t1, rest1⟩, h1, h⟩ := Option.bind_eq_some_iff.mp h
  obtain ⟨⟨t2, rest2⟩, h2, h⟩ := Option.bind_eq_some_iff.mp h
  obtain ⟨⟨t3, rest3⟩, h3, h⟩ := Option.bind_eq_some_iff.mp h
  obtain ⟨planner, hplanner⟩ :=
    ((planWaiting_planned h1).trans (planWaiting_planned h2)).trans (planWaiting_planned h3)
  refine ⟨planner, ?_⟩
  rw [← Option.some.inj h]
  dsimp only
  rw [hplanner]
  congr
  ext a
  cases a <;> simp [plannedDis, cutE, dis, shifted, pauseDis, minEChange]

theorem motionResume_eq {m : Machine} {s t : MotionControl} {calls : List PlannerCall}
    (h : s.motionResume m calls = some t) : ∃ planner : Planner, t = { s with
      motion := { s.motion with planner := planner }
      planned := fun a => s.planned a + (s.motion.latestCoord a - s.pauseCoord a) } := by
  obtain ⟨⟨t1, rest1⟩, h1, h⟩ := Option.bind_eq_some_iff.mp h
  obtain ⟨⟨t2, rest2⟩, h2, h⟩ := Option.bind_eq_some_iff.mp h
  obtain ⟨⟨t3, rest3⟩, h3, h⟩ := Option.bind_eq_some_iff.mp h
  obtain ⟨planner, hplanner⟩ :=
    ((planWaiting_planned h1).trans (planWaiting_planned h2)).trans (planWaiting_planned h3)
  refine ⟨planner, ?_⟩
  rw [← Option.some.inj h]
  dsimp only
  rw [hplanner]
  congr
  ext a
  congr 1
  cases a <;> simp [plannedDis, cutE, dis, minEChange]

end MotionControl

end Calls

/-! ## Moves that leave Z -/

section StaysPut

open MotionControl

/-- An accepted move to the Z coordinate that is the latest. -/
def LeavesZ (s : MotionControl) : ControlEvent → Prop
  | .putMotionCoord m c => c.coord .Z = s.motion.latestCoord .Z ∧ 0 ≤ (s.putMotionCoord m c).1
  | _ => False

/-- Its line has no Z steps, and it leaves the coordinate. -/
def ZStays (s : MotionControl) (e : ControlEvent) (t : MotionControl) : Prop :=
  LeavesZ s e →
    ((t.motion.planner.ring.lineBuff s.motion.planner.ring.lineBuffTail).axis .Z).steps = 0 ∧
      t.motion.latestCoord .Z = s.motion.latestCoord .Z

/-- `OldTarget.Z` is the latest coordinate. -/
def OldTargetOk (s : MotionControl) : Prop := s.motion.remainder.oldTarget = s.motion.latestCoord .Z

/-- A move that leaves Z is made where `OldTarget.Z` is up to date. -/
def LeavesZOk (s : MotionControl) (e : ControlEvent) : Prop := LeavesZ s e → OldTargetOk s

theorem lineSteps_zero (flowRatio : ℚ) (n : ℕ) : lineSteps flowRatio 0 n .Z = 0 := by
  have hfloor : ⌊|(0 : ℚ)| * (n : ℚ)⌋ = 0 := by simp
  unfold lineSteps
  rw [cutSteps (by rw [hfloor]; norm_num), hfloor, neg_zero, ite_self]

theorem movedSteps_eq_zero {x : PlanLineAxis} : movedSteps x = 0 ↔ x.steps = 0 := by
  unfold movedSteps
  cases x.dir <;> simp

theorem planMove_z {m : Machine} {s : CrMotion} {c : MotionGcode} (hz : c.coord .Z = s.latestCoord .Z)
    (h : 0 ≤ (planMove m s c).1) :
    (((planMove m s c).2.ring.lineBuff s.planner.ring.lineBuffTail).axis .Z).steps = 0 := by
  obtain ⟨attr, hattr, hmoves⟩ := plan_moves h
  have hdis : plannedDis c.retractFlag (inMm s.motionUnit s.latestCoord) (inMm s.motionUnit c.coord) .Z = 0 := by
    rw [plannedDis_of_ne (by decide)]
    unfold inMm
    cases s.motionUnit <;> simp [hz]
  have hmoved := hmoves .Z
  rw [hdis, lineSteps_zero] at hmoved
  exact movedSteps_eq_zero.mp hmoved

theorem put_accepted_iff {m : Machine} {s : CrMotion} {c : MotionGcode} :
    0 ≤ (putMotionCoord m s c).1 ↔ 0 ≤ (planMove m s c).1 := by
  unfold putMotionCoord
  dsimp only
  split_ifs with hneg
  · exact Iff.rfl
  · exact iff_of_true Int.one_nonneg (not_lt.mp hneg)

theorem put_stores {m : Machine} {s : CrMotion} {c : MotionGcode} (h : 0 ≤ (planMove m s c).1) :
    (putMotionCoord m s c).2 = { s with
      planner := (planMove m s c).2
      latestCoord := (correctTargetCoordinate m s.remainder (inMm s.motionUnit s.latestCoord)
        (inMm s.motionUnit c.coord)).1
      remainder := (correctTargetCoordinate m s.remainder (inMm s.motionUnit s.latestCoord)
        (inMm s.motionUnit c.coord)).2 } := by
  unfold putMotionCoord
  dsimp only
  rw [if_neg (not_lt.mpr h)]

/-- Of an accepted move the correction stores the Z coordinate in `OldTarget`; if the move leaves Z it comes from
there. -/
theorem put_latestZ {m : Machine} {s : CrMotion} {c : MotionGcode} (h : 0 ≤ (planMove m s c).1) :
    (putMotionCoord m s c).2.remainder.oldTarget = (putMotionCoord m s c).2.latestCoord .Z ∧
      (c.coord .Z = s.latestCoord .Z → (putMotionCoord m s c).2.latestCoord .Z = s.remainder.oldTarget) := by
  obtain ⟨attr, hattr, -⟩ := plan_moves h
  obtain ⟨hz, hr⟩ := correct_z s.remainder (inMm s.motionUnit s.latestCoord) (inMm s.motionUnit c.coord) hattr
  rw [put_stores h]
  dsimp only
  rw [hz, hr]
  constructor
  · unfold correctZ
    split_ifs <;> rfl
  · intro heq
    have hsame : inMm s.motionUnit c.coord .Z = inMm s.motionUnit s.latestCoord .Z := by
      unfold inMm
      cases s.motionUnit <;> simp [heq]
    unfold correctZ
    rw [hsame, if_neg]
    rw [sub_self, abs_zero]
    norm_num [eolData]

/-- **One move**: it leaves Z exactly when `OldTarget.Z` is up to date. -/
theorem zStays_iff {s t : MotionControl} {e : ControlEvent} (h : ControlStep s e t) : ZStays s e t ↔ LeavesZOk s e := by
  refine imp_congr_right fun hleaves => ?_
  cases e with
  | putMotionCoord m c =>
    obtain ⟨heq, hacc⟩ := hleaves
    have hplan : 0 ≤ (planMove m s.motion c).1 := put_accepted_iff.mp hacc
    have ht : t.motion = (Motion.putMotionCoord m s.motion c).2 := by
      rw [← Option.some.inj h]
      rfl
    have hsteps : ((t.motion.planner.ring.lineBuff s.motion.planner.ring.lineBuffTail).axis .Z).steps = 0 := by
      rw [ht, put_stores hplan]
      exact planMove_z heq hplan
    rw [ht] at hsteps ⊢
    rw [(put_latestZ hplan).2 heq]
    exact and_iff_right hsteps
  | _ => exact hleaves.elim

/-- **Z stays put**: the runs in which no move that leaves Z plans Z steps or changes the latest Z coordinate are those
in which every such move is made where `OldTarget.Z` is up to date. -/
theorem z_stays_put_iff (s : MotionControl) (events : List ControlEvent) (t : MotionControl) :
    Run (fun s e t => ControlStep s e t ∧ ZStays s e t) s events t ↔ Run (Guarded ControlStep LeavesZOk) s events t :=
  run_congr (fun _ _ _ => and_congr_right zStays_iff) s events t

/-- **A stale `OldTarget`**: a move of Z, the coordinate set to zero, and a move of X. -/
theorem stale_oldTarget :
    ∃ s t : MotionControl,
      Run ControlStep initControl
        [.putMotionCoord (steppersOf 100) (moveTo false .Z 10), .setLatestCoord fun _ => 0] s ∧
      ControlStep s (.putMotionCoord (steppersOf 100) (moveTo false .X 5)) t ∧
      LeavesZ s (.putMotionCoord (steppersOf 100) (moveTo false .X 5)) ∧
      s.motion.latestCoord .Z = 0 ∧ t.motion.latestCoord .Z = 10 ∧
      ¬ZStays s (.putMotionCoord (steppersOf 100) (moveTo false .X 5)) t := by
  have hleaves : LeavesZ
      ((initControl.putMotionCoord (steppersOf 100) (moveTo false .Z 10)).2.setLatestCoord fun _ => 0)
      (.putMotionCoord (steppersOf 100) (moveTo false .X 5)) := ⟨rfl, by decide +kernel⟩
  refine ⟨_, _, ((Run.nil _).snoc rfl).snoc rfl, rfl, hleaves, rfl, by decide +kernel, fun h => ?_⟩
  exact absurd (h hleaves).2 (by decide +kernel)

end StaysPut

/-! ## Pause and resume -/

section Pause

open MotionControl

/-- The moves made by hand: those of the user interface, and those of commands. -/
def ManualMove : ControlEvent → Prop
  | .handleStepperMoveMsg .. => True
  | .putMotionCoord .. => True
  | _ => False

/-- The moves of the user interface. -/
def InterfaceMove : ControlEvent → Prop
  | .handleStepperMoveMsg .. => True
  | _ => False

/-- From `s` to `t` nothing has been planned in total, and the coordinate is the same. -/
def Neutral (s t : MotionControl) : Prop :=
  (∀ a, t.planned a = s.planned a) ∧ t.motion.latestCoord = s.motion.latestCoord

/-- The moves from `p` to `q` plan the way back of the pause in `s`, but leave the coordinate. -/
def WayBack (s p q : MotionControl) : Prop :=
  (∀ a, q.planned a = p.planned a - pauseDis s.motion.latestCoord a) ∧ q.motion.latestCoord = s.motion.latestCoord

theorem pauseCoord_manual {s t : MotionControl} {e : ControlEvent} (he : ManualMove e) (h : ControlStep s e t) :
    t.pauseCoord = s.pauseCoord := by
  cases e with
  | putMotionCoord m c => exact Option.some.inj h ▸ rfl
  | handleStepperMoveMsg m moveDis calls =>
    obtain ⟨planner, rfl⟩ := handleStepperMoveMsg_eq h
    rfl
  | _ => exact he.elim

/-- On Z the moves of the user interface plan what they add to the coordinate. -/
theorem planned_interface {s t : MotionControl} {e : ControlEvent} (he : InterfaceMove e) (h : ControlStep s e t) :
    t.planned .Z - t.motion.latestCoord .Z = s.planned .Z - s.motion.latestCoord .Z := by
  cases e with
  | handleStepperMoveMsg m moveDis calls =>
    obtain ⟨planner, rfl⟩ := handleStepperMoveMsg_eq h
    exact add_sub_add_right_eq_sub _ _ _
  | _ => exact he.elim

/-- **Pause and resume**: they cancel out exactly when the moves between them plan the way back of the pause and yet
leave the coordinate.  Moves of the user interface never do. -/
theorem pause_neutral_iff {m m' : Machine} {s p q t : MotionControl} {calls calls' : List PlannerCall}
    {manual : List ControlEvent} (hpause : s.motionPause m calls = some p) (hrun : Run ControlStep p manual q)
    (hmanual : ∀ e ∈ manual, ManualMove e) (hresume : q.motionResume m' calls' = some t) :
    (Neutral s t ↔ WayBack s p q) ∧ ((∀ e ∈ manual, InterfaceMove e) → ¬Neutral s t) := by
  obtain ⟨planner, rfl⟩ := motionPause_eq hpause
  obtain ⟨planner', rfl⟩ := motionResume_eq hresume
  have hsaved : q.pauseCoord = s.motion.latestCoord := by
    refine (hrun.guarded hmanual).invariant (I := fun u => u.pauseCoord = s.motion.latestCoord) rfl ?_
    intro u e v hu hstep
    exact (pauseCoord_manual hstep.2 hstep.1).trans hu
  have hiff : Neutral s { q with
      motion := { q.motion with planner := planner' }
      planned := fun a => q.planned a + (q.motion.latestCoord a - q.pauseCoord a) } ↔
      (∀ a, q.planned a = s.planned a) ∧ q.motion.latestCoord = s.motion.latestCoord := by
    unfold Neutral
    refine and_congr_left fun hcoord => ?_
    dsimp only at hcoord ⊢
    rw [hsaved, hcoord]
    simp only [sub_self, add_zero]
  rw [hiff]
  refine ⟨and_congr_left fun _ => forall_congr' fun a => ?_, fun hinterface hneutral => ?_⟩
  · rw [add_sub_cancel_right]
  · obtain ⟨hplanned, hcoord⟩ := hneutral
    have hkept := (hrun.guarded hinterface).invariant
      (I := fun u => u.planned .Z - u.motion.latestCoord .Z = s.planned .Z + 2 - s.motion.latestCoord .Z) rfl
      fun u e v hu hstep => (planned_interface hstep.2 hstep.1).trans hu
    rw [hplanned .Z, hcoord] at hkept
    linarith

/-- A pause, a move of E, and a resume. -/
theorem pause_neutral_moveE :
    ∃ p q t : MotionControl, initControl.motionPause (steppersOf 100) [] = some p ∧
      Run ControlStep p [.handleStepperMoveMsg (steppersOf 100) (eAt 5) []] q ∧
      q.motionResume (steppersOf 100) [] = some t ∧ ¬Neutral initControl t := by
  have hreturns : ((initControl.motionPause (steppersOf 100) []).bind fun p =>
      (controlEvent p (.handleStepperMoveMsg (steppersOf 100) (eAt 5) [])).bind fun q =>
        q.motionResume (steppersOf 100) []).isSome := by decide +kernel
  obtain ⟨t, hreturns⟩ := Option.isSome_iff_exists.mp hreturns
  obtain ⟨p, hp, hreturns⟩ := Option.bind_eq_some_iff.mp hreturns
  obtain ⟨q, hq, ht⟩ := Option.bind_eq_some_iff.mp hreturns
  have hrun : Run ControlStep p [.handleStepperMoveMsg (steppersOf 100) (eAt 5) []] q := (Run.nil p).snoc hq
  refine ⟨p, q, t, hp, hrun, ht, (pause_neutral_iff hp hrun ?_ ht).2 ?_⟩ <;> simp [ManualMove, InterfaceMove]

/-- **A pause and a resume do not cancel out**: the head is left 2 above and beside the origin, with 5 retracted. -/
theorem pause_not_neutral :
    (((initControl.motionPause (steppersOf 100) []).bind fun p => p.motionResume (steppersOf 100) []).map fun t =>
        (t.planned .X, t.planned .Y, t.planned .Z, t.planned .E)) = some (2, 2, 2, -5) ∧
      ¬∀ p t : MotionControl, initControl.motionPause (steppersOf 100) [] = some p →
        p.motionResume (steppersOf 100) [] = some t → Neutral initControl t := by
  have hleft : (((initControl.motionPause (steppersOf 100) []).bind fun p => p.motionResume (steppersOf 100) []).map
      fun t => (t.planned .X, t.planned .Y, t.planned .Z, t.planned .E)) = some (2, 2, 2, -5) := by decide +kernel
  refine ⟨hleft, fun h => ?_⟩
  obtain ⟨t, hreturns, hplanned⟩ := Option.map_eq_some_iff.mp hleft
  obtain ⟨p, hp, ht⟩ := Option.bind_eq_some_iff.mp hreturns
  have hzero : t.planned .Z = 0 := (h p t hp ht).1 .Z
  simp [hzero] at hplanned

end Pause

end Cxsw.Motion
