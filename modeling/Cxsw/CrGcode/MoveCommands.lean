import Cxsw.CrGcode.GcodeG1Handle

/-!
# Cxsw.CrGcode.MoveCommands — sequences of moves and modes (`CrGcode/GcodeHandle/GcodeCmd/CmdG`, `CrModel/CrMotion.cpp`)

A move without F takes the stored feed rate, in units per minute, and stores it again.  A move for which the ring has no
room is handled again from its text.  The unit may change between the moves.

`FLOAT` is `ℚ`, so nothing is rounded: in single precision the rate of 17 inches per minute moves by the last digit when
it is first stored again in millimeters.

* `modal_feedrate_iff`: in exactly which runs the stored feed rate is the last one that was given.
* `retry_transparent_iff`: when the attempts that were refused leave no trace.
-/

namespace Cxsw.Gcode

open Cxsw.CString Cxsw.Motion Cxsw.Ack

/-! ## The commands -/

section Defs

/-- `G0` or `G1`. -/
inductive MoveKind
  | g0
  | g1

/-- The target, the parser and the executor of the command. -/
def MoveKind.target (s : MotionControl) (arg : ArgG1AndG0) : MoveKind → MotionGcode
  | .g0 => g0Target s arg
  | .g1 => g1Target s arg

def MoveKind.parse (atof : List UInt8 → ℚ) (cmdBuff : List UInt8) : MoveKind → Except ParseError ArgG1AndG0
  | .g0 => gcodeG0Parse atof cmdBuff
  | .g1 => gcodeG1Parse atof cmdBuff

def MoveKind.exec (m : Machine) (s : MotionControl) (arg : ArgG1AndG0) : MoveKind → GcodeReadAction × MotionControl
  | .g0 => gcodeG0Exec m s arg
  | .g1 => gcodeG1Exec m s arg

/-- A command that concerns the moves, or the stepper thread.  `G20` and `G21` set the unit, `G90`, `G91`, `M82` and
`M83` the modes. -/
inductive MoveEvent
  | move (m : Machine) (kind : MoveKind) (arg : ArgG1AndG0)
  | setMotionUnitType (unit : MotionUnitType)
  | setRelativeMotion
  | setAbsluteMotion
  | setRelativeExtrude
  | setAbsluteExtrude
  | getNextPlanLine
  | planLineBuffClear

/-- The state after an event. -/
def moveEvent (s : MotionControl) : MoveEvent → MotionControl
  | .move m kind arg => (kind.exec m s arg).2
  | .setMotionUnitType unit => s.setMotionUnitType unit
  | .setRelativeMotion => s.setRelativeMotion
  | .setAbsluteMotion => s.setAbsluteMotion
  | .setRelativeExtrude => s.setRelativeExtrude
  | .setAbsluteExtrude => s.setAbsluteExtrude
  | .getNextPlanLine => s.call .getNextPlanLine
  | .planLineBuffClear => s.call .planLineBuffClear

/-- The stored feed rate, in millimeters per second. -/
def storedRate (s : MotionControl) : ℚ := s.motion.planner.feedrate.feedrate

/-- A feed rate per minute, in millimeters per second. -/
def perSecond (unit : MotionUnitType) (feedRate : ℚ) : ℚ :=
  match unit with
  | .inch => inchToMm (feedRate / 60)
  | .millimeter => feedRate / 60

/-- The state with the last feed rate that was given, if any. -/
structure Modal where
  control : MotionControl
  given : Option ℚ

/-- The state after an event, and the feed rate given by it. -/
def modalEvent (s : Modal) : MoveEvent → Modal
  | .move m kind arg =>
    ⟨moveEvent s.control (.move m kind arg),
      if arg.hasF then some (perSecond s.control.motion.motionUnit arg.f) else s.given⟩
  | e => ⟨moveEvent s.control e, s.given⟩

/-- The same as a relation. -/
def ModalStep (s : Modal) (e : MoveEvent) (t : Modal) : Prop := t = modalEvent s e

/-- The stored feed rate is the one given last. -/
def RateGiven (s : Modal) : Prop := ∀ v, s.given = some v → storedRate s.control = v

/-- After a move the stored feed rate is the one given last, and a move without one leaves it. -/
def RateKept (s : Modal) (e : MoveEvent) (t : Modal) : Prop :=
  match e with
  | .move _ _ arg => RateGiven t ∧ (arg.hasF = false → storedRate t.control = storedRate s.control)
  | _ => True

/-- No line is planned with a rate below `EOL_DATA`, which `PlanLine` would replace. -/
def RateUsable (s : MotionControl) (arg : ArgG1AndG0) (rate : ℚ) : Prop :=
  arg.retractFlag = true ∨ isPlanLineBuffFull s.motion.planner.ring = true ∨ eolData ≤ rate

/-- The moves that keep the feed rate: one that is given is not too small to be stored; one that is not is taken in
millimeters, or too small to be stored again. -/
def RateOk (s : Modal) : MoveEvent → Prop
  | .move _ _ arg =>
    let unit := s.control.motion.motionUnit
    if arg.hasF then
      (1 / 1000000 < arg.f ∨ storedRate s.control = perSecond unit arg.f) ∧
        RateUsable s.control arg (perSecond unit arg.f)
    else
      (unit = .millimeter ∨ storedRate s.control * 60 ≤ 1 / 1000000) ∧
        RateUsable s.control arg (storedRate s.control)
  | _ => True

end Defs

/-! ## The feed rate of a move -/

section Rate

/-- The rate that is stored after an attempt to plan a line with `rate`. -/
def planRate (ring : PlanRing) (retract : Bool) (rate : ℚ) : ℚ :=
  if retract = false ∧ isPlanLineBuffFull ring = false ∧ rate < eolData then 10 else rate

theorem planBlock_feedrate (m : Machine) (p : Planner) (d : Axis → ℚ) (request : ℚ × ℚ) :
    (planBlock m p d request).2.feedrate = p.feedrate := by
  unfold planBlock
  cases stuffTail m p d request <;> rfl

theorem checkFeedrate_rate (f : FeedrateAttr) :
    (checkFeedrate f).feedrate = if f.feedrate < eolData then 10 else f.feedrate := by
  unfold checkFeedrate
  split_ifs <;> rfl

theorem setFeedRate_rate (unit : MotionUnitType) (f : FeedrateAttr) (feedRate : ℚ) :
    (setFeedRate unit f feedRate).feedrate =
      if 1 / 1000000 < feedRate then perSecond unit feedRate else f.feedrate := by
  unfold setFeedRate
  split_ifs <;> rfl

/-- **The rate of a move**: it is stored, refused or not, and replaced where `PlanLine` finds it too small. -/
theorem put_rate (m : Machine) (s : CrMotion) (c : MotionGcode) :
    (putMotionCoord m s c).2.planner.feedrate.feedrate =
      planRate s.planner.ring c.retractFlag
        (if 1 / 1000000 < c.feedRate then perSecond s.motionUnit c.feedRate else s.planner.feedrate.feedrate) := by
  have hput : (putMotionCoord m s c).2.planner = (planMove m s c).2 := by
    unfold putMotionCoord
    dsimp only
    split_ifs <;> rfl
  rw [hput, ← setFeedRate_rate]
  unfold planMove planRate
  dsimp only
  cases c.retractFlag with
  | true =>
    unfold planRetract
    simp only [if_true, Bool.true_eq_false, false_and, if_false]
    split_ifs
    · rfl
    · rw [planBlock_feedrate]
  | false =>
    unfold planLine
    simp only [Bool.false_eq_true, if_false, true_and]
    by_cases hfull : isPlanLineBuffFull s.planner.ring = true
    · rw [if_pos hfull, if_neg fun h => absurd (hfull.symm.trans h.1) (by decide)]
    · rw [if_neg hfull, planBlock_feedrate, checkFeedrate_rate]
      simp only [Bool.eq_false_iff.mpr hfull, true_and]

theorem planRate_eq_iff (ring : PlanRing) (retract : Bool) (rate : ℚ) :
    planRate ring retract rate = rate ↔ retract = true ∨ isPlanLineBuffFull ring = true ∨ eolData ≤ rate := by
  unfold planRate
  split_ifs with h
  · obtain ⟨hretract, hfull, hlt⟩ := h
    have hne : (10 : ℚ) ≠ rate := by
      unfold eolData at hlt
      intro h
      linarith
    simp [hne, hretract, hfull, hlt]
  · refine iff_of_true rfl ?_
    by_contra hall
    obtain ⟨h1, h2, h3⟩ := not_or.mp hall |>.imp_right not_or.mp
    exact h ⟨Bool.eq_false_iff.mpr h1, Bool.eq_false_iff.mpr h2, not_le.mp h3⟩

theorem givenRate_iff (ring : PlanRing) (retract : Bool) (unit : MotionUnitType) (f stored : ℚ) :
    planRate ring retract (if 1 / 1000000 < f then perSecond unit f else stored) = perSecond unit f ↔
      (1 / 1000000 < f ∨ stored = perSecond unit f) ∧
        (retract = true ∨ isPlanLineBuffFull ring = true ∨ eolData ≤ perSecond unit f) := by
  by_cases hf : 1 / 1000000 < f
  · rw [if_pos hf, planRate_eq_iff]
    simp only [hf, true_or, true_and]
  · rw [if_neg hf]
    have hsmall : perSecond unit f < 10 := by
      unfold perSecond inchToMm
      cases unit <;> dsimp only <;> linarith [not_lt.mp hf]
    simp only [hf, false_or]
    constructor
    · intro h
      have hstored : stored = perSecond unit f := by
        unfold planRate at h
        split_ifs at h
        · linarith
        · exact h
      rw [← hstored] at h ⊢
      exact ⟨rfl, (planRate_eq_iff ring retract stored).mp h⟩
    · rintro ⟨hstored, husable⟩
      rw [hstored]
      exact (planRate_eq_iff ring retract _).mpr husable

theorem restoredRate_iff (ring : PlanRing) (retract : Bool) (unit : MotionUnitType) (stored : ℚ) :
    planRate ring retract (if 1 / 1000000 < stored * 60 then perSecond unit (stored * 60) else stored) = stored ↔
      (unit = .millimeter ∨ stored * 60 ≤ 1 / 1000000) ∧
        (retract = true ∨ isPlanLineBuffFull ring = true ∨ eolData ≤ stored) := by
  by_cases hs : 1 / 1000000 < stored * 60
  · rw [if_pos hs]
    cases unit with
    | millimeter =>
      have hsame : perSecond .millimeter (stored * 60) = stored := by
        unfold perSecond
        ring
      rw [hsame, planRate_eq_iff]
      simp
    | inch =>
      have hgrown : perSecond .inch (stored * 60) = 254 / 10 * stored := by
        unfold perSecond inchToMm
        ring
      have hne : planRate ring retract (254 / 10 * stored) ≠ stored := by
        unfold planRate eolData
        split_ifs with h
        · intro heq
          linarith [h.2.2]
        · intro heq
          linarith
      rw [hgrown]
      refine iff_of_false hne ?_
      rintro ⟨hunit | hsmall, -⟩
      · cases hunit
      · exact absurd hs (not_lt.mpr hsmall)
  · rw [if_neg hs, planRate_eq_iff]
    exact (and_iff_right (Or.inr (not_lt.mp hs))).symm

end Rate

/-! ## The modal feed rate -/

section Modal

theorem exec_put (m : Machine) (s : MotionControl) (kind : MoveKind) (arg : ArgG1AndG0) :
    kind.exec m s arg = execMove m s (kind.target s arg) := by
  cases kind <;> rfl

theorem target_fields (s : MotionControl) (kind : MoveKind) (arg : ArgG1AndG0) :
    (kind.target s arg).retractFlag = arg.retractFlag ∧
      (kind.target s arg).feedRate = if arg.hasF then arg.f else storedRate s * 60 := by
  cases kind <;> exact ⟨rfl, rfl⟩

/-- The stored rate after a move. -/
theorem storedRate_move (m : Machine) (s : MotionControl) (kind : MoveKind) (arg : ArgG1AndG0) :
    storedRate (moveEvent s (.move m kind arg)) =
      planRate s.motion.planner.ring arg.retractFlag
        (if 1 / 1000000 < (if arg.hasF then arg.f else storedRate s * 60) then
          perSecond s.motion.motionUnit (if arg.hasF then arg.f else storedRate s * 60)
        else storedRate s) := by
  obtain ⟨hretract, hrate⟩ := target_fields s kind arg
  have hmove : moveEvent s (.move m kind arg) = (execMove m s (kind.target s arg)).2 :=
    congrArg Prod.snd (exec_put m s kind arg)
  rw [hmove, ← hretract, ← hrate]
  exact put_rate m s.motion (kind.target s arg)

/-- **One event**: the feed rate is kept exactly by the moves that are so. -/
theorem rateKept_iff {s t : Modal} {e : MoveEvent} (hs : RateGiven s) (h : ModalStep s e t) :
    RateKept s e t ↔ RateOk s e := by
  cases e with
  | move m kind arg =>
    rw [h]
    unfold RateKept RateOk RateGiven RateUsable
    dsimp only [modalEvent]
    rw [storedRate_move]
    cases hf : arg.hasF with
    | true =>
      simp only [if_true, Option.some.injEq, forall_eq', Bool.true_eq_false, false_implies, and_true]
      exact givenRate_iff _ _ _ _ _
    | false =>
      simp only [Bool.false_eq_true, if_false, true_implies]
      rw [← restoredRate_iff]
      refine and_iff_right_of_imp fun heq v hv => ?_
      rw [heq]
      exact hs v hv
  | _ => exact Iff.rfl

theorem storedRate_unit (s : MotionControl) (unit : MotionUnitType) :
    storedRate (s.setMotionUnitType unit) = storedRate s := by
  unfold storedRate MotionControl.setMotionUnitType Motion.setMotionUnitType
  dsimp only
  split_ifs <;> rfl

/-- A move that keeps the rate leaves the one given last; the other events do not touch it. -/
theorem rateGiven_step {s t : Modal} {e : MoveEvent} (hs : RateGiven s) (h : ModalStep s e t) (hkept : RateKept s e t) :
    RateGiven t := by
  cases e with
  | move m kind arg => exact hkept.1
  | setMotionUnitType unit =>
    rw [h]
    intro v hv
    exact (storedRate_unit s.control unit).trans (hs v hv)
  | _ =>
    rw [h]
    exact hs

/-- **Modal feed rate**: the runs in which after every move the stored feed rate is the one given last, and every move
without one leaves it, are those whose moves are of these kinds. -/
theorem modal_feedrate_iff (events : List MoveEvent) (t : Modal) :
    Run (fun s e t => ModalStep s e t ∧ RateKept s e t) ⟨initControl, none⟩ events t ↔
      Run (Guarded ModalStep RateOk) ⟨initControl, none⟩ events t := by
  refine run_congr_of_invariant (I := RateGiven) (fun v hv => by cases hv) ?_ ?_ events t
  · intro s e t hs
    exact and_congr_right fun h => rateKept_iff hs h
  · intro s e t hs hstep
    exact rateGiven_step hs hstep.1 hstep.2

/-- A move of X alone. -/
def moveX (x : ℚ) (f : Option ℚ) : MoveEvent :=
  .move (steppersOf 100) .g1
    ⟨fun a => decide (a = .X), f.isSome, fun a => if a = .X then x else 0, f.getD 0⟩

/-- **A move without F in inches** multiplies the stored feed rate by 25.4. -/
theorem inch_multiplies_rate :
    ∃ t : Modal,
      Run ModalStep ⟨initControl, none⟩ [.setMotionUnitType .inch, moveX 1 (some 60), moveX 2 none] t ∧
        t.given = some (254 / 10) ∧ storedRate t.control = 254 / 10 * (254 / 10) ∧ ¬RateGiven t := by
  refine ⟨_, (((Run.nil _).snoc rfl).snoc rfl).snoc rfl, by decide +kernel, by decide +kernel, fun h => ?_⟩
  exact absurd (h (254 / 10) (by decide +kernel)) (by decide +kernel)

end Modal

/-! ## A move that is handled again -/

section Retry

/-- `GcodeHandle` for a move; `Exec` calls it again with the same text while it waits. -/
def handleMove (m : Machine) (atof : List UInt8 → ℚ) (kind : MoveKind) (cmdBuff : List UInt8) (s : MotionControl) :
    GcodeReadAction × MotionControl :=
  match kind.parse atof cmdBuff with
  | .error _ => (.parseFail, s)
  | .ok arg => kind.exec m s arg

/-- What the stepper thread does to the ring. -/
inductive RingCall
  | getNextPlanLine
  | planLineBuffClear

/-- The call of the planner. -/
def RingCall.toCall : RingCall → PlannerCall
  | .getNextPlanLine => .getNextPlanLine
  | .planLineBuffClear => .planLineBuffClear

/-- Calls of the stepper thread. -/
def ringCalls (s : MotionControl) (calls : List RingCall) : MotionControl :=
  calls.foldl (fun s c => s.call c.toCall) s

/-- An attempt, and the calls of the stepper thread before the next. -/
def attempt (m : Machine) (atof : List UInt8 → ℚ) (kind : MoveKind) (cmdBuff : List UInt8) (s : MotionControl)
    (calls : List RingCall) : MotionControl := ringCalls (handleMove m atof kind cmdBuff s).2 calls

/-- The latest coordinate, the remainder and the ring are the same. -/
def Untouched (s t : MotionControl) : Prop :=
  t.motion.latestCoord = s.motion.latestCoord ∧ t.motion.remainder = s.motion.remainder ∧
    t.motion.planner.ring = s.motion.planner.ring

/-- The feed rate is the same as well. -/
def SameOutcome (s t : MotionControl) : Prop := Untouched s t ∧ storedRate t = storedRate s

/-- No attempt was refused; or the feed rate is given, or taken in millimeters, or too small to be stored again; or it
is first replaced by 10 and grows to 10 otherwise. -/
def RetryOk (s : MotionControl) (arg : ArgG1AndG0) (refused : ℕ) : Prop :=
  refused = 0 ∨ arg.hasF = true ∨ s.motion.motionUnit = .millimeter ∨ storedRate s * 60 ≤ 1 / 1000000 ∨
    arg.retractFlag = false ∧ 254 / 10 * storedRate s < eolData ∧ (254 / 10) ^ (refused + 1) * storedRate s = 10

/-- The state with another feed rate. -/
def withRate (s : MotionControl) (rate : ℚ) : MotionControl :=
  { s with
    motion := { s.motion with
      planner := { s.motion.planner with feedrate := { s.motion.planner.feedrate with feedrate := rate } } } }

/-- The rate that an attempt stores first. -/
def nextRate (unit : MotionUnitType) (arg : ArgG1AndG0) (rate : ℚ) : ℚ :=
  let feedRate := if arg.hasF then arg.f else rate * 60
  if 1 / 1000000 < feedRate then perSecond unit feedRate else rate

theorem withRate_call (s : MotionControl) (rate : ℚ) (c : RingCall) :
    (withRate s rate).call c.toCall = withRate (s.call c.toCall) rate := by
  cases c <;> rfl

theorem withRate_ringCalls (s : MotionControl) (rate : ℚ) (calls : List RingCall) :
    ringCalls (withRate s rate) calls = withRate (ringCalls s calls) rate :=
  List.foldl_hom (fun s => withRate s rate) fun s c => withRate_call s rate c

theorem withRate_waits (s : MotionControl) (rate : ℚ) (waits : List (List RingCall)) :
    waits.foldl ringCalls (withRate s rate) = withRate (waits.foldl ringCalls s) rate :=
  List.foldl_hom (fun s => withRate s rate) fun s calls => withRate_ringCalls s rate calls

theorem setFeedRate_eq (unit : MotionUnitType) (f : FeedrateAttr) (feedRate : ℚ) :
    setFeedRate unit f feedRate =
      { f with feedrate := if 1 / 1000000 < feedRate then perSecond unit feedRate else f.feedrate } := by
  unfold setFeedRate
  split_ifs <;> rfl

theorem planMove_full {s : CrMotion} (m : Machine) (c : MotionGcode) (h : isPlanLineBuffFull s.planner.ring = true) :
    planMove m s c = (-1, { s.planner with feedrate := setFeedRate s.motionUnit s.planner.feedrate c.feedRate }) := by
  unfold planMove
  dsimp only
  cases c.retractFlag with
  | true => exact if_pos h
  | false => exact if_pos h

/-- **An attempt that is refused** leaves its feed rate, and nothing else. -/
theorem exec_full {s : MotionControl} (m : Machine) (kind : MoveKind) (arg : ArgG1AndG0)
    (h : isPlanLineBuffFull s.motion.planner.ring = true) :
    kind.exec m s arg = (.execWait, withRate s (nextRate s.motion.motionUnit arg (storedRate s))) := by
  have hrate := (target_fields s kind arg).2
  rw [exec_put]
  unfold execMove MotionControl.putMotionCoord Motion.putMotionCoord
  rw [planMove_full m _ h, setFeedRate_eq, hrate]
  rfl

/-- The calls of the stepper thread keep the stored rate and the unit. -/
theorem ringCalls_keeps (s : MotionControl) (calls : List RingCall) :
    storedRate (ringCalls s calls) = storedRate s ∧ (ringCalls s calls).motion.motionUnit = s.motion.motionUnit := by
  unfold ringCalls
  induction calls generalizing s with
  | nil => exact ⟨rfl, rfl⟩
  | cons c calls ih =>
    obtain ⟨hrate, hunit⟩ := ih (s.call c.toCall)
    rw [List.foldl_cons, hrate, hunit]
    cases c <;> exact ⟨rfl, rfl⟩

/-- The ring is full at every attempt. -/
def AllRefused (m : Machine) (atof : List UInt8 → ℚ) (kind : MoveKind) (cmdBuff : List UInt8) :
    MotionControl → List (List RingCall) → Prop :=
  AllSteps (attempt m atof kind cmdBuff) fun s _ => isPlanLineBuffFull s.motion.planner.ring = true

theorem handleMove_eq {atof : List UInt8 → ℚ} {kind : MoveKind} {cmdBuff : List UInt8} {arg : ArgG1AndG0}
    (hparse : kind.parse atof cmdBuff = .ok arg) (m : Machine) (s : MotionControl) :
    handleMove m atof kind cmdBuff s = kind.exec m s arg := by
  unfold handleMove
  rw [hparse]

/-- The attempts that are refused, beside the calls of the stepper thread. -/
theorem attempts_eq {m : Machine} {atof : List UInt8 → ℚ} {kind : MoveKind} {cmdBuff : List UInt8} {arg : ArgG1AndG0}
    (hparse : kind.parse atof cmdBuff = .ok arg) :
    ∀ {waits : List (List RingCall)} {s : MotionControl}, AllRefused m atof kind cmdBuff s waits →
      waits.foldl (attempt m atof kind cmdBuff) s =
        withRate (waits.foldl ringCalls s) ((nextRate s.motion.motionUnit arg)^[waits.length] (storedRate s))
  | [], _, _ => rfl
  | calls :: waits, s, h => by
    obtain ⟨hfull, hrest⟩ := h
    have hattempt : attempt m atof kind cmdBuff s calls =
        withRate (ringCalls s calls) (nextRate s.motion.motionUnit arg (storedRate s)) := by
      unfold attempt
      rw [handleMove_eq hparse, exec_full m kind arg hfull, withRate_ringCalls]
    have hunit : (withRate (ringCalls s calls) (nextRate s.motion.motionUnit arg (storedRate s))).motion.motionUnit =
        s.motion.motionUnit := (ringCalls_keeps s calls).2
    rw [List.foldl_cons, List.foldl_cons, attempts_eq hparse hrest, hattempt, withRate_waits, hunit,
      List.length_cons, Function.iterate_succ_apply]
    rfl

/-- A line from the latest coordinate, with a rate. -/
def planWith (m : Machine) (s : MotionControl) (coord : Axis → ℚ) (retract : Bool) (rate : ℚ) : ℤ × Planner :=
  let planner := { s.motion.planner with feedrate := { s.motion.planner.feedrate with feedrate := rate } }
  let current := inMm s.motion.motionUnit s.motion.latestCoord
  let target := inMm s.motion.motionUnit coord
  if retract then planRetract m planner current target else planLine m planner current target

theorem checkFeedrate_eq (f : FeedrateAttr) (rate : ℚ) : checkFeedrate { f with feedrate := rate } =
    { f with feedrate := if rate < eolData then 10 else rate } := by
  unfold checkFeedrate
  split_ifs <;> rfl

theorem planLine_rate {m : Machine} {p : Planner} {current target : Axis → ℚ} {f f' : FeedrateAttr}
    (hroom : isPlanLineBuffFull p.ring = false) (h : checkFeedrate f = checkFeedrate f') :
    planLine m { p with feedrate := f } current target = planLine m { p with feedrate := f' } current target := by
  unfold planLine
  dsimp only
  rw [hroom, h]
  rfl

/-- A move depends on the rate only through the rate that its line is planned with. -/
theorem exec_withRate {s : MotionControl} (m : Machine) (kind : MoveKind) (arg : ArgG1AndG0) {rate rate' : ℚ}
    (hroom : isPlanLineBuffFull s.motion.planner.ring = false)
    (h : planRate s.motion.planner.ring arg.retractFlag (nextRate s.motion.motionUnit arg rate) =
      planRate s.motion.planner.ring arg.retractFlag (nextRate s.motion.motionUnit arg rate')) :
    kind.exec m (withRate s rate) arg = kind.exec m (withRate s rate') arg := by
  have hplan : ∀ rate, planMove m (withRate s rate).motion (kind.target (withRate s rate) arg) =
      planWith m s (kind.target s arg).coord arg.retractFlag (nextRate s.motion.motionUnit arg rate) := by
    intro rate
    obtain ⟨hretract, hrate⟩ := target_fields (withRate s rate) kind arg
    unfold planMove planWith
    rw [hretract, hrate, setFeedRate_eq]
    cases kind <;> rfl
  have hsame : planWith m s (kind.target s arg).coord arg.retractFlag (nextRate s.motion.motionUnit arg rate) =
      planWith m s (kind.target s arg).coord arg.retractFlag (nextRate s.motion.motionUnit arg rate') := by
    cases hr : arg.retractFlag with
    | true =>
      rw [hr] at h
      have heq : nextRate s.motion.motionUnit arg rate = nextRate s.motion.motionUnit arg rate' := by
        simpa only [planRate, Bool.true_eq_false, false_and, if_false] using h
      rw [heq]
    | false =>
      rw [hr] at h
      unfold planWith
      refine planLine_rate hroom ?_
      rw [checkFeedrate_eq, checkFeedrate_eq]
      simp only [planRate, hroom, true_and] at h
      rw [h]
  have hcoord : ∀ rate, (kind.target (withRate s rate) arg).coord = (kind.target s arg).coord := by
    intro rate
    cases kind <;> rfl
  rw [exec_put, exec_put]
  unfold execMove MotionControl.putMotionCoord Motion.putMotionCoord
  rw [hplan rate, hplan rate', hsame, hcoord, hcoord, (target_fields _ kind arg).1, (target_fields _ kind arg).1]
  rfl

theorem nextRate_given (unit : MotionUnitType) {arg : ArgG1AndG0} (h : arg.hasF = true) (rate : ℚ) :
    nextRate unit arg (nextRate unit arg rate) = nextRate unit arg rate := by
  unfold nextRate
  simp only [h, if_true]
  split_ifs <;> rfl

theorem nextRate_restored {unit : MotionUnitType} {arg : ArgG1AndG0} {rate : ℚ} (h : arg.hasF = false)
    (hs : unit = .millimeter ∨ rate * 60 ≤ 1 / 1000000) : nextRate unit arg rate = rate := by
  unfold nextRate
  simp only [h, Bool.false_eq_true, if_false]
  split_ifs with hbig
  · obtain rfl | hsmall := hs
    · unfold perSecond
      ring
    · exact absurd hbig (not_lt.mpr hsmall)
  · rfl

/-- In inches every attempt multiplies the rate. -/
theorem nextRate_inch {arg : ArgG1AndG0} {rate : ℚ} (h : arg.hasF = false) (hs : 1 / 1000000 < rate * 60) (k : ℕ) :
    (nextRate .inch arg)^[k] rate = (254 / 10) ^ k * rate := by
  induction k with
  | zero => simp
  | succ k ih =>
    have hpow : (1 : ℚ) ≤ (254 / 10) ^ k := one_le_pow₀ (by norm_num)
    have hbig : 1 / 1000000 < (254 / 10) ^ k * rate * 60 := by
      calc 1 / 1000000 < rate * 60 := hs
        _ ≤ (254 / 10) ^ k * (rate * 60) := le_mul_of_one_le_left (by linarith) hpow
        _ = (254 / 10) ^ k * rate * 60 := by ring
    rw [Function.iterate_succ_apply', ih]
    unfold nextRate
    simp only [h, Bool.false_eq_true, if_false, if_pos hbig]
    unfold perSecond inchToMm
    ring

/-- **The rates of the two**: with and without refused attempts the line has the same rate exactly in these cases. -/
theorem retry_rate_iff {s : MotionControl} {ring : PlanRing} (arg : ArgG1AndG0)
    (hroom : isPlanLineBuffFull ring = false) (k : ℕ) :
    planRate ring arg.retractFlag ((nextRate s.motion.motionUnit arg)^[k + 1] (storedRate s)) =
        planRate ring arg.retractFlag (nextRate s.motion.motionUnit arg (storedRate s)) ↔ RetryOk s arg k := by
  unfold RetryOk
  by_cases hk : k = 0
  · rw [hk]
    simp
  by_cases hf : arg.hasF = true
  · have hfixed := Function.iterate_fixed (nextRate_given s.motion.motionUnit hf (storedRate s)) k
    rw [Function.iterate_succ_apply, hfixed]
    simp [hf]
  by_cases hs : s.motion.motionUnit = .millimeter ∨ storedRate s * 60 ≤ 1 / 1000000
  · have hfixed := nextRate_restored (Bool.eq_false_iff.mpr hf) hs
    rw [Function.iterate_fixed hfixed, hfixed]
    refine iff_of_true rfl (Or.inr (Or.inr ?_))
    obtain h | h := hs
    · exact Or.inl h
    · exact Or.inr (Or.inl h)
  obtain ⟨hunit, hbig⟩ := not_or.mp hs
  have hinch : s.motion.motionUnit = .inch := by
    cases hu : s.motion.motionUnit with
    | inch => rfl
    | millimeter => exact absurd hu hunit
  have hone := nextRate_inch (Bool.eq_false_iff.mpr hf) (not_le.mp hbig) 1
  rw [Function.iterate_one, pow_one] at hone
  rw [hinch, nextRate_inch (Bool.eq_false_iff.mpr hf) (not_le.mp hbig), hone]
  simp only [hk, hf, hbig, false_or, reduceCtorEq, Bool.false_eq_true]
  -- after a refused attempt the rate is not replaced any more
  have hgrown : 254 / 10 * storedRate s < (254 / 10) ^ (k + 1) * storedRate s ∧
      eolData ≤ (254 / 10) ^ (k + 1) * storedRate s := by
    have hpos : 1 / 60000000 < storedRate s := by linarith [not_le.mp hbig]
    have hpow : (254 / 10 : ℚ) ^ 2 ≤ (254 / 10) ^ (k + 1) := pow_le_pow_right₀ (by norm_num) (by omega)
    have hle := mul_le_mul_of_nonneg_right hpow (show 0 ≤ storedRate s by linarith)
    unfold eolData
    constructor <;> nlinarith
  rw [(planRate_eq_iff ring arg.retractFlag _).mpr (Or.inr (Or.inr hgrown.2))]
  unfold planRate
  simp only [hroom, true_and]
  split_ifs with h
  · exact ⟨fun heq => ⟨h.1, h.2, heq⟩, fun heq => heq.2.2⟩
  · exact iff_of_false hgrown.1.ne' fun heq => h ⟨heq.1, heq.2.1⟩

theorem ringCalls_waits (waits : List (List RingCall)) (s : MotionControl) :
    storedRate (waits.foldl ringCalls s) = storedRate s ∧
      (waits.foldl ringCalls s).motion.motionUnit = s.motion.motionUnit := by
  induction waits generalizing s with
  | nil => exact ⟨rfl, rfl⟩
  | cons calls waits ih =>
    obtain ⟨hrate, hunit⟩ := ih (ringCalls s calls)
    rw [List.foldl_cons, hrate, hunit]
    exact ringCalls_keeps s calls

/-- **Retry**: an attempt for which there is no room leaves the coordinate, the remainder and the ring; and the state
after refused attempts and one that succeeds is that after the latter alone exactly in the cases of `RetryOk`. -/
theorem retry_transparent_iff {m : Machine} {atof : List UInt8 → ℚ} {kind : MoveKind} {cmdBuff : List UInt8}
    {arg : ArgG1AndG0} (hparse : kind.parse atof cmdBuff = .ok arg) {s : MotionControl} {waits : List (List RingCall)}
    (hfull : AllRefused m atof kind cmdBuff s waits)
    (hok : (handleMove m atof kind cmdBuff (waits.foldl (attempt m atof kind cmdBuff) s)).1 = .execOk) :
    (∀ u : MotionControl, isPlanLineBuffFull u.motion.planner.ring = true →
      (handleMove m atof kind cmdBuff u).1 = .execWait ∧ Untouched u (handleMove m atof kind cmdBuff u).2) ∧
      (SameOutcome (handleMove m atof kind cmdBuff (waits.foldl ringCalls s)).2
          (handleMove m atof kind cmdBuff (waits.foldl (attempt m atof kind cmdBuff) s)).2 ↔
        RetryOk s arg waits.length) := by
  refine ⟨fun u hu => ?_, ?_⟩
  · rw [handleMove_eq hparse, exec_full m kind arg hu]
    exact ⟨rfl, rfl, rfl, rfl⟩
  obtain ⟨hrate, hunit⟩ := ringCalls_waits waits s
  rw [attempts_eq hparse hfull, handleMove_eq hparse] at hok
  rw [attempts_eq hparse hfull, handleMove_eq hparse, handleMove_eq hparse]
  generalize hready : waits.foldl ringCalls s = ready at *
  -- an attempt that succeeds had room
  have hroom : isPlanLineBuffFull ready.motion.planner.ring = false := by
    by_contra hnot
    have hready' : isPlanLineBuffFull (withRate ready ((nextRate s.motion.motionUnit arg)^[waits.length]
        (storedRate s))).motion.planner.ring = true := Bool.not_eq_false _ ▸ hnot
    rw [exec_full m kind arg hready'] at hok
    cases hok
  have hstored : ∀ u : MotionControl, storedRate (kind.exec m u arg).2 =
      planRate u.motion.planner.ring arg.retractFlag (nextRate u.motion.motionUnit arg (storedRate u)) :=
    fun u => storedRate_move m u kind arg
  rw [← retry_rate_iff arg hroom waits.length, Function.iterate_succ_apply']
  constructor
  · intro h
    have hsame := h.2
    rw [hstored, hstored, hrate, hunit] at hsame
    exact hunit ▸ hsame
  · intro h
    rw [← hunit, ← hrate] at h ⊢
    rw [exec_withRate m kind arg hroom h]
    exact ⟨⟨rfl, rfl, rfl⟩, rfl⟩

/-- A full ring: moves of one unit each. -/
def fullRing (unit : MotionUnitType) : MotionControl :=
  (.setMotionUnitType unit :: (List.range 15).map fun i => moveX (i + 1) (some 60)).foldl moveEvent initControl

/-- The text of a move without F, and the value in it. -/
def moveText : List UInt8 := text "G1 X20"

def valueOf : List UInt8 → ℚ := fun _ => 20

theorem retry_transparent_millimeter :
    AllRefused (steppersOf 100) valueOf .g1 moveText (fullRing .millimeter) [[], [.getNextPlanLine]] ∧
      SameOutcome
        (handleMove (steppersOf 100) valueOf .g1 moveText
          ([[], [.getNextPlanLine]].foldl ringCalls (fullRing .millimeter))).2
        (handleMove (steppersOf 100) valueOf .g1 moveText
          ([[], [.getNextPlanLine]].foldl (attempt (steppersOf 100) valueOf .g1 moveText)
            (fullRing .millimeter))).2 := by
  have hparse : MoveKind.g1.parse valueOf moveText = .ok (ArgG1AndG0.zero.set valueOf (text "X20")) := rfl
  have hfull : AllRefused (steppersOf 100) valueOf .g1 moveText (fullRing .millimeter) [[], [.getNextPlanLine]] := by
    unfold AllRefused
    decide +kernel
  have hunit : (fullRing .millimeter).motion.motionUnit = .millimeter := by decide +kernel
  exact ⟨hfull, (retry_transparent_iff hparse hfull (by decide +kernel)).2.mpr (Or.inr (Or.inr (Or.inl hunit)))⟩

/-- **A retry in inches**: each attempt multiplies the feed rate once more. -/
theorem retry_multiplies_rate :
    AllRefused (steppersOf 100) valueOf .g1 moveText (fullRing .inch) [[.getNextPlanLine]] ∧
      storedRate (fullRing .inch) = 254 / 10 ∧
      storedRate (handleMove (steppersOf 100) valueOf .g1 moveText
        ([[.getNextPlanLine]].foldl ringCalls (fullRing .inch))).2 = (254 / 10) ^ 2 ∧
      storedRate (handleMove (steppersOf 100) valueOf .g1 moveText
        ([[.getNextPlanLine]].foldl (attempt (steppersOf 100) valueOf .g1 moveText) (fullRing .inch))).2 =
          (254 / 10) ^ 3 ∧
      ¬SameOutcome
        (handleMove (steppersOf 100) valueOf .g1 moveText ([[.getNextPlanLine]].foldl ringCalls (fullRing .inch))).2
        (handleMove (steppersOf 100) valueOf .g1 moveText
          ([[.getNextPlanLine]].foldl (attempt (steppersOf 100) valueOf .g1 moveText) (fullRing .inch))).2 := by
  refine ⟨?_, by decide +kernel, by decide +kernel, by decide +kernel, fun h => absurd h.2 (by decide +kernel)⟩
  unfold AllRefused
  decide +kernel

end Retry

end Cxsw.Gcode
