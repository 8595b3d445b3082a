import Cxsw.CrGcode.MoveCommands
import Cxsw.CrModel.FloatErrors

/-!
# Cxsw.CrGcode.UnitMoves — moves and the unit (`CrGcode/GcodeHandle/GcodeCmd/CmdG`, `CrModel/CrMotion.cpp`)

`G20` and `G21` convert `LatestCoord`.  A move takes it in the unit and stores it in millimeters.  The conversions
round, as do the moves.

* `placedEvent`: a command, with the last target that was accepted and the steps of every line; `move_exact`: without
  rounding it is that of the planner in rational numbers.
* `FloatRange.correctZ_near`, `correctAt_near`: an accepted move ends within a step of its target.
* `PlacedInv.step`: so does every run of moves in millimeters.
* `unit_consistent`: and where every coordinate comes back from its inches, the program without the changes of the unit
  plans the same lines.
* `inch_misplaces`: moves in inches.
-/

namespace Cxsw.Gcode

open Cxsw.Motion

/-! ## The commands -/

section Defs

/-- The coordinates and the modes, the last target that was accepted, in millimeters, and the steps of the lines that
were planned. -/
structure Placed where
  motion : FloatMotion
  isRelativeMotion : Bool
  isRelativeExtrude : Bool
  target : Option (Axis → ℚ)
  path : List (Axis → ℤ)

/-- The mode that the command asks for an axis. -/
def MoveKind.relative (s : Placed) : MoveKind → Axis → Bool
  | .g0, _ => s.isRelativeExtrude
  | .g1, .E => s.isRelativeExtrude
  | .g1, _ => s.isRelativeMotion

/-- The target of the command. -/
def MoveKind.targetAt (R : Arithmetic) (s : Placed) (b : Attempt) (arg : ArgG1AndG0) (kind : MoveKind) :
    MotionGcode where
  retractFlag := arg.retractFlag
  coord := fun a =>
    if arg.has a then
      if kind.relative s a then R.op (s.motion.latestCoord a + arg.coord a) else arg.coord a
    else s.motion.latestCoord a
  feedRate := if arg.hasF then arg.f else R.op (b.planner.feedrate.feedrate * 60)

/-- A command of a program.  `G20` and `G21` set the unit, `G90`, `G91`, `M82` and `M83` the modes. -/
inductive UnitEvent
  | move (b : Attempt) (kind : MoveKind) (arg : ArgG1AndG0)
  | setMotionUnitType (unit : MotionUnitType)
  | setRelativeMotion
  | setAbsluteMotion
  | setRelativeExtrude
  | setAbsluteExtrude

/-- The state after a command. -/
def placedEvent (R : Arithmetic) (s : Placed) : UnitEvent → Placed
  | .move b kind arg =>
    let c := kind.targetAt R s b arg
    let motion := s.motion.put R b c
    if b.Accepts then
      { s with
        motion := motion
        target := some fun a => inMmAt R s.motion.motionUnit (c.coord a)
        path := s.path ++ [fun a => motion.plannedSteps a - s.motion.plannedSteps a] }
    else { s with motion := motion }
  | .setMotionUnitType unit => { s with motion := s.motion.setMotionUnitType R unit }
  | .setRelativeMotion => { s with isRelativeMotion := true }
  | .setAbsluteMotion => { s with isRelativeMotion := false }
  | .setRelativeExtrude => { s with isRelativeExtrude := true }
  | .setAbsluteExtrude => { s with isRelativeExtrude := false }

/-- The same as a relation. -/
def PlacedStep (s : Placed) (e : UnitEvent) (t : Placed) : Prop := t = placedEvent .single s e

/-- The coordinate of an axis, in millimeters. -/
def Placed.place (s : Placed) (a : Axis) : ℚ := inMmAt .single s.motion.motionUnit (s.motion.latestCoord a)

/-- A coordinate is the target up to a step, as `FLOAT` adds one. -/
def WithinStep (n : ℕ) (target x : ℚ) : Prop :=
  Arithmetic.single.op (target - mmPerStepsAt .single n) ≤ x ∧
    x ≤ Arithmetic.single.op (target + mmPerStepsAt .single n)

/-- Every axis is within a step of the last accepted target. -/
def AtTarget (n : Axis → ℕ) (s : Placed) : Prop :=
  ∀ target, s.target = some target → ∀ a, WithinStep (n a) (target a) (s.place a)

/-- A way that `CorrectTargetCoordinate` leaves out. -/
def LeftOut (current target : ℚ) : Axis → Prop
  | .E => |disAt .single current target| < minEAt .single
  | .Z => |Arithmetic.single.op (current - target)| ≤ eolAt .single
  | _ => False

/-- A way that an axis can follow: not too many steps, and at most one if it is left out. -/
def Reachable (n : ℕ) (current target : ℚ) (a : Axis) : Prop :=
  FloatRange n current target ∧ (LeftOut current target a → WithinStep n target current)

/-- A coordinate that is converted to inches and back is the same. -/
def Survives (x : ℚ) : Prop := inMmAt .single .inch (mmToInchAt .single x) = x

/-- **The condition of a command**: a move is made in millimeters, and over a way that its axes can follow; a change to
inches finds coordinates that come back from them. -/
def UnitOk (n : Axis → ℕ) (s : Placed) : UnitEvent → Prop
  | .move b kind arg =>
    s.motion.motionUnit = .millimeter ∧
      ∀ attr ∈ b.taken, ∀ a, (attr a).stepsPerMm = n a ∧
        Reachable (n a) (s.motion.latestCoord a) ((kind.targetAt .single s b arg).coord a) a
  | .setMotionUnitType unit =>
    unit = .inch ∧ s.motion.motionUnit = .millimeter → ∀ a, Survives (s.motion.latestCoord a)
  | _ => True

/-- The unit after a command of a program. -/
def nextUnit (unit : MotionUnitType) : UnitEvent → MotionUnitType
  | .setMotionUnitType unit => unit
  | _ => unit

/-- A value of the program in millimeters, as it is read. -/
def inMmText (unit : MotionUnitType) (x : ℚ) : ℚ :=
  match unit with
  | .inch => Arithmetic.single.assign (x * (254 / 10))
  | .millimeter => x

/-- A command in millimeters; the changes of the unit are left out. -/
def convertEvent (unit : MotionUnitType) : UnitEvent → List UnitEvent
  | .move b kind arg =>
    [.move b kind { arg with coord := fun a => inMmText unit (arg.coord a), f := inMmText unit arg.f }]
  | .setMotionUnitType _ => []
  | e => [e]

/-- The program in millimeters. -/
def convert : MotionUnitType → List UnitEvent → List UnitEvent
  | _, [] => []
  | unit, e :: es => convertEvent unit e ++ convert (nextUnit unit e) es

/-- The state with its coordinate in millimeters. -/
def Placed.inMillimeters (s : Placed) : Placed :=
  { s with motion := { s.motion with latestCoord := s.place, motionUnit := .millimeter } }

/-- The same lines, and the same place. -/
def SamePath (s t : Placed) : Prop := t = s.inMillimeters

/-- After power-on. -/
def startPlaced : Placed := ⟨startTracking.floats, false, false, none, []⟩

end Defs

/-! ## Without rounding -/

theorem targetAt_exact (s : MotionControl) (p : Placed) (m : Machine) (kind : MoveKind) (arg : ArgG1AndG0)
    (hcoord : p.motion.latestCoord = s.motion.latestCoord) (hmotion : p.isRelativeMotion = s.isRelativeMotion)
    (hextrude : p.isRelativeExtrude = s.isRelativeExtrude) :
    kind.targetAt .exact p ⟨m, s.motion.planner⟩ arg = kind.target s arg := by
  have hrelative : ∀ a, kind.relative p a =
      match kind, a with
      | .g0, _ => s.isRelativeExtrude
      | .g1, .E => s.isRelativeExtrude
      | .g1, _ => s.isRelativeMotion := by
    intro a
    unfold MoveKind.relative
    rw [hmotion, hextrude]
  unfold MoveKind.targetAt
  rw [hcoord]
  simp only [hrelative]
  cases kind with
  | g0 => rfl
  | g1 =>
    unfold MoveKind.target g1Target moveTarget
    simp only [MotionGcode.mk.injEq, true_and]
    refine ⟨funext fun a => ?_, rfl⟩
    cases a <;> rfl

/-- **Without rounding** a move is that of the executors, in the planner that it finds. -/
theorem move_exact (s : MotionControl) (steps : Axis → ℤ) (p : Placed) (m : Machine) (kind : MoveKind)
    (arg : ArgG1AndG0) (hp : p.motion = Tracking.floats ⟨s.motion, steps⟩)
    (hmotion : p.isRelativeMotion = s.isRelativeMotion) (hextrude : p.isRelativeExtrude = s.isRelativeExtrude) :
    ∃ t : Tracking, t.motion = (kind.exec m s arg).2.motion ∧
      (placedEvent .exact p (.move ⟨m, s.motion.planner⟩ kind arg)).motion = t.floats := by
  refine ⟨motionEvent ⟨s.motion, steps⟩ (.putMotionCoord m (kind.target s arg)), ?_, ?_⟩
  · rw [exec_put]
    rfl
  · have hput := put_exact ⟨s.motion, steps⟩ ⟨m, s.motion.planner⟩ (kind.target s arg)
    have hcoord : p.motion.latestCoord = s.motion.latestCoord := by rw [hp]; rfl
    unfold placedEvent
    dsimp only
    rw [targetAt_exact s p m kind arg hcoord hmotion hextrude, hp, ← hput]
    split_ifs <;> rfl

/-! ## One move -/

section Move

variable {n : ℕ} {current target x : ℚ} {a : Axis}

theorem withinStep_of_near (h0 : 0 < n) (hn : n ≤ 2 ^ 24) (hx : Arithmetic.single.op x = x)
    (h : |(x - target) * n| ≤ 31 / 32) : WithinStep n target x := by
  have hn0 : (0 : ℚ) < n := Nat.cast_pos.mpr h0
  obtain ⟨-, -, hmm⟩ := mmPerSteps_bounds h0 hn
  obtain ⟨hlow, hhigh⟩ := abs_le.mp h
  constructor
  · refine op_le_of_grid hx ?_
    have hle : (target - x) * n ≤ mmPerStepsAt .single n * n := by linarith
    linarith [le_of_mul_le_mul_right hle hn0]
  · have hle : (x - target) * n ≤ mmPerStepsAt .single n * n := by linarith
    have hmono := Arithmetic.single.op_le (show x ≤ target + mmPerStepsAt .single n by
      linarith [le_of_mul_le_mul_right hle hn0])
    rwa [hx] at hmono

/-- **X, Y or E** of an accepted move. -/
theorem correctAt_near (ha : a ≠ .Z) (hx : Arithmetic.single.op current = current)
    (h : Reachable n current target a) : WithinStep n target (correctAt .single n current target a) := by
  obtain ⟨hrange, hleft⟩ := h
  have hn : n ≤ 2 ^ 24 := hrange.fine.trans (by norm_num)
  by_cases hcut : a = .E ∧ |disAt .single current target| < minEAt .single
  · have hsame : correctAt .single n current target a = current := by
      unfold correctAt
      rw [correctStepsAt_leftOut hcut, Int.cast_zero, Arithmetic.op_zero, zero_mul, Arithmetic.op_zero, add_zero, hx]
    rw [hsame]
    obtain ⟨rfl, hlt⟩ := hcut
    exact hleft hlt
  · obtain ⟨hnear, hle⟩ := hrange.correctSteps_error (a := a) fun hE hlt => hcut ⟨hE, hlt⟩
    have hadd := addSteps_error hrange.pos hn (hle.trans (by norm_num)) current
    have hk : |((correctStepsAt .single current target n a : ℤ) : ℚ)| ≤ 2 ^ 18 + 2 := by exact_mod_cast hle
    refine withinStep_of_near hrange.pos hn (single_op_op _) ?_
    have hsplit := abs_add_le ((correctAt .single n current target a - current) * n -
      correctStepsAt .single current target n a) (correctStepsAt .single current target n a - (target - current) * n)
    rw [show (correctAt .single n current target a - current) * n - correctStepsAt .single current target n a +
      (correctStepsAt .single current target n a - (target - current) * n) =
        (correctAt .single n current target a - target) * n by ring] at hsplit
    change |(correctAt .single n current target a - current) * n - _| ≤ _ at hadd
    linarith [hrange.place]

/-- **Z** of an accepted move. -/
theorem correctZ_near {r : Remainder} (hr : CarryOk r) (hold : r.oldTarget = current)
    (h : Reachable n current target .Z) :
    WithinStep n target (correctZAt .single n r current target).1 ∧
      CarryOk (correctZAt .single n r current target).2 := by
  obtain ⟨hrange, hleft⟩ := h
  unfold correctZAt
  by_cases hmoves : eolAt .single < |Arithmetic.single.op (current - target)|
  · rw [if_pos hmoves]
    dsimp only
    obtain ⟨hfloat, hgrown, -⟩ := grownAt_error hrange hr hmoves
    obtain ⟨hk, hkept, hbelow⟩ := tempStepAt_one hfloat hgrown
    set d := grownAt .single r.deltamm (tempFAt .single n current target)
    have hopk : Arithmetic.single.op (tempStepAt .single d) = tempStepAt .single d :=
      op_intCast (hk.trans (by norm_num))
    rw [hopk]
    refine ⟨?_, ?_⟩
    · -- no step, or one up or down
      obtain ⟨hmm0, -, -⟩ := mmPerSteps_bounds hrange.pos (hrange.fine.trans (by norm_num))
      have hmm : Arithmetic.single.op (mmPerStepsAt .single n) = mmPerStepsAt .single n := single_op_op _
      obtain ⟨hlow, hhigh⟩ := abs_le.mp hk
      obtain hk | hk | hk : tempStepAt .single d = -1 ∨ tempStepAt .single d = 0 ∨ tempStepAt .single d = 1 := by
        omega
      · rw [hk, Int.cast_neg, Int.cast_one, neg_one_mul, Arithmetic.single.op_neg, hmm, ← sub_eq_add_neg]
        exact ⟨le_rfl, Arithmetic.single.op_le (by linarith)⟩
      · rw [hk, Int.cast_zero, zero_mul, Arithmetic.op_zero, add_zero]
        exact ⟨Arithmetic.single.op_le (by linarith), Arithmetic.single.op_le (by linarith)⟩
      · rw [hk, Int.cast_one, one_mul, hmm]
        exact ⟨Arithmetic.single.op_le (by linarith), le_rfl⟩
    · refine ⟨single_op_op _, ?_⟩
      rw [hkept]
      exact hbelow
  · rw [if_neg hmoves]
    dsimp only
    rw [hold]
    exact ⟨hleft (not_lt.mp hmoves), hr⟩

end Move

/-! ## Runs -/

section Runs

variable {n : Axis → ℕ} {s t : Placed}

/-- **The coordinate follows the moves**: it is a `FLOAT` within a step of the last target, `OldTarget.Z` is that of Z,
and Z carries less than a step. -/
structure PlacedInv (n : Axis → ℕ) (s : Placed) : Prop where
  float : s.motion.IsFloat .single
  carry : CarryOk s.motion.remainder
  old : s.motion.remainder.oldTarget = s.place .Z
  near : AtTarget n s

theorem PlacedInv.move (hs : PlacedInv n s) {b : Attempt} {kind : MoveKind} {arg : ArgG1AndG0}
    (hok : UnitOk n s (.move b kind arg)) (hacc : b.Accepts) :
    PlacedInv n (placedEvent .single s (.move b kind arg)) := by
  obtain ⟨hunit, hattr⟩ := hok
  obtain ⟨attr, htaken⟩ := taken_of_accepts hacc
  have hn := hattr attr htaken
  have hplace : ∀ a, s.place a = s.motion.latestCoord a := by
    intro a
    unfold Placed.place
    rw [hunit]
    rfl
  set c := kind.targetAt .single s b arg with hc
  obtain ⟨hz, hr⟩ := @FloatMotion.put_z .single s.motion b c attr htaken
  rw [hunit, (hn .Z).1] at hz hr
  change _ = (correctZAt .single (n .Z) s.motion.remainder (s.motion.latestCoord .Z) (c.coord .Z)).1 at hz
  change _ = (correctZAt .single (n .Z) s.motion.remainder (s.motion.latestCoord .Z) (c.coord .Z)).2 at hr
  obtain ⟨hnear, hcarry⟩ := correctZ_near hs.carry (hs.old.trans (hplace .Z)) (hn .Z).2
  have hold := (@correctZAt_isFloat (n .Z) s.motion.remainder (s.motion.latestCoord .Z) (c.coord .Z)
    hs.float.oldTarget).2
  have hevent : placedEvent .single s (.move b kind arg) =
      { s with
        motion := s.motion.put .single b c
        target := some fun a => inMmAt .single s.motion.motionUnit (c.coord a)
        path := s.path ++ [fun a => (s.motion.put .single b c).plannedSteps a - s.motion.plannedSteps a] } :=
    if_pos hacc
  have hafter : ∀ a, (placedEvent .single s (.move b kind arg)).place a = (s.motion.put .single b c).latestCoord a := by
    intro a
    rw [hevent]
    unfold Placed.place
    dsimp only
    rw [FloatMotion.put_motionUnit, hunit]
    rfl
  refine ⟨?_, ?_, ?_, ?_⟩
  · rw [hevent]
    exact hs.float.put
  · rw [hevent]
    dsimp only
    rw [hr]
    exact hcarry
  · rw [hafter, hevent]
    dsimp only
    rw [hr, hz, hold]
  · intro target htarget a
    rw [hafter]
    rw [hevent, hunit] at htarget
    obtain rfl := Option.some.inj htarget
    by_cases ha : a = .Z
    · rw [ha, hz]
      exact hnear
    · have hrounded := @FloatMotion.put_rounded .single s.motion b c attr a htaken ha
      rw [hunit, (hn a).1] at hrounded
      rw [hrounded]
      exact correctAt_near ha (hs.float.latestCoord a) (hn a).2

theorem place_unit (s : Placed) (unit : MotionUnitType) (hok : UnitOk n s (.setMotionUnitType unit)) (a : Axis) :
    (placedEvent .single s (.setMotionUnitType unit)).place a = s.place a := by
  unfold placedEvent FloatMotion.setMotionUnitType Placed.place
  dsimp only
  split_ifs with hsame
  · rfl
  · cases unit with
    | millimeter =>
      cases hunit : s.motion.motionUnit with
      | inch => rfl
      | millimeter => exact absurd hunit hsame
    | inch =>
      cases hunit : s.motion.motionUnit with
      | inch => exact absurd hunit hsame
      | millimeter => exact hok ⟨rfl, hunit⟩ a

/-- **Step lemma**: every command that meets the condition keeps the invariant. -/
theorem PlacedInv.step (hs : PlacedInv n s) {e : UnitEvent} (hok : UnitOk n s e) :
    PlacedInv n (placedEvent .single s e) := by
  cases e with
  | move b kind arg =>
    by_cases hacc : b.Accepts
    · exact hs.move hok hacc
    · have hevent : placedEvent .single s (.move b kind arg) = s := by
        unfold placedEvent
        dsimp only
        rw [if_neg hacc, FloatMotion.put_refused hacc]
      rw [hevent]
      exact hs
  | setMotionUnitType unit =>
    have hplace := place_unit s unit hok
    have hrest : (placedEvent .single s (.setMotionUnitType unit)).motion.remainder = s.motion.remainder := by
      unfold placedEvent FloatMotion.setMotionUnitType
      dsimp only
      split_ifs <;> rfl
    refine ⟨hs.float.setMotionUnitType unit, hrest ▸ hs.carry, ?_, fun target htarget a => ?_⟩
    · rw [hrest, hplace]
      exact hs.old
    · rw [hplace]
      exact hs.near target htarget a
  | setRelativeMotion => exact ⟨hs.float, hs.carry, hs.old, hs.near⟩
  | setAbsluteMotion => exact ⟨hs.float, hs.carry, hs.old, hs.near⟩
  | setRelativeExtrude => exact ⟨hs.float, hs.carry, hs.old, hs.near⟩
  | setAbsluteExtrude => exact ⟨hs.float, hs.carry, hs.old, hs.near⟩

theorem placedInv_start (n : Axis → ℕ) : PlacedInv n startPlaced := by
  refine ⟨⟨fun _ => Arithmetic.op_zero _, Arithmetic.op_zero _⟩, ⟨Arithmetic.op_zero _, ?_⟩, rfl, fun target h => ?_⟩
  · norm_num [startPlaced, Tracking.floats, startTracking, initMotion]
  · cases h

theorem inMillimeters_eq (h : s.motion.motionUnit = .millimeter) : s.inMillimeters = s := by
  obtain ⟨⟨latestCoord, motionUnit, remainder, plannedSteps⟩, relativeMotion, relativeExtrude, target, path⟩ := s
  subst h
  rfl

theorem placedEvent_unit (s : Placed) (e : UnitEvent) :
    (placedEvent .single s e).motion.motionUnit = nextUnit s.motion.motionUnit e := by
  cases e with
  | move b kind arg =>
    unfold placedEvent
    dsimp only
    split_ifs <;> exact FloatMotion.put_motionUnit
  | setMotionUnitType unit =>
    show (s.motion.setMotionUnitType .single unit).motionUnit = unit
    unfold FloatMotion.setMotionUnitType
    split_ifs with h
    · exact h
    · rfl
  | _ => rfl

/-- **One command of both programs.** -/
theorem samePath_step {e : UnitEvent} (hok : UnitOk n s e) (h : SamePath s t) :
    SamePath (placedEvent .single s e)
      ((convertEvent s.motion.motionUnit e).foldl (placedEvent .single) t) := by
  obtain rfl := h
  cases e with
  | move b kind arg =>
    obtain ⟨hunit, -⟩ := hok
    have hafter := (placedEvent_unit s (.move b kind arg)).trans hunit
    unfold SamePath
    rw [hunit, inMillimeters_eq hunit, inMillimeters_eq hafter]
    rfl
  | setMotionUnitType unit =>
    have hplace := funext (place_unit s unit hok)
    show s.inMillimeters = (placedEvent .single s (.setMotionUnitType unit)).inMillimeters
    unfold Placed.inMillimeters
    rw [hplace]
    unfold placedEvent FloatMotion.setMotionUnitType
    dsimp only
    split_ifs <;> rfl
  | setRelativeMotion => rfl
  | setAbsluteMotion => rfl
  | setRelativeExtrude => rfl
  | setAbsluteExtrude => rfl

theorem convert_concat (es : List UnitEvent) (e : UnitEvent) (unit : MotionUnitType) :
    convert unit (es ++ [e]) = convert unit es ++ convertEvent (es.foldl nextUnit unit) e := by
  induction es generalizing unit with
  | nil => simp [convert]
  | cons d es ih =>
    simp only [List.cons_append, convert, List.foldl_cons]
    rw [ih, List.append_assoc]

/-- The reading of a coordinate changes by its last digits only, and no step is planned. -/
theorem unit_reads (s : Placed) (unit : MotionUnitType) (a : Axis) :
    let after := placedEvent .single s (.setMotionUnitType unit)
    after.motion.plannedSteps a = s.motion.plannedSteps a ∧
      |after.place a - s.place a| ≤ 3 / 2 ^ 24 * |s.place a| := by
  unfold placedEvent FloatMotion.setMotionUnitType Placed.place
  dsimp only
  split_ifs with hsame
  · rw [sub_self, abs_zero]
    exact ⟨rfl, by positivity⟩
  · refine ⟨rfl, ?_⟩
    cases unit with
    | millimeter =>
      cases hunit : s.motion.motionUnit with
      | inch =>
        dsimp only
        rw [show inMmAt .single .millimeter (inMmAt .single .inch (s.motion.latestCoord a)) =
          inMmAt .single .inch (s.motion.latestCoord a) from rfl, sub_self, abs_zero]
        positivity
      | millimeter => exact absurd hunit hsame
    | inch =>
      cases hunit : s.motion.motionUnit with
      | inch => exact absurd hunit hsame
      | millimeter => exact inMmAt_mmToInchAt _

/-- **Unit consistency**: in a run whose moves are made in millimeters, every axis is within a step of the last accepted
target, a change of the unit moves none, and the program in millimeters plans the same lines. -/
theorem unit_consistent {events : List UnitEvent} (h : Run (Guarded PlacedStep (UnitOk n)) startPlaced events s) :
    AtTarget n s ∧
      (∀ unit a, (placedEvent .single s (.setMotionUnitType unit)).motion.plannedSteps a = s.motion.plannedSteps a ∧
        |(placedEvent .single s (.setMotionUnitType unit)).place a - s.place a| ≤ 3 / 2 ^ 24 * |s.place a|) ∧
      SamePath s ((convert .millimeter events).foldl (placedEvent .single) startPlaced) := by
  have hinv : PlacedInv n s := h.invariant (placedInv_start n) fun t e u ht ⟨hstep, hok⟩ => hstep ▸ ht.step hok
  refine ⟨hinv.near, fun unit a => unit_reads s unit a, ?_⟩
  -- the unit of the program is that of the state
  have hpath : s.motion.motionUnit = events.foldl nextUnit .millimeter ∧
      SamePath s ((convert .millimeter events).foldl (placedEvent .single) startPlaced) := by
    clear hinv
    induction h with
    | nil => exact ⟨rfl, rfl⟩
    | snoc hrun hstep ih =>
      obtain ⟨rfl, hok⟩ := hstep
      obtain ⟨hunit, hsame⟩ := ih
      rw [convert_concat, List.foldl_append, List.foldl_append, placedEvent_unit, ← hunit]
      exact ⟨rfl, samePath_step hok hsame⟩
  exact hpath.2

instance decidableAxes {P : Axis → Prop} [∀ a, Decidable (P a)] : Decidable (∀ a, P a) :=
  decidable_of_iff (P .X ∧ P .Y ∧ P .Z ∧ P .E)
    ⟨fun h a => by cases a <;> simp [h], fun h => ⟨h .X, h .Y, h .Z, h .E⟩⟩

instance (current target : ℚ) : (a : Axis) → Decidable (LeftOut current target a)
  | .X => isFalse id
  | .Y => isFalse id
  | .Z => inferInstanceAs (Decidable (_ ≤ _))
  | .E => inferInstanceAs (Decidable (_ < _))

instance (n : ℕ) (target x : ℚ) : Decidable (WithinStep n target x) := inferInstanceAs (Decidable (_ ∧ _))

instance (n : ℕ) (current target : ℚ) (a : Axis) : Decidable (Reachable n current target a) :=
  inferInstanceAs (Decidable (_ ∧ (_ → _)))

instance (x : ℚ) : Decidable (Survives x) := inferInstanceAs (Decidable (_ = _))

instance (n : Axis → ℕ) (s : Placed) : (e : UnitEvent) → Decidable (UnitOk n s e)
  | .move _ _ _ => inferInstanceAs (Decidable (_ ∧ ∀ attr ∈ _, ∀ _, _ ∧ _))
  | .setMotionUnitType _ => inferInstanceAs (Decidable (_ → ∀ _, Survives _))
  | .setRelativeMotion => isTrue trivial
  | .setAbsluteMotion => isTrue trivial
  | .setRelativeExtrude => isTrue trivial
  | .setAbsluteExtrude => isTrue trivial

/-- A move of one axis, for steppers of `n` steps per millimeter and an idle planner. -/
def moveOf (n : ℕ) (a : Axis) (x : ℚ) : UnitEvent :=
  .move ⟨steppersOf n, Planner.init⟩ .g1
    ⟨fun b => decide (b = a), true, fun b => if b = a then Arithmetic.single.assign x else 0, 60⟩

/-- A change of the unit and back, and a relative move. -/
def switched : List UnitEvent :=
  [moveOf 100 .X 1, .setMotionUnitType .inch, .setMotionUnitType .millimeter, .setRelativeMotion, moveOf 100 .X 2]

theorem unit_consistent_switched :
    (switched.foldl (placedEvent .single) startPlaced).path.map (fun steps => steps .X) = [100, 200] ∧
      AtTarget (fun _ => 100) (switched.foldl (placedEvent .single) startPlaced) ∧
      SamePath (switched.foldl (placedEvent .single) startPlaced)
        ([moveOf 100 .X 1, .setRelativeMotion, moveOf 100 .X 2].foldl (placedEvent .single) startPlaced) := by
  have hok : AllSteps (placedEvent .single) (UnitOk fun _ => 100) startPlaced switched := by decide +kernel
  have hconsistent := unit_consistent (Run.of_allSteps hok)
  exact ⟨by decide +kernel, hconsistent.1, hconsistent.2.2⟩

/-- **Moves in inches**: the millimeters that are stored are read as inches, and the next move starts from there. -/
theorem inch_misplaces :
    ∃ s t : Placed,
      Run PlacedStep startPlaced [.setMotionUnitType .inch, moveOf 100 .X 1] s ∧
      PlacedStep s (moveOf 100 .X 2) t ∧
      s.target.map (fun target => target .X) = some (inMmAt .single .inch 1) ∧
      645 < s.place .X ∧
      ¬AtTarget (fun _ => 100) s ∧
      t.path.map (fun steps => steps .X) = [2540, -59436] ∧
      ((convert .millimeter [.setMotionUnitType .inch, moveOf 100 .X 1, moveOf 100 .X 2]).foldl (placedEvent .single)
        startPlaced).path.map (fun steps => steps .X) = [2540, 2540] := by
  refine ⟨_, _, ((Run.nil _).snoc rfl).snoc rfl, rfl, by decide +kernel, by decide +kernel, ?_, by decide +kernel,
    by decide +kernel⟩
  have haccepted : (placedEvent .single (placedEvent .single startPlaced (.setMotionUnitType .inch))
      (moveOf 100 .X 1)).target.map (fun target => target .X) = some (inMmAt .single .inch 1) := by decide +kernel
  obtain ⟨target, htarget, hx⟩ := Option.map_eq_some_iff.mp haccepted
  intro h
  have hnear := h target htarget .X
  rw [hx] at hnear
  exact absurd hnear (by decide +kernel)

-- A place of 7 mm does not come back from its inches: at 400 steps per millimeter the next move has a step more.
example :
    ([moveOf 400 .Z 7, .setMotionUnitType .inch, .setMotionUnitType .millimeter, moveOf 400 .Z (72 / 10)].foldl
        (placedEvent .single) startPlaced).path.map (fun steps => steps .Z) = [2800, 80] ∧
      ([moveOf 400 .Z 7, moveOf 400 .Z (72 / 10)].foldl (placedEvent .single) startPlaced).path.map
        (fun steps => steps .Z) = [2800, 79] ∧
      ¬Survives 7 := by
  decide +kernel

end Runs

end Cxsw.Gcode
