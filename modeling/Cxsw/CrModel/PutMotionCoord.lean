import Cxsw.CrModel.MotionControl

/-!
# Cxsw.CrModel.PutMotionCoord — calls of `PutMotionCoord` one after the other (`CrModel/CrMotion.cpp`)

The handlers of several commands make a target from `GetLatestCoord`, call `PutMotionCoord`, drop its result and go on
with the next.  Between two calls other threads work on the ring, so each call finds it as it may.

* `puts`: the calls of a handler.
* `put_cases`: a call is accepted and moves the coordinate, or it leaves it.
* `Moved.still`, `Moved.z`: what an accepted call does to an axis.
-/

namespace Cxsw.Motion

/-! ## The calls -/

section Defs

/-- What a call finds: the steppers, and the planner as the other threads have left it. -/
structure Attempt where
  machine : Machine
  planner : Planner

/-- There is room in the ring, and the steppers answer. -/
def Attempt.Accepts (a : Attempt) : Prop :=
  isPlanLineBuffFull a.planner.ring = false ∧ (axisAttr a.machine).isSome = true

instance (a : Attempt) : Decidable a.Accepts := by
  unfold Attempt.Accepts
  infer_instance

/-- A call that was made, with its result and the motion after it. -/
structure Put where
  coord : MotionGcode
  result : ℤ
  after : MotionControl

def MotionControl.put (s : MotionControl) (a : Attempt) (coord : MotionGcode) : Put :=
  let r := { s with motion := { s.motion with planner := a.planner } }.putMotionCoord a.machine coord
  ⟨coord, r.1, r.2⟩

/-- A target that is made from `GetLatestCoord`. -/
abbrev Target : Type := (Axis → ℚ) → MotionGcode

/-- The calls of a handler. -/
def puts : MotionControl → List (Attempt × Target) → List Put
  | _, [] => []
  | s, (a, target) :: rest =>
    let p := s.put a (target s.motion.latestCoord)
    p :: puts p.after rest

/-- The millimeters of a unit. -/
def MotionUnitType.factor : MotionUnitType → ℚ
  | .millimeter => 1
  | .inch => 254 / 10

/-- The correction of Z for the steppers of a call. -/
def Attempt.correctZ (a : Attempt) (r : Remainder) (current target : ℚ) : ℚ × Remainder :=
  match axisAttr a.machine with
  | none => (0, r)
  | some attr => Motion.correctZ (1 / (attr .Z).stepsPerMm) r current target

/-- The coordinates and the planned way are the same. -/
structure SameMotion (s t : MotionControl) : Prop where
  latestCoord : t.motion.latestCoord = s.motion.latestCoord
  motionUnit : t.motion.motionUnit = s.motion.motionUnit
  remainder : t.motion.remainder = s.motion.remainder
  planned : t.planned = s.planned

/-- An accepted call. -/
structure Moved (a : Attempt) (c : MotionGcode) (s t : MotionControl) : Prop where
  latestCoord : t.motion.latestCoord = (correctTargetCoordinate a.machine s.motion.remainder
    (inMm s.motion.motionUnit s.motion.latestCoord) (inMm s.motion.motionUnit c.coord)).1
  motionUnit : t.motion.motionUnit = s.motion.motionUnit
  remainder : t.motion.remainder = (correctTargetCoordinate a.machine s.motion.remainder
    (inMm s.motion.motionUnit s.motion.latestCoord) (inMm s.motion.motionUnit c.coord)).2
  planned : ∀ ax, t.planned ax = s.planned ax + plannedDis c.retractFlag
    (inMm s.motion.motionUnit s.motion.latestCoord) (inMm s.motion.motionUnit c.coord) ax

end Defs

/-! ## One call -/

section OneCall

variable {a : Attempt} {c : MotionGcode} {s t : MotionControl} {ax : Axis}

theorem inMm_eq_mul (unit : MotionUnitType) (coord : Axis → ℚ) (ax : Axis) :
    inMm unit coord ax = coord ax * unit.factor := by
  cases unit with
  | millimeter => exact (mul_one _).symm
  | inch => rfl

theorem MotionUnitType.factor_pos (unit : MotionUnitType) : 0 < unit.factor := by
  cases unit <;> norm_num [MotionUnitType.factor]

theorem planBlock_nonneg_iff (m : Machine) (p : Planner) (d : Axis → ℚ) (request : ℚ × ℚ) :
    0 ≤ (planBlock m p d request).1 ↔ (axisAttr m).isSome = true := by
  unfold planBlock stuffTail stuffLineBuff
  cases axisAttr m with
  | none => simp
  | some attr => simp

theorem planLine_nonneg_iff (m : Machine) (p : Planner) (current target : Axis → ℚ) :
    0 ≤ (planLine m p current target).1 ↔ isPlanLineBuffFull p.ring = false ∧ (axisAttr m).isSome = true := by
  unfold planLine
  cases hfull : isPlanLineBuffFull p.ring with
  | true => simp
  | false =>
    rw [if_neg Bool.false_ne_true]
    exact (planBlock_nonneg_iff m _ _ _).trans (and_iff_right rfl).symm

theorem planRetract_nonneg_iff (m : Machine) (p : Planner) (current target : Axis → ℚ) :
    0 ≤ (planRetract m p current target).1 ↔ isPlanLineBuffFull p.ring = false ∧ (axisAttr m).isSome = true := by
  unfold planRetract
  cases hfull : isPlanLineBuffFull p.ring with
  | true => simp
  | false =>
    rw [if_neg Bool.false_ne_true]
    exact (planBlock_nonneg_iff m _ _ _).trans (and_iff_right rfl).symm

/-- A line is accepted exactly if there is room and the steppers answer. -/
theorem planMove_nonneg_iff (m : Machine) (s : CrMotion) (c : MotionGcode) :
    0 ≤ (planMove m s c).1 ↔ isPlanLineBuffFull s.planner.ring = false ∧ (axisAttr m).isSome = true := by
  unfold planMove
  dsimp only
  split_ifs
  · exact planRetract_nonneg_iff m _ _ _
  · exact planLine_nonneg_iff m _ _ _

/-- **A call** is accepted and moves the coordinate, or it leaves it. -/
theorem put_cases (a : Attempt) (c : MotionGcode) (s : MotionControl) :
    (a.Accepts ∧ 0 ≤ (s.put a c).result ∧ Moved a c s (s.put a c).after) ∨
      (¬a.Accepts ∧ (s.put a c).result < 0 ∧ SameMotion s (s.put a c).after) := by
  have hiff := planMove_nonneg_iff a.machine { s.motion with planner := a.planner } c
  unfold MotionControl.put MotionControl.putMotionCoord Motion.putMotionCoord
  dsimp only
  by_cases hacc : a.Accepts
  · have hnot : ¬(planMove a.machine { s.motion with planner := a.planner } c).1 < 0 := not_lt.mpr (hiff.mpr hacc)
    refine Or.inl ⟨hacc, ?_⟩
    rw [if_neg hnot]
    refine ⟨zero_le_one, rfl, rfl, rfl, fun ax => ?_⟩
    dsimp only
    rw [if_neg (by decide)]
  · have hneg : (planMove a.machine { s.motion with planner := a.planner } c).1 < 0 :=
      not_le.mp fun h => hacc (hiff.mp h)
    refine Or.inr ⟨hacc, ?_⟩
    rw [if_pos hneg]
    refine ⟨hneg, rfl, rfl, rfl, ?_⟩
    funext ax
    dsimp only
    rw [if_pos hneg]

theorem result_nonneg_iff : 0 ≤ (s.put a c).result ↔ a.Accepts := by
  rcases put_cases a c s with ⟨hacc, hresult, -⟩ | ⟨hacc, hresult, -⟩
  · exact iff_of_true hresult hacc
  · exact iff_of_false (not_le.mpr hresult) hacc

theorem moved_of_accepts (h : a.Accepts) : Moved a c s (s.put a c).after := by
  rcases put_cases a c s with ⟨-, -, hmoved⟩ | ⟨hnot, -⟩
  · exact hmoved
  · exact absurd h hnot

theorem same_of_not_accepts (h : ¬a.Accepts) : SameMotion s (s.put a c).after := by
  rcases put_cases a c s with ⟨hacc, -⟩ | ⟨-, -, hsame⟩
  · exact absurd hacc h
  · exact hsame

theorem plannedDis_z (retract : Bool) (current target : Axis → ℚ) :
    plannedDis retract current target .Z = target .Z - current .Z :=
  plannedDis_of_ne (by decide) retract current target

/-- A distance of zero is planned as none. -/
theorem plannedDis_zero {retract : Bool} {current target : Axis → ℚ} (h : target ax = current ax) :
    plannedDis retract current target ax = 0 := by
  by_cases hE : ax = .E
  · subst hE
    cases retract with
    | true => exact sub_eq_zero.mpr h
    | false =>
      show (if |target .E - current .E| < minEChange then 0 else target .E - current .E) = 0
      rw [h, sub_self, ite_self]
  · rw [plannedDis_of_ne hE, h, sub_self]

theorem correctSteps_zero (n : ℕ) (ha : ax ≠ .Z) : correctSteps 0 n ax = 0 := by
  have hround : toS32 (round (0 * (n : ℚ))) = 0 := by
    rw [zero_mul, toS32_round_of_nonneg le_rfl (by rw [halfUp_eq_zero le_rfl (by norm_num)]; norm_num),
      halfUp_eq_zero le_rfl (by norm_num)]
  cases ax with
  | X => exact hround
  | Y => exact hround
  | Z => exact absurd rfl ha
  | E =>
    unfold correctSteps
    dsimp only
    rw [hround, ite_self]

/-- **An axis that the target leaves**: nothing is planned on it, but its coordinate is then in millimeters. -/
theorem Moved.still (h : Moved a c s t) (hacc : a.Accepts) (ha : ax ≠ .Z)
    (hc : c.coord ax = s.motion.latestCoord ax) :
    t.motion.latestCoord ax = s.motion.latestCoord ax * s.motion.motionUnit.factor ∧ t.planned ax = s.planned ax := by
  obtain ⟨attr, hattr⟩ := Option.isSome_iff_exists.mp hacc.2
  have hmm : inMm s.motion.motionUnit c.coord ax = inMm s.motion.motionUnit s.motion.latestCoord ax := by
    rw [inMm_eq_mul, inMm_eq_mul, hc]
  constructor
  · rw [h.latestCoord, ← inMm_eq_mul]
    unfold correctTargetCoordinate
    rw [hattr]
    cases ax with
    | X => dsimp only; rw [hmm, sub_self, correctSteps_zero _ ha, Int.cast_zero, zero_mul, add_zero]
    | Y => dsimp only; rw [hmm, sub_self, correctSteps_zero _ ha, Int.cast_zero, zero_mul, add_zero]
    | Z => exact absurd rfl ha
    | E => dsimp only; rw [hmm, sub_self, correctSteps_zero _ ha, Int.cast_zero, zero_mul, add_zero]
  · rw [h.planned, plannedDis_zero hmm, add_zero]

/-- **The Z axis**: the displacement is planned, and the coordinate corrected. -/
theorem Moved.z (h : Moved a c s t) (hacc : a.Accepts) :
    t.motion.latestCoord .Z = (a.correctZ s.motion.remainder (s.motion.latestCoord .Z * s.motion.motionUnit.factor)
      (c.coord .Z * s.motion.motionUnit.factor)).1 ∧
    t.motion.remainder = (a.correctZ s.motion.remainder (s.motion.latestCoord .Z * s.motion.motionUnit.factor)
      (c.coord .Z * s.motion.motionUnit.factor)).2 ∧
    t.planned .Z = s.planned .Z + (c.coord .Z - s.motion.latestCoord .Z) * s.motion.motionUnit.factor := by
  obtain ⟨attr, hattr⟩ := Option.isSome_iff_exists.mp hacc.2
  obtain ⟨hz, hr⟩ := correct_z s.motion.remainder (inMm s.motion.motionUnit s.motion.latestCoord)
    (inMm s.motion.motionUnit c.coord) hattr
  unfold Attempt.correctZ
  rw [hattr]
  dsimp only
  rw [← inMm_eq_mul, ← inMm_eq_mul, h.latestCoord, h.remainder, h.planned, plannedDis_z, hz, hr, sub_mul, ← inMm_eq_mul,
    ← inMm_eq_mul]
  exact ⟨rfl, rfl, rfl⟩

/-- A distance that is not corrected leads to `OldTarget.Z`. -/
theorem attemptZ_small {r : Remainder} {current target : ℚ} (hacc : a.Accepts) (h : |current - target| ≤ eolData) :
    a.correctZ r current target = (r.oldTarget, r) := by
  obtain ⟨attr, hattr⟩ := Option.isSome_iff_exists.mp hacc.2
  unfold Attempt.correctZ
  rw [hattr]
  dsimp only
  unfold Motion.correctZ
  rw [if_neg (not_lt.mpr h)]

/-- A target that leaves Z: nothing is planned, and the coordinate is `OldTarget.Z`. -/
theorem Moved.z_still (h : Moved a c s t) (hacc : a.Accepts) (hc : c.coord .Z = s.motion.latestCoord .Z) :
    t.motion.latestCoord .Z = s.motion.remainder.oldTarget ∧ t.motion.remainder = s.motion.remainder ∧
      t.planned .Z = s.planned .Z := by
  obtain ⟨hz, hr, hplanned⟩ := h.z hacc
  have hsmall : |s.motion.latestCoord .Z * s.motion.motionUnit.factor - c.coord .Z * s.motion.motionUnit.factor| ≤
      eolData := by
    rw [hc, sub_self, abs_zero]
    norm_num [eolData]
  rw [attemptZ_small hacc hsmall] at hz hr
  rw [hc, sub_self, zero_mul, add_zero] at hplanned
  exact ⟨hz, hr, hplanned⟩

/-- An empty ring, for the examples. -/
def emptyAttempt : Attempt := ⟨exampleMachine, Planner.init⟩

theorem emptyAttempt_accepts : emptyAttempt.Accepts := by decide

/-- A nozzle over the origin, in millimeters. -/
def nozzleAt (z : ℚ) : MotionControl :=
  { initControl with motion := { initMotion with latestCoord := Function.update (fun _ => 0) .Z z } }

end OneCall

end Cxsw.Motion
