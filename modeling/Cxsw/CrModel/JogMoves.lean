import Cxsw.Lib.Run
import Cxsw.CrModel.FloatErrors

/-!
# Cxsw.CrModel.JogMoves — the moves of the screen (`CrModel/CrMotion.cpp`)

`HandleStepperMoveMsg` plans a line of the distance in the message, in millimeters, and adds that distance to
`LatestCoord`.  Unlike `PutMotionCoord` it neither converts the coordinate, which is in inches in inch mode, nor
corrects it by what the whole steps of the line leave out.

* `FloatMotion.handleStepperMoveMsg`: the move, with its steps counted.
* `jogSteps`, `jogError`: its steps, and by how much they differ from the way of the coordinate.
* `JogInv.step`: the coordinate stands for the planned steps but for the errors of all jogs so far and the roundings.
* `jogs_tracked`: so it stays within a step as long as their sum does.
* `jog_inch_drifts`: a jog in inch mode, and jogs that each leave out a part of a step.
-/

namespace Cxsw.Motion

/-! ## The moves -/

section Defs

/-- `while (PlanLine(..) < 0) CrM_Sleep(10)`: the first attempt that finds room. -/
def firstTaken : List Attempt → Option (Attempt × (Axis → StepperAttr))
  | [] => none
  | a :: rest =>
    match a.taken with
    | none => firstTaken rest
    | some attr => some (a, attr)

/-- The move of `HandleStepperMoveMsg`.  Other threads plan the steps `others` while it waits. -/
def FloatMotion.handleStepperMoveMsg (R : Arithmetic) (s : FloatMotion) (moveDis : Axis → ℚ) (attempts : List Attempt)
    (others : Axis → ℤ) : Option FloatMotion :=
  match firstTaken attempts with
  | none => none
  | some (a, attr) =>
    let target : Axis → ℚ := fun ax => R.op (s.latestCoord ax + moveDis ax)
    some
      { s with
        latestCoord := target
        plannedSteps := fun ax => s.plannedSteps ax + others ax + lineStepsAt R a.planner.feedrate.flowRatio
          (deltaAt R false (s.latestCoord ax) (target ax) ax) (attr ax).stepsPerMm ax }

/-- Where a jog ends on an axis. -/
def jogTarget (current d : ℚ) : ℚ := Arithmetic.single.op (current + d)

/-- The steps of a jog of `d` from a coordinate, at plain flow. -/
def jogSteps (n : ℕ) (a : Axis) (current d : ℚ) : ℤ :=
  lineStepsAt .single 100 (deltaAt .single false current (jogTarget current d) a) n a

/-- By how much these differ from the way of the coordinate. -/
def jogError (n : ℕ) (a : Axis) (unit : MotionUnitType) (current d : ℚ) : ℚ :=
  jogSteps n a current d - (inMmAt .single unit (jogTarget current d) - inMmAt .single unit current) * n

/-- The motion, the sum of the errors of the jogs so far, and what the roundings of all else add up to at most. -/
structure Jogged where
  tracking : FloatMotion
  drift : ℚ
  slack : ℚ

/-- A jog, or what else changes the coordinate. -/
inductive JogEvent
  | putMotionCoord (b : Attempt) (c : MotionGcode)
  | setMotionUnitType (unit : MotionUnitType)
  | jog (moveDis : Axis → ℚ) (attempts : List Attempt) (others : Axis → ℤ)

/-- What the conversion of a coordinate to inches may lose, in steps. -/
def unitSlack (n : ℕ) (current : ℚ) : ℚ := 3 / 2 ^ 24 * (|current| * n)

/-- The state after an event that returns, for an axis of `n` steps per millimeter. -/
def jogEvent (n : ℕ) (a : Axis) (s : Jogged) : JogEvent → Option Jogged
  | .putMotionCoord b c =>
    some ⟨s.tracking.put .single b c, s.drift,
      if b.Accepts then s.slack + moveSlack n (s.tracking.latestCoord a) (c.coord a) else s.slack⟩
  | .setMotionUnitType unit =>
    some ⟨s.tracking.setMotionUnitType .single unit, s.drift,
      if unit = .inch ∧ s.tracking.motionUnit = .millimeter then s.slack + unitSlack n (s.tracking.latestCoord a)
      else s.slack⟩
  | .jog moveDis attempts others =>
    (s.tracking.handleStepperMoveMsg .single moveDis attempts others).map fun t =>
      ⟨t, s.drift + jogError n a s.tracking.motionUnit (s.tracking.latestCoord a) (moveDis a), s.slack⟩

/-- The same as a relation. -/
def JogStep (n : ℕ) (a : Axis) (s : Jogged) (e : JogEvent) (t : Jogged) : Prop := jogEvent n a s e = some t

/-- What the correction carries on an axis. -/
def carriedBy (r : Remainder) : Axis → ℚ
  | .Z => r.deltamm
  | _ => 0

/-- By how many steps the planned steps differ from what the coordinate stands for. -/
def positionError (n : ℕ) (a : Axis) (s : FloatMotion) : ℚ :=
  s.plannedSteps a - inMmAt .single s.motionUnit (s.latestCoord a) * n

/-- **Jog moves keep tracking**: a jog plans the steps of its distance, rounded to whole ones, and after every event
the coordinate stands for the planned steps up to one. -/
def JogKept (n : ℕ) (a : Axis) (s : Jogged) (e : JogEvent) (t : Jogged) : Prop :=
  |positionError n a t.tracking| ≤ 1 ∧
    match e with
    | .jog moveDis _ _ => |((t.tracking.plannedSteps a - s.tracking.plannedSteps a : ℤ) : ℚ) - moveDis a * n| < 1
    | _ => True

/-- A jog of the extruder: of the least extrusion at plain flow, or of less than a step. -/
def JogExtruderOk (n : ℕ) (flowRatio current d : ℚ) : Prop :=
  if |disAt .single current (jogTarget current d)| < minEAt .single then |d| * n < 1 else PlainFlowAt flowRatio

/-- A G-code move that the correction follows.  Of Z the planner and the correction make the same steps, unless it stays
where `OldTarget.Z` is. -/
def FollowsOk (n : ℕ) (a : Axis) (s : FloatMotion) (b : Attempt) (c : MotionGcode) : Prop :=
  let current := s.latestCoord a
  let target := c.coord a
  s.motionUnit = .millimeter ∧ FloatRange n current target ∧
    (a = .E → ExtrudesAt b.planner.feedrate.flowRatio c.retractFlag current target) ∧
    (a = .Z →
      if eolAt .single < |Arithmetic.single.op (current - target)| then
        lineStepsAt .single b.planner.feedrate.flowRatio (disAt .single current target) n .Z =
          -deltaStepAt .single (tempFAt .single n current target)
      else s.remainder.oldTarget = current)

/-- **The condition of an event**.  A jog is one of not too many steps, no other thread plans while it waits, the
distance in `FLOAT` has the whole steps of the one in the message for Z, and its error does not bring the errors of all
jogs, with the roundings, above a step.  A G-code move is one that the correction follows, and neither what Z carries
then nor the roundings bring them above a step. -/
def JogOk (n : ℕ) (a : Axis) (s : Jogged) : JogEvent → Prop
  | .jog moveDis attempts others =>
    let current := s.tracking.latestCoord a
    let target := jogTarget current (moveDis a)
    FloatRange n current target ∧ others a = 0 ∧
      (∀ b ∈ attempts, ∀ attr ∈ b.taken, (attr a).stepsPerMm = n ∧
        (a = .E → JogExtruderOk n b.planner.feedrate.flowRatio current (moveDis a))) ∧
      (a = .Z → ⌊|floatWay n current target|⌋ = ⌊|moveDis a| * n⌋) ∧
      |carriedBy s.tracking.remainder a + s.drift + jogError n a s.tracking.motionUnit current (moveDis a)| +
        s.slack ≤ 1
  | .putMotionCoord b c =>
    let current := s.tracking.latestCoord a
    let target := c.coord a
    ∀ attr ∈ b.taken, (attr a).stepsPerMm = n ∧ FollowsOk n a s.tracking b c ∧
      |carriedBy (correctZAt .single n s.tracking.remainder current target).2 a + s.drift| +
        (s.slack + moveSlack n current target) ≤ 1
  | .setMotionUnitType unit =>
    unit = .inch ∧ s.tracking.motionUnit = .millimeter →
      |carriedBy s.tracking.remainder a + s.drift| + (s.slack + unitSlack n (s.tracking.latestCoord a)) ≤ 1

end Defs

/-! ## The steps of a jog -/

section Steps

variable {n : ℕ} {a : Axis} {current target d x flowRatio : ℚ}

theorem lineStepsAt_z (h : FloatRange n current target) :
    lineStepsAt .single flowRatio (disAt .single current target) n .Z =
      if disAt .single current target < eolAt .single then -⌊|floatWay n current target|⌋
      else ⌊|floatWay n current target|⌋ := by
  have h0 : 0 ≤ ⌊|floatWay n current target|⌋ := Int.floor_nonneg.mpr (abs_nonneg _)
  have hlt : ⌊|floatWay n current target|⌋ < 2 ^ 31 :=
    Int.floor_lt.mpr (h.floatWay_error.2.trans_lt (by norm_num))
  unfold lineStepsAt axisStepsAt
  dsimp only
  rw [← abs_floatWay, toS32_intCast (by omega) hlt]

theorem floor_small (h0 : 0 ≤ x) (h : x ≤ 7 / 16) : ⌊x⌋ = 0 :=
  Int.floor_eq_zero_iff.mpr ⟨h0, h.trans_lt (by norm_num)⟩

/-- The flow matters to the steps of an extruder that moves. -/
theorem jogSteps_flow (h : FloatRange n current (jogTarget current d))
    (he : a = .E → JogExtruderOk n flowRatio current d) :
    lineStepsAt .single flowRatio (deltaAt .single false current (jogTarget current d) a) n a =
      jogSteps n a current d := by
  by_cases ha : a = .Z
  · subst ha
    rfl
  · unfold jogSteps
    rw [h.lineSteps_correct ha, h.lineSteps_correct ha]
    · exact fun _ => ⟨fun hretract => absurd hretract (by decide), Or.inr (Or.inl rfl)⟩
    · intro hE
      have hok := he hE
      unfold JogExtruderOk at hok
      refine ⟨fun hretract => absurd hretract (by decide), ?_⟩
      split_ifs at hok with hcut
      · exact Or.inl hcut
      · exact Or.inr hok

/-- The distance in `FLOAT` is that of the message, up to less than a third of a step. -/
theorem jogTarget_error (h : FloatRange n current (jogTarget current d)) :
    |(jogTarget current d - current) * n - d * n| ≤ 9 / 32 := by
  have hn0 : (0 : ℚ) ≤ n := Nat.cast_nonneg n
  have herr := mul_le_mul_of_nonneg_right (single_op_error (current + d)) hn0
  rw [← abs_of_nonneg hn0, ← abs_mul, abs_of_nonneg hn0, div_mul_eq_mul_div] at herr
  have hsum := mul_le_mul_of_nonneg_right (abs_sub_abs_le_abs_sub (current + d) (jogTarget current d)) hn0
  rw [abs_sub_comm, sub_mul] at hsum
  have hplace := mul_le_mul_of_nonneg_right (abs_add_le current (jogTarget current d - current)) hn0
  rw [add_sub_cancel, add_mul] at hplace
  have habs : |jogTarget current d - (current + d)| * n = |(jogTarget current d - (current + d)) * n| := by
    rw [abs_mul, abs_of_nonneg hn0]
  rw [habs] at hsum
  change |(jogTarget current d - (current + d)) * n| ≤ _ at herr
  rw [show (jogTarget current d - current) * n - d * n = (jogTarget current d - (current + d)) * n by ring]
  linarith [h.place, h.way]

/-- **The steps of a jog are those of its distance**: of Z, if the distance in `FLOAT` has as many. -/
theorem jogSteps_near (h : FloatRange n current (jogTarget current d))
    (hfloat : Arithmetic.single.op current = current) (he : a = .E → JogExtruderOk n flowRatio current d)
    (hz : a = .Z → ⌊|floatWay n current (jogTarget current d)|⌋ = ⌊|d| * n⌋) :
    |(jogSteps n a current d : ℚ) - d * n| < 1 := by
  have hn0 : (0 : ℚ) ≤ n := Nat.cast_nonneg n
  by_cases ha : a = .Z
  · subst ha
    have hw := hz rfl
    have hfloor : |(⌊|d| * n⌋ : ℚ) - |d| * n| < 1 := by
      rw [abs_lt]
      constructor <;> linarith [Int.floor_le (|d| * n), Int.lt_floor_add_one (|d| * n)]
    have hsteps : jogSteps n .Z current d = if disAt .single current (jogTarget current d) < eolAt .single then
        -⌊|d| * n⌋ else ⌊|d| * n⌋ := by
      rw [← hw]
      exact lineStepsAt_z h
    rw [hsteps]
    rcases le_total 0 d with hd | hd
    · have hle : current ≤ jogTarget current d := by
        have hmono := Arithmetic.single.op_le (show current ≤ current + d by linarith)
        rwa [hfloat] at hmono
      have hdis : 0 ≤ disAt .single current (jogTarget current d) := Arithmetic.single.op_nonneg (by linarith)
      rw [abs_of_nonneg hd] at hfloor hw ⊢
      split_ifs with heol
      · have hzero := floor_small (abs_nonneg _) (h.floatWay_small (by rw [abs_of_nonneg hdis]; exact heol.le))
        rw [← hw, hzero] at hfloor ⊢
        rwa [neg_zero]
      · exact hfloor
    · have hle : jogTarget current d ≤ current := by
        have hmono := Arithmetic.single.op_le (show current + d ≤ current by linarith)
        rwa [hfloat] at hmono
      have hdis : disAt .single current (jogTarget current d) ≤ 0 := Arithmetic.single.op_nonpos (by linarith)
      rw [if_pos (hdis.trans_lt eolAt_bounds.1)]
      rw [abs_of_nonpos hd] at hfloor ⊢
      rw [← abs_neg]
      push_cast
      rw [show -(-(⌊-d * n⌋ : ℚ) - d * n) = ⌊-d * n⌋ - -d * n by ring]
      exact hfloor
  · have hcorrect : jogSteps n a current d = correctStepsAt .single current (jogTarget current d) n a :=
      h.lineSteps_correct ha fun _ => ⟨fun hretract => absurd hretract (by decide), Or.inr (Or.inl rfl)⟩
    rw [hcorrect]
    by_cases hcut : a = .E ∧ |disAt .single current (jogTarget current d)| < minEAt .single
    · have hok := he hcut.1
      unfold JogExtruderOk at hok
      rw [if_pos hcut.2] at hok
      rwa [correctStepsAt_leftOut hcut, Int.cast_zero, zero_sub, abs_neg, abs_mul, Nat.abs_cast]
    · have hnear := (h.correctSteps_error (a := a) fun hE hlt => hcut ⟨hE, hlt⟩).1
      have hsplit := abs_add_le ((correctStepsAt .single current (jogTarget current d) n a : ℚ) -
        (jogTarget current d - current) * n) ((jogTarget current d - current) * n - d * n)
      rw [sub_add_sub_cancel] at hsplit
      linarith [jogTarget_error h]

end Steps

/-! ## One event -/

section Event

variable {n : ℕ} {a : Axis}

/-- The error of the position apart from what the correction carries. -/
def offset (n : ℕ) (a : Axis) (s : FloatMotion) : ℚ := positionError n a s - carriedBy s.remainder a

theorem firstTaken_spec : ∀ {attempts : List Attempt} {b : Attempt} {attr : Axis → StepperAttr},
    firstTaken attempts = some (b, attr) → b ∈ attempts ∧ b.taken = some attr
  | [], _, _, h => by cases h
  | b' :: rest, b, attr, h => by
    unfold firstTaken at h
    cases htaken : b'.taken with
    | none =>
      rw [htaken] at h
      obtain ⟨hmem, hsome⟩ := firstTaken_spec h
      exact ⟨List.mem_cons_of_mem _ hmem, hsome⟩
    | some attr' =>
      rw [htaken] at h
      obtain ⟨rfl, rfl⟩ := Prod.mk.inj (Option.some.inj h)
      exact ⟨List.mem_cons_self, htaken⟩

theorem carriedBy_of_ne (ha : a ≠ .Z) (r : Remainder) : carriedBy r a = 0 := by
  cases a <;> first | rfl | exact absurd rfl ha

theorem moveSlack_nonneg (n : ℕ) (current target : ℚ) : 0 ≤ moveSlack n current target := by
  unfold moveSlack
  positivity

/-- **A G-code move** changes the offset by its roundings at most. -/
theorem offset_put {s : FloatMotion} {b : Attempt} {c : MotionGcode} {attr : Axis → StepperAttr}
    (htaken : b.taken = some attr) (hn : (attr a).stepsPerMm = n) (hok : FollowsOk n a s b c)
    (hrest : a = .Z → CarryOk s.remainder) :
    |offset n a (s.put .single b c) - offset n a s| ≤ moveSlack n (s.latestCoord a) (c.coord a) ∧
      (a = .Z → (s.put .single b c).remainder =
          (correctZAt .single n s.remainder (s.latestCoord a) (c.coord a)).2 ∧
        CarryOk (s.put .single b c).remainder) := by
  obtain ⟨hunit, hrange, hextrudes, hsame⟩ := hok
  have hsteps := @FloatMotion.put_steps .single s b c attr a htaken
  have hunit' := @FloatMotion.put_motionUnit .single s b c
  rw [hunit, hn] at hsteps
  change _ = s.plannedSteps a + lineStepsAt .single b.planner.feedrate.flowRatio
    (deltaAt .single c.retractFlag (s.latestCoord a) (c.coord a) a) n a at hsteps
  unfold offset positionError
  rw [hunit', hsteps, hunit]
  by_cases ha : a = .Z
  · subst ha
    obtain ⟨hz, hr⟩ := @FloatMotion.put_z .single s b c attr htaken
    rw [hunit, hn] at hz hr
    change _ = (correctZAt .single n s.remainder (s.latestCoord .Z) (c.coord .Z)).1 at hz
    change _ = (correctZAt .single n s.remainder (s.latestCoord .Z) (c.coord .Z)).2 at hr
    have hmoved := hsame rfl
    have hdelta : deltaAt .single c.retractFlag (s.latestCoord .Z) (c.coord .Z) .Z =
        disAt .single (s.latestCoord .Z) (c.coord .Z) := if_neg (by simp)
    rw [hdelta, hz, hr]
    by_cases hmoves : eolAt .single < |Arithmetic.single.op (s.latestCoord .Z - c.coord .Z)|
    · rw [if_pos hmoves] at hmoved
      obtain ⟨herr, hone⟩ := hrange.correctZ_error (hrest rfl) hmoves
      refine ⟨?_, fun _ => ⟨rfl, hone⟩⟩
      rw [hmoved]
      refine le_trans (le_of_eq ?_) herr
      congr 1
      unfold carriedBy inMmAt
      push_cast
      ring
    · rw [if_neg hmoves] at hmoved
      have hstay : correctZAt .single n s.remainder (s.latestCoord .Z) (c.coord .Z) =
          (s.latestCoord .Z, s.remainder) := by
        unfold correctZAt
        rw [if_neg hmoves, hmoved]
      have hsmall : |disAt .single (s.latestCoord .Z) (c.coord .Z)| ≤ eolAt .single := by
        unfold disAt
        rw [← neg_sub, Arithmetic.single.op_neg, abs_neg]
        exact not_lt.mp hmoves
      have hzero := floor_small (abs_nonneg _) (hrange.floatWay_small hsmall)
      rw [hstay, lineStepsAt_z hrange, hzero, neg_zero, ite_self, add_zero, sub_self, abs_zero]
      exact ⟨moveSlack_nonneg _ _ _, fun _ => ⟨rfl, hrest rfl⟩⟩
  · refine ⟨?_, fun h => absurd h ha⟩
    have hlatest := @FloatMotion.put_rounded .single s b c attr a htaken ha
    rw [hunit, hn] at hlatest
    change _ = correctAt .single n (s.latestCoord a) (c.coord a) a at hlatest
    rw [carriedBy_of_ne ha, carriedBy_of_ne ha, hlatest, hrange.lineSteps_correct ha hextrudes]
    set k := correctStepsAt .single (s.latestCoord a) (c.coord a) n a with hk
    have hway : 0 ≤ |c.coord a - s.latestCoord a| * (n : ℚ) := mul_nonneg (abs_nonneg _) (Nat.cast_nonneg n)
    have hkabs : |(k : ℚ)| ≤ |c.coord a - s.latestCoord a| * n + 1 ∧ |k| ≤ 2 ^ 24 := by
      by_cases hcut : a = .E ∧ |disAt .single (s.latestCoord a) (c.coord a)| < minEAt .single
      · have hzero : k = 0 := correctStepsAt_leftOut hcut
        rw [hzero]
        exact ⟨by simpa using by linarith, by norm_num⟩
      · obtain ⟨hnear, hle⟩ := hrange.correctSteps_error (a := a) fun hE hlt => hcut ⟨hE, hlt⟩
        rw [← hk] at hnear hle
        have hsplit := abs_sub_abs_le_abs_sub (k : ℚ) ((c.coord a - s.latestCoord a) * n)
        rw [abs_mul, Nat.abs_cast] at hsplit
        exact ⟨by linarith, hle.trans (by norm_num)⟩
    have herr := addSteps_error hrange.pos (hrange.fine.trans (by norm_num)) hkabs.2 (s.latestCoord a)
    rw [abs_sub_comm] at herr
    have hsplit : ((s.plannedSteps a + k : ℤ) : ℚ) - inMmAt .single .millimeter
          (correctAt .single n (s.latestCoord a) (c.coord a) a) * n - 0 -
        (s.plannedSteps a - inMmAt .single .millimeter (s.latestCoord a) * n - 0) =
      k - (correctAt .single n (s.latestCoord a) (c.coord a) a - s.latestCoord a) * n := by
      unfold inMmAt
      push_cast
      ring
    rw [hsplit]
    refine herr.trans ?_
    unfold moveSlack
    linarith [hkabs.1]

/-- **A change of the unit** changes it by the roundings of the conversion at most. -/
theorem offset_unit (s : FloatMotion) (unit : MotionUnitType) :
    |offset n a (s.setMotionUnitType .single unit) - offset n a s| ≤
      if unit = .inch ∧ s.motionUnit = .millimeter then unitSlack n (s.latestCoord a) else 0 := by
  have hn0 : (0 : ℚ) ≤ n := Nat.cast_nonneg n
  unfold FloatMotion.setMotionUnitType
  by_cases hsame : s.motionUnit = unit
  · rw [if_pos hsame, sub_self, abs_zero]
    split_ifs
    · unfold unitSlack
      positivity
    · exact le_rfl
  · rw [if_neg hsame]
    cases unit with
    | millimeter =>
      have hinch : s.motionUnit = .inch := by
        cases hu : s.motionUnit
        · exact absurd hu hsame
        · rfl
      rw [if_neg fun h => absurd h.1 (by decide)]
      unfold offset positionError
      rw [hinch]
      exact (abs_nonpos_iff.mpr (sub_self _)).trans le_rfl
    | inch =>
      have hmm : s.motionUnit = .millimeter := by
        cases hu : s.motionUnit
        · rfl
        · exact absurd hu hsame
      rw [if_pos ⟨rfl, hmm⟩]
      have herr := mul_le_mul_of_nonneg_right (inMmAt_mmToInchAt (s.latestCoord a)) hn0
      rw [← abs_of_nonneg hn0, ← abs_mul, abs_of_nonneg hn0, mul_assoc, ← abs_neg] at herr
      refine le_trans (le_of_eq ?_) herr
      unfold offset positionError
      rw [hmm]
      congr 1
      unfold inMmAt
      ring

theorem jog_spec {s t : FloatMotion} {moveDis : Axis → ℚ} {attempts : List Attempt} {others : Axis → ℤ}
    (h : s.handleStepperMoveMsg .single moveDis attempts others = some t) :
    ∃ b ∈ attempts, ∃ attr ∈ b.taken, t.motionUnit = s.motionUnit ∧ t.remainder = s.remainder ∧
      (∀ ax, t.latestCoord ax = jogTarget (s.latestCoord ax) (moveDis ax)) ∧
      ∀ ax, t.plannedSteps ax = s.plannedSteps ax + others ax + lineStepsAt .single b.planner.feedrate.flowRatio
        (deltaAt .single false (s.latestCoord ax) (jogTarget (s.latestCoord ax) (moveDis ax)) ax)
        (attr ax).stepsPerMm ax := by
  unfold FloatMotion.handleStepperMoveMsg at h
  cases htaken : firstTaken attempts with
  | none =>
    rw [htaken] at h
    cases h
  | some r =>
    rw [htaken] at h
    obtain ⟨hmem, hattr⟩ := @firstTaken_spec attempts r.1 r.2 htaken
    obtain rfl := Option.some.inj h
    exact ⟨r.1, hmem, r.2, hattr, rfl, rfl, fun _ => rfl, fun _ => rfl⟩

end Event

/-! ## Runs -/

section Runs

variable {n : ℕ} {a : Axis}

/-- **The coordinate stands for the planned steps** but for what the correction carries, the errors of the jogs and the
roundings of the moves, and these are no more than a step. -/
structure JogInv (n : ℕ) (a : Axis) (s : Jogged) : Prop where
  float : s.tracking.IsFloat .single
  offset : |offset n a s.tracking - s.drift| ≤ s.slack
  rest : a = .Z → CarryOk s.tracking.remainder
  near : |carriedBy s.tracking.remainder a + s.drift| + s.slack ≤ 1

theorem JogInv.positionError {s : Jogged} (h : JogInv n a s) : |positionError n a s.tracking| ≤ 1 := by
  have hoffset := h.offset
  unfold Motion.offset at hoffset
  have hsplit := abs_add_le (carriedBy s.tracking.remainder a + s.drift)
    (Motion.positionError n a s.tracking - carriedBy s.tracking.remainder a - s.drift)
  rw [show carriedBy s.tracking.remainder a + s.drift + (Motion.positionError n a s.tracking -
    carriedBy s.tracking.remainder a - s.drift) = Motion.positionError n a s.tracking by ring] at hsplit
  linarith [h.near]

/-- **A jog** adds its error. -/
theorem JogInv.jog {s t : Jogged} (h : JogInv n a s) {moveDis : Axis → ℚ} {attempts : List Attempt}
    {others : Axis → ℤ} (hok : JogOk n a s (.jog moveDis attempts others))
    (hstep : JogStep n a s (.jog moveDis attempts others) t) :
    JogInv n a t ∧ |((t.tracking.plannedSteps a - s.tracking.plannedSteps a : ℤ) : ℚ) - moveDis a * n| < 1 := by
  obtain ⟨hrange, hothers, hattempts, hz, hnear⟩ := hok
  obtain ⟨v, hmove, rfl⟩ := Option.map_eq_some_iff.mp hstep
  obtain ⟨b, hb, attr, hattr, hunit, hrem, hlatest, hplanned⟩ := jog_spec hmove
  obtain ⟨hn, hextruder⟩ := hattempts b hb attr hattr
  have hsteps : v.plannedSteps a = s.tracking.plannedSteps a + jogSteps n a (s.tracking.latestCoord a) (moveDis a) := by
    rw [hplanned a, hothers, add_zero, hn, jogSteps_flow hrange hextruder]
  refine ⟨⟨⟨fun ax => ?_, ?_⟩, ?_, fun ha => ?_, ?_⟩, ?_⟩
  · rw [hlatest ax]
    exact single_op_op _
  · rw [hrem]
    exact h.float.oldTarget
  · have hoffset := h.offset
    unfold Motion.offset Motion.positionError at hoffset ⊢
    dsimp only at hoffset ⊢
    rw [hsteps, hrem, hunit, hlatest a]
    unfold jogError
    push_cast
    refine le_trans (le_of_eq ?_) hoffset
    congr 1
    ring
  · rw [hrem]
    exact h.rest ha
  · dsimp only
    rw [hrem, ← add_assoc]
    exact hnear
  · dsimp only
    rw [hsteps, add_sub_cancel_left]
    exact jogSteps_near hrange (h.float.latestCoord a) hextruder hz

theorem JogInv.put {s : Jogged} (h : JogInv n a s) {b : Attempt} {c : MotionGcode}
    (hok : JogOk n a s (.putMotionCoord b c)) (hacc : b.Accepts) :
    JogInv n a ⟨s.tracking.put .single b c, s.drift,
      s.slack + moveSlack n (s.tracking.latestCoord a) (c.coord a)⟩ := by
  obtain ⟨attr, htaken⟩ := taken_of_accepts hacc
  obtain ⟨hn, hfollows, hnear⟩ := hok attr htaken
  obtain ⟨hoffset, hz⟩ := offset_put htaken hn hfollows h.rest
  refine ⟨h.float.put, ?_, fun ha => (hz ha).2, ?_⟩
  · have hsplit := abs_add_le (Motion.offset n a (s.tracking.put .single b c) - Motion.offset n a s.tracking)
      (Motion.offset n a s.tracking - s.drift)
    rw [sub_add_sub_cancel] at hsplit
    dsimp only
    linarith [h.offset]
  · have hcarried : carriedBy (s.tracking.put .single b c).remainder a =
        carriedBy (correctZAt .single n s.tracking.remainder (s.tracking.latestCoord a) (c.coord a)).2 a := by
      by_cases ha : a = .Z
      · rw [(hz ha).1]
      · rw [carriedBy_of_ne ha, carriedBy_of_ne ha]
    dsimp only
    rw [hcarried]
    exact hnear

/-- **Step lemma**: every event keeps the invariant. -/
theorem JogInv.step {s t : Jogged} (h : JogInv n a s) {e : JogEvent} (hok : JogOk n a s e)
    (hstep : JogStep n a s e t) : JogInv n a t := by
  cases e with
  | jog moveDis attempts others => exact (h.jog hok hstep).1
  | putMotionCoord b c =>
    obtain rfl := Option.some.inj hstep
    by_cases hacc : b.Accepts
    · rw [if_pos hacc]
      exact h.put hok hacc
    · rw [if_neg hacc, FloatMotion.put_refused hacc]
      exact h
  | setMotionUnitType unit =>
    obtain rfl := Option.some.inj hstep
    have hrem : (s.tracking.setMotionUnitType .single unit).remainder = s.tracking.remainder := by
      unfold FloatMotion.setMotionUnitType
      split_ifs <;> rfl
    have hoffset := @offset_unit n a s.tracking unit
    have hsplit := abs_add_le
      (Motion.offset n a (s.tracking.setMotionUnitType .single unit) - Motion.offset n a s.tracking)
      (Motion.offset n a s.tracking - s.drift)
    rw [sub_add_sub_cancel] at hsplit
    refine ⟨h.float.setMotionUnitType unit, ?_, fun ha => ?_, ?_⟩
    · dsimp only
      split_ifs at hoffset ⊢ <;> linarith [h.offset]
    · rw [hrem]
      exact h.rest ha
    · dsimp only
      rw [hrem]
      split_ifs with hinch
      · exact hok hinch
      · exact h.near

instance (flowRatio : ℚ) : Decidable (PlainFlowAt flowRatio) := inferInstanceAs (Decidable (_ ∨ _))

instance (flowRatio : ℚ) (retract : Bool) (current target : ℚ) :
    Decidable (ExtrudesAt flowRatio retract current target) :=
  inferInstanceAs (Decidable ((_ → _ ∨ _) ∧ (_ ∨ _)))

instance (n : ℕ) (flowRatio current d : ℚ) : Decidable (JogExtruderOk n flowRatio current d) := by
  unfold JogExtruderOk
  infer_instance

instance (n : ℕ) (a : Axis) (s : FloatMotion) (b : Attempt) (c : MotionGcode) : Decidable (FollowsOk n a s b c) := by
  unfold FollowsOk
  infer_instance

instance (n : ℕ) (a : Axis) (s : Jogged) : (e : JogEvent) → Decidable (JogOk n a s e)
  | .jog _ _ _ => inferInstanceAs (Decidable (_ ∧ _ ∧ (∀ b ∈ _, ∀ attr ∈ _, _ ∧ (_ → _)) ∧ (_ → _) ∧ _))
  | .putMotionCoord _ _ => inferInstanceAs (Decidable (∀ attr ∈ _, _ ∧ _ ∧ _))
  | .setMotionUnitType _ => inferInstanceAs (Decidable (_ → _))

instance (n : ℕ) (a : Axis) (s t : Jogged) : (e : JogEvent) → Decidable (JogKept n a s e t)
  | .jog _ _ _ => inferInstanceAs (Decidable (_ ∧ _ < _))
  | .putMotionCoord _ _ => inferInstanceAs (Decidable (_ ∧ True))
  | .setMotionUnitType _ => inferInstanceAs (Decidable (_ ∧ True))

/-- After power-on. -/
def startJogs : Jogged := ⟨startTracking.floats, 0, 0⟩

theorem jogInv_start (n : ℕ) (a : Axis) : JogInv n a startJogs := by
  refine ⟨⟨fun _ => Arithmetic.op_zero _, Arithmetic.op_zero _⟩, ?_, fun _ => ?_, ?_⟩
  · cases a <;> simp [offset, positionError, carriedBy, startJogs, Tracking.floats, startTracking, initMotion, inMmAt]
  · exact ⟨Arithmetic.op_zero _, by norm_num [startJogs, Tracking.floats, startTracking, initMotion]⟩
  · cases a <;> norm_num [carriedBy, startJogs, Tracking.floats, startTracking, initMotion]

/-- A jog of one axis, for steppers of `n` steps per millimeter. -/
def jogOf (n : ℕ) (a : Axis) (d : ℚ) : JogEvent :=
  .jog (fun b => if b = a then Arithmetic.single.assign d else 0) [⟨steppersOf n, Planner.init⟩] fun _ => 0

/-- The state after jogs of an axis, in a unit. -/
def afterJogs (n : ℕ) (a : Axis) (unit : MotionUnitType) (ds : List ℚ) : Jogged :=
  (JogEvent.setMotionUnitType unit :: ds.map (jogOf n a)).foldl (fun s e => (jogEvent n a s e).getD s) startJogs

theorem jogStep_afterJogs (n : ℕ) (a : Axis) (unit : MotionUnitType) (ds : List ℚ) (d : ℚ) :
    JogStep n a (afterJogs n a unit ds) (jogOf n a d) (afterJogs n a unit (ds ++ [d])) := by
  have hstep : ∀ s, jogEvent n a s (jogOf n a d) = some ((jogEvent n a s (jogOf n a d)).getD s) := fun _ => rfl
  unfold JogStep
  rw [hstep]
  unfold afterJogs
  rw [List.map_append, ← List.cons_append, List.foldl_append]
  rfl

-- Jogs of Z of a tenth of a millimeter, 40 steps: the fourth has 39 of them, for the rounding of its sum.
example :
    ((afterJogs 400 .Z .millimeter [1 / 10, 1 / 10, 1 / 10]).tracking.plannedSteps .Z = 120 ∧
      (afterJogs 400 .Z .millimeter [1 / 10, 1 / 10, 1 / 10, 1 / 10]).tracking.plannedSteps .Z = 159) ∧
      JogOk 400 .Z (afterJogs 400 .Z .millimeter [1 / 10, 1 / 10]) (jogOf 400 .Z (1 / 10)) ∧
      ¬JogOk 400 .Z (afterJogs 400 .Z .millimeter [1 / 10, 1 / 10, 1 / 10]) (jogOf 400 .Z (1 / 10)) := by
  decide +kernel

end Runs

end Cxsw.Motion
