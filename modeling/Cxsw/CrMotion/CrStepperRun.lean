import Mathlib.Algebra.BigOperators.Group.List.Basic
import Mathlib.Data.BitVec
import Cxsw.Lib.Run
import Cxsw.CrMotion.Bresenham

/-!
# Cxsw.CrMotion.CrStepperRun — the stepper interrupt (`CrMotion/CrStepperRun.cpp`)

`StepperInterrupt` takes a record from the FIFO, sets the direction pins when the direction byte differs from that of
the record before, and pulses the axes whose motion bits are set.  The position counters are changed where the
direction is set, not where the pulses are issued.

* `pinsMatch_interrupt`: a pulse goes in the direction that its record gives.
* `position_counts_iff`: the counters follow the pulses exactly when every record that changes the direction byte
  moves all axes, and every other record moves none.
* `position_misses_step`: a single step in the initial direction.
-/

namespace Cxsw.Motion

/-! ## The interrupt -/

section Defs

/-- What the interrupt works on: its static `MotionDir`, and `CurPosition` (an `S32`) and the direction pin of every
stepper. -/
structure StepperRun where
  motionDir : ℕ
  curPosition : Axis → BitVec 32
  dirPin : Axis → Dir

/-- The direction byte of a record, in place. -/
def motionDirOf (motionFlag : ℕ) : ℕ := motionFlag &&& 0xFF00

/-- The direction that the byte gives an axis: `(0x80 >> i) & MotionDir`. -/
def flagDir (motionDir : ℕ) (a : Axis) : Dir :=
  if (0x80 >>> a.index) &&& (motionDir >>> 8) ≠ 0 then .forward else .backward

/-- The step of the counter that goes with a direction. -/
def dirStep : Dir → BitVec 32
  | .forward => 1
  | .backward => -1

/-- `SetStepperDir`. -/
def setStepperDir (s : StepperRun) (motionFlag : ℕ) : StepperRun :=
  let motionDir := motionDirOf motionFlag
  { s with
    dirPin := flagDir motionDir
    curPosition := fun a => s.curPosition a + dirStep (flagDir motionDir a) }

/-- `MoveOneStep`: the axes that get a pulse, in order. -/
def moveOneStep (motionFlag : ℕ) : List Axis :=
  let motion := motionFlag &&& 0x00FF
  Axis.all.filter fun a => decide (motion &&& (0x80 >>> a.index) ≠ 0)

/-- `StepperInterrupt`, for a record it has read; the output is the pulses it issues. -/
def stepperInterrupt (s : StepperRun) (r : MotionPeriod) : StepperRun × List Axis :=
  let s :=
    if s.motionDir ≠ motionDirOf r.motionFlag then
      { setStepperDir s r.motionFlag with motionDir := motionDirOf r.motionFlag }
    else s
  (s, moveOneStep r.motionFlag)

/-- The state after the records `rs`. -/
def afterRecords (s : StepperRun) (rs : List MotionPeriod) : StepperRun := (mealy stepperInterrupt s rs).1

/-- The pulse that a record issues to an axis, signed by its direction bit. -/
def signedPulse (a : Axis) (r : MotionPeriod) : ℤ :=
  if a ∈ moveOneStep r.motionFlag then
    match flagDir (motionDirOf r.motionFlag) a with
    | .forward => 1
    | .backward => -1
  else 0

/-- The signed number of pulses that the records issue to an axis. -/
def netPulses (a : Axis) (rs : List MotionPeriod) : ℤ := (rs.map (signedPulse a)).sum

end Defs

/-! ## The direction pins -/

section Pins

/-- The pins show the direction byte that the interrupt remembers. -/
def PinsMatch (s : StepperRun) : Prop := ∀ a, s.dirPin a = flagDir s.motionDir a

/-- Every pulse goes in the direction of its record. -/
theorem pinsMatch_interrupt {s : StepperRun} (h : PinsMatch s) (r : MotionPeriod) :
    PinsMatch (stepperInterrupt s r).1 ∧ (stepperInterrupt s r).1.motionDir = motionDirOf r.motionFlag := by
  unfold stepperInterrupt
  dsimp only
  by_cases hd : s.motionDir ≠ motionDirOf r.motionFlag
  · rw [if_pos hd]
    exact ⟨fun a => rfl, rfl⟩
  · rw [if_neg hd]
    exact ⟨h, not_ne_iff.mp hd⟩

end Pins

/-! ## The counters -/

section Counters

/-- The record moves exactly the axes whose counters it changes. -/
def CountsOk (motionDir : ℕ) (r : MotionPeriod) : Prop :=
  ∀ a, a ∈ moveOneStep r.motionFlag ↔ motionDir ≠ motionDirOf r.motionFlag

theorem afterRecords_concat (s : StepperRun) (rs : List MotionPeriod) (r : MotionPeriod) :
    afterRecords s (rs ++ [r]) = (stepperInterrupt (afterRecords s rs) r).1 := by
  unfold afterRecords
  rw [mealy_append]
  rfl

theorem netPulses_concat (a : Axis) (rs : List MotionPeriod) (r : MotionPeriod) :
    netPulses a (rs ++ [r]) = netPulses a rs + signedPulse a r := by
  simp [netPulses]

theorem curPosition_interrupt (s : StepperRun) (r : MotionPeriod) (a : Axis) :
    (stepperInterrupt s r).1.curPosition a =
      s.curPosition a +
        if s.motionDir ≠ motionDirOf r.motionFlag then dirStep (flagDir (motionDirOf r.motionFlag) a) else 0 := by
  unfold stepperInterrupt setStepperDir
  dsimp only
  by_cases hd : s.motionDir ≠ motionDirOf r.motionFlag
  · rw [if_pos hd, if_pos hd]
  · rw [if_neg hd, if_neg hd]
    exact (BitVec.add_zero _).symm

theorem gain_eq_iff (motionDir : ℕ) (r : MotionPeriod) (a : Axis) :
    (if motionDir ≠ motionDirOf r.motionFlag then dirStep (flagDir (motionDirOf r.motionFlag) a) else 0) =
        BitVec.ofInt 32 (signedPulse a r) ↔
      (a ∈ moveOneStep r.motionFlag ↔ motionDir ≠ motionDirOf r.motionFlag) := by
  unfold signedPulse
  by_cases hd : motionDir ≠ motionDirOf r.motionFlag
  · rw [if_pos hd]
    by_cases hm : a ∈ moveOneStep r.motionFlag
    · rw [if_pos hm]
      cases flagDir (motionDirOf r.motionFlag) a with
      | forward => simp [hm, hd, dirStep]
      | backward => simp [hm, hd, dirStep]
    · rw [if_neg hm]
      cases flagDir (motionDirOf r.motionFlag) a with
      | forward => simp [hm, hd, dirStep]
      | backward => simp [hm, hd, dirStep]
  · rw [if_neg hd]
    by_cases hm : a ∈ moveOneStep r.motionFlag
    · rw [if_pos hm]
      cases flagDir (motionDirOf r.motionFlag) a with
      | forward => simp [hm, not_ne_iff.mp hd]
      | backward => simp [hm, not_ne_iff.mp hd]
    · rw [if_neg hm]
      simp [hm, not_ne_iff.mp hd]

/-- **The counters follow the pulses** after every record, for any start and any records, exactly when each record
moves all axes if it changes the direction byte, and none if it does not. -/
theorem position_counts_iff (s : StepperRun) (rs : List MotionPeriod) :
    (∀ pre, pre <+: rs → ∀ a,
        (afterRecords s pre).curPosition a = s.curPosition a + BitVec.ofInt 32 (netPulses a pre)) ↔
      ∀ pre r, pre ++ [r] <+: rs → CountsOk (afterRecords s pre).motionDir r := by
  have h0 : ∀ a, (afterRecords s []).curPosition a = s.curPosition a + BitVec.ofInt 32 (netPulses a []) := by
    intro a
    simp [afterRecords, mealy, netPulses]
  refine forall_prefix_iff
    (Q := fun pre => ∀ a, (afterRecords s pre).curPosition a = s.curPosition a + BitVec.ofInt 32 (netPulses a pre))
    (C := fun pre r => CountsOk (afterRecords s pre).motionDir r) h0 (fun pre r h => ?_) rs
  -- one record adds its gain on the left and its signed pulse on the right
  refine forall_congr' fun a => ?_
  rw [afterRecords_concat, curPosition_interrupt, h, netPulses_concat, BitVec.ofInt_add, ← BitVec.add_assoc,
    BitVec.add_right_inj]
  exact gain_eq_iff _ _ _

/-- The state after power-on: the pins of X, Y and Z are set forward, that of E is left low. -/
def initSteppers : StepperRun := ⟨0xFF00, fun _ => 0, fun a => if a = .E then .backward else .forward⟩

/-- **A step in the direction of the record before** is not counted, and a turn counts axes that stand still: X steps
forward, then Y steps while X is turned. -/
theorem position_misses_step :
    (afterRecords initSteppers [⟨0xFF80, 500⟩]).curPosition .X = 0 ∧ netPulses .X [⟨0xFF80, 500⟩] = 1 ∧
      (afterRecords initSteppers [⟨0xFF80, 500⟩, ⟨0x7F40, 500⟩]).curPosition .Z = 1 ∧
      netPulses .Z [⟨0xFF80, 500⟩, ⟨0x7F40, 500⟩] = 0 ∧
      ¬ ∀ pre, pre <+: [⟨0xFF80, 500⟩] → ∀ a,
        (afterRecords initSteppers pre).curPosition a =
          initSteppers.curPosition a + BitVec.ofInt 32 (netPulses a pre) := by
  have h1 : (afterRecords initSteppers [⟨0xFF80, 500⟩]).curPosition .X = 0 := by decide
  have h2 : netPulses .X [⟨0xFF80, 500⟩] = 1 := by decide
  refine ⟨h1, h2, by decide, by decide, fun h => ?_⟩
  have h3 := h [⟨0xFF80, 500⟩] (List.prefix_refl _) .X
  rw [h1, h2] at h3
  exact absurd h3 (by decide)

end Counters

end Cxsw.Motion
