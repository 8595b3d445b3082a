import Cxsw.CrConfig.CrParamConfig
import Cxsw.Lib.Run
import Cxsw.Lib.Single

/-!
# Cxsw.CrModel.MotionAttr — the motion attribute messages (`CrModel/CrMotion.cpp`)

`handleSetMotionAttrMsg` copies the motion parameters between a message and the attributes of the four steppers and of
the planner, whose fields have other types than the message's.  Singles are given by their bits.

* `report_setMotionAttr`, `value_held`: what a GET report made after a SET says, and when that is the message.
* `report_run`: the same after any sequence of messages.
* `answered_iff`: every GET is answered exactly when there is none.
-/

namespace Cxsw.MotionAttr

open Cxsw.Param

deriving instance DecidableEq for MotionParamXYZ, MotionParamE, ParamMotionParam

/-! ## Messages and attributes -/

section Messages

/-- `MotionMsgAction_t`; a zeroed structure has none of its values. -/
inductive MotionMsgAction where
  | none
  | setMotionMsg
  | getMotionMsg
  deriving DecidableEq

/-- `ViewMotionMsg_t`. -/
structure ViewMotionMsg where
  motionParam : ParamMotionParam
  filamentPatternAction : BitVec 8
  action : MotionMsgAction
  diameter : BitVec 32
  deriving DecidableEq

/-- `StepperAttr_t`. -/
structure StepperAttr where
  subDivision : BitVec 32
  stepsPerMm : BitVec 32
  stepAngle : BitVec 32
  perimeter : BitVec 32

/-- `StepperMotionAttr_t`. -/
structure StepperMotionAttr where
  velocity : BitVec 32
  maxVelocity : BitVec 32
  minVelocity : BitVec 32
  acceleration : BitVec 32
  deceleration : BitVec 32
  jerk : BitVec 32

/-- The two attribute structures of an axis. -/
structure Stepper where
  attr : StepperAttr
  motionAttr : StepperMotionAttr

/-- `FeedrateAttr_t`. -/
structure FeedrateAttr where
  feedrateRatio : BitVec 32
  feedrate : BitVec 32
  jerk : BitVec 32
  jerkE : BitVec 32
  flowRatio : BitVec 32
  retractRate : BitVec 32
  extrudeRate : BitVec 32
  retractAccel : BitVec 32
  travelAccelXYZ : BitVec 32
  accelXYZ : BitVec 32
  travelVelMinXYZ : BitVec 32
  velMinXYZ : BitVec 32

/-- The attributes the messages are about: those of the steppers and of the planner, and two members of `CrMotion`. -/
structure CrMotion where
  stepperX : Stepper
  stepperY : Stepper
  stepperZ : Stepper
  stepperE : Stepper
  feedrateAttr : FeedrateAttr
  diameter : BitVec 32
  enableVolumePattern : BitVec 8

/-- A stepper whose attributes are not set. -/
def zeroStepper : Stepper := ⟨⟨0, 0, 0, 0⟩, ⟨0, 0, 0, 0, 0, 0⟩⟩

/-- The planner's attributes before they are set. -/
def zeroFeedrate : FeedrateAttr := ⟨0, 0, 0, 0, 0, 0, 0, 0, 0, 0, 0, 0⟩

def zeroXYZ : MotionParamXYZ := ⟨0, 0, 0, 0⟩

/-- `struct ViewMotionMsg_t OutAttr = {0}`. -/
def zeroMsg : ViewMotionMsg := ⟨⟨zeroXYZ, zeroXYZ, zeroXYZ, ⟨zeroXYZ, 0⟩, 0, 0, 0, 0, 0, 0⟩, 0, .none, 0⟩

end Messages

/-! ## The handler -/

section Handler

/-- GET of one axis: `Jerk` and `StepsPerMm` become singles. -/
def getAxis (st : Stepper) : MotionParamXYZ where
  maxVel := st.motionAttr.maxVelocity
  maxAccel := st.motionAttr.acceleration
  jerk := floatOfInt st.motionAttr.jerk.toInt
  stepsPerMm := floatOfInt st.attr.stepsPerMm.toNat

/-- SET of one axis: `Jerk` becomes an `S32` and `StepsPerMm` a `U32`. -/
def setAxis (st : Stepper) (p : MotionParamXYZ) : Stepper where
  attr := { st.attr with stepsPerMm := u32OfFloat p.stepsPerMm }
  motionAttr := { st.motionAttr with
    maxVelocity := p.maxVel
    acceleration := p.maxAccel
    jerk := s32OfFloat p.jerk }

/-- The GET branch, which fills `OutAttr`. -/
def getMotionAttr (c : CrMotion) (outAttr : ViewMotionMsg) : ViewMotionMsg where
  motionParam :=
    { stepperXAttr := getAxis c.stepperX
      stepperYAttr := getAxis c.stepperY
      stepperZAttr := getAxis c.stepperZ
      stepperEAttr := ⟨getAxis c.stepperE, s32OfFloat c.feedrateAttr.retractAccel⟩
      travelAccelXYZ := c.feedrateAttr.travelAccelXYZ
      accelXYZ := c.feedrateAttr.accelXYZ
      travelVelMinXYZ := c.feedrateAttr.travelVelMinXYZ
      velMinXYZ := c.feedrateAttr.velMinXYZ
      printRatio := c.feedrateAttr.feedrateRatio.setWidth 16
      flowRatio := s16OfFloat c.feedrateAttr.flowRatio }
  filamentPatternAction := c.enableVolumePattern
  action := outAttr.action
  diameter := c.diameter

/-- The SET branch. -/
def setMotionAttr (c : CrMotion) (recvAttr : ViewMotionMsg) : CrMotion where
  stepperX := setAxis c.stepperX recvAttr.motionParam.stepperXAttr
  stepperY := setAxis c.stepperY recvAttr.motionParam.stepperYAttr
  stepperZ := setAxis c.stepperZ recvAttr.motionParam.stepperZAttr
  stepperE := setAxis c.stepperE recvAttr.motionParam.stepperEAttr.param
  feedrateAttr := { c.feedrateAttr with
    retractAccel := floatOfInt recvAttr.motionParam.stepperEAttr.retractAccel.toInt
    velMinXYZ := recvAttr.motionParam.velMinXYZ
    travelAccelXYZ := recvAttr.motionParam.travelAccelXYZ
    travelVelMinXYZ := recvAttr.motionParam.travelVelMinXYZ
    accelXYZ := recvAttr.motionParam.accelXYZ
    feedrateRatio := recvAttr.motionParam.printRatio.signExtend 32
    flowRatio := floatOfInt recvAttr.motionParam.flowRatio.toInt }
  diameter := recvAttr.diameter
  enableVolumePattern := recvAttr.filamentPatternAction

/-- `HandleSetMotionAttrMsg` of a whole message: its result, the attributes and `OutAttr`. -/
def handleSetMotionAttrMsg (c : CrMotion) (recvAttr outAttr : ViewMotionMsg) : ℤ × CrMotion × ViewMotionMsg :=
  match recvAttr.action with
  | .getMotionMsg => (0, c, getMotionAttr c outAttr)
  | .setMotionMsg => (0, setMotionAttr c recvAttr, recvAttr)
  | .none => (0, c, outAttr)

/-- `SetMotionAttrMsgOpt` for a received message, with the messages it sends. -/
def setMotionAttrMsgOpt (c : CrMotion) (recvAttr : ViewMotionMsg) : CrMotion × List ViewMotionMsg :=
  let (_, c', _) := handleSetMotionAttrMsg c recvAttr zeroMsg
  -- `if (… < 0);` is closed by the semicolon: the `return` behind it is always taken and no `CrMsgSend` follows
  (c', [])

/-- The attributes after some messages. -/
def attrAfter (c : CrMotion) (msgs : List ViewMotionMsg) : CrMotion := (mealy setMotionAttrMsgOpt c msgs).1

theorem setMotionAttrMsgOpt_set {c : CrMotion} {m : ViewMotionMsg} (h : m.action = .setMotionMsg) :
    (setMotionAttrMsgOpt c m).1 = setMotionAttr c m := by
  simp [setMotionAttrMsgOpt, handleSetMotionAttrMsg, h]

theorem setMotionAttrMsgOpt_other {c : CrMotion} {m : ViewMotionMsg} (h : m.action ≠ .setMotionMsg) :
    (setMotionAttrMsgOpt c m).1 = c := by
  rcases hm : m.action with _ | _ | _
  · simp [setMotionAttrMsgOpt, handleSetMotionAttrMsg, hm]
  · exact absurd hm h
  · simp [setMotionAttrMsgOpt, handleSetMotionAttrMsg, hm]

@[simp] theorem attrAfter_nil (c : CrMotion) : attrAfter c [] = c := rfl

theorem attrAfter_concat (c : CrMotion) (msgs : List ViewMotionMsg) (m : ViewMotionMsg) :
    attrAfter c (msgs ++ [m]) = (setMotionAttrMsgOpt (attrAfter c msgs) m).1 := by
  simp [attrAfter, mealy_append, mealy]

end Handler

/-! ## The parameters of a message -/

section Values

/-- The value of a single: the two zeros are one. -/
def floatValue (x : BitVec 32) : BitVec 32 := if x <<< 1 = 0 then 0 else x

/-- The parameters of an axis. -/
def axisValue (p : MotionParamXYZ) : MotionParamXYZ :=
  { p with jerk := floatValue p.jerk, stepsPerMm := floatValue p.stepsPerMm }

/-- The parameters a message carries, its action left out. -/
def ViewMotionMsg.value (m : ViewMotionMsg) : ViewMotionMsg where
  motionParam := { m.motionParam with
    stepperXAttr := axisValue m.motionParam.stepperXAttr
    stepperYAttr := axisValue m.motionParam.stepperYAttr
    stepperZAttr := axisValue m.motionParam.stepperZAttr
    stepperEAttr := { m.motionParam.stepperEAttr with param := axisValue m.motionParam.stepperEAttr.param } }
  filamentPatternAction := m.filamentPatternAction
  action := .none
  diameter := m.diameter

/-- What the attributes hold of an axis' parameters. -/
def heldAxis (p : MotionParamXYZ) : MotionParamXYZ :=
  { p with jerk := floatOfInt (s32OfFloat p.jerk).toInt, stepsPerMm := floatOfInt (u32OfFloat p.stepsPerMm).toNat }

/-- What they hold of a message. -/
def held (m : ViewMotionMsg) : ViewMotionMsg where
  motionParam := { m.motionParam with
    stepperXAttr := heldAxis m.motionParam.stepperXAttr
    stepperYAttr := heldAxis m.motionParam.stepperYAttr
    stepperZAttr := heldAxis m.motionParam.stepperZAttr
    stepperEAttr :=
      ⟨heldAxis m.motionParam.stepperEAttr.param,
        s32OfFloat (floatOfInt m.motionParam.stepperEAttr.retractAccel.toInt)⟩ }
  filamentPatternAction := m.filamentPatternAction
  action := .none
  diameter := m.diameter

/-- `Jerk` of an axis is a whole number of 32 bits, `StepsPerMm` one without sign. -/
def AxisSurvives (p : MotionParamXYZ) : Prop :=
  floatValue (floatOfInt (s32OfFloat p.jerk).toInt) = floatValue p.jerk ∧
    floatValue (floatOfInt (u32OfFloat p.stepsPerMm).toNat) = floatValue p.stepsPerMm

/-- The message that the attributes can hold. -/
def Survives (m : ViewMotionMsg) : Prop :=
  AxisSurvives m.motionParam.stepperXAttr ∧ AxisSurvives m.motionParam.stepperYAttr ∧
    AxisSurvives m.motionParam.stepperZAttr ∧ AxisSurvives m.motionParam.stepperEAttr.param ∧
    s32OfFloat (floatOfInt m.motionParam.stepperEAttr.retractAccel.toInt) = m.motionParam.stepperEAttr.retractAccel

instance (p : MotionParamXYZ) : Decidable (AxisSurvives p) := inferInstanceAs (Decidable (_ ∧ _))

instance (m : ViewMotionMsg) : Decidable (Survives m) := inferInstanceAs (Decidable (_ ∧ _ ∧ _ ∧ _ ∧ _))

/-- What a GET reports. -/
def report (c : CrMotion) : ViewMotionMsg := getMotionAttr c zeroMsg

theorem axisValue_held (p : MotionParamXYZ) : axisValue (heldAxis p) = axisValue p ↔ AxisSurvives p := by
  cases p
  simp [axisValue, heldAxis, AxisSurvives]

theorem printRatio_survives (r : BitVec 16) : (r.signExtend 32).setWidth 16 = r := by
  ext i hi
  have hi32 : i < 32 := by omega
  simp [BitVec.getElem_signExtend, hi32, hi]

theorem flowRatio_survives (r : BitVec 16) : s16OfFloat (floatOfInt r.toInt) = r := by
  have hlow : -2 ^ 15 ≤ r.toInt := BitVec.le_toInt r
  have hhigh : r.toInt < 2 ^ 15 := BitVec.toInt_lt
  rw [s16OfFloat, s32OfFloat_floatOfInt (by omega)]
  apply BitVec.eq_of_toInt_eq
  rw [BitVec.toInt_setWidth, BitVec.toNat_ofInt]
  simp only [Int.bmod_def]
  omega

/-- The report after a SET, whatever the attributes were. -/
theorem report_setMotionAttr (c : CrMotion) (m : ViewMotionMsg) : report (setMotionAttr c m) = held m := by
  simp only [report, getMotionAttr, setMotionAttr, held, printRatio_survives, flowRatio_survives]
  rfl

/-- It is the message exactly when the attributes can hold that. -/
theorem value_held (m : ViewMotionMsg) : (held m).value = m.value ↔ Survives m := by
  simp only [held, ViewMotionMsg.value, ViewMotionMsg.mk.injEq, ParamMotionParam.mk.injEq, MotionParamE.mk.injEq,
    axisValue_held, Survives, and_true]

end Values

/-! ## Sequences of messages -/

section Sequences

/-- The parameters of the last SET, or those reported at the start. -/
def lastValue (c : CrMotion) (msgs : List ViewMotionMsg) : ViewMotionMsg :=
  msgs.foldl (fun v m => if m.action = .setMotionMsg then m.value else v) (report c).value

/-- The last SET. -/
def lastSet (msgs : List ViewMotionMsg) : Option ViewMotionMsg :=
  msgs.foldl (fun last m => if m.action = .setMotionMsg then some m else last) none

theorem lastValue_concat (c : CrMotion) (msgs : List ViewMotionMsg) (m : ViewMotionMsg) :
    lastValue c (msgs ++ [m]) = if m.action = .setMotionMsg then m.value else lastValue c msgs := by
  simp [lastValue]

theorem lastSet_concat (msgs : List ViewMotionMsg) (m : ViewMotionMsg) :
    lastSet (msgs ++ [m]) = if m.action = .setMotionMsg then some m else lastSet msgs := by
  simp [lastSet]

/-- **What a GET would report** after any messages: the last SET, exactly when the attributes can hold it. -/
theorem report_run (c : CrMotion) (msgs : List ViewMotionMsg) :
    (report (attrAfter c msgs)).value = lastValue c msgs ↔ ∀ m ∈ lastSet msgs, Survives m := by
  induction msgs using List.reverseRecOn with
  | nil => simp [lastValue, lastSet]
  | append_singleton msgs m ih =>
    rw [attrAfter_concat, lastValue_concat, lastSet_concat]
    by_cases hm : m.action = .setMotionMsg
    · rw [setMotionAttrMsgOpt_set hm, if_pos hm, if_pos hm, report_setMotionAttr, value_held]
      simp
    · rw [setMotionAttrMsgOpt_other hm, if_neg hm, if_neg hm]
      exact ih

/-- Every GET is answered by one message, which carries the parameters of the last SET. -/
def GetsAnswered (c : CrMotion) (msgs : List ViewMotionMsg) : Prop :=
  ∀ pre m, pre ++ [m] <+: msgs → m.action = .getMotionMsg →
    ∃ answer, (setMotionAttrMsgOpt (attrAfter c pre) m).2 = [answer] ∧ answer.value = lastValue c pre

/-- Nothing is ever sent, so every GET is answered exactly when there is none. -/
theorem answered_iff (c : CrMotion) (msgs : List ViewMotionMsg) :
    GetsAnswered c msgs ↔ ∀ m ∈ msgs, m.action ≠ .getMotionMsg := by
  constructor
  · intro h m hm hget
    obtain ⟨pre, post, rfl⟩ := List.append_of_mem hm
    have hpre : pre ++ [m] <+: pre ++ m :: post := ⟨post, by simp⟩
    obtain ⟨answer, hsent, -⟩ := h pre m hpre hget
    simp [setMotionAttrMsgOpt] at hsent
  · intro h pre m hpre hget
    have hm : m ∈ msgs := hpre.subset (by simp)
    exact absurd hget (h m hm)

/-- A single GET, on attributes that are all 0, gets no answer. -/
theorem get_unanswered :
    ¬ GetsAnswered ⟨zeroStepper, zeroStepper, zeroStepper, zeroStepper, zeroFeedrate, 0, 0⟩
      [{ zeroMsg with action := .getMotionMsg }] := by
  intro h
  obtain ⟨answer, hsent, -⟩ := h [] _ (List.prefix_refl _) rfl
  simp [setMotionAttrMsgOpt] at hsent

end Sequences

end Cxsw.MotionAttr
