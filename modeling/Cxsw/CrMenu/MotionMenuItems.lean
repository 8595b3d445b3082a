import Cxsw.CrModel.CrParam

/-!
# Cxsw.CrMenu.MotionMenuItems — editing the motion parameters (`CrMenu/MenuItem/`)

The editors of `VelocityMenuItem.cpp`, `StepsMenuItem.cpp` and `FilamentMenuItem.cpp` work on one snapshot `MotionAttr`
of the parameters: a refresh replaces it by what the shared queue returns, the up and down actions change a field of it,
and OK sends it whole, to the parameter model and to the motion model.

* `OkKept`: what an OK owes to the parameters it does not edit and to the motion model.
* `okKept_iff`: the snapshots and queues for which it does.
* `oks_kept_iff`: the runs in which all OKs do, among them those of edits that are answered in time.
-/

namespace Cxsw.MotionMenu

open Cxsw.MsgQueue Cxsw.MotionAttr Cxsw.Param Cxsw.ParamModel

/-! ## The items -/

section Items

/-- The files, each with its own `PrevTick`. -/
inductive Editor where
  | velocity
  | steps
  | filament
  deriving DecidableEq

/-- The menu items, named after their functions. -/
inductive Item where
  | vmaxX
  | vmaxY
  | vmaxZ
  | vmaxE
  | vmin
  | vTravMin
  | xsteps
  | ysteps
  | zsteps
  | esteps
  | filament
  | filamentMenu
  deriving DecidableEq

def Item.editor : Item → Editor
  | .vmaxX | .vmaxY | .vmaxZ | .vmaxE | .vmin | .vTravMin => .velocity
  | .xsteps | .ysteps | .zsteps | .esteps => .steps
  | .filament | .filamentMenu => .filament

/-- The field of an item. -/
def Item.get (i : Item) (m : ViewMotionMsg) : BitVec 32 :=
  match i with
  | .vmaxX => m.motionParam.stepperXAttr.maxVel
  | .vmaxY => m.motionParam.stepperYAttr.maxVel
  | .vmaxZ => m.motionParam.stepperZAttr.maxVel
  | .vmaxE => m.motionParam.stepperEAttr.param.maxVel
  | .vmin => m.motionParam.velMinXYZ
  | .vTravMin => m.motionParam.travelVelMinXYZ
  | .xsteps => m.motionParam.stepperXAttr.stepsPerMm
  | .ysteps => m.motionParam.stepperYAttr.stepsPerMm
  | .zsteps => m.motionParam.stepperZAttr.stepsPerMm
  | .esteps => m.motionParam.stepperEAttr.param.stepsPerMm
  | .filament => m.diameter
  | .filamentMenu => m.filamentPatternAction.setWidth 32

def Item.set (i : Item) (v : BitVec 32) (m : ViewMotionMsg) : ViewMotionMsg :=
  match i with
  | .vmaxX => { m with motionParam.stepperXAttr.maxVel := v }
  | .vmaxY => { m with motionParam.stepperYAttr.maxVel := v }
  | .vmaxZ => { m with motionParam.stepperZAttr.maxVel := v }
  | .vmaxE => { m with motionParam.stepperEAttr.param.maxVel := v }
  | .vmin => { m with motionParam.velMinXYZ := v }
  | .vTravMin => { m with motionParam.travelVelMinXYZ := v }
  | .xsteps => { m with motionParam.stepperXAttr.stepsPerMm := v }
  | .ysteps => { m with motionParam.stepperYAttr.stepsPerMm := v }
  | .zsteps => { m with motionParam.stepperZAttr.stepsPerMm := v }
  | .esteps => { m with motionParam.stepperEAttr.param.stepsPerMm := v }
  | .filament => { m with diameter := v }
  | .filamentMenu => { m with filamentPatternAction := v.setWidth 8 }

/-- The other parameters: the field of the item and the action left out. -/
def others (i : Item) (m : ViewMotionMsg) : ViewMotionMsg := { i.set 0 m with action := .none }

/-- The up action.  `FilamentMenuOKAction` turns its pattern over instead, before it sends. -/
def upAction (i : Item) (m : ViewMotionMsg) : ViewMotionMsg :=
  match i with
  | .vmaxX | .vmaxY | .vmaxZ | .vmaxE | .vmin | .vTravMin => if (i.get m).toInt < 999 then i.set (i.get m + 1) m else m
  | .xsteps | .ysteps | .zsteps | .esteps => i.set (floatAdd (i.get m) (floatConst 0.1)) m
  | .filament =>
    if FloatLt (i.get m) (floatConst 3.250) then i.set (floatAdd (i.get m) (floatConst 0.001)) m else m
  | .filamentMenu => i.set (if i.get m = 1 then 2 else 1) m

/-- The down action. -/
def downAction (i : Item) (m : ViewMotionMsg) : ViewMotionMsg :=
  match i with
  | .vmaxX | .vmaxY | .vmaxZ | .vmaxE => if 1 < (i.get m).toInt then i.set (i.get m - 1) m else m
  | .vmin | .vTravMin => if 0 < (i.get m).toInt then i.set (i.get m - 1) m else m
  | .xsteps | .ysteps | .zsteps | .esteps =>
    if FloatLt (floatConst 5.0) (i.get m) then i.set (floatSub (i.get m) (floatConst 0.1)) m else m
  | .filament =>
    if FloatLt (floatConst 1.501) (i.get m) then i.set (floatSub (i.get m) (floatConst 0.001)) m else m
  | .filamentMenu => m

@[simp] theorem others_set (i : Item) (v : BitVec 32) (m : ViewMotionMsg) : others i (i.set v m) = others i m := by
  cases i <;> rfl

@[simp] theorem others_action (i : Item) (m : ViewMotionMsg) (a : MotionMsgAction) :
    others i { m with action := a } = others i m := by
  cases i <;> rfl

theorem others_ite (i : Item) (c : Prop) [Decidable c] (v : BitVec 32) (m : ViewMotionMsg) :
    others i (if c then i.set v m else m) = others i m := by
  split
  · exact others_set i v m
  · rfl

/-- The actions change only the field of their item. -/
theorem others_upAction (i : Item) (m : ViewMotionMsg) : others i (upAction i m) = others i m := by
  cases i with
  | xsteps | ysteps | zsteps | esteps | filamentMenu => exact others_set _ _ m
  | _ => exact others_ite _ _ _ m

theorem others_downAction (i : Item) (m : ViewMotionMsg) : others i (downAction i m) = others i m := by
  cases i with
  | filamentMenu => rfl
  | _ => exact others_ite _ _ _ m

end Items

/-! ## The editors and the two models -/

section Editors

/-- The snapshot, the tick of each editor, the parameter model, the motion model and its queue.  No code reads `lastOk`,
the message of the last OK whose two sends succeeded. -/
structure System where
  motionAttr : ViewMotionMsg
  prevTick : Editor → BitVec 32
  param : ParamQueues ViewMotionMsg ViewMotionMsg
  motionQueue : List ViewMotionMsg
  motion : CrMotion
  lastOk : ViewMotionMsg

variable (maxMsg : ℕ)

/-- `UpdateVelocityParam`, `UpdateStepsParm` and `UpdateFilamentParam`; `served` passes of the parameter model fall into
the sleep between request and answer. -/
def update (e : Editor) (tick : BitVec 32) (served : ℕ) (s : System) : System :=
  if checkTimeout (s.prevTick e) tick then { s with prevTick := Function.update s.prevTick e tick }
  else
    let request := { s.motionAttr with action := .getMotionMsg }
    let (reply, param) := getParm maxMsg handleMotionMsg request served s.param
    let attr := reply.getD request
    { s with
      motionAttr :=
        if e = .filament ∧ FloatLt attr.diameter (floatConst 1.50) then { attr with diameter := floatConst 1.50 }
        else attr
      prevTick := Function.update s.prevTick e tick
      param := param }

/-- `SendParamAndWait` and `SendDataAndWait`. -/
def sendParamAndWait (e : Editor) (s : System) : System :=
  let msg := { s.motionAttr with action := .setMotionMsg }
  let (ret, requests) := queueSendMsg maxMsg msg s.param.requests
  let (result, motionQueue) := queueSendMsg maxMsg msg s.motionQueue
  { motionAttr := msg
    -- `ClearFilamentShowTime`
    prevTick := if e = .filament ∧ (ret ∨ result) then Function.update s.prevTick e 0 else s.prevTick
    param := { s.param with requests := requests }
    motionQueue := motionQueue
    motion := s.motion
    lastOk := if ret ∧ result then msg else s.lastOk }

/-- One pass of `CrMotion::Exec`. -/
def motionExec (s : System) : System :=
  match s.motionQueue with
  | [] => s
  | m :: rest => { s with motionQueue := rest, motion := (setMotionAttrMsgOpt s.motion m).1 }

/-- What happens: the actions of the menu, and passes of the models between them. -/
inductive MenuAct where
  | update (e : Editor) (tick : BitVec 32) (served : ℕ)
  | up (i : Item)
  | down (i : Item)
  | ok (i : Item)
  | paramExec
  | motionExec

def step (s : System) (a : MenuAct) : System :=
  match a with
  | .update e tick served => update maxMsg e tick served s
  | .up i => { s with motionAttr := upAction i s.motionAttr }
  | .down i => { s with motionAttr := downAction i s.motionAttr }
  | .ok i => sendParamAndWait maxMsg i.editor s
  | .paramExec => { s with param := motionMsgOpt maxMsg s.param }
  | .motionExec => motionExec s

/-- The parameters of the parameter model, once it has handled what waits. -/
def System.paramFuture (s : System) : ViewMotionMsg := s.param.future handleMotionMsg

/-- The attributes of the motion model, once it has handled what waits. -/
def System.motionFuture (s : System) : CrMotion := attrAfter s.motion s.motionQueue

/-- The send to the parameter model will succeed. -/
def System.ParamRoom (s : System) : Prop := s.param.requests.length < maxMsg

/-- The send to the motion model will succeed. -/
def System.MotionRoom (s : System) : Prop := s.motionQueue.length < maxMsg

instance (s : System) : Decidable (s.ParamRoom maxMsg) := inferInstanceAs (Decidable (_ < _))

instance (s : System) : Decidable (s.MotionRoom maxMsg) := inferInstanceAs (Decidable (_ < _))

end Editors

/-! ## What an OK keeps -/

section Kept

variable (maxMsg : ℕ)

/-- If both sends of an OK succeed, then the parameters other than the edited one are those that the parameter model had
and those of the last such OK; in any case the two models hold the same values afterwards. -/
def OkKept (s : System) (i : Item) : Prop :=
  let t := step maxMsg s (.ok i)
  (s.ParamRoom maxMsg ∧ s.MotionRoom maxMsg →
      others i t.paramFuture = others i s.paramFuture ∧ others i t.paramFuture = others i s.lastOk) ∧
    (report t.motionFuture).value = t.paramFuture.value

/-- Which sends succeed, and the snapshots that are right then. -/
def OkCondition (s : System) (i : Item) : Prop :=
  if s.ParamRoom maxMsg then
    if s.MotionRoom maxMsg then
      others i s.motionAttr = others i s.paramFuture ∧ others i s.motionAttr = others i s.lastOk ∧
        Survives s.motionAttr
    else s.motionAttr.value = (report s.motionFuture).value
  else if s.MotionRoom maxMsg then (held s.motionAttr).value = s.paramFuture.value
  else (report s.motionFuture).value = s.paramFuture.value

/-- A property of the OKs of a run. -/
def AtOk (P : System → Item → Prop) (s : System) (a : MenuAct) : Prop :=
  match a with
  | .ok i => P s i
  | _ => True

instance (s : System) (i : Item) : Decidable (OkCondition maxMsg s i) := by
  delta OkCondition
  infer_instance

instance (P : System → Item → Prop) [∀ s i, Decidable (P s i)] (s : System) (a : MenuAct) : Decidable (AtOk P s a) :=
  match a with
  | .ok i => inferInstanceAs (Decidable (P s i))
  | .update _ _ _ | .up _ | .down _ | .paramExec | .motionExec => isTrue trivial

variable {maxMsg} {s : System}

theorem paramFuture_ok (s : System) (i : Item) :
    (step maxMsg s (.ok i)).paramFuture =
      if s.ParamRoom maxMsg then { s.motionAttr with action := .setMotionMsg } else s.paramFuture := by
  by_cases h : s.ParamRoom maxMsg
  · have hlen : s.param.requests.length < maxMsg := h
    rw [if_pos h]
    simp only [step, sendParamAndWait, queueSendMsg, if_pos hlen, System.paramFuture, future_request]
    simp [handleMotionMsg]
  · have hlen : ¬ s.param.requests.length < maxMsg := h
    rw [if_neg h]
    simp only [step, sendParamAndWait, queueSendMsg, if_neg hlen, System.paramFuture]

theorem motionFuture_ok (s : System) (i : Item) :
    (report (step maxMsg s (.ok i)).motionFuture).value =
      if s.MotionRoom maxMsg then (held s.motionAttr).value else (report s.motionFuture).value := by
  by_cases h : s.MotionRoom maxMsg
  · have hlen : s.motionQueue.length < maxMsg := h
    rw [if_pos h]
    simp only [step, sendParamAndWait, queueSendMsg, if_pos hlen, System.motionFuture, attrAfter_concat]
    rw [setMotionAttrMsgOpt_set rfl, report_setMotionAttr]
    rfl
  · have hlen : ¬ s.motionQueue.length < maxMsg := h
    rw [if_neg h]
    simp only [step, sendParamAndWait, queueSendMsg, if_neg hlen, System.motionFuture]

/-- **One OK** keeps what it owes exactly on the condition. -/
theorem okKept_iff (s : System) (i : Item) : OkKept maxMsg s i ↔ OkCondition maxMsg s i := by
  simp only [OkKept, OkCondition, paramFuture_ok, motionFuture_ok]
  by_cases hp : s.ParamRoom maxMsg <;> by_cases hm : s.MotionRoom maxMsg
  · simp only [hp, hm, and_self, if_true, forall_const, others_action]
    rw [and_assoc, ← value_held]
    exact Iff.rfl
  · simp only [hp, hm, and_false, if_true, if_false, false_implies, true_and]
    exact eq_comm
  · simp only [hp, hm, false_and, if_true, if_false, false_implies, true_and]
  · simp only [hp, hm, and_self, if_false, false_implies, true_and]

theorem atOk_kept_iff (s : System) (a : MenuAct) :
    AtOk (OkKept maxMsg) s a ↔ AtOk (OkCondition maxMsg) s a := by
  cases a with
  | ok i => exact okKept_iff s i
  | _ => exact Iff.rfl

end Kept

/-! ## Edits that are answered in time -/

section Edits

/-- An edit: the refresh, up (`true`) and down actions, OK, and the passes of the models that follow. -/
structure Edit where
  item : Item
  tick : BitVec 32
  served : ℕ
  ups : List Bool

def Edit.change (e : Edit) (up : Bool) : MenuAct := if up then .up e.item else .down e.item

def Edit.acts (e : Edit) : List MenuAct :=
  .update e.item.editor e.tick e.served :: e.ups.map e.change ++ [.ok e.item, .paramExec, .motionExec]

/-- The state in which an edit is confirmed. -/
def Edit.atOk (e : Edit) (s : System) : System :=
  (e.ups.map e.change).foldl (step 1) (step 1 s (.update e.item.editor e.tick e.served))

/-- All parameters of a message. -/
def parameters (m : ViewMotionMsg) : ViewMotionMsg := { m with action := .none }

/-- Nothing waits, the two models agree with each other and with the last OK, and a snapshot that was refreshed agrees
with them. -/
structure Synced (s : System) : Prop where
  requests : s.param.requests = []
  reports : s.param.reports.queue.length ≤ 1
  motionQueue : s.motionQueue = []
  motion : (report s.motion).value = s.param.value.value
  lastOk : parameters s.param.value = parameters s.lastOk
  fresh : ∀ e, s.prevTick e ≠ 0 → parameters s.motionAttr = parameters s.param.value

/-- The refresh is answered in time with a diameter that the filament editor does not raise, and what is sent in the end
survives. -/
def Timely (s : System) (e : Edit) : Prop :=
  0 < e.served ∧ ¬ FloatLt s.param.value.diameter (floatConst 1.50) ∧ Survives (e.atOk s).motionAttr

theorem others_congr {a b : ViewMotionMsg} (h : parameters a = parameters b) (i : Item) : others i a = others i b := by
  rw [← others_action i a .none, ← others_action i b .none]
  exact congrArg (others i) h

/-- The actions of an edit change the field of its item in the snapshot, and nothing else. -/
theorem foldl_change (e : Edit) (ups : List Bool) (s : System) :
    ∃ m, (ups.map e.change).foldl (step 1) s = { s with motionAttr := m } ∧
      others e.item m = others e.item s.motionAttr := by
  induction ups generalizing s with
  | nil => exact ⟨s.motionAttr, rfl, rfl⟩
  | cons up ups ih =>
    obtain ⟨m, hm, hothers⟩ := ih (step 1 s (e.change up))
    cases up with
    | true => exact ⟨m, hm, hothers.trans (others_upAction e.item s.motionAttr)⟩
    | false => exact ⟨m, hm, hothers.trans (others_downAction e.item s.motionAttr)⟩

theorem Synced.update {s : System} (hs : Synced s) (ed : Editor) (tick : BitVec 32) {served : ℕ} (hserved : 0 < served)
    (hdiameter : ¬ FloatLt s.param.value.diameter (floatConst 1.50)) :
    Synced (step 1 s (.update ed tick served)) ∧
      parameters (step 1 s (.update ed tick served)).motionAttr =
        parameters (step 1 s (.update ed tick served)).param.value := by
  by_cases hskip : checkTimeout (s.prevTick ed) tick = true
  · have hstep : step 1 s (.update ed tick served) = { s with prevTick := Function.update s.prevTick ed tick } := by
      simp only [step, MotionMenu.update, if_pos hskip]
    have hprev : s.prevTick ed ≠ 0 := by
      simp only [checkTimeout, Bool.and_eq_true, decide_eq_true_eq] at hskip
      exact hskip.1
    have hfresh := hs.fresh ed hprev
    rw [hstep]
    exact ⟨⟨hs.requests, hs.reports, hs.motionQueue, hs.motion, hs.lastOk, fun _ _ => hfresh⟩, hfresh⟩
  · have hget : ∀ v, handleMotionMsg v { s.motionAttr with action := .getMotionMsg } = v := fun v => rfl
    have hstep : step 1 s (.update ed tick served) =
        { s with
          motionAttr := s.param.value
          prevTick := Function.update s.prevTick ed tick
          param := ⟨[], s.param.value, ⟨[], s.param.value⟩⟩ } := by
      simp only [step, MotionMenu.update, if_neg hskip, getParm_onTime hget hserved hs.requests hs.reports,
        Option.getD_some, hdiameter, and_false, if_false]
    rw [hstep]
    exact ⟨⟨rfl, Nat.zero_le 1, hs.motionQueue, hs.motion, hs.lastOk, fun _ _ => rfl⟩, rfl⟩

/-- A confirmed snapshot that the motion model can hold, once both models have taken it. -/
theorem synced_ok {s : System} (hrequests : s.param.requests = []) (hreports : s.param.reports.queue.length ≤ 1)
    (hqueue : s.motionQueue = []) (hsurvives : Survives s.motionAttr) (i : Item) :
    Synced ([.ok i, .paramExec, .motionExec].foldl (step 1) s) := by
  have hend : [.ok i, .paramExec, .motionExec].foldl (step 1) s =
      { motionAttr := { s.motionAttr with action := .setMotionMsg }
        prevTick := (step 1 s (.ok i)).prevTick
        param :=
          ⟨[], { s.motionAttr with action := .setMotionMsg },
            Shared.crMsgSend 1 { s.motionAttr with action := .setMotionMsg } s.param.reports⟩
        motionQueue := []
        motion := setMotionAttr s.motion { s.motionAttr with action := .setMotionMsg }
        lastOk := { s.motionAttr with action := .setMotionMsg } } := by
    simp only [List.foldl_cons, List.foldl_nil, step, sendParamAndWait, queueSendMsg, hrequests, hqueue,
      List.length_nil, Nat.zero_lt_one, if_true, List.nil_append, motionMsgOpt, msgOpt, handleMotionMsg, motionExec,
      setMotionAttrMsgOpt, handleSetMotionAttrMsg, and_self]
  rw [hend]
  refine ⟨rfl, crMsgSend_fits hreports _, rfl, ?_, rfl, fun _ _ => rfl⟩
  rw [report_setMotionAttr]
  exact (value_held s.motionAttr).mpr hsurvives

theorem Synced.edit {s : System} (hs : Synced s) {e : Edit} (htimely : Timely s e) :
    AllSteps (step 1) (AtOk (OkCondition 1)) s e.acts ∧ Synced (e.acts.foldl (step 1) s) := by
  obtain ⟨hserved, hdiameter, hsurvives⟩ := htimely
  obtain ⟨hsync, hfresh⟩ := hs.update e.item.editor e.tick hserved hdiameter
  obtain ⟨m, hups, hothers⟩ := foldl_change e e.ups (step 1 s (.update e.item.editor e.tick e.served))
  set u := step 1 s (.update e.item.editor e.tick e.served) with hu
  have hatOk : e.atOk s = { u with motionAttr := m } := hups
  rw [hatOk] at hsurvives
  have hcondition : OkCondition 1 { u with motionAttr := m } e.item := by
    have hparam : System.ParamRoom 1 { u with motionAttr := m } := by
      simp [System.ParamRoom, hsync.requests]
    have hmotion : System.MotionRoom 1 { u with motionAttr := m } := by
      simp [System.MotionRoom, hsync.motionQueue]
    have hfuture : System.paramFuture { u with motionAttr := m } = u.param.value := by
      simp [System.paramFuture, ParamQueues.future, hsync.requests]
    rw [OkCondition, if_pos hparam, if_pos hmotion, hfuture]
    have hagree : others e.item m = others e.item u.param.value := hothers.trans (others_congr hfresh e.item)
    exact ⟨hagree, hagree.trans (others_congr hsync.lastOk e.item), hsurvives⟩
  have hchanges : ∀ (ups : List Bool) (t : System),
      AllSteps (step 1) (AtOk (OkCondition 1)) t (ups.map e.change) := by
    intro ups
    induction ups with
    | nil =>
      intro t
      trivial
    | cons up ups ih =>
      intro t
      refine ⟨?_, ih _⟩
      cases up <;> trivial
  constructor
  · rw [Edit.acts, List.cons_append]
    refine ⟨trivial, ?_⟩
    rw [allSteps_append, ← hu, hups]
    exact ⟨hchanges e.ups u, hcondition, trivial, trivial, trivial⟩
  · rw [Edit.acts, List.cons_append, List.foldl_cons, List.foldl_append, ← hu, hups]
    exact synced_ok (s := { u with motionAttr := m }) hsync.requests hsync.reports hsync.motionQueue hsurvives e.item

/-- **Edits in time** lose nothing: from a synced state on, every OK of such edits keeps what it owes. -/
theorem timely_edits_kept {s : System} (hs : Synced s) (edits : List Edit)
    (h : AllSteps (fun s e => e.acts.foldl (step 1) s) Timely s edits) :
    AllSteps (step 1) (AtOk (OkKept 1)) s (edits.flatMap Edit.acts) := by
  rw [allSteps_congr atOk_kept_iff]
  induction edits generalizing s with
  | nil => trivial
  | cons e edits ih =>
    obtain ⟨hcondition, hsync⟩ := hs.edit h.1
    rw [List.flatMap_cons, allSteps_append]
    exact ⟨hcondition, ih hsync h.2⟩

/-- **Every run**: all its OKs keep what they owe exactly when all of them meet the condition; and from a synced state
on those of edits in time do. -/
theorem oks_kept_iff (maxMsg : ℕ) (s : System) :
    (∀ acts : List MenuAct, AllSteps (step maxMsg) (AtOk (OkKept maxMsg)) s acts ↔
      AllSteps (step maxMsg) (AtOk (OkCondition maxMsg)) s acts) ∧
    (Synced s → ∀ edits : List Edit, AllSteps (fun s e => e.acts.foldl (step 1) s) Timely s edits →
      AllSteps (step 1) (AtOk (OkKept 1)) s (edits.flatMap Edit.acts)) :=
  ⟨allSteps_congr atOk_kept_iff s, fun hs edits h => timely_edits_kept hs edits h⟩

/-- The start, with the parameters `p` in both models and the snapshot still empty. -/
def start (p : ViewMotionMsg) : System where
  motionAttr := zeroMsg
  prevTick _ := 0
  param := ⟨[], p, ⟨[], zeroMsg⟩⟩
  motionQueue := []
  motion := setMotionAttr ⟨zeroStepper, zeroStepper, zeroStepper, zeroStepper, zeroFeedrate, 0, 0⟩ p
  lastOk := p

/-- The first edit raises the velocity of the X axis, its refresh is answered too late, and the velocity 500 of the Y
axis becomes 0. -/
theorem late_answer_reverts :
    ¬ AllSteps (step 1) (AtOk (OkKept 1)) (start { zeroMsg with motionParam.stepperYAttr.maxVel := 500 })
      (Edit.acts ⟨.vmaxX, 1, 0, [true]⟩) := by
  rw [allSteps_congr atOk_kept_iff]
  decide +kernel

end Edits

end Cxsw.MotionMenu
