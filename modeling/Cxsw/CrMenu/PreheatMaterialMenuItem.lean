import Cxsw.CrModel.CrParam

/-!
# Cxsw.CrMenu.PreheatMaterialMenuItem — preheating (`CrMenu/MenuItem/PreheatMaterialMenuItem.cpp`)

The menu keeps a copy `TemperSet` of the preset temperatures.  Editing changes the copy in place, OK sends it to the
parameter model, and leaving without OK leaves the copy as it is.  A preheat refreshes the copy, unless the last refresh
is less than `MENUITEM_STAY_TIME` ago, and sends each heater its temperature.  The other attributes of a heater message,
which may be uninitialised and which `HandleTemperMsg` does not read, are left out.

The queues of the parameter model hold `maxMsg` messages: one where the menu opens them first, two where `CrParam.cpp`
does.  Those of the heaters hold one.

* `refreshed`: the presets that a preheat works with.
* `targetFuture_preheat`: the target that it leaves a heater with.
* `preheat_kept_iff`: after which histories and with which answers that is the preset.
-/

namespace Cxsw.Preheat

open Cxsw.MsgQueue Cxsw.Param Cxsw.ParamModel

/-! ## Presets -/

section Presets

inductive Material where
  | pla
  | abs
  deriving DecidableEq

inductive Heater where
  | bed
  | nozzle
  deriving DecidableEq

/-- The temperature of a material and a heater. -/
def temper (set : ParamMaterialTemperSet) (m : Material) (h : Heater) : BitVec 32 :=
  match m, h with
  | .pla, .bed => set.pla.bed
  | .pla, .nozzle => set.pla.nozzle
  | .abs, .bed => set.abs.bed
  | .abs, .nozzle => set.abs.nozzle

def setTemper (m : Material) (h : Heater) (v : BitVec 32) (set : ParamMaterialTemperSet) : ParamMaterialTemperSet :=
  match m, h with
  | .pla, .bed => { set with pla.bed := v }
  | .pla, .nozzle => { set with pla.nozzle := v }
  | .abs, .bed => { set with abs.bed := v }
  | .abs, .nozzle => { set with abs.nozzle := v }

/-- `BED_MAX_TEMP` and `NOZZLE_MAX_TEMP`. -/
def maxTemp : Heater → ℤ
  | .bed => 110
  | .nozzle => 260

/-- `PLAPreheatBedMenuUPAction` and its like. -/
def upAction (m : Material) (h : Heater) (set : ParamMaterialTemperSet) : ParamMaterialTemperSet :=
  if (temper set m h).toInt < maxTemp h then setTemper m h (temper set m h + 1) set else set

/-- `PLAPreheatBedMenuDownAction` and its like. -/
def downAction (m : Material) (h : Heater) (set : ParamMaterialTemperSet) : ParamMaterialTemperSet :=
  if 0 < (temper set m h).toInt then setTemper m h (temper set m h - 1) set else set

end Presets

/-! ## The menu, the parameter model and the heaters -/

section Menu

/-- `HeaterMagnagerMsgAtcion`; a zeroed structure has none of its values. -/
inductive HeaterMagnagerMsgAtcion where
  | none
  | getHeaterManagerAttr
  | setHeaterManagerAttr
  deriving DecidableEq

/-- `ViewHeaterMsg_t`. -/
structure ViewHeaterMsg where
  targetTemper : BitVec 32
  action : HeaterMagnagerMsgAtcion

/-- `HandleTemperMsg`, on `Attr.TargetTemper`. -/
def handleTemperMsg (targetTemper : BitVec 32) (msg : ViewHeaterMsg) : BitVec 32 :=
  if msg.action = .setHeaterManagerAttr then msg.targetTemper else targetTemper

/-- `TemperSet`, its `TempPrevTick`, the presets of the parameter model, and the target of each heater's manager. -/
structure System where
  temperSet : ParamMaterialTemperSet
  tempPrevTick : BitVec 32
  param : ParamQueues ViewTargetTemperSetMsg ParamMaterialTemperSet
  heater : Heater → ParamQueues ViewHeaterMsg (BitVec 32)

/-- What the environment adds to a preheat: the tick, the passes of the parameter model before its answer is read, those
of each heater's manager before the request and before the target is sent, and what the stack holds. -/
structure Press where
  tick : BitVec 32
  served : ℕ
  before : Heater → ℕ
  during : Heater → ℕ
  heaterTemper : ViewHeaterMsg

variable (maxMsg : ℕ)

/-- `UpdateTempSet`. -/
def updateTempSet (tick : BitVec 32) (served : ℕ) (s : System) : System :=
  if checkTimeout s.tempPrevTick tick then { s with tempPrevTick := tick }
  else
    let (reply, param) := getParm maxMsg handleTargetTemperSetMsg ⟨s.temperSet, .getTemperMsg⟩ served s.param
    { s with temperSet := reply.getD s.temperSet, tempPrevTick := tick, param := param }

/-- The request to a heater's manager, for which `Bed` and `Nozzle` are zeroed, and the message that sets its target.
That is built in `HeaterTemper`, which holds the answer if there is one. -/
def sendTemper (target : BitVec 32) (before during : ℕ) (heaterTemper : ViewHeaterMsg)
    (c : ParamQueues ViewHeaterMsg (BitVec 32)) : ParamQueues ViewHeaterMsg (BitVec 32) :=
  let c' := (msgOpt 1 handleTemperMsg)^[before] c
  let (reply, c'') := getParm 1 handleTemperMsg ⟨0, .none⟩ during c'
  let answer := { heaterTemper with targetTemper := reply.getD heaterTemper.targetTemper }
  let msg := { answer with targetTemper := target, action := .setHeaterManagerAttr }
  { c'' with requests := (queueSendMsg 1 msg c''.requests).2 }

/-- The part of a preheat that is about one heater. -/
def preheatHeater (m : Material) (h : Heater) (press : Press) (s : System) : System :=
  { s with
    heater := Function.update s.heater h
      (sendTemper (floatOfInt (temper s.temperSet m h).toInt) (press.before h) (press.during h) press.heaterTemper
        (s.heater h)) }

/-- `PreheatPLAMenuItemOKAction` and `PreheatABSMenuItemOKAction`, without the fan. -/
def preheatMenuItemOKAction (m : Material) (press : Press) (s : System) : System :=
  preheatHeater m .nozzle press (preheatHeater m .bed press (updateTempSet maxMsg press.tick press.served s))

/-- What happens: the displays that refresh the copy, the edits, their OK, preheats of both heaters or of one, and
passes of the models. -/
inductive Act where
  | update (tick : BitVec 32) (served : ℕ)
  | up (m : Material) (h : Heater)
  | down (m : Material) (h : Heater)
  | ok
  | preheat (m : Material) (press : Press)
  | preheatOne (m : Material) (h : Heater) (press : Press)
  | paramExec
  | heaterExec (h : Heater)

def step (s : System) (a : Act) : System :=
  match a with
  | .update tick served => updateTempSet maxMsg tick served s
  | .up m h => { s with temperSet := upAction m h s.temperSet }
  | .down m h => { s with temperSet := downAction m h s.temperSet }
  | .ok => { s with param.requests := (queueSendMsg maxMsg ⟨s.temperSet, .setTemperMsg⟩ s.param.requests).2 }
  | .preheat m press => preheatMenuItemOKAction maxMsg m press s
  | .preheatOne m h press => preheatHeater m h press (updateTempSet maxMsg press.tick press.served s)
  | .paramExec => { s with param := targetTemperSetMsgOpt maxMsg s.param }
  | .heaterExec h => { s with heater := Function.update s.heater h (msgOpt 1 handleTemperMsg (s.heater h)) }

/-- The start: the copy and the shared queue are still empty. -/
def start (presets : ParamMaterialTemperSet) (target : Heater → BitVec 32) : System where
  temperSet := ⟨⟨0, 0⟩, ⟨0, 0⟩⟩
  tempPrevTick := 0
  param := ⟨[], presets, ⟨[], ⟨⟨0, 0⟩, ⟨0, 0⟩⟩⟩⟩
  heater h := ⟨[], target h, ⟨[], 0⟩⟩

/-- The target of a heater once all messages are processed. -/
def System.targetFuture (s : System) (h : Heater) : BitVec 32 := (s.heater h).future handleTemperMsg

/-- The presets after all confirmed edits. -/
def System.presetFuture (s : System) : ParamMaterialTemperSet := s.param.future handleTargetTemperSetMsg

end Menu

/-! ## The copy -/

section Copy

variable (maxMsg : ℕ)

/-- Every history leaves at most `maxMsg` messages in the shared queue. -/
def ReportsFit (s : System) : Prop := s.param.reports.queue.length ≤ maxMsg

/-- The presets that a preheat works with: the copy where it is not refreshed, otherwise the oldest report that the
shared queue holds when the messages that the parameter model comes to are handled, or the backup. -/
def refreshed (s : System) (press : Press) : ParamMaterialTemperSet :=
  if checkTimeout s.tempPrevTick press.tick ∨ maxMsg ≤ s.param.requests.length then s.temperSet
  else s.param.reports.afterSends maxMsg (answers handleTargetTemperSetMsg s.param.value
    ((s.param.requests ++ [(⟨s.temperSet, .getTemperMsg⟩ : ViewTargetTemperSetMsg)]).take press.served))

variable {maxMsg} {s : System}

theorem reportsFit_start (presets : ParamMaterialTemperSet) (target : Heater → BitVec 32) :
    ReportsFit maxMsg (start presets target) := Nat.zero_le _

theorem ReportsFit.update (hs : ReportsFit maxMsg s) (tick : BitVec 32) (served : ℕ) :
    ReportsFit maxMsg (updateTempSet maxMsg tick served s) := by
  unfold ReportsFit updateTempSet
  split
  · exact hs
  · exact reports_fit_getParm hs _ served

theorem ReportsFit.step (hs : ReportsFit maxMsg s) (a : Act) : ReportsFit maxMsg (step maxMsg s a) := by
  cases a with
  | update tick served => exact hs.update tick served
  | preheat m press => exact hs.update press.tick press.served
  | preheatOne m h press => exact hs.update press.tick press.served
  | paramExec => exact reports_fit_passes hs 1
  | _ => exact hs

theorem ReportsFit.run (hs : ReportsFit maxMsg s) (acts : List Act) :
    ReportsFit maxMsg (acts.foldl (Preheat.step maxMsg) s) := by
  induction acts generalizing s with
  | nil => exact hs
  | cons a acts ih => exact ih (hs.step a)

theorem temperSet_update (hs : ReportsFit maxMsg s) (press : Press) :
    (updateTempSet maxMsg press.tick press.served s).temperSet = refreshed maxMsg s press := by
  by_cases hskip : checkTimeout s.tempPrevTick press.tick = true
  · simp [updateTempSet, refreshed, hskip]
  · have hget := @getParm_fst _ _ maxMsg handleTargetTemperSetMsg s.param hs ⟨s.temperSet, .getTemperMsg⟩ press.served
    rw [updateTempSet, if_neg hskip, refreshed]
    dsimp only
    rw [hget]
    by_cases hroom : s.param.requests.length < maxMsg
    · rw [if_pos hroom, if_neg (by simp [hskip, hroom])]
      rfl
    · rw [if_neg hroom, if_pos (Or.inr (not_lt.mp hroom))]
      rfl

end Copy

/-! ## The targets -/

section Targets

/-- The message that sets the target finds room: the request did, and was handled in time. -/
def Delivered (s : System) (press : Press) (h : Heater) : Prop :=
  (s.heater h).requests.length ≤ press.before h ∧ 0 < press.during h

instance (s : System) (press : Press) (h : Heater) : Decidable (Delivered s press h) :=
  inferInstanceAs (Decidable (_ ∧ _))

variable {maxMsg : ℕ} {s : System}

theorem future_sendTemper (target : BitVec 32) (before during : ℕ) (heaterTemper : ViewHeaterMsg)
    (c : ParamQueues ViewHeaterMsg (BitVec 32)) :
    (sendTemper target before during heaterTemper c).future handleTemperMsg =
      if c.requests.length ≤ before ∧ 0 < during then target else c.future handleTemperMsg := by
  set c' := (msgOpt 1 handleTemperMsg)^[before] c with hc'
  set c'' := (getParm 1 handleTemperMsg ⟨0, .none⟩ during c').2 with hc''
  have hfuture : c''.future handleTemperMsg = c.future handleTemperMsg := by
    rw [hc'', future_getParm (fun v => rfl), hc', future_passes]
  have hwaiting : c''.requests = [] ↔ c.requests.length ≤ before ∧ 0 < during := by
    rw [hc'', requests_getParm, hc', requests_passes]
    by_cases hroom : c.requests.length ≤ before
    · have hidle : c.requests.drop before = [] := List.drop_eq_nil_iff.mpr hroom
      simp [hidle, hroom, Nat.succ_le_iff]
    · have hbusy : c.requests.drop before ≠ [] := fun h => hroom (List.drop_eq_nil_iff.mp h)
      simp [hbusy, hroom]
  have hend : sendTemper target before during heaterTemper c =
      { c'' with requests := (queueSendMsg 1 ⟨target, .setHeaterManagerAttr⟩ c''.requests).2 } := rfl
  rw [hend]
  by_cases hsent : c''.requests = []
  · rw [if_pos (hwaiting.mp hsent)]
    simp [queueSendMsg, hsent, ParamQueues.future, handleTemperMsg]
  · rw [if_neg (fun h => hsent (hwaiting.mpr h)), ← hfuture]
    have hfull : ¬ c''.requests.length < 1 := by
      simpa using hsent
    simp [queueSendMsg, hfull]

/-- What a preheat sends to a heater. -/
theorem heater_preheat (m : Material) (press : Press) (h : Heater) :
    (preheatMenuItemOKAction maxMsg m press s).heater h =
      sendTemper (floatOfInt (temper (updateTempSet maxMsg press.tick press.served s).temperSet m h).toInt) (press.before h)
        (press.during h) press.heaterTemper (s.heater h) := by
  have hheater : (updateTempSet maxMsg press.tick press.served s).heater h = s.heater h := by
    unfold updateTempSet
    split <;> rfl
  cases h with
  | bed => simp [preheatMenuItemOKAction, preheatHeater, hheater]
  | nozzle => simp [preheatMenuItemOKAction, preheatHeater, hheater]

/-- **The target after a preheat**: the refreshed preset of the material and the heater, if that reaches the heater. -/
theorem targetFuture_preheat (hs : ReportsFit maxMsg s) (m : Material) (press : Press) (h : Heater) :
    (preheatMenuItemOKAction maxMsg m press s).targetFuture h =
      if Delivered s press h then floatOfInt (temper (refreshed maxMsg s press) m h).toInt else s.targetFuture h := by
  rw [System.targetFuture, heater_preheat, future_sendTemper, temperSet_update hs press]
  rfl

/-- The target of a heater is unchanged, or the temperature that the parameter model held, or the one that was confirmed
last where that has not been handled yet. -/
def TargetKept (s : System) (m : Material) (h : Heater) (target : BitVec 32) : Prop :=
  target = s.targetFuture h ∨ target = floatOfInt (temper s.param.value m h).toInt ∨
    target = floatOfInt (temper s.presetFuture m h).toInt

instance (s : System) (m : Material) (h : Heater) (target : BitVec 32) : Decidable (TargetKept s m h target) :=
  inferInstanceAs (Decidable (_ ∨ _ ∨ _))

/-- What a preheat owes to the heaters. -/
def PreheatKept (maxMsg : ℕ) (s : System) (m : Material) (press : Press) : Prop :=
  ∀ h, TargetKept s m h ((preheatMenuItemOKAction maxMsg m press s).targetFuture h)

/-- A heater whose message is delivered gets a refreshed preset that is right. -/
def PreheatCondition (maxMsg : ℕ) (s : System) (m : Material) (press : Press) : Prop :=
  ∀ h, Delivered s press h → TargetKept s m h (floatOfInt (temper (refreshed maxMsg s press) m h).toInt)

/-- **Preheating** after any history keeps what it owes exactly when the refreshed presets are right. -/
theorem preheat_kept_iff (maxMsg : ℕ) (presets : ParamMaterialTemperSet) (target : Heater → BitVec 32)
    (acts : List Act) (m : Material) (press : Press) :
    PreheatKept maxMsg (acts.foldl (step maxMsg) (start presets target)) m press ↔
      PreheatCondition maxMsg (acts.foldl (step maxMsg) (start presets target)) m press := by
  have hs := (reportsFit_start presets target : ReportsFit maxMsg _).run acts
  refine forall_congr' fun h => ?_
  rw [targetFuture_preheat hs]
  by_cases hdelivered : Delivered (acts.foldl (step maxMsg) (start presets target)) press h
  · rw [if_pos hdelivered]
    exact ⟨fun hk _ => hk, fun hk => hk hdelivered⟩
  · rw [if_neg hdelivered]
    exact ⟨fun _ hd => absurd hd hdelivered, fun _ => Or.inl rfl⟩

/-- A preset of 60 degrees is raised by one and the edit abandoned; a preheat right after it heats the bed to 61. -/
theorem abandoned_edit_heats :
    ¬ PreheatKept 1
      ([.update 1 1, .up .pla .bed].foldl (step 1) (start ⟨⟨200, 60⟩, ⟨240, 100⟩⟩ fun _ => 0)) .pla
      ⟨2, 1, fun _ => 0, fun _ => 1, ⟨0, .none⟩⟩ := by
  intro hk
  have hbed := hk .bed
  revert hbed
  decide +kernel

end Targets

end Cxsw.Preheat
