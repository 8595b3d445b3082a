import Cxsw.CrMsgQueue.SharedQueue
import Cxsw.CrModel.MotionAttr

/-!
# Cxsw.CrModel.CrParam — requests to the parameter model (`CrModel/CrParam.cpp`)

A set of parameters is asked for and changed by messages on an ordinary queue; after each message `CrParam` sends the
set to a shared queue.  The menus send a request, sleep, and read the shared queue, in which the answer may not have
arrived yet.  `maxMsg` is the capacity with which the queues were created.

* `ParamQueues.future`: the parameters once all messages are handled.
* `getParm_fst`: what a request gets.
* `getParm_onTime`: the answer that arrives in time is the parameters.
-/

namespace Cxsw.ParamModel

open Cxsw.MsgQueue Cxsw.MotionAttr Cxsw.Param

/-! ## A set of parameters and its two queues -/

section Queues

variable {M R : Type*} (maxMsg : ℕ) (handle : R → M → R)

/-- `QueueSendMsg`: it fails exactly when the queue is full. -/
def queueSendMsg (m : M) (queue : List M) : Bool × List M :=
  if queue.length < maxMsg then (true, queue ++ [m]) else (false, queue)

/-- The requests that wait, the parameters, and the shared queue of the answers. -/
structure ParamQueues (M R : Type*) where
  requests : List M
  value : R
  reports : Shared R

/-- One pass of `CrParam::Exec` over a set of parameters. -/
def msgOpt (c : ParamQueues M R) : ParamQueues M R :=
  match c.requests with
  | [] => c
  | m :: rest =>
    { requests := rest
      value := handle c.value m
      reports := Shared.crMsgSend maxMsg (handle c.value m) c.reports }

/-- `VelocityGetParm` and its like: the request, `served` passes of the model during the sleep, and what is read
then. -/
def getParm (request : M) (served : ℕ) (c : ParamQueues M R) : Option R × ParamQueues M R :=
  let (sent, requests) := queueSendMsg maxMsg request c.requests
  if sent then
    let c' := (msgOpt maxMsg handle)^[served] { c with requests := requests }
    let (r, reports) := Shared.crMsgRecv c'.reports
    (some r, { c' with reports := reports })
  else (none, c)

/-- `MENUITEM_STAY_TIME`. -/
def menuitemStayTime : ℕ := 10000

/-- `CHECK_TIMEOUT` returns from its caller. -/
def checkTimeout (prevTick tick : BitVec 32) : Bool := prevTick ≠ 0 && (tick - prevTick).toNat < menuitemStayTime

/-- The reports on a list of messages: the parameters after each of them. -/
def answers (value : R) : List M → List R
  | [] => []
  | m :: ms => handle value m :: answers (handle value m) ms

/-- The parameters once all messages are handled. -/
def ParamQueues.future (c : ParamQueues M R) : R := c.requests.foldl handle c.value

variable {maxMsg handle}

theorem future_msgOpt (c : ParamQueues M R) : (msgOpt maxMsg handle c).future handle = c.future handle := by
  rcases c with ⟨_ | ⟨m, rest⟩, value, reports⟩
  · rfl
  · rfl

theorem future_passes (n : ℕ) (c : ParamQueues M R) :
    ((msgOpt maxMsg handle)^[n] c).future handle = c.future handle := by
  induction n generalizing c with
  | zero => rfl
  | succ n ih => rw [Function.iterate_succ_apply, ih, future_msgOpt]

theorem requests_passes (n : ℕ) (c : ParamQueues M R) :
    ((msgOpt maxMsg handle)^[n] c).requests = c.requests.drop n := by
  induction n generalizing c with
  | zero => rfl
  | succ n ih =>
    rw [Function.iterate_succ_apply, ih]
    rcases c with ⟨_ | ⟨m, rest⟩, value, reports⟩
    · simp [msgOpt]
    · simp [msgOpt]

theorem future_request (c : ParamQueues M R) (m : M) :
    ParamQueues.future handle { c with requests := c.requests ++ [m] } = handle (c.future handle) m := by
  simp [ParamQueues.future]

/-- Asking changes nothing. -/
theorem future_getParm {request : M} (hget : ∀ v, handle v request = v) (served : ℕ) (c : ParamQueues M R) :
    (getParm maxMsg handle request served c).2.future handle = c.future handle := by
  by_cases hroom : c.requests.length < maxMsg
  · have hpasses : ((msgOpt maxMsg handle)^[served] { c with requests := c.requests ++ [request] }).future handle =
        c.future handle := by
      rw [future_passes, future_request, hget]
    simp only [getParm, queueSendMsg, if_pos hroom]
    exact hpasses
  · simp [getParm, queueSendMsg, hroom]

/-- What waits after a request to a queue of one message. -/
theorem requests_getParm (request : M) (served : ℕ) (c : ParamQueues M R) :
    (getParm 1 handle request served c).2.requests =
      if c.requests = [] then [request].drop served else c.requests := by
  by_cases hidle : c.requests = []
  · simp [getParm, queueSendMsg, hidle, requests_passes]
  · have hfull : ¬ c.requests.length < 1 := by
      simpa using hidle
    simp [getParm, queueSendMsg, hfull, hidle]

/-- A queue of one message is read to its last message, and is empty then. -/
theorem crMsgRecv_send {c : Shared R} (hone : c.queue.length ≤ 1) (r : R) :
    Shared.crMsgRecv (Shared.crMsgSend 1 r c) = (r, ⟨[], r⟩) := by
  rcases c with ⟨_ | ⟨d, _ | ⟨e, rest⟩⟩, b⟩
  · simp [Shared.crMsgSend, Shared.crMsgRecv]
  · simp [Shared.crMsgSend, Shared.crMsgRecv]
  · simp at hone

theorem reports_passes (n : ℕ) (c : ParamQueues M R) : ((msgOpt maxMsg handle)^[n] c).reports =
    (answers handle c.value (c.requests.take n)).foldl (fun q r => Shared.crMsgSend maxMsg r q) c.reports := by
  induction n generalizing c with
  | zero => rfl
  | succ n ih =>
    rw [Function.iterate_succ_apply, ih]
    rcases c with ⟨_ | ⟨m, rest⟩, value, reports⟩
    · simp [msgOpt]
    · rw [msgOpt, List.take_succ_cons, answers, List.foldl_cons]

theorem crMsgSend_fits {q : Shared R} (hfits : q.queue.length ≤ maxMsg) (r : R) :
    (Shared.crMsgSend maxMsg r q).queue.length ≤ maxMsg := by
  rw [queue_crMsgSend hfits]
  exact length_rtake_le _ _

variable {c : ParamQueues M R}

theorem reports_fit_passes (hfits : c.reports.queue.length ≤ maxMsg) (n : ℕ) :
    ((msgOpt maxMsg handle)^[n] c).reports.queue.length ≤ maxMsg := by
  rw [reports_passes, queue_sends hfits]
  exact length_rtake_le _ _

theorem reports_fit_getParm (hfits : c.reports.queue.length ≤ maxMsg) (request : M) (served : ℕ) :
    (getParm maxMsg handle request served c).2.reports.queue.length ≤ maxMsg := by
  have hrecv : ∀ q : Shared R, q.queue.length ≤ maxMsg → (Shared.crMsgRecv q).2.queue.length ≤ maxMsg := by
    rintro ⟨_ | ⟨d, rest⟩, dataBuff⟩ hq
    · exact hq
    · exact (Nat.le_succ _).trans hq
  by_cases hroom : c.requests.length < maxMsg
  · simp only [getParm, queueSendMsg, if_pos hroom]
    exact hrecv _ (reports_fit_passes (c := { c with requests := c.requests ++ [request] }) hfits served)
  · simpa [getParm, queueSendMsg, hroom] using hfits

/-- **What a request gets**: the oldest report that the shared queue still holds when it is read. -/
theorem getParm_fst (hfits : c.reports.queue.length ≤ maxMsg) (request : M) (served : ℕ) :
    (getParm maxMsg handle request served c).1 =
      if c.requests.length < maxMsg then
        some (c.reports.afterSends maxMsg (answers handle c.value ((c.requests ++ [request]).take served)))
      else none := by
  by_cases hroom : c.requests.length < maxMsg
  · simp only [getParm, queueSendMsg, if_pos hroom, if_true, reports_passes]
    rw [crMsgRecv_sends hfits (Nat.zero_lt_of_lt hroom)]
  · simp [getParm, queueSendMsg, hroom]

/-- **The answer in time**: where nothing else waits, a request that is handled before the answer is read gets the
parameters. -/
theorem getParm_onTime {request : M} (hget : ∀ v, handle v request = v) {served : ℕ} (hserved : 0 < served)
    {c : ParamQueues M R} (hidle : c.requests = []) (hone : c.reports.queue.length ≤ 1) :
    getParm 1 handle request served c = (some c.value, ⟨[], c.value, ⟨[], c.value⟩⟩) := by
  obtain ⟨n, rfl⟩ : ∃ n, served = n + 1 := ⟨served - 1, by omega⟩
  have hpass : msgOpt 1 handle { c with requests := [request] } =
      ⟨[], c.value, Shared.crMsgSend 1 c.value c.reports⟩ := by
    simp only [msgOpt, hget]
  have hrest : (msgOpt 1 handle)^[n] ⟨[], c.value, Shared.crMsgSend 1 c.value c.reports⟩ =
      ⟨[], c.value, Shared.crMsgSend 1 c.value c.reports⟩ := Function.iterate_fixed rfl n
  simp only [getParm, queueSendMsg, hidle, List.length_nil, Nat.zero_lt_one, if_true, List.nil_append,
    Function.iterate_succ_apply, hpass, hrest, crMsgRecv_send hone]

end Queues

/-! ## The sets -/

section Sets

/-- `HandleMotionMsg`. -/
def handleMotionMsg (motionParam msg : ViewMotionMsg) : ViewMotionMsg :=
  if msg.action = .setMotionMsg then msg else motionParam

/-- `TargetTemperSetMsgAction_t`; a zeroed structure has none of its values. -/
inductive TargetTemperSetMsgAction where
  | none
  | setTemperMsg
  | getTemperMsg
  deriving DecidableEq

/-- `ViewTargetTemperSetMsg_t`. -/
structure ViewTargetTemperSetMsg where
  set : ParamMaterialTemperSet
  action : TargetTemperSetMsgAction

/-- `HandleTargetTemperSetMsg`. -/
def handleTargetTemperSetMsg (targetTemperSet : ParamMaterialTemperSet) (msg : ViewTargetTemperSetMsg) :
    ParamMaterialTemperSet :=
  if msg.action = .setTemperMsg then msg.set else targetTemperSet

/-- `MotionMsgOpt`. -/
def motionMsgOpt (maxMsg : ℕ) : ParamQueues ViewMotionMsg ViewMotionMsg → ParamQueues ViewMotionMsg ViewMotionMsg :=
  msgOpt maxMsg handleMotionMsg

/-- `TargetTemperSetMsgOpt`. -/
def targetTemperSetMsgOpt (maxMsg : ℕ) :
    ParamQueues ViewTargetTemperSetMsg ParamMaterialTemperSet →
      ParamQueues ViewTargetTemperSetMsg ParamMaterialTemperSet :=
  msgOpt maxMsg handleTargetTemperSetMsg

end Sets

end Cxsw.ParamModel
