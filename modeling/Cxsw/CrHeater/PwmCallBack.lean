import Mathlib.Data.List.Infix
import Cxsw.Lib.Run
import Cxsw.Lib.Word
import Cxsw.Lib.FloatCast

/-!
# Cxsw.CrHeater.PwmCallBack — the pin of a heater (`CrHeater/Pwm/PwmCallBack.cpp`, `CrModel/CrHeaterManager.cpp`)

A timer calls `HeartPwmRun`, which turns the pin on and off with the attributes of the heater; the timer of the manager
sets the attributes from the PID, and `CrHeaterManagerStop` clears them.  An interval of zero does not stop a timer
of this port (`CrTimerSetTime` starts it with no ticks), so the PID goes on after a stop.

* `heartPwmRun_off_iff`: when a callback leaves the pin off.
* `stop_means_off_iff`: when all callbacks after a stop do.
* `stop_leaves_on`: a pin that is high when the stop lands stays high, and the PID heats on.
-/

namespace Cxsw.Heater

/-! ## The heater -/

section Defs

/-- `PwmControllerAttr_t`. -/
structure PwmControllerAttr where
  freq : ℤ
  duty : ℤ
  times : ℤ
  defaultLevel : ℤ
  deriving DecidableEq

/-- The level of the pin, the attributes of the heater, and `HeaterManagerStart`. -/
structure HeaterChannel where
  pinState : Bool
  attr : PwmControllerAttr
  heaterManagerStart : Bool
  deriving DecidableEq

/-- `CrHeaterIoctl`, which treats `HEATER_HEAT_POWERON` and `HEATER_HEAT_POWEROFF` alike. -/
def crHeaterIoctl (s : HeaterChannel) (level : ℤ) : HeaterChannel := { s with pinState := decide (level ≠ 0) }

/-- `!` of an integer. -/
def cNot (n : ℤ) : ℤ := if n = 0 then 1 else 0

/-- `HeartPwmRun`, and the time until it is called again, in nanoseconds. -/
def heartPwmRun (s : HeaterChannel) : HeaterChannel × ℕ :=
  let delay := toU32 (max ((s.attr.freq : ℚ) / 255) 1)
  let timeout := min (u32 (u32 (1000000 * u32OfS32 s.attr.duty) * delay)) 10000000
  if s.pinState then (crHeaterIoctl s (cNot s.attr.defaultLevel), max (10000000 - timeout) 1000000)
  else (if s.attr.duty ≠ 0 then crHeaterIoctl s s.attr.defaultLevel else s, max timeout 1000000)

/-- `CrHeaterSetAttr`. -/
def crHeaterSetAttr (s : HeaterChannel) (attr : PwmControllerAttr) : HeaterChannel := { s with attr := attr }

/-- What the PID makes of the attributes. -/
def pidPwmAttr (realize : ℚ) : PwmControllerAttr := ⟨100, toS32 realize, 0, 1⟩

namespace HeaterChannel

/-- `TimeOutHandle`, with the output of the PID. -/
def timeOutHandle (s : HeaterChannel) (realize : ℚ) : HeaterChannel := crHeaterSetAttr s (pidPwmAttr realize)

/-- `CrHeaterManagerStart`. -/
def crHeaterManagerStart (s : HeaterChannel) : HeaterChannel := { s with heaterManagerStart := true }

/-- `CrHeaterManagerStop`. -/
def crHeaterManagerStop (s : HeaterChannel) : HeaterChannel :=
  if s.heaterManagerStart then crHeaterSetAttr { s with heaterManagerStart := false } ⟨0, 0, 0, 0⟩ else s

/-- `CrHeaterMagagerSetAttr`. -/
def crHeaterMagagerSetAttr (s : HeaterChannel) (attr : PwmControllerAttr) : HeaterChannel :=
  let s := crHeaterSetAttr s attr
  if s.heaterManagerStart then s else crHeaterManagerStart s

end HeaterChannel

/-- What happens to a heater.  `M540` sets the attributes directly. -/
inductive ChannelEvent
  | heaterSetAttr (attr : PwmControllerAttr)
  | setAttr (attr : PwmControllerAttr)
  | timeOut (realize : ℚ)
  | pwmRun
  | start
  | stop
  deriving DecidableEq

/-- The effect of an event. -/
def ChannelEvent.apply (s : HeaterChannel) : ChannelEvent → HeaterChannel
  | .heaterSetAttr attr => crHeaterSetAttr s attr
  | .setAttr attr => s.crHeaterMagagerSetAttr attr
  | .timeOut realize => s.timeOutHandle realize
  | .pwmRun => (heartPwmRun s).1
  | .start => s.crHeaterManagerStart
  | .stop => s.crHeaterManagerStop

/-- The heater after events. -/
def channelAfter (s : HeaterChannel) (es : List ChannelEvent) : HeaterChannel := es.foldl ChannelEvent.apply s

/-- The heater after power-on: `main` switches the pin on, and the manager starts itself. -/
def initChannel : HeaterChannel := ⟨true, ⟨0, 0, 0, 0⟩, true⟩

/-- Neither started nor given new attributes. -/
def LeavesStopped : ChannelEvent → Prop
  | .timeOut _ => True
  | .pwmRun => True
  | .stop => True
  | _ => False

instance decidableLeavesStopped : (e : ChannelEvent) → Decidable (LeavesStopped e)
  | .timeOut _ => isTrue trivial
  | .pwmRun => isTrue trivial
  | .stop => isTrue trivial
  | .heaterSetAttr _ => isFalse id
  | .setAttr _ => isFalse id
  | .start => isFalse id

/-- The attributes that timer calls leave. -/
def timedAttr (attr : PwmControllerAttr) (es : List ChannelEvent) : PwmControllerAttr :=
  es.foldl (fun attr e => match e with
    | .timeOut realize => pidPwmAttr realize
    | _ => attr) attr

/-- With these attributes a callback on a pin of this level turns it off or leaves it off. -/
def TurnsOff (pinState : Bool) (attr : PwmControllerAttr) : Prop :=
  if pinState then attr.defaultLevel ≠ 0 else attr.duty = 0 ∨ attr.defaultLevel = 0

instance (pinState : Bool) (attr : PwmControllerAttr) : Decidable (TurnsOff pinState attr) :=
  inferInstanceAs (Decidable (ite _ _ _))

end Defs

/-! ## One callback -/

section Callback

/-- **A callback** leaves the pin off exactly in this case. -/
theorem heartPwmRun_off_iff (s : HeaterChannel) :
    (heartPwmRun s).1.pinState = false ↔ TurnsOff s.pinState s.attr := by
  unfold heartPwmRun TurnsOff
  dsimp only
  cases hpin : s.pinState with
  | true =>
    simp only [if_true, crHeaterIoctl, cNot]
    by_cases h : s.attr.defaultLevel = 0 <;> simp [h]
  | false =>
    simp only [Bool.false_eq_true, if_false]
    by_cases hduty : s.attr.duty = 0
    · simp [hduty, hpin]
    · simp [hduty, crHeaterIoctl]

theorem heartPwmRun_attr (s : HeaterChannel) :
    (heartPwmRun s).1.attr = s.attr ∧ (heartPwmRun s).1.heaterManagerStart = s.heaterManagerStart := by
  unfold heartPwmRun
  dsimp only
  split_ifs <;> exact ⟨rfl, rfl⟩

theorem apply_pinState {e : ChannelEvent} (he : e ≠ .pwmRun) (s : HeaterChannel) :
    (e.apply s).pinState = s.pinState := by
  cases e with
  | heaterSetAttr attr => rfl
  | setAttr attr =>
    show (s.crHeaterMagagerSetAttr attr).pinState = s.pinState
    unfold HeaterChannel.crHeaterMagagerSetAttr
    dsimp only
    split_ifs <;> rfl
  | timeOut realize => rfl
  | pwmRun => exact absurd rfl he
  | start => rfl
  | stop =>
    show s.crHeaterManagerStop.pinState = s.pinState
    unfold HeaterChannel.crHeaterManagerStop
    split_ifs <;> rfl

end Callback

/-! ## After a stop -/

section Stop

theorem channelAfter_concat (s : HeaterChannel) (es : List ChannelEvent) (e : ChannelEvent) :
    channelAfter s (es ++ [e]) = e.apply (channelAfter s es) := by
  unfold channelAfter
  rw [List.foldl_append]
  rfl

theorem crHeaterManagerStop_stopped (s : HeaterChannel) : s.crHeaterManagerStop.heaterManagerStart = false := by
  unfold HeaterChannel.crHeaterManagerStop
  split_ifs with h
  · rfl
  · exact Bool.eq_false_iff.mpr h

theorem stopped_attr {s : HeaterChannel} (h : s.heaterManagerStart = false) (es : List ChannelEvent)
    (hes : ∀ e ∈ es, LeavesStopped e) :
    (channelAfter s es).attr = timedAttr s.attr es ∧ (channelAfter s es).heaterManagerStart = false := by
  induction es using List.reverseRecOn with
  | nil => exact ⟨rfl, h⟩
  | append_singleton es e ih =>
    obtain ⟨hattr, hstop⟩ := ih fun x hx => hes x (List.mem_append_left _ hx)
    have he : LeavesStopped e := hes e (List.mem_append_right _ (List.mem_singleton_self e))
    have htimed : timedAttr s.attr (es ++ [e]) = timedAttr (timedAttr s.attr es) [e] := by
      unfold timedAttr
      rw [List.foldl_append]
    rw [channelAfter_concat, htimed, ← hattr]
    cases e with
    | timeOut realize => exact ⟨rfl, hstop⟩
    | pwmRun => exact ⟨(heartPwmRun_attr _).1, (heartPwmRun_attr _).2.trans hstop⟩
    | stop =>
      have hkeep : ChannelEvent.stop.apply (channelAfter s es) = channelAfter s es :=
        if_neg (by rw [hstop]; exact Bool.false_ne_true)
      rw [hkeep]
      exact ⟨rfl, hstop⟩
    | heaterSetAttr attr => exact he.elim
    | setAttr attr => exact he.elim
    | start => exact he.elim

theorem channelAfter_pinState (s : HeaterChannel) {es : List ChannelEvent} (h : ChannelEvent.pwmRun ∉ es) :
    (channelAfter s es).pinState = s.pinState := by
  induction es using List.reverseRecOn with
  | nil => rfl
  | append_singleton es e ih =>
    have hne : e ≠ .pwmRun := fun he => h (he ▸ List.mem_append_right _ (List.mem_singleton_self e))
    rw [channelAfter_concat, apply_pinState hne, ih fun hm => h (List.mem_append_left _ hm)]

theorem pwmRun_off_iff (s : HeaterChannel) {pre : List ChannelEvent} (hpre : ∀ e ∈ pre, LeavesStopped e)
    (hoff : ChannelEvent.pwmRun ∈ pre → (channelAfter s (.stop :: pre)).pinState = false) :
    (channelAfter s (.stop :: pre ++ [.pwmRun])).pinState = false ↔
      TurnsOff (if ChannelEvent.pwmRun ∈ pre then false else s.pinState)
        (timedAttr s.crHeaterManagerStop.attr pre) := by
  have hattr : (channelAfter s (.stop :: pre)).attr = timedAttr s.crHeaterManagerStop.attr pre :=
    (stopped_attr (crHeaterManagerStop_stopped s) pre hpre).1
  have hpin : (channelAfter s (.stop :: pre)).pinState =
      if ChannelEvent.pwmRun ∈ pre then false else s.pinState := by
    by_cases hm : ChannelEvent.pwmRun ∈ pre
    · rw [if_pos hm, hoff hm]
    · rw [if_neg hm]
      exact channelAfter_pinState s (by simpa using hm)
  rw [channelAfter_concat, ← hattr, ← hpin]
  exact heartPwmRun_off_iff _

/-- **Stop means off**: after a stop, until the manager is started or given new attributes, the first callback turns the
pin off and the later ones leave it off if and only if the pin and the duties that the timer computes allow it. -/
theorem stop_means_off_iff (s : HeaterChannel) {post : List ChannelEvent} (hpost : ∀ e ∈ post, LeavesStopped e) :
    (∀ pre, pre <+: post → ChannelEvent.pwmRun ∈ pre → (channelAfter s (.stop :: pre)).pinState = false) ↔
      ∀ pre, pre ++ [.pwmRun] <+: post →
        TurnsOff (if ChannelEvent.pwmRun ∈ pre then false else s.pinState)
          (timedAttr s.crHeaterManagerStop.attr pre) := by
  have hiff := forall_prefix_iff
    (Q := fun pre => pre <+: post → ChannelEvent.pwmRun ∈ pre → (channelAfter s (.stop :: pre)).pinState = false)
    (C := fun pre e => pre ++ [e] <+: post → e = .pwmRun →
      TurnsOff (if ChannelEvent.pwmRun ∈ pre then false else s.pinState) (timedAttr s.crHeaterManagerStop.attr pre))
    (fun _ hm => absurd hm List.not_mem_nil) (fun pre e hpre => ?_) post
  · constructor
    · intro h pre hp
      exact hiff.mp (fun pre' hp' _ => h pre' hp') pre .pwmRun hp hp rfl
    · intro h pre hp
      exact hiff.mpr (fun pre' e hp' _ he => h pre' (he ▸ hp')) pre hp hp
  · -- one event more
    refine forall_congr' fun hp => ?_
    have hpart : pre <+: post := (List.prefix_append pre [e]).trans hp
    by_cases he : e = .pwmRun
    · subst he
      have hrun := pwmRun_off_iff s (fun x hx => hpost x (hpart.subset hx)) (hpre hpart)
      rw [← List.cons_append, hrun]
      simp
    · have hkeep : (channelAfter s (.stop :: (pre ++ [e]))).pinState = (channelAfter s (.stop :: pre)).pinState := by
        rw [← List.cons_append, channelAfter_concat, apply_pinState he]
      refine iff_of_true (fun hm => ?_) fun h => absurd h he
      have hold : ChannelEvent.pwmRun ∈ pre := by
        obtain h | h := List.mem_append.mp hm
        · exact h
        · exact absurd (List.mem_singleton.mp h).symm he
      rw [hkeep]
      exact hpre hpart hold

/-- A stop in the high phase that the timer notices with duty zero. -/
theorem stop_means_off_cooled :
    timedAttr initChannel.crHeaterManagerStop.attr [.timeOut 0] = timedAttr initChannel.attr [.timeOut 0] ∧
      ∀ pre, pre <+: [.timeOut 0, .pwmRun, .pwmRun] → ChannelEvent.pwmRun ∈ pre →
        (channelAfter initChannel (.stop :: pre)).pinState = false := by
  refine ⟨by decide, (stop_means_off_iff initChannel (by decide)).mpr fun pre hp => ?_⟩
  have hall : ∀ pre ∈ [.timeOut 0, .pwmRun, .pwmRun].inits, pre ++ [.pwmRun] <+: [.timeOut 0, .pwmRun, .pwmRun] →
      TurnsOff (if ChannelEvent.pwmRun ∈ pre then false else initChannel.pinState)
        (timedAttr initChannel.crHeaterManagerStop.attr pre) := by
    decide +kernel
  exact hall pre ((List.mem_inits _ _).mpr ((List.prefix_append pre _).trans hp)) hp

/-- **A stop does not switch off**: a pin that is high stays high; and where the timer goes on with an error above its
range, the pin is switched on again. -/
theorem stop_leaves_on :
    (channelAfter initChannel [.timeOut 255, .pwmRun, .pwmRun, .stop, .pwmRun, .pwmRun]).pinState = true ∧
      (channelAfter initChannel [.timeOut 255, .pwmRun, .stop, .timeOut 255, .pwmRun]).pinState = true ∧
      ¬∀ (es post : List ChannelEvent), (∀ e ∈ post, LeavesStopped e) →
        ∀ pre, pre <+: post → ChannelEvent.pwmRun ∈ pre →
          (channelAfter (channelAfter initChannel es) (.stop :: pre)).pinState = false := by
  refine ⟨by decide +kernel, by decide +kernel, fun h => ?_⟩
  have hoff := h [.timeOut 255, .pwmRun, .pwmRun] [.pwmRun] (by decide) [.pwmRun] (List.prefix_refl _) (by decide)
  exact absurd hoff (by decide +kernel)

end Stop

end Cxsw.Heater
