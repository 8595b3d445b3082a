import Mathlib.Data.Rat.Defs
import Mathlib.Algebra.Order.Ring.Rat
import Mathlib.Data.List.Infix
import Mathlib.Tactic.Linarith
import Cxsw.Lib.Run

/-!
# Cxsw.CrModel.CrHeaterManager — thermal protection (`CrModel/CrHeaterManager.cpp`)

`Exec` checks the temperature on every pass.  A check classifies the error, notes when an error was first seen, and
compares that time with the clock.  Temperatures are exact numbers, the clock counts nanoseconds and never runs
backwards; the output of the PID and the messages are inputs.

* `protection_spec`: what a check can do, as long as the noted time is not in the future.
* `curStatus_ne_runaway`: no run reports `RUNAWAY`.
* `protection_iff`: so the heater is protected exactly where protection is not called for.
* `runaway_unnoticed`: a nozzle that falls for two minutes with the heater on.
-/

namespace Cxsw.Heater

/-! ## The manager -/

section Defs

/-- `HeaterStatus`. -/
inductive HeaterStatus
  | idle
  | heating
  | cooldown
  | pidKeep
  | runaway
  deriving DecidableEq

/-- `CrTimeSpec_t`. -/
structure TimeSpec where
  sec : ℕ
  nsec : ℕ
  deriving DecidableEq

/-- What the protection works on: the target and the heater's duty in `Attr`, the duty of the heater itself, whether
the timer runs (`HeaterManagerStart`), the records of the protection, and the system clock. -/
structure HeaterManager where
  targetTemper : ℚ
  attrDuty : ℤ
  heaterDuty : ℤ
  start : Bool
  curStatus : HeaterStatus
  lastStatus : HeaterStatus
  firstErrTime : TimeSpec
  lastErr : ℚ
  clock : ℕ

/-- `PID_EFFECT_RANGE`. -/
def pidEffectRange : ℚ := 10

/-- `UPPER_TEMPERATURE_LIMIT`. -/
def upperTemperatureLimit : ℚ := 350

/-- `LOWER_TEMPERATURE_LIMIT`. -/
def lowerTemperatureLimit : ℚ := -40

/-- `fABs`. -/
def fAbs (n : ℚ) : ℚ := if 1 / 1000000 < n then n else if n < -1 / 1000000 then -n else 0

/-- `CrGetCurrentSystemTime`. -/
def currentSystemTime (s : HeaterManager) : TimeSpec := ⟨s.clock / 10 ^ 9, s.clock % 10 ^ 9⟩

/-- `CrHeaterManagerStart`. -/
def crHeaterManagerStart (s : HeaterManager) : HeaterManager := { s with start := true }

/-- `CrHeaterManagerStop`. -/
def crHeaterManagerStop (s : HeaterManager) : HeaterManager :=
  if s.start then { s with start := false, heaterDuty := 0 } else s

/-- The status that a check finds. -/
def updateStatus (s : HeaterManager) (degreen : ℚ) : HeaterStatus :=
  let status := if fAbs (s.targetTemper - degreen) < pidEffectRange then .pidKeep else s.curStatus
  let status := if s.targetTemper < degreen - pidEffectRange then .cooldown else status
  if s.targetTemper > degreen + pidEffectRange then .heating else status

/-- A new status forgets the time of the first error. -/
def noteStatus (s : HeaterManager) (status : HeaterStatus) : HeaterManager :=
  if status ≠ s.lastStatus then { s with curStatus := status, lastStatus := status, firstErrTime := ⟨0, 0⟩ }
  else { s with curStatus := status }

/-- The time of the first error is noted, or compared with the clock. -/
def checkWindow (s : HeaterManager) : HeaterManager :=
  if s.firstErrTime.nsec = 0 ∧ s.firstErrTime.sec = 0 then { s with firstErrTime := currentSystemTime s }
  else if (s.firstErrTime.sec : ℤ) - (currentSystemTime s).sec > 60 then { s with curStatus := .runaway }
  else s

/-- The `switch` of the protection. -/
def protectionSwitch (s : HeaterManager) (degreen : ℚ) : HeaterManager :=
  let err := s.targetTemper - degreen
  match s.curStatus with
  | .idle => s
  | .heating => if err > s.lastErr then checkWindow s else s
  | .pidKeep => if err > pidEffectRange ∨ err < -pidEffectRange then { s with curStatus := .runaway } else s
  | .cooldown => if s.attrDuty ≠ 0 then checkWindow s else s
  | .runaway => crHeaterManagerStop s

/-- `CrHeaterManagerProtection`, on the temperature `degreen`. -/
def crHeaterManagerProtection (s : HeaterManager) (degreen : ℚ) : HeaterManager :=
  let s := protectionSwitch (noteStatus s (updateStatus s degreen)) degreen
  if degreen ≥ upperTemperatureLimit ∨ degreen < lowerTemperatureLimit then crHeaterManagerStop s else s

/-- `HandleTemperMsg`: a message that sets the target has one. -/
def handleTemperMsg (s : HeaterManager) (target : Option ℚ) : HeaterManager :=
  { s with targetTemper := target.getD s.targetTemper, attrDuty := s.heaterDuty }

/-- `Exec`, with the message it finds. -/
def exec (s : HeaterManager) (degreen : ℚ) (msg : Option (Option ℚ)) : HeaterManager :=
  let s := crHeaterManagerProtection s degreen
  match msg with
  | some target => handleTemperMsg s target
  | none => s

/-- `CrHeaterMagagerSetAttr`. -/
def crHeaterMagagerSetAttr (s : HeaterManager) (target : ℚ) (duty : ℤ) : HeaterManager :=
  let s := { s with targetTemper := target, attrDuty := duty, heaterDuty := duty }
  if ! s.start then crHeaterManagerStart s else s

/-- `TimeOutHandle`; `duty` is the output of the PID.  The interval of zero that a stop sets does not stop the timer. -/
def timeOutHandle (s : HeaterManager) (duty : ℤ) : HeaterManager := { s with heaterDuty := duty }

/-- What happens to the manager, and time that passes. -/
inductive HeaterEvent
  | elapse (ns : ℕ)
  | exec (degreen : ℚ) (msg : Option (Option ℚ))
  | timeOut (duty : ℤ)
  | setAttr (target : ℚ) (duty : ℤ)
  | start
  | stop

/-- The effect of an event. -/
def HeaterEvent.apply : HeaterManager → HeaterEvent → HeaterManager
  | s, .elapse ns => { s with clock := s.clock + ns }
  | s, .exec degreen msg => Heater.exec s degreen msg
  | s, .timeOut duty => timeOutHandle s duty
  | s, .setAttr target duty => crHeaterMagagerSetAttr s target duty
  | s, .start => crHeaterManagerStart s
  | s, .stop => crHeaterManagerStop s

/-- The state after events. -/
def afterEvents (s : HeaterManager) (es : List HeaterEvent) : HeaterManager := es.foldl HeaterEvent.apply s

/-- The constructor; it leaves the other records of the protection as they are in memory. -/
def constructed (duty : ℤ) (lastStatus : HeaterStatus) (firstErrTime : TimeSpec) (lastErr : ℚ) (clock : ℕ) :
    HeaterManager where
  targetTemper := 0
  attrDuty := duty
  heaterDuty := duty
  start := true
  curStatus := .idle
  lastStatus := lastStatus
  firstErrTime := firstErrTime
  lastErr := lastErr
  clock := clock

end Defs

/-! ## What a check can do -/

section Check

/-- No runaway is reported, and the noted time is not in the future. -/
structure Quiet (s : HeaterManager) : Prop where
  status : s.curStatus ≠ .runaway
  past : s.firstErrTime.sec ≤ s.clock / 10 ^ 9

theorem crHeaterManagerStop_start (s : HeaterManager) : (crHeaterManagerStop s).start = false := by
  unfold crHeaterManagerStop
  by_cases h : s.start = true
  · rw [if_pos h]
  · rw [if_neg h]
    exact Bool.eq_false_iff.mpr h

theorem Quiet.stop {s : HeaterManager} (h : Quiet s) : Quiet (crHeaterManagerStop s) := by
  unfold crHeaterManagerStop
  split_ifs
  · exact ⟨h.status, h.past⟩
  · exact h

theorem Quiet.checkWindow {s : HeaterManager} (h : Quiet s) :
    Quiet (checkWindow s) ∧ (Heater.checkWindow s).start = s.start := by
  have hpast := h.past
  unfold Heater.checkWindow
  split_ifs with h0 h1
  · exact ⟨⟨h.status, le_refl _⟩, rfl⟩
  · have hsec : (currentSystemTime s).sec = s.clock / 10 ^ 9 := rfl
    rw [hsec] at h1
    omega
  · exact ⟨h, rfl⟩

theorem err_of_pidKeep {s : HeaterManager} {degreen : ℚ} (h : updateStatus s degreen = .pidKeep) :
    ¬ (s.targetTemper - degreen > pidEffectRange ∨ s.targetTemper - degreen < -pidEffectRange) := by
  unfold updateStatus at h
  dsimp only at h
  rintro (hgt | hlt)
  · rw [if_pos (by linarith)] at h
    cases h
  · have hr : (0 : ℚ) < pidEffectRange := by decide +kernel
    rw [if_neg (by linarith), if_pos (by linarith)] at h
    cases h

theorem updateStatus_ne_runaway {s : HeaterManager} (h : s.curStatus ≠ .runaway) (degreen : ℚ) :
    updateStatus s degreen ≠ .runaway := by
  unfold updateStatus
  dsimp only
  split_ifs
  all_goals first | exact h | exact fun hc => by cases hc

theorem noteStatus_spec {s : HeaterManager} (h : Quiet s) {status : HeaterStatus} (hs : status ≠ .runaway) :
    Quiet (noteStatus s status) ∧ (noteStatus s status).curStatus = status ∧
      (noteStatus s status).start = s.start ∧ (noteStatus s status).targetTemper = s.targetTemper := by
  unfold noteStatus
  split_ifs
  · exact ⟨⟨hs, Nat.zero_le _⟩, rfl, rfl, rfl⟩
  · exact ⟨⟨hs, h.past⟩, rfl, rfl, rfl⟩

/-- **What a check can do**: it never reports a runaway, and it stops the heater at the limits of the temperature
only. -/
theorem protection_spec {s : HeaterManager} (h : Quiet s) (degreen : ℚ) :
    Quiet (crHeaterManagerProtection s degreen) ∧
      (crHeaterManagerProtection s degreen).start =
        (s.start && !decide (degreen ≥ upperTemperatureLimit ∨ degreen < lowerTemperatureLimit)) := by
  have hne := updateStatus_ne_runaway h.status degreen
  obtain ⟨hq, hcur, hstart, htarget⟩ := noteStatus_spec h hne
  have hswitch : Quiet (protectionSwitch (noteStatus s (updateStatus s degreen)) degreen) ∧
      (protectionSwitch (noteStatus s (updateStatus s degreen)) degreen).start = s.start := by
    unfold protectionSwitch
    dsimp only
    rw [hcur, htarget]
    cases hst : updateStatus s degreen with
    | idle =>
      rw [hst] at hq hstart
      exact ⟨hq, hstart⟩
    | heating =>
      rw [hst] at hq hstart
      dsimp only
      split_ifs
      · exact ⟨hq.checkWindow.1, hq.checkWindow.2.trans hstart⟩
      · exact ⟨hq, hstart⟩
    | pidKeep =>
      rw [hst] at hq hstart
      dsimp only
      rw [if_neg (err_of_pidKeep hst)]
      exact ⟨hq, hstart⟩
    | cooldown =>
      rw [hst] at hq hstart
      dsimp only
      split_ifs
      · exact ⟨hq.checkWindow.1, hq.checkWindow.2.trans hstart⟩
      · exact ⟨hq, hstart⟩
    | runaway => exact absurd hst hne
  unfold crHeaterManagerProtection
  dsimp only
  by_cases hlim : degreen ≥ upperTemperatureLimit ∨ degreen < lowerTemperatureLimit
  · rw [if_pos hlim, crHeaterManagerStop_start]
    exact ⟨hswitch.1.stop, by simp [hlim]⟩
  · rw [if_neg hlim, hswitch.2]
    exact ⟨hswitch.1, by simp [hlim]⟩

theorem Quiet.apply {s : HeaterManager} (h : Quiet s) (e : HeaterEvent) : Quiet (HeaterEvent.apply s e) := by
  cases e with
  | elapse ns =>
    refine ⟨h.status, ?_⟩
    have hpast := h.past
    show s.firstErrTime.sec ≤ (s.clock + ns) / 10 ^ 9
    omega
  | exec degreen msg =>
    obtain ⟨hq, -⟩ := protection_spec h degreen
    cases msg with
    | none => exact hq
    | some target => exact ⟨hq.status, hq.past⟩
  | timeOut duty => exact ⟨h.status, h.past⟩
  | setAttr target duty =>
    show Quiet (crHeaterMagagerSetAttr s target duty)
    unfold crHeaterMagagerSetAttr
    dsimp only
    split_ifs
    · exact ⟨h.status, h.past⟩
    · exact ⟨h.status, h.past⟩
  | start => exact ⟨h.status, h.past⟩
  | stop => exact h.stop

theorem Quiet.afterEvents {s : HeaterManager} (h : Quiet s) (es : List HeaterEvent) : Quiet (afterEvents s es) := by
  induction es generalizing s with
  | nil => exact h
  | cons e es ih => exact ih (h.apply e)

/-- **No run reports a runaway.** -/
theorem curStatus_ne_runaway {s : HeaterManager} (h : Quiet s) (es : List HeaterEvent) :
    (Heater.afterEvents s es).curStatus ≠ .runaway := (h.afterEvents es).status

end Check

/-! ## Protection of a run -/

section Protection

/-- **The heater is driven**: it runs, with a duty or with a target that it has not reached. -/
def driven (s : HeaterManager) (degreen : ℚ) : Bool :=
  s.start && (decide (s.heaterDuty ≠ 0) || decide (s.targetTemper ≠ 0 ∧ degreen < s.targetTemper))

/-- A check: when it runs, the error it sees, and whether the heater is driven then. -/
structure Check where
  time : ℕ
  absErr : ℚ
  driven : Bool
  deriving DecidableEq

/-- The checks among events. -/
def checks : HeaterManager → List HeaterEvent → List Check
  | _, [] => []
  | s, e :: es =>
    let here :=
      match e with
      | .exec degreen _ => [⟨s.clock, |s.targetTemper - degreen|, driven s degreen⟩]
      | _ => []
    here ++ checks (HeaterEvent.apply s e) es

/-- The protection window, in nanoseconds. -/
def protectionWindow : ℕ := 60 * 10 ^ 9

/-- **Protection is called for**: the manager runs all the time, every check finds the heater driven and the temperature
outside the range around the target, no error is smaller than the one before, and the checks span more than the
window. -/
structure Stagnates (s : HeaterManager) (win : List HeaterEvent) : Prop where
  on : ∀ p, p <+: win → (afterEvents s p).start = true
  driven : ∀ c ∈ checks s win, c.driven = true
  outside : ∀ c ∈ checks s win, pidEffectRange < c.absErr
  notDecreasing : (checks s win).IsChain fun c d => c.absErr ≤ d.absErr
  long : ∃ c d, (checks s win).head? = some c ∧ (checks s win).getLast? = some d ∧ c.time + protectionWindow < d.time

/-- The heater is stopped and `RUNAWAY` is reported. -/
def Stopped (s : HeaterManager) : Prop := s.curStatus = .runaway ∧ s.start = false

/-- Neither started nor given new attributes, which starts it. -/
def NotStarted : HeaterEvent → Prop
  | .start => False
  | .setAttr _ _ => False
  | _ => True

/-- **Thermal protection** of a run: where protection is called for, the heater is stopped by the next check; a
reported runaway keeps it off until it is started again. -/
structure Protected (s : HeaterManager) (es : List HeaterEvent) : Prop where
  stopped : ∀ pre win degreen msg, pre ++ win ++ [.exec degreen msg] <+: es → Stagnates (afterEvents s pre) win →
    Stopped (afterEvents s (pre ++ win)) ∨ Stopped (afterEvents s (pre ++ win ++ [.exec degreen msg]))
  staysOff : ∀ pre post, pre ++ post <+: es → Stopped (afterEvents s pre) → (∀ e ∈ post, NotStarted e) →
    (afterEvents s (pre ++ post)).start = false

theorem constructed_quiet (duty : ℤ) (lastStatus : HeaterStatus) {firstErrTime : TimeSpec} (lastErr : ℚ) {clock : ℕ}
    (h : firstErrTime.sec ≤ clock / 10 ^ 9) : Quiet (constructed duty lastStatus firstErrTime lastErr clock) := by
  refine ⟨?_, h⟩
  show HeaterStatus.idle ≠ .runaway
  decide

/-- **The heater is protected exactly where protection is not called for**: in every run from construction, with any
memory whose noted time is not in the future. -/
theorem protection_iff (duty : ℤ) (lastStatus : HeaterStatus) (firstErrTime : TimeSpec) (lastErr : ℚ) (clock : ℕ)
    (h : firstErrTime.sec ≤ clock / 10 ^ 9) (es : List HeaterEvent) :
    Protected (constructed duty lastStatus firstErrTime lastErr clock) es ↔
      ∀ pre win degreen msg, pre ++ win ++ [.exec degreen msg] <+: es →
        ¬ Stagnates (afterEvents (constructed duty lastStatus firstErrTime lastErr clock) pre) win := by
  have hquiet := constructed_quiet duty lastStatus lastErr h
  have hnever : ∀ p, ¬ Stopped (afterEvents (constructed duty lastStatus firstErrTime lastErr clock) p) :=
    fun p hs => curStatus_ne_runaway hquiet p hs.1
  constructor
  · intro hp pre win degreen msg hes hst
    rcases hp.stopped pre win degreen msg hes hst with hs | hs
    · exact hnever _ hs
    · exact hnever _ hs
  · intro hno
    refine ⟨fun pre win degreen msg hes hst => absurd hst (hno pre win degreen msg hes), ?_⟩
    intro pre post _ hs _
    exact absurd hs (hnever pre)

/-- A single check is protected. -/
theorem protection_oneCheck :
    Protected (constructed 0 .idle ⟨0, 0⟩ 0 0) [.exec 20 none] := by
  refine (protection_iff 0 .idle ⟨0, 0⟩ 0 0 (Nat.zero_le _) [.exec 20 none]).mpr ?_
  intro pre win degreen msg hes hst
  have hlen := hes.length_le
  simp only [List.length_append, List.length_cons, List.length_nil] at hlen
  have hwin : win = [] := List.length_eq_zero_iff.mp (by omega)
  subst hwin
  obtain ⟨c, d, hc, -⟩ := hst.long
  cases hc

/-- A nozzle with target 200 degrees that falls from 100 to 60 in two minutes. -/
def fallingNozzle : List HeaterEvent :=
  [.exec 100 none, .elapse (60 * 10 ^ 9), .timeOut 255, .exec 80 none, .elapse (60 * 10 ^ 9), .exec 60 none]

/-- **A falling nozzle is heated on**: protection is called for, and the next check, at 50 degrees, leaves the heater
on and reports `HEATING`. -/
theorem runaway_unnoticed :
    Stagnates (afterEvents (constructed 0 .idle ⟨0, 0⟩ 0 (10 ^ 9)) [.setAttr 200 0]) fallingNozzle ∧
      (afterEvents (constructed 0 .idle ⟨0, 0⟩ 0 (10 ^ 9))
        ([.setAttr 200 0] ++ fallingNozzle ++ [.exec 50 none])).start =
        true ∧
      (afterEvents (constructed 0 .idle ⟨0, 0⟩ 0 (10 ^ 9))
        ([.setAttr 200 0] ++ fallingNozzle ++ [.exec 50 none])).curStatus = .heating ∧
      ¬ Protected (constructed 0 .idle ⟨0, 0⟩ 0 (10 ^ 9)) ([.setAttr 200 0] ++ fallingNozzle ++ [.exec 50 none]) := by
  have hst : Stagnates (afterEvents (constructed 0 .idle ⟨0, 0⟩ 0 (10 ^ 9)) [.setAttr 200 0]) fallingNozzle := by
    refine ⟨fun p hp => ?_, by decide +kernel, by decide +kernel, by decide +kernel, ?_⟩
    · have hall : ∀ q ∈ fallingNozzle.inits,
          (afterEvents (afterEvents (constructed 0 .idle ⟨0, 0⟩ 0 (10 ^ 9)) [.setAttr 200 0]) q).start = true := by
        decide +kernel
      exact hall p ((List.mem_inits p fallingNozzle).mpr hp)
    · exact ⟨⟨10 ^ 9, 100, true⟩, ⟨121 * 10 ^ 9, 140, true⟩, by decide +kernel, by decide +kernel, by decide +kernel⟩
  refine ⟨hst, by decide +kernel, by decide +kernel, fun hp => ?_⟩
  have hquiet := constructed_quiet 0 .idle 0 (show (⟨0, 0⟩ : TimeSpec).sec ≤ 10 ^ 9 / 10 ^ 9 from Nat.zero_le _)
  rcases hp.stopped [.setAttr 200 0] fallingNozzle 50 none (List.prefix_refl _) hst with hs | hs
  · exact curStatus_ne_runaway hquiet _ hs.1
  · exact curStatus_ne_runaway hquiet _ hs.1

end Protection

end Cxsw.Heater
