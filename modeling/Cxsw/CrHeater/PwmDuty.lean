import Cxsw.CrHeater.PwmCallBack
import Cxsw.Lib.TimedPin
import Mathlib.Tactic.NormNum

/-!
# Cxsw.CrHeater.PwmDuty — how long the pin is high (`CrHeater/Pwm/PwmCallBack.cpp`, `FanPwmCallback.cpp`)

With constant attributes the callbacks of a heater and of a fan turn the pin on and off in turn.  A cycle should last
10 ms, `Duty * delay` of them with the pin on, up to all ten.

* `heaterPin_times_eq`, `fanPin_times_eq`: both pins are `pwmPin`, whose times `pwmPin_times_cycles` gives.
* `pwm_duty_iff`: they are as they should be exactly below ten.
-/

namespace Cxsw.Heater

/-! ## The callbacks -/

section Defs

/-- The level of the pin of a fan, and its attributes. -/
structure FanChannel where
  pinState : Bool
  attr : PwmControllerAttr
  deriving DecidableEq

/-- `CrFanIoctl`, which reads the level as a `BOOL` and treats `CMD_FAN_OPEN` and `CMD_FAN_CLOSE` alike. -/
def crFanIoctl (s : FanChannel) (level : ℤ) : FanChannel := { s with pinState := decide (level % 256 ≠ 0) }

/-- `FanPwmRun`, and the time until it is called again, in nanoseconds. -/
def fanPwmRun (s : FanChannel) : FanChannel × ℕ :=
  let delay := toU32 (max ((s.attr.freq : ℚ) / 255) 1)
  let timeout := min (u32 (u32 (1000000 * u32OfS32 s.attr.duty) * delay)) 10000000
  if s.pinState then (crFanIoctl s (cNot s.attr.defaultLevel), max (10000000 - timeout) 1000000)
  else (if s.attr.duty ≠ 0 then crFanIoctl s s.attr.defaultLevel else s, max timeout 1000000)

/-- The pin of a heater. -/
def heaterPin : TimedPin HeaterChannel where
  run := heartPwmRun
  level s := s.pinState

/-- The pin of a fan. -/
def fanPin : TimedPin FanChannel where
  run := fanPwmRun
  level s := s.pinState

namespace PwmControllerAttr

/-- `delay`, in milliseconds. -/
def delay (attr : PwmControllerAttr) : ℕ := toU32 (max ((attr.freq : ℚ) / 255) 1)

/-- `Timeout` before the pin is read. -/
def timeout (attr : PwmControllerAttr) : ℕ :=
  min (u32 (u32 (1000000 * u32OfS32 attr.duty) * attr.delay)) 10000000

/-- The milliseconds of high level in ten. -/
def highMs (attr : PwmControllerAttr) : ℤ := min (attr.duty * attr.delay) 10

end PwmControllerAttr

/-- Over any number of cycles the pin is high for the share of the time that the attributes ask for, and every cycle of
on and off lasts 10 ms; the product does not wrap. -/
def DutyFaithful {σ : Type} (p : TimedPin σ) (attr : PwmControllerAttr) (s : σ) : Prop :=
  1000000 * attr.duty * attr.delay < 2 ^ 32 ∧
    ∀ n : ℕ, ((p.times (n * 2) s).1 : ℤ) * 10 = attr.highMs * (p.times (n * 2) s).2 ∧
      (attr.duty ≠ 0 → (p.times (n * 2) s).2 = n * 10000000)

end Defs

/-! ## Both callbacks do the same -/

section Shared

variable {attr : PwmControllerAttr}

/-- A callback with attributes whose `DefaultLevel` is 1. -/
def pwmPin (attr : PwmControllerAttr) : TimedPin Bool where
  run high :=
    if high then (false, max (10000000 - attr.timeout) 1000000)
    else (decide (attr.duty ≠ 0), max attr.timeout 1000000)
  level high := high

theorem heaterPin_times_eq (hlevel : attr.defaultLevel = 1) (n : ℕ) {s : HeaterChannel} (hs : s.attr = attr) :
    heaterPin.times n s = (pwmPin attr).times n s.pinState := by
  refine (TimedPin.times_map heaterPin (pwmPin attr) (I := fun s => s.attr = attr)
    (f := HeaterChannel.pinState) (fun t ht => (heartPwmRun_attr t).1.trans ht) (fun t ht => ?_) (fun _ =>
      rfl) n hs).symm
  subst ht
  unfold heaterPin pwmPin heartPwmRun PwmControllerAttr.timeout PwmControllerAttr.delay crHeaterIoctl cNot
  dsimp only
  rw [hlevel]
  cases hpin : t.pinState <;> by_cases hduty : t.attr.duty = 0 <;> simp [hduty, hpin]

theorem fanPin_times_eq (hlevel : attr.defaultLevel = 1) (n : ℕ) {s : FanChannel} (hs : s.attr = attr) :
    fanPin.times n s = (pwmPin attr).times n s.pinState := by
  refine (TimedPin.times_map fanPin (pwmPin attr) (I := fun s => s.attr = attr)
    (f := FanChannel.pinState) (fun t ht => ?_) (fun t ht => ?_) (fun _ => rfl) n hs).symm
  · subst ht
    unfold fanPin fanPwmRun
    dsimp only
    split_ifs <;> rfl
  · subst ht
    unfold fanPin pwmPin fanPwmRun PwmControllerAttr.timeout PwmControllerAttr.delay crFanIoctl cNot
    dsimp only
    rw [hlevel]
    cases hpin : t.pinState <;> by_cases hduty : t.attr.duty = 0 <;> simp [hduty, hpin]

end Shared

/-! ## The times -/

section Times

variable {attr : PwmControllerAttr}

theorem one_le_delay (attr : PwmControllerAttr) : 1 ≤ attr.delay := by
  have hx : (1 : ℚ) ≤ max ((attr.freq : ℚ) / 255) 1 := le_max_right _ _
  have hfloor : 1 ≤ ⌊max ((attr.freq : ℚ) / 255) 1⌋ := Int.le_floor.mpr (by exact_mod_cast hx)
  unfold PwmControllerAttr.delay toU32
  rw [truncQ_of_nonneg (zero_le_one.trans hx)]
  omega

theorem pwmPin_times_zero (hduty : attr.duty = 0) (n : ℕ) (high : Bool) : ((pwmPin attr).times n high).1 = 0 := by
  induction n generalizing high with
  | zero => rfl
  | succ n ih =>
    have hoff : ((pwmPin attr).run high).1 = false := by
      cases high
      · exact decide_eq_false (not_not.mpr hduty)
      · rfl
    have hinterval : ((pwmPin attr).interval high).1 = 0 := by
      unfold TimedPin.interval
      rw [hoff]
      rfl
    rw [TimedPin.times, Prod.fst_add, hinterval, ih]

/-- With another duty it goes on and off in turn. -/
theorem pwmPin_times_cycles (hduty : attr.duty ≠ 0) (n : ℕ) (high : Bool) :
    (pwmPin attr).times (n * 2) high =
      (n * max attr.timeout 1000000, n * (max attr.timeout 1000000 + max (10000000 - attr.timeout) 1000000)) := by
  have hcycle : (pwmPin attr).after 2 high = high := by cases high <;> simp [TimedPin.after, pwmPin, hduty]
  have htimes : (pwmPin attr).times 2 high =
      (max attr.timeout 1000000, max attr.timeout 1000000 + max (10000000 - attr.timeout) 1000000) := by
    cases high
    · simp [TimedPin.times, TimedPin.interval, pwmPin, hduty]
    · simp [TimedPin.times, TimedPin.interval, pwmPin, hduty, Nat.add_comm]
  rw [TimedPin.times_cycles _ hcycle, htimes, Prod.smul_mk, nsmul_eq_mul, nsmul_eq_mul, Nat.cast_id]

theorem timeout_eq (h0 : 0 ≤ attr.duty) (hwrap : 1000000 * (attr.duty * attr.delay) < 2 ^ 32) :
    (attr.timeout : ℤ) = min (1000000 * (attr.duty * attr.delay)) 10000000 := by
  obtain ⟨duty, hduty⟩ := Int.eq_ofNat_of_zero_le h0
  rw [hduty] at hwrap ⊢
  have hprod : 1000000 * (duty * attr.delay) < 2 ^ 32 := by exact_mod_cast hwrap
  have hle : duty ≤ duty * attr.delay := Nat.le_mul_of_pos_right _ (one_le_delay attr)
  have hconv : u32OfS32 attr.duty = duty := by
    rw [hduty, u32OfS32_of_nonneg (by omega) (by omega)]
    rfl
  have htimeout : attr.timeout = min (1000000 * (duty * attr.delay)) 10000000 := by
    unfold PwmControllerAttr.timeout
    rw [hconv, u32_of_lt (n := 1000000 * duty) (by omega), mul_assoc, u32_of_lt hprod]
  rw [htimeout]
  push_cast
  rfl

theorem dutyFaithful_pwmPin_iff (h0 : 0 ≤ attr.duty) (high : Bool) :
    DutyFaithful (pwmPin attr) attr high ↔ attr.duty * attr.delay < 10 := by
  constructor
  · rintro ⟨-, h⟩
    by_contra hnot
    have hduty : attr.duty ≠ 0 := by
      intro hzero
      rw [hzero, zero_mul] at hnot
      omega
    -- the pin is off for at least one millisecond of the first cycle
    have hfirst := (h 1).1
    rw [pwmPin_times_cycles hduty, PwmControllerAttr.highMs, min_eq_right (not_lt.mp hnot)] at hfirst
    dsimp only at hfirst
    omega
  · intro hlt
    refine ⟨by rw [mul_assoc]; omega, fun n => ?_⟩
    have hhigh : attr.highMs = attr.duty * attr.delay := min_eq_left hlt.le
    by_cases hduty : attr.duty = 0
    · refine ⟨?_, fun hne => absurd hduty hne⟩
      rw [pwmPin_times_zero hduty, hhigh, hduty]
      simp
    · have hpos : 1 ≤ attr.duty * attr.delay := by
        have h1 : (1 : ℤ) ≤ attr.delay := by exact_mod_cast one_le_delay attr
        have h2 : 1 ≤ attr.duty := by omega
        exact one_le_mul_of_one_le_of_one_le h2 h1
      have htimeout : (attr.timeout : ℤ) = 1000000 * (attr.duty * attr.delay) := by
        rw [timeout_eq h0 (by omega)]
        omega
      have hon : max attr.timeout 1000000 = attr.timeout := by omega
      have hoff : max (10000000 - attr.timeout) 1000000 = 10000000 - attr.timeout := by omega
      have htotal : attr.timeout + (10000000 - attr.timeout) = 10000000 := by omega
      rw [pwmPin_times_cycles hduty, hon, hoff, htotal, hhigh]
      refine ⟨?_, fun _ => rfl⟩
      push_cast
      rw [htimeout]
      ring

end Times

/-! ## Heaters and fans -/

section Duty

/-- With `DefaultLevel` 1 the pin of a heater, and that of a fan, is as it should be over any number of cycles exactly
where `Duty * delay` is below ten. -/
theorem pwm_duty_iff (attr : PwmControllerAttr) (hlevel : attr.defaultLevel = 1) (hduty : 0 ≤ attr.duty) :
    ((∀ s : HeaterChannel, s.attr = attr → DutyFaithful heaterPin attr s) ↔ attr.duty * attr.delay < 10) ∧
      ((∀ s : FanChannel, s.attr = attr → DutyFaithful fanPin attr s) ↔ attr.duty * attr.delay < 10) := by
  have hheater (s : HeaterChannel) (hs : s.attr = attr) :
      DutyFaithful heaterPin attr s ↔ DutyFaithful (pwmPin attr) attr s.pinState := by
    unfold DutyFaithful
    simp only [heaterPin_times_eq hlevel _ hs]
  have hfan (s : FanChannel) (hs : s.attr = attr) :
      DutyFaithful fanPin attr s ↔ DutyFaithful (pwmPin attr) attr s.pinState := by
    unfold DutyFaithful
    simp only [fanPin_times_eq hlevel _ hs]
  constructor
  · constructor
    · intro h
      exact (dutyFaithful_pwmPin_iff hduty _).mp ((hheater ⟨true, attr, true⟩ rfl).mp (h _ rfl))
    · intro h s hs
      exact (hheater s hs).mpr ((dutyFaithful_pwmPin_iff hduty _).mpr h)
  · constructor
    · intro h
      exact (dutyFaithful_pwmPin_iff hduty _).mp ((hfan ⟨true, attr⟩ rfl).mp (h _ rfl))
    · intro h s hs
      exact (hfan s hs).mpr ((dutyFaithful_pwmPin_iff hduty _).mpr h)

theorem pwm_half_duty :
    DutyFaithful heaterPin ⟨100, 5, 0, 1⟩ ⟨false, ⟨100, 5, 0, 1⟩, true⟩ ∧
      DutyFaithful fanPin ⟨100, 5, 0, 1⟩ ⟨false, ⟨100, 5, 0, 1⟩⟩ := by
  obtain ⟨hheater, hfan⟩ := pwm_duty_iff ⟨100, 5, 0, 1⟩ rfl (by decide)
  have hlt : (5 : ℤ) * (PwmControllerAttr.delay ⟨100, 5, 0, 1⟩ : ℤ) < 10 := by decide +kernel
  exact ⟨hheater.mpr hlt _ rfl, hfan.mpr hlt _ rfl⟩

/-- The full duty of the PID leaves the pin off for one millisecond of eleven. -/
theorem not_pwm_duty :
    ¬ ∀ attr : PwmControllerAttr, attr.defaultLevel = 1 → 0 ≤ attr.freq → 0 ≤ attr.duty →
      ∀ s : HeaterChannel, s.attr = attr → DutyFaithful heaterPin attr s := by
  intro h
  have hfull := (h ⟨100, 255, 0, 1⟩ rfl (by decide) (by decide) ⟨false, ⟨100, 255, 0, 1⟩, true⟩ rfl).2 1
  exact absurd hfull.1 (by decide +kernel)

end Duty

end Cxsw.Heater
