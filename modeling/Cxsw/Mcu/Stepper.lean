import Mathlib.Data.Nat.Bitwise
import Cxsw.Chelper.StepCompress

/-!
# Cxsw.Mcu.Stepper — the steps of a move, one timer event after the other (`src/stepper.c`)

A move of `queue_step` waits in the stepper's queue until it is loaded; then every event of its timer makes an edge of
the step pin, and finds the clock of the next one.  Where the pulse is not short, there is an event for the start and
one for the end of each step.  `position` has the whole move already, and where the motor runs backwards it is negated,
so that a move is always added.

* `Stepper` and its functions: the code; `none` is a shutdown.
* `Pins.see`: what the driver of the motor sees of the pins.
* `plan`: the steps that are still to come.
* `Good`: what the functions keep; `loadNext_spec`, `event_spec`, `queueStep_spec`: what they do with the plan.
-/

namespace Cxsw.McuStepper

open StepCompress (int32 travel travel_singleton)

/-! ## The code -/

section Defs

/-- `dir` is `MF_DIR`. -/
structure StepperMove where
  interval : UInt32
  add : Int16
  count : UInt16
  dir : Bool
  deriving DecidableEq

/-- The function of the timer. -/
inductive EventFunc
  | edge
  | avr
  | full
  deriving DecidableEq

/-- Which of `HAVE_EDGE_OPTIMIZATION` and `HAVE_AVR_OPTIMIZATION` is set. -/
inductive Optimization
  | edge
  | avr
  | none
  deriving DecidableEq

/-- `struct stepper`; the flags are `SF_LAST_DIR` and so on. -/
structure Stepper where
  func : EventFunc
  waketime : UInt32
  interval : UInt32
  add : Int16
  count : UInt32
  nextStepTime : UInt32
  stepPulseTicks : UInt32
  position : UInt32
  mq : List StepperMove
  lastDir : Bool
  nextDir : Bool
  invertStep : Bool
  needReset : Bool
  singleSched : Bool
  haveAdd : Bool
  deriving DecidableEq

/-- What is done to a pin. -/
inductive Gpio
  | toggleStep
  | toggleDir
  | writeStep (level : Bool)
  | writeDir (level : Bool)
  deriving DecidableEq

inductive Ret
  | done
  | reschedule
  deriving DecidableEq

def positionBias : UInt32 := 0x40000000

def timerIsBefore (time1 time2 : UInt32) : Bool := int32 (time1 - time2) < 0

namespace Stepper

/-- `command_config_stepper`. -/
def config (opt : Optimization) (invertStep : ℤ) (stepPulseTicks : UInt32) : Stepper :=
  let s : Stepper :=
    { func := .full, waketime := 0, interval := 0, add := 0, count := 0, nextStepTime := 0,
      stepPulseTicks := stepPulseTicks
      position := -positionBias, mq := [], lastDir := false, nextDir := false, invertStep := invertStep > 0
      needReset := false, singleSched := false, haveAdd := false }
  match opt with
  | .edge => if stepPulseTicks = 0 ∧ invertStep < 0 then { s with func := .edge, singleSched := true } else s
  | .avr => if stepPulseTicks ≤ 40 then { s with func := .avr, singleSched := true } else s
  | .none => s

/-- The move `m` of the queue goes into the stepper. -/
def loadMove (s : Stepper) (m : StepperMove) (mq : List StepperMove) : Stepper :=
  let s := { s with mq := mq, add := m.add, interval := m.interval + UInt32.ofInt m.add.toInt }
  if s.singleSched then
    { s with
      waketime := s.waketime + m.interval
      haveAdd := if s.func = .avr then m.add ≠ 0 else s.haveAdd
      count := m.count.toUInt32 }
  else
    { s with
      nextStepTime := s.nextStepTime + m.interval
      waketime := s.nextStepTime + m.interval
      count := m.count.toUInt32 * 2 }

/-- `stepper_load_next`. -/
def loadNext (s : Stepper) : Stepper × List Gpio × Ret :=
  match s.mq with
  | [] => ({ s with count := 0 }, [], .done)
  | m :: mq =>
    let s := s.loadMove m mq
    if m.dir then ({ s with position := -s.position + m.count.toUInt32 }, [.toggleDir], .reschedule)
    else ({ s with position := s.position + m.count.toUInt32 }, [], .reschedule)

/-- `stepper_event_edge`. -/
def eventEdge (s : Stepper) : Stepper × List Gpio × Ret :=
  let count := s.count - 1
  if count ≠ 0 then
    ({ s with
        count := count
        waketime := s.waketime + s.interval
        interval := s.interval + UInt32.ofInt s.add.toInt }, [.toggleStep], .reschedule)
  else
    let r := s.loadNext
    (r.1, .toggleStep :: r.2.1, r.2.2)

/-- `stepper_event_avr`. -/
def eventAvr (s : Stepper) : Stepper × List Gpio × Ret :=
  let count := s.count - 1
  if count ≠ 0 then
    ({ s with
        count := count
        waketime := s.waketime + s.interval
        interval := if s.haveAdd then s.interval + UInt32.ofInt s.add.toInt else s.interval },
      [.toggleStep, .toggleStep], .reschedule)
  else
    let r := s.loadNext
    (r.1, .toggleStep :: r.2.1 ++ [.toggleStep], r.2.2)

/-- `stepper_event_full` at the time `curtime`; `lateTicks` is `timer_from_us(1000)`. -/
def eventFull (lateTicks : UInt32) (curtime : UInt32) (s : Stepper) : Option (Stepper × List Gpio × Ret) :=
  let minNextTime := curtime + s.stepPulseTicks
  let s := { s with count := s.count - 1 }
  if s.count &&& 1 ≠ 0 then some ({ s with waketime := minNextTime }, [.toggleStep], .reschedule)
  else if s.count ≠ 0 then
    let s := { s with nextStepTime := s.nextStepTime + s.interval, interval := s.interval + UInt32.ofInt s.add.toInt }
    if timerIsBefore s.nextStepTime minNextTime then some ({ s with waketime := minNextTime }, [.toggleStep],
      .reschedule)
    else some ({ s with waketime := s.nextStepTime }, [.toggleStep], .reschedule)
  else
    let r := s.loadNext
    if r.2.2 = .done ∨ ¬ timerIsBefore r.1.waketime minNextTime then some (r.1, .toggleStep :: r.2.1, r.2.2)
    else if int32 (r.1.waketime - minNextTime) < int32 (-lateTicks) then none
    else some ({ r.1 with waketime := minNextTime }, .toggleStep :: r.2.1, .reschedule)

/-- The event of the timer. -/
def event (lateTicks curtime : UInt32) (s : Stepper) : Option (Stepper × List Gpio × Ret) :=
  match s.func with
  | .edge => some s.eventEdge
  | .avr => some s.eventAvr
  | .full => s.eventFull lateTicks curtime

/-- `command_queue_step`. -/
def queueStep (s : Stepper) (interval : UInt32) (count : UInt16) (add : Int16) : Option (Stepper × List Gpio) :=
  if count = 0 then none
  else
    let m : StepperMove := ⟨interval, add, count, s.lastDir ≠ s.nextDir⟩
    if s.count ≠ 0 then some ({ s with lastDir := s.nextDir, mq := s.mq ++ [m] }, [])
    else if s.needReset then some (s, [])
    else
      let r := { s with lastDir := s.nextDir, mq := s.mq ++ [m] }.loadNext
      some (r.1, r.2.1)

/-- `command_set_next_step_dir`. -/
def setNextStepDir (s : Stepper) (dir : Bool) : Stepper := { s with nextDir := dir }

/-- `command_reset_step_clock`. -/
def resetStepClock (s : Stepper) (waketime : UInt32) : Option Stepper :=
  if s.count ≠ 0 then none
  else some { s with nextStepTime := waketime, waketime := waketime, needReset := false }

/-- The steps of the move that are still to come. -/
def stepsLeft (s : Stepper) : UInt32 := if s.singleSched then s.count else s.count / 2

/-- `stepper_get_position`. -/
def getPosition (s : Stepper) : UInt32 :=
  let position := s.position - s.stepsLeft
  if position &&& 0x80000000 ≠ 0 then -position else position

/-- `stepper_stop`. -/
def stop (s : Stepper) : Stepper × List Gpio :=
  ({ s with
      nextStepTime := 0
      waketime := 0
      position := -s.getPosition
      count := 0
      lastDir := false
      nextDir := false
      needReset := true
      haveAdd := false
      mq := [] },
    .writeDir false :: if s.func = .edge then [] else [.writeStep s.invertStep])

end Stepper

/-! ### The driver -/

/-- The levels of the pins. -/
structure Pins where
  step : Bool
  dir : Bool
  deriving DecidableEq

/-- What the driver sees: a step where the step pin leaves its idle level, or, with `both`, on every edge. -/
def Pins.see (idle both : Bool) (p : Pins) : Gpio → Pins × List Bool
  | .toggleStep => ({ p with step := !p.step }, if both ∨ p.step = idle then [p.dir] else [])
  | .toggleDir => ({ p with dir := !p.dir }, [])
  | .writeStep level => ({ p with step := level }, if p.step ≠ level ∧ (both ∨ level ≠ idle) then [p.dir] else [])
  | .writeDir level => ({ p with dir := level }, [])

def Pins.seeAll (idle both : Bool) : Pins → List Gpio → Pins × List Bool
  | p, [] => (p, [])
  | p, g :: gs => ((Pins.seeAll idle both (p.see idle both g).1 gs).1,
      (p.see idle both g).2 ++ (Pins.seeAll idle both (p.see idle both g).1 gs).2)

/-! ### The steps to come -/

/-- Clocks, `interval` apart at first, and `add` more every time. -/
def clocksFrom (add : Int16) : ℕ → UInt32 → UInt32 → List UInt32
  | 0, _, _ => []
  | n + 1, next, interval => next :: clocksFrom add n (next + interval) (interval + UInt32.ofInt add.toInt)

/-- The clocks of a move behind `clock`. -/
def StepperMove.clocks (clock : UInt32) (m : StepperMove) : List UInt32 :=
  clocksFrom m.add m.count.toNat (clock + m.interval) (m.interval + UInt32.ofInt m.add.toInt)

/-- The steps of the queue. -/
def movePlan : UInt32 → Bool → List StepperMove → List (Bool × UInt32)
  | _, _, [] => []
  | clock, dir, m :: mq =>
    ((m.clocks clock).map fun c => (dir ^^ m.dir, c)) ++ movePlan ((m.clocks clock).getLastD clock) (dir ^^ m.dir) mq

/-- The clock of the last step that was scheduled. -/
def Stepper.clock (s : Stepper) : UInt32 := if s.singleSched then s.waketime else s.nextStepTime

/-- The clocks of the move that are still to come. -/
def Stepper.rest (s : Stepper) : List UInt32 :=
  if s.singleSched then clocksFrom s.add s.count.toNat s.waketime s.interval
  else if s.count.toNat % 2 = 0 then clocksFrom s.add (s.count.toNat / 2) s.nextStepTime s.interval
  -- the end of a step comes first
  else clocksFrom s.add (s.count.toNat / 2) (s.nextStepTime + s.interval) (s.interval + UInt32.ofInt s.add.toInt)

/-- The clock of the last step of the move. -/
def Stepper.moveEnd (s : Stepper) : UInt32 := s.rest.getLastD s.clock

/-- The steps that are still to come. -/
def plan (s : Stepper) (dir : Bool) : List (Bool × UInt32) :=
  (s.rest.map fun c => (dir, c)) ++ movePlan s.moveEnd dir s.mq

/-- The clock and the direction behind the moves of a queue. -/
def endOf : UInt32 → Bool → List StepperMove → UInt32 × Bool
  | clock, dir, [] => (clock, dir)
  | clock, dir, m :: mq => endOf ((m.clocks clock).getLastD clock) (dir ^^ m.dir) mq

/-- The position has the whole move: with the steps up to now, it would be `t`. -/
def Counted (s : Stepper) (dir : Bool) (t : ℤ) : Prop :=
  s.position = UInt32.ofInt (s.rest.length + if dir then t else -t)

/-- What the functions keep: of the flags, the numbers, and the step pin. -/
structure Good (s : Stepper) (p : Pins) : Prop where
  single : s.singleSched = true ↔ s.func ≠ .full
  counts : ∀ m ∈ s.mq, m.count ≠ 0
  bound : s.count.toNat ≤ 2 * 65535
  empty : s.count = 0 → s.mq = []
  avr : s.func = .avr → p.step = s.invertStep ∧ (s.count ≠ 0 → s.haveAdd = false → s.add = 0)
  full : s.func = .full → p.step = (s.invertStep ^^ decide (s.count.toNat % 2 = 1))

end Defs

/-! ## Clocks -/

section Clocks

variable {s : Stepper} {m : StepperMove} {mq : List StepperMove} {clock : UInt32} {dir : Bool}

@[simp] theorem length_clocksFrom (add : Int16) (n : ℕ) (next interval : UInt32) :
    (clocksFrom add n next interval).length = n := by
  induction n generalizing next interval with
  | zero => rfl
  | succ n ih => rw [clocksFrom, List.length_cons, ih]

theorem clocksFrom_pos {n : ℕ} (hn : 0 < n) (add : Int16) (next interval : UInt32) :
    clocksFrom add n next interval =
      next :: clocksFrom add (n - 1) (next + interval) (interval + UInt32.ofInt add.toInt) := by
  cases n with
  | zero => omega
  | succ n => rfl

theorem getLastD_of_ne_nil {α : Type*} {l : List α} (h : l ≠ []) (a b : α) : l.getLastD a = l.getLastD b := by
  rw [List.getLastD_eq_getLast?, List.getLastD_eq_getLast?, List.getLast?_eq_some_getLast h, Option.getD_some,
    Option.getD_some]

theorem count_pos (h : m.count ≠ 0) : 0 < m.count.toNat := by
  refine Nat.pos_of_ne_zero fun hzero => h ?_
  exact UInt16.toNat_inj.mp hzero

theorem clocks_ne_nil (h : m.count ≠ 0) : m.clocks clock ≠ [] := by
  unfold StepperMove.clocks
  rw [clocksFrom_pos (count_pos h)]
  exact List.cons_ne_nil _ _

theorem movePlan_append (clock : UInt32) (dir : Bool) (mq : List StepperMove) (m : StepperMove) :
    movePlan clock dir (mq ++ [m]) = movePlan clock dir mq ++
      ((m.clocks (endOf clock dir mq).1).map fun c => ((endOf clock dir mq).2 ^^ m.dir, c)) := by
  induction mq generalizing clock dir with
  | nil => simp [movePlan, endOf]
  | cons m' mq ih => rw [List.cons_append, movePlan, ih, movePlan, List.append_assoc, endOf]

theorem endOf_append (clock : UInt32) (dir : Bool) (mq : List StepperMove) (m : StepperMove) :
    endOf clock dir (mq ++ [m]) =
      ((m.clocks (endOf clock dir mq).1).getLastD (endOf clock dir mq).1, (endOf clock dir mq).2 ^^ m.dir) := by
  induction mq generalizing clock dir with
  | nil => rfl
  | cons m' mq ih => rw [List.cons_append, endOf, ih, endOf]

end Clocks

/-! ## Loading a move -/

section Loads

variable {s : Stepper} {m : StepperMove} {mq : List StepperMove} {p : Pins}

/-- The flags that only commands change. -/
structure SameFlags (s s' : Stepper) : Prop where
  func : s'.func = s.func
  lastDir : s'.lastDir = s.lastDir
  nextDir : s'.nextDir = s.nextDir
  invertStep : s'.invertStep = s.invertStep
  needReset : s'.needReset = s.needReset
  singleSched : s'.singleSched = s.singleSched
  stepPulseTicks : s'.stepPulseTicks = s.stepPulseTicks

theorem SameFlags.refl (s : Stepper) : SameFlags s s := ⟨rfl, rfl, rfl, rfl, rfl, rfl, rfl⟩

theorem loadNext_nil (h : s.mq = []) : s.loadNext = ({ s with count := 0 }, [], .done) := by
  unfold Stepper.loadNext
  rw [h]

/-- **A move is loaded.** -/
structure Loaded (s : Stepper) (m : StepperMove) (mq : List StepperMove) (s' : Stepper) : Prop where
  flags : SameFlags s s'
  rest : s'.rest = m.clocks s.clock
  mq : s'.mq = mq
  bound : s'.count.toNat ≤ 2 * 65535
  count : s'.count ≠ 0
  even : s.singleSched = false → s'.count.toNat % 2 = 0
  avr : s.singleSched = true → s.func = .avr → s'.haveAdd = false → s'.add = 0

theorem ne_zero_of_pos {c : UInt32} (h : 0 < c.toNat) : c ≠ 0 := by
  rintro rfl
  exact absurd h (by decide)

theorem loadMove_spec (s : Stepper) (mq : List StepperMove)
    (hcount : m.count ≠ 0) : Loaded s m mq (s.loadMove m mq) := by
  have hpos := count_pos hcount
  have hlt : m.count.toNat < 65536 := m.count.toNat_lt
  have h1 : m.count.toUInt32.toNat = m.count.toNat := rfl
  have h2 : (m.count.toUInt32 * 2).toNat = m.count.toNat * 2 := by
    rw [UInt32.toNat_mul, h1]
    exact Nat.mod_eq_of_lt (show m.count.toNat * 2 < 2 ^ 32 by omega)
  unfold Stepper.loadMove
  cases hsingle : s.singleSched with
  | true =>
    simp only [if_true]
    refine ⟨⟨rfl, rfl, rfl, rfl, rfl, hsingle.symm, rfl⟩, ?_, rfl, ?_, ne_zero_of_pos ?_, fun h => ?_,
      fun _ hfunc hadd => ?_⟩
    · unfold Stepper.rest StepperMove.clocks Stepper.clock
      rw [if_pos rfl, if_pos hsingle, h1]
    · rw [h1]
      omega
    · rw [h1]
      exact hpos
    · cases hsingle.symm.trans h
    · simpa [hfunc] using hadd
  | false =>
    simp only [Bool.false_eq_true, if_false]
    refine ⟨⟨rfl, rfl, rfl, rfl, rfl, hsingle.symm, rfl⟩, ?_, rfl, ?_, ne_zero_of_pos ?_, fun _ => ?_, fun h => ?_⟩
    · have hclock : s.clock = s.nextStepTime := by
        unfold Stepper.clock
        rw [hsingle]
        rfl
      unfold Stepper.rest StepperMove.clocks
      rw [hclock, if_neg Bool.false_ne_true]
      simp only [h2]
      rw [if_pos (by omega), Nat.mul_div_cancel _ (by decide)]
    · rw [h2]
      omega
    · rw [h2]
      omega
    · rw [h2]
      omega
    · cases hsingle.symm.trans h

theorem loadNext_cons (h : s.mq = m :: mq) (hcount : m.count ≠ 0) :
    ∃ s', s.loadNext = (s', if m.dir then [.toggleDir] else [], .reschedule) ∧ Loaded s m mq s' ∧
      s'.position = (if m.dir then -s.position else s.position) + m.count.toUInt32 := by
  obtain ⟨⟨f1, f2, f3, f4, f5, f6, f7⟩, h2, h3, h4, h5, h6, h7⟩ := loadMove_spec s mq hcount
  have hpos : (s.loadMove m mq).position = s.position := by
    unfold Stepper.loadMove
    cases s.singleSched <;> rfl
  unfold Stepper.loadNext
  simp only [h, hpos]
  cases m.dir
  · exact ⟨_, rfl, ⟨⟨f1, f2, f3, f4, f5, f6, f7⟩, h2, h3, h4, h5, h6, h7⟩, rfl⟩
  · exact ⟨_, rfl, ⟨⟨f1, f2, f3, f4, f5, f6, f7⟩, h2, h3, h4, h5, h6, h7⟩, rfl⟩

/-- **`stepper_load_next`**: `toggled` is whether the direction changes. -/
structure Reloaded (s s' : Stepper) (toggled : Bool) : Prop where
  flags : SameFlags s s'
  plan : ∀ d, movePlan s.clock d s.mq = plan s' (d ^^ toggled)
  last : ∀ d, endOf s.clock d s.mq = endOf s'.moveEnd (d ^^ toggled) s'.mq
  counts : ∀ m ∈ s'.mq, m.count ≠ 0
  bound : s'.count.toNat ≤ 2 * 65535
  empty : s'.count = 0 → s'.mq = []
  even : s.singleSched = false → s'.count.toNat % 2 = 0
  avr : s.singleSched = true → s.func = .avr → s'.count ≠ 0 → s'.haveAdd = false → s'.add = 0
  position : ∀ d t, s.position = UInt32.ofInt (if d then t else -t) → Counted s' (d ^^ toggled) t

theorem rest_zero (h : s.count = 0) : s.rest = [] := by
  unfold Stepper.rest
  simp [h, clocksFrom]

/-- Nothing is to come where the timer is not on. -/
theorem idle_spec (hcount : s.count = 0) (hmq : s.mq = []) (d : Bool) :
    s.moveEnd = s.clock ∧ plan s d = [] ∧ endOf s.moveEnd d s.mq = (s.clock, d) := by
  have hend : s.moveEnd = s.clock := by
    unfold Stepper.moveEnd
    rw [rest_zero hcount]
    rfl
  refine ⟨hend, ?_, ?_⟩
  · unfold plan
    rw [rest_zero hcount, hmq]
    rfl
  · rw [hend, hmq]
    rfl

theorem ofNat_count (m : StepperMove) : m.count.toUInt32 = UInt32.ofInt (m.count.toNat : ℤ) := by
  apply UInt32.toNat_inj.mp
  rw [StepCompress.ofInt_natCast, UInt32.toNat_ofNat']
  have hlt : m.count.toNat < 65536 := m.count.toNat_lt
  have heq : m.count.toUInt32.toNat = m.count.toNat := rfl
  omega

theorem loadNext_spec (hcounts : ∀ m ∈ s.mq, m.count ≠ 0) :
    ∃ s' toggled ret, s.loadNext = (s', if toggled then [.toggleDir] else [], ret) ∧ Reloaded s s' toggled := by
  cases hmq : s.mq with
  | nil =>
    have hrest : ({ s with count := 0 } : Stepper).rest = [] := rest_zero rfl
    refine ⟨{ s with count := 0 }, false, .done, loadNext_nil hmq, ⟨rfl, rfl, rfl, rfl, rfl, rfl, rfl⟩, fun d => ?_,
      fun d => ?_, hcounts,
      Nat.zero_le _, fun _ => hmq, fun _ => rfl, fun _ _ hne => absurd rfl hne, fun d t h => ?_⟩
    · unfold plan
      rw [hrest, hmq]
      rfl
    · unfold Stepper.moveEnd
      rw [hrest, hmq, Bool.xor_false]
      rfl
    · unfold Counted
      rw [hrest, Bool.xor_false]
      simpa using h
  | cons m mq =>
    have hcount := hcounts m (hmq ▸ List.mem_cons_self)
    obtain ⟨s', heq, hl, hpos⟩ := loadNext_cons hmq hcount
    have hend : s'.moveEnd = (m.clocks s.clock).getLastD s.clock := by
      unfold Stepper.moveEnd
      rw [hl.rest, getLastD_of_ne_nil (clocks_ne_nil hcount)]
    refine ⟨s', m.dir, _, heq, hl.flags, fun d => ?_, fun d => ?_, fun m' hm' => ?_, hl.bound,
      fun hzero => absurd hzero hl.count, hl.even,
      fun h1 h2 _ => hl.avr h1 h2, fun d t h => ?_⟩
    · rw [hmq, movePlan, plan, hl.rest, hl.mq, hend]
    · rw [hmq, endOf, hl.mq, hend]
    · rw [hl.mq] at hm'
      exact hcounts m' (hmq ▸ List.mem_cons_of_mem _ hm')
    · unfold Counted
      rw [hpos, h, hl.rest, StepperMove.clocks, length_clocksFrom, ofNat_count, UInt32.ofInt_add, add_comm]
      congr 1
      cases m.dir <;> cases d <;> simp [UInt32.ofInt_neg]

end Loads

/-! ## Events -/

section Events

variable {s s' : Stepper} {p p' : Pins} {ops : List Gpio} {ret : Ret} {lateTicks curtime : UInt32}

/-- What a function does with the plan: the steps of `dirs` are taken. -/
structure Keeps (s s' : Stepper) (p p' : Pins) (dirs : List Bool) : Prop where
  good : Good s' p'
  flags : SameFlags s s'
  plan : plan s p.dir = (dirs.map fun d => (d, s.clock)) ++ plan s' p'.dir
  last : endOf s.moveEnd p.dir s.mq = endOf s'.moveEnd p'.dir s'.mq
  position : ∀ t, Counted s p.dir t → Counted s' p'.dir (t + travel (dirs.map fun d => (d, s.clock)))

theorem count_sub_one (h : s.count ≠ 0) : (s.count - 1).toNat = s.count.toNat - 1 ∧ 0 < s.count.toNat := by
  have hpos : 0 < s.count.toNat := Nat.pos_of_ne_zero fun hzero => h (UInt32.toNat_inj.mp hzero)
  refine ⟨?_, hpos⟩
  have hone : (1 : UInt32) ≤ s.count := UInt32.le_iff_toNat_le.mpr hpos
  rw [UInt32.toNat_sub_of_le _ _ hone]
  rfl

theorem sub_one_ne_zero (h : s.count ≠ 0) (h1 : s.count - 1 ≠ 0) : 2 ≤ s.count.toNat := by
  obtain ⟨hsub, hpos⟩ := count_sub_one h
  by_contra hlt
  refine h1 (UInt32.toNat_inj.mp ?_)
  rw [hsub, show s.count.toNat = 1 by omega]
  rfl

theorem eq_one_of_sub (h : s.count ≠ 0) (h1 : s.count - 1 = 0) : s.count.toNat = 1 := by
  obtain ⟨hsub, hpos⟩ := count_sub_one h
  rw [h1] at hsub
  have hzero : (0 : UInt32).toNat = 0 := rfl
  omega

theorem Good.single_of_edge (h : Good s p) (hfunc : s.func ≠ .full) : s.singleSched = true := h.single.mpr hfunc

theorem Good.not_single (h : Good s p) (hfunc : s.func = .full) : s.singleSched = false := by
  cases hs : s.singleSched with
  | false => rfl
  | true => exact absurd hfunc (h.single.mp hs)

/-- A step of a timer with one event for each step. -/
theorem keeps_single (hg : Good s p) (hfunc : s.func ≠ .full) (hcount : s.count ≠ 0) (h1 : s.count - 1 ≠ 0)
    (hs' : s' = { s with
      count := s.count - 1
      waketime := s.waketime + s.interval
      interval := s.interval + UInt32.ofInt s.add.toInt }) (hdir : p'.dir = p.dir) (hstep : s.func = .avr →
        p'.step = p.step) :
    Keeps s s' p p' [p.dir] := by
  subst hs'
  have hsingle := hg.single_of_edge hfunc
  obtain ⟨hsub, hpos⟩ := count_sub_one hcount
  have htwo := sub_one_ne_zero hcount h1
  have hclock : s.clock = s.waketime := if_pos hsingle
  set s' : Stepper := { s with
    count := s.count - 1
    waketime := s.waketime + s.interval
    interval := s.interval + UInt32.ofInt s.add.toInt } with hs'
  have hrest' : s'.rest = clocksFrom s.add (s.count.toNat - 1) (s.waketime + s.interval)
      (s.interval + UInt32.ofInt s.add.toInt) := by
    unfold Stepper.rest
    rw [if_pos (show s'.singleSched = true from hsingle), hs', hsub]
  have hrest : s.rest = s.waketime :: s'.rest := by
    rw [hrest']
    unfold Stepper.rest
    rw [if_pos hsingle, clocksFrom_pos hpos]
  have hne : s'.rest ≠ [] := by
    rw [hrest', clocksFrom_pos (by omega)]
    exact List.cons_ne_nil _ _
  have hend : s.moveEnd = s'.moveEnd := by
    unfold Stepper.moveEnd
    rw [hrest, List.getLastD_cons, getLastD_of_ne_nil hne]
  refine ⟨⟨hg.single, hg.counts, ?_, fun hzero => absurd hzero h1, fun hf => ⟨(hstep hf).trans (hg.avr hf).1, fun _ =>
    (hg.avr hf).2 hcount⟩, fun hf => absurd hf hfunc⟩, ⟨rfl, rfl, rfl, rfl, rfl, rfl, rfl⟩, ?_, ?_, fun t ht => ?_⟩
  · have := hg.bound
    rw [hs']
    simp only [hsub]
    omega
  · unfold plan
    rw [hrest, hdir, hclock, hend]
    rfl
  · rw [hdir, hend]
  · unfold Counted at ht ⊢
    rw [hrest] at ht
    rw [hdir, List.map_singleton, travel_singleton]
    refine ht.trans (congrArg UInt32.ofInt ?_)
    rw [List.length_cons]
    cases p.dir <;> push_cast <;> simp <;> ring

/-- The last event of a move. -/
theorem keeps_load {s0 : Stepper} {toggled : Bool} {dirs : List Bool} (hr : Reloaded s0 s' toggled)
    (hflags : SameFlags s s0)
    (hg : Good s p) (hclock : s0.clock = s.clock) (hmq : s0.mq = s.mq) (hposition : s0.position = s.position)
    (hrest : s.rest = dirs.map fun _ => s.clock) (hdirs : ∀ d ∈ dirs, d = p.dir) (hlen : dirs.length ≤ 1)
    (hdir : p'.dir = (p.dir ^^ toggled))
    (hstep : s.func ≠ .edge → p'.step = s.invertStep) : Keeps s s' p p' dirs := by
  obtain ⟨f1, f2, f3, f4, f5, f6, f7⟩ := hr.flags
  obtain ⟨g1, g2, g3, g4, g5, g6, g7⟩ := hflags
  have hfunc : s'.func = s.func := f1.trans g1
  have hsched : s'.singleSched = s.singleSched := f6.trans g6
  have hinvert : s'.invertStep = s.invertStep := f4.trans g4
  have hend : s.moveEnd = s.clock := by
    unfold Stepper.moveEnd
    rw [hrest]
    rcases dirs with _ | ⟨d, _ | _⟩
    · rfl
    · rfl
    · exact absurd hlen (by simp)
  refine ⟨⟨?_, hr.counts, hr.bound, hr.empty, fun hf => ?_, fun hf => ?_⟩,
    ⟨hfunc, f2.trans g2, f3.trans g3, hinvert, f5.trans g5, hsched, f7.trans g7⟩, ?_, ?_, fun t ht => ?_⟩
  · rw [hfunc, hsched]
    exact hg.single
  · rw [hfunc] at hf
    have hne : s.func ≠ .edge := by
      rw [hf]
      decide
    have hsingle := hg.single_of_edge (by rw [hf]; decide)
    exact ⟨(hstep hne).trans hinvert.symm, hr.avr (g6.trans hsingle) (g1.trans hf)⟩
  · rw [hfunc] at hf
    have hne : s.func ≠ .edge := by
      rw [hf]
      decide
    have heven := hr.even (g6.trans (hg.not_single hf))
    rw [hstep hne, hinvert, heven]
    cases s.invertStep <;> rfl
  · have hmap : (s.rest.map fun c => (p.dir, c)) = dirs.map fun d => (d, s.clock) := by
      rw [hrest, List.map_map]
      exact List.map_congr_left fun d hd => by rw [Function.comp_apply, hdirs d hd]
    rw [plan, hend, hmap, hdir, ← hr.plan, hclock, hmq]
  · rw [hend, hdir, ← hr.last, hclock, hmq]
  · rw [hdir]
    refine hr.position _ _ (hposition.trans (ht.trans (congrArg UInt32.ofInt ?_)))
    rw [hrest]
    rcases dirs with _ | ⟨d, _ | _⟩
    · simp [travel]
    · rw [hdirs d List.mem_cons_self]
      simp only [List.map_cons, List.map_nil, travel_singleton]
      cases p.dir
      · simp
      · simp
        ring
    · exact absurd hlen (by simp)

theorem seeAll_append (idle both : Bool) (p : Pins) (a b : List Gpio) :
    p.seeAll idle both (a ++ b) =
      (((p.seeAll idle both a).1.seeAll idle both b).1,
        (p.seeAll idle both a).2 ++ ((p.seeAll idle both a).1.seeAll idle both b).2) := by
  induction a generalizing p with
  | nil => rfl
  | cons g gs ih =>
    rw [List.cons_append, Pins.seeAll, ih]
    simp only [Pins.seeAll, List.append_assoc]

theorem seeAll_toggleDir (idle both : Bool) (p : Pins) (toggled : Bool) :
    p.seeAll idle both (if toggled then [.toggleDir] else []) = (⟨p.step, p.dir ^^ toggled⟩, []) := by
  cases toggled with
  | false => simp [Pins.seeAll]
  | true => simp [Pins.seeAll, Pins.see]

/-- **`stepper_event_edge`.** -/
theorem eventEdge_spec (hg : Good s p) (hfunc : s.func = .edge) (hcount : s.count ≠ 0) :
    ∃ p', p.seeAll s.invertStep true s.eventEdge.2.1 = (p', [p.dir]) ∧ Keeps s s.eventEdge.1 p p' [p.dir] := by
  have hne : s.func ≠ .full := by
    rw [hfunc]
    decide
  unfold Stepper.eventEdge
  by_cases h1 : s.count - 1 = 0
  · obtain ⟨s', toggled, ret, heq, hr⟩ := loadNext_spec hg.counts
    simp only [h1, ne_eq, not_true_eq_false, if_false, heq]
    have hsee : p.seeAll s.invertStep true (.toggleStep :: if toggled then [.toggleDir] else []) =
        (⟨!p.step, p.dir ^^ toggled⟩, [p.dir]) := by
      rw [Pins.seeAll, seeAll_toggleDir]
      simp [Pins.see]
    refine ⟨_, hsee, keeps_load hr (SameFlags.refl s) hg rfl rfl rfl ?_ (fun d hd => List.mem_singleton.mp hd)
      le_rfl rfl
      fun he => absurd hfunc he⟩
    have hsingle := hg.single_of_edge hne
    unfold Stepper.rest Stepper.clock
    rw [if_pos hsingle, if_pos hsingle, eq_one_of_sub hcount h1]
    rfl
  · simp only [ne_eq, h1, not_false_eq_true, if_true]
    exact ⟨⟨!p.step, p.dir⟩, by simp [Pins.seeAll, Pins.see],
      keeps_single hg hne hcount h1 rfl rfl fun hf => absurd (hfunc.symm.trans hf)
      (by decide)⟩

/-- **`stepper_event_avr`**: a pulse for every step. -/
theorem eventAvr_spec (hg : Good s p) (hfunc : s.func = .avr) (hcount : s.count ≠ 0) :
    ∃ p', p.seeAll s.invertStep false s.eventAvr.2.1 = (p', [p.dir]) ∧ Keeps s s.eventAvr.1 p p' [p.dir] := by
  have hne : s.func ≠ .full := by
    rw [hfunc]
    decide
  obtain ⟨hpin, hadd⟩ := hg.avr hfunc
  unfold Stepper.eventAvr
  by_cases h1 : s.count - 1 = 0
  · obtain ⟨s', toggled, ret, heq, hr⟩ := loadNext_spec hg.counts
    simp only [h1, ne_eq, not_true_eq_false, if_false, heq]
    have hsee : p.seeAll s.invertStep false (.toggleStep :: (if toggled then [.toggleDir] else []) ++ [.toggleStep]) =
        (⟨s.invertStep, p.dir ^^ toggled⟩, [p.dir]) := by
      rw [List.cons_append, Pins.seeAll, seeAll_append, seeAll_toggleDir]
      simp [Pins.see, Pins.seeAll, hpin]
    refine ⟨_, hsee, keeps_load hr (SameFlags.refl s) hg rfl rfl rfl ?_ (fun d hd => List.mem_singleton.mp hd)
      le_rfl rfl
      fun _ => rfl⟩
    have hsingle := hg.single_of_edge hne
    unfold Stepper.rest Stepper.clock
    rw [if_pos hsingle, if_pos hsingle, eq_one_of_sub hcount h1]
    rfl
  · simp only [ne_eq, h1, not_false_eq_true, if_true]
    refine ⟨⟨p.step, p.dir⟩, by simp [Pins.seeAll, Pins.see, hpin], keeps_single hg hne hcount h1 ?_ rfl fun _ => rfl⟩
    -- where nothing is to be added, nothing is
    cases hhave : s.haveAdd with
    | true => simp
    | false =>
      have hzero : UInt32.ofInt 0 = 0 := rfl
      simp [hadd hcount hhave, hzero]

/-- The time of the next event is of no use to a timer with two events for each step. -/
theorem Keeps.waketime {dirs : List Bool} (h : Keeps s s' p p' dirs) (hfunc : s.func = .full) (waketime : UInt32) :
    Keeps s { s' with waketime := waketime } p p' dirs := by
  obtain ⟨⟨g1, g2, g3, g4, g5, g6⟩, ⟨f1, f2, f3, f4, f5, f6, f7⟩, hplan, hlast, hposition⟩ := h
  have hsched : s'.singleSched = false := by
    cases hs : s'.singleSched with
    | false => rfl
    | true => exact absurd (f1.trans hfunc) (g1.mp hs)
  have hrest : ({ s' with waketime := waketime } : Stepper).rest = s'.rest := by
    unfold Stepper.rest
    simp only [hsched]
    rfl
  have hclock : ({ s' with waketime := waketime } : Stepper).clock = s'.clock := by
    unfold Stepper.clock
    simp only [hsched]
    rfl
  have hend : ({ s' with waketime := waketime } : Stepper).moveEnd = s'.moveEnd := by
    unfold Stepper.moveEnd
    rw [hrest, hclock]
  refine ⟨⟨g1, g2, g3, g4, g5, g6⟩, ⟨f1, f2, f3, f4, f5, f6, f7⟩, ?_, ?_, fun t ht => ?_⟩
  · rw [hplan]
    unfold McuStepper.plan
    rw [hrest, hend]
  · rw [hlast, hend]
  · have hnext := hposition t ht
    unfold Counted at hnext ⊢
    rw [hrest]
    exact hnext

theorem odd_iff (c : UInt32) : c &&& 1 ≠ 0 ↔ c.toNat % 2 = 1 := by
  have hand : (c &&& 1).toNat = c.toNat % 2 := by
    rw [UInt32.toNat_and]
    exact Nat.and_one_is_mod _
  constructor
  · intro h
    have hne : (c &&& 1).toNat ≠ 0 := fun hzero => h (UInt32.toNat_inj.mp hzero)
    omega
  · intro h hzero
    rw [hzero] at hand
    have h0 : (0 : UInt32).toNat = 0 := rfl
    omega

/-- **`stepper_event_full`**: the start of a step, or the end of one. -/
theorem eventFull_spec (hg : Good s p) (hfunc : s.func = .full) (hcount : s.count ≠ 0)
    (hev : s.eventFull lateTicks curtime = some (s', ops, ret)) :
    ∃ p' dirs, p.seeAll s.invertStep false ops = (p', dirs) ∧ Keeps s s' p p' dirs := by
  obtain ⟨hsub, hpos⟩ := count_sub_one hcount
  have hsched := hg.not_single hfunc
  have hpin := hg.full hfunc
  have hclock : s.clock = s.nextStepTime := by
    unfold Stepper.clock
    rw [hsched]
    rfl
  have hbound := hg.bound
  have hrest : ∀ s1 : Stepper, s1.singleSched = false → s1.rest =
      if s1.count.toNat % 2 = 0 then clocksFrom s1.add (s1.count.toNat / 2) s1.nextStepTime s1.interval
      else clocksFrom s1.add (s1.count.toNat / 2) (s1.nextStepTime + s1.interval) (s1.interval + UInt32.ofInt
        s1.add.toInt) := by
    intro s1 h1
    unfold Stepper.rest
    rw [h1, if_neg Bool.false_ne_true]
  unfold Stepper.eventFull at hev
  by_cases hodd : (s.count - 1) &&& 1 ≠ 0
  · -- the start of a step
    simp only [hodd, ne_eq, not_false_eq_true, if_true] at hev
    cases hev
    have hpar := (odd_iff _).mp hodd
    rw [hsub] at hpar
    have hidle : p.step = s.invertStep := by
      rw [hpin, show decide (s.count.toNat % 2 = 1) = false by simp; omega, Bool.xor_false]
    suffices hstep : Keeps s { s with count := s.count - 1 } p ⟨!p.step, p.dir⟩ [p.dir] from
      ⟨⟨!p.step, p.dir⟩, [p.dir], by simp [Pins.seeAll, Pins.see, hidle], hstep.waketime hfunc _⟩
    have hnext : ({ s with count := s.count - 1 } : Stepper).rest =
        clocksFrom s.add (s.count.toNat / 2 - 1) (s.nextStepTime + s.interval) (s.interval + UInt32.ofInt
          s.add.toInt) := by
      rw [hrest { s with count := s.count - 1 } hsched]
      simp only [hsub]
      rw [if_neg (by omega), show (s.count.toNat - 1) / 2 = s.count.toNat / 2 - 1 by omega]
    have hnow : s.rest = s.nextStepTime :: ({ s with count := s.count - 1 } : Stepper).rest := by
      rw [hnext, hrest s hsched, if_pos (by omega), clocksFrom_pos (by omega)]
    have hclock' : ({ s with count := s.count - 1 } : Stepper).clock = s.nextStepTime := by
      unfold Stepper.clock
      rw [hsched]
      rfl
    have hend : s.moveEnd = ({ s with count := s.count - 1 } : Stepper).moveEnd := by
      unfold Stepper.moveEnd
      rw [hnow, List.getLastD_cons, hclock']
    refine ⟨⟨hg.single, hg.counts, ?_, fun hzero => ?_, fun hf => absurd (hfunc.symm.trans hf) (by decide),
      fun _ => ?_⟩,
      ⟨rfl, rfl, rfl, rfl, rfl, rfl, rfl⟩, ?_, ?_, fun t ht => ?_⟩
    · simp only [hsub]
      omega
    · exact absurd ((congrArg UInt32.toNat hzero).symm.trans hsub) (by change 0 ≠ _; omega)
    · simp only [hsub]
      rw [hidle, decide_eq_true hpar, Bool.xor_true]
    · unfold plan
      rw [hnow, hclock, hend]
      rfl
    · rw [hend]
    · unfold Counted at ht ⊢
      rw [hnow] at ht
      rw [List.map_singleton, travel_singleton]
      refine ht.trans (congrArg UInt32.ofInt ?_)
      rw [List.length_cons]
      cases p.dir <;> push_cast <;> simp <;> ring
  · -- the end of one
    simp only [hodd, if_false] at hev
    have hpar : s.count.toNat % 2 = 1 := by
      have hnot := mt (odd_iff _).mpr hodd
      rw [hsub] at hnot
      omega
    have hactive : p.step = !s.invertStep := by
      rw [hpin, decide_eq_true hpar, Bool.xor_true]
    have htoggle : ∀ gs, p.seeAll s.invertStep false (.toggleStep :: gs) =
        (Pins.seeAll s.invertStep false ⟨s.invertStep, p.dir⟩ gs) := by
      intro gs
      simp [Pins.seeAll, Pins.see, hactive]
    by_cases h1 : s.count - 1 = 0
    · have hone := eq_one_of_sub hcount h1
      have hcounts : ∀ m ∈ ({ s with count := s.count - 1 } : Stepper).mq, m.count ≠ 0 := hg.counts
      obtain ⟨s1, toggled, ret1, heq, hr⟩ := loadNext_spec hcounts
      have hkeeps : Keeps s s1 p ⟨s.invertStep, p.dir ^^ toggled⟩ [] := by
        refine keeps_load hr ⟨rfl, rfl, rfl, rfl, rfl, rfl, rfl⟩ hg rfl rfl rfl ?_ (fun d hd => by cases hd)
          (Nat.zero_le _) rfl
          fun _ => rfl
        rw [hrest s hsched, hone]
        rfl
      have hops : p.seeAll s.invertStep false (.toggleStep :: if toggled then [.toggleDir] else []) =
          (⟨s.invertStep, p.dir ^^ toggled⟩, []) := by
        rw [htoggle, seeAll_toggleDir]
      simp only [ne_eq, h1, not_true_eq_false, if_false] at hev heq
      simp only [heq] at hev
      generalize (if toggled = true then [Gpio.toggleDir] else []) = gs at hev hops
      split_ifs at hev
      · cases hev
        exact ⟨_, [], hops, hkeeps⟩
      · cases hev
        exact ⟨_, [], hops, hkeeps.waketime hfunc _⟩
    · have hthree := sub_one_ne_zero hcount h1
      have hstep : Keeps s { s with
          count := s.count - 1
          nextStepTime := s.nextStepTime + s.interval
          interval := s.interval + UInt32.ofInt s.add.toInt } p ⟨s.invertStep, p.dir⟩ [] := by
        set s1 : Stepper := { s with
          count := s.count - 1
          nextStepTime := s.nextStepTime + s.interval
          interval := s.interval + UInt32.ofInt s.add.toInt } with hs1
        have hnext : s1.rest = s.rest := by
          rw [hrest s1 hsched, hrest s hsched, hs1]
          simp only [hsub]
          rw [if_pos (by omega), if_neg (by omega), show (s.count.toNat - 1) / 2 = s.count.toNat / 2 by omega]
        have hne : s.rest ≠ [] := by
          rw [hrest s hsched, if_neg (by omega), clocksFrom_pos (by omega)]
          exact List.cons_ne_nil _ _
        have hend : s.moveEnd = s1.moveEnd := by
          unfold Stepper.moveEnd
          rw [hnext, getLastD_of_ne_nil hne]
        refine ⟨⟨hg.single, hg.counts, ?_, fun hzero => absurd hzero h1,
          fun hf => absurd (hfunc.symm.trans hf) (by decide),
          fun _ => ?_⟩, ⟨rfl, rfl, rfl, rfl, rfl, rfl, rfl⟩, ?_, ?_, fun t ht => ?_⟩
        · simp only [hs1, hsub]
          omega
        · simp only [hs1, hsub]
          rw [decide_eq_false (by omega), Bool.xor_false]
        · unfold plan
          rw [hnext, hend]
          rfl
        · rw [hend]
        · unfold Counted at ht ⊢
          rw [hnext]
          simpa [travel] using ht
      simp only [ne_eq, h1, not_false_eq_true, if_true] at hev
      split_ifs at hev
      · cases hev
        exact ⟨_, [], htoggle [], hstep.waketime hfunc _⟩
      · cases hev
        exact ⟨_, [], htoggle [], hstep.waketime hfunc _⟩

/-- **An event of the timer** takes a step, or ends one. -/
theorem event_spec (hg : Good s p) (hcount : s.count ≠ 0) (hev : s.event lateTicks curtime = some (s', ops, ret)) :
    ∃ p' dirs, p.seeAll s.invertStep (s.func = .edge) ops = (p', dirs) ∧ Keeps s s' p p' dirs := by
  unfold Stepper.event at hev
  cases hfunc : s.func with
  | edge =>
    rw [hfunc] at hev
    obtain ⟨p', hsee, hkeeps⟩ := eventEdge_spec hg hfunc hcount
    rw [Option.some.inj hev] at hsee hkeeps
    exact ⟨p', _, hsee, hkeeps⟩
  | avr =>
    rw [hfunc] at hev
    obtain ⟨p', hsee, hkeeps⟩ := eventAvr_spec hg hfunc hcount
    rw [Option.some.inj hev] at hsee hkeeps
    exact ⟨p', _, hsee, hkeeps⟩
  | full =>
    rw [hfunc] at hev
    exact eventFull_spec hg hfunc hcount hev

end Events

/-! ## Commands -/

section Commands

variable {s s' : Stepper} {p p' : Pins} {ops : List Gpio} {interval : UInt32} {count : UInt16} {add : Int16}

/-- A move of `queue_step`. -/
def newMove (s : Stepper) (interval : UInt32) (count : UInt16) (add : Int16) : StepperMove :=
  ⟨interval, add, count, s.lastDir ≠ s.nextDir⟩

/-- A move is at the end of the plan. -/
structure Queued (s s' : Stepper) (p p' : Pins) (m : StepperMove) : Prop where
  good : Good s' p'
  func : s'.func = s.func
  invertStep : s'.invertStep = s.invertStep
  needReset : s'.needReset = s.needReset
  lastDir : s'.lastDir = s.nextDir
  nextDir : s'.nextDir = s.nextDir
  plan : plan s' p'.dir = plan s p.dir ++
    (m.clocks (endOf s.moveEnd p.dir s.mq).1).map fun c => ((endOf s.moveEnd p.dir s.mq).2 ^^ m.dir, c)
  last : endOf s'.moveEnd p'.dir s'.mq =
    ((m.clocks (endOf s.moveEnd p.dir s.mq).1).getLastD (endOf s.moveEnd p.dir s.mq).1,
      (endOf s.moveEnd p.dir s.mq).2 ^^ m.dir)
  position : ∀ t, Counted s p.dir t → Counted s' p'.dir t

/-- **`command_queue_step`**: the move is the last of the plan, or, where the stepper was stopped, there is none. -/
theorem queueStep_spec (hg : Good s p) (h : s.queueStep interval count add = some (s', ops)) :
    count ≠ 0 ∧ ((s.count = 0 ∧ s.needReset = true ∧ s' = s ∧ ops = []) ∨
      ((s.count ≠ 0 ∨ s.needReset = false) ∧ ∃ p', p.seeAll s.invertStep (s.func = .edge) ops = (p', []) ∧
        Queued s s' p p' (newMove s interval count add))) := by
  unfold Stepper.queueStep at h
  by_cases hzero : count = 0
  · rw [if_pos hzero] at h
    cases h
  · rw [if_neg hzero] at h
    refine ⟨hzero, ?_⟩
    by_cases hcount : s.count = 0
    · rw [if_neg (not_not.mpr hcount)] at h
      by_cases hreset : s.needReset = true
      · rw [if_pos hreset] at h
        cases h
        exact Or.inl ⟨hcount, hreset, rfl, rfl⟩
      · rw [if_neg hreset] at h
        have hmq := hg.empty hcount
        have hrest := rest_zero hcount
        obtain ⟨hend, hidle, -⟩ := idle_spec hcount hmq p.dir
        set m := newMove s interval count add with hm
        set s1 : Stepper := { s with lastDir := s.nextDir, mq := s.mq ++ [m] } with hs1
        have hmq1 : s1.mq = [m] := by
          rw [hs1, hmq]
          rfl
        have hclock : s1.clock = s.clock := rfl
        have hcounts : ∀ m' ∈ s1.mq, m'.count ≠ 0 := by
          rw [hmq1]
          rintro m' hm'
          rw [List.mem_singleton.mp hm']
          exact hzero
        obtain ⟨s2, toggled, ret, heq, hr⟩ := loadNext_spec hcounts
        obtain ⟨⟨f1, f2, f3, f4, f5, f6, -⟩, hplan, hlast, r1, r2, r3, r4, r5, hpos⟩ := hr
        have hload : s1.loadNext = (s2, if toggled then [.toggleDir] else [], ret) := heq
        change some (s1.loadNext.1, s1.loadNext.2.1) = _ at h
        rw [hload] at h
        cases h
        refine Or.inr ⟨Or.inr (Bool.not_eq_true _ ▸ hreset), ⟨p.step, p.dir ^^ toggled⟩, seeAll_toggleDir _ _ _ _,
          ⟨?_, r1, r2,
          r3, fun hf => ?_, fun hf => ?_⟩, f1, f4, f5, f2, f3, ?_, ?_, fun t ht => hpos _ t ?_⟩
        · rw [f1, f6]
          exact hg.single
        · rw [f1] at hf
          refine ⟨(hg.avr hf).1.trans f4.symm, r5 (hg.single_of_edge (hf ▸ by decide)) hf⟩
        · rw [f1] at hf
          have hstep := hg.full hf
          rw [hcount] at hstep
          rw [f4, r4 (hg.not_single hf)]
          exact hstep
        · rw [← hplan, hmq1, hclock, hidle, hend, hmq]
          simp [movePlan, endOf]
        · rw [← hlast, hmq1, hclock, hend, hmq]
          rfl
        · refine Eq.trans (show s1.position = s.position from rfl) (ht.trans (congrArg UInt32.ofInt ?_))
          rw [hrest]
          exact zero_add _
    · rw [if_pos hcount] at h
      cases h
      refine Or.inr ⟨Or.inl hcount, p, rfl, ⟨⟨hg.single, ?_, hg.bound, fun h0 => absurd h0 hcount, hg.avr, hg.full⟩,
        rfl, rfl,
        rfl, rfl, rfl, ?_, ?_, fun t ht => ht⟩⟩
      · intro m hm
        rcases List.mem_append.mp hm with hold | hnew
        · exact hg.counts m hold
        · rw [List.mem_singleton.mp hnew]
          exact hzero
      · unfold plan
        rw [List.append_assoc]
        exact congrArg _ (movePlan_append _ _ _ _)
      · exact endOf_append _ _ _ _

/-- **`command_reset_step_clock`.** -/
theorem resetStepClock_spec {waketime : UInt32} (hg : Good s p) (h : s.resetStepClock waketime = some s') :
    s.count = 0 ∧ Good s' p ∧ plan s p.dir = [] ∧ plan s' p.dir = [] ∧
      endOf s'.moveEnd p.dir s'.mq = (waketime, p.dir) ∧
      endOf s.moveEnd p.dir s.mq = (s.clock, p.dir) ∧ s'.needReset = false ∧ s'.lastDir = s.lastDir ∧
        s'.nextDir = s.nextDir ∧
      s'.func = s.func ∧ s'.invertStep = s.invertStep ∧ ∀ t, Counted s p.dir t → Counted s' p.dir t := by
  unfold Stepper.resetStepClock at h
  split_ifs at h with hcount
  cases h
  have hzero := not_not.mp hcount
  set s' : Stepper := { s with nextStepTime := waketime, waketime := waketime, needReset := false } with hs'
  have hclock : s'.clock = waketime := ite_self _
  obtain ⟨-, hplan, hlast⟩ := idle_spec hzero (hg.empty hzero) p.dir
  obtain ⟨-, hplan', hlast'⟩ := idle_spec (show s'.count = 0 from hzero) (hg.empty hzero) p.dir
  refine ⟨hzero, ⟨hg.single, hg.counts, hg.bound, hg.empty, hg.avr, hg.full⟩, hplan, hplan', hclock ▸ hlast', hlast,
    rfl, rfl,
    rfl, rfl, rfl, fun t ht => ?_⟩
  unfold Counted at ht ⊢
  rw [rest_zero (show s'.count = 0 from hzero)]
  rw [rest_zero hzero] at ht
  exact ht

theorem stepsLeft_eq (hbound : s.count.toNat ≤ 2 * 65535) : s.stepsLeft = UInt32.ofInt (s.rest.length : ℤ) := by
  have hmod : ∀ n : ℕ, n < 2 ^ 32 → (UInt32.ofInt (n : ℤ)).toNat = n := by
    intro n hn
    rw [StepCompress.ofInt_natCast, UInt32.toNat_ofNat']
    exact Nat.mod_eq_of_lt hn
  apply UInt32.toNat_inj.mp
  unfold Stepper.stepsLeft Stepper.rest
  split_ifs
  · rw [length_clocksFrom, hmod _ (by omega)]
  · rw [length_clocksFrom, hmod _ (by omega), UInt32.toNat_div]
    rfl
  · rw [length_clocksFrom, hmod _ (by omega), UInt32.toNat_div]
    rfl

theorem highest_iff (x : UInt32) : x &&& 0x80000000 ≠ 0 ↔ 2 ^ 31 ≤ x.toNat := by
  have hand : (x &&& 0x80000000).toNat = (x.toNat.testBit 31).toNat * 2 ^ 31 := by
    rw [UInt32.toNat_and]
    exact Nat.and_two_pow _ 31
  have hlt := x.toNat_lt
  rw [Nat.testBit_eq_decide_div_mod_eq] at hand
  constructor
  · intro hne
    by_contra hlow
    refine hne (UInt32.toNat_inj.mp ?_)
    rw [hand, decide_eq_false (by omega)]
    rfl
  · intro hhigh hzero
    rw [hzero, decide_eq_true (by omega)] at hand
    exact absurd hand (by decide)

/-- **`stepper_get_position`** has the steps up to now; the highest bit is the direction. -/
theorem getPosition_spec (hg : Good s p) {t : ℤ} (ht : Counted s p.dir t) (hpos : 0 < t) (hlt : t < 2 ^ 31) :
    s.getPosition = UInt32.ofInt t := by
  have hnat : (UInt32.ofInt t).toNat = t.toNat ∧ (UInt32.ofInt (-t)).toNat = 2 ^ 32 - t.toNat := by
    constructor
    · rw [show t = (t.toNat : ℤ) by omega, StepCompress.ofInt_natCast, UInt32.toNat_ofNat']
      omega
    · rw [UInt32.ofInt_neg, UInt32.toNat_neg, show t = (t.toNat : ℤ) by omega, StepCompress.ofInt_natCast,
        UInt32.toNat_ofNat',
        UInt32.size]
      omega
  have hnow : s.position - s.stepsLeft = UInt32.ofInt (if p.dir then t else -t) := by
    rw [stepsLeft_eq hg.bound, ht, UInt32.ofInt_add, add_comm, add_sub_cancel_right]
  unfold Stepper.getPosition
  simp only [hnow]
  cases p.dir with
  | true =>
    simp only [if_true]
    exact if_neg fun h => absurd ((highest_iff _).mp h) (by omega)
  | false =>
    simp only [Bool.false_eq_true, if_false]
    rw [if_pos ((highest_iff _).mpr (by omega)), UInt32.ofInt_neg, neg_neg]

/-- **`stepper_stop`**: nothing is to come. -/
theorem stop_good (hg : Good s p) :
    p.seeAll s.invertStep (s.func = .edge) s.stop.2 = (⟨if s.func = .edge then p.step else s.invertStep, false⟩, []) ∧
      Good s.stop.1 ⟨if s.func = .edge then p.step else s.invertStep, false⟩ := by
  refine ⟨?_, hg.single, fun m hm => absurd hm List.not_mem_nil, Nat.zero_le _, fun _ => rfl, fun hf => ⟨?_, fun hne =>
    absurd rfl hne⟩, fun hf => ?_⟩
  · unfold Stepper.stop
    cases hfunc : s.func <;> simp [Pins.seeAll, Pins.see]
  · have hfunc : s.func = .avr := hf
    rw [hfunc]
    rfl
  · have hfunc : s.func = .full := hf
    rw [hfunc]
    exact (Bool.xor_false _).symm

/-- The position is that of the steps up to now. -/
theorem stop_counted (hg : Good s p) {t : ℤ} (ht : Counted s p.dir t) (hpos : 0 < t) (hlt : t < 2 ^ 31) :
    Counted s.stop.1 false t := by
  have hget := getPosition_spec hg ht hpos hlt
  unfold Counted
  rw [rest_zero (show s.stop.1.count = 0 from rfl)]
  change -s.getPosition = _
  rw [hget, ← UInt32.ofInt_neg]
  simp

end Commands

end Cxsw.McuStepper
