import Cxsw.Chelper.StepRuns
import Cxsw.Mcu.Stepper

/-!
# Cxsw.Mcu.StepperRuns — a motor from its commands to its pins (`src/stepper.c`)

Commands come from the host, the timer fires when it does, and the end of a homing move stops the motor at once: in any
order.

* `Axis.next`: a command, an event of the timer, or a stop; `Axis.steps` are the steps that the driver of the motor has
  seen.
* `steps_taken`: without a stop, the steps that were seen and those of the plan are those of the commands.
* `stopped_until_reset`: a stop ends everything, and no command moves the motor until its clock is set again.
* `position_counts`: the position that is reported is the number of the steps that were seen, with their sign.
* `pins_within`: the steps of the pins are those that the host was given, at most `max_error` ticks early.
-/

namespace Cxsw.McuStepper

open StepCompress (int32 travel travel_append Motor StepCommand StepMessage Close)
open Quadratic (reach reach_succ)

/-! ## Runs -/

section Defs

/-- A stepper, its pins, and the steps that the driver has seen, each with the clock it was scheduled for. -/
structure Axis where
  s : Stepper
  pins : Pins
  steps : List (Bool × UInt32)

inductive Event
  | command (c : StepCommand)
  | timer (curtime : UInt32)
  | stop
  deriving DecidableEq

namespace Axis

/-- `command_config_stepper`, with the levels of `gpio_out_setup`. -/
def config (opt : Optimization) (invertStep : ℤ) (stepPulseTicks : UInt32) : Axis where
  s := .config opt invertStep stepPulseTicks
  pins := ⟨invertStep > 0, false⟩
  steps := []

/-- What a function does to the pins. -/
def act (ax : Axis) (r : Stepper × List Gpio) : Axis where
  s := r.1
  pins := (ax.pins.seeAll ax.s.invertStep (ax.s.func = .edge) r.2).1
  steps := ax.steps ++ (ax.pins.seeAll ax.s.invertStep (ax.s.func = .edge) r.2).2.map fun d => (d, ax.s.clock)

/-- The timer is on while there are steps to make. -/
def next (lateTicks : UInt32) (ax : Axis) : Event → Option Axis
  | .command (.queueStep move) => (ax.s.queueStep move.interval move.count move.add).map ax.act
  | .command (.setNextStepDir dir) => some { ax with s := ax.s.setNextStepDir dir }
  | .command (.resetStepClock clock) => (ax.s.resetStepClock (UInt32.ofNat clock)).map fun s => { ax with s := s }
  | .command (.other _) => some ax
  | .timer curtime =>
    if ax.s.count = 0 then none else (ax.s.event lateTicks curtime).map fun r => ax.act (r.1, r.2.1)
  | .stop => some (ax.act ax.s.stop)

end Axis

def AxisStep (lateTicks : UInt32) (ax : Axis) (e : Event) (ax' : Axis) : Prop := ax.next lateTicks e = some ax'

def commandOf : Event → Option StepCommand
  | .command c => some c
  | _ => none

/-- The directions of the pin as those of the host. -/
def inverted (invertDir : Bool) (steps : List (Bool × UInt32)) : List (Bool × UInt32) :=
  steps.map fun s => (s.1 ^^ invertDir, s.2)

/-- The timer is off, and the next move is behind the last step. -/
structure Idle (ax : Axis) : Prop where
  good : Good ax.s ax.pins
  count : ax.s.count = 0
  needReset : ax.s.needReset = false
  lastDir : ax.s.lastDir = ax.pins.dir

/-- The motor was stopped. -/
structure Stopped (ax : Axis) : Prop where
  good : Good ax.s ax.pins
  count : ax.s.count = 0
  needReset : ax.s.needReset = true
  lastDir : ax.s.lastDir = ax.pins.dir

end Defs

/-! ## The steps of a move -/

section Moves

variable {add : Int16} {m : StepperMove}

theorem clocksFrom_eq (add : Int16) (n : ℕ) (next : UInt32) (interval : ℤ) :
    clocksFrom add n next (UInt32.ofInt interval) =
      (List.range n).map fun k => next + UInt32.ofInt (reach interval add.toInt k) := by
  induction n generalizing next interval with
  | zero => rfl
  | succ n ih =>
    rw [clocksFrom, ← UInt32.ofInt_add, ih, List.range_succ_eq_map, List.map_cons, Quadratic.reach_zero, List.map_map]
    congr 1
    · exact (add_zero next).symm
    · refine List.map_congr_left fun k _ => ?_
      rw [Function.comp_apply, add_assoc, ← UInt32.ofInt_add]
      congr 2
      unfold reach
      rw [Quadratic.tri_succ]
      push_cast
      ring

/-- **A move makes the steps that the host thinks it makes.** -/
theorem clocks_eq (clock : UInt32) (m : StepperMove) :
    m.clocks clock = Motor.stepClocks clock ⟨m.interval, m.count, m.add⟩ := by
  have hinterval : m.interval = UInt32.ofInt (m.interval.toNat : ℤ) := by
    rw [StepCompress.ofInt_natCast, UInt32.ofNat_toNat]
  unfold StepperMove.clocks Motor.stepClocks
  rw [hinterval, ← UInt32.ofInt_add, clocksFrom_eq, ← hinterval]
  refine List.map_congr_left fun k _ => ?_
  rw [add_assoc, hinterval, ← UInt32.ofInt_add, ← hinterval]
  congr 2
  unfold reach
  rw [Quadratic.tri_succ]
  push_cast
  ring

theorem clocks_getLastD (clock : UInt32) (h : m.count ≠ 0) :
    (m.clocks clock).getLastD clock =
      clock + UInt32.ofInt (reach m.interval.toNat m.add.toInt m.count.toNat) := by
  have hpos := count_pos h
  rw [clocks_eq]
  unfold Motor.stepClocks
  obtain ⟨n, hn⟩ := Nat.exists_eq_succ_of_ne_zero (show m.count.toNat ≠ 0 by omega)
  rw [List.getLastD_eq_getLast?, hn]
  simp [List.range_succ]

end Moves

/-! ## One event -/

section Steps

variable {ax ax' : Axis} {lateTicks : UInt32} {e : Event} {invertDir : Bool} {motor : Motor}
  {emitted : List (Bool × UInt32)}

/-- The plan, and the motor behind it. -/
structure Follows (invertDir : Bool) (ax : Axis) (motor : Motor) (emitted : List (Bool × UInt32)) : Prop where
  good : Good ax.s ax.pins
  steps : inverted invertDir (ax.steps ++ plan ax.s ax.pins.dir) = emitted
  last : endOf ax.s.moveEnd ax.pins.dir ax.s.mq = (motor.clock, ax.s.lastDir)
  dir : motor.dir = (ax.s.nextDir ^^ invertDir)
  needReset : ax.s.needReset = false

theorem inverted_append (l l' : List (Bool × UInt32)) :
    inverted invertDir (l ++ l') = inverted invertDir l ++ inverted invertDir l' := List.map_append

/-- **A command** is at the end of the plan. -/
theorem Follows.command (h : Follows invertDir ax motor emitted) {c : StepCommand}
    (hnext : ax.next lateTicks (.command c) = some ax') :
    Follows invertDir ax' (motor.step invertDir c).1 (emitted ++ (motor.step invertDir c).2) := by
  obtain ⟨hgood, hsteps, hlast, hdir, hreset⟩ := h
  cases c with
  | queueStep move =>
    obtain ⟨⟨s', ops⟩, hqueue, rfl⟩ := Option.map_eq_some_iff.mp hnext
    obtain ⟨hcount, ⟨-, hneed, -⟩ | ⟨-, p', hsee, hq⟩⟩ := queueStep_spec hgood hqueue
    · exact absurd (hreset.symm.trans hneed) (by decide)
    · have hact : ax.act (s', ops) = ⟨s', p', ax.steps⟩ := by
        unfold Axis.act
        rw [hsee]
        simp
      rw [hact]
      set m := newMove ax.s move.interval move.count move.add with hm
      have hmotor : (ax.s.lastDir ^^ m.dir ^^ invertDir) = motor.dir := by
        rw [hdir, hm, newMove]
        cases ax.s.lastDir <;> cases ax.s.nextDir <;> rfl
      have hplan := hq.plan
      have hend := hq.last
      rw [hlast] at hplan hend
      refine ⟨hq.good, ?_, ?_, ?_, hq.needReset.trans hreset⟩
      · rw [hplan, ← List.append_assoc, inverted_append, hsteps, clocks_eq]
        congr 1
        unfold inverted
        rw [List.map_map, Motor.step]
        refine List.map_congr_left fun k _ => ?_
        rw [Function.comp_apply, hmotor]
      · rw [hend, clocks_getLastD _ hcount, hq.lastDir, Motor.step, hm, newMove]
        cases ax.s.lastDir <;> cases ax.s.nextDir <;> rfl
      · rw [hq.nextDir]
        exact hdir
  | setNextStepDir dir =>
    cases hnext
    refine ⟨⟨hgood.single, hgood.counts, hgood.bound, hgood.empty, hgood.avr, hgood.full⟩, ?_, hlast, rfl, hreset⟩
    rw [Motor.step, List.append_nil]
    exact hsteps
  | resetStepClock clock =>
    obtain ⟨s', hs', rfl⟩ := Option.map_eq_some_iff.mp hnext
    obtain ⟨-, hgood', hplan, hplan', hend, hend', hneed, hl, hn, -⟩ := resetStepClock_spec hgood hs'
    refine ⟨hgood', ?_, ?_, by rw [hn]; exact hdir, hneed⟩
    · rw [Motor.step, List.append_nil, hplan', ← hplan]
      exact hsteps
    · rw [hend, hl, Motor.step]
      exact congrArg _ ((congrArg Prod.snd hend').symm.trans (congrArg Prod.snd hlast))
  | other data =>
    cases hnext
    refine ⟨hgood, ?_, hlast, hdir, hreset⟩
    rw [Motor.step, List.append_nil]
    exact hsteps

/-- **An event of the timer** takes the first step of the plan, or none. -/
theorem Follows.timer (h : Follows invertDir ax motor emitted) {curtime : UInt32}
    (hnext : ax.next lateTicks (.timer curtime) = some ax') : Follows invertDir ax' motor emitted := by
  obtain ⟨hgood, hsteps, hlast, hdir, hreset⟩ := h
  unfold Axis.next at hnext
  split_ifs at hnext with hcount
  obtain ⟨⟨s', ops, ret⟩, hev, rfl⟩ := Option.map_eq_some_iff.mp hnext
  obtain ⟨p', dirs, hsee, hk⟩ := event_spec hgood hcount hev
  have hact : ax.act (s', ops) = ⟨s', p', ax.steps ++ dirs.map fun d => (d, ax.s.clock)⟩ := by
    unfold Axis.act
    rw [hsee]
  rw [hact]
  refine ⟨hk.good, ?_, ?_, ?_, hk.flags.needReset.trans hreset⟩
  · rw [List.append_assoc, ← hk.plan]
    exact hsteps
  · rw [← hk.last, hlast, hk.flags.lastDir]
  · rw [hk.flags.nextDir]
    exact hdir

theorem Idle.follows (h : Idle ax) (invertDir : Bool) :
    Follows invertDir ax ⟨ax.s.clock, ax.s.nextDir ^^ invertDir⟩ (inverted invertDir ax.steps) := by
  obtain ⟨-, hplan, hlast⟩ := idle_spec h.count (h.good.empty h.count) ax.pins.dir
  refine ⟨h.good, ?_, ?_, rfl, h.needReset⟩
  · rw [hplan, List.append_nil]
  · rw [hlast, h.lastDir]

/-- What every event keeps; `taken` are the steps it takes. -/
theorem next_spec (hg : Good ax.s ax.pins) (hnext : ax.next lateTicks e = some ax') :
    Good ax'.s ax'.pins ∧ ∃ taken, ax'.steps = ax.steps ++ taken ∧
      ∀ t, 0 < t → t < 2 ^ 31 → Counted ax.s ax.pins.dir t → Counted ax'.s ax'.pins.dir (t + travel taken) := by
  have hnone : ∀ t : ℤ, t + travel ([] : List (Bool × UInt32)) = t := add_zero
  cases e with
  | command c =>
    cases c with
    | queueStep move =>
      obtain ⟨⟨s', ops⟩, hqueue, rfl⟩ := Option.map_eq_some_iff.mp hnext
      obtain ⟨-, ⟨-, -, rfl, rfl⟩ | ⟨-, p', hsee, hq⟩⟩ := queueStep_spec hg hqueue
      · exact ⟨hg, [], rfl, fun t _ _ ht => (hnone t).symm ▸ ht⟩
      · have hact : ax.act (s', ops) = ⟨s', p', ax.steps⟩ := by
          unfold Axis.act
          rw [hsee]
          simp
        rw [hact]
        exact ⟨hq.good, [], (List.append_nil _).symm, fun t _ _ ht => (hnone t).symm ▸ hq.position t ht⟩
    | setNextStepDir dir =>
      cases hnext
      exact ⟨⟨hg.single, hg.counts, hg.bound, hg.empty, hg.avr, hg.full⟩, [], (List.append_nil _).symm,
        fun t _ _ ht => (hnone t).symm ▸ ht⟩
    | resetStepClock clock =>
      obtain ⟨s', hs', rfl⟩ := Option.map_eq_some_iff.mp hnext
      obtain ⟨-, hgood', -, -, -, -, -, -, -, -, -, hcounted⟩ := resetStepClock_spec hg hs'
      exact ⟨hgood', [], (List.append_nil _).symm, fun t _ _ ht => (hnone t).symm ▸ hcounted t ht⟩
    | other data =>
      cases hnext
      exact ⟨hg, [], (List.append_nil _).symm, fun t _ _ ht => (hnone t).symm ▸ ht⟩
  | timer curtime =>
    unfold Axis.next at hnext
    split_ifs at hnext with hcount
    obtain ⟨⟨s', ops, ret⟩, hev, rfl⟩ := Option.map_eq_some_iff.mp hnext
    obtain ⟨p', dirs, hsee, hk⟩ := event_spec hg hcount hev
    have hact : ax.act (s', ops) = ⟨s', p', ax.steps ++ dirs.map fun d => (d, ax.s.clock)⟩ := by
      unfold Axis.act
      rw [hsee]
    rw [hact]
    exact ⟨hk.good, _, rfl, fun t _ _ ht => hk.position t ht⟩
  | stop =>
    cases hnext
    obtain ⟨hsee, hgood⟩ := stop_good hg
    have hact : ax.act ax.s.stop =
        ⟨ax.s.stop.1, ⟨if ax.s.func = .edge then ax.pins.step else ax.s.invertStep, false⟩, ax.steps⟩ := by
      unfold Axis.act
      rw [hsee]
      simp
    rw [hact]
    exact ⟨hgood, [], (List.append_nil _).symm, fun t h1 h2 ht => (hnone t).symm ▸ stop_counted hg ht h1 h2⟩

theorem stop_stopped (hg : Good ax.s ax.pins) : Stopped (ax.act ax.s.stop) ∧ (ax.act ax.s.stop).steps = ax.steps := by
  obtain ⟨hsee, hgood⟩ := stop_good hg
  unfold Axis.act
  rw [hsee]
  exact ⟨⟨hgood, rfl, rfl, rfl⟩, List.append_nil _⟩

/-- **A motor that was stopped** makes no step, and its queue stays empty. -/
theorem Stopped.next (h : Stopped ax) (hnext : ax.next lateTicks e = some ax')
    (hreset : ∀ clock, e ≠ .command (.resetStepClock clock)) : Stopped ax' ∧ ax'.steps = ax.steps := by
  cases e with
  | command c =>
    cases c with
    | queueStep move =>
      obtain ⟨⟨s', ops⟩, hqueue, rfl⟩ := Option.map_eq_some_iff.mp hnext
      obtain ⟨-, ⟨-, -, rfl, rfl⟩ | ⟨hcond, -⟩⟩ := queueStep_spec h.good hqueue
      · exact ⟨⟨h.good, h.count, h.needReset, h.lastDir⟩, List.append_nil _⟩
      · rcases hcond with hcount | hneed
        · exact absurd h.count hcount
        · exact absurd (h.needReset.symm.trans hneed) (by decide)
    | setNextStepDir dir =>
      cases hnext
      exact ⟨⟨⟨h.good.single, h.good.counts, h.good.bound, h.good.empty, h.good.avr, h.good.full⟩, h.count, h.needReset,
        h.lastDir⟩, rfl⟩
    | resetStepClock clock => exact absurd rfl (hreset clock)
    | other data =>
      cases hnext
      exact ⟨h, rfl⟩
  | timer curtime =>
    rw [Axis.next, if_pos h.count] at hnext
    cases hnext
  | stop =>
    cases hnext
    exact stop_stopped h.good

/-- The clock is set again. -/
theorem Stopped.reset (lateTicks : UInt32) (h : Stopped ax) (clock : ℕ) :
    ∃ ax', ax.next lateTicks (.command (.resetStepClock clock)) = some ax' ∧ Idle ax' ∧ ax'.steps = ax.steps ∧
      ax'.s.clock = UInt32.ofNat clock := by
  have hs' : ax.s.resetStepClock (UInt32.ofNat clock) = some { ax.s with
      nextStepTime := UInt32.ofNat clock, waketime := UInt32.ofNat clock, needReset := false } := by
    unfold Stepper.resetStepClock
    exact if_neg (not_not.mpr h.count)
  obtain ⟨-, hgood', -⟩ := resetStepClock_spec h.good hs'
  exact ⟨_, congrArg (Option.map _) hs', ⟨hgood', h.count, rfl, h.lastDir⟩, rfl, ite_self _⟩

end Steps

/-! ## Runs -/

section Runs

variable {ax ax' : Axis} {lateTicks : UInt32} {es : List Event} {invertDir : Bool} {msgs : List StepMessage}

theorem follows_of_run (hidle : Idle ax) (hrun : Run (AxisStep lateTicks) ax es ax') (hstop : Event.stop ∉ es)
    (hmsgs : msgs.map StepMessage.command = es.filterMap commandOf) :
    Follows invertDir ax' (Motor.run invertDir ⟨ax.s.clock, ax.s.nextDir ^^ invertDir⟩ msgs).1
      (inverted invertDir ax.steps ++ (Motor.run invertDir ⟨ax.s.clock, ax.s.nextDir ^^ invertDir⟩ msgs).2) := by
  induction hrun generalizing msgs with
  | nil =>
    have hnil : msgs = [] := List.map_eq_nil_iff.mp hmsgs
    rw [hnil, Motor.run, List.append_nil]
    exact hidle.follows invertDir
  | @snoc t u ls l hr hl ih =>
    rw [List.filterMap_append] at hmsgs
    have hls : Event.stop ∉ ls := fun h => hstop (List.mem_append_left _ h)
    cases l with
    | command c =>
      obtain ⟨msgs1, msgs2, rfl, h1, h2⟩ := List.map_eq_append_iff.mp hmsgs
      obtain ⟨msg, rfl, hmsg⟩ := List.map_eq_singleton_iff.mp h2
      have hnext := (ih hls h1).command hl
      rw [Motor.run_append, Motor.run_singleton, hmsg, ← List.append_assoc]
      exact hnext
    | timer curtime =>
      refine (ih hls ?_).timer hl
      rw [hmsgs]
      exact List.append_nil _
    | stop => exact absurd (List.mem_append_right _ (List.mem_singleton_self _)) hstop

/-- **`steps_taken`**: in every order of commands and events of the timer, the steps that the driver saw and those that
are still to come are the steps of the commands, each in its direction and for its clock. -/
theorem steps_taken (hidle : Idle ax) (hrun : Run (AxisStep lateTicks) ax es ax') (hstop : Event.stop ∉ es)
    (hmsgs : msgs.map StepMessage.command = es.filterMap commandOf) :
    inverted invertDir (ax'.steps ++ plan ax'.s ax'.pins.dir) =
      inverted invertDir ax.steps ++ (Motor.run invertDir ⟨ax.s.clock, ax.s.nextDir ^^ invertDir⟩ msgs).2 :=
  (follows_of_run hidle hrun hstop hmsgs).steps

/-- A motor with a step on every edge, and its first steps. -/
def edgeAxis : Axis := .config .edge (-1) 0

def threeEdges : List Event :=
  [.command (.setNextStepDir true), .command (.queueStep ⟨984, 2, 132⟩), .timer 984, .command (.queueStep ⟨900, 1, 0⟩),
    .timer 2100]

theorem threeEdges_run : ∃ ax, Run (AxisStep 0) edgeAxis threeEdges ax ∧ ax.steps = [(true, 984), (true, 2100)] := by
  have hsome : (threeEdges.foldlM (Axis.next 0) edgeAxis).map Axis.steps = some [(true, 984), (true, 2100)] := by
    decide +kernel
  obtain ⟨ax, hrun, hsteps⟩ := Option.map_eq_some_iff.mp hsome
  exact ⟨ax, Run.of_foldlM hrun, hsteps⟩

theorem config_idle (opt : Optimization) (invertStep : ℤ) (stepPulseTicks : UInt32) :
    Idle (Axis.config opt invertStep stepPulseTicks) := by
  have hgood : ∀ func, Good { func := func, waketime := 0, interval := 0, add := 0, count := 0, nextStepTime := 0
                              stepPulseTicks := stepPulseTicks, position := -positionBias, mq := [], lastDir := false
                              nextDir := false, invertStep := invertStep > 0, needReset := false
                              singleSched := func ≠ .full, haveAdd := false } ⟨invertStep > 0, false⟩ := fun func =>
    ⟨by simp, fun _ hm => absurd hm List.not_mem_nil, Nat.zero_le _, fun _ => rfl,
      fun _ => ⟨rfl, fun hne => absurd rfl hne⟩,
      fun _ => (Bool.xor_false _).symm⟩
  unfold Axis.config Stepper.config
  cases opt with
  | none => exact ⟨hgood .full, rfl, rfl, rfl⟩
  | edge =>
    dsimp only
    split_ifs
    · exact ⟨hgood .edge, rfl, rfl, rfl⟩
    · exact ⟨hgood .full, rfl, rfl, rfl⟩
  | avr =>
    dsimp only
    split_ifs
    · exact ⟨hgood .avr, rfl, rfl, rfl⟩
    · exact ⟨hgood .full, rfl, rfl, rfl⟩

theorem steps_taken_concreteCase : ∃ ax, Run (AxisStep 0) edgeAxis threeEdges ax ∧
    inverted false (ax.steps ++ plan ax.s ax.pins.dir) = inverted false edgeAxis.steps ++
      (Motor.run false ⟨edgeAxis.s.clock, edgeAxis.s.nextDir ^^ false⟩
        [⟨.setNextStepDir true, 0, 0⟩, ⟨.queueStep ⟨984, 2, 132⟩, 0, 0⟩, ⟨.queueStep ⟨900, 1, 0⟩, 0, 0⟩]).2 := by
  obtain ⟨ax, hrun, -⟩ := threeEdges_run
  exact ⟨ax, hrun, steps_taken (config_idle _ _ _) hrun (by decide) rfl⟩

theorem config_fields (opt : Optimization) (invertStep : ℤ) (stepPulseTicks : UInt32) :
    (Axis.config opt invertStep stepPulseTicks).s.clock = 0 ∧
      (Axis.config opt invertStep stepPulseTicks).s.nextDir = false ∧
      (Axis.config opt invertStep stepPulseTicks).s.position = -positionBias := by
  unfold Axis.config Stepper.config
  cases opt with
  | none => exact ⟨rfl, rfl, rfl⟩
  | edge =>
    dsimp only
    split_ifs
    · exact ⟨rfl, rfl, rfl⟩
    · exact ⟨rfl, rfl, rfl⟩
  | avr =>
    dsimp only
    split_ifs
    · exact ⟨rfl, rfl, rfl⟩
    · exact ⟨rfl, rfl, rfl⟩

theorem good_of_run (hg : Good ax.s ax.pins) (hrun : Run (AxisStep lateTicks) ax es ax') : Good ax'.s ax'.pins :=
  hrun.invariant hg fun _ _ _ hg hl => (next_spec hg hl).1

theorem stopped_of_run (h : Stopped ax) (hrun : Run (AxisStep lateTicks) ax es ax')
    (hreset : ∀ clock, Event.command (.resetStepClock clock) ∉ es) : Stopped ax' ∧ ax'.steps = ax.steps := by
  induction hrun with
  | nil => exact ⟨h, rfl⟩
  | @snoc t u ls l hr hl ih =>
    obtain ⟨h1, h2⟩ := ih fun clock hmem => hreset clock (List.mem_append_left _ hmem)
    obtain ⟨h3, h4⟩ := h1.next hl fun clock heq =>
      hreset clock (List.mem_append_right _ (List.mem_singleton.mpr heq.symm))
    exact ⟨h3, h4.trans h2⟩

/-- **`stopped_until_reset`**: a motor that is stopped, at whatever time, makes no step until its clock is set again;
it is ready for new moves then. -/
theorem stopped_until_reset {opt : Optimization} {invertStep : ℤ} {stepPulseTicks : UInt32} {es' : List Event}
    {ax'' : Axis}
    (hrun : Run (AxisStep lateTicks) (Axis.config opt invertStep stepPulseTicks) es ax)
    (hstop : ax.next lateTicks .stop = some ax') (hrun' : Run (AxisStep lateTicks) ax' es' ax'')
    (hreset : ∀ clock, Event.command (.resetStepClock clock) ∉ es') :
    ax''.steps = ax.steps ∧ ∀ clock, ∃ ax₁, ax''.next lateTicks (.command (.resetStepClock clock)) = some ax₁ ∧
      Idle ax₁ ∧
      ax₁.steps = ax.steps ∧ ax₁.s.clock = UInt32.ofNat clock := by
  have hgood := good_of_run (config_idle _ _ _).good hrun
  cases hstop
  obtain ⟨hstopped, hsteps⟩ := stop_stopped hgood
  obtain ⟨hlast, heq⟩ := stopped_of_run hstopped hrun' hreset
  refine ⟨heq.trans hsteps, fun clock => ?_⟩
  obtain ⟨ax₁, hnext, hidle, hsame, hclock⟩ := hlast.reset lateTicks clock
  exact ⟨ax₁, hnext, hidle, hsame.trans (heq.trans hsteps), hclock⟩

theorem stopped_until_reset_concreteCase : ∃ ax ax' ax'', Run (AxisStep 0) edgeAxis threeEdges ax ∧
    ax.next 0 .stop = some ax' ∧ Run (AxisStep 0) ax' [.command (.queueStep ⟨900, 1, 0⟩)] ax'' ∧ ax''.steps = ax.steps ∧
      ∀ clock, ∃ ax₁, ax''.next 0 (.command (.resetStepClock clock)) = some ax₁ ∧ Idle ax₁ ∧ ax₁.steps = ax.steps ∧
        ax₁.s.clock = UInt32.ofNat clock := by
  obtain ⟨ax, hrun, -⟩ := threeEdges_run
  have hstopped := (stop_stopped (good_of_run (config_idle _ _ _).good hrun)).1
  have hqueue : (ax.act ax.s.stop).next 0 (.command (.queueStep ⟨900, 1, 0⟩)) =
      some ((ax.act ax.s.stop).act ((ax.act ax.s.stop).s, [])) := by
    have heq : (ax.act ax.s.stop).s.queueStep 900 1 0 = some ((ax.act ax.s.stop).s, []) := by
      unfold Stepper.queueStep
      rw [if_neg (by decide)]
      simp only [hstopped.count, hstopped.needReset, ne_eq, not_true_eq_false, if_false, if_true]
    exact congrArg (Option.map _) heq
  have hrun' := (Run.nil (R := AxisStep 0) (ax.act ax.s.stop)).snoc hqueue
  exact ⟨ax, _, _, hrun, rfl, hrun', stopped_until_reset hrun rfl hrun' (by simp)⟩

/-- The position has the steps that the driver saw. -/
theorem counted_of_run (hg : Good ax.s ax.pins) (hcounted : Counted ax.s ax.pins.dir (2 ^ 30)) (hsteps : ax.steps = [])
    (hrun : Run (AxisStep lateTicks) ax es ax')
    (hbound : ∀ l, l <+: ax'.steps → -2 ^ 30 < travel l ∧ travel l < 2 ^ 30) :
    Counted ax'.s ax'.pins.dir (2 ^ 30 + travel ax'.steps) := by
  induction hrun with
  | nil =>
    rw [hsteps]
    exact hcounted
  | @snoc t u ls l hr hl ih =>
    obtain ⟨-, taken, hu, hnext⟩ := next_spec (good_of_run hg hr) hl
    have ht := ih fun l' hl' => hbound l' (hl'.trans ⟨taken, hu.symm⟩)
    obtain ⟨h1, h2⟩ := hbound t.steps ⟨taken, hu.symm⟩
    rw [hu, travel_append, ← add_assoc]
    exact hnext _ (by omega) (by omega) ht

/-- **`position_counts`**: in every order of commands, events of the timer and stops, the position that is reported is
the number of the steps that the driver saw, those backwards taken away, as long as it is less than `2^30`. -/
theorem position_counts {opt : Optimization} {invertStep : ℤ} {stepPulseTicks : UInt32}
    (hrun : Run (AxisStep lateTicks) (Axis.config opt invertStep stepPulseTicks) es ax)
    (hbound : ∀ l, l <+: ax.steps → -2 ^ 30 < travel l ∧ travel l < 2 ^ 30) :
    int32 (ax.s.getPosition - positionBias) = travel ax.steps := by
  have hidle := config_idle opt invertStep stepPulseTicks
  have hstart : Counted (Axis.config opt invertStep stepPulseTicks).s
    (Axis.config opt invertStep stepPulseTicks).pins.dir
      (2 ^ 30) := by
    have hdir : (Axis.config opt invertStep stepPulseTicks).pins.dir = false := rfl
    have hbias : -positionBias = UInt32.ofInt (-1073741824) := by decide
    unfold Counted
    rw [rest_zero hidle.count, (config_fields opt invertStep stepPulseTicks).2.2, hdir, hbias]
    norm_num
  have hgood := good_of_run hidle.good hrun
  have hcounted := counted_of_run hidle.good hstart rfl hrun hbound
  obtain ⟨h1, h2⟩ := hbound _ List.prefix_rfl
  have hbias : positionBias = UInt32.ofInt (2 ^ 30) := by
    norm_num
    decide
  rw [getPosition_spec hgood hcounted (by omega) (by omega), hbias, UInt32.ofInt_add, add_comm, add_sub_cancel_right]
  exact StepCompress.int32_ofInt (by omega) (by omega)

theorem travel_bounds {α : Type*} (l : List (Bool × α)) : -(l.length : ℤ) ≤ travel l ∧ travel l ≤ l.length := by
  induction l with
  | nil => exact ⟨le_rfl, le_rfl⟩
  | cons s l ih =>
    have hcons : travel (s :: l) = (if s.1 then (1 : ℤ) else -1) + travel l := rfl
    rw [hcons, List.length_cons]
    obtain ⟨h1, h2⟩ := ih
    split_ifs <;> omega

theorem position_counts_concreteCase : ∃ ax, Run (AxisStep 0) edgeAxis threeEdges ax ∧
    int32 (ax.s.getPosition - positionBias) = travel ax.steps := by
  obtain ⟨ax, hrun, hsteps⟩ := threeEdges_run
  refine ⟨ax, hrun, position_counts hrun fun l hl => ?_⟩
  have hlen : l.length ≤ 2 := by
    have := hl.length_le
    rw [hsteps] at this
    exact this
  have := travel_bounds l
  omega

/-- **`pins_within`**: from the steps that the host was given to the pins of the motor.  However the host and the
motor's timer take turns, what the driver has seen are the first of these steps, in their direction and at most
`max_error` ticks early. -/
theorem pins_within {opt : Optimization} {invertStep : ℤ} {stepPulseTicks maxError : UInt32} {filterTicks : ℤ}
    {expire : ℕ → Option ℕ} {calls : List StepCompress.Event} {w : StepCompress.World} {ok : Bool}
    (htimed : StepCompress.Timed 0 calls)
    (hhost : (StepCompress.World.init maxError invertDir filterTicks expire).run calls = some (ok, w))
    (hrun : Run (AxisStep lateTicks) (Axis.config opt invertStep stepPulseTicks) es ax) (hstop : Event.stop ∉ es)
    (hsent : es.filterMap commandOf <+: w.messages.map StepMessage.command) :
    ∃ done rest, w.given = done ++ rest ∧ List.Forall₂ (Close maxError) done (inverted invertDir ax.steps) := by
  obtain ⟨hclock, hdir, -⟩ := config_fields opt invertStep stepPulseTicks
  obtain ⟨-, m, clocks, latest, -, -, -, ⟨done, emitted, hgiven, hmotor, hclose⟩, -⟩ :=
    (StepCompress.Tracks.init (false ^^ invertDir) filterTicks expire).run htimed hhost
  obtain ⟨cs, hcs⟩ := hsent
  obtain ⟨msgs, msgs', hsplit, hmsgs, -⟩ := List.map_eq_append_iff.mp hcs.symm
  have htaken : inverted invertDir (ax.steps ++ plan ax.s ax.pins.dir) = _ :=
    (follows_of_run (config_idle opt invertStep stepPulseTicks) hrun hstop hmsgs).steps
  have hnil : (Axis.config opt invertStep stepPulseTicks).steps = [] := rfl
  rw [hclock, hdir, hnil, inverted_append] at htaken
  have hemitted : emitted = inverted invertDir ax.steps ++ (inverted invertDir (plan ax.s ax.pins.dir) ++
      ((Motor.run invertDir ⟨0, false ^^ invertDir⟩ msgs).1.run invertDir msgs').2) := by
    rw [← List.append_assoc, htaken]
    rw [hsplit, Motor.run_append] at hmotor
    exact (congrArg Prod.snd hmotor).symm
  rw [hemitted] at hclose
  refine ⟨_, done.drop (inverted invertDir ax.steps).length ++ StepCompress.waiting w.sc m clocks, ?_,
    List.forall₂_take_append _ _ _ hclose⟩
  rw [hgiven, ← List.append_assoc, List.take_append_drop]

theorem pins_within_concreteCase : ∃ w ax,
    (StepCompress.World.init 25 false 100 fun _ => none).run (StepCompress.threeSteps ++ [.flush 5000]) = some
    (true, w) ∧
      Run (AxisStep 0) edgeAxis threeEdges ax ∧
      ∃ done rest, w.given = done ++ rest ∧ List.Forall₂ (Close 25) done (inverted false ax.steps) := by
  have hcommands : ((StepCompress.World.init 25 false 100 fun _ => none).run
    (StepCompress.threeSteps ++ [.flush 5000])).map
      (fun r => r.2.messages.map StepMessage.command) = some (threeEdges.filterMap commandOf) := by decide +kernel
  obtain ⟨w, hhost⟩ := StepCompress.threeSteps_runs
  obtain ⟨ax, hrun, -⟩ := threeEdges_run
  rw [hhost] at hcommands
  refine ⟨w, ax, hhost, hrun, pins_within (by simp [StepCompress.threeSteps, StepCompress.Timed]) hhost hrun
    (by decide) ?_⟩
  rw [← Option.some.inj hcommands]

end Runs

end Cxsw.McuStepper
