import Mathlib.Algebra.Order.Ring.Int
import Cxsw.Lib.Run
import Cxsw.Lib.Word
import Cxsw.CrMotion.PlanLine

/-!
# Cxsw.CrMotion.Bresenham — the step generator (`CrMotion/Bresenham.cpp`)

`Calc` turns plan lines into step records.  It is called again and again with a budget of records; the phase, the
step counts and the line accumulators of the line in progress live in static variables, so a call resumes where the
last one stopped.

* `turn`: the switch over the four phases, for one record.
* `emit`: the record and the accumulators.
* `calcCall`: one call, as a trace of the lines it fetched and of its passes.
* `calcLoop_rule`: what every pass, every fetch and every completion keeps, every call keeps.

The FIFO write is retried until it succeeds, so a record of the trace is a record in the FIFO.  A pending line is
taken from a list; a `GetNextPlanLine` that finds the head of the ring being recomputed ends the call without a
change, like a call with budget `0`.
-/

namespace Cxsw.Motion

/-! ## State -/

section Defs

/-- `MIN_STEP_RATE`. -/
def minStepRate : ℕ := 32

/-- `STEPPER_TIMER_RATE`. -/
def stepperTimerRate : ℕ := 1000000

/-- `MotionPeriod_t`. -/
structure MotionPeriod where
  motionFlag : ℕ
  stepPeriod : ℕ
  deriving DecidableEq

/-- `Substance` and the static variables of `Calc`. -/
structure CalcState where
  status : CrMotionStatus
  motionDir : ℕ
  accCompletedTime : ℕ
  decCompletedTime : ℕ
  axisStepsCnt : Axis → ℕ
  longestAxis : Axis
  stepsCount : ℕ
  newDivident : Axis → ℤ
  newDevision : ℤ
  newDeltaErr : Axis → ℤ
  line : PlanLine

/-- Their initial values. -/
def initCalc : CalcState where
  status := .stop
  motionDir := 0
  accCompletedTime := 0
  decCompletedTime := 0
  axisStepsCnt _ := 0
  longestAxis := .X
  stepsCount := 0
  newDivident _ := 0
  newDevision := 0
  newDeltaErr _ := 0
  line := PlanLine.zero

/-! ## One pass -/

/-- `MultiU32X24toH32`.  The 64-bit product may wrap, but only bits the caller's `U32` drops change by it. -/
def multiU32X24toH32 (n1 n2 : ℕ) : ℕ := (n1 * n2 + 0x00800000) / 2 ^ 24

/-- `CalculateInterval`; its second output, the steps per interrupt, is always `1`. -/
def calculateInterval (stepRate : ℕ) : ℕ := stepperTimerRate / stepRate

/-- `StepRate` in the `ACCELERATE` branch. -/
def accelerateRate (c : CalcState) : ℕ :=
  let stepRate := u32 (multiU32X24toH32 c.accCompletedTime c.line.planCalc.accelStepPerSecTick +
    c.line.planCalc.entryRate)
  let stepRate := if c.line.planCalc.nominalRate < stepRate then c.line.planCalc.nominalRate else stepRate
  max stepRate minStepRate

/-- `StepRate` in the `UNIFORM` branch. -/
def uniformRate (c : CalcState) : ℕ := max c.line.planCalc.nominalRate minStepRate

/-- `StepRate` in the `DECELERATE` branch: `v = a t`, taken off the nominal rate when it is below it. -/
def decelerateRate (c : CalcState) : ℕ :=
  let stepRate := u32 (multiU32X24toH32 c.decCompletedTime c.line.planCalc.accelStepPerSecTick)
  let stepRate :=
    if stepRate < c.line.planCalc.nominalRate then
      let stepRate := c.line.planCalc.nominalRate - stepRate
      if stepRate < c.line.planCalc.exitRate then c.line.planCalc.exitRate else stepRate
    else stepRate
  max stepRate minStepRate

/-- `StepRate` in the branch that the phase selects. -/
def stepRate (c : CalcState) : ℕ :=
  match c.status with
  | .accelerate => accelerateRate c
  | .uniform => uniformRate c
  | .decelerate => decelerateRate c
  | .stop => 0

/-- `StepsCount` after a pass with one step per interrupt. -/
def nextStepsCount (c : CalcState) : ℕ :=
  let tempSub := u32Sub c.line.planCalc.stepEventCnt c.stepsCount
  if 1 < tempSub then u32 (c.stepsCount + 1) else u32 (c.stepsCount + tempSub)

/-- The longest axis of the line in progress. -/
def longest (c : CalcState) : PlanLineAxis := c.line.axis c.longestAxis

/-- The pass finds all steps done: the `DECELERATE` branch only changes the phase and leaves the switch. -/
def Overrun (c : CalcState) : Prop := c.status = .decelerate ∧ (longest c).steps ≤ c.stepsCount

instance (c : CalcState) : Decidable (Overrun c) := inferInstanceAs (Decidable (_ ∧ _))

/-- The switch of `Calc`, for a line in progress: the state and `StepInterval` after it.  `STOP` does not get
here. -/
def turn (c : CalcState) (stepInterval : ℕ) : CalcState × ℕ :=
  match c.status with
  | .accelerate =>
    let stepInterval := calculateInterval (accelerateRate c)
    let stepsCount := nextStepsCount c
    let status :=
      if (longest c).steps ≤ stepsCount then .stop
      else if (longest c).decelStartStep ≠ 0 ∧ (longest c).decelStartStep ≤ stepsCount then .decelerate
      else if (longest c).uniformStartStep ≠ 0 ∧ (longest c).uniformStartStep ≤ stepsCount then .uniform
      else .accelerate
    ({ c with
        status := status
        accCompletedTime := u32 (c.accCompletedTime + stepInterval)
        stepsCount := stepsCount }, stepInterval)
  | .uniform =>
    let stepInterval := calculateInterval (uniformRate c)
    let stepsCount := nextStepsCount c
    -- the second test is not an `else`: it overrides `STOP`
    let status :=
      if (longest c).decelStartStep ≠ 0 ∧ (longest c).decelStartStep ≤ stepsCount then .decelerate
      else if (longest c).steps ≤ stepsCount then .stop
      else .uniform
    ({ c with status := status, stepsCount := stepsCount }, stepInterval)
  | .decelerate =>
    if (longest c).steps ≤ c.stepsCount then ({ c with status := .stop }, stepInterval)
    else
      let stepInterval := calculateInterval (decelerateRate c)
      ({ c with
          decCompletedTime := u32 (c.decCompletedTime + stepInterval)
          stepsCount := nextStepsCount c }, stepInterval)
  | .stop => (c, stepInterval)

/-- `BresenhamCalc`: whether the axis moves, and its accumulator afterwards. -/
def bresenhamCalc (c : CalcState) (a : Axis) : Bool × ℤ :=
  let newDeltaErr := s32 (c.newDeltaErr a + c.newDivident a)
  (decide (0 ≤ newDeltaErr), if 0 ≤ newDeltaErr then s32 (newDeltaErr - c.newDevision) else newDeltaErr)

/-- The axis gets a motion bit in this record. -/
def moves (c : CalcState) (a : Axis) : Bool :=
  (bresenhamCalc c a).1 && decide (c.axisStepsCnt a < (c.line.axis a).steps)

/-- Set the motion bits `0x01 << (7 - i)` of the axes in `p`. -/
def setFlags (p : Axis → Bool) (flag : ℕ) : ℕ :=
  Axis.all.foldl (fun flag a => if p a then flag ||| 1 <<< (7 - a.index) else flag) flag

/-- The record of a pass and the counters after it.  An axis that makes its first step of the line caps the
period. -/
def emit (c : CalcState) (stepInterval : ℕ) : CalcState × MotionPeriod :=
  let stepPeriod := Axis.all.foldl
    (fun stepPeriod a => if moves c a ∧ c.axisStepsCnt a + 1 = 1 then min stepInterval (1000000 / 2000)
      else stepPeriod) stepInterval
  ({ c with
      newDeltaErr := fun a => (bresenhamCalc c a).2
      axisStepsCnt := fun a => if moves c a then c.axisStepsCnt a + 1 else c.axisStepsCnt a },
    ⟨setFlags (moves c) (c.motionDir &&& 0xFF00), stepPeriod % 2 ^ 16⟩)

/-- One pass of the loop: the state after it and the record it writes. -/
def pass (c : CalcState) (stepInterval : ℕ) : CalcState × MotionPeriod :=
  emit (turn c stepInterval).1 (turn c stepInterval).2

/-! ## One call -/

/-- The longest axis and its step count, searched from `maxSteps` on. -/
def findLongest (line : PlanLine) (maxSteps : ℕ) : Axis × ℕ :=
  Axis.all.foldl (fun r a => if r.2 < (line.axis a).steps then (a, (line.axis a).steps) else r) (.X, maxSteps)

/-- What `Calc` sets up for a line it has fetched; `MaxSteps` is local to the call. -/
def fetchLine (maxSteps : ℕ) (c : CalcState) (line : PlanLine) : CalcState :=
  let r := findLongest line maxSteps
  { c with
    status := line.planCalc.enterStatus
    motionDir := setFlags (fun a => decide ((line.axis a).dir = .forward)) 0 <<< 8 % 2 ^ 16
    axisStepsCnt := fun _ => 0
    longestAxis := r.1
    stepsCount := 0
    newDivident := fun a => s32 (2 * ((line.axis a).steps : ℤ))
    newDevision := s32 (2 * (r.2 : ℤ))
    newDeltaErr := fun _ => s32 (-(r.2 : ℤ))
    line := { line with usable := decide (0 < (line.axis r.1).steps) } }

/-- The `STOP` branch. -/
def finishLine (c : CalcState) : CalcState :=
  { c with
    line := { c.line with usable := false }
    accCompletedTime := 0
    decCompletedTime := 0
    stepsCount := 0
    motionDir := 0 }

/-- What a call does, in order. -/
inductive CalcEvent
  | fetch (line : PlanLine)
  /-- A pass of the loop: the state it starts from and the record it writes. -/
  | pass (pre : CalcState) (record : MotionPeriod)

/-- What a call leaves: the trace, `MaxSteps`, the state and the pending lines. -/
structure CalcResult where
  trace : List CalcEvent
  maxSteps : ℕ
  state : CalcState
  pending : List PlanLine

/-- Fetch until there is a line with steps. -/
def fetchLines (maxSteps : ℕ) (c : CalcState) : List PlanLine → CalcResult
  | [] => ⟨[], maxSteps, c, []⟩
  | line :: pending =>
    let c' := fetchLine maxSteps c line
    let maxSteps' := (findLongest line maxSteps).2
    if c'.line.usable then ⟨[.fetch line], maxSteps', c', pending⟩
    else
      let r := fetchLines maxSteps' c' pending
      { r with trace := .fetch line :: r.trace }

/-- The head of the loop: fetch when no line is in progress. -/
def nextLine (maxSteps : ℕ) (c : CalcState) (pending : List PlanLine) : CalcResult :=
  if c.line.usable then ⟨[], maxSteps, c, pending⟩ else fetchLines maxSteps c pending

/-- The loop of `Calc`, for a budget of records.  `STOP` returns from the call. -/
def calcLoop : ℕ → ℕ → ℕ → CalcState → List PlanLine → CalcResult
  | 0, maxSteps, _, c, pending => ⟨[], maxSteps, c, pending⟩
  | budget + 1, maxSteps, stepInterval, c, pending =>
    let f := nextLine maxSteps c pending
    if f.state.line.usable then
      if f.state.status = .stop then { f with state := finishLine f.state }
      else
        let r := calcLoop budget f.maxSteps (turn f.state stepInterval).2 (pass f.state stepInterval).1 f.pending
        { r with trace := f.trace ++ .pass f.state (pass f.state stepInterval).2 :: r.trace }
    else f

/-- `Calc(Line, MotionNum)`. -/
def calcCall (motionNum : ℕ) (c : CalcState) (pending : List PlanLine) : CalcResult :=
  calcLoop motionNum 0 0 c pending

/-! ## Runs -/

/-- What the other threads see of the generator: lines become pending, and `Calc` is called. -/
inductive CalcInput
  | plan (line : PlanLine)
  | call (motionNum : ℕ)

/-- One input; the output is the trace of the call. -/
def calcStep (s : CalcState × List PlanLine) : CalcInput → (CalcState × List PlanLine) × List CalcEvent
  | .plan line => ((s.1, s.2 ++ [line]), [])
  | .call motionNum => (((calcCall motionNum s.1 s.2).state, (calcCall motionNum s.1 s.2).pending),
      (calcCall motionNum s.1 s.2).trace)

/-- The state after a run and everything `Calc` did in it. -/
def calcRun (is : List CalcInput) : (CalcState × List PlanLine) × List CalcEvent :=
  let r := mealy calcStep (initCalc, []) is
  (r.1, r.2.flatten)

/-- The lines that became pending in a run, in order. -/
def planned : List CalcInput → List PlanLine
  | [] => []
  | .plan line :: is => line :: planned is
  | .call _ :: is => planned is

/-- The lines a trace fetches, in order. -/
def fetched : List CalcEvent → List PlanLine
  | [] => []
  | .fetch line :: es => line :: fetched es
  | .pass _ _ :: es => fetched es

end Defs

/-! ## The rule for runs -/

section Rule

theorem findLongest_snd (line : PlanLine) (m : ℕ) : (findLongest line m).2 = max m line.maxSteps := by
  simp only [findLongest, Axis.all, List.foldl_cons, List.foldl_nil, PlanLine.maxSteps]
  split_ifs <;> simp only [] at * <;> omega

/-- The longest axis of a line: its count is the maximum, unless the search starts above it. -/
theorem findLongest_fst (line : PlanLine) : (line.axis (findLongest line 0).1).steps = line.maxSteps := by
  have h : ∀ (r : Axis × ℕ) (a : Axis), (line.axis r.1).steps = r.2 ∨ r.2 = 0 →
      let r' := if r.2 < (line.axis a).steps then (a, (line.axis a).steps) else r
      (line.axis r'.1).steps = r'.2 ∨ r'.2 = 0 := by
    intro r a hr
    dsimp only
    split_ifs
    · exact Or.inl rfl
    · exact hr
  have hfin := h _ .E (h _ .Z (h _ .Y (h (.X, 0) .X (Or.inr rfl))))
  have hsnd := findLongest_snd line 0
  rcases hfin with hfin | hfin
  · exact hfin.trans (by simpa [findLongest, Axis.all] using hsnd)
  · have h0 : line.maxSteps = 0 := by
      have : (findLongest line 0).2 = 0 := hfin
      omega
    have := line.steps_le_maxSteps (findLongest line 0).1
    omega

/-- A fetched line is in progress iff it has steps. -/
theorem fetchLine_usable (c : CalcState) (line : PlanLine) :
    (fetchLine 0 c line).line.usable = decide (0 < line.maxSteps) := by
  simp only [fetchLine, findLongest_fst]

theorem fetchLines_usable {m : ℕ} {c : CalcState} {line : PlanLine} {pending : List PlanLine}
    (h : (fetchLine m c line).line.usable = true) :
    fetchLines m c (line :: pending) = ⟨[.fetch line], (findLongest line m).2, fetchLine m c line, pending⟩ := by
  simp only [fetchLines, h, if_true]

theorem fetchLines_skip {m : ℕ} {c : CalcState} {line : PlanLine} {pending : List PlanLine}
    (h : (fetchLine m c line).line.usable = false) :
    fetchLines m c (line :: pending) =
      { fetchLines (findLongest line m).2 (fetchLine m c line) pending with
        trace := .fetch line :: (fetchLines (findLongest line m).2 (fetchLine m c line) pending).trace } := by
  simp [fetchLines, h]

theorem calcLoop_succ (n m i : ℕ) (c : CalcState) (pending : List PlanLine) :
    calcLoop (n + 1) m i c pending =
      let f := nextLine m c pending
      if f.state.line.usable then
        if f.state.status = .stop then { f with state := finishLine f.state }
        else
          let r := calcLoop n f.maxSteps (turn f.state i).2 (pass f.state i).1 f.pending
          { r with trace := f.trace ++ .pass f.state (pass f.state i).2 :: r.trace }
      else f :=
  rfl

theorem calcLoop_idle {n m i : ℕ} {c : CalcState} {pending : List PlanLine}
    (h : (nextLine m c pending).state.line.usable = false) :
    calcLoop (n + 1) m i c pending = nextLine m c pending := by
  simp [calcLoop_succ, h]

theorem calcLoop_finish {n m i : ℕ} {c : CalcState} {pending : List PlanLine}
    (h : (nextLine m c pending).state.line.usable = true) (hs : (nextLine m c pending).state.status = .stop) :
    calcLoop (n + 1) m i c pending =
      { nextLine m c pending with state := finishLine (nextLine m c pending).state } := by
  simp [calcLoop_succ, h, hs]

theorem calcLoop_pass {n m i : ℕ} {c : CalcState} {pending : List PlanLine} {f : CalcResult}
    (hf : nextLine m c pending = f) (h : f.state.line.usable = true) (hs : f.state.status ≠ .stop) :
    ∃ r, r = calcLoop n f.maxSteps (turn f.state i).2 (pass f.state i).1 f.pending ∧
      calcLoop (n + 1) m i c pending = { r with trace := f.trace ++ .pass f.state (pass f.state i).2 :: r.trace } := by
  refine ⟨_, rfl, ?_⟩
  subst hf
  simp [calcLoop_succ, h, hs]

/-- A call begins with its fetches. -/
theorem calcLoop_trace (n m i : ℕ) (c : CalcState) (pending : List PlanLine) :
    ∃ es, (calcLoop (n + 1) m i c pending).trace = (nextLine m c pending).trace ++ es := by
  simp only [calcLoop_succ]
  split_ifs with h hs
  · exact ⟨[], (List.append_nil _).symm⟩
  · exact ⟨_, rfl⟩
  · exact ⟨[], (List.append_nil _).symm⟩

theorem turn_line (c : CalcState) (i : ℕ) : (turn c i).1.line = c.line := by
  unfold turn
  cases c.status with
  | decelerate => by_cases h : (longest c).steps ≤ c.stepsCount <;> simp [h]
  | _ => rfl

theorem pass_line (c : CalcState) (i : ℕ) : (pass c i).1.line = c.line := turn_line c i

theorem fetched_append (es fs : List CalcEvent) : fetched (es ++ fs) = fetched es ++ fetched fs := by
  induction es with
  | nil => rfl
  | cons e es ih => cases e <;> simp [fetched, ih]

variable {I : List CalcEvent → CalcState → Prop} {P : PlanLine → Prop}

/-- Fetches keep what each fetch keeps. -/
theorem fetchLines_rule
    (hfetch : ∀ tr c line, c.line.usable = false → P line → I tr c → I (tr ++ [.fetch line]) (fetchLine 0 c line)) :
    ∀ (pending : List PlanLine) (tr : List CalcEvent) (c : CalcState), c.line.usable = false →
      (∀ l ∈ pending, P l) → I tr c →
      I (tr ++ (fetchLines 0 c pending).trace) (fetchLines 0 c pending).state ∧
        (∀ l ∈ (fetchLines 0 c pending).pending, P l) ∧
        pending = fetched (fetchLines 0 c pending).trace ++ (fetchLines 0 c pending).pending
  | [], tr, c, _, _, h => by simpa [fetchLines, fetched] using h
  | line :: pending, tr, c, hc, hp, h => by
    have h1 := hfetch tr c line hc (hp line List.mem_cons_self) h
    have hu := fetchLine_usable c line
    have hp' : ∀ l ∈ pending, P l := fun l hl => hp l (List.mem_cons_of_mem _ hl)
    by_cases hpos : 0 < line.maxSteps
    · rw [fetchLines_usable (by simp [hu, hpos])]
      exact ⟨h1, hp', rfl⟩
    · -- a line without steps leaves `MaxSteps` at zero
      have hm : (findLongest line 0).2 = 0 := by
        rw [findLongest_snd]
        omega
      have hu' : (fetchLine 0 c line).line.usable = false := by simp [hu, hpos]
      obtain ⟨h2, h3, h4⟩ := fetchLines_rule hfetch pending _ _ hu' hp' h1
      rw [fetchLines_skip hu', hm]
      refine ⟨by simpa using h2, h3, ?_⟩
      simp only [fetched, List.cons_append]
      rw [← h4]

/-- **The rule for one call**: what every fetch, every pass and every completion keeps, the call keeps. -/
theorem calcLoop_rule
    (hfetch : ∀ tr c line, c.line.usable = false → P line → I tr c → I (tr ++ [.fetch line]) (fetchLine 0 c line))
    (hfinish : ∀ tr c, c.line.usable = true → c.status = .stop → I tr c → I tr (finishLine c))
    (hpass : ∀ tr c i, c.line.usable = true → c.status ≠ .stop → I tr c →
      I (tr ++ [.pass c (pass c i).2]) (pass c i).1) :
    ∀ (budget m i : ℕ) (c : CalcState) (pending : List PlanLine) (tr : List CalcEvent),
      (c.line.usable = true ∨ m = 0) → (∀ l ∈ pending, P l) → I tr c →
      I (tr ++ (calcLoop budget m i c pending).trace) (calcLoop budget m i c pending).state ∧
        (∀ l ∈ (calcLoop budget m i c pending).pending, P l) ∧
        pending = fetched (calcLoop budget m i c pending).trace ++ (calcLoop budget m i c pending).pending
  | 0, m, i, c, pending, tr, _, hp, h => ⟨by simpa [calcLoop] using h, by simpa [calcLoop] using hp, rfl⟩
  | budget + 1, m, i, c, pending, tr, hm, hp, h => by
    -- the head of the loop
    have hn : I (tr ++ (nextLine m c pending).trace) (nextLine m c pending).state ∧
        (∀ l ∈ (nextLine m c pending).pending, P l) ∧
        pending = fetched (nextLine m c pending).trace ++ (nextLine m c pending).pending := by
      unfold nextLine
      cases hu : c.line.usable with
      | true => simpa [fetched] using ⟨h, hp⟩
      | false =>
        have hm0 : m = 0 := by simpa [hu] using hm
        rw [hm0]
        exact fetchLines_rule hfetch pending tr c hu hp h
    obtain ⟨h1, h2, h3⟩ := hn
    cases hu : (nextLine m c pending).state.line.usable with
    | false =>
      rw [calcLoop_idle hu]
      exact ⟨h1, h2, h3⟩
    | true =>
      by_cases hs : (nextLine m c pending).state.status = .stop
      · rw [calcLoop_finish hu hs]
        exact ⟨hfinish _ _ hu hs h1, h2, h3⟩
      · generalize hf : nextLine m c pending = f at h1 h2 h3 hu hs
        obtain ⟨r, hr, he⟩ := calcLoop_pass (n := budget) (i := i) hf hu hs
        have hk : (pass f.state i).1.line.usable = true := by rw [pass_line, hu]
        obtain ⟨h4, h5, h6⟩ := calcLoop_rule hfetch hfinish hpass budget f.maxSteps (turn f.state i).2
          (pass f.state i).1 f.pending _ (Or.inl hk) h2 (hpass _ _ i hu hs h1)
        rw [← hr] at h4 h5 h6
        rw [he]
        refine ⟨by simpa using h4, h5, ?_⟩
        simp only [fetched_append, fetched]
        rw [h3, h6, List.append_assoc]

/-- **The rule for runs**: what every fetch, every pass and every completion keeps holds after every run, and the
lines are fetched in the order in which they were planned. -/
theorem calcRun_rule
    (h0 : I [] initCalc)
    (hfetch : ∀ tr c line, c.line.usable = false → P line → I tr c → I (tr ++ [.fetch line]) (fetchLine 0 c line))
    (hfinish : ∀ tr c, c.line.usable = true → c.status = .stop → I tr c → I tr (finishLine c))
    (hpass : ∀ tr c i, c.line.usable = true → c.status ≠ .stop → I tr c →
      I (tr ++ [.pass c (pass c i).2]) (pass c i).1)
    (is : List CalcInput) (hp : ∀ l ∈ planned is, P l) :
    I (calcRun is).2 (calcRun is).1.1 ∧ planned is = fetched (calcRun is).2 ++ (calcRun is).1.2 := by
  have hrun : ∀ (is : List CalcInput) (tr : List CalcEvent) (c : CalcState) (pending : List PlanLine),
      (∀ l ∈ pending ++ planned is, P l) → I tr c →
      I (tr ++ (mealy calcStep (c, pending) is).2.flatten) (mealy calcStep (c, pending) is).1.1 ∧
        pending ++ planned is = fetched (mealy calcStep (c, pending) is).2.flatten ++
          (mealy calcStep (c, pending) is).1.2 := by
    intro is
    induction is with
    | nil =>
      intro tr c pending _ h
      simpa [mealy, planned, fetched] using h
    | cons i is ih =>
      intro tr c pending hp h
      cases i with
      | plan line =>
        have h1 := ih tr c (pending ++ [line]) (by simpa [planned] using hp) h
        simpa [mealy, calcStep, planned] using h1
      | call n =>
        have hpend : ∀ l ∈ pending, P l := fun l hl => hp l (List.mem_append_left _ hl)
        obtain ⟨h1, h2, h3⟩ := calcLoop_rule hfetch hfinish hpass n 0 0 c pending tr (Or.inr rfl) hpend h
        rw [show calcLoop n 0 0 c pending = calcCall n c pending from rfl] at h1 h2 h3
        have hp' : ∀ l ∈ (calcCall n c pending).pending ++ planned is, P l := by
          intro l hl
          rcases List.mem_append.mp hl with hl | hl
          · exact h2 l hl
          · exact hp l (List.mem_append_right _ hl)
        obtain ⟨h4, h5⟩ := ih _ _ _ hp' h1
        refine ⟨by simpa [mealy, calcStep] using h4, ?_⟩
        simp only [mealy, calcStep, planned, List.flatten_cons, fetched_append]
        rw [List.append_assoc, ← h5, ← List.append_assoc]
        exact congrArg (· ++ planned is) h3
  have h := hrun is [] initCalc [] (by simpa using hp) h0
  simpa [calcRun] using h

end Rule

end Cxsw.Motion
