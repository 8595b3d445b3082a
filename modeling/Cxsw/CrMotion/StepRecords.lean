import Cxsw.CrMotion.HandedOut
import Cxsw.CrMotion.StepConservation

/-!
# Cxsw.CrMotion.StepRecords — the records in the stepper FIFO

A record is well formed when its period is in the range of the timer, `1` to `65535`, and it moves an axis.  The
longest axis moves in every pass that takes a step, whatever the other axes do.

* `PassOk`: the pass takes a step, and the rate of its phase does not exceed the rate of the timer.
* `Longest`: the invariant of the longest axis; it also holds where the accumulators of the others wrap.
* `records_wellFormed`: such a pass, and below `2 ^ 30` steps no other, writes a well-formed record.
* `retract_emptyRecord`: the last pass of a retract does not take a step, and writes a record all the same.
-/

namespace Cxsw.Motion

open DigitalLine

/-! ## The condition -/

section Condition

/-- A record that the stepper interrupt can execute. -/
structure WellFormed (r : MotionPeriod) : Prop where
  period_pos : 1 ≤ r.stepPeriod
  period_le : r.stepPeriod ≤ 65535
  moves : ∃ a, hasBit a r = true

/-- The speeds from which the phase takes its rate are within the rate of the timer.  A line that decelerates past
zero takes `a t` itself. -/
def RateFits (c : CalcState) : Prop :=
  let p := c.line.planCalc
  match c.status with
  | .accelerate =>
    p.nominalRate ≤ stepperTimerRate ∨
      u32 (multiU32X24toH32 c.accCompletedTime p.accelStepPerSecTick + p.entryRate) ≤ stepperTimerRate
  | .uniform => p.nominalRate ≤ stepperTimerRate
  | .decelerate =>
    let speed := u32 (multiU32X24toH32 c.decCompletedTime p.accelStepPerSecTick)
    if speed < p.nominalRate then p.nominalRate - speed ≤ stepperTimerRate ∧ p.exitRate ≤ stepperTimerRate
    else speed ≤ stepperTimerRate
  | .stop => True

/-- A pass that writes a well-formed record. -/
structure PassOk (c : CalcState) : Prop where
  /-- There is a step left: `DECELERATE` does not find the line done. -/
  step : ¬ Overrun c
  rate : RateFits c

theorem max_minStepRate_le {x : ℕ} : max x minStepRate ≤ stepperTimerRate ↔ x ≤ stepperTimerRate := by
  unfold minStepRate stepperTimerRate
  omega

theorem rateFits_iff (c : CalcState) : RateFits c ↔ stepRate c ≤ stepperTimerRate := by
  unfold RateFits stepRate
  cases c.status with
  | accelerate =>
    unfold accelerateRate
    simp only [max_minStepRate_le]
    split_ifs <;> omega
  | uniform =>
    unfold uniformRate
    simp only [max_minStepRate_le]
  | decelerate =>
    unfold decelerateRate
    simp only [max_minStepRate_le]
    split_ifs <;> omega
  | stop => simp

instance (c : CalcState) : Decidable (RateFits c) := decidable_of_iff _ (rateFits_iff c).symm

instance (c : CalcState) : Decidable (PassOk c) :=
  decidable_of_iff (¬ Overrun c ∧ RateFits c) ⟨fun h => ⟨h.1, h.2⟩, fun h => ⟨h.step, h.rate⟩⟩

theorem minStepRate_le_stepRate {c : CalcState} (hs : c.status ≠ .stop) : minStepRate ≤ stepRate c := by
  unfold stepRate
  cases hst : c.status with
  | stop => exact absurd hst hs
  | accelerate => exact le_max_right _ _
  | uniform => exact le_max_right _ _
  | decelerate => exact le_max_right _ _

theorem calculateInterval_range {rate : ℕ} (h1 : minStepRate ≤ rate) (h2 : rate ≤ stepperTimerRate) :
    1 ≤ calculateInterval rate ∧ calculateInterval rate ≤ 31250 := by
  unfold calculateInterval
  unfold minStepRate at h1
  constructor
  · exact (Nat.one_le_div_iff (by omega)).mpr h2
  · calc stepperTimerRate / rate ≤ stepperTimerRate / 32 := Nat.div_le_div_left h1 (by norm_num)
      _ = 31250 := by decide

theorem calculateInterval_zero {rate : ℕ} (h : stepperTimerRate < rate) : calculateInterval rate = 0 :=
  Nat.div_eq_of_lt h

/-- The period of a record is the interval, or the cap of a first step if that is less. -/
theorem emit_stepPeriod (c : CalcState) (i : ℕ) :
    (emit c i).2.stepPeriod = i % 2 ^ 16 ∨ (emit c i).2.stepPeriod = min i 500 % 2 ^ 16 := by
  have h : ∀ (as : List Axis) (x : ℕ), x = i ∨ x = min i 500 →
      let y := as.foldl (fun stepPeriod a => if moves c a ∧ c.axisStepsCnt a + 1 = 1 then min i (1000000 / 2000)
        else stepPeriod) x
      y = i ∨ y = min i 500 := by
    intro as
    induction as with
    | nil => exact fun x hx => hx
    | cons a as ih =>
      intro x hx
      refine ih _ ?_
      dsimp only
      split_ifs
      · exact Or.inr rfl
      · exact hx
  rcases h Axis.all i (Or.inl rfl) with h | h
  · exact Or.inl (congrArg (· % 2 ^ 16) h)
  · exact Or.inr (congrArg (· % 2 ^ 16) h)

end Condition

/-! ## The longest axis -/

section Longest

/-- The invariant of the longest axis: it is at the start of its digital line before every step. -/
structure Longest (c : CalcState) : Prop where
  steps : (longest c).steps = c.line.planCalc.stepEventCnt
  pos : 0 < c.line.planCalc.stepEventCnt
  lt : c.line.planCalc.stepEventCnt < 2 ^ 31
  newDivident : c.newDivident c.longestAxis = s32 (2 * (c.line.planCalc.stepEventCnt : ℤ))
  newDevision : c.newDevision = s32 (2 * (c.line.planCalc.stepEventCnt : ℤ))
  newDeltaErr : c.status ≠ .stop → c.newDeltaErr c.longestAxis = -(c.line.planCalc.stepEventCnt : ℤ)
  axisStepsCnt : c.status ≠ .stop → c.axisStepsCnt c.longestAxis = c.stepsCount
  running : c.status ≠ .stop → c.stepsCount < c.line.planCalc.stepEventCnt ∨ c.status = .decelerate

theorem longest_fetch (c : CalcState) {l : PlanLine} (hl : Executable l) (hpos : 0 < l.maxSteps) :
    Longest (fetchLine 0 c l) := by
  have hm : (findLongest l 0).2 = l.maxSteps := by rw [findLongest_snd, Nat.zero_max]
  have hlt := hl.maxSteps_lt
  have hcnt : (fetchLine 0 c l).line.planCalc.stepEventCnt = l.maxSteps := hl.stepEventCnt
  refine ⟨?_, ?_, ?_, ?_, ?_, fun _ => ?_, fun _ => rfl, fun _ => Or.inl ?_⟩
  · rw [hcnt]
    exact findLongest_fst l
  · rw [hcnt]
    exact hpos
  · rw [hcnt]
    exact hlt
  · rw [hcnt, ← findLongest_fst l]
    rfl
  · rw [hcnt, ← hm]
    rfl
  · rw [hcnt]
    simp only [fetchLine, hm]
    exact s32_of_range (by omega) (by omega)
  · rw [hcnt]
    exact hpos

/-- The longest axis moves in every pass that takes a step, and is back at the start of its line after it. -/
theorem Longest.moves {c t : CalcState} (h : Longest c) (hs : c.status ≠ .stop)
    (hk : c.stepsCount < c.line.planCalc.stepEventCnt) (hline : t.line = c.line)
    (hlong : t.longestAxis = c.longestAxis) (hcnt : t.axisStepsCnt = c.axisStepsCnt)
    (hdelta : t.newDeltaErr = c.newDeltaErr) (hdiv : t.newDivident = c.newDivident)
    (hdev : t.newDevision = c.newDevision) :
    moves t t.longestAxis = true ∧
      (bresenhamCalc t t.longestAxis).2 = -(c.line.planCalc.stepEventCnt : ℤ) := by
  have hpos := h.pos
  have hlt := h.lt
  -- `-M + 2 M` is `M` even where `2 M` wraps
  have hsum : s32 (t.newDeltaErr t.longestAxis + t.newDivident t.longestAxis) =
      (c.line.planCalc.stepEventCnt : ℤ) := by
    rw [hdelta, hdiv, hlong, h.newDeltaErr hs, h.newDivident, s32_add_s32]
    rw [s32_of_range (by omega) (by omega)]
    ring
  have hcap : t.axisStepsCnt t.longestAxis < (t.line.axis t.longestAxis).steps := by
    have hsteps : (t.line.axis t.longestAxis).steps = c.line.planCalc.stepEventCnt := by
      rw [hline, hlong]
      exact h.steps
    rw [hsteps, hcnt, hlong, h.axisStepsCnt hs]
    exact hk
  constructor
  · unfold Motion.moves bresenhamCalc
    rw [hsum]
    simp [hcap]
  · unfold bresenhamCalc
    rw [hsum]
    dsimp only
    rw [if_pos (by omega), hdev, h.newDevision, s32_sub_s32, s32_of_range (by omega) (by omega)]
    ring

theorem Longest.stepsCount_lt {c : CalcState} (h : Longest c) (hs : c.status ≠ .stop) (ho : ¬ Overrun c) :
    c.stepsCount < c.line.planCalc.stepEventCnt := by
  rcases h.running hs with hk | hk
  · exact hk
  · by_contra hge
    exact ho ⟨hk, by rw [h.steps]; omega⟩

/-- **One pass keeps the invariant.** -/
theorem longest_pass {c : CalcState} (h : Longest c) (hs : c.status ≠ .stop) (i : ℕ) : Longest (pass c i).1 := by
  unfold pass
  by_cases ho : Overrun c
  · rw [turn_overrun ho]
    exact ⟨h.steps, h.pos, h.lt, h.newDivident, h.newDevision, fun hst => absurd rfl hst,
      fun hst => absurd rfl hst, fun hst => absurd rfl hst⟩
  · have ht := turn_spec hs ho i
    have hline := turn_line c i
    have hk := h.stepsCount_lt hs ho
    have hnext : nextStepsCount c = c.stepsCount + 1 := by
      have := h.lt
      exact nextStepsCount_of_lt hk (by omega)
    obtain ⟨hmv, herr⟩ := h.moves hs hk hline ht.longestAxis ht.axisStepsCnt ht.newDeltaErr ht.newDivident
      ht.newDevision
    have hlong : longest (turn c i).1 = longest c := by
      unfold longest
      rw [hline, ht.longestAxis]
    have hM : (turn c i).1.line.planCalc.stepEventCnt = c.line.planCalc.stepEventCnt := by rw [hline]
    refine ⟨?_, ?_, ?_, ?_, ?_, fun _ => ?_, fun _ => ?_, fun hst => ?_⟩
    · change (longest (turn c i).1).steps = (turn c i).1.line.planCalc.stepEventCnt
      rw [hlong, hM, h.steps]
    · change 0 < (turn c i).1.line.planCalc.stepEventCnt
      rw [hM]
      exact h.pos
    · change (turn c i).1.line.planCalc.stepEventCnt < 2 ^ 31
      rw [hM]
      exact h.lt
    · change (turn c i).1.newDivident (turn c i).1.longestAxis = s32 (2 * ((turn c i).1.line.planCalc.stepEventCnt : ℤ))
      rw [hM, ht.newDivident, ht.longestAxis, h.newDivident]
    · change (turn c i).1.newDevision = s32 (2 * ((turn c i).1.line.planCalc.stepEventCnt : ℤ))
      rw [hM, ht.newDevision, h.newDevision]
    · change (bresenhamCalc (turn c i).1 (turn c i).1.longestAxis).2 = -((turn c i).1.line.planCalc.stepEventCnt : ℤ)
      rw [hM, herr]
    · change (if Motion.moves (turn c i).1 (turn c i).1.longestAxis then
          (turn c i).1.axisStepsCnt (turn c i).1.longestAxis + 1
        else (turn c i).1.axisStepsCnt (turn c i).1.longestAxis) = (turn c i).1.stepsCount
      rw [if_pos hmv, ht.axisStepsCnt, ht.longestAxis, h.axisStepsCnt hs, ht.stepsCount, hnext]
    · have hrun := ht.running hst
      rw [h.steps] at hrun
      change (turn c i).1.stepsCount < (turn c i).1.line.planCalc.stepEventCnt ∨ _
      rw [hM, ht.stepsCount]
      exact hrun

theorem Longest.wellFormed {c : CalcState} (h : Longest c) (hs : c.status ≠ .stop) (hok : PassOk c) (i : ℕ) :
    WellFormed (pass c i).2 := by
  have ht := turn_spec hs hok.step i
  have hk := h.stepsCount_lt hs hok.step
  obtain ⟨hmv, -⟩ := h.moves hs hk (turn_line c i) ht.longestAxis ht.axisStepsCnt ht.newDeltaErr ht.newDivident
    ht.newDevision
  obtain ⟨h1, h2⟩ := calculateInterval_range (minStepRate_le_stepRate hs) ((rateFits_iff c).mp hok.rate)
  have hperiod := emit_stepPeriod (turn c i).1 (turn c i).2
  rw [ht.interval] at hperiod
  have hrange : 1 ≤ (pass c i).2.stepPeriod ∧ (pass c i).2.stepPeriod ≤ 65535 := by
    unfold pass
    rw [ht.interval]
    rcases hperiod with hp | hp <;> rw [hp] <;> omega
  refine ⟨hrange.1, hrange.2, (turn c i).1.longestAxis, ?_⟩
  unfold pass emit
  rw [hasBit_setFlags]
  exact hmv

end Longest

/-! ## Runs -/

section Runs

theorem InLine.overrun_bits {c : CalcState} {l : PlanLine} {rs : List MotionPeriod} (h : InLine c l rs)
    (hpos : 0 < l.maxSteps) (hlt : l.maxSteps < 2 ^ 30) (ho : Overrun c) (i : ℕ) (a : Axis) :
    hasBit a (pass c i).2 = false := by
  have hs : c.status ≠ .stop := by
    rw [ho.1]
    exact fun h => by cases h
  -- all steps are done before the pass, and it may not add one
  have hk : c.stepsCount = l.maxSteps := by
    have h1 := ho.2
    have h2 := h.count_le
    rw [h.longest] at h1
    omega
  have hafter := (inLine_pass h hlt hs i).bits_le hpos a
  have hbefore := h.bits a
  rw [h.axisStepsCnt, hk, pulses_full hpos] at hbefore
  rw [List.countP_append, hbefore, List.countP_singleton] at hafter
  by_contra hb
  rw [Bool.not_eq_false] at hb
  rw [if_pos hb] at hafter
  omega

/-- A well-formed record comes from a pass that meets the condition. -/
theorem InLine.passOk {c : CalcState} {l : PlanLine} {rs : List MotionPeriod} (h : InLine c l rs)
    (hpos : 0 < l.maxSteps) (hlt : l.maxSteps < 2 ^ 30) (hs : c.status ≠ .stop) {i : ℕ}
    (hw : WellFormed (pass c i).2) : PassOk c := by
  have hstep : ¬ Overrun c := by
    intro ho
    obtain ⟨a, ha⟩ := hw.moves
    rw [h.overrun_bits hpos hlt ho i a] at ha
    cases ha
  refine ⟨hstep, (rateFits_iff c).mpr ?_⟩
  by_contra hr
  have ht := turn_spec hs hstep i
  have hperiod := emit_stepPeriod (turn c i).1 (turn c i).2
  rw [ht.interval, calculateInterval_zero (not_le.mp hr)] at hperiod
  have h1 := hw.period_pos
  unfold pass at h1
  rw [ht.interval, calculateInterval_zero (not_le.mp hr)] at h1
  rcases hperiod with hp | hp <;> rw [hp] at h1 <;> omega

/-- The passes of a run, for any executable lines and any cutting into calls: one that meets `PassOk` writes a
well-formed record, and where the step counts are below `2 ^ 30` no other does. -/
theorem pass_wellFormed (is : List CalcInput) (hp : ∀ l ∈ planned is, Executable l) :
    (∀ c r, CalcEvent.pass c r ∈ (calcRun is).2 → PassOk c → WellFormed r) ∧
      ((∀ l ∈ planned is, l.maxSteps < 2 ^ 30) →
        ∀ c r, CalcEvent.pass c r ∈ (calcRun is).2 → (WellFormed r ↔ PassOk c)) := by
  have hfwd : ∀ c r, CalcEvent.pass c r ∈ (calcRun is).2 → PassOk c → WellFormed r := by
    refine (calcRun_rule (P := Executable)
      (I := fun tr c => (c.line.usable = true → Longest c) ∧
        ∀ c r, CalcEvent.pass c r ∈ tr → PassOk c → WellFormed r)
      ⟨fun h => (by cases h), fun c r h => (by cases h)⟩ ?_ ?_ ?_ is hp).1.2
    · rintro tr c l hu hl ⟨-, h⟩
      refine ⟨fun hu' => ?_, fun c' r he => h c' r ?_⟩
      · rw [fetchLine_usable, decide_eq_true_iff] at hu'
        exact longest_fetch c hl hu'
      · simpa using he
    · rintro tr c hu hs ⟨-, h⟩
      exact ⟨fun hu' => (by cases hu'), h⟩
    · rintro tr c i hu hs ⟨hlong, h⟩
      refine ⟨fun _ => longest_pass (hlong hu) hs i, fun c' r he hok => ?_⟩
      rcases List.mem_append.mp he with he | he
      · exact h c' r he hok
      · obtain ⟨rfl, rfl⟩ : c' = c ∧ r = (pass c i).2 := by simpa using he
        exact (hlong hu).wellFormed hs hok i
  refine ⟨hfwd, fun hsmall c r he => ⟨fun hw => ?_, hfwd c r he⟩⟩
  have hlines : ∀ l ∈ planned is, StepLine l := fun l hl =>
    ⟨(hp l hl).stepEventCnt, hsmall l hl, by rw [(hp l hl).enterStatus]; exact fun h => by cases h⟩
  have hinv := (calcRun_rule (P := StepLine)
    (I := fun tr c => LinesInv (fun _ r => r) (fun _ => True) InProgress Finished tr c ∧
      ∀ c r, CalcEvent.pass c r ∈ tr → WellFormed r → PassOk c)
    ⟨stepRule.inv_init, fun c r h => (by cases h)⟩
    (fun tr c l hu hl h => ⟨stepRule.inv_fetch hu hl h.1, fun c' r he => h.2 c' r (by simpa using he)⟩)
    (fun tr c hu hs h => ⟨stepRule.inv_finish hu hs h.1, h.2⟩) ?_ is hlines).1
  · exact hinv.2 c r he hw
  · rintro tr c i hu hs ⟨hrun, h⟩
    refine ⟨stepRule.inv_pass i hu hs hrun, fun c' r he hw => ?_⟩
    rcases List.mem_append.mp he with he | he
    · exact h c' r he hw
    · obtain ⟨rfl, rfl⟩ : c' = c ∧ r = (pass c i).2 := by simpa using he
      cases hsg : group (fun _ r => r) tr with
      | nil =>
        rw [hrun.empty hsg] at hu
        cases hu
      | cons s older =>
        have hnew := hrun.newest s older hsg
        rw [if_pos hu] at hnew
        obtain ⟨hpos, hlt, hin⟩ := hnew
        exact hin.passOk hpos hlt hs hw

/-- The records a trace writes, in order. -/
def records (trace : List CalcEvent) : List MotionPeriod :=
  trace.filterMap fun
    | .fetch _ => none
    | .pass _ r => some r

/-- The states its passes start from, in order. -/
def passStates (trace : List CalcEvent) : List CalcState :=
  trace.filterMap fun
    | .fetch _ => none
    | .pass c _ => some c

theorem mem_records {trace : List CalcEvent} {r : MotionPeriod} :
    r ∈ records trace ↔ ∃ c, CalcEvent.pass c r ∈ trace := by
  unfold records
  rw [List.mem_filterMap]
  constructor
  · rintro ⟨e, he, hr⟩
    cases e with
    | fetch l => cases hr
    | pass c r' =>
      cases hr
      exact ⟨c, he⟩
  · rintro ⟨c, hc⟩
    exact ⟨_, hc, rfl⟩

theorem mem_passStates {trace : List CalcEvent} {c : CalcState} :
    c ∈ passStates trace ↔ ∃ r, CalcEvent.pass c r ∈ trace := by
  unfold passStates
  rw [List.mem_filterMap]
  constructor
  · rintro ⟨e, he, hc⟩
    cases e with
    | fetch l => cases hc
    | pass c' r =>
      cases hc
      exact ⟨r, he⟩
  · rintro ⟨r, hr⟩
    exact ⟨_, hr, rfl⟩

/-- **The records of every run** whose passes all meet `PassOk` are well formed, for any executable lines and any
cutting into calls; where the step counts are below `2 ^ 30` they are so in no other run. -/
theorem records_wellFormed (is : List CalcInput) (hp : ∀ l ∈ planned is, Executable l) :
    ((∀ c ∈ passStates (calcRun is).2, PassOk c) → ∀ r ∈ records (calcRun is).2, WellFormed r) ∧
      ((∀ l ∈ planned is, l.maxSteps < 2 ^ 30) →
        ((∀ r ∈ records (calcRun is).2, WellFormed r) ↔ ∀ c ∈ passStates (calcRun is).2, PassOk c)) := by
  obtain ⟨hfwd, hiff⟩ := pass_wellFormed is hp
  have hall : (∀ c ∈ passStates (calcRun is).2, PassOk c) → ∀ r ∈ records (calcRun is).2, WellFormed r := by
    intro hok r hr
    obtain ⟨c, hc⟩ := mem_records.mp hr
    exact hfwd c r hc (hok c (mem_passStates.mpr ⟨r, hc⟩))
  refine ⟨hall, fun hsmall => ⟨fun hw c hc => ?_, hall⟩⟩
  obtain ⟨r, hr⟩ := mem_passStates.mp hc
  exact (hiff hsmall c r hr).mp (hw r (mem_records.mpr ⟨c, hr⟩))

/-- The planner after one retract of three steps. -/
def oneRetract : Planner :=
  (Planner.init.call (.feedrateAttrSet (retractAt 50))).call (.planRetract exampleMachine (eAt 0) (eAt (3 / 100)))

/-- The line it hands over. -/
def retractLine : PlanLine := ((getNextPlanLine oneRetract.ring).1).getD PlanLine.zero

theorem retractLine_executable : Executable retractLine := by
  have hrun : Run PlannerStep Planner.init
      [.feedrateAttrSet (retractAt 50), .planRetract exampleMachine (eAt 0) (eAt (3 / 100))] oneRetract :=
    ((Run.nil _).snoc rfl).snoc rfl
  exact handedOut_getD hrun (by decide +kernel)

/-- The first three passes of the retract. -/
theorem records_wellFormed_retract :
    (records (calcRun [.plan retractLine, .call 2, .call 1]).2).length = 3 ∧
      ∀ r ∈ records (calcRun [.plan retractLine, .call 2, .call 1]).2, WellFormed r := by
  refine ⟨by decide +kernel, (records_wellFormed [.plan retractLine, .call 2, .call 1] fun l hl => ?_).1 ?_⟩
  · rw [List.mem_singleton.mp (show l ∈ [retractLine] from hl)]
    exact retractLine_executable
  · decide +kernel

/-- **The pass after the last step** writes a record that moves nothing, with the period zero when it is the first
of its call. -/
theorem retract_emptyRecord :
    records (calcRun [.plan retractLine, .call 3, .call 1]).2 =
        [⟨4112, 500⟩, ⟨4112, 200⟩, ⟨4112, 200⟩, ⟨4096, 0⟩] ∧
      ¬ ∀ r ∈ records (calcRun [.plan retractLine, .call 3, .call 1]).2, WellFormed r := by
  have h : records (calcRun [.plan retractLine, .call 3, .call 1]).2 =
      [⟨4112, 500⟩, ⟨4112, 200⟩, ⟨4112, 200⟩, ⟨4096, 0⟩] := by decide +kernel
  refine ⟨h, fun hw => ?_⟩
  rw [h] at hw
  exact absurd (hw ⟨4096, 0⟩ (by simp)).period_pos (by decide)

end Runs

end Cxsw.Motion
