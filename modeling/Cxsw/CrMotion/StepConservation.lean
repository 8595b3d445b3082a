import Mathlib.Data.Nat.Bitwise
import Cxsw.Lib.DigitalLine
import Cxsw.CrMotion.CalcLines

/-!
# Cxsw.CrMotion.StepConservation — every planned step is emitted, once

The accumulators of a line in progress are those of the digital line: after `k` passes axis `a` has
`pulses (steps a) M k` steps, whatever the phases and rates are and wherever the calls are cut, and the pass that
may come after the last step emits none.

* `InLine`: the invariant of a line in progress.
* `inLine_fetch`, `inLine_pass`: the generator keeps it.
* `step_conservation`: in every run each finished line got exactly its steps, in its directions.
-/

namespace Cxsw.Motion

open DigitalLine

/-! ## Bits of a record -/

section Bits

/-- The record moves axis `a`. -/
def hasBit (a : Axis) (r : MotionPeriod) : Bool := r.motionFlag.testBit (7 - a.index)

/-- The direction bit of axis `a`. -/
def dirBit (a : Axis) (r : MotionPeriod) : Bool := r.motionFlag.testBit (15 - a.index)

theorem testBit_setFlags (p : Axis → Bool) (flag j : ℕ) :
    (setFlags p flag).testBit j = true ↔ flag.testBit j = true ∨ ∃ a, p a = true ∧ 7 - a.index = j := by
  have h : ∀ (as : List Axis) (flag : ℕ),
      (as.foldl (fun flag a => if p a then flag ||| 1 <<< (7 - a.index) else flag) flag).testBit j =
        (flag.testBit j || as.any (fun a => p a && decide (7 - a.index = j))) := by
    intro as
    induction as with
    | nil => simp
    | cons a as ih =>
      intro flag
      rw [List.foldl_cons, ih, List.any_cons]
      cases hp : p a with
      | false => simp
      | true => simp [Nat.testBit_or, Nat.shiftLeft_eq, Nat.testBit_two_pow, Bool.or_assoc]
  unfold setFlags
  rw [h, Bool.or_eq_true]
  simp only [List.any_eq_true, Bool.and_eq_true, decide_eq_true_eq]
  constructor
  · rintro (h0 | ⟨a, -, ha⟩)
    · exact Or.inl h0
    · exact Or.inr ⟨a, ha⟩
  · rintro (h0 | ⟨a, ha⟩)
    · exact Or.inl h0
    · exact Or.inr ⟨a, a.mem_all, ha⟩

theorem hasBit_setFlags (p : Axis → Bool) (d period : ℕ) (a : Axis) :
    hasBit a ⟨setFlags p (d &&& 0xFF00), period⟩ = p a := by
  have hlow : (d &&& 0xFF00).testBit (7 - a.index) = false := by
    have hm : (0xFF00 : ℕ).testBit (7 - a.index) = false := by cases a <;> decide
    rw [Nat.testBit_and, hm, Bool.and_false]
  rw [Bool.eq_iff_iff, hasBit, testBit_setFlags, hlow]
  constructor
  · rintro (h | ⟨b, hb, he⟩)
    · cases h
    · have h1 := a.index_lt
      have h2 := b.index_lt
      rwa [← Axis.index_injective (show b.index = a.index by omega)]
  · exact fun h => Or.inr ⟨a, h, rfl⟩

theorem dirBit_setFlags (p : Axis → Bool) (d period : ℕ) (a : Axis) :
    dirBit a ⟨setFlags p (d &&& 0xFF00), period⟩ = d.testBit (15 - a.index) := by
  have hhigh : (d &&& 0xFF00).testBit (15 - a.index) = d.testBit (15 - a.index) := by
    have hm : (0xFF00 : ℕ).testBit (15 - a.index) = true := by cases a <;> decide
    rw [Nat.testBit_and, hm, Bool.and_true]
  rw [Bool.eq_iff_iff, dirBit, testBit_setFlags, hhigh]
  constructor
  · rintro (h | ⟨b, -, he⟩)
    · exact h
    · have h1 := a.index_lt
      have h2 := b.index_lt
      omega
  · exact Or.inl

theorem testBit_motionDir (p : Axis → Bool) (a : Axis) :
    (setFlags p 0 <<< 8 % 2 ^ 16).testBit (15 - a.index) = p a := by
  have h1 := a.index_lt
  have hsub : 15 - a.index - 8 = 7 - a.index := by omega
  rw [Nat.testBit_mod_two_pow, Nat.testBit_shiftLeft, hsub, Bool.eq_iff_iff]
  simp only [Bool.and_eq_true, decide_eq_true_eq, testBit_setFlags, Nat.zero_testBit]
  constructor
  · rintro ⟨-, -, h | ⟨b, hb, he⟩⟩
    · cases h
    · have h2 := b.index_lt
      rwa [← Axis.index_injective (show b.index = a.index by omega)]
  · exact fun h => ⟨by omega, by omega, Or.inr ⟨a, h, rfl⟩⟩

end Bits

/-! ## One pass -/

section Pass

theorem turn_overrun {c : CalcState} (h : Overrun c) (i : ℕ) : turn c i = ({ c with status := .stop }, i) := by
  unfold turn
  rw [h.1]
  simp only [if_pos h.2]

/-- What every other pass leaves. -/
structure TurnSpec (c : CalcState) (t : CalcState × ℕ) : Prop where
  interval : t.2 = calculateInterval (stepRate c)
  stepsCount : t.1.stepsCount = nextStepsCount c
  axisStepsCnt : t.1.axisStepsCnt = c.axisStepsCnt
  newDeltaErr : t.1.newDeltaErr = c.newDeltaErr
  newDivident : t.1.newDivident = c.newDivident
  newDevision : t.1.newDevision = c.newDevision
  motionDir : t.1.motionDir = c.motionDir
  longestAxis : t.1.longestAxis = c.longestAxis
  stop : t.1.status = .stop → (longest c).steps ≤ nextStepsCount c
  running : t.1.status ≠ .stop → nextStepsCount c < (longest c).steps ∨ t.1.status = .decelerate

theorem turn_spec {c : CalcState} (hs : c.status ≠ .stop) (ho : ¬ Overrun c) (i : ℕ) : TurnSpec c (turn c i) := by
  unfold turn
  cases hst : c.status with
  | stop => exact absurd hst hs
  | accelerate =>
    have hr : stepRate c = accelerateRate c := by simp only [stepRate, hst]
    refine ⟨by rw [hr], rfl, rfl, rfl, rfl, rfl, rfl, rfl, ?_, ?_⟩ <;> dsimp only <;> split_ifs <;> simp <;> omega
  | uniform =>
    have hr : stepRate c = uniformRate c := by simp only [stepRate, hst]
    refine ⟨by rw [hr], rfl, rfl, rfl, rfl, rfl, rfl, rfl, ?_, ?_⟩ <;> dsimp only <;> split_ifs <;> simp <;> omega
  | decelerate =>
    have hr : stepRate c = decelerateRate c := by simp only [stepRate, hst]
    have hlt : ¬ (longest c).steps ≤ c.stepsCount := fun h => ho ⟨hst, h⟩
    simp only [if_neg hlt]
    exact ⟨by rw [hr], rfl, rfl, rfl, rfl, rfl, rfl, rfl, fun h => by simp at h, fun _ => Or.inr rfl⟩

theorem nextStepsCount_of_lt {c : CalcState} (h : c.stepsCount < c.line.planCalc.stepEventCnt)
    (hb : c.line.planCalc.stepEventCnt < 2 ^ 32) : nextStepsCount c = c.stepsCount + 1 := by
  have hsub : u32Sub c.line.planCalc.stepEventCnt c.stepsCount = c.line.planCalc.stepEventCnt - c.stepsCount :=
    u32Sub_of_le (by omega) hb
  unfold nextStepsCount
  rw [hsub]
  dsimp only
  split_ifs with h1
  · exact u32_of_lt (by omega)
  · rw [u32_of_lt (by omega)]
    omega

end Pass

/-! ## The line in progress -/

section Line

variable {l : PlanLine} {c : CalcState} {rs : List MotionPeriod}

/-- The lines the planner hands over: `StepEventCnt` is the largest step count, below `2 ^ 30`, and the line does
not start in the phase `STOP`. -/
structure StepLine (l : PlanLine) : Prop where
  stepEventCnt : l.planCalc.stepEventCnt = l.maxSteps
  maxSteps_lt : l.maxSteps < 2 ^ 30
  enterStatus : l.planCalc.enterStatus ≠ .stop

/-- The records emitted for a line have exactly its steps, in its directions. -/
def Complete (s : PlanLine × List MotionPeriod) : Prop :=
  ∀ a, s.2.countP (hasBit a) = (s.1.axis a).steps ∧
    ∀ r ∈ s.2, hasBit a r = true → (dirBit a r = true ↔ (s.1.axis a).dir = .forward)

/-- The invariant of the line `l` in progress, for which `rs` was emitted. -/
structure InLine (c : CalcState) (l : PlanLine) (rs : List MotionPeriod) : Prop where
  axis : c.line.axis = l.axis
  stepEventCnt : c.line.planCalc.stepEventCnt = l.maxSteps
  longest : (longest c).steps = l.maxSteps
  newDivident : ∀ a, c.newDivident a = 2 * ((l.axis a).steps : ℤ)
  newDevision : c.newDevision = 2 * (l.maxSteps : ℤ)
  motionDir : c.motionDir = setFlags (fun a => decide ((l.axis a).dir = .forward)) 0 <<< 8 % 2 ^ 16
  count_le : c.stepsCount ≤ l.maxSteps
  stop : c.status = .stop → c.stepsCount = l.maxSteps
  running : c.status ≠ .stop → c.stepsCount < l.maxSteps ∨ c.status = .decelerate
  axisStepsCnt : ∀ a, c.axisStepsCnt a = pulses (l.axis a).steps l.maxSteps c.stepsCount
  newDeltaErr : c.stepsCount < l.maxSteps →
    ∀ a, c.newDeltaErr a = err (l.axis a).steps l.maxSteps c.stepsCount
  bits : ∀ a, rs.countP (hasBit a) = c.axisStepsCnt a
  dirs : ∀ a, ∀ r ∈ rs, hasBit a r = true → (dirBit a r = true ↔ (l.axis a).dir = .forward)
  passes : rs.length = c.stepsCount ∨ rs.length = c.stepsCount + 1 ∧ c.status = .stop

/-- A fetched line starts with empty accumulators. -/
theorem inLine_fetch (c : CalcState) (hl : StepLine l) (hpos : 0 < l.maxSteps) :
    InLine (fetchLine 0 c l) l [] := by
  have hm : (findLongest l 0).2 = l.maxSteps := by rw [findLongest_snd, Nat.zero_max]
  have hlt := hl.maxSteps_lt
  refine ⟨rfl, hl.stepEventCnt, findLongest_fst l, fun a => ?_, ?_, rfl, Nat.zero_le _,
    fun h => absurd h hl.enterStatus, fun _ => Or.inl hpos, fun a => (pulses_zero hpos).symm, fun _ a => ?_,
    fun a => rfl, fun a r hr => absurd hr (List.not_mem_nil), Or.inl rfl⟩
  · have := l.steps_le_maxSteps a
    exact s32_of_range (by omega) (by omega)
  · simp only [fetchLine, hm]
    exact s32_of_range (by omega) (by omega)
  · simp only [fetchLine, hm]
    rw [err_zero hpos]
    exact s32_of_range (by omega) (by omega)

theorem InLine.complete (h : InLine c l rs)
    (hpos : 0 < l.maxSteps) (hk : c.stepsCount = l.maxSteps) : Complete (l, rs) := by
  refine fun a => ⟨?_, h.dirs a⟩
  rw [h.bits, h.axisStepsCnt, hk, pulses_full hpos]

theorem InLine.bits_le (h : InLine c l rs)
    (hpos : 0 < l.maxSteps) (a : Axis) : rs.countP (hasBit a) ≤ (l.axis a).steps := by
  rw [h.bits, h.axisStepsCnt]
  exact (pulses_mono _ h.count_le).trans_eq (pulses_full hpos)

/-- Whether an axis moves in a pass before the last step, and its accumulator after it. -/
theorem InLine.moves_eq {c t : CalcState} (h : InLine c l rs)
    (hlt : l.maxSteps < 2 ^ 30) (hk : c.stepsCount < l.maxSteps) (hline : t.line = c.line)
    (hcnt : t.axisStepsCnt = c.axisStepsCnt) (hdelta : t.newDeltaErr = c.newDeltaErr)
    (hdiv : t.newDivident = c.newDivident) (hdev : t.newDevision = c.newDevision) (a : Axis) :
    (moves t a = true ↔ 0 ≤ err (l.axis a).steps l.maxSteps c.stepsCount + 2 * ((l.axis a).steps : ℤ)) ∧
      (bresenhamCalc t a).2 = err (l.axis a).steps l.maxSteps (c.stepsCount + 1) := by
  have hpos : 0 < l.maxSteps := by omega
  have hs := l.steps_le_maxSteps a
  obtain ⟨h1, h2⟩ := err_range hpos (l.axis a).steps c.stepsCount
  have hsum : s32 (t.newDeltaErr a + t.newDivident a) =
      err (l.axis a).steps l.maxSteps c.stepsCount + 2 * ((l.axis a).steps : ℤ) := by
    rw [hdelta, hdiv, h.newDeltaErr hk, h.newDivident]
    exact s32_of_range (by omega) (by omega)
  have hcap : 0 ≤ err (l.axis a).steps l.maxSteps c.stepsCount + 2 * ((l.axis a).steps : ℤ) →
      c.axisStepsCnt a < (l.axis a).steps := by
    -- the pulse is one of the first `k + 1`, and there are at most `steps` of them
    intro hb
    have h3 := pulses_succ (k := c.stepsCount) hpos hs
    rw [if_pos hb] at h3
    have h4 := pulses_mono (M := l.maxSteps) (l.axis a).steps (show c.stepsCount + 1 ≤ l.maxSteps by omega)
    rw [pulses_full hpos] at h4
    rw [h.axisStepsCnt]
    omega
  constructor
  · unfold moves bresenhamCalc
    rw [hsum, hcnt, hline, h.axis]
    simp only [Bool.and_eq_true, decide_eq_true_eq]
    exact ⟨fun hb => hb.1, fun hb => ⟨hb, hcap hb⟩⟩
  · unfold bresenhamCalc
    rw [hsum, hdev, h.newDevision, err_succ hpos hs]
    dsimp only
    split_ifs with hb
    · exact s32_of_range (by omega) (by omega)
    · omega

theorem hasBit_emit (t : CalcState) (j : ℕ) (a : Axis) : hasBit a (emit t j).2 = moves t a := hasBit_setFlags _ _ _ a

theorem InLine.dirBit_emit {c t : CalcState} (h : InLine c l rs)
    (ht : t.motionDir = c.motionDir) (j : ℕ) (a : Axis) :
    dirBit a (emit t j).2 = true ↔ (l.axis a).dir = .forward := by
  unfold emit
  rw [dirBit_setFlags, ht, h.motionDir, testBit_motionDir, decide_eq_true_eq]

theorem InLine.dirs_concat (h : InLine c l rs)
    {r : MotionPeriod} (hr : ∀ a, dirBit a r = true ↔ (l.axis a).dir = .forward) :
    ∀ a, ∀ r' ∈ rs ++ [r], hasBit a r' = true → (dirBit a r' = true ↔ (l.axis a).dir = .forward) := by
  intro a r' hr' hb
  rcases List.mem_append.mp hr' with hr' | hr'
  · exact h.dirs a r' hr' hb
  · rw [List.mem_singleton.mp hr']
    exact hr a

theorem InLine.length_eq (h : InLine c l rs)
    (hs : c.status ≠ .stop) : rs.length = c.stepsCount := by
  rcases h.passes with hp | hp
  · exact hp
  · exact absurd hp.2 hs

/-- A pass when all steps are done: the guard on the step counts blocks every axis. -/
theorem inLine_overrun (h : InLine c l rs)
    (hs : c.status ≠ .stop) (ho : Overrun c) (i : ℕ) : InLine (pass c i).1 l (rs ++ [(pass c i).2]) := by
  have hk : c.stepsCount = l.maxSteps := by
    have := ho.2
    have := h.count_le
    rw [h.longest] at *
    omega
  have hno : ∀ a, moves { c with status := .stop } a = false := by
    intro a
    have hfull : ¬ c.axisStepsCnt a < (c.line.axis a).steps := by
      rw [h.axis, h.axisStepsCnt, hk]
      rcases Nat.eq_zero_or_pos l.maxSteps with h0 | hpos
      · have := l.steps_le_maxSteps a
        omega
      · rw [pulses_full hpos]
        omega
    simp only [moves, decide_eq_false hfull, Bool.and_false]
  unfold pass
  rw [turn_overrun ho]
  refine ⟨h.axis, h.stepEventCnt, h.longest, h.newDivident, h.newDevision, h.motionDir, h.count_le, fun _ => hk,
    fun hst => absurd rfl hst, fun a => ?_, fun hlt' => absurd hk (Nat.ne_of_lt hlt'), fun a => ?_,
    h.dirs_concat (h.dirBit_emit rfl _), Or.inr ⟨?_, rfl⟩⟩
  · simp only [emit, hno]
    exact h.axisStepsCnt a
  · rw [List.countP_append, List.countP_singleton, hasBit_emit, hno, h.bits]
    simp only [emit, hno]
    simp
  · rw [List.length_append, List.length_singleton, h.length_eq hs]
    rfl

/-- A pass that makes a step: every axis gets the pulses that are due after it. -/
theorem inLine_turned (h : InLine c l rs)
    (hlt : l.maxSteps < 2 ^ 30) (hs : c.status ≠ .stop) (ho : ¬ Overrun c) (i : ℕ) :
    InLine (pass c i).1 l (rs ++ [(pass c i).2]) := by
  have ht := turn_spec hs ho i
  have hline := turn_line c i
  have hk : c.stepsCount < l.maxSteps := by
    rcases h.running hs with hk | hk
    · exact hk
    · by_contra hge
      exact ho ⟨hk, by rw [h.longest]; omega⟩
  have hnext : nextStepsCount c = c.stepsCount + 1 := by
    have := h.stepEventCnt
    exact nextStepsCount_of_lt (by omega) (by omega)
  have hpos : 0 < l.maxSteps := by omega
  have hmv := h.moves_eq hlt hk hline ht.axisStepsCnt ht.newDeltaErr ht.newDivident ht.newDevision
  have hcnt : ∀ a, (emit (turn c i).1 (turn c i).2).1.axisStepsCnt a =
      pulses (l.axis a).steps l.maxSteps (c.stepsCount + 1) := by
    intro a
    rw [pulses_succ hpos (l.steps_le_maxSteps a), ← h.axisStepsCnt a]
    simp only [emit, ht.axisStepsCnt]
    by_cases hb : moves (turn c i).1 a = true
    · rw [if_pos hb, if_pos ((hmv a).1.mp hb)]
    · rw [if_neg hb, if_neg (fun hb' => hb ((hmv a).1.mpr hb')), Nat.add_zero]
  have hlong : (longest (emit (turn c i).1 (turn c i).2).1).steps = l.maxSteps := by
    have h1 : longest (emit (turn c i).1 (turn c i).2).1 = longest c := by
      simp only [longest, emit, hline, ht.longestAxis]
    rw [h1, h.longest]
  have hsc : (emit (turn c i).1 (turn c i).2).1.stepsCount = c.stepsCount + 1 := ht.stepsCount.trans hnext
  unfold pass
  refine ⟨?_, ?_, hlong, fun a => ?_, ?_, ?_, by omega, fun hst => ?_, fun hst => ?_, fun a => ?_, fun _ a => ?_,
    fun a => ?_, h.dirs_concat (h.dirBit_emit ht.motionDir _), Or.inl ?_⟩
  · rw [← h.axis, ← hline]
    rfl
  · rw [← h.stepEventCnt, ← hline]
    rfl
  · rw [← h.newDivident, ← ht.newDivident]
    rfl
  · rw [← h.newDevision, ← ht.newDevision]
    rfl
  · rw [← h.motionDir, ← ht.motionDir]
    rfl
  · have := ht.stop hst
    rw [h.longest, hnext] at this
    omega
  · have := ht.running hst
    rw [h.longest, hnext] at this
    rw [hsc]
    exact this
  · rw [hsc, hcnt]
  · rw [hsc]
    exact (hmv a).2
  · rw [List.countP_append, List.countP_singleton, hasBit_emit, h.bits, hcnt,
      pulses_succ hpos (l.steps_le_maxSteps a), h.axisStepsCnt]
    congr 1
    by_cases hb : moves (turn c i).1 a = true
    · rw [if_pos hb, if_pos ((hmv a).1.mp hb)]
    · rw [if_neg hb, if_neg (fun hb' => hb ((hmv a).1.mpr hb'))]
  · rw [List.length_append, List.length_singleton, h.length_eq hs, hsc]

/-- **One pass keeps the invariant.** -/
theorem inLine_pass (h : InLine c l rs)
    (hlt : l.maxSteps < 2 ^ 30) (hs : c.status ≠ .stop) (i : ℕ) :
    InLine (pass c i).1 l (rs ++ [(pass c i).2]) := by
  by_cases ho : Overrun c
  · exact inLine_overrun h hs ho i
  · exact inLine_turned h hlt hs ho i

end Line

/-! ## Runs -/

section Runs

/-- The lines a trace fetches, newest first, each with the records emitted before the next fetch. -/
abbrev segments (trace : List CalcEvent) : List (PlanLine × List MotionPeriod) := group (fun _ r => r) trace

/-- A line in progress: it has steps, and the invariant holds of it. -/
def InProgress (c : CalcState) (l : PlanLine) (rs : List MotionPeriod) : Prop :=
  0 < l.maxSteps ∧ l.maxSteps < 2 ^ 30 ∧ InLine c l rs

/-- A finished line: it is complete, with at most one record more than it has step events. -/
def Finished (s : PlanLine × List MotionPeriod) : Prop := Complete s ∧ s.2.length ≤ s.1.maxSteps + 1

theorem stepRule : LineRule (fun _ r => r) StepLine (fun _ => True) InProgress Finished where
  init := trivial
  skip c l _ _ h0 := by
    refine ⟨trivial, fun a => ⟨?_, by simp⟩, by simp⟩
    have := l.steps_le_maxSteps a
    simp only [List.countP_nil]
    omega
  fetch c l _ hl hpos := ⟨hpos, hl.maxSteps_lt, inLine_fetch c hl hpos⟩
  pass c l rs i hs h := ⟨h.1, h.2.1, inLine_pass h.2.2 h.2.1 hs i⟩
  finish c l rs hs h := by
    obtain ⟨hpos, -, hin⟩ := h
    have hk := hin.stop hs
    refine ⟨trivial, hin.complete hpos hk, ?_⟩
    change rs.length ≤ l.maxSteps + 1
    rcases hin.passes with hp | hp <;> omega

/-- A call with a budget works on the line in progress: it emits a record or completes the line. -/
theorem calcCall_progress {n : ℕ} (hn : 0 < n) {c : CalcState} (hu : c.line.usable = true)
    (pending : List PlanLine) :
    (∃ r es, (calcCall n c pending).trace = .pass c r :: es) ∨ (calcCall n c pending).state = finishLine c := by
  obtain ⟨n, rfl⟩ := Nat.exists_eq_succ_of_ne_zero (Nat.pos_iff_ne_zero.mp hn)
  have hnext : nextLine 0 c pending = ⟨[], 0, c, pending⟩ := by simp [nextLine, hu]
  unfold calcCall
  by_cases hs : c.status = .stop
  · right
    rw [calcLoop_finish (by rw [hnext]; exact hu) (by rw [hnext]; exact hs), hnext]
  · left
    obtain ⟨r, -, he⟩ := calcLoop_pass (n := n) (i := 0) hnext hu hs
    rw [he]
    exact ⟨_, _, rfl⟩

/-- A call with a budget that finds no line in progress fetches the oldest pending one, and emits a record for it if
it has steps. -/
theorem calcCall_fetch {n : ℕ} (hn : 0 < n) {c : CalcState} (hu : c.line.usable = false) {l : PlanLine}
    (hl : l.planCalc.enterStatus ≠ .stop) (pending : List PlanLine) :
    ∃ es, (calcCall n c (l :: pending)).trace = .fetch l :: es ∧
      (0 < l.maxSteps → ∃ r es', es = .pass (fetchLine 0 c l) r :: es') := by
  obtain ⟨n, rfl⟩ := Nat.exists_eq_succ_of_ne_zero (Nat.pos_iff_ne_zero.mp hn)
  have hnext : nextLine 0 c (l :: pending) = fetchLines 0 c (l :: pending) := by simp [nextLine, hu]
  have hstart := fetchLine_usable c l
  by_cases hpos : 0 < l.maxSteps
  · have hu' : (fetchLine 0 c l).line.usable = true := by rw [hstart, decide_eq_true hpos]
    obtain ⟨r, -, he⟩ := calcLoop_pass (n := n) (i := 0) (hnext.trans (fetchLines_usable hu')) hu' hl
    exact ⟨_, congrArg CalcResult.trace he, fun _ => ⟨_, _, rfl⟩⟩
  · -- a line without steps is skipped, and whatever follows it is fetched in the same call
    have hu' : (fetchLine 0 c l).line.usable = false := by rw [hstart, decide_eq_false hpos]
    rw [fetchLines_skip hu'] at hnext
    obtain ⟨es, he⟩ := calcLoop_trace n 0 0 c (l :: pending)
    exact ⟨_, by rw [calcCall, he, hnext]; rfl, fun h => absurd h hpos⟩

/-- What a run owes to the lines planned in it. -/
structure StepsConserved (is : List CalcInput) : Prop where
  /-- The lines are fetched in the order in which they were planned. -/
  order : planned is = (segments (calcRun is).2).reverse.map Prod.fst ++ (calcRun is).1.2
  /-- Before a line is fetched, the one before it got exactly its steps. -/
  older : ∀ s ∈ (segments (calcRun is).2).tail, Complete s
  /-- So did the newest line once it is no longer in progress. -/
  newest : ∀ s older, segments (calcRun is).2 = s :: older → (calcRun is).1.1.line.usable = false → Complete s
  /-- Until then no axis has a surplus step or one in the wrong direction. -/
  partialLine : ∀ s older, segments (calcRun is).2 = s :: older → ∀ a,
    s.2.countP (hasBit a) ≤ (s.1.axis a).steps ∧
      ∀ r ∈ s.2, hasBit a r = true → (dirBit a r = true ↔ (s.1.axis a).dir = .forward)
  /-- With no line in progress a call with a budget fetches the oldest pending line, and emits its first record; -/
  starts : (calcRun is).1.1.line.usable = false → ∀ l pending, (calcRun is).1.2 = l :: pending → ∀ n, 0 < n →
    ∃ es, (calcCall n (calcRun is).1.1 (calcRun is).1.2).trace = .fetch l :: es ∧
      (0 < l.maxSteps → ∃ r es', es = .pass (fetchLine 0 (calcRun is).1.1 l) r :: es')
  /-- every call with a budget emits a record for the line in progress or completes it, -/
  progress : (calcRun is).1.1.line.usable = true → ∀ n, 0 < n →
    (∃ r es, (calcCall n (calcRun is).1.1 (calcRun is).1.2).trace = .pass (calcRun is).1.1 r :: es) ∨
      (calcCall n (calcRun is).1.1 (calcRun is).1.2).state = finishLine (calcRun is).1.1
  /-- and a line takes at most one record more than it has step events. -/
  bounded : ∀ s older, segments (calcRun is).2 = s :: older → s.2.length ≤ s.1.maxSteps + 1

/-- **Step conservation**, in every run: for lines with any step counts, phases and rates, and any cutting into
calls. -/
theorem step_conservation (is : List CalcInput) (hp : ∀ l ∈ planned is, StepLine l) : StepsConserved is := by
  obtain ⟨h, hf⟩ := stepRule.run is hp
  have hnew : ∀ s older, segments (calcRun is).2 = s :: older →
      ((calcRun is).1.1.line.usable = false → Complete s) ∧ s.2.length ≤ s.1.maxSteps + 1 ∧
      ∀ a, s.2.countP (hasBit a) ≤ (s.1.axis a).steps ∧
        ∀ r ∈ s.2, hasBit a r = true → (dirBit a r = true ↔ (s.1.axis a).dir = .forward) := by
    intro s older he
    have hs := h.newest s older he
    cases hu : (calcRun is).1.1.line.usable with
    | true =>
      rw [if_pos hu] at hs
      obtain ⟨hpos, -, hin⟩ := hs
      have hle := hin.count_le
      refine ⟨fun hf => (by cases hf), ?_, fun a => ⟨hin.bits_le hpos a, hin.dirs a⟩⟩
      rcases hin.passes with hp | hp <;> omega
    | false =>
      rw [if_neg (by simp [hu])] at hs
      exact ⟨fun _ => hs.1, hs.2, fun a => ⟨(hs.1 a).1.le, (hs.1 a).2⟩⟩
  refine ⟨hf, fun s hs => (h.older s hs).1, fun s older he => (hnew s older he).1,
    fun s older he => (hnew s older he).2.2, fun hu l pending hpend n hn => ?_,
    fun hu n hn => calcCall_progress hn hu _, fun s older he => (hnew s older he).2.1⟩
  have hl : StepLine l := hp l (by rw [hf, hpend]; simp)
  rw [hpend]
  exact calcCall_fetch hn hu hl.enterStatus pending

/-- Three steps of X against one of Y, backwards. -/
def threeSteps : PlanLine where
  usable := true
  axis
    | .X => { dir := .forward, steps := 3, uniformStartStep := 1, decelStartStep := 2, maxSpeed := 0, maxAccel := 0,
              maxJerk := 0 }
    | .Y => { dir := .backward, steps := 1, uniformStartStep := 0, decelStartStep := 0, maxSpeed := 0, maxAccel := 0,
              maxJerk := 0 }
    | _ => { dir := .backward, steps := 0, uniformStartStep := 0, decelStartStep := 0, maxSpeed := 0, maxAccel := 0,
             maxJerk := 0 }
  planCalc := { PlanLine.zero.planCalc with enterStatus := .accelerate, stepEventCnt := 3, nominalRate := 100 }

/-- Two such lines, executed in calls of two records. -/
theorem step_conservation_threeSteps :
    StepsConserved [.plan threeSteps, .plan threeSteps, .call 2, .call 2, .call 0, .call 2, .call 2] := by
  refine step_conservation _ fun l hl => ?_
  have hl' : l = threeSteps := by simpa [planned] using hl
  rw [hl']
  exact ⟨rfl, by decide, by decide⟩

end Runs

end Cxsw.Motion
