import Cxsw.Lib.Run
import Cxsw.CrMotion.CrMotionPlanner

/-!
# Cxsw.CrMotion.HandedOut — the lines that reach the step generator

Whatever the look-ahead does with the speeds of a line, `GetNextPlanLine` hands over what `StuffLineBuff` and
`CalculateForLine` made of it.

* `Keeps Q`: the adjustments of a slot keep `Q`; then so does `SmoothRecalc` (`Keeps.smoothRecalc`).
* `Executable`: what `Calc` may rely on.
* `handedOut_executable`: every line handed over in any run of the planner is executable.
-/

namespace Cxsw.Motion

/-! ## What every adjustment keeps -/

section Keeps

variable {Q : PlanLine → Prop}

/-- Every adjustment of a slot keeps `Q`. -/
structure Keeps (Q : PlanLine → Prop) : Prop where
  reverse : ∀ l next, Q l → Q (reverseAdjust l next)
  forward : ∀ p c, Q p → Q c → Q (forwardAdjust p c).1 ∧ Q (forwardAdjust p c).2
  phases : ∀ l, Q l → Q (calculateForLine l)
  consume : ∀ l, Q l → Q { l with usable := false }

theorem update_slots {buff : ℕ → PlanLine} (h : ∀ k, Q (buff k)) {l : PlanLine} (hl : Q l) (i : ℕ) :
    ∀ k, Q (Function.update buff i l k) := by
  intro k
  rcases eq_or_ne k i with rfl | hk
  · rw [Function.update_self]
    exact hl
  · rw [Function.update_of_ne hk]
    exact h k

theorem Keeps.reverseLoop (hQ : Keeps Q) (smooth : ℕ) :
    ∀ (fuel : ℕ) (buff : ℕ → PlanLine) (index : ℕ) (next : Option ℕ), (∀ k, Q (buff k)) →
      ∀ k, Q (reverseLoop smooth fuel buff index next k)
  | 0, _, _, _, h => h
  | fuel + 1, buff, index, next, h => by
    have h1 := update_slots h (hQ.reverse _ (next.map buff) (h index)) index
    unfold Motion.reverseLoop
    dsimp only
    split_ifs
    · exact h
    · exact hQ.reverseLoop smooth fuel _ _ _ h1
    · exact h1

theorem Keeps.forwardLoop (hQ : Keeps Q) (tail : ℕ) :
    ∀ (fuel : ℕ) (buff : ℕ → PlanLine) (smooth index : ℕ) (previous : Option ℕ), (∀ k, Q (buff k)) →
      ∀ k, Q ((forwardLoop tail fuel buff smooth index previous).1 k)
  | 0, _, _, _, _, h => h
  | fuel + 1, buff, smooth, index, previous, h => by
    unfold Motion.forwardLoop
    dsimp only
    split_ifs
    · exact h
    · cases previous with
      | none => exact hQ.forwardLoop tail fuel _ _ _ _ h
      | some p =>
        obtain ⟨h1, h2⟩ := hQ.forward _ _ (h p) (h index)
        exact hQ.forwardLoop tail fuel _ _ _ _ (update_slots (update_slots h h1 p) h2 index)
    · exact hQ.forwardLoop tail fuel _ _ _ _ h

theorem Keeps.trapezoidLoop (hQ : Keeps Q) (tail : ℕ) :
    ∀ (fuel : ℕ) (buff : ℕ → PlanLine) (index : ℕ), (∀ k, Q (buff k)) →
      ∀ k, Q (trapezoidLoop tail fuel buff index k)
  | 0, _, _, h => h
  | fuel + 1, buff, index, h => by
    unfold Motion.trapezoidLoop
    dsimp only
    split_ifs
    · exact h
    · exact hQ.trapezoidLoop tail fuel _ _ (update_slots h (hQ.phases _ (h index)) index)
    · exact hQ.trapezoidLoop tail fuel _ _ h

theorem Keeps.clearLoop (hQ : Keeps Q) (tail : ℕ) :
    ∀ (fuel : ℕ) (buff : ℕ → PlanLine) (head : ℕ), (∀ k, Q (buff k)) →
      ∀ k, Q ((clearLoop tail fuel buff head).1 k)
  | 0, _, _, h => h
  | fuel + 1, buff, head, h => by
    unfold Motion.clearLoop
    split_ifs
    · exact h
    · exact hQ.clearLoop tail fuel _ _ (update_slots h (hQ.consume _ (h head)) head)

/-- The look-ahead keeps what its adjustments keep. -/
theorem Keeps.smoothRecalc (hQ : Keeps Q) {g : PlanRing} (h : ∀ k, Q (g.lineBuff k)) :
    ∀ k, Q ((smoothRecalc g).lineBuff k) := by
  unfold Motion.smoothRecalc trapezoidCalculate
  dsimp only
  refine hQ.trapezoidLoop _ _ _ _ ?_
  split_ifs
  · exact hQ.forwardLoop _ _ _ _ _ _ (hQ.reverseLoop _ _ _ _ _ h)
  · exact h

end Keeps

/-! ## Executable lines -/

section Executable

/-- What `Calc` may rely on: `StepEventCnt` is the largest step count and fits an `S32`, and the line starts in the
phase `ACCELERATE`.  `EntryRate` and `ExitRate` are never written and stay zero. -/
structure Executable (l : PlanLine) : Prop where
  stepEventCnt : l.planCalc.stepEventCnt = l.maxSteps
  maxSteps_lt : l.maxSteps < 2 ^ 31
  enterStatus : l.planCalc.enterStatus = .accelerate
  entryRate : l.planCalc.entryRate = 0
  exitRate : l.planCalc.exitRate = 0

/-- The invariant of the slots; a slot that is not usable may hold anything but the two rates. -/
structure SlotOk (l : PlanLine) : Prop where
  entryRate : l.planCalc.entryRate = 0
  exitRate : l.planCalc.exitRate = 0
  usable : l.usable = true → Executable l

/-- `CalculateForLine` leaves the step counts alone. -/
theorem calculateForLine_maxSteps (l : PlanLine) : (calculateForLine l).maxSteps = l.maxSteps := by
  have h : ∀ a, ((calculateForLine l).axis a).steps = (l.axis a).steps := by
    intro a
    unfold calculateForLine
    dsimp only
    split_ifs <;> rfl
  unfold PlanLine.maxSteps
  rw [h, h, h, h]

theorem Executable.calculateForLine {l : PlanLine} (h : Executable l) : Executable (calculateForLine l) where
  stepEventCnt := h.stepEventCnt.trans (calculateForLine_maxSteps l).symm
  maxSteps_lt := (calculateForLine_maxSteps l).trans_lt h.maxSteps_lt
  enterStatus := rfl
  entryRate := h.entryRate
  exitRate := h.exitRate

/-- The look-ahead does not touch what a line is executed by. -/
theorem keeps_slotOk : Keeps SlotOk where
  reverse l next h :=
    ⟨h.entryRate, h.exitRate, fun hu =>
      let e := h.usable hu
      ⟨e.stepEventCnt, e.maxSteps_lt, e.enterStatus, e.entryRate, e.exitRate⟩⟩
  forward p c hp hc :=
    ⟨⟨hp.entryRate, hp.exitRate, fun hu =>
      let e := hp.usable hu
      ⟨e.stepEventCnt, e.maxSteps_lt, e.enterStatus, e.entryRate, e.exitRate⟩⟩,
    ⟨hc.entryRate, hc.exitRate, fun hu =>
      let e := hc.usable hu
      ⟨e.stepEventCnt, e.maxSteps_lt, e.enterStatus, e.entryRate, e.exitRate⟩⟩⟩
  phases l h := ⟨h.entryRate, h.exitRate, fun hu => (h.usable hu).calculateForLine⟩
  consume l h := ⟨h.entryRate, h.exitRate, fun hu => by cases hu⟩

theorem slotOk_planBlock {m : Machine} {p : Planner} {d : Axis → ℚ} {request : ℚ × ℚ} (ha : 0 ≤ request.1)
    (h : ∀ k, SlotOk (p.ring.lineBuff k)) : ∀ k, SlotOk ((planBlock m p d request).2.ring.lineBuff k) := by
  unfold planBlock
  rcases hst : stuffTail m p d request with _ | ⟨line, previous⟩
  · exact h
  · refine keeps_slotOk.smoothRecalc (update_slots h ?_ _)
    have hl : Stuffed line := stuffLineBuff_stuffed ha hst
    -- `StuffLineBuff` does not write the two rates either
    have hrates : line.planCalc.entryRate = 0 ∧ line.planCalc.exitRate = 0 := by
      obtain ⟨attr, -, he⟩ := Option.map_eq_some_iff.mp hst
      have h1 := congrArg (fun r => (Prod.fst r).planCalc.entryRate) he
      have h2 := congrArg (fun r => (Prod.fst r).planCalc.exitRate) he
      exact ⟨h1.symm.trans (h p.ring.lineBuffTail).entryRate, h2.symm.trans (h p.ring.lineBuffTail).exitRate⟩
    exact ⟨hrates.1, hrates.2, fun _ => ⟨hl.stepEventCnt, hl.maxSteps_lt, hl.enterStatus, hrates.1, hrates.2⟩⟩

theorem slotOk_call {p : Planner} (c : PlannerCall) (h : ∀ k, SlotOk (p.ring.lineBuff k)) :
    ∀ k, SlotOk ((p.call c).ring.lineBuff k) := by
  cases c with
  | planLine m current target =>
    unfold Planner.call planLine
    dsimp only
    split_ifs
    · exact h
    · exact slotOk_planBlock (requestLine_nonneg _ _) h
  | planRetract m current target =>
    unfold Planner.call planRetract
    dsimp only
    split_ifs
    · exact h
    · exact slotOk_planBlock (requestRetract_nonneg _) h
  | getNextPlanLine =>
    unfold Planner.call getNextPlanLine
    dsimp only
    split_ifs
    · exact h
    · exact update_slots h (keeps_slotOk.consume _ (h _)) _
    · exact h
  | planLineBuffClear => exact keeps_slotOk.clearLoop _ _ _ _ h
  | feedrateAttrSet attr => exact h

/-- **Every line that reaches the step generator**, in any run of the planner, is executable. -/
theorem handedOut_executable {p : Planner} {calls : List PlannerCall} (h : Run PlannerStep Planner.init calls p)
    {l : PlanLine} (hl : (getNextPlanLine p.ring).1 = some l) : Executable l := by
  have hslots : ∀ k, SlotOk (p.ring.lineBuff k) := by
    refine h.invariant (I := fun p => ∀ k, SlotOk (p.ring.lineBuff k)) (fun k => ⟨rfl, rfl, fun hu => by cases hu⟩) ?_
    rintro t c _ ht rfl
    exact slotOk_call c ht
  unfold getNextPlanLine at hl
  dsimp only at hl
  split_ifs at hl with he hu
  have hx := (hslots p.ring.lineBuffHead).usable hu
  rw [← Option.some.inj hl]
  exact ⟨hx.stepEventCnt, hx.maxSteps_lt, hx.enterStatus, hx.entryRate, hx.exitRate⟩

/-- The same of a line that is there. -/
theorem handedOut_getD {p : Planner} {calls : List PlannerCall} (h : Run PlannerStep Planner.init calls p)
    (hsome : (getNextPlanLine p.ring).1.isSome = true) :
    Executable ((getNextPlanLine p.ring).1.getD PlanLine.zero) := by
  obtain ⟨l, hl⟩ := Option.isSome_iff_exists.mp hsome
  rw [hl]
  exact handedOut_executable h hl

end Executable

end Cxsw.Motion
