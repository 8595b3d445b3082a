import Cxsw.CrMotion.Feasibility

/-!
# Cxsw.CrMotion.LookAheadRun — the look-ahead over whole runs

In any order: `PlanLine`, `PlanRetract`, `GetNextPlanLine`, `PlanLineBuffClear`, `FeedrateAttrSet`.

* `lookAhead_feasible`: in a run all of whose calls meet `LookAheadOk` the pending lines are feasible throughout.
* `lookAhead_skips_forward`: in a run that fills the ring the tail catches up with `SmoothIndex`, `ForwardScan`
  makes no step, and a line is left with an exit speed it cannot reach.
-/

namespace Cxsw.Motion

open LookAhead

/-! ## The calls whose look-ahead works -/

section Calls

/-- The line that a call adds to the ring, before the look-ahead runs. -/
def Planner.added (p : Planner) : PlannerCall → Option PlanLine
  | .planLine m current target =>
    if isPlanLineBuffFull p.ring then none
    else
      let p := { p with feedrate := checkFeedrate p.feedrate }
      let d := dis target current
      (stuffTail m p (cutE d) (requestLine p.feedrate d)).map Prod.fst
  | .planRetract m current target =>
    if isPlanLineBuffFull p.ring then none
    else (stuffTail m p (dis target current) (requestRetract p.feedrate)).map Prod.fst
  | .getNextPlanLine => none
  | .planLineBuffClear => none
  | .feedrateAttrSet _ => none

/-- The calls whose look-ahead works: the tail does not catch up with `SmoothIndex` while lines are pending, and the
line that is added was filled without a division by zero and may be entered at `MINIMUM_PLANNER_SPEED`. -/
def LookAheadOk (p : Planner) (c : PlannerCall) : Prop :=
  ∀ l ∈ p.added c,
    (nextPlanLineIndex p.ring.lineBuffTail = p.ring.smoothIndex → isPlanLineBuffEmpty p.ring = true) ∧
      Defined l ∧ minSqr ≤ sqr l.planCalc.maxEntrySpeed

instance (p : Planner) (c : PlannerCall) : Decidable (LookAheadOk p c) := by
  unfold LookAheadOk
  infer_instance

end Calls

/-! ## Every call keeps the invariant -/

section Runs

theorem RingOk.planBlock {m : Machine} {p : Planner} {d : Axis → ℚ} {request : ℚ × ℚ} {n : ℕ}
    (h : RingOk p.ring n) (hfull : isPlanLineBuffFull p.ring = false) (ha : 0 ≤ request.1)
    (hok : ∀ l ∈ (stuffTail m p d request).map Prod.fst,
      (nextPlanLineIndex p.ring.lineBuffTail = p.ring.smoothIndex → isPlanLineBuffEmpty p.ring = true) ∧
        Defined l ∧ minSqr ≤ sqr l.planCalc.maxEntrySpeed) :
    ∃ k, RingOk (planBlock m p d request).2.ring k := by
  unfold Motion.planBlock
  rcases hst : stuffTail m p d request with _ | ⟨line, previous⟩
  · exact ⟨n, h⟩
  · rw [hst] at hok
    obtain ⟨hs, -, hcap⟩ := hok line rfl
    have hl : Stuffed line := stuffLineBuff_stuffed ha hst
    refine ⟨n + 1, (h.push hfull hl hcap).smoothRecalc (Nat.succ_pos n) fun ht => ?_⟩
    -- the tail has caught up with `SmoothIndex`: the new line is alone
    have h0 := h.shape.isEmpty.mp (hs ht)
    omega

theorem RingOk.call {p : Planner} {n : ℕ} (h : RingOk p.ring n) {c : PlannerCall} (hok : LookAheadOk p c) :
    ∃ k, RingOk (p.call c).ring k := by
  cases c with
  | planLine m current target =>
    unfold LookAheadOk Planner.added at hok
    unfold Planner.call Motion.planLine
    dsimp only at hok ⊢
    split_ifs at hok ⊢ with hf
    · exact ⟨n, h⟩
    · refine RingOk.planBlock (n := n) ?_ ?_ (requestLine_nonneg _ _) hok
      · exact h
      · exact Bool.eq_false_iff.mpr hf
  | planRetract m current target =>
    unfold LookAheadOk Planner.added at hok
    unfold Planner.call Motion.planRetract
    dsimp only at hok ⊢
    split_ifs at hok ⊢ with hf
    · exact ⟨n, h⟩
    · exact h.planBlock (Bool.eq_false_iff.mpr hf) (requestRetract_nonneg _) hok
  | getNextPlanLine => exact h.get
  | planLineBuffClear => exact ⟨0, h.clear⟩
  | feedrateAttrSet attr => exact ⟨n, h⟩

/-- **Every run of calls that meet `LookAheadOk`** leaves the pending lines feasible: each exit speed is the next
entry speed, each entry speed is within the limit of its line, each line can reach its exit speed, and the newest
one ends at `MINIMUM_PLANNER_SPEED`. -/
theorem lookAhead_feasible {p : Planner} {calls : List PlannerCall}
    (h : Run (Guarded PlannerStep LookAheadOk) Planner.init calls p) :
    Feasible minSqr (getPlanLineBuffNum p.ring) (view p.ring.lineBuff p.ring.lineBuffHead) := by
  have hinv : ∃ n, RingOk p.ring n := by
    refine h.invariant (I := fun p => ∃ n, RingOk p.ring n) ⟨0, ringOk_init⟩ ?_
    rintro t c _ ⟨n, hn⟩ ⟨rfl, hok⟩
    exact hn.call hok
  obtain ⟨n, hn⟩ := hinv
  rw [hn.shape.num]
  exact hn.feasible

/-- Two retracts, and the first of them is taken. -/
theorem lookAhead_feasible_twoRetracts :
    let p1 := Planner.init.call (.feedrateAttrSet (retractAt 1))
    let p2 := p1.call (.planRetract exampleMachine (eAt 0) (eAt 1))
    let p3 := p2.call (.planRetract exampleMachine (eAt 1) (eAt 3))
    let p4 := p3.call .getNextPlanLine
    Feasible minSqr (getPlanLineBuffNum p4.ring) (view p4.ring.lineBuff p4.ring.lineBuffHead) := by
  intro p1 p2 p3 p4
  have h1 : LookAheadOk Planner.init (.feedrateAttrSet (retractAt 1)) := by decide +kernel
  have h2 : LookAheadOk p1 (.planRetract exampleMachine (eAt 0) (eAt 1)) := by decide +kernel
  have h3 : LookAheadOk p2 (.planRetract exampleMachine (eAt 1) (eAt 3)) := by decide +kernel
  have h4 : LookAheadOk p3 .getNextPlanLine := by decide +kernel
  exact lookAhead_feasible (((((Run.nil _).snoc ⟨rfl, h1⟩).snoc ⟨rfl, h2⟩).snoc ⟨rfl, h3⟩).snoc ⟨rfl, h4⟩)

/-- Fourteen slow short moves of the extruder, a fast short one, the first line is taken, and a fast long one. -/
def fullRing : List PlannerCall :=
  .feedrateAttrSet (retractAt 1) ::
    List.replicate 14 (.planRetract exampleMachine (eAt 0) (eAt (1 / 100))) ++
    [.feedrateAttrSet (retractAt 50), .planRetract exampleMachine (eAt 0) (eAt (3 / 100)), .getNextPlanLine,
      .planRetract exampleMachine (eAt 0) (eAt 1)]

/-- **The tail catches up with `SmoothIndex`** when the ring is full: `ForwardScan` then starts at the tail, makes no
step, and what `ReverseScan` has raised stays.  Two lines do not join, and the first of the fast ones is to gain
more speed than its length allows. -/
theorem lookAhead_skips_forward :
    let p := fullRing.foldl Planner.call Planner.init
    let c := view p.ring.lineBuff p.ring.lineBuffHead
    getPlanLineBuffNum p.ring = 15 ∧ p.ring.lineBuffTail = p.ring.smoothIndex ∧ (c 12).exit ≠ (c 13).entry ∧
      (c 13).reach < |(c 14).entry - (c 13).entry| ∧
      ¬ Feasible minSqr (getPlanLineBuffNum p.ring) (view p.ring.lineBuff p.ring.lineBuffHead) := by
  have hfacts : let p := fullRing.foldl Planner.call Planner.init
      let c := view p.ring.lineBuff p.ring.lineBuffHead
      getPlanLineBuffNum p.ring = 15 ∧ p.ring.lineBuffTail = p.ring.smoothIndex ∧ (c 12).exit ≠ (c 13).entry ∧
        (c 13).reach < |(c 14).entry - (c 13).entry| := by
    decide +kernel
  obtain ⟨h1, h2, h3, h4⟩ := hfacts
  refine ⟨h1, h2, h3, h4, fun h => h3 (h.join 12 ?_)⟩
  rw [h1]
  decide

end Runs

end Cxsw.Motion
