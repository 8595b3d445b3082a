import Cxsw.CrMotion.LookAheadRun

/-!
# Cxsw.CrMotion.Junction — the speeds at which lines are handed over

The step generator goes from one line to the next without a pause, so the entry speed of a line has to be the exit
speed of the one before.  `ReverseScan` is to leave a line alone whose predecessor has been consumed; it looks at the
predecessor only after it has adjusted the line.

* `Junctions`: the planner, and what was handed out of the ring before the line at its head.
* `JunctionKept`: the lines meet, and re-planning leaves the entry of a line whose predecessor has been fetched.
* `junctions_kept`: so it is in every run whose insertions find the head settled; `head_entry_iff`: no less will do.
* `short_line_raised`: a run in which two lines do not meet.
-/

namespace Cxsw.Motion

open LookAhead

/-! ## Junctions -/

section Defs

/-- The planner, and what was handed out of the ring before the line at its head. -/
structure Junctions where
  planner : Planner
  /-- The line before the one at the head has been fetched. -/
  fetched : Bool
  /-- The exit speed with which a line was fetched, and no clear since. -/
  handed : Option ℚ

/-- After power-on. -/
def Junctions.init : Junctions := ⟨Planner.init, false, none⟩

/-- The state after a call. -/
def Junctions.call (s : Junctions) (c : PlannerCall) : Junctions :=
  match c with
  | .getNextPlanLine =>
    match (getNextPlanLine s.planner.ring).1 with
    | some line => ⟨s.planner.call c, true, some line.planCalc.exitSpeedSqr⟩
    | none => { s with planner := s.planner.call c }
  | .planLineBuffClear => ⟨s.planner.call c, s.fetched && isPlanLineBuffEmpty s.planner.ring, none⟩
  | c => { s with planner := s.planner.call c }

/-- The entry speed of the line at the head. -/
def headEntry (g : PlanRing) : ℚ := (g.lineBuff g.lineBuffHead).planCalc.entrySpeedSqr

/-- **What a call owes to the junctions.**  A line is fetched with the entry speed that is the exit speed of the line
fetched directly before; an insertion does not re-plan the entry of a line whose predecessor has been fetched. -/
def JunctionKept (s : Junctions) (c : PlannerCall) : Prop :=
  match c with
  | .getNextPlanLine =>
    ∀ line ∈ (getNextPlanLine s.planner.ring).1, ∀ v ∈ s.handed, line.planCalc.entrySpeedSqr = v
  | c => s.fetched = true → ∀ l ∈ s.planner.added c,
    headEntry (s.planner.call c).ring = headEntry (pushLine s.planner.ring l)

instance (s : Junctions) (c : PlannerCall) : Decidable (JunctionKept s c) := by
  unfold JunctionKept
  cases c <;> infer_instance

/-- `ReverseScan` does not come to the line at the head, as `SmoothIndex` is a pending line, or that line is settled: it
or a line further on enters at its maximum, and those before at what braking to the next entry allows. -/
def HeadSettled (g : PlanRing) : Prop :=
  (∃ p < getPlanLineBuffNum g, g.smoothIndex = slot g.lineBuffHead p) ∨
    Settled minSqr (view g.lineBuff g.lineBuffHead) (getPlanLineBuffNum g) 0

/-- Every line after one that enters at its maximum is settled. -/
def CapsSettled (g : PlanRing) : Prop :=
  ∀ j < getPlanLineBuffNum g,
    (view g.lineBuff g.lineBuffHead j).entry = (view g.lineBuff g.lineBuffHead j).cap →
      Settled minSqr (view g.lineBuff g.lineBuffHead) (getPlanLineBuffNum g - (j + 1)) (j + 1)

/-- The calls that keep the junctions: the line that is added was filled without a division by zero and finds the head
settled if the line before it has been fetched, and where `ForwardScan` makes no step there is nothing for it to
repair. -/
def JunctionOk (s : Junctions) (c : PlannerCall) : Prop :=
  ∀ l ∈ s.planner.added c, Defined l ∧
    (s.fetched = true → HeadSettled (pushLine s.planner.ring l)) ∧
      ((pushLine s.planner.ring l).smoothIndex = (pushLine s.planner.ring l).lineBuffTail →
        CapsSettled (pushLine s.planner.ring l))

instance (g : PlanRing) : Decidable (HeadSettled g) := by
  unfold HeadSettled
  infer_instance

instance (g : PlanRing) : Decidable (CapsSettled g) := by
  unfold CapsSettled
  infer_instance

instance (s : Junctions) (c : PlannerCall) : Decidable (JunctionOk s c) := by
  unfold JunctionOk
  infer_instance

end Defs

/-! ## What re-planning does to the head and to the junctions -/

section Replan

variable {g : PlanRing} {n : ℕ} {e : ℕ → Seg ℚ}

theorem headEntry_eq (h : RingShape g n) : headEntry g = (view g.lineBuff g.lineBuffHead 0).entry := by
  unfold headEntry view seg
  rw [slot_zero h.head]

theorem pending_iff (h : RingShape g n) {so : ℕ} (hso : so < 16) (hs : g.smoothIndex = slot g.lineBuffHead so) :
    (∃ p < getPlanLineBuffNum g, g.smoothIndex = slot g.lineBuffHead p) ↔ so < n := by
  have hle := h.le
  rw [h.num]
  constructor
  · rintro ⟨p, hp, he⟩
    rw [slot_injective g.lineBuffHead hso (by omega) (hs.symm.trans he)]
    exact hp
  · exact fun hlt => ⟨so, hlt, hs⟩

theorem entry_of_headSettled (h : RingShape g n) (hn : 0 < n) {d : ℕ → Seg ℚ}
    (hb : WalkBack minSqr n (view g.lineBuff g.lineBuffHead) 0 d)
    (hs : Settled minSqr (view g.lineBuff g.lineBuffHead) (getPlanLineBuffNum g) 0) :
    (d 0).entry = (view g.lineBuff g.lineBuffHead 0).entry := by
  obtain ⟨m, rfl⟩ : ∃ m, n = m + 1 := ⟨n - 1, by omega⟩
  rw [h.num] at hs
  exact hb.entry_of_settled le_rfl (by omega) hs

/-- **A settled head** keeps its entry. -/
theorem Replanned.headSettled (hrep : Replanned g n e) (h : RingShape g n) (hn : 0 < n) (hok : HeadSettled g) :
    (e 0).entry = (view g.lineBuff g.lineBuffHead 0).entry := by
  have hle := h.le
  cases hrep with
  | pending _ _ hb hf =>
    rw [(hf.entry_eq (Nat.zero_le _) hn).2, hb.rest (Nat.succ_pos _)]
  | free hso hlt hsmooth hb hf =>
    rcases hok with hp | hs
    · have := (pending_iff h hlt hsmooth).mp hp
      omega
    · rw [(hf.entry_eq le_rfl hn).2]
      exact entry_of_headSettled h hn hb hs
  | caughtUp hsmooth hb =>
    rcases hok with hp | hs
    · have := (pending_iff h (by omega) (hsmooth.trans h.tail)).mp hp
      omega
    · exact entry_of_headSettled h hn hb hs

/-- **Re-planning keeps the chain linked.** -/
theorem Replanned.linked (hrep : Replanned g n e) (h : RingShape g n) (hn : 0 < n)
    (hl : Linked minSqr n (view g.lineBuff g.lineBuffHead))
    (hcaps : g.smoothIndex = g.lineBuffTail → CapsSettled g) : Linked minSqr n e := by
  cases hrep with
  | pending _ _ hb hf => exact hl.walks hb hf hn (Or.inl (Nat.lt_succ_self _))
  | free _ _ _ hb hf => exact hl.walks hb hf hn (Or.inr rfl)
  | caughtUp hsmooth hb =>
    refine hl.walkBack hb fun j hj hcap => ?_
    have hs := hcaps hsmooth j (by rw [h.num]; omega) hcap
    obtain ⟨m, rfl⟩ : ∃ m, n = j + 1 + (m + 1) := ⟨n - j - 2, by omega⟩
    rw [h.num, Nat.add_sub_cancel_left] at hs
    exact hb.entry_of_settled (Nat.zero_le _) rfl hs

/-- **No less will do**: where the pending lines are feasible, re-planning leaves the entry of the head exactly if that
is settled. -/
theorem head_entry_iff (h : RingOk g n) (hn : 0 < n) : headEntry (smoothRecalc g) = headEntry g ↔ HeadSettled g := by
  have hle := h.le
  obtain ⟨hshape, hrep⟩ := h.shape.smoothRecalc hn
  rw [headEntry_eq hshape, headEntry_eq h.shape, smoothRecalc_head]
  refine ⟨fun heq => ?_, hrep.headSettled h.shape hn⟩
  obtain ⟨m, rfl⟩ : ∃ m, n = m + 1 := ⟨n - 1, by omega⟩
  have hbrake : Braking minSqr (m + 1) (view g.lineBuff g.lineBuffHead) :=
    h.feasible.braking fun j hj => (abs_nonneg _).trans (h.feasible.reach j hj)
  unfold HeadSettled
  cases hrep with
  | pending hp hs _ _ => exact Or.inl ((pending_iff h.shape (by omega) hs).mpr hp)
  | free _ _ _ hb hf =>
    rw [(hf.entry_eq le_rfl hn).2] at heq
    rw [h.shape.num]
    exact Or.inr ((hb.entry_eq_iff hbrake (Nat.zero_add _)).mp heq)
  | caughtUp _ hb =>
    rw [h.shape.num]
    exact Or.inr ((hb.entry_eq_iff hbrake (Nat.zero_add _)).mp heq)

end Replan

/-! ## Every run -/

section Runs

/-- **The invariant.**  The pending lines are linked, and the head enters as the line before it was handed over. -/
structure JunctionInv (s : Junctions) (n : ℕ) : Prop where
  shape : RingShape s.planner.ring n
  linked : Linked minSqr n (view s.planner.ring.lineBuff s.planner.ring.lineBuffHead)
  handed : ∀ v ∈ s.handed, s.fetched = true ∧ v = if n = 0 then minSqr else headEntry s.planner.ring

theorem junctionInv_init : JunctionInv Junctions.init 0 where
  shape := ringShape_init
  linked := linked_zero _ _
  handed v hv := by cases hv

theorem JunctionInv.insert {s : Junctions} {n : ℕ} (h : JunctionInv s n) {p : Planner} {l : PlanLine}
    (hring : p.ring = smoothRecalc (pushLine s.planner.ring l)) (hfull : isPlanLineBuffFull s.planner.ring = false)
    (hl : Stuffed l) (hhead : s.fetched = true → HeadSettled (pushLine s.planner.ring l))
    (hcaps : (pushLine s.planner.ring l).smoothIndex = (pushLine s.planner.ring l).lineBuffTail →
      CapsSettled (pushLine s.planner.ring l)) :
    JunctionInv { s with planner := p } (n + 1) ∧
      (s.fetched = true → headEntry p.ring = headEntry (pushLine s.planner.ring l)) := by
  obtain ⟨hshape, hview, hlast⟩ := h.shape.push hfull l
  have hlinked := h.linked.push hview ((congrArg Seg.entry hlast).trans hl.entrySpeedSqr)
    ((congrArg Seg.exit hlast).trans hl.exitSpeedSqr)
  obtain ⟨hshape', hrep⟩ := hshape.smoothRecalc (Nat.succ_pos n)
  have hkept : s.fetched = true → headEntry p.ring = headEntry (pushLine s.planner.ring l) := by
    intro hf
    rw [hring, headEntry_eq hshape', headEntry_eq hshape, smoothRecalc_head]
    exact hrep.headSettled hshape (Nat.succ_pos n) (hhead hf)
  refine ⟨⟨?_, ?_, fun v hv => ?_⟩, hkept⟩
  · rw [hring]
    exact hshape'
  · rw [hring, smoothRecalc_head]
    exact hrep.linked hshape (Nat.succ_pos n) hlinked hcaps
  · obtain ⟨hf, hv⟩ := h.handed v hv
    refine ⟨hf, ?_⟩
    rw [if_neg (Nat.succ_ne_zero n)]
    refine hv.trans (Eq.trans ?_ (hkept hf).symm)
    rw [headEntry_eq hshape]
    rcases Nat.eq_zero_or_pos n with rfl | hpos
    · rw [if_pos rfl]
      exact ((congrArg Seg.entry hlast).trans hl.entrySpeedSqr).symm
    · rw [if_neg hpos.ne', headEntry_eq h.shape]
      exact (congrArg Seg.entry (hview 0 hpos)).symm

theorem JunctionInv.planBlock {s : Junctions} {n : ℕ} (h : JunctionInv s n) {m : Machine} {p : Planner}
    (hp : p.ring = s.planner.ring) {d : Axis → ℚ} {request : ℚ × ℚ} (hfull : isPlanLineBuffFull p.ring = false)
    (ha : 0 ≤ request.1)
    (hok : ∀ l ∈ (stuffTail m p d request).map Prod.fst, Defined l ∧
      (s.fetched = true → HeadSettled (pushLine s.planner.ring l)) ∧
        ((pushLine s.planner.ring l).smoothIndex = (pushLine s.planner.ring l).lineBuffTail →
          CapsSettled (pushLine s.planner.ring l))) :
    (∃ k, JunctionInv { s with planner := (planBlock m p d request).2 } k) ∧
      (s.fetched = true → ∀ l ∈ (stuffTail m p d request).map Prod.fst,
        headEntry (planBlock m p d request).2.ring = headEntry (pushLine s.planner.ring l)) := by
  unfold Motion.planBlock
  rcases hst : stuffTail m p d request with _ | ⟨line, previous⟩
  · refine ⟨⟨n, ?_, ?_, ?_⟩, fun _ l hl => by cases hl⟩
    · rw [hp]
      exact h.shape
    · rw [hp]
      exact h.linked
    · rw [hp]
      exact h.handed
  · rw [hst] at hok
    obtain ⟨-, hhead, hcaps⟩ := hok line rfl
    rw [hp] at hfull
    obtain ⟨hinv, hkept⟩ := h.insert (p := { p with ring := smoothRecalc (pushLine p.ring line), previous := previous })
      (by rw [hp]) hfull (stuffLineBuff_stuffed ha hst) hhead hcaps
    refine ⟨⟨n + 1, hinv⟩, fun hf l hl => ?_⟩
    obtain rfl : line = l := Option.some.inj hl
    exact hkept hf

theorem JunctionInv.call {s : Junctions} {n : ℕ} (h : JunctionInv s n) {c : PlannerCall} (hok : JunctionOk s c) :
    (∃ k, JunctionInv (s.call c) k) ∧ JunctionKept s c := by
  cases c with
  | planLine m current target =>
    unfold JunctionOk Planner.added at hok
    unfold Junctions.call JunctionKept Planner.call Planner.added Motion.planLine
    dsimp only at hok ⊢
    split_ifs at hok ⊢ with hf
    · exact ⟨⟨n, h⟩, fun _ l hl => by cases hl⟩
    · refine h.planBlock (p := { s.planner with feedrate := checkFeedrate s.planner.feedrate }) rfl ?_
        (requestLine_nonneg _ _) hok
      exact Bool.eq_false_iff.mpr hf
  | planRetract m current target =>
    unfold JunctionOk Planner.added at hok
    unfold Junctions.call JunctionKept Planner.call Planner.added Motion.planRetract
    dsimp only at hok ⊢
    split_ifs at hok ⊢ with hf
    · exact ⟨⟨n, h⟩, fun _ l hl => by cases hl⟩
    · exact h.planBlock rfl (Bool.eq_false_iff.mpr hf) (requestRetract_nonneg _) hok
  | getNextPlanLine =>
    unfold Junctions.call JunctionKept Planner.call
    dsimp only
    cases n with
    | zero =>
      rw [h.shape.get_empty]
      exact ⟨⟨0, h⟩, fun line hl => by cases hl⟩
    | succ n =>
      obtain ⟨g', he, hshape, hview⟩ := h.shape.get
      have hentry := headEntry_eq h.shape
      rw [he]
      refine ⟨⟨n, hshape, h.linked.tail hview, fun v hv => ⟨rfl, ?_⟩⟩, fun line hline v hv => ?_⟩
      · -- the exit of the line that is taken is the entry of the next one
        obtain rfl := Option.some.inj hv
        have hexit : (s.planner.ring.lineBuff s.planner.ring.lineBuffHead).planCalc.exitSpeedSqr =
            (view s.planner.ring.lineBuff s.planner.ring.lineBuffHead 0).exit := by
          unfold view seg
          rw [slot_zero h.shape.head]
        refine hexit.trans ?_
        rcases Nat.eq_zero_or_pos n with rfl | hpos
        · rw [if_pos rfl]
          exact h.linked.last 0 rfl
        · rw [if_neg hpos.ne', headEntry_eq hshape, hview 0 hpos]
          exact h.linked.join 0 (by omega)
      · obtain rfl := Option.some.inj hline
        obtain ⟨_, hv'⟩ := h.handed v hv
        rw [if_neg (Nat.succ_ne_zero n)] at hv'
        exact hv'.symm
  | planLineBuffClear =>
    refine ⟨⟨0, h.shape.clear, linked_zero _ _, fun v hv => by cases hv⟩, fun _ l hl => by cases hl⟩
  | feedrateAttrSet attr => exact ⟨⟨n, h.shape, h.linked, h.handed⟩, fun _ l hl => by cases hl⟩

/-- **Every run of calls that meet `JunctionOk`** hands the lines over so that they meet, and re-plans no entry of a
line whose predecessor has been fetched. -/
theorem junctions_kept {calls : List PlannerCall} (h : AllSteps Junctions.call JunctionOk Junctions.init calls) :
    AllSteps Junctions.call JunctionKept Junctions.init calls := by
  refine AllSteps.of_invariant (I := fun s => ∃ n, JunctionInv s n) ?_ ⟨0, junctionInv_init⟩ h
  rintro s c ⟨n, hn⟩ hok
  exact hn.call hok

/-- Two slow lines, the first of them is fetched, a third is added, and the second is fetched. -/
theorem junctions_kept_slow :
    let calls : List PlannerCall := [.feedrateAttrSet (retractAt 1), .planRetract exampleMachine (eAt 0) (eAt 1),
      .planRetract exampleMachine (eAt 1) (eAt 2), .getNextPlanLine, .planRetract exampleMachine (eAt 2) (eAt 3),
      .getNextPlanLine]
    AllSteps Junctions.call JunctionKept Junctions.init calls :=
  junctions_kept (by decide +kernel)

/-- A fast long line and a short one, the first is fetched, a long one is added, and the short one is fetched. -/
def raisedRun : List PlannerCall :=
  [.feedrateAttrSet (retractAt 50), .planRetract exampleMachine (eAt 0) (eAt 1),
    .planRetract exampleMachine (eAt 1) (eAt (103 / 100)), .getNextPlanLine,
    .planRetract exampleMachine (eAt (103 / 100)) (eAt 3), .getNextPlanLine]

/-- **The line at the head is raised**: the first line is handed over with the exit speed to which the short one could
brake when it was the last; then a line is added behind it, and the short one is fetched with a higher entry speed. -/
theorem short_line_raised :
    ¬ AllSteps Junctions.call JunctionKept Junctions.init raisedRun ∧
      ((raisedRun.take 5).foldl Junctions.call Junctions.init).handed = some (24001 / 400) ∧
      ((getNextPlanLine ((raisedRun.take 5).foldl Junctions.call Junctions.init).planner.ring).1.map fun l =>
        l.planCalc.entrySpeedSqr) = some 2500 := by
  decide +kernel

end Runs

end Cxsw.Motion
