import Cxsw.Lib.LookAhead
import Cxsw.Lib.Run
import Cxsw.CrMotion.CrMotionPlanner

/-!
# Cxsw.CrMotion.Feasibility — the look-ahead leaves speeds that can be executed

The pending lines, from the head of the ring to its tail, are a chain in the sense of `LookAhead`: the reach of a
line is `2 a s`, its cap the square of `MaxEntrySpeed`, the floor the square of `MINIMUM_PLANNER_SPEED`.  The loops
of `ReverseScan` and `ForwardScan` take the steps of the two walks.

* `RingShape g n`: `n` lines are pending and they are the usable ones; `Replanned` says which walks `SmoothRecalc` makes
  over their chain.
* `RingOk g n`: their chain is feasible as well.
* `smoothRecalc_ok`: `SmoothRecalc` keeps this, unless the tail has caught up with `SmoothIndex`.
* `lookAhead_feasible`: so it holds in every run in which that does not happen and no line is slower than
  `MINIMUM_PLANNER_SPEED` allows.
* `lookAhead_skips_forward`: a run in which it does happen, and a line is left with an exit it cannot reach.
-/

namespace Cxsw.Motion

open LookAhead

/-! ## Pending lines as a chain -/

section View

/-- The slot `j` places after `head`. -/
def slot (head j : ℕ) : ℕ := (head + j) % buffMaxSize

/-- The square of `MINIMUM_PLANNER_SPEED`. -/
abbrev minSqr : ℚ := sqr minimumPlannerSpeed

/-- A line as a segment. -/
def seg (l : PlanLine) : Seg ℚ where
  entry := l.planCalc.entrySpeedSqr
  exit := l.planCalc.exitSpeedSqr
  reach := 2 * l.planCalc.acceleration * l.planCalc.lineLength
  cap := sqr l.planCalc.maxEntrySpeed

/-- The slots from `head` on as a chain. -/
def view (buff : ℕ → PlanLine) (head : ℕ) : ℕ → Seg ℚ := fun j => seg (buff (slot head j))

theorem slot_lt (head j : ℕ) : slot head j < 16 := Nat.mod_lt _ (by decide)

theorem slot_injective (head : ℕ) {i j : ℕ} (hi : i < 16) (hj : j < 16) (h : slot head i = slot head j) : i = j := by
  unfold slot buffMaxSize at h
  omega

theorem next_slot (head j : ℕ) : nextPlanLineIndex (slot head j) = slot head (j + 1) := by
  unfold nextPlanLineIndex slot buffMaxSize
  omega

theorem prev_slot_succ (head j : ℕ) : prevPlanLineIndex (slot head (j + 1)) = slot head j := by
  unfold prevPlanLineIndex slot buffMaxSize
  omega

theorem prev_slot_zero (head : ℕ) : prevPlanLineIndex (slot head 0) = slot head 15 := by
  unfold prevPlanLineIndex slot buffMaxSize
  omega

theorem slot_wrap (head : ℕ) : slot head 16 = slot head 0 := by
  unfold slot buffMaxSize
  omega

theorem slot_zero {head : ℕ} (h : head < 16) : slot head 0 = head := by
  unfold slot buffMaxSize
  omega

theorem exists_slot (head : ℕ) {i : ℕ} (hh : head < 16) (hi : i < 16) : ∃ j, j < 16 ∧ i = slot head j :=
  ⟨(i + 16 - head) % 16, Nat.mod_lt _ (by decide), by unfold slot buffMaxSize; omega⟩

theorem view_update (buff : ℕ → PlanLine) (head : ℕ) (l : PlanLine) {i j : ℕ} (hi : i < 16) (hj : j < 16) :
    view (Function.update buff (slot head i) l) head j = Function.update (view buff head) i (seg l) j := by
  unfold view
  rcases eq_or_ne j i with rfl | h
  · rw [Function.update_self, Function.update_self]
  · rw [Function.update_of_ne h, Function.update_of_ne (fun he => h (slot_injective _ hj hi he))]

/-- `ReverseAdjust` is a step of the backward walk. -/
theorem seg_reverseAdjust {l : PlanLine} (hu : l.usable = true) (next : Option PlanLine) :
    seg (reverseAdjust l next) = back minSqr (seg l) (next.map seg) := by
  unfold reverseAdjust back
  by_cases he : l.planCalc.entrySpeedSqr = sqr l.planCalc.maxEntrySpeed
  · cases next with
    | none => simp [seg, he]
    | some n => simp [seg, he]
  · have hmax : ∀ t : ℚ, maxAllowableSpeedSqr (-l.planCalc.acceleration) t l.planCalc.lineLength =
        t + 2 * l.planCalc.acceleration * l.planCalc.lineLength := by
      intro t
      unfold maxAllowableSpeedSqr
      ring
    cases next with
    | none => simp [seg, he, hu, hmax]
    | some n => simp [seg, he, hu, hmax]

/-- `ForwardAdjust` is a step of the forward walk. -/
theorem seg_forwardAdjust {p c : PlanLine} (hp : p.usable = true) (hc : c.usable = true) :
    seg (forwardAdjust p c).1 = { seg p with exit := fwdEntry (seg p) (seg c) } ∧
      seg (forwardAdjust p c).2 = { seg c with entry := fwdEntry (seg p) (seg c) } := by
  have hmax : maxAllowableSpeedSqr (-p.planCalc.acceleration) p.planCalc.entrySpeedSqr p.planCalc.lineLength =
      p.planCalc.entrySpeedSqr + 2 * p.planCalc.acceleration * p.planCalc.lineLength := by
    unfold maxAllowableSpeedSqr
    ring
  have hf : forwardEntry p c = fwdEntry (seg p) (seg c) := by
    unfold forwardEntry fwdEntry
    simp only [hmax, hc, and_true]
    exact if_congr Iff.rfl rfl rfl
  constructor <;> simp [forwardAdjust, hf, hp, seg]

end View

/-! ## The walks -/

section Walks

variable (head : ℕ) {n : ℕ}

/-- Exactly the `n` slots from the head on are usable. -/
def PendingUsable (buff : ℕ → PlanLine) (head n : ℕ) : Prop :=
  ∀ j, j < 16 → ((buff (slot head j)).usable = true ↔ j < n)

theorem PendingUsable.congr {head : ℕ} {buff buff' : ℕ → PlanLine} (h : PendingUsable buff head n)
    (he : ∀ k, (buff' k).usable = (buff k).usable) : PendingUsable buff' head n :=
  fun j hj => by rw [he]; exact h j hj

/-- The backward walk, from the place `i` down to the one above `SmoothIndex` or to the head. -/
theorem reverseLoop_walk (hn : n < 16) {so : ℕ} (hso : so < 16) {c : ℕ → Seg ℚ} :
    ∀ (fuel i : ℕ) (buff : ℕ → PlanLine), i < n → i < fuel → (so < n → so ≤ i) → PendingUsable buff head n →
      WalkBack minSqr n c (i + 1) (view buff head) →
      ∃ buff', reverseLoop (slot head so) fuel buff (slot head i)
          (if i + 1 = n then none else some (slot head (i + 1))) = buff' ∧
        WalkBack minSqr n c (if so < n then so + 1 else 0) (view buff' head) ∧
        ∀ k, (buff' k).usable = (buff k).usable := by
  intro fuel
  induction fuel with
  | zero => exact fun i buff _ hf => absurd hf (Nat.not_lt_zero _)
  | succ fuel ih =>
    intro i buff hi hf hsi hu hb
    unfold reverseLoop
    by_cases hs : i = so
    · rw [if_pos (by rw [hs]), if_pos (by omega)]
      rw [hs] at hb
      exact ⟨buff, rfl, hb, fun _ => rfl⟩
    · rw [if_neg (fun he => hs (slot_injective _ (by omega) hso he))]
      -- the line at place `i` takes a step of the walk
      have hui : (buff (slot head i)).usable = true := (hu i (by omega)).mpr hi
      set next : Option ℕ := if i + 1 = n then none else some (slot head (i + 1)) with hnext
      set buff1 := Function.update buff (slot head i) (reverseAdjust (buff (slot head i)) (next.map buff)) with hb1
      have hseg : (next.map buff).map seg = LookAhead.next n (view buff head) i := by
        rw [hnext]
        unfold LookAhead.next
        split_ifs <;> rfl
      have hview : ∀ j, j < n → view buff1 head j = backAt minSqr n (view buff head) i j := by
        intro j hj
        rw [hb1, view_update _ _ _ (by omega) (by omega), seg_reverseAdjust hui, hseg]
        rfl
      have hwalk : WalkBack minSqr n c i (view buff1 head) := .step hb hview
      have husable : ∀ k, (buff1 k).usable = (buff k).usable := by
        intro k
        rcases eq_or_ne k (slot head i) with rfl | hk
        · rw [hb1, Function.update_self]
          rfl
        · rw [hb1, Function.update_of_ne hk]
      dsimp only
      cases i with
      | zero =>
        -- the slot before the head is not usable
        rw [prev_slot_zero, husable, if_neg (fun h => by have := (hu 15 (by omega)).mp h; omega), if_neg (by omega)]
        exact ⟨buff1, rfl, hwalk, husable⟩
      | succ i =>
        rw [prev_slot_succ, husable, if_pos ((hu i (by omega)).mpr (by omega))]
        obtain ⟨buff', he, h1, h2⟩ := ih i buff1 (by omega) (by omega) (fun h => by have := hsi h; omega)
          (hu.congr husable) hwalk
        rw [if_neg (show ¬ i + 1 = n by omega)] at he
        exact ⟨buff', he, h1, fun k => (h2 k).trans (husable k)⟩

/-- The forward walk over pending lines, from the place after `p` on. -/
theorem forwardLoop_walk (hn : n < 16) {q : ℕ} {c : ℕ → Seg ℚ} :
    ∀ (fuel p : ℕ) (buff : ℕ → PlanLine) (smooth : ℕ), p < n → n ≤ p + fuel + 1 → PendingUsable buff head n →
      WalkForward n c q p (view buff head) →
      ∃ buff', forwardLoop (slot head n) fuel buff smooth (slot head (p + 1)) (some (slot head p)) =
          (buff', smooth) ∧
        WalkForward n c q (n - 1) (view buff' head) ∧ ∀ k, (buff' k).usable = (buff k).usable := by
  intro fuel
  induction fuel with
  | zero =>
    intro p buff smooth hp hf _ hw
    rw [show p = n - 1 by omega] at hw ⊢
    exact ⟨buff, rfl, hw, fun _ => rfl⟩
  | succ fuel ih =>
    intro p buff smooth hp hf hu hw
    unfold forwardLoop
    by_cases hpn : p + 1 = n
    · rw [if_pos (by rw [hpn])]
      rw [show p = n - 1 by omega] at hw
      exact ⟨buff, rfl, hw, fun _ => rfl⟩
    · rw [if_neg (fun he => hpn (slot_injective _ (by omega) (by omega) he))]
      have hup : (buff (slot head p)).usable = true := (hu p (by omega)).mpr hp
      have huc : (buff (slot head (p + 1))).usable = true := (hu (p + 1) (by omega)).mpr (by omega)
      rw [if_pos huc, next_slot]
      dsimp only
      set r := forwardAdjust (buff (slot head p)) (buff (slot head (p + 1))) with hr
      obtain ⟨hs1, hs2⟩ := seg_forwardAdjust hup huc
      rw [← hr] at hs1 hs2
      set buff1 := Function.update (Function.update buff (slot head p) r.1) (slot head (p + 1)) r.2 with hb1
      have hview : ∀ j, j < n → view buff1 head j = fwd (view buff head) p j := by
        intro j hj
        rw [hb1, view_update _ _ _ (by omega) (by omega)]
        unfold fwd
        rcases eq_or_ne j (p + 1) with rfl | hjp'
        · rw [Function.update_self, Function.update_self, hs2]
          rfl
        · rw [Function.update_of_ne hjp', Function.update_of_ne hjp', view_update _ _ _ (by omega) (by omega), hs1]
          rfl
      have husable : ∀ k, (buff1 k).usable = (buff k).usable := by
        intro k
        rcases eq_or_ne k (slot head (p + 1)) with rfl | hk
        · rw [hb1, Function.update_self]
          rfl
        · rw [hb1, Function.update_of_ne hk]
          rcases eq_or_ne k (slot head p) with rfl | hk'
          · rw [Function.update_self]
            rfl
          · rw [Function.update_of_ne hk']
      obtain ⟨buff', he, h1, h2⟩ := ih (p + 1) buff1 smooth (by omega) (by omega) (hu.congr husable)
        (.step hw (by omega) hview)
      exact ⟨buff', he, h1, fun k => (h2 k).trans (husable k)⟩

/-- The forward walk over the free slots behind `SmoothIndex`: it ends at the head. -/
theorem forwardLoop_free (hn : n < 16) :
    ∀ (k fuel : ℕ) (buff : ℕ → PlanLine) (smooth so : ℕ), so + k = 16 → n < so → PendingUsable buff head n →
      smooth < 16 → ∃ smooth', smooth' < 16 ∧
        forwardLoop (slot head n) (fuel + k) buff smooth (slot head so) none =
          forwardLoop (slot head n) fuel buff smooth' (slot head 0) none := by
  intro k
  induction k with
  | zero =>
    intro fuel buff smooth so hk _ _ hs
    have : so = 16 := by omega
    rw [this, slot_wrap]
    exact ⟨smooth, hs, rfl⟩
  | succ k ih =>
    intro fuel buff smooth so hk hnso hu hs
    have hfree : ¬ (buff (slot head so)).usable = true := fun h => by
      have := (hu so (by omega)).mp h
      omega
    have hstep : forwardLoop (slot head n) (fuel + (k + 1)) buff smooth (slot head so) none =
        forwardLoop (slot head n) (fuel + k) buff (slot head so) (slot head (so + 1)) none := by
      rw [← Nat.add_assoc]
      conv_lhs => unfold forwardLoop
      rw [if_neg (fun he => by have := slot_injective _ (by omega) (by omega) he; omega), if_neg hfree, next_slot]
    rw [hstep]
    exact ih fuel buff _ (so + 1) (by omega) (by omega) hu (slot_lt _ _)

/-- A walk that starts at a pending line passes it first. -/
theorem forwardLoop_start (hn : n < 16) {p fuel : ℕ} (hp : p < n) {buff : ℕ → PlanLine} {smooth : ℕ}
    (hu : PendingUsable buff head n) :
    forwardLoop (slot head n) (fuel + 1) buff smooth (slot head p) none =
      forwardLoop (slot head n) fuel buff smooth (slot head (p + 1)) (some (slot head p)) := by
  conv_lhs => unfold forwardLoop
  rw [if_neg (fun he => by have := slot_injective _ (by omega) (by omega) he; omega),
    if_pos ((hu p (by omega)).mpr hp), next_slot]

/-- Laying the lines out in phases changes neither their speeds nor whether they are usable. -/
theorem trapezoidLoop_keeps (tail : ℕ) :
    ∀ (fuel : ℕ) (buff : ℕ → PlanLine) (index k : ℕ),
      seg (trapezoidLoop tail fuel buff index k) = seg (buff k) ∧
        (trapezoidLoop tail fuel buff index k).usable = (buff k).usable := by
  intro fuel
  induction fuel with
  | zero => exact fun _ _ _ => ⟨rfl, rfl⟩
  | succ fuel ih =>
    intro buff index k
    unfold trapezoidLoop
    split_ifs with h1 h2
    · exact ⟨rfl, rfl⟩
    · obtain ⟨h3, h4⟩ := ih (Function.update buff index (calculateForLine (buff index))) (nextPlanLineIndex index) k
      rw [h3, h4]
      rcases eq_or_ne k index with rfl | hk
      · rw [Function.update_self]
        exact ⟨rfl, rfl⟩
      · rw [Function.update_of_ne hk]
        exact ⟨rfl, rfl⟩
    · exact ih buff (nextPlanLineIndex index) k

end Walks

/-! ## Where the pending lines are -/

section Shape

/-- `n` lines are pending, from the head on, and they are the usable ones. -/
structure RingShape (g : PlanRing) (n : ℕ) : Prop where
  head : g.lineBuffHead < 16
  smooth : g.smoothIndex < 16
  le : n ≤ 15
  tail : g.lineBuffTail = slot g.lineBuffHead n
  usable : PendingUsable g.lineBuff g.lineBuffHead n

theorem ringShape_init : RingShape PlanRing.init 0 where
  head := by decide
  smooth := by decide
  le := by decide
  tail := by decide
  usable j _ := by simp [PlanRing.init, PlanLine.zero]

/-- `GetPlanLineBuffNum` counts the pending lines. -/
theorem RingShape.num {g : PlanRing} {n : ℕ} (h : RingShape g n) : getPlanLineBuffNum g = n := by
  have h1 := h.head
  have h2 := h.le
  unfold getPlanLineBuffNum
  rw [h.tail]
  unfold slot buffMaxSize
  omega

theorem RingShape.isEmpty {g : PlanRing} {n : ℕ} (h : RingShape g n) : isPlanLineBuffEmpty g = true ↔ n = 0 := by
  have hle := h.le
  unfold isPlanLineBuffEmpty
  rw [decide_eq_true_iff, h.tail]
  constructor
  · intro he
    exact (slot_injective g.lineBuffHead (by omega) (by omega) ((slot_zero h.head).trans he)).symm
  · rintro rfl
    exact (slot_zero h.head).symm

/-- What `SmoothRecalc` does to the chain of the `n` pending lines, by where `SmoothIndex` stands. -/
inductive Replanned (g : PlanRing) (n : ℕ) (e : ℕ → Seg ℚ) : Prop
  /-- At a pending line: both walks stop there. -/
  | pending {p : ℕ} {d : ℕ → Seg ℚ} (hp : p < n) (hs : g.smoothIndex = slot g.lineBuffHead p)
    (hb : WalkBack minSqr n (view g.lineBuff g.lineBuffHead) (p + 1) d) (hf : WalkForward n d p (n - 1) e)
  /-- At a free slot: both walk over all lines. -/
  | free {so : ℕ} {d : ℕ → Seg ℚ} (hso : n < so) (hlt : so < 16) (hs : g.smoothIndex = slot g.lineBuffHead so)
    (hb : WalkBack minSqr n (view g.lineBuff g.lineBuffHead) 0 d) (hf : WalkForward n d 0 (n - 1) e)
  /-- At the tail: the forward walk makes no step. -/
  | caughtUp (hs : g.smoothIndex = g.lineBuffTail)
    (hb : WalkBack minSqr n (view g.lineBuff g.lineBuffHead) 0 e)

theorem RingShape.trapezoid {g : PlanRing} {n : ℕ} (h : RingShape g n) :
    RingShape (trapezoidCalculate g) n ∧
      ∀ head j, view (trapezoidCalculate g).lineBuff head j = view g.lineBuff head j :=
  ⟨⟨h.head, h.smooth, h.le, h.tail, h.usable.congr fun k => (trapezoidLoop_keeps _ _ _ _ k).2⟩,
    fun _ _ => (trapezoidLoop_keeps _ _ _ _ _).1⟩

theorem RingShape.scans {g : PlanRing} {n : ℕ} (h : RingShape g n) (hn : 0 < n)
    (hne : prevPlanLineIndex g.lineBuffTail ≠ g.smoothIndex) :
    RingShape (forwardScan (reverseScan g)) n ∧
      Replanned g n (view (forwardScan (reverseScan g)).lineBuff g.lineBuffHead) := by
  have hle := h.le
  obtain ⟨so, hso, hsmooth⟩ := exists_slot g.lineBuffHead h.head h.smooth
  obtain ⟨m, rfl⟩ : ∃ m, n = m + 1 := ⟨n - 1, by omega⟩
  have hprev : prevPlanLineIndex g.lineBuffTail = slot g.lineBuffHead m := by rw [h.tail, prev_slot_succ]
  have hsm : so ≠ m := fun he => hne (by rw [hprev, hsmooth, he])
  -- the backward walk starts at the last line
  obtain ⟨buff, hrev, hb, hu⟩ := reverseLoop_walk g.lineBuffHead (n := m + 1) (by omega) hso
    buffMaxSize m g.lineBuff (by omega) (by unfold buffMaxSize; omega) (fun _ => by omega) h.usable
    (.start fun _ _ => rfl)
  rw [if_pos rfl] at hrev
  have hR : reverseScan g = { g with lineBuff := buff } := by
    unfold reverseScan
    rw [hprev, hsmooth, hrev]
  have hU : PendingUsable buff g.lineBuffHead (m + 1) := h.usable.congr hu
  -- the forward walk starts at a pending line, behind the tail, or not at all
  have hF : ∃ buff' smooth', smooth' < 16 ∧
      forwardLoop g.lineBuffTail buffMaxSize buff g.smoothIndex g.smoothIndex none = (buff', smooth') ∧
      Replanned g (m + 1) (view buff' g.lineBuffHead) ∧ ∀ k, (buff' k).usable = (buff k).usable := by
    rcases Nat.lt_trichotomy so (m + 1) with hlt | heq | hgt
    · rw [if_pos hlt] at hb
      obtain ⟨buff', he, hf, hu'⟩ := forwardLoop_walk g.lineBuffHead (n := m + 1) (by omega) 15 so buff
        g.smoothIndex hlt (by omega) hU (.start fun _ _ => rfl)
      refine ⟨buff', g.smoothIndex, h.smooth, ?_, .pending hlt hsmooth hb hf, hu'⟩
      rw [← he, h.tail, hsmooth]
      exact forwardLoop_start _ (by omega) hlt hU
    · rw [if_neg (by omega)] at hb
      have hcaught : g.smoothIndex = g.lineBuffTail := by rw [h.tail, hsmooth, heq]
      refine ⟨buff, g.smoothIndex, h.smooth, ?_, .caughtUp hcaught hb, fun _ => rfl⟩
      rw [hcaught]
      unfold buffMaxSize forwardLoop
      rw [if_pos rfl]
    · rw [if_neg (by omega)] at hb
      obtain ⟨smooth', hs', he⟩ := forwardLoop_free g.lineBuffHead (n := m + 1) (by omega) (16 - so) so buff
        g.smoothIndex so (by omega) hgt hU h.smooth
      rw [show so + (16 - so) = buffMaxSize by unfold buffMaxSize; omega] at he
      obtain ⟨f, rfl⟩ : ∃ f, so = f + 1 := ⟨so - 1, by omega⟩
      obtain ⟨buff', he', hf, hu'⟩ := forwardLoop_walk g.lineBuffHead (n := m + 1) (by omega) f 0 buff
        smooth' (by omega) (by omega) hU (.start fun _ _ => rfl)
      refine ⟨buff', smooth', hs', ?_, .free hgt hso hsmooth hb hf, hu'⟩
      rw [h.tail]
      rw [hsmooth] at he ⊢
      rw [he, forwardLoop_start _ (by omega) (by omega) hU, he']
  obtain ⟨buff', smooth', hs', he, hrep, hu'⟩ := hF
  have hG : forwardScan (reverseScan g) = { g with lineBuff := buff', smoothIndex := smooth' } := by
    rw [hR]
    unfold forwardScan
    dsimp only
    rw [he]
  rw [hG]
  exact ⟨⟨h.head, hs', h.le, h.tail, hU.congr hu'⟩, hrep⟩

theorem smoothRecalc_head (g : PlanRing) : (smoothRecalc g).lineBuffHead = g.lineBuffHead := by
  unfold smoothRecalc
  dsimp only
  split_ifs <;> rfl

/-- **What `SmoothRecalc` does.** -/
theorem RingShape.smoothRecalc {g : PlanRing} {n : ℕ} (h : RingShape g n) (hn : 0 < n) :
    RingShape (smoothRecalc g) n ∧ Replanned g n (view (smoothRecalc g).lineBuff g.lineBuffHead) := by
  unfold Motion.smoothRecalc
  dsimp only
  split_ifs with hne
  · obtain ⟨hshape, hrep⟩ := h.scans hn hne
    obtain ⟨hshape', hview⟩ := hshape.trapezoid
    rw [show view (trapezoidCalculate (forwardScan (reverseScan g))).lineBuff g.lineBuffHead =
      view (forwardScan (reverseScan g)).lineBuff g.lineBuffHead from funext (hview _)]
    exact ⟨hshape', hrep⟩
  · -- `SmoothIndex` is the newest line: neither walk makes a step
    obtain ⟨m, rfl⟩ : ∃ m, n = m + 1 := ⟨n - 1, by omega⟩
    obtain ⟨hshape', hview⟩ := h.trapezoid
    refine ⟨hshape', .pending (Nat.lt_succ_self m) ?_ (.start fun _ _ => rfl) (.start fun j _ => hview _ j)⟩
    rw [← not_not.mp hne, h.tail, prev_slot_succ]

theorem RingShape.push {g : PlanRing} {n : ℕ} (h : RingShape g n) (hfull : isPlanLineBuffFull g = false)
    (l : PlanLine) :
    RingShape (pushLine g l) (n + 1) ∧
      (∀ j, j < n → view (pushLine g l).lineBuff g.lineBuffHead j = view g.lineBuff g.lineBuffHead j) ∧
      view (pushLine g l).lineBuff g.lineBuffHead n = seg l := by
  have hh := h.head
  have hle := h.le
  have hn : n + 1 ≤ 15 := by
    unfold isPlanLineBuffFull at hfull
    rw [h.tail, next_slot, decide_eq_false_iff_not] at hfull
    by_contra hc
    have hn15 : n = 15 := by omega
    rw [hn15, slot_wrap, slot_zero hh] at hfull
    exact hfull rfl
  have hbuff : (pushLine g l).lineBuff =
      Function.update g.lineBuff (slot g.lineBuffHead n) { l with usable := true } := by
    unfold pushLine
    rw [h.tail]
  rw [hbuff]
  refine ⟨⟨hh, h.smooth, hn, ?_, fun j hj => ?_⟩, fun j hj => ?_, ?_⟩
  · unfold pushLine
    rw [h.tail, next_slot]
  · rw [hbuff]
    change (Function.update g.lineBuff (slot g.lineBuffHead n) { l with usable := true }
      (slot g.lineBuffHead j)).usable = true ↔ j < n + 1
    rcases eq_or_ne j n with rfl | hjn
    · rw [Function.update_self]
      simp
    · rw [Function.update_of_ne (fun he => hjn (slot_injective _ hj (by omega) he)), h.usable j hj]
      omega
  · rw [view_update _ _ _ (by omega) (by omega), Function.update_of_ne (by omega)]
  · rw [view_update _ _ _ (by omega) (by omega), Function.update_self]
    rfl

/-- `GetNextPlanLine` finds nothing in an empty ring. -/
theorem RingShape.get_empty {g : PlanRing} (h : RingShape g 0) : getNextPlanLine g = (none, g) := by
  unfold getNextPlanLine
  rw [if_pos (h.isEmpty.mpr rfl)]

theorem RingShape.get {g : PlanRing} {n : ℕ} (h : RingShape g (n + 1)) :
    ∃ g', getNextPlanLine g = (some { g.lineBuff g.lineBuffHead with usable := true }, g') ∧ RingShape g' n ∧
      ∀ j, j < n → view g'.lineBuff g'.lineBuffHead j = view g.lineBuff g.lineBuffHead (j + 1) := by
  have hh := h.head
  have hle := h.le
  have hzero : slot g.lineBuffHead 0 = g.lineBuffHead := slot_zero hh
  have hu : (g.lineBuff g.lineBuffHead).usable = true := by
    have h0 := (h.usable 0 (by omega)).mpr (Nat.succ_pos n)
    rw [hzero] at h0
    exact h0
  unfold getNextPlanLine
  rw [if_neg (fun he => Nat.succ_ne_zero n (h.isEmpty.mp he))]
  dsimp only
  rw [if_pos hu]
  refine ⟨_, rfl, ?_⟩
  -- place `j` after the new head is place `j + 1` after the old one
  have hslot : ∀ j, slot (nextPlanLineIndex g.lineBuffHead) j = slot g.lineBuffHead (j + 1) := by
    intro j
    unfold slot nextPlanLineIndex buffMaxSize
    omega
  have hne : ∀ j, j < 15 → slot g.lineBuffHead (j + 1) ≠ g.lineBuffHead := by
    intro j hj hc
    have := slot_injective g.lineBuffHead (i := j + 1) (j := 0) (by omega) (by omega) (hc.trans hzero.symm)
    omega
  refine ⟨⟨Nat.mod_lt _ (by decide), h.smooth, by omega, ?_, fun j hj => ?_⟩, fun j hj => ?_⟩
  · exact h.tail.trans (hslot n).symm
  · dsimp only
    rw [hslot j]
    rcases eq_or_ne j 15 with rfl | hj15
    · rw [slot_wrap, hzero, Function.update_self]
      simp
      omega
    · rw [Function.update_of_ne (hne j (by omega)), h.usable (j + 1) (by omega)]
      omega
  · unfold view
    dsimp only
    rw [hslot j, Function.update_of_ne (hne j (by omega))]

/-- The loop of `PlanLineBuffClear`, from place `i` on. -/
theorem clearLoop_spec (head : ℕ) {n : ℕ} (hn : n < 16) :
    ∀ (fuel i : ℕ) (buff : ℕ → PlanLine), i ≤ n → n - i < fuel →
      (∀ j, j < 16 → ((buff (slot head j)).usable = true ↔ i ≤ j ∧ j < n)) →
      ∃ buff', clearLoop (slot head n) fuel buff (slot head i) = (buff', slot head n) ∧
        ∀ j, j < 16 → (buff' (slot head j)).usable = false := by
  intro fuel
  induction fuel with
  | zero => exact fun i buff _ hf => absurd hf (Nat.not_lt_zero _)
  | succ fuel ih =>
    intro i buff hi hf hu
    unfold clearLoop
    by_cases hin : i = n
    · rw [if_pos (by rw [hin])]
      refine ⟨buff, by rw [hin], fun j hj => ?_⟩
      rw [Bool.eq_false_iff, Ne, hu j hj]
      omega
    · rw [if_neg (fun he => hin (slot_injective _ (by omega) hn he)), next_slot]
      refine ih (i + 1) _ (by omega) (by omega) fun j hj => ?_
      rcases eq_or_ne j i with rfl | hji
      · rw [Function.update_self]
        simp
      · rw [Function.update_of_ne (fun he => hji (slot_injective _ hj (by omega) he)), hu j hj]
        omega

theorem RingShape.clear {g : PlanRing} {n : ℕ} (h : RingShape g n) : RingShape (planLineBuffClear g) 0 := by
  have hh := h.head
  have hle := h.le
  obtain ⟨buff, he, hu⟩ := clearLoop_spec g.lineBuffHead (n := n) (by omega) buffMaxSize 0 g.lineBuff
    (by omega) (by unfold buffMaxSize; omega) (fun j hj => by rw [h.usable j hj]; omega)
  rw [slot_zero hh, ← h.tail] at he
  have hc : planLineBuffClear g = { g with lineBuff := buff, lineBuffHead := g.lineBuffTail } := by
    unfold planLineBuffClear
    rw [he]
  have ht : g.lineBuffTail < 16 := by
    rw [h.tail]
    exact slot_lt _ _
  rw [hc]
  refine ⟨ht, h.smooth, by omega, (slot_zero ht).symm, fun j hj => ?_⟩
  obtain ⟨k, hk, hjk⟩ := exists_slot g.lineBuffHead hh (slot_lt g.lineBuffTail j)
  dsimp only
  rw [hjk, hu k hk]
  simp

end Shape

/-! ## The invariant of the ring -/

section Invariant

/-- **The invariant.**  The `n` lines from the head on are the pending ones; their chain is feasible. -/
structure RingOk (g : PlanRing) (n : ℕ) : Prop where
  head : g.lineBuffHead < 16
  smooth : g.smoothIndex < 16
  le : n ≤ 15
  tail : g.lineBuffTail = slot g.lineBuffHead n
  usable : PendingUsable g.lineBuff g.lineBuffHead n
  feasible : Feasible minSqr n (view g.lineBuff g.lineBuffHead)

theorem RingOk.shape {g : PlanRing} {n : ℕ} (h : RingOk g n) : RingShape g n :=
  ⟨h.head, h.smooth, h.le, h.tail, h.usable⟩

theorem RingShape.ok {g : PlanRing} {n : ℕ} (h : RingShape g n)
    (hf : Feasible minSqr n (view g.lineBuff g.lineBuffHead)) : RingOk g n :=
  ⟨h.head, h.smooth, h.le, h.tail, h.usable, hf⟩

theorem ringOk_init : RingOk PlanRing.init 0 := ringShape_init.ok (feasible_zero _ _)

/-- **`SmoothRecalc` keeps the ring feasible**, unless the tail has caught up with `SmoothIndex`. -/
theorem RingOk.smoothRecalc {g : PlanRing} {n : ℕ} (h : RingOk g n) (hn : 0 < n)
    (hs : g.lineBuffTail = g.smoothIndex → n = 1) : RingOk (smoothRecalc g) n := by
  have hreach : ∀ j, j < n → 0 ≤ (view g.lineBuff g.lineBuffHead j).reach := fun j hj =>
    (abs_nonneg _).trans (h.feasible.reach j hj)
  obtain ⟨hshape, hrep⟩ := h.shape.smoothRecalc hn
  refine hshape.ok ?_
  rw [smoothRecalc_head]
  cases hrep with
  | pending _ _ hb hf => exact h.feasible.walks hreach hb hf hn (Or.inl (Nat.lt_succ_self _))
  | free _ _ _ hb hf => exact h.feasible.walks hreach hb hf hn (Or.inr rfl)
  | caughtUp hsmooth hb =>
    -- one line has no junction
    have hone := hs hsmooth.symm
    refine (hb.braking (h.feasible.braking hreach)).feasible fun p hp j hj => ?_
    omega

/-- A line that starts and ends at `MINIMUM_PLANNER_SPEED` joins the pending ones. -/
theorem RingOk.push {g : PlanRing} {n : ℕ} (h : RingOk g n) (hfull : isPlanLineBuffFull g = false) {l : PlanLine}
    (hl : Stuffed l) (hcap : minSqr ≤ sqr l.planCalc.maxEntrySpeed) : RingOk (pushLine g l) (n + 1) := by
  obtain ⟨hshape, hview, hlast⟩ := h.shape.push hfull l
  refine hshape.ok (h.feasible.push hview ?_ ?_ ?_ ?_)
  · exact (congrArg Seg.entry hlast).trans hl.entrySpeedSqr
  · exact (congrArg Seg.exit hlast).trans hl.exitSpeedSqr
  · refine le_of_le_of_eq ?_ (congrArg Seg.reach hlast).symm
    exact mul_nonneg (mul_nonneg (by norm_num) hl.acceleration) hl.lineLength
  · exact le_of_le_of_eq hcap (congrArg Seg.cap hlast).symm

/-- `GetNextPlanLine` takes the first pending line away. -/
theorem RingOk.get {g : PlanRing} {n : ℕ} (h : RingOk g n) : ∃ m, RingOk (getNextPlanLine g).2 m := by
  cases n with
  | zero =>
    rw [h.shape.get_empty]
    exact ⟨0, h⟩
  | succ m =>
    obtain ⟨g', he, hshape, hview⟩ := h.shape.get
    rw [he]
    exact ⟨m, hshape.ok (h.feasible.tail hview)⟩

/-- `PlanLineBuffClear` leaves no pending line. -/
theorem RingOk.clear {g : PlanRing} {n : ℕ} (h : RingOk g n) : RingOk (planLineBuffClear g) 0 :=
  h.shape.clear.ok (feasible_zero _ _)

end Invariant

end Cxsw.Motion
