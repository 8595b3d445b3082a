import Cxsw.Lib.Run
import Cxsw.CrMotion.CrMotionPlanner

/-!
# Cxsw.CrMotion.PlanRing — the plan ring between the planner and the step generator

The planner's thread runs `PlanLine` or `PlanRetract`, the thread of `Calc` runs `GetNextPlanLine`.  They share the
ring, its two indices and the flag `Usable` of each slot, which `TrapezoidCalculate` clears while it lays a line out.
`RingStep` interleaves their statements.  Where the look-ahead only rewrites the speeds and phases of lines, its stores
are left open: any slot, any order, any value.

`PlanLineBuffClear` is in the thread of `Calc`, between two fetches; it discards the lines one by one.  Homing and the
stops call it from the planner's thread as well, while `Calc` may be inside a fetch; these calls are not in the runs
here.

* `SameMove`: the part of a line that no rewriting touches, its steps and directions.
* `RingInv`: the invariant, with an assertion for each place of the two threads.
* `planBlock_alone`, `getNextPlanLine_alone`: undisturbed, the statements do what the functions do.
* `planRing_exactlyOnce`: in every interleaving the lines leave the ring once each, in the order in which they were
  submitted, whatever the look-ahead is doing at the fetch.
-/

namespace Cxsw.Motion

/-! ## The step relation -/

section Defs

/-- What a line moves. -/
def SameMove (l k : PlanLine) : Prop := ∀ a, (l.axis a).dir = (k.axis a).dir ∧ (l.axis a).steps = (k.axis a).steps

/-- What the look-ahead may do to a line in its slot: its speeds and phases change, not the line and not `Usable`. -/
def Rewrites (l k : PlanLine) : Prop := SameMove l k ∧ k.usable = l.usable

/-- Where `PlanLine` or `PlanRetract` stands. -/
inductive PlannerPc
  | idle
  /-- There is room; the slot at the tail is being filled. -/
  | stuffing
  /-- `Usable` is stored; the tail comes next. -/
  | stuffed
  /-- `ReverseScan` and `ForwardScan`. -/
  | scanning
  /-- The head of the loop of `TrapezoidCalculate`, with its `LineBuffIndex` and `TailLineIndex`. -/
  | trapezoid (index tail : ℕ)
  /-- It has found the line usable. -/
  | marking (index tail : ℕ)
  /-- It has cleared `Usable`. -/
  | calculating (index tail : ℕ)

/-- Where `GetNextPlanLine` stands. -/
inductive ConsumerPc
  | idle
  /-- The ring was not empty. -/
  | checking
  /-- The line at the head was usable. -/
  | taking
  /-- Its `Usable` is cleared. -/
  | copying
  /-- It is copied; the head comes next. -/
  | copied (line : PlanLine)

/-- The ring, the two threads, the lines that were submitted so far, and those that have left the ring: `none` for a
line that was discarded. -/
structure RingShared where
  ring : PlanRing
  planner : PlannerPc
  consumer : ConsumerPc
  submitted : List PlanLine
  gone : List (Option PlanLine)

/-- The ring is empty and the threads are outside. -/
def initShare : RingShared := ⟨PlanRing.init, .idle, .idle, [], []⟩

/-- Store a slot. -/
def setSlot (g : PlanRing) (index : ℕ) (line : PlanLine) : PlanRing :=
  { g with lineBuff := Function.update g.lineBuff index line }

/-- Store the flag of a slot. -/
def setUsable (g : PlanRing) (index : ℕ) (usable : Bool) : PlanRing :=
  setSlot g index { g.lineBuff index with usable := usable }

/-- The threads' statements. -/
inductive RingAct
  | planner
  | consumer
  /-- One turn of the loop of `PlanLineBuffClear`. -/
  | clear
  deriving DecidableEq

/-- One statement of one thread. -/
inductive RingStep : RingShared → RingAct → RingShared → Prop
  | planFull {s : RingShared} : s.planner = .idle → isPlanLineBuffFull s.ring = true → RingStep s .planner s
  | planCheck {s : RingShared} : s.planner = .idle → isPlanLineBuffFull s.ring = false →
      RingStep s .planner { s with planner := .stuffing }
  | stuff {s : RingShared} {line : PlanLine} : s.planner = .stuffing →
      line.usable = (s.ring.lineBuff s.ring.lineBuffTail).usable →
      RingStep s .planner { s with ring := setSlot s.ring s.ring.lineBuffTail line }
  | stuffFail {s : RingShared} : s.planner = .stuffing → RingStep s .planner { s with planner := .idle }
  | stuffUsable {s : RingShared} : s.planner = .stuffing →
      RingStep s .planner { s with ring := setUsable s.ring s.ring.lineBuffTail true, planner := .stuffed }
  | advanceTail {s : RingShared} : s.planner = .stuffed →
      RingStep s .planner
        { s with
          ring := { s.ring with lineBuffTail := nextPlanLineIndex s.ring.lineBuffTail }
          planner := .scanning
          submitted := s.submitted ++ [s.ring.lineBuff s.ring.lineBuffTail] }
  | scan {s : RingShared} {index : ℕ} {line : PlanLine} {smoothIndex : ℕ} : s.planner = .scanning →
      Rewrites (s.ring.lineBuff index) line →
      RingStep s .planner { s with ring := { setSlot s.ring index line with smoothIndex := smoothIndex } }
  | scanned {s : RingShared} : s.planner = .scanning →
      RingStep s .planner { s with planner := .trapezoid s.ring.lineBuffHead s.ring.lineBuffTail }
  | trapezoidEnd {s : RingShared} {tail : ℕ} : s.planner = .trapezoid tail tail →
      RingStep s .planner { s with planner := .idle }
  | trapezoidSkip {s : RingShared} {index tail : ℕ} : s.planner = .trapezoid index tail → index ≠ tail →
      (s.ring.lineBuff index).usable = false →
      RingStep s .planner { s with planner := .trapezoid (nextPlanLineIndex index) tail }
  | trapezoidLine {s : RingShared} {index tail : ℕ} : s.planner = .trapezoid index tail → index ≠ tail →
      (s.ring.lineBuff index).usable = true → RingStep s .planner { s with planner := .marking index tail }
  | mark {s : RingShared} {index tail : ℕ} : s.planner = .marking index tail →
      RingStep s .planner { s with ring := setUsable s.ring index false, planner := .calculating index tail }
  | calculate {s : RingShared} {index tail : ℕ} {line : PlanLine} : s.planner = .calculating index tail →
      Rewrites (s.ring.lineBuff index) line → RingStep s .planner { s with ring := setSlot s.ring index line }
  | unmark {s : RingShared} {index tail : ℕ} : s.planner = .calculating index tail →
      RingStep s .planner
        { s with ring := setUsable s.ring index true, planner := .trapezoid (nextPlanLineIndex index) tail }
  | fetchEmpty {s : RingShared} : s.consumer = .idle → isPlanLineBuffEmpty s.ring = true → RingStep s .consumer s
  | fetchCheck {s : RingShared} : s.consumer = .idle → isPlanLineBuffEmpty s.ring = false →
      RingStep s .consumer { s with consumer := .checking }
  | fetchUnusable {s : RingShared} : s.consumer = .checking →
      (s.ring.lineBuff s.ring.lineBuffHead).usable = false → RingStep s .consumer { s with consumer := .idle }
  | fetchUsable {s : RingShared} : s.consumer = .checking → (s.ring.lineBuff s.ring.lineBuffHead).usable = true →
      RingStep s .consumer { s with consumer := .taking }
  | take {s : RingShared} : s.consumer = .taking →
      RingStep s .consumer { s with ring := setUsable s.ring s.ring.lineBuffHead false, consumer := .copying }
  | copy {s : RingShared} : s.consumer = .copying →
      RingStep s .consumer
        { s with consumer := .copied { s.ring.lineBuff s.ring.lineBuffHead with usable := true } }
  | advanceHead {s : RingShared} {line : PlanLine} : s.consumer = .copied line →
      RingStep s .consumer
        { s with
          ring := { s.ring with lineBuffHead := nextPlanLineIndex s.ring.lineBuffHead }
          consumer := .idle
          gone := s.gone ++ [some line] }
  | clear {s : RingShared} : s.consumer = .idle → isPlanLineBuffEmpty s.ring = false →
      RingStep s .clear
        { s with
          ring := { setUsable s.ring s.ring.lineBuffHead false with
            lineBuffHead := nextPlanLineIndex s.ring.lineBuffHead }
          gone := s.gone ++ [none] }

/-- A statement of one of the two threads. -/
def ThreadStep (s t : RingShared) : Prop := ∃ a, a ≠ .clear ∧ RingStep s a t

/-- **What the ring owes to the lines submitted to it.** -/
structure Delivered (s : RingShared) : Prop where
  /-- The line that was submitted as number `k` is the one that left as number `k`, unless it was discarded. -/
  order : ∀ (k : ℕ) (line : PlanLine), s.gone[k]? = some (some line) → ∃ l, s.submitted[k]? = some l ∧ SameMove l line
  /-- The others are pending, no more than the ring has room for, -/
  pending : s.gone.length + getPlanLineBuffNum s.ring = s.submitted.length
  bound : getPlanLineBuffNum s.ring ≤ buffMaxSize - 1
  /-- in their slots, -/
  kept : ∀ k < getPlanLineBuffNum s.ring, ∃ l, s.submitted[s.gone.length + k]? = some l ∧
    SameMove l (s.ring.lineBuff ((s.ring.lineBuffHead + k) % buffMaxSize))
  /-- of which the slot that is filled next is none. -/
  untouched : ∀ k < getPlanLineBuffNum s.ring, (s.ring.lineBuffHead + k) % buffMaxSize ≠ s.ring.lineBuffTail
  /-- Between two fetches, and unless it is just being laid out, the oldest of them can be fetched. -/
  fetched : s.consumer = .idle → 0 < getPlanLineBuffNum s.ring →
    (∀ tail, s.planner ≠ .calculating s.ring.lineBuffHead tail) →
    ∃ line l, (getNextPlanLine s.ring).1 = some line ∧ s.submitted[s.gone.length]? = some l ∧ SameMove l line
  /-- No line is stuck: wherever the threads stand, they can go on until all of them are handed over. -/
  drains : ∃ t, Relation.ReflTransGen ThreadStep s t ∧ t.submitted = s.submitted ∧ t.gone.length = s.submitted.length

end Defs

/-! ## The invariant -/

section Inv

theorem SameMove.refl (l : PlanLine) : SameMove l l := fun _ => ⟨rfl, rfl⟩

theorem SameMove.trans {l k j : PlanLine} (h : SameMove l k) (h' : SameMove k j) : SameMove l j := fun a =>
  ⟨(h a).1.trans (h' a).1, (h a).2.trans (h' a).2⟩

theorem SameMove.withUsable (l : PlanLine) (usable : Bool) : SameMove l { l with usable := usable } := fun _ =>
  ⟨rfl, rfl⟩

@[simp] theorem setSlot_head (g : PlanRing) (i : ℕ)
    (l : PlanLine) : (setSlot g i l).lineBuffHead = g.lineBuffHead := rfl

@[simp] theorem setSlot_tail (g : PlanRing) (i : ℕ)
    (l : PlanLine) : (setSlot g i l).lineBuffTail = g.lineBuffTail := rfl

theorem setSlot_same (g : PlanRing) (i : ℕ) (l : PlanLine) : (setSlot g i l).lineBuff i = l := Function.update_self ..

theorem setSlot_of_ne {i j : ℕ} (h : j ≠ i) (g : PlanRing) (l : PlanLine) :
    (setSlot g i l).lineBuff j = g.lineBuff j := Function.update_of_ne h ..

@[simp] theorem setUsable_head (g : PlanRing) (i : ℕ)
    (b : Bool) : (setUsable g i b).lineBuffHead = g.lineBuffHead := rfl

@[simp] theorem setUsable_tail (g : PlanRing) (i : ℕ)
    (b : Bool) : (setUsable g i b).lineBuffTail = g.lineBuffTail := rfl

theorem setUsable_sameMove (g : PlanRing) (i j : ℕ) (b : Bool) :
    SameMove (g.lineBuff j) ((setUsable g i b).lineBuff j) := by
  obtain rfl | h := eq_or_ne j i
  · rw [setUsable, setSlot_same]
    exact SameMove.withUsable _ _
  · rw [setUsable, setSlot_of_ne h]
    exact SameMove.refl _

theorem setUsable_usable (g : PlanRing) (i j : ℕ) (b : Bool) :
    ((setUsable g i b).lineBuff j).usable = if j = i then b else (g.lineBuff j).usable := by
  by_cases h : j = i
  · rw [h, if_pos rfl, setUsable, setSlot_same]
  · rw [if_neg h, setUsable, setSlot_of_ne h]

/-- Rewriting a slot moves nothing and keeps the flags. -/
theorem setSlot_rewrites {g : PlanRing} {i : ℕ} {line : PlanLine} (h : Rewrites (g.lineBuff i) line) (j : ℕ) :
    SameMove (g.lineBuff j) ((setSlot g i line).lineBuff j) ∧
      ((setSlot g i line).lineBuff j).usable = (g.lineBuff j).usable := by
  obtain rfl | hj := eq_or_ne j i
  · rw [setSlot_same]
    exact h
  · rw [setSlot_of_ne hj]
    exact ⟨SameMove.refl _, rfl⟩

/-- What the consumer knows at its place. -/
def ConsumerPc.Holds (s : RingShared) : ConsumerPc → Prop
  | .idle => True
  | .checking | .taking | .copying => s.gone.length < s.submitted.length
  | .copied line => ∃ l, s.submitted[s.gone.length]? = some l ∧ SameMove l line

/-- The consumer has cleared the flag of the line at the head. -/
def ConsumerPc.Took : ConsumerPc → Prop
  | .copying | .copied _ => True
  | _ => False

/-- The planner has the slot at the tail to itself. -/
def PlannerPc.Fills : PlannerPc → Prop
  | .stuffing | .stuffed => True
  | _ => False

/-- **The invariant.** -/
structure RingInv (s : RingShared) : Prop where
  head : s.ring.lineBuffHead = s.gone.length % buffMaxSize
  tail : s.ring.lineBuffTail = s.submitted.length % buffMaxSize
  le : s.gone.length ≤ s.submitted.length
  room : s.submitted.length < s.gone.length + buffMaxSize
  fills : s.planner.Fills → s.submitted.length + 1 < s.gone.length + buffMaxSize
  slots : ∀ (k : ℕ) (l : PlanLine), s.gone.length ≤ k → s.submitted[k]? = some l →
    SameMove l (s.ring.lineBuff (k % buffMaxSize))
  usable : ∀ k, s.gone.length ≤ k → k < s.submitted.length →
    (s.ring.lineBuff (k % buffMaxSize)).usable = true ∨ (∃ tail, s.planner = .calculating (k % buffMaxSize) tail) ∨
      (k = s.gone.length ∧ s.consumer.Took)
  stuffed : s.planner = .stuffed → (s.ring.lineBuff s.ring.lineBuffTail).usable = true
  order : ∀ (k : ℕ) (line : PlanLine), s.gone[k]? = some (some line) → ∃ l, s.submitted[k]? = some l ∧ SameMove l line
  consumer : s.consumer.Holds s

theorem ringInv_init : RingInv initShare where
  head := rfl
  tail := rfl
  le := le_rfl
  room := by decide
  fills h := h.elim
  slots k l _ hl := by simp [initShare] at hl
  usable k _ hk := absurd hk (Nat.not_lt_zero k)
  stuffed h := by cases h
  order k line h := by simp [initShare] at h
  consumer := trivial

theorem window_slot_injective {n j k : ℕ} (hj : n ≤ j) (hj' : j < n + buffMaxSize) (hk : n ≤ k)
    (hk' : k < n + buffMaxSize) (h : j % buffMaxSize = k % buffMaxSize) : j = k := by
  unfold buffMaxSize at *
  omega

theorem nextPlanLineIndex_mod (n : ℕ) : nextPlanLineIndex (n % buffMaxSize) = (n + 1) % buffMaxSize := by
  unfold nextPlanLineIndex
  rw [Nat.mod_add_mod]

/-- The counted lines are those between the two histories. -/
theorem RingInv.num {s : RingShared} (h : RingInv s) :
    getPlanLineBuffNum s.ring = s.submitted.length - s.gone.length := by
  have hle := h.le
  have hroom := h.room
  unfold getPlanLineBuffNum
  rw [h.head, h.tail]
  unfold buffMaxSize at *
  omega

/-- The slot at the tail is outside the window. -/
theorem RingInv.tail_ne {s : RingShared} (h : RingInv s) {k : ℕ} (hk : s.gone.length ≤ k)
    (hk' : k < s.submitted.length) : k % buffMaxSize ≠ s.ring.lineBuffTail := by
  rw [h.tail]
  intro heq
  have := window_slot_injective hk (hk'.trans h.room) (h.le) h.room heq
  omega

/-- The slot at the head is that of the oldest line only. -/
theorem RingInv.head_eq {s : RingShared} (h : RingInv s) {k : ℕ} (hk : s.gone.length ≤ k)
    (hk' : k < s.submitted.length) (heq : k % buffMaxSize = s.ring.lineBuffHead) : k = s.gone.length := by
  rw [h.head] at heq
  exact window_slot_injective hk (hk'.trans h.room) le_rfl (h.le.trans_lt h.room) heq

/-- A statement that neither submits nor takes a line: what it has to keep. -/
theorem RingInv.update {s : RingShared} (h : RingInv s) {g : PlanRing} {p : PlannerPc} {c : ConsumerPc}
    (hhead : g.lineBuffHead = s.ring.lineBuffHead) (htail : g.lineBuffTail = s.ring.lineBuffTail)
    (hmove : ∀ k, s.gone.length ≤ k → k < s.submitted.length →
      SameMove (s.ring.lineBuff (k % buffMaxSize)) (g.lineBuff (k % buffMaxSize)))
    (hfills : p.Fills → s.submitted.length + 1 < s.gone.length + buffMaxSize)
    (husable : ∀ k, s.gone.length ≤ k → k < s.submitted.length →
      (g.lineBuff (k % buffMaxSize)).usable = true ∨ (∃ tail, p = .calculating (k % buffMaxSize) tail) ∨
        (k = s.gone.length ∧ c.Took))
    (hstuffed : p = .stuffed → (g.lineBuff g.lineBuffTail).usable = true) (hc : c.Holds s) :
    RingInv { s with ring := g, planner := p, consumer := c } where
  head := hhead.trans h.head
  tail := htail.trans h.tail
  le := h.le
  room := h.room
  fills := hfills
  slots k l hk hl := (h.slots k l hk hl).trans (hmove k hk (List.getElem?_eq_some_iff.mp hl).1)
  usable := husable
  stuffed := hstuffed
  order := h.order
  consumer := by
    cases c with
    | idle => trivial
    | checking => exact hc
    | taking => exact hc
    | copying => exact hc
    | copied line => exact hc

/-- The planner goes on, and the ring stays. -/
theorem RingInv.plannerPc {s : RingShared} (h : RingInv s) {p : PlannerPc}
    (hcalc : ∀ index tail, s.planner ≠ .calculating index tail)
    (hfills : p.Fills → s.submitted.length + 1 < s.gone.length + buffMaxSize) (hstuffed : p ≠ .stuffed) :
    RingInv { s with planner := p } := by
  refine h.update rfl rfl (fun k _ _ => SameMove.refl _) hfills (fun k hk hk' => ?_) (fun hp => absurd hp hstuffed)
    h.consumer
  obtain hu | ⟨tail, ht⟩ | hc := h.usable k hk hk'
  · exact Or.inl hu
  · exact absurd ht (hcalc _ _)
  · exact Or.inr (Or.inr hc)

theorem RingInv.rewrite {s : RingShared} (h : RingInv s) {g : PlanRing} {index : ℕ} {line : PlanLine}
    (hg : g.lineBuffHead = s.ring.lineBuffHead ∧ g.lineBuffTail = s.ring.lineBuffTail ∧
      g.lineBuff = (setSlot s.ring index line).lineBuff) (hl : Rewrites (s.ring.lineBuff index) line) :
    RingInv { s with ring := g } := by
  obtain ⟨hhead, htail, hbuff⟩ := hg
  have hslot := fun j => setSlot_rewrites hl j
  refine h.update hhead htail (fun k _ _ => ?_) h.fills (fun k hk hk' => ?_) (fun hp => ?_) h.consumer
  · rw [hbuff]
    exact (hslot _).1
  · rw [hbuff, (hslot _).2]
    exact h.usable k hk hk'
  · rw [hbuff, htail, (hslot _).2]
    exact h.stuffed hp

theorem ringInv_advanceTail {s : RingShared} (h : RingInv s) (hp : s.planner = .stuffed) :
    RingInv { s with
      ring := { s.ring with lineBuffTail := nextPlanLineIndex s.ring.lineBuffTail }
      planner := .scanning
      submitted := s.submitted ++ [s.ring.lineBuff s.ring.lineBuffTail] } := by
  have hroom := h.fills (by rw [hp]; trivial)
  have hle := h.le
  have hget : ∀ (k : ℕ) (l : PlanLine), s.submitted[k]? = some l →
      (s.submitted ++ [s.ring.lineBuff s.ring.lineBuffTail])[k]? = some l := by
    intro k l hl
    rw [List.getElem?_append_left (List.getElem?_eq_some_iff.mp hl).1]
    exact hl
  refine ⟨h.head, ?_, ?_, ?_, fun hf => hf.elim, fun k l hk hl => ?_, fun k hk hk' => ?_,
    fun hst => (by cases hst), fun k line hl => ?_, ?_⟩
  · rw [List.length_append, h.tail]
    exact nextPlanLineIndex_mod _
  · rw [List.length_append]
    exact h.le.trans (Nat.le_add_right _ _)
  · rw [List.length_append]
    exact hroom
  · rw [List.getElem?_append] at hl
    split_ifs at hl with hlt
    · exact h.slots k l hk hl
    · -- the new line is in the slot that was the tail's
      obtain ⟨hk0, hl0⟩ := List.getElem?_eq_some_iff.mp hl
      have hke : k = s.submitted.length := by
        rw [List.length_singleton] at hk0
        omega
      rw [hke, ← h.tail]
      subst hke
      simp at hl0
      rw [← hl0]
      exact SameMove.refl _
  · rw [List.length_append, List.length_singleton] at hk'
    obtain hlt | hge := Nat.lt_or_ge k s.submitted.length
    · obtain hu | ⟨tail, ht⟩ | hc := h.usable k hk hlt
      · exact Or.inl hu
      · rw [hp] at ht
        cases ht
      · exact Or.inr (Or.inr hc)
    · left
      show (s.ring.lineBuff (k % buffMaxSize)).usable = true
      rw [show k = s.submitted.length by omega, ← h.tail]
      exact h.stuffed hp
  · obtain ⟨l, hl', hm⟩ := h.order k line hl
    exact ⟨l, hget k l hl', hm⟩
  · have hc := h.consumer
    show ConsumerPc.Holds _ s.consumer
    cases hcs : s.consumer with
    | idle => trivial
    | copied line =>
      rw [hcs] at hc
      obtain ⟨l, hl, hm⟩ := hc
      exact ⟨l, hget _ l hl, hm⟩
    | _ =>
      rw [hcs] at hc
      show s.gone.length < (s.submitted ++ _).length
      rw [List.length_append]
      exact Nat.lt_add_right _ hc

theorem RingInv.advanceHead {s : RingShared} (h : RingInv s) {g : PlanRing} {x : Option PlanLine}
    (hlt : s.gone.length < s.submitted.length) (hhead : g.lineBuffHead = nextPlanLineIndex s.ring.lineBuffHead)
    (htail : g.lineBuffTail = s.ring.lineBuffTail)
    (hmove : ∀ j, SameMove (s.ring.lineBuff j) (g.lineBuff j))
    (husable : ∀ j, j ≠ s.ring.lineBuffHead → (g.lineBuff j).usable = (s.ring.lineBuff j).usable)
    (hx : ∀ line, x = some line → ∃ l, s.submitted[s.gone.length]? = some l ∧ SameMove l line) :
    RingInv { s with ring := g, consumer := .idle, gone := s.gone ++ [x] } := by
  have hroom := h.room
  have hle := h.le
  refine ⟨?_, ?_, ?_, ?_, fun hf => ?_, fun k l hk hl => ?_, fun k hk hk' => ?_, fun hst => ?_, fun k line hl => ?_,
    trivial⟩
  · rw [List.length_append, hhead, h.head]
    exact nextPlanLineIndex_mod _
  · exact htail.trans h.tail
  · rw [List.length_append]
    exact hlt
  · rw [List.length_append, List.length_singleton]
    show s.submitted.length < _
    omega
  · have hf' := h.fills hf
    rw [List.length_append, List.length_singleton]
    show s.submitted.length + 1 < _
    omega
  · rw [List.length_append, List.length_singleton] at hk
    exact (h.slots k l (by omega) hl).trans (hmove _)
  · rw [List.length_append, List.length_singleton] at hk
    have hk' : k < s.submitted.length := hk'
    have hne : k % buffMaxSize ≠ s.ring.lineBuffHead := fun heq => by
      have := h.head_eq (by omega) hk' heq
      omega
    obtain hu | hcalc | ⟨hc, -⟩ := h.usable k (by omega) hk'
    · left
      show (g.lineBuff (k % buffMaxSize)).usable = true
      rw [husable _ hne]
      exact hu
    · exact Or.inr (Or.inl hcalc)
    · omega
  · have hne : s.ring.lineBuffTail ≠ s.ring.lineBuffHead := by
      rw [h.head]
      exact (h.tail_ne le_rfl hlt).symm
    show (g.lineBuff g.lineBuffTail).usable = true
    rw [htail, husable _ hne]
    exact h.stuffed hst
  · rw [List.getElem?_append] at hl
    split_ifs at hl with hk
    · exact h.order k line hl
    · obtain ⟨hk0, hl0⟩ := List.getElem?_eq_some_iff.mp hl
      rw [List.length_singleton] at hk0
      have hke : k = s.gone.length := by omega
      subst hke
      exact hx line (by simpa using hl0)

/-- With room for a line there is room for one more behind the window. -/
theorem RingInv.not_full {s : RingShared} (h : RingInv s) (hfull : isPlanLineBuffFull s.ring = false) :
    s.submitted.length + 1 < s.gone.length + buffMaxSize := by
  have hroom := h.room
  unfold isPlanLineBuffFull at hfull
  rw [h.head, h.tail, nextPlanLineIndex_mod, decide_eq_false_iff_not] at hfull
  by_contra hge
  rw [show s.submitted.length + 1 = s.gone.length + buffMaxSize by omega, Nat.add_mod_right] at hfull
  exact hfull rfl

theorem RingInv.not_empty {s : RingShared} (h : RingInv s) (hempty : isPlanLineBuffEmpty s.ring = false) :
    s.gone.length < s.submitted.length := by
  unfold isPlanLineBuffEmpty at hempty
  rw [h.head, h.tail, decide_eq_false_iff_not] at hempty
  by_contra hge
  rw [Nat.le_antisymm h.le (not_lt.mp hge)] at hempty
  exact hempty rfl

/-- The consumer goes on, and the ring stays. -/
theorem RingInv.consumerPc {s : RingShared} (h : RingInv s) {c : ConsumerPc} (htook : s.consumer.Took → c.Took)
    (hc : c.Holds s) : RingInv { s with consumer := c } := by
  refine h.update rfl rfl (fun k _ _ => SameMove.refl _) h.fills (fun k hk hk' => ?_) h.stuffed hc
  obtain hu | hcalc | ⟨hk0, hc⟩ := h.usable k hk hk'
  · exact Or.inl hu
  · exact Or.inr (Or.inl hcalc)
  · exact Or.inr (Or.inr ⟨hk0, htook hc⟩)

/-- The flag of a slot is stored: what the two threads have to know of it. -/
theorem RingInv.flag {s : RingShared} (h : RingInv s) {index : ℕ} {b : Bool} {p : PlannerPc} {c : ConsumerPc}
    (hfills : p.Fills → s.submitted.length + 1 < s.gone.length + buffMaxSize) (hc : c.Holds s)
    (hcalc : ∀ i tail, s.planner = .calculating i tail → i ≠ index → p = .calculating i tail)
    (htook : s.consumer.Took → c.Took)
    (hclear : b = false → (∃ tail, p = .calculating index tail) ∨ index = s.ring.lineBuffHead ∧ c.Took)
    (hstuffed : p = .stuffed → b = true ∧ index = s.ring.lineBuffTail ∨
      s.planner = .stuffed ∧ index ≠ s.ring.lineBuffTail) :
    RingInv { s with ring := setUsable s.ring index b, planner := p, consumer := c } := by
  refine h.update rfl rfl (fun k _ _ => setUsable_sameMove _ _ _ _) hfills (fun k hk hk' => ?_) (fun hp => ?_) hc
  · rw [setUsable_usable]
    split_ifs with hi
    · cases b with
      | true => exact Or.inl rfl
      | false =>
        obtain ⟨tail, ht⟩ | ⟨hh, ht⟩ := hclear rfl
        · exact Or.inr (Or.inl ⟨tail, by rw [hi, ht]⟩)
        · exact Or.inr (Or.inr ⟨h.head_eq hk hk' (hi.trans hh), ht⟩)
    · obtain hu | ⟨tail, ht⟩ | ⟨hk0, ht⟩ := h.usable k hk hk'
      · exact Or.inl hu
      · exact Or.inr (Or.inl ⟨tail, hcalc _ _ ht hi⟩)
      · exact Or.inr (Or.inr ⟨hk0, htook ht⟩)
  · rw [setUsable_tail, setUsable_usable]
    obtain ⟨hb, hi⟩ | ⟨hst, hi⟩ := hstuffed hp
    · rw [if_pos hi.symm]
      exact hb
    · rw [if_neg hi.symm]
      exact h.stuffed hst

/-- **Step lemma**: every statement of every thread keeps the invariant. -/
theorem ringInv_step {s t : RingShared} {a : RingAct} (h : RingInv s) (hs : RingStep s a t) : RingInv t := by
  cases hs with
  | planFull => exact h
  | planCheck hp hfull =>
    exact h.plannerPc (fun i t ht => by rw [hp] at ht; cases ht) (fun _ => h.not_full hfull) (fun ht => by cases ht)
  | stuff hp hu =>
    refine h.update rfl rfl (fun k hk hk' => ?_) h.fills (fun k hk hk' => ?_) (fun hst => ?_) h.consumer
    · rw [setSlot_of_ne (h.tail_ne hk hk')]
      exact SameMove.refl _
    · rw [setSlot_of_ne (h.tail_ne hk hk')]
      exact h.usable k hk hk'
    · rw [hp] at hst
      cases hst
  | stuffFail hp =>
    exact h.plannerPc (fun i t ht => by rw [hp] at ht; cases ht) (fun hf => hf.elim) (fun ht => by cases ht)
  | stuffUsable hp =>
    exact h.flag (fun _ => h.fills (by rw [hp]; trivial)) h.consumer (fun i t ht _ => by rw [hp] at ht; cases ht) id
      (fun hb => by cases hb) (fun _ => Or.inl ⟨rfl, rfl⟩)
  | advanceTail hp => exact ringInv_advanceTail h hp
  | scan hp hl => exact h.rewrite ⟨rfl, rfl, rfl⟩ hl
  | scanned hp =>
    exact h.plannerPc (fun i t ht => by rw [hp] at ht; cases ht) (fun hf => hf.elim) (fun ht => by cases ht)
  | trapezoidEnd hp =>
    exact h.plannerPc (fun i t ht => by rw [hp] at ht; cases ht) (fun hf => hf.elim) (fun ht => by cases ht)
  | trapezoidSkip hp =>
    exact h.plannerPc (fun i t ht => by rw [hp] at ht; cases ht) (fun hf => hf.elim) (fun ht => by cases ht)
  | trapezoidLine hp =>
    exact h.plannerPc (fun i t ht => by rw [hp] at ht; cases ht) (fun hf => hf.elim) (fun ht => by cases ht)
  | mark hp =>
    exact h.flag (fun hf => hf.elim) h.consumer (fun i t ht _ => by rw [hp] at ht; cases ht) id
      (fun _ => Or.inl ⟨_, rfl⟩) (fun hst => by cases hst)
  | calculate hp hl => exact h.rewrite ⟨rfl, rfl, rfl⟩ hl
  | unmark hp =>
    refine h.flag (fun hf => hf.elim) h.consumer (fun i t ht hi => ?_) id (fun hb => by cases hb)
      (fun hst => by cases hst)
    rw [hp] at ht
    cases ht
    exact absurd rfl hi
  | fetchEmpty => exact h
  | fetchCheck hc hempty => exact h.consumerPc (fun ht => by rw [hc] at ht; exact ht.elim) (h.not_empty hempty)
  | fetchUnusable hc _ => exact h.consumerPc (fun ht => by rw [hc] at ht; exact ht.elim) trivial
  | fetchUsable hc _ =>
    have hlt := h.consumer
    rw [hc] at hlt
    exact h.consumerPc (fun ht => by rw [hc] at ht; exact ht.elim) hlt
  | take hc =>
    have hlt := h.consumer
    rw [hc] at hlt
    have hne : s.ring.lineBuffHead ≠ s.ring.lineBuffTail := by
      rw [h.head]
      exact h.tail_ne le_rfl hlt
    exact h.flag h.fills hlt (fun i t ht _ => ht) (fun _ => trivial) (fun _ => Or.inr ⟨rfl, trivial⟩)
      (fun hst => Or.inr ⟨hst, hne⟩)
  | copy hc =>
    have hlt : s.gone.length < s.submitted.length := by
      have hlt := h.consumer
      rwa [hc] at hlt
    -- the line at the head is the oldest one, whatever its flag is now
    have hget : s.submitted[s.gone.length]? = some s.submitted[s.gone.length] := List.getElem?_eq_getElem hlt
    refine h.consumerPc (fun _ => trivial) ⟨_, hget, ?_⟩
    have hslot := h.slots _ _ le_rfl hget
    rw [← h.head] at hslot
    exact hslot.trans (SameMove.withUsable _ _)
  | @advanceHead line hc =>
    have hcopied := h.consumer
    rw [hc] at hcopied
    obtain ⟨l, hl, hm⟩ := hcopied
    refine h.advanceHead (List.getElem?_eq_some_iff.mp hl).1 rfl rfl (fun _ => SameMove.refl _) (fun _ _ => rfl)
      fun line' hline => ?_
    rw [← Option.some.inj hline]
    exact ⟨l, hl, hm⟩
  | clear hc hempty =>
    have hstep := h.advanceHead (x := none) (h.not_empty hempty)
      (g := { setUsable s.ring s.ring.lineBuffHead false with lineBuffHead := nextPlanLineIndex s.ring.lineBuffHead })
      rfl rfl (fun j => setUsable_sameMove s.ring s.ring.lineBuffHead j false) (fun j hj => ?_)
      (fun line hline => by cases hline)
    · rw [hc]
      exact hstep
    · show ((setUsable s.ring s.ring.lineBuffHead false).lineBuff j).usable = _
      rw [setUsable_usable, if_neg hj]

end Inv

/-! ## Undisturbed threads -/

section Alone

open Relation

/-- The statements of one thread only. -/
abbrev Alone (a : RingAct) : RingShared → RingShared → Prop := ReflTransGen fun s t => RingStep s a t

/-- The look-ahead's stores on the lines of `s`. -/
def scanState (s : RingShared) (buff : ℕ → PlanLine) (smoothIndex : ℕ) : RingShared :=
  { s with ring := { s.ring with lineBuff := buff, smoothIndex := smoothIndex }, planner := .scanning }

theorem scan_update {s : RingShared} {buff : ℕ → PlanLine} {i : ℕ} {line : PlanLine} (h : Rewrites (buff i) line)
    (smooth smooth' : ℕ) :
    Alone .planner (scanState s buff smooth) (scanState s (Function.update buff i line) smooth') :=
  ReflTransGen.single (RingStep.scan rfl h)

theorem scan_smooth (s : RingShared) (buff : ℕ → PlanLine) (smooth smooth' : ℕ) :
    Alone .planner (scanState s buff smooth) (scanState s buff smooth') := by
  have h := @scan_update s buff 0 _ ⟨SameMove.refl _, rfl⟩ smooth smooth'
  rwa [Function.update_eq_self] at h

theorem reverseAdjust_rewrites (l : PlanLine) (next : Option PlanLine) : Rewrites l (reverseAdjust l next) :=
  ⟨SameMove.refl _, rfl⟩

theorem forwardAdjust_rewrites (l k : PlanLine) :
    Rewrites l (forwardAdjust l k).1 ∧ Rewrites k (forwardAdjust l k).2 :=
  ⟨⟨SameMove.refl _, rfl⟩, ⟨SameMove.refl _, rfl⟩⟩

theorem calculateForLine_rewrites (l : PlanLine) : Rewrites l (calculateForLine l) := by
  refine ⟨fun a => ?_, rfl⟩
  unfold calculateForLine
  dsimp only
  split_ifs <;> exact ⟨rfl, rfl⟩

theorem reverseLoop_alone (s : RingShared) (smooth : ℕ) : ∀ (fuel : ℕ) (buff : ℕ → PlanLine) (index : ℕ)
    (next : Option ℕ), Alone .planner (scanState s buff smooth)
      (scanState s (reverseLoop smooth fuel buff index next) smooth)
  | 0, buff, index, next => ReflTransGen.refl
  | fuel + 1, buff, index, next => by
    have h1 := scan_update (s := s) (reverseAdjust_rewrites (buff index) (next.map buff)) smooth smooth
    unfold reverseLoop
    dsimp only
    split_ifs
    · exact ReflTransGen.refl
    · exact h1.trans (reverseLoop_alone s smooth fuel _ _ _)
    · exact h1

theorem forwardLoop_alone (s : RingShared) (tail : ℕ) : ∀ (fuel : ℕ) (buff : ℕ → PlanLine) (smooth index : ℕ)
    (previous : Option ℕ), Alone .planner (scanState s buff smooth)
      (scanState s (forwardLoop tail fuel buff smooth index previous).1
        (forwardLoop tail fuel buff smooth index previous).2)
  | 0, buff, smooth, index, previous => ReflTransGen.refl
  | fuel + 1, buff, smooth, index, previous => by
    unfold forwardLoop
    dsimp only
    split_ifs
    · exact ReflTransGen.refl
    · cases previous with
      | none => exact forwardLoop_alone s tail fuel _ _ _ _
      | some p =>
        obtain ⟨h1, h2⟩ := forwardAdjust_rewrites (buff p) (buff index)
        have hp := scan_update (s := s) h1 smooth smooth
        -- the two lines are in different slots, or the second store is of a line rewritten twice
        have hi : Rewrites (Function.update buff p (forwardAdjust (buff p) (buff index)).1 index)
            (forwardAdjust (buff p) (buff index)).2 := by
          obtain rfl | hne := eq_or_ne index p
          · rw [Function.update_self]
            exact ⟨SameMove.refl _, rfl⟩
          · rw [Function.update_of_ne hne]
            exact h2
        exact (hp.trans (scan_update hi smooth smooth)).trans (forwardLoop_alone s tail fuel _ _ _ _)
    · exact (scan_smooth s buff smooth index).trans (forwardLoop_alone s tail fuel _ _ _ _)

/-- The loop of `TrapezoidCalculate`, undisturbed. -/
theorem trapezoidLoop_alone (s : RingShared) {tail : ℕ} (ht : tail < buffMaxSize) :
    ∀ (fuel : ℕ) (buff : ℕ → PlanLine) (index : ℕ), index < buffMaxSize →
      (tail + buffMaxSize - index) % buffMaxSize ≤ fuel →
      Alone .planner { s with ring := { s.ring with lineBuff := buff }, planner := .trapezoid index tail }
        { s with ring := { s.ring with lineBuff := trapezoidLoop tail fuel buff index }, planner := .idle }
  | 0, buff, index, hi, hfuel => by
    have heq : index = tail := by
      unfold buffMaxSize at *
      omega
    rw [heq]
    exact ReflTransGen.single (.trapezoidEnd rfl)
  | fuel + 1, buff, index, hi, hfuel => by
    unfold trapezoidLoop
    by_cases heq : index = tail
    · rw [if_pos heq, heq]
      exact ReflTransGen.single (.trapezoidEnd rfl)
    · have hi' : nextPlanLineIndex index < buffMaxSize := Nat.mod_lt _ (by decide)
      have hfuel' : (tail + buffMaxSize - nextPlanLineIndex index) % buffMaxSize ≤ fuel := by
        unfold nextPlanLineIndex
        unfold buffMaxSize at *
        omega
      rw [if_neg heq]
      dsimp only
      by_cases hu : (buff index).usable = true
      · rw [if_pos hu]
        have hloop := trapezoidLoop_alone s ht fuel (Function.update buff index (calculateForLine (buff index)))
          (nextPlanLineIndex index) hi' hfuel'
        refine .head (.trapezoidLine rfl heq hu) (.head (.mark rfl) (.head
          (@RingStep.calculate _ _ _ (calculateForLine { buff index with usable := false }) rfl ?_)
          (.head (.unmark rfl) ?_)))
        · rw [setUsable, setSlot_same]
          exact calculateForLine_rewrites _
        · have hbuff : (setUsable (setSlot (setUsable { s.ring with lineBuff := buff } index false) index
              (calculateForLine { buff index with usable := false })) index true) =
              { s.ring with lineBuff := Function.update buff index (calculateForLine (buff index)) } := by
            have hline : { calculateForLine { buff index with usable := false } with usable := true } =
                calculateForLine (buff index) := by
              show { calculateForLine (buff index) with usable := true } = calculateForLine (buff index)
              rw [← hu]
              rfl
            unfold setUsable setSlot
            simp only [Function.update_self, Function.update_idem]
            rw [hline]
          dsimp only
          rw [hbuff]
          exact hloop
      · rw [if_neg hu]
        exact .head (.trapezoidSkip rfl heq (by simpa using hu)) (trapezoidLoop_alone s ht fuel buff _ hi' hfuel')

theorem smoothRecalc_alone {s : RingShared} (hp : s.planner = .scanning) (hhead : s.ring.lineBuffHead < buffMaxSize)
    (htail : s.ring.lineBuffTail < buffMaxSize) :
    Alone .planner s { s with ring := smoothRecalc s.ring, planner := .idle } := by
  obtain ⟨g, planner, consumer, submitted, gone⟩ := s
  dsimp only at hp hhead htail
  subst hp
  have htrapezoid : ∀ buff smooth,
      Alone .planner (scanState ⟨g, .scanning, consumer, submitted, gone⟩ buff smooth)
        ⟨trapezoidCalculate { g with lineBuff := buff, smoothIndex := smooth }, .idle, consumer, submitted, gone⟩ := by
    intro buff smooth
    exact .head (.scanned rfl) (trapezoidLoop_alone
      ⟨{ g with lineBuff := buff, smoothIndex := smooth }, .idle, consumer, submitted, gone⟩ htail buffMaxSize buff
      g.lineBuffHead hhead (Nat.mod_lt _ (by decide)).le)
  unfold smoothRecalc
  dsimp only
  split_ifs with h
  · have hreverse := reverseLoop_alone ⟨g, .scanning, consumer, submitted, gone⟩ g.smoothIndex buffMaxSize g.lineBuff
      (prevPlanLineIndex g.lineBuffTail) none
    have hforward := forwardLoop_alone ⟨g, .scanning, consumer, submitted, gone⟩ g.lineBuffTail buffMaxSize
      (reverseScan g).lineBuff g.smoothIndex g.smoothIndex none
    exact (hreverse.trans hforward).trans (htrapezoid _ _)
  · exact htrapezoid g.lineBuff g.smoothIndex

/-- **`PlanLine` and `PlanRetract` undisturbed** do what the planner as a whole does. -/
theorem planBlock_alone {m : Machine} {p : Planner} {d : Axis → ℚ} {request : ℚ × ℚ} {line : PlanLine}
    {previous : Previous} {s : RingShared} (hring : s.ring = p.ring) (hp : s.planner = .idle)
    (hhead : p.ring.lineBuffHead < buffMaxSize) (hfull : isPlanLineBuffFull p.ring = false)
    (hst : stuffTail m p d request = some (line, previous)) :
    Alone .planner s { s with
      ring := (planBlock m p d request).2.ring
      submitted := s.submitted ++ [{ line with usable := true }] } := by
  obtain ⟨ring, planner, consumer, submitted, gone⟩ := s
  dsimp only at hring hp
  subst hring hp
  unfold planBlock
  rw [hst]
  dsimp only
  set g := pushLine p.ring line with hg
  -- up to the look-ahead
  have hpush : Alone .planner ⟨p.ring, .idle, consumer, submitted, gone⟩
      ⟨g, .scanning, consumer, submitted ++ [{ line with usable := true }], gone⟩ := by
    refine .head (.planCheck rfl hfull) (.head (@RingStep.stuff _ { line with
      usable := (p.ring.lineBuff p.ring.lineBuffTail).usable } rfl rfl) (.head (.stuffUsable rfl)
      (.head (.advanceTail rfl) ?_)))
    have hslot : setUsable (setSlot p.ring p.ring.lineBuffTail { line with
        usable := (p.ring.lineBuff p.ring.lineBuffTail).usable }) p.ring.lineBuffTail true =
        { p.ring with
          lineBuff := Function.update p.ring.lineBuff p.ring.lineBuffTail { line with usable := true } } := by
      unfold setUsable setSlot
      simp only [Function.update_self, Function.update_idem]
    dsimp only
    rw [setSlot_tail, hslot]
    simp only [Function.update_self]
    exact ReflTransGen.refl
  refine hpush.trans ?_
  exact smoothRecalc_alone (s := ⟨g, .scanning, consumer, submitted ++ [{ line with usable := true }], gone⟩) rfl hhead
    (Nat.mod_lt _ (by decide))

/-- **`GetNextPlanLine` undisturbed** does what it does as a whole. -/
theorem getNextPlanLine_alone {s : RingShared} (hc : s.consumer = .idle) :
    Alone .consumer s { s with
      ring := (getNextPlanLine s.ring).2
      gone := s.gone ++ ((getNextPlanLine s.ring).1.map some).toList } := by
  obtain ⟨g, planner, consumer, submitted, gone⟩ := s
  dsimp only at hc
  subst hc
  unfold getNextPlanLine
  dsimp only
  by_cases hempty : isPlanLineBuffEmpty g = true
  · rw [if_pos hempty]
    simp only [Option.map_none, Option.toList_none, List.append_nil]
    exact ReflTransGen.refl
  · rw [if_neg hempty]
    have hcheck : isPlanLineBuffEmpty g = false := by simpa using hempty
    by_cases husable : (g.lineBuff g.lineBuffHead).usable = true
    · rw [if_pos husable]
      refine .head (.fetchCheck rfl hcheck) (.head (.fetchUsable rfl husable) (.head (.take rfl) (.head (.copy rfl)
        (.head (.advanceHead rfl) ?_))))
      have hline : { (setUsable g g.lineBuffHead false).lineBuff g.lineBuffHead with usable := true } =
          { g.lineBuff g.lineBuffHead with usable := true } := by
        rw [setUsable, setSlot_same]
      dsimp only [setUsable_head]
      rw [hline]
      exact ReflTransGen.refl
    · rw [if_neg husable]
      simp only [Option.map_none, Option.toList_none, List.append_nil]
      exact .head (.fetchCheck rfl hcheck) (.single (.fetchUnusable rfl (by simpa using husable)))

end Alone

/-! ## Runs -/

section Runs

open Relation

/-- The oldest line can be fetched between two fetches, unless it is just being laid out. -/
theorem RingInv.fetched {s : RingShared} (h : RingInv s) (hc : s.consumer = .idle)
    (hlt : s.gone.length < s.submitted.length) (hcalc : ∀ tail, s.planner ≠ .calculating s.ring.lineBuffHead tail) :
    ∃ line l, (getNextPlanLine s.ring).1 = some line ∧ s.submitted[s.gone.length]? = some l ∧ SameMove l line := by
  have hempty : isPlanLineBuffEmpty s.ring = false := by
    have hne := h.tail_ne le_rfl hlt
    rw [← h.head] at hne
    exact decide_eq_false hne
  have husable : (s.ring.lineBuff s.ring.lineBuffHead).usable = true := by
    rw [h.head]
    obtain hu | ⟨tail, ht⟩ | ⟨-, ht⟩ := h.usable _ le_rfl hlt
    · exact hu
    · rw [← h.head] at ht
      exact absurd ht (hcalc tail)
    · rw [hc] at ht
      exact ht.elim
  have hget : s.submitted[s.gone.length]? = some s.submitted[s.gone.length] := List.getElem?_eq_getElem hlt
  have hslot := h.slots _ _ le_rfl hget
  rw [← h.head] at hslot
  refine ⟨_, _, ?_, hget, hslot.trans (SameMove.withUsable _ true)⟩
  unfold getNextPlanLine
  rw [if_neg (by rw [hempty]; exact Bool.false_ne_true)]
  dsimp only
  rw [if_pos husable]

theorem RingInv.alone {s t : RingShared} {a : RingAct} (h : RingInv s) (hs : Alone a s t) : RingInv t := by
  induction hs with
  | refl => exact h
  | tail _ hstep ih => exact ringInv_step ih hstep

theorem Alone.thread {s t : RingShared} {a : RingAct} (h : Alone a s t) (ha : a ≠ .clear) :
    ReflTransGen ThreadStep s t := by
  induction h with
  | refl => exact .refl
  | tail _ hstep ih => exact ih.tail ⟨a, ha, hstep⟩

/-- Between two fetches, and while no line is being laid out, the consumer alone takes all pending lines. -/
theorem RingInv.drain {s : RingShared} (h : RingInv s) (hc : s.consumer = .idle)
    (hcalc : ∀ index tail, s.planner ≠ .calculating index tail) :
    ∃ t, Alone .consumer s t ∧ t.submitted = s.submitted ∧ t.gone.length = s.submitted.length := by
  induction hn : s.submitted.length - s.gone.length generalizing s with
  | zero => exact ⟨s, .refl, rfl, Nat.le_antisymm h.le (Nat.sub_eq_zero_iff_le.mp hn)⟩
  | succ n ih =>
    obtain ⟨line, l, hline, -, -⟩ := h.fetched hc (by omega) (hcalc _)
    have hfetch := getNextPlanLine_alone hc
    rw [hline] at hfetch
    obtain ⟨t, ht, hsub, hgone⟩ := ih (h.alone hfetch) hc hcalc (by simp; omega)
    exact ⟨t, hfetch.trans ht, hsub, hgone⟩

theorem RingInv.fetchEnds {s : RingShared} (h : RingInv s) :
    ∃ t, Alone .consumer s t ∧ t.consumer = .idle ∧ t.planner = s.planner ∧ t.submitted = s.submitted := by
  obtain ⟨g, planner, consumer, submitted, gone⟩ := s
  have hcopied : ∀ g line, ∃ t, Alone .consumer ⟨g, planner, .copied line, submitted, gone⟩ t ∧ t.consumer = .idle ∧
      t.planner = planner ∧ t.submitted = submitted := fun g line => ⟨_, .single (.advanceHead rfl), rfl, rfl, rfl⟩
  have hcopying : ∀ g, ∃ t, Alone .consumer ⟨g, planner, .copying, submitted, gone⟩ t ∧ t.consumer = .idle ∧
      t.planner = planner ∧ t.submitted = submitted := by
    intro g
    obtain ⟨t, ht, hrest⟩ := hcopied g _
    exact ⟨t, .head (.copy rfl) ht, hrest⟩
  have htaking : ∀ g, ∃ t, Alone .consumer ⟨g, planner, .taking, submitted, gone⟩ t ∧ t.consumer = .idle ∧
      t.planner = planner ∧ t.submitted = submitted := by
    intro g
    obtain ⟨t, ht, hrest⟩ := hcopying _
    exact ⟨t, .head (.take rfl) ht, hrest⟩
  cases consumer with
  | idle => exact ⟨_, .refl, rfl, rfl, rfl⟩
  | checking =>
    by_cases hu : (g.lineBuff g.lineBuffHead).usable = true
    · obtain ⟨t, ht, hrest⟩ := htaking g
      exact ⟨t, .head (.fetchUsable rfl hu) ht, hrest⟩
    · exact ⟨_, .single (.fetchUnusable rfl (by simpa using hu)), rfl, rfl, rfl⟩
  | taking => exact htaking g
  | copying => exact hcopying g
  | copied line => exact hcopied g line

/-- A line that is being laid out becomes usable again. -/
theorem planner_leaves (s : RingShared) :
    ∃ t, Alone .planner s t ∧ (∀ index tail, t.planner ≠ .calculating index tail) ∧ t.submitted = s.submitted := by
  by_cases h : ∃ index tail, s.planner = .calculating index tail
  · obtain ⟨index, tail, hp⟩ := h
    exact ⟨_, .single (.unmark hp), fun i t ht => (by cases ht), rfl⟩
  · exact ⟨s, .refl, fun index tail hp => h ⟨index, tail, hp⟩, rfl⟩

/-- Wherever the threads stand, all submitted lines can be handed over. -/
theorem RingInv.drains {s : RingShared} (h : RingInv s) :
    ∃ t, ReflTransGen ThreadStep s t ∧ t.submitted = s.submitted ∧ t.gone.length = s.submitted.length := by
  obtain ⟨t, hst, hcalc, hsub⟩ := planner_leaves s
  have ht := h.alone hst
  obtain ⟨u, htu, hc, hp, hsub'⟩ := ht.fetchEnds
  obtain ⟨v, huv, hsub'', hgone⟩ := (ht.alone htu).drain hc (by rw [hp]; exact hcalc)
  rw [hsub', hsub] at hsub'' hgone
  refine ⟨v, ?_, hsub'', hgone⟩
  exact ((hst.thread (by decide)).trans (htu.thread (by decide))).trans (huv.thread (by decide))

/-- What the invariant says to the users of the ring. -/
theorem RingInv.delivered {s : RingShared} (h : RingInv s) : Delivered s where
  order := h.order
  pending := by
    rw [h.num]
    exact Nat.add_sub_of_le h.le
  bound := by
    have hroom := h.room
    rw [h.num]
    omega
  kept := by
    intro k hk
    rw [h.num] at hk
    have hlt : s.gone.length + k < s.submitted.length := by omega
    have hget : s.submitted[s.gone.length + k]? = some s.submitted[s.gone.length + k] := List.getElem?_eq_getElem hlt
    refine ⟨_, hget, ?_⟩
    rw [h.head, Nat.mod_add_mod]
    exact h.slots _ _ (Nat.le_add_right _ _) hget
  untouched := by
    intro k hk
    rw [h.num] at hk
    rw [h.head, Nat.mod_add_mod]
    exact h.tail_ne (Nat.le_add_right _ _) (by omega)
  fetched := by
    intro hc hnum hcalc
    rw [h.num] at hnum
    exact h.fetched hc (by omega) hcalc
  drains := h.drains

/-- Only `PlanLineBuffClear` discards a line. -/
theorem none_not_mem_gone {s : RingShared} {acts : List RingAct} (h : Run RingStep initShare acts s)
    (hclear : RingAct.clear ∉ acts) : none ∉ s.gone := by
  induction h with
  | nil => exact List.not_mem_nil
  | snoc _ hstep ih =>
    rw [List.mem_append, not_or] at hclear
    have hold := ih hclear.1
    cases hstep with
    | advanceHead => simpa using hold
    | clear => exact absurd (List.mem_singleton_self _) hclear.2
    | _ => exact hold

/-- **Exactly-once delivery**: after any interleaving of the statements of the two threads the lines that have left the
ring are the first ones submitted, in their order, and the rest are in their slots; unless the ring was cleared, all
that left were handed over. -/
theorem planRing_exactlyOnce {s : RingShared} {acts : List RingAct} (h : Run RingStep initShare acts s) :
    Delivered s ∧ (RingAct.clear ∉ acts → none ∉ s.gone) :=
  ⟨(h.invariant ringInv_init fun _ _ _ => ringInv_step).delivered, none_not_mem_gone h⟩

/-- A line of three steps. -/
def shortLine : PlanLine := { PlanLine.zero with axis := fun _ => ⟨.forward, 3, 0, 0, 0, 0, 0⟩ }

/-- The line is fetched between the test of `Usable` in `TrapezoidCalculate` and the store: it is handed over once, and
its slot, usable again, is outside the window. -/
theorem planRing_exactlyOnce_race : ∃ s acts, Run RingStep initShare acts s ∧ s.planner = .idle ∧ s.gone.length = 1 ∧
    (s.ring.lineBuff 0).usable = true ∧ getPlanLineBuffNum s.ring = 0 ∧ Delivered s ∧ none ∉ s.gone := by
  have hstart : Run RingStep initShare [] initShare := Run.nil _
  have hsubmit := ((((hstart.snoc (.planCheck rfl rfl)).snoc (@RingStep.stuff _ shortLine rfl rfl)).snoc
    (.stuffUsable rfl)).snoc (.advanceTail rfl)).snoc (.scanned rfl)
  have hfetch := (((((hsubmit.snoc (.trapezoidLine rfl (by decide) rfl)).snoc (.fetchCheck rfl rfl)).snoc
    (.fetchUsable rfl rfl)).snoc (.take rfl)).snoc (.copy rfl)).snoc (.advanceHead rfl)
  have hrun := (((hfetch.snoc (.mark rfl)).snoc (.calculate rfl (calculateForLine_rewrites _))).snoc (.unmark rfl)).snoc
    (.trapezoidEnd rfl)
  have hall := planRing_exactlyOnce hrun
  exact ⟨_, _, hrun, rfl, rfl, rfl, rfl, hall.1, hall.2 (by decide)⟩

end Runs

end Cxsw.Motion
