import Cxsw.CrMotion.CalcTicks

/-!
# Cxsw.CrMotion.QuickStop — the quick stop (`CrMotion/StepperApi.cpp`)

`SteppersStopQuick` empties the ring, discards the line in `Substance` and resets the FIFO, one after the other, while
the thread of `Calc` and the step interrupt go on; `StepperTimerStop` only delays the next interrupt.  What `Calc` holds
between these three is out of reach: a line that it has copied before it stores `Usable`, and a record that it is
writing.

* `QuickStep`: the stop beside the other parties, statement by statement.
* `Final`: no record of a line planned before a stop that has returned is put into the FIFO or executed.
* `quickStop_final`: in the runs in which `Calc` holds nothing at the decisive statements the stop is final.
* `record_outlives_stop`: a record that was held, behind the stop.
-/

namespace Cxsw.Motion

open Fifo

/-! ## The stop -/

section Defs

/-- Where `SteppersStopQuick` stands. -/
inductive StopPc
  | idle
  /-- The head of the loop of `PlanLineBuffClear`. -/
  | clearing
  | clearFlag
  | clearHead
  | discarding
  /-- In `CommonRstFifo`. -/
  | resetting (pc : RstPc)
  deriving DecidableEq

/-- The thread of `Calc` and what it shares, and the stop; the lines that had been planned when the stop was called, and
those when the last stop that has returned was called. -/
structure QuickStop where
  ticks : CalcTicks
  pc : StopPc
  started : ℕ
  barrier : ℕ

def initQuickStop : QuickStop := ⟨initTicks, .idle, 0, 0⟩

/-- Whose statement is next. -/
inductive QuickAct
  | statement (motionNum : ℕ)
  | plan (line : PlanLine)
  | interrupt
  /-- The stop is called. -/
  | call
  /-- Its next statement. -/
  | stop

/-- The next statement of the stop. -/
def stopStatement (s : QuickStop) : QuickStop :=
  match s.pc with
  | .idle => s
  | .clearing => { s with pc := if isPlanLineBuffEmpty s.ticks.ring then .discarding else .clearFlag }
  | .clearFlag => { s with ticks := clearFlag s.ticks, pc := .clearHead }
  | .clearHead => { s with ticks := clearHead s.ticks, pc := .clearing }
  | .discarding => { s with ticks := discardCurrentLine s.ticks, pc := .resetting .idle }
  | .resetting .idle => { s with ticks := rstStore s.ticks .idle, pc := .resetting .readIndexStored }
  | .resetting .readIndexStored =>
    { s with ticks := rstStore s.ticks .readIndexStored, pc := .resetting .writeIndexStored }
  | .resetting .writeIndexStored =>
    { s with ticks := rstStore s.ticks .writeIndexStored, pc := .resetting .leftSlotStored }
  | .resetting .leftSlotStored =>
    { s with ticks := rstStore s.ticks .leftSlotStored, pc := .idle, barrier := s.started }

/-- The statement of the others. -/
def QuickAct.tick : QuickAct → Option TickAct
  | .statement motionNum => some (.statement motionNum)
  | .plan line => some (.plan line)
  | .interrupt => some .interrupt
  | _ => none

/-- The state after a statement. -/
def quickAct (s : QuickStop) : QuickAct → QuickStop
  | .statement motionNum => { s with ticks := tickAct s.ticks (.statement motionNum) }
  | .plan line => { s with ticks := tickAct s.ticks (.plan line) }
  | .interrupt => { s with ticks := tickAct s.ticks .interrupt }
  | .call => if s.pc = .idle then { s with pc := .clearing, started := s.ticks.submitted } else s
  | .stop => stopStatement s

/-- The same as a relation. -/
def QuickStep (s : QuickStop) (a : QuickAct) (t : QuickStop) : Prop := t = quickAct s a

/-- A record that is put into the FIFO or executed belongs to a line that was planned later than the last stop. -/
def Final (s : QuickStop) (a : QuickAct) : Prop :=
  ∀ b ∈ a.tick, ∀ k, enqueues s.ticks b = some k ∨ executes s.ticks b = some k → s.barrier ≤ k

/-- Where the stop moves the head, `Calc` is not in `GetNextPlanLine`, nor has it taken the last line; where it clears
`Usable`, `Calc` is not about to store it for an old line; and where it has reset the FIFO, `Calc` holds no record of
one. -/
def StopOk (s : QuickStop) : QuickAct → Prop
  | .stop =>
    match s.pc with
    | .clearHead => ¬s.ticks.pc.Getting ∧ isPlanLineBuffEmpty s.ticks.ring = false
    | .discarding => s.ticks.pc.Fetched → s.started ≤ s.ticks.lineNo
    | .resetting .leftSlotStored => s.ticks.pc.Passing → s.started ≤ s.ticks.lineNo
    | _ => True
  | _ => True

instance (s : QuickStop) (a : QuickAct) : Decidable (StopOk s a) := by
  unfold StopOk
  cases a <;> dsimp only <;> first | infer_instance | (split <;> infer_instance)

end Defs

/-! ## What is left of the old lines -/

section From

/-- The slots of the ring between the head and the tail. -/
def Window (g : PlanRing) (i : ℕ) : Prop :=
  i < buffMaxSize ∧ (i + buffMaxSize - g.lineBuffHead) % buffMaxSize < getPlanLineBuffNum g

/-- The indices are in range, and `Calc` is in `GetNextPlanLine` only while there is a line. -/
structure RingBase (s : CalcTicks) : Prop where
  head : s.ring.lineBuffHead < buffMaxSize
  tail : s.ring.lineBuffTail < buffMaxSize
  getting : s.pc.Getting → s.ring.lineBuffHead ≠ s.ring.lineBuffTail

/-- No line of the ring is older than `b`. -/
def RingFrom (b : ℕ) (s : CalcTicks) : Prop := ∀ i, Window s.ring i → b ≤ s.slotNo i

/-- Nor is the line in `Substance`, if it is usable or about to be. -/
def LineFrom (b : ℕ) (s : CalcTicks) : Prop := s.substance.line.usable = true ∨ s.pc.Fetched → b ≤ s.lineNo

/-- Nor the one whose record `Calc` holds. -/
def PassFrom (b : ℕ) (s : CalcTicks) : Prop := s.pc.Passing → b ≤ s.lineNo

/-- Nor any whose record is in the FIFO. -/
def CellsFrom (b : ℕ) (s : CalcTicks) : Prop := ∀ c k, s.cellNo c = some k → b ≤ k

theorem isPlanLineBuffEmpty_iff {g : PlanRing} : isPlanLineBuffEmpty g = true ↔ g.lineBuffHead = g.lineBuffTail :=
  decide_eq_true_iff

theorem window_head {g : PlanRing} (hh : g.lineBuffHead < buffMaxSize) (ht : g.lineBuffTail < buffMaxSize)
    (hne : g.lineBuffHead ≠ g.lineBuffTail) : Window g g.lineBuffHead := by
  unfold Window getPlanLineBuffNum buffMaxSize at *
  omega

/-- A line leaves the window. -/
theorem window_advance {g : PlanRing} (hh : g.lineBuffHead < buffMaxSize) (ht : g.lineBuffTail < buffMaxSize)
    (hne : g.lineBuffHead ≠ g.lineBuffTail) {i : ℕ}
    (h : Window { g with lineBuffHead := nextPlanLineIndex g.lineBuffHead } i) : Window g i := by
  unfold Window getPlanLineBuffNum nextPlanLineIndex buffMaxSize at *
  dsimp only at h
  omega

theorem window_push {g g' : PlanRing} (hh : g.lineBuffHead < buffMaxSize) (ht : g.lineBuffTail < buffMaxSize)
    (hfull : isPlanLineBuffFull g = false) (hh' : g'.lineBuffHead = g.lineBuffHead)
    (ht' : g'.lineBuffTail = nextPlanLineIndex g.lineBuffTail) {i : ℕ} (h : Window g' i) :
    Window g i ∨ i = g.lineBuffTail := by
  have hnot : g.lineBuffHead ≠ nextPlanLineIndex g.lineBuffTail := of_decide_eq_false hfull
  unfold Window getPlanLineBuffNum at *
  rw [hh', ht'] at h
  unfold nextPlanLineIndex buffMaxSize at *
  omega

theorem nextPlanLineIndex_lt (i : ℕ) : nextPlanLineIndex i < buffMaxSize := Nat.mod_lt _ (by decide)

theorem smoothRecalc_tail (g : PlanRing) : (smoothRecalc g).lineBuffTail = g.lineBuffTail := by
  unfold smoothRecalc
  dsimp only
  split_ifs <;> rfl

/-! ### What a statement of the thread does -/

theorem statement_slots (n : ℕ) (s : CalcTicks) :
    (calcStatement n s).ring.lineBuffTail = s.ring.lineBuffTail ∧ (calcStatement n s).slotNo = s.slotNo ∧
      (calcStatement n s).submitted = s.submitted := by
  unfold calcStatement
  cases s.pc <;> dsimp only <;> first | exact ⟨rfl, rfl, rfl⟩ | (split_ifs <;> exact ⟨rfl, rfl, rfl⟩)

/-- The head moves where a line was found. -/
theorem statement_head (n : ℕ) (s : CalcTicks) :
    ((calcStatement n s).ring.lineBuffHead = s.ring.lineBuffHead ∧
        ((calcStatement n s).pc.Getting → s.pc.Getting ∨ s.ring.lineBuffHead ≠ s.ring.lineBuffTail)) ∨
      (s.pc.Getting ∧ (calcStatement n s).ring.lineBuffHead = nextPlanLineIndex s.ring.lineBuffHead ∧
        ¬(calcStatement n s).pc.Getting) := by
  unfold calcStatement
  cases hpc : s.pc with
  | advancing => exact Or.inr ⟨trivial, rfl, id⟩
  | next =>
    left
    dsimp only
    split_ifs with hempty
    · exact ⟨rfl, fun h => h.elim⟩
    · exact ⟨rfl, fun _ => Or.inr fun heq => hempty (isPlanLineBuffEmpty_iff.mpr heq)⟩
  | checking =>
    left
    dsimp only
    split_ifs <;> exact ⟨rfl, fun _ => Or.inl trivial⟩
  | taking => exact Or.inl ⟨rfl, fun _ => Or.inl trivial⟩
  | copying => exact Or.inl ⟨rfl, fun _ => Or.inl trivial⟩
  | marking => exact Or.inl ⟨rfl, fun _ => Or.inl trivial⟩
  | writing record =>
    left
    dsimp only
    split_ifs
    · exact ⟨rfl, fun h => by rw [hpc] at h; exact h.elim⟩
    · exact ⟨rfl, fun h => h.elim⟩
  | outside => exact Or.inl ⟨rfl, fun h => h.elim⟩
  | preparing => exact Or.inl ⟨rfl, fun h => h.elim⟩
  | storing record => exact Or.inl ⟨rfl, fun h => h.elim⟩
  | _ =>
    left
    dsimp only
    split_ifs <;> exact ⟨rfl, fun h => h.elim⟩

/-- Where the line in `Substance` comes from. -/
theorem statement_line (n : ℕ) (s : CalcTicks) :
    ((calcStatement n s).lineNo = s.lineNo ∧
        ((calcStatement n s).substance.line.usable = true ∨ (calcStatement n s).pc.Fetched →
          s.substance.line.usable = true ∨ s.pc.Fetched)) ∨
      (s.pc.Getting ∧ (calcStatement n s).lineNo = s.slotNo s.ring.lineBuffHead) := by
  unfold calcStatement
  cases hpc : s.pc with
  | copying => exact Or.inr ⟨trivial, rfl⟩
  | marking => exact Or.inl ⟨rfl, fun _ => Or.inr trivial⟩
  | advancing => exact Or.inl ⟨rfl, fun _ => Or.inr trivial⟩
  | preparing => exact Or.inl ⟨rfl, fun _ => Or.inr trivial⟩
  | turning =>
    left
    dsimp only
    split_ifs
    · refine ⟨rfl, fun h => ?_⟩
      obtain h | h := h
      · cases h
      · exact h.elim
    · refine ⟨rfl, fun h => ?_⟩
      obtain h | h := h
      · rw [pass_line] at h
        exact Or.inl h
      · exact h.elim
  | writing record =>
    left
    dsimp only
    split_ifs
    · refine ⟨rfl, fun h => ?_⟩
      rwa [hpc] at h
    · exact ⟨rfl, fun h => h.imp_right fun h => h.elim⟩
  | outside => exact Or.inl ⟨rfl, fun h => h.imp_right fun h => h.elim⟩
  | taking => exact Or.inl ⟨rfl, fun h => h.imp_right fun h => h.elim⟩
  | storing record => exact Or.inl ⟨rfl, fun h => h.imp_right fun h => h.elim⟩
  | _ =>
    left
    dsimp only
    split_ifs <;> exact ⟨rfl, fun h => h.imp_right fun h => h.elim⟩

theorem statement_pass (n : ℕ) (s : CalcTicks) (h : (calcStatement n s).pc.Passing) :
    (calcStatement n s).lineNo = s.lineNo ∧ (s.pc.Passing ∨ s.substance.line.usable = true) := by
  unfold calcStatement at h ⊢
  cases hpc : s.pc with
  | entered =>
    rw [hpc] at h
    dsimp only at h ⊢
    split_ifs at h with hu
    · exact ⟨rfl, Or.inr hu⟩
    · exact h.elim
  | turning =>
    dsimp only
    split_ifs <;> exact ⟨rfl, Or.inl trivial⟩
  | writing record =>
    dsimp only
    split_ifs <;> exact ⟨rfl, Or.inl trivial⟩
  | head =>
    rw [hpc] at h
    dsimp only at h
    split_ifs at h <;> exact h.elim
  | current =>
    rw [hpc] at h
    dsimp only at h
    split_ifs at h <;> exact h.elim
  | next =>
    rw [hpc] at h
    dsimp only at h
    split_ifs at h <;> exact h.elim
  | checking =>
    rw [hpc] at h
    dsimp only at h
    split_ifs at h <;> exact h.elim
  | _ =>
    rw [hpc] at h
    exact h.elim

/-- Where a record comes from. -/
theorem statement_cells (n : ℕ) (s : CalcTicks) :
    (calcStatement n s).cellNo = s.cellNo ∨
      s.pc.Passing ∧ (calcStatement n s).cellNo = Function.update s.cellNo s.fifo.writeIndex (some s.lineNo) := by
  unfold calcStatement
  cases s.pc with
  | storing record => exact Or.inr ⟨trivial, rfl⟩
  | _ =>
    left
    first | rfl | (dsimp only; split_ifs <;> rfl)

/-! ### What the other parties keep -/

/-- The statements that do not belong to a stop. -/
def Unstopped : TickAct → Prop
  | .statement _ | .plan _ | .interrupt => True
  | _ => False

/-- The ring behind `PlanLine`. -/
theorem plan_ring (g : PlanRing) (line : PlanLine) :
    (smoothRecalc (pushLine g line)).lineBuffHead = g.lineBuffHead ∧
      (smoothRecalc (pushLine g line)).lineBuffTail = nextPlanLineIndex g.lineBuffTail :=
  ⟨smoothRecalc_head _, smoothRecalc_tail _⟩

variable {b : ℕ} {s : CalcTicks} {a : TickAct}

theorem RingBase.setFifo (h : RingBase s) (fifo : CommonFiFo) (cellNo : ℕ → Option ℕ) :
    RingBase (s.setFifo fifo cellNo) :=
  ⟨h.head, h.tail, h.getting⟩

theorem RingFrom.setFifo (h : RingFrom b s) (fifo : CommonFiFo) (cellNo : ℕ → Option ℕ) :
    RingFrom b (s.setFifo fifo cellNo) := h

theorem LineFrom.setFifo (h : LineFrom b s) (fifo : CommonFiFo) (cellNo : ℕ → Option ℕ) :
    LineFrom b (s.setFifo fifo cellNo) := h

theorem PassFrom.setFifo (h : PassFrom b s) (fifo : CommonFiFo) (cellNo : ℕ → Option ℕ) :
    PassFrom b (s.setFifo fifo cellNo) := h

theorem CellsFrom.setFifo (h : CellsFrom b s) (fifo : CommonFiFo) : CellsFrom b (s.setFifo fifo s.cellNo) := h

theorem RingBase.tick (h : RingBase s) (ha : Unstopped a) : RingBase (tickAct s a) := by
  cases a with
  | statement n =>
    obtain ⟨htail, -, -⟩ := statement_slots n s
    obtain ⟨hhead, hget⟩ | ⟨-, hhead, hnot⟩ := statement_head n s
    · refine ⟨?_, ?_, fun hg => ?_⟩
      · exact hhead ▸ h.head
      · exact htail ▸ h.tail
      · show (calcStatement n s).ring.lineBuffHead ≠ (calcStatement n s).ring.lineBuffTail
        rw [hhead, htail]
        obtain hg | hne := hget hg
        · exact h.getting hg
        · exact hne
    · refine ⟨?_, ?_, fun hg => absurd hg hnot⟩
      · show (calcStatement n s).ring.lineBuffHead < buffMaxSize
        rw [hhead]
        exact nextPlanLineIndex_lt _
      · exact htail ▸ h.tail
  | plan line =>
    unfold tickAct planStatement
    dsimp only
    split_ifs with hfull
    · exact h
    · obtain ⟨hhead, htail⟩ := plan_ring s.ring line
      refine ⟨?_, ?_, fun _ => ?_⟩
      · dsimp only
        rw [hhead]
        exact h.head
      · dsimp only
        rw [htail]
        exact nextPlanLineIndex_lt _
      · dsimp only
        rw [hhead, htail]
        exact of_decide_eq_false (Bool.eq_false_iff.mpr hfull)
  | interrupt => exact h.setFifo ..
  | _ => exact ha.elim

theorem submitted_tick (s : CalcTicks) (ha : Unstopped a) : s.submitted ≤ (tickAct s a).submitted := by
  cases a with
  | statement n => exact (statement_slots n s).2.2.ge
  | plan line =>
    unfold tickAct planStatement
    dsimp only
    split_ifs
    · exact le_rfl
    · exact Nat.le_succ _
  | interrupt => rw [tickAct_interrupt, setFifo_submitted]
  | _ => exact ha.elim

theorem RingFrom.tick (h : RingFrom b s) (hbase : RingBase s) (hb : b ≤ s.submitted) (ha : Unstopped a) :
    RingFrom b (tickAct s a) := by
  cases a with
  | statement n =>
    intro i hi
    obtain ⟨htail, hslot, -⟩ := statement_slots n s
    show b ≤ (calcStatement n s).slotNo i
    rw [hslot]
    apply h
    unfold Window getPlanLineBuffNum at hi
    obtain ⟨hhead, -⟩ | ⟨hget, hhead, -⟩ := statement_head n s
    · rwa [show (tickAct s (.statement n)).ring = (calcStatement n s).ring from rfl, hhead, htail] at hi
    · rw [show (tickAct s (.statement n)).ring = (calcStatement n s).ring from rfl, hhead, htail] at hi
      exact window_advance hbase.head hbase.tail (hbase.getting hget) hi
  | plan line =>
    unfold tickAct planStatement
    dsimp only
    split_ifs with hfull
    · exact h
    · intro i hi
      obtain ⟨hhead, htail⟩ := plan_ring s.ring line
      dsimp only at hi ⊢
      by_cases htail' : i = s.ring.lineBuffTail
      · rw [htail', Function.update_self]
        exact hb
      · rw [Function.update_of_ne htail']
        have hwindow := window_push hbase.head hbase.tail (Bool.eq_false_iff.mpr hfull) hhead htail hi
        exact h i (hwindow.resolve_right htail')
  | interrupt => exact RingFrom.setFifo h _ _
  | _ => exact ha.elim

theorem LineFrom.tick (h : LineFrom b s) (hring : RingFrom b s) (hbase : RingBase s) (ha : Unstopped a) :
    LineFrom b (tickAct s a) := by
  cases a with
  | statement n =>
    intro hu
    obtain ⟨hno, hline⟩ | ⟨hget, hno⟩ := statement_line n s
    · show b ≤ (calcStatement n s).lineNo
      rw [hno]
      exact h (hline hu)
    · show b ≤ (calcStatement n s).lineNo
      rw [hno]
      exact hring _ (window_head hbase.head hbase.tail (hbase.getting hget))
  | plan line =>
    unfold tickAct planStatement
    dsimp only
    split_ifs <;> exact h
  | interrupt => exact LineFrom.setFifo h _ _
  | _ => exact ha.elim

/-- The record that `Calc` holds. -/
theorem PassFrom.tick (h : PassFrom b s) (hline : LineFrom b s) (ha : Unstopped a) : PassFrom b (tickAct s a) := by
  cases a with
  | statement n =>
    intro hp
    obtain ⟨hno, hpass⟩ := statement_pass n s hp
    show b ≤ (calcStatement n s).lineNo
    rw [hno]
    obtain hpass | hu := hpass
    · exact h hpass
    · exact hline (Or.inl hu)
  | plan line =>
    unfold tickAct planStatement
    dsimp only
    split_ifs <;> exact h
  | interrupt => exact PassFrom.setFifo h _ _
  | _ => exact ha.elim

theorem CellsFrom.tick (h : CellsFrom b s) (hpass : PassFrom b s) (ha : Unstopped a) : CellsFrom b (tickAct s a) := by
  cases a with
  | statement n =>
    intro c k hk
    have hk' : (calcStatement n s).cellNo c = some k := hk
    obtain heq | ⟨hp, heq⟩ := statement_cells n s
    · rw [heq] at hk'
      exact h c k hk'
    · rw [heq] at hk'
      by_cases hc : c = s.fifo.writeIndex
      · rw [hc, Function.update_self] at hk'
        rw [← Option.some.inj hk']
        exact hpass hp
      · rw [Function.update_of_ne hc] at hk'
        exact h c k hk'
  | plan line =>
    unfold tickAct planStatement
    dsimp only
    split_ifs <;> exact h
  | interrupt => exact CellsFrom.setFifo h _
  | _ => exact ha.elim

/-- Nothing is older than `b`. -/
structure NothingOlder (b : ℕ) (s : CalcTicks) : Prop where
  ring : RingFrom b s
  line : LineFrom b s
  pass : PassFrom b s
  cells : CellsFrom b s

theorem NothingOlder.tick (h : NothingOlder b s) (hbase : RingBase s) (hb : b ≤ s.submitted) (ha : Unstopped a) :
    NothingOlder b (tickAct s a) where
  ring := h.ring.tick hbase hb ha
  line := h.line.tick h.ring hbase ha
  pass := h.pass.tick h.line ha
  cells := h.cells.tick h.pass ha

/-- The flag of a slot does not matter, -/
theorem NothingOlder.clearFlag (h : NothingOlder b s) : NothingOlder b (clearFlag s) :=
  ⟨h.ring, h.line, h.pass, h.cells⟩

/-- nor does a line that is taken out, -/
theorem RingFrom.clearHead (h : RingFrom b s) (hbase : RingBase s) (hne : s.ring.lineBuffHead ≠ s.ring.lineBuffTail) :
    RingFrom b (clearHead s) :=
  fun i hi => h i (window_advance hbase.head hbase.tail hne hi)

theorem NothingOlder.discard (h : NothingOlder b s) : NothingOlder b (discardCurrentLine s) where
  ring := h.ring
  line hu := by
    obtain hu | hf := hu
    · cases hu
    · exact h.line (Or.inr hf)
  pass := h.pass
  cells := h.cells

/-- or a store of the FIFO that leaves its cells. -/
theorem NothingOlder.setFifo (h : NothingOlder b s) (fifo : CommonFiFo) : NothingOlder b (s.setFifo fifo s.cellNo) :=
  ⟨h.ring, h.line, h.pass, h.cells⟩

end From

/-! ## The run -/

section Final

/-- What the stop has achieved at its place. -/
def StopPc.Holds (s : QuickStop) : StopPc → Prop
  | .discarding => RingFrom s.started s.ticks
  | .resetting _ => RingFrom s.started s.ticks ∧ LineFrom s.started s.ticks
  | _ => True

/-- **The invariant.** -/
structure StopInv (s : QuickStop) : Prop where
  base : RingBase s.ticks
  started : s.started ≤ s.ticks.submitted
  barrier : s.barrier ≤ s.started
  gone : NothingOlder s.barrier s.ticks
  pc : s.pc.Holds s

theorem nothingOlder_init : NothingOlder 0 initTicks :=
  ⟨fun _ _ => Nat.zero_le _, fun _ => Nat.zero_le _, fun _ => Nat.zero_le _, fun _ _ _ => Nat.zero_le _⟩

theorem stopInv_init : StopInv initQuickStop :=
  ⟨⟨by decide, by decide, fun h => h.elim⟩, le_rfl, le_rfl, nothingOlder_init, trivial⟩

/-- A statement of the others. -/
theorem StopInv.tick {s : QuickStop} (h : StopInv s) {a : TickAct} (ha : Unstopped a) :
    StopInv { s with ticks := tickAct s.ticks a } where
  base := h.base.tick ha
  started := h.started.trans (submitted_tick s.ticks ha)
  barrier := h.barrier
  gone := h.gone.tick h.base (h.barrier.trans h.started) ha
  pc := by
    have hpc := h.pc
    show s.pc.Holds _
    cases hs : s.pc with
    | discarding =>
      rw [hs] at hpc
      exact RingFrom.tick hpc h.base h.started ha
    | resetting rst =>
      rw [hs] at hpc
      exact ⟨hpc.1.tick h.base h.started ha, hpc.2.tick hpc.1 h.base ha⟩
    | _ => trivial

/-- **A statement of the stop.** -/
theorem StopInv.stop {s : QuickStop} (h : StopInv s) (hok : StopOk s .stop) : StopInv (stopStatement s) := by
  obtain ⟨hbase, hstarted, hbarrier, hgone, hpc⟩ := h
  unfold stopStatement
  unfold StopOk at hok
  cases hs : s.pc with
  | idle => exact ⟨hbase, hstarted, hbarrier, hgone, hpc⟩
  | clearing =>
    refine ⟨hbase, hstarted, hbarrier, hgone, ?_⟩
    dsimp only
    split_ifs with hempty
    · intro i hi
      have heq := isPlanLineBuffEmpty_iff.mp hempty
      have hnum : getPlanLineBuffNum s.ticks.ring = 0 := by
        unfold getPlanLineBuffNum buffMaxSize
        rw [heq]
        omega
      have hlt := hi.2
      rw [hnum] at hlt
      exact absurd hlt (Nat.not_lt_zero _)
    · trivial
  | clearFlag => exact ⟨⟨hbase.head, hbase.tail, hbase.getting⟩, hstarted, hbarrier, hgone.clearFlag, trivial⟩
  | clearHead =>
    rw [hs] at hok
    obtain ⟨hget, hempty⟩ := hok
    have hne : s.ticks.ring.lineBuffHead ≠ s.ticks.ring.lineBuffTail := by
      intro heq
      rw [isPlanLineBuffEmpty_iff.mpr heq] at hempty
      cases hempty
    exact ⟨⟨nextPlanLineIndex_lt _, hbase.tail, fun hg => absurd hg hget⟩, hstarted, hbarrier,
      ⟨hgone.ring.clearHead hbase hne, hgone.line, hgone.pass, hgone.cells⟩, trivial⟩
  | discarding =>
    rw [hs] at hok hpc
    refine ⟨⟨hbase.head, hbase.tail, hbase.getting⟩, hstarted, hbarrier, hgone.discard, hpc, fun hu => ?_⟩
    obtain hu | hf := hu
    · cases hu
    · exact hok hf
  | resetting rst =>
    rw [hs] at hok hpc
    cases rst with
    | leftSlotStored =>
      refine ⟨hbase.setFifo _ _, hstarted, le_rfl, ⟨hpc.1.setFifo _ _, hpc.2.setFifo _ _, ?_, ?_⟩, trivial⟩
      · exact PassFrom.setFifo hok _ _
      · intro c k hk
        cases hk
    | _ =>
      exact ⟨hbase.setFifo _ _, hstarted, hbarrier, hgone.setFifo _, hpc.1.setFifo _ _, hpc.2.setFifo _ _⟩

theorem stopInv_step {s t : QuickStop} {a : QuickAct} (h : StopInv s) (hstep : QuickStep s a t) (hok : StopOk s a) :
    StopInv t := by
  rw [hstep]
  cases a with
  | statement n => exact h.tick trivial
  | plan line => exact h.tick trivial
  | interrupt => exact h.tick trivial
  | call =>
    unfold quickAct
    split_ifs
    · exact ⟨h.base, le_rfl, h.barrier.trans h.started, h.gone, trivial⟩
    · exact h
  | stop => exact h.stop hok

/-- What is put into the FIFO or executed is not older than the last stop. -/
theorem StopInv.final {s : QuickStop} (h : StopInv s) (a : QuickAct) : Final s a := by
  intro b hb k hk
  cases a with
  | statement n =>
    rw [← Option.some.inj hb] at hk
    obtain hk | hk := hk
    · unfold enqueues at hk
      cases hpc : s.ticks.pc with
      | storing record =>
        rw [hpc] at hk
        rw [← Option.some.inj hk]
        exact h.gone.pass (by rw [hpc]; trivial)
      | _ =>
        rw [hpc] at hk
        cases hk
    · cases hk
  | plan line =>
    rw [← Option.some.inj hb] at hk
    obtain hk | hk := hk <;> cases hk
  | interrupt =>
    rw [← Option.some.inj hb] at hk
    obtain hk | hk := hk
    · cases hk
    · unfold executes at hk
      dsimp only at hk
      split_ifs at hk
      exact h.gone.cells _ k hk
  | call => cases hb
  | stop => cases hb

/-- **The stop is final** in the runs in which `Calc` holds nothing of an old line at the decisive statements of the
stops. -/
theorem quickStop_final {s : QuickStop} {acts : List QuickAct}
    (h : Run (Guarded QuickStep StopOk) initQuickStop acts s) :
    Run (fun s a t => QuickStep s a t ∧ Final s a) initQuickStop acts s :=
  (h.mono_of_invariant stopInv_init fun _ a _ hs hstep =>
    ⟨stopInv_step hs hstep.1 hstep.2, hstep.1, hs.final a⟩).1

/-- A line; after `n` statements of `Calc` a stop, and then `k` more. -/
def stopAfter (n k : ℕ) : List QuickAct :=
  .plan ramp :: List.replicate n (.statement 256) ++ [.call] ++ List.replicate 6 .stop ++
    List.replicate k (.statement 256)

/-- A stop between two records. -/
theorem quickStop_between : Run (fun s a t => QuickStep s a t ∧ Final s a) initQuickStop (stopAfter 14 5)
    ((stopAfter 14 5).foldl quickAct initQuickStop) :=
  quickStop_final (Run.of_allSteps (by decide +kernel))

/-- **A record outlives the stop**: `Calc` was about to write it.  It goes into the FIFO behind the stop, and the
interrupt executes it. -/
theorem record_outlives_stop :
    ∃ s t : QuickStop, Run QuickStep initQuickStop (stopAfter 12 1) s ∧ s.pc = .idle ∧ s.barrier = 1 ∧
      QuickStep s (.statement 256) t ∧ enqueues s.ticks (.statement 256) = some 0 ∧
      executes t.ticks .interrupt = some 0 ∧ ¬Final s (.statement 256) := by
  refine ⟨_, _, Run.of_foldl quickAct initQuickStop _, by decide +kernel, by decide +kernel, rfl, by decide +kernel,
    by decide +kernel, fun h => ?_⟩
  have hbarrier := h _ rfl 0 (Or.inl (by decide +kernel))
  exact absurd hbarrier (by decide +kernel)

end Final

end Cxsw.Motion
