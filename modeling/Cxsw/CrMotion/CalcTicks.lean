import Cxsw.CrMotion.Feasibility
import Cxsw.CrMotion.PlanRing
import Cxsw.CrMotion.StepPulses

/-!
# Cxsw.CrMotion.CalcTicks — the thread of `Calc`, statement by statement (`CrModel/CrMotion.cpp`, `Bresenham.cpp`)

`CalcTicksThread` calls `Calc` again and again.  Others may run between any two statements of it: the step interrupt,
`PlanLine`, and the three functions that a stop is made of, `PlanLineBuffClear`, `DiscardCurrentLine` and
`CommonRstFifo`.  What `Calc` does to its own variables between two accesses of shared ones is one statement here;
`PlanLine` is one as well, its interleaving with `GetNextPlanLine` is in `PlanRing`.

Every line has a number, in the order of planning; beside the variables the state has the number of the line in each
slot of the ring, in `Substance`, and behind each record of the FIFO.

* `calcStatement`: one statement of the thread.
* `tickAct`: one statement of one party.
* `tickAct_sameGenerator`: only `Calc` and a discard touch `Substance`.
-/

namespace Cxsw.Motion

open Fifo

/-! ## The statements -/

section Defs

/-- Where the thread stands. -/
inductive CalcPc
  /-- Between two calls of `Calc`. -/
  | outside
  /-- The head of the loop. -/
  | head
  /-- `if (Substance.Line.Usable == FALSE)`. -/
  | current
  /-- `GetNextPlanLine`: is the ring empty? -/
  | next
  /-- It was not; is the line at the head usable? -/
  | checking
  /-- It was; its flag is cleared, -/
  | taking
  /-- it is copied, -/
  | copying
  /-- the copy is made usable, -/
  | marking
  /-- and the head moves. -/
  | advancing
  /-- The line is set up, up to the store of `Substance.Line.Usable`. -/
  | preparing
  /-- `if (Substance.Line.Usable == TRUE)`. -/
  | entered
  /-- The switch, and the record. -/
  | turning
  /-- `CommonWriteFifo`: is there a free slot? -/
  | writing (record : MotionPeriod)
  /-- There was; its critical section. -/
  | storing (record : MotionPeriod)
  deriving DecidableEq

/-- The ring, `Substance` with the static variables of `Calc`, the FIFO, and the local variables; then the numbers of
the lines. -/
structure CalcTicks where
  ring : PlanRing
  substance : CalcState
  fifo : CommonFiFo
  pc : CalcPc
  maxSteps : ℕ
  stepInterval : ℕ
  /-- The passes that are left of `MotionNum`. -/
  loops : ℕ
  /-- The lines planned so far. -/
  submitted : ℕ
  slotNo : ℕ → ℕ
  lineNo : ℕ
  cellNo : ℕ → Option ℕ

/-- The ring and the FIFO are empty, and the thread has not called `Calc` yet. -/
def initTicks : CalcTicks where
  ring := PlanRing.init
  substance := initCalc
  fifo := commonCreateFifo axisFifo.singleSize axisFifo.fifoLen
  pc := .outside
  maxSteps := 0
  stepInterval := 0
  loops := 0
  submitted := 0
  slotNo := fun _ => 0
  lineNo := 0
  cellNo := fun _ => none

/-- `Substance.Line.Usable` is stored. -/
def setLineUsable (c : CalcState) (usable : Bool) : CalcState := { c with line := { c.line with usable := usable } }

/-- The FIFO is stored. -/
def CalcTicks.setFifo (s : CalcTicks) (fifo : CommonFiFo) (cellNo : ℕ → Option ℕ) : CalcTicks :=
  { s with fifo := fifo, cellNo := cellNo }

/-- The next statement of the thread; `motionNum` is the argument of `Calc`. -/
def calcStatement (motionNum : ℕ) (s : CalcTicks) : CalcTicks :=
  match s.pc with
  | .outside => { s with pc := .head, maxSteps := 0, stepInterval := 0, loops := motionNum }
  | .head =>
    if (isPlanLineBuffEmpty s.ring ∧ s.substance.line.usable = false) ∨ s.loops = 0 then { s with pc := .outside }
    else { s with pc := .current }
  | .current => { s with pc := if s.substance.line.usable then .entered else .next }
  | .next => { s with pc := if isPlanLineBuffEmpty s.ring then .outside else .checking }
  | .checking => { s with pc := if (s.ring.lineBuff s.ring.lineBuffHead).usable then .taking else .outside }
  | .taking => { s with ring := setUsable s.ring s.ring.lineBuffHead false, pc := .copying }
  | .copying =>
    { s with
      substance := { s.substance with line := s.ring.lineBuff s.ring.lineBuffHead }
      lineNo := s.slotNo s.ring.lineBuffHead
      pc := .marking }
  | .marking => { s with substance := setLineUsable s.substance true, pc := .advancing }
  | .advancing =>
    { s with ring := { s.ring with lineBuffHead := nextPlanLineIndex s.ring.lineBuffHead }, pc := .preparing }
  | .preparing =>
    { s with
      substance := fetchLine s.maxSteps s.substance s.substance.line
      maxSteps := (findLongest s.substance.line s.maxSteps).2
      pc := .entered }
  | .entered => { s with pc := if s.substance.line.usable then .turning else .head }
  | .turning =>
    -- `STOP` returns from the call
    if s.substance.status = .stop then { s with substance := finishLine s.substance, pc := .outside }
    else
      { s with
        substance := (pass s.substance s.stepInterval).1
        stepInterval := (turn s.substance s.stepInterval).2
        pc := .writing (pass s.substance s.stepInterval).2 }
  | .writing record => if s.fifo.fifoLeftSlot < 1 then s else { s with pc := .storing record }
  | .storing record =>
    { s.setFifo (writeCritical s.fifo (recordBytes record).1 1)
        (Function.update s.cellNo s.fifo.writeIndex (some s.lineNo)) with
      loops := s.loops - 1
      pc := .head }

/-- `PlanLine`: a line that fits is put into the ring. -/
def planStatement (s : CalcTicks) (line : PlanLine) : CalcTicks :=
  if isPlanLineBuffFull s.ring then s
  else
    { s with
      ring := smoothRecalc (pushLine s.ring line)
      slotNo := Function.update s.slotNo s.ring.lineBuffTail s.submitted
      submitted := s.submitted + 1 }

/-- The two stores in the loop of `PlanLineBuffClear`. -/
def clearFlag (s : CalcTicks) : CalcTicks := { s with ring := setUsable s.ring s.ring.lineBuffHead false }

def clearHead (s : CalcTicks) : CalcTicks :=
  { s with ring := { s.ring with lineBuffHead := nextPlanLineIndex s.ring.lineBuffHead } }

/-- `DiscardCurrentLine`. -/
def discardCurrentLine (s : CalcTicks) : CalcTicks := { s with substance := setLineUsable s.substance false }

/-- The four stores of `CommonRstFifo`. -/
def rstStore (s : CalcTicks) : RstPc → CalcTicks
  | .idle => s.setFifo { s.fifo with readIndex := 0 } s.cellNo
  | .readIndexStored => s.setFifo { s.fifo with writeIndex := 0 } s.cellNo
  | .writeIndexStored => s.setFifo { s.fifo with fifoLeftSlot := s.fifo.fifolen } s.cellNo
  | .leftSlotStored =>
    s.setFifo { s.fifo with fifoBuf := List.replicate (u32 (s.fifo.fifoSingleSize * s.fifo.fifolen)) 0 } fun _ => none

/-- `StepperInterrupt` takes a record, if there is one. -/
def takeRecord (s : CalcTicks) : CalcTicks := s.setFifo (commonReadFifo s.fifo 1).2.2 s.cellNo

/-- Whose statement is next. -/
inductive TickAct
  | statement (motionNum : ℕ)
  | plan (line : PlanLine)
  | clearFlag
  | clearHead
  | discard
  | rst (pc : RstPc)
  | interrupt

/-- The state after a statement. -/
def tickAct (s : CalcTicks) : TickAct → CalcTicks
  | .statement motionNum => calcStatement motionNum s
  | .plan line => planStatement s line
  | .clearFlag => clearFlag s
  | .clearHead => clearHead s
  | .discard => discardCurrentLine s
  | .rst pc => rstStore s pc
  | .interrupt => takeRecord s

/-- The line whose record is put into the FIFO by a statement. -/
def enqueues (s : CalcTicks) : TickAct → Option ℕ
  | .statement _ =>
    match s.pc with
    | .storing _ => some s.lineNo
    | _ => none
  | _ => none

/-- The line whose record is executed by a statement. -/
def executes (s : CalcTicks) : TickAct → Option ℕ
  | .interrupt => if (commonReadFifo s.fifo 1).1 = -2 then none else s.cellNo s.fifo.readIndex
  | _ => none

/-- The thread is in `GetNextPlanLine` and has found the ring not empty. -/
def CalcPc.Getting : CalcPc → Prop
  | .checking | .taking | .copying | .marking | .advancing => True
  | _ => False

/-- A line is in `Substance`, and `Usable` is about to be stored. -/
def CalcPc.Fetched : CalcPc → Prop
  | .marking | .advancing | .preparing => True
  | _ => False

/-- The thread has found the line in `Substance` usable, and the record is not in the FIFO yet. -/
def CalcPc.Passing : CalcPc → Prop
  | .turning | .writing _ | .storing _ => True
  | _ => False

instance (pc : CalcPc) : Decidable pc.Getting := by cases pc <;> unfold CalcPc.Getting <;> infer_instance

instance (pc : CalcPc) : Decidable pc.Fetched := by cases pc <;> unfold CalcPc.Fetched <;> infer_instance

instance (pc : CalcPc) : Decidable pc.Passing := by cases pc <;> unfold CalcPc.Passing <;> infer_instance

/-- A line of 100 steps that accelerates. -/
def ramp : PlanLine :=
  { PlanLine.zero with
    axis := fun a => if a = .X then ⟨.forward, 100, 0, 0, 50, 900, 10⟩ else PlanLine.zero.axis a
    planCalc := { PlanLine.zero.planCalc with
      enterStatus := .accelerate
      acceleration := 900
      maxSpeed := 50
      entrySpeed := 1
      entrySpeedSqr := 1
      exitSpeed := 1
      exitSpeedSqr := 1
      lineLength := 1
      maxEntrySpeed := 1
      stepEventCnt := 100
      entryRate := 100
      nominalRate := 5000
      accelStepPerS2 := 90000
      accelStepPerSecTick := 1509949 } }

end Defs

/-! ## What the others leave alone -/

section Frame

/-- The statements that touch `Substance`. -/
def TickAct.Generator : TickAct → Prop
  | .statement _ | .discard => True
  | _ => False

/-- The generator is the same. -/
structure SameGenerator (s t : CalcTicks) : Prop where
  substance : t.substance = s.substance
  pc : t.pc = s.pc
  maxSteps : t.maxSteps = s.maxSteps
  stepInterval : t.stepInterval = s.stepInterval

theorem setFifo_sameGenerator (s : CalcTicks) (fifo : CommonFiFo) (cellNo : ℕ → Option ℕ) :
    SameGenerator s (s.setFifo fifo cellNo) :=
  ⟨rfl, rfl, rfl, rfl⟩

@[simp] theorem setFifo_submitted (s : CalcTicks) (fifo : CommonFiFo) (cellNo : ℕ → Option ℕ) :
    (s.setFifo fifo cellNo).submitted = s.submitted := rfl

theorem tickAct_interrupt (s : CalcTicks) :
    tickAct s .interrupt = s.setFifo (commonReadFifo s.fifo 1).2.2 s.cellNo := rfl

theorem tickAct_sameGenerator (s : CalcTicks) {a : TickAct} (h : ¬a.Generator) : SameGenerator s (tickAct s a) := by
  cases a with
  | statement n => exact absurd trivial h
  | discard => exact absurd trivial h
  | plan line =>
    unfold tickAct planStatement
    split_ifs <;> exact ⟨rfl, rfl, rfl, rfl⟩
  | clearFlag => exact ⟨rfl, rfl, rfl, rfl⟩
  | clearHead => exact ⟨rfl, rfl, rfl, rfl⟩
  | rst pc => cases pc <;> exact setFifo_sameGenerator ..
  | interrupt => exact setFifo_sameGenerator ..

end Frame

end Cxsw.Motion
