import Cxsw.CrMotion.CrStepperRun
import Cxsw.CrMotion.FifoInterrupt
import Cxsw.CrMotion.StepConservation

/-!
# Cxsw.CrMotion.StepPulses — from the step generator to the step pins

`Calc` writes records into `AxisFifo`, the timer interrupt takes them out, sets the direction pins and pulses the step
pins, and a third thread may discard the line and reset the FIFO at any time.  `PulseStep` interleaves them; the FIFO
is the byte ring of `FifoInterrupt` with its statements.

* `Filled P f`: every record in the buffer of the FIFO meets `P`, whatever the indices and the counter say.
* `ReservedClear`: the direction bits that belong to no axis are zero.  `MotionDir` starts with all of them set, so
  the first record always sets the pins.
* `direction_before_pulse`: in every run each pulse goes in the direction of its record.
-/

namespace Cxsw.Fifo

/-! ## The records in the buffer -/

section Filled

variable {m : FifoMem} {P : List UInt8 → Prop} {f : CommonFiFo}

/-- The geometry of the FIFO, and `P` of every record that a read could return. -/
structure Filled (m : FifoMem) (P : List UInt8 → Prop) (f : CommonFiFo) : Prop where
  geom : Geom m f
  read_lt : f.readIndex < m.fifoLen
  write_lt : f.writeIndex < m.fifoLen
  cells : ∀ k < m.fifoLen, P (bytesAt f (k * m.singleSize) m.singleSize)

theorem FifoMem.u32_record (m : FifoMem) : u32 (1 * m.singleSize) = m.singleSize := by
  have h := m.u32_mul (show 1 ≤ m.fifoLen from m.len_pos)
  rwa [one_mul] at h ⊢

theorem take_drop_replicate {n i k : ℕ} (h : i + k ≤ n) :
    ((List.replicate n (0 : UInt8)).drop i).take k = List.replicate k 0 := by
  rw [List.drop_replicate, List.take_replicate, Nat.min_eq_left (by omega)]

theorem cell_le {k : ℕ} (hk : k < m.fifoLen) : k * m.singleSize + m.singleSize ≤ m.fifoLen * m.singleSize := by
  rw [← Nat.succ_mul]
  exact Nat.mul_le_mul_right _ hk

theorem filled_create (hP : P (List.replicate m.singleSize 0)) :
    Filled m P (commonCreateFifo m.singleSize m.fifoLen) where
  geom := ⟨rfl, rfl, List.length_replicate⟩
  read_lt := m.len_pos
  write_lt := m.len_pos
  cells := fun k hk => by
    unfold bytesAt commonCreateFifo
    rw [take_drop_replicate (cell_le hk)]
    exact hP

/-- The buffer after the `memset` of a reset. -/
theorem Filled.memset (h : Filled m P f) (hP : P (List.replicate m.singleSize 0)) :
    Filled m P { f with fifoBuf := List.replicate (u32 (f.fifoSingleSize * f.fifolen)) 0 } := by
  have hsize : u32 (f.fifoSingleSize * f.fifolen) = m.fifoLen * m.singleSize := by
    rw [h.geom.size, h.geom.len, Nat.mul_comm]
    exact m.u32_mul le_rfl
  refine ⟨⟨h.geom.len, h.geom.size, ?_⟩, h.read_lt, h.write_lt, fun k hk => ?_⟩
  · rw [hsize]
    exact List.length_replicate
  · unfold bytesAt
    rw [hsize, take_drop_replicate (cell_le hk)]
    exact hP

/-- A read of one record takes it from a cell of the buffer, whatever the counter says. -/
theorem Filled.read (h : Filled m P f) :
    Filled m P (commonReadFifo f 1).2.2 ∧ ((commonReadFifo f 1).1 ≠ -2 → P (commonReadFifo f 1).2.1) := by
  have hlen := m.len_lt
  have hr := h.read_lt
  have hnext : u32 (f.readIndex + 1) = f.readIndex + 1 := u32_of_lt (by omega)
  have hoff : u32 (f.readIndex * f.fifoSingleSize) = f.readIndex * m.singleSize := by
    rw [h.geom.size]
    exact m.u32_mul hr.le
  have hone : u32 (1 * f.fifoSingleSize) = m.singleSize := by
    rw [h.geom.size]
    exact m.u32_record
  unfold commonReadFifo
  split_ifs with hleft hwrap
  · exact ⟨h, fun hne => absurd rfl hne⟩
  · rw [hnext, hoff, hone]
    refine ⟨⟨⟨h.geom.len, h.geom.size, h.geom.buf⟩, ?_, h.write_lt, h.cells⟩, fun _ => h.cells _ hr⟩
    dsimp only
    rw [h.geom.len]
    split_ifs <;> omega
  · exact absurd (by rw [hnext, h.geom.len]; omega) hwrap

/-- The record at a cell behind a write to a cell. -/
theorem take_drop_splice {buf data : List UInt8} {S w k : ℕ} (hdata : data.length = S)
    (hw : w * S + S ≤ buf.length) :
    ((Ring.splice buf (w * S) data).drop (k * S)).take S = if k = w then data else (buf.drop (k * S)).take S := by
  have hfit : w * S + data.length ≤ buf.length := by omega
  refine List.ext_getElem? fun j => ?_
  by_cases hj : j < S
  · rw [List.getElem?_take_of_lt hj, List.getElem?_drop, Ring.getElem?_splice hfit, hdata]
    obtain hlt | rfl | hgt := lt_trichotomy k w
    · -- the cell lies before the written one
      have hbefore : k * S + S ≤ w * S := by
        rw [← Nat.succ_mul]
        exact Nat.mul_le_mul_right _ hlt
      rw [if_pos (by omega), if_neg hlt.ne, List.getElem?_take_of_lt hj, List.getElem?_drop]
    · rw [if_neg (by omega), if_pos (by omega), if_pos rfl, Nat.add_sub_cancel_left]
    · have hafter : w * S + S ≤ k * S := by
        rw [← Nat.succ_mul]
        exact Nat.mul_le_mul_right _ hgt
      rw [if_neg (by omega), if_neg (by omega), if_neg hgt.ne', List.getElem?_take_of_lt hj, List.getElem?_drop]
  · have hS : S ≤ j := not_lt.mp hj
    have hnone : ∀ bytes : List UInt8, (bytes.take S)[j]? = none :=
      fun bytes => List.getElem?_eq_none (by rw [List.length_take]; omega)
    rw [hnone]
    split_ifs
    · exact (List.getElem?_eq_none (by omega)).symm
    · exact (hnone _).symm

theorem Filled.write (h : Filled m P f) (r : Rec m.singleSize) (hr : P r.1) :
    Filled m P (writeCritical f (recBytes [r]) 1) := by
  have hlen := m.len_lt
  have hw := h.write_lt
  have hnext : u32 (f.writeIndex + 1) = f.writeIndex + 1 := u32_of_lt (by omega)
  have hfits : u32 (f.writeIndex + 1) ≤ f.fifolen := by
    rw [hnext, h.geom.len]
    exact hw
  have hoff : u32 (f.writeIndex * f.fifoSingleSize) = f.writeIndex * m.singleSize := by
    rw [h.geom.size]
    exact m.u32_mul hw.le
  have hone : u32 (1 * f.fifoSingleSize) = m.singleSize := by
    rw [h.geom.size]
    exact m.u32_record
  have hdata : (recBytes [r]).take m.singleSize = r.1 := by
    rw [recBytes_cons, recBytes_nil, List.append_nil, List.take_of_length_le r.2.le]
  have hcell : f.writeIndex * m.singleSize + m.singleSize ≤ f.fifoBuf.length := by
    rw [h.geom.buf]
    exact cell_le hw
  unfold writeCritical
  rw [if_pos hfits, hoff, hone, hdata, hnext]
  refine ⟨⟨h.geom.len, h.geom.size, ?_⟩, h.read_lt, ?_, fun k hk => ?_⟩
  · dsimp only
    rw [Ring.splice_length (by rw [r.2]; exact hcell)]
    exact h.geom.buf
  · dsimp only
    rw [h.geom.len]
    split_ifs <;> omega
  · unfold bytesAt
    dsimp only
    rw [take_drop_splice r.2 hcell]
    split_ifs
    · exact hr
    · exact h.cells k hk

/-- One store of a reset, whoever works on the FIFO between its stores. -/
theorem Filled.rstStore {s t : Shared m} (h : Filled m P s.fifo) (hP : P (List.replicate m.singleSize 0))
    (hstep : Step s .rstStore t) : Filled m P t.fifo := by
  cases hstep with
  | rstReadIndex _ => exact ⟨⟨h.geom.len, h.geom.size, h.geom.buf⟩, m.len_pos, h.write_lt, h.cells⟩
  | rstWriteIndex _ => exact ⟨⟨h.geom.len, h.geom.size, h.geom.buf⟩, h.read_lt, m.len_pos, h.cells⟩
  | rstLeftSlot _ => exact ⟨⟨h.geom.len, h.geom.size, h.geom.buf⟩, h.read_lt, h.write_lt, h.cells⟩
  | rstMemset _ => exact h.memset hP

theorem Filled.shared (h : Filled m P f) (s : Shared m) (log : List (Event m.singleSize)) :
    Filled m P ({ s with fifo := f, log := log } : Shared m).fifo := h

theorem Filled.interrupt {s t : Shared m} (h : Filled m P s.fifo) (hstep : Step s .interrupt t) :
    Filled m P t.fifo ∧ t.writer = s.writer := by
  cases hstep with
  | readRejected _ => exact ⟨h, rfl⟩
  | readDone _ => exact ⟨h.read.1.shared s _, rfl⟩

end Filled

end Cxsw.Fifo

namespace Cxsw.Motion

open Fifo

/-! ## The parties -/

section Defs

/-- A record in memory: two 16-bit words, low byte first. -/
def recordBytes (r : MotionPeriod) : Rec axisFifo.singleSize :=
  ⟨[UInt8.ofNat r.motionFlag, UInt8.ofNat (r.motionFlag >>> 8), UInt8.ofNat r.stepPeriod,
    UInt8.ofNat (r.stepPeriod >>> 8)], rfl⟩

/-- The record that four bytes are. -/
def recordOf (bytes : List UInt8) : MotionPeriod where
  motionFlag := 2 ^ 8 * (bytes.getD 1 0).toNat + (bytes.getD 0 0).toNat
  stepPeriod := 2 ^ 8 * (bytes.getD 3 0).toNat + (bytes.getD 2 0).toNat

/-- A pulse on the step pin of an axis: the level of its direction pin then, and the record that caused it. -/
structure Pulse where
  axis : Axis
  dirPin : Dir
  record : MotionPeriod

/-- `Calc`, the record that it is writing, the FIFO, the interrupt, and the pulses issued so far. -/
structure Pulses where
  substance : CalcState
  motionPeriod : Option MotionPeriod
  fifo : Shared axisFifo
  run : StepperRun
  issued : List Pulse

/-- What the parties do next. -/
inductive PulseAct
  /-- `Calc` takes a line. -/
  | fetch (maxSteps : ℕ) (line : PlanLine)
  /-- A pass of its loop. -/
  | pass (stepInterval : ℕ)
  /-- Its `STOP` branch. -/
  | finish
  /-- Its write of the record: `CommonWriteFifo` looks for a free slot, again and again. -/
  | writeCheck
  | writeCritical
  /-- `DiscardCurrentLine`. -/
  | discard
  /-- The next store of `CommonRstFifo`. -/
  | rstStore
  /-- The timer interrupt. -/
  | interrupt

/-- `StepperInterrupt`, for a record it has read. -/
def Pulses.take (s : Pulses) (fifo : Shared axisFifo) (record : MotionPeriod) : Pulses :=
  let r := stepperInterrupt s.run record
  { s with
    fifo := fifo
    run := r.1
    issued := s.issued ++ r.2.map fun a => ⟨a, r.1.dirPin a, record⟩ }

/-- `StepperInterrupt`: nothing is done when there is no record. -/
def Pulses.interrupt (s : Pulses) (fifo : Shared axisFifo) : Pulses :=
  let read := commonReadFifo s.fifo.fifo 1
  if read.1 = -2 then { s with fifo := fifo } else s.take fifo (recordOf read.2.1)

/-- One step of one party.  `Calc` goes on when its record is written; the others may run at any time. -/
inductive PulseStep : Pulses → PulseAct → Pulses → Prop
  | fetch {s : Pulses} {m : ℕ} {line : PlanLine} : s.motionPeriod = none → s.substance.line.usable = false →
      PulseStep s (.fetch m line) { s with substance := fetchLine m s.substance line }
  | pass {s : Pulses} {i : ℕ} : s.motionPeriod = none → s.substance.line.usable = true → s.substance.status ≠ .stop →
      PulseStep s (.pass i)
        { s with substance := (Motion.pass s.substance i).1, motionPeriod := some (Motion.pass s.substance i).2 }
  | finish {s : Pulses} : s.motionPeriod = none → s.substance.line.usable = true → s.substance.status = .stop →
      PulseStep s .finish { s with substance := finishLine s.substance }
  | writeCheck {s : Pulses} {r : MotionPeriod} {fifo : Shared axisFifo} : s.motionPeriod = some r →
      Step s.fifo (.writeCheck ⟨[recordBytes r], by norm_num⟩) fifo → PulseStep s .writeCheck { s with fifo := fifo }
  | writeCritical {s : Pulses} {fifo : Shared axisFifo} : Step s.fifo .writeCritical fifo →
      PulseStep s .writeCritical { s with fifo := fifo, motionPeriod := none }
  | discard {s : Pulses} :
      PulseStep s .discard { s with substance :=
        { s.substance with line := { s.substance.line with usable := false } } }
  | rstStore {s : Pulses} {fifo : Shared axisFifo} : Step s.fifo .rstStore fifo →
      PulseStep s .rstStore { s with fifo := fifo }
  | interrupt {s : Pulses} {fifo : Shared axisFifo} : Step s.fifo .interrupt fifo →
      PulseStep s .interrupt (s.interrupt fifo)

/-- The initial state, whatever levels the direction pins have. -/
def startPulses (dirPin : Axis → Dir) : Pulses where
  substance := initCalc
  motionPeriod := none
  fifo := initShared axisFifo
  run := { initSteppers with dirPin := dirPin }
  issued := []

end Defs

/-! ## The reserved direction bits -/

section Reserved

/-- The direction bits behind those of the four axes are zero. -/
def ReservedClear (motionFlag : ℕ) : Prop := ∀ j, 8 ≤ j → j < 12 → motionFlag.testBit j = false

/-- The same of the second byte of a record in memory. -/
def ReservedByte (bytes : List UInt8) : Prop := ReservedClear (recordOf bytes).motionFlag

theorem reservedByte_zero : ReservedByte (List.replicate axisFifo.singleSize 0) := by
  intro j _ _
  rw [show (recordOf (List.replicate axisFifo.singleSize 0)).motionFlag = 0 by rfl]
  exact Nat.zero_testBit j

/-- The remembered word never agrees with such a record while it has its initial value. -/
theorem ReservedClear.motionDirOf_ne {motionFlag : ℕ} (h : ReservedClear motionFlag) :
    motionDirOf motionFlag ≠ 0xFF00 := by
  intro heq
  have hbit : (motionDirOf motionFlag).testBit 8 = true := by
    rw [heq]
    decide
  unfold motionDirOf at hbit
  rw [Nat.testBit_and, h 8 le_rfl (by omega)] at hbit
  cases hbit

theorem reservedClear_setFlags {flag : ℕ} (h : ReservedClear flag) (p : Axis → Bool) :
    ReservedClear (setFlags p flag) := by
  intro j h8 h12
  rw [Bool.eq_false_iff]
  intro hbit
  obtain hflag | ⟨a, -, ha⟩ := (testBit_setFlags p flag j).mp hbit
  · rw [h j h8 h12] at hflag
    cases hflag
  · omega

theorem reservedClear_fetchLine (maxSteps : ℕ) (c : CalcState) (line : PlanLine) :
    ReservedClear (fetchLine maxSteps c line).motionDir := by
  intro j h8 h12
  show (setFlags (fun a => decide ((line.axis a).dir = Dir.forward)) 0 <<< 8 % 2 ^ 16).testBit j = false
  rw [Nat.testBit_mod_two_pow, Nat.testBit_shiftLeft, Bool.eq_false_iff]
  intro hbit
  simp only [Bool.and_eq_true, testBit_setFlags, Nat.zero_testBit] at hbit
  obtain ⟨-, -, h | ⟨a, -, ha⟩⟩ := hbit
  · cases h
  · have ha4 := a.index_lt
    omega

theorem turn_motionDir (c : CalcState) (i : ℕ) : (turn c i).1.motionDir = c.motionDir := by
  unfold turn
  cases c.status with
  | decelerate => by_cases h : (longest c).steps ≤ c.stepsCount <;> simp [h]
  | _ => rfl

/-- The record of a pass has the direction word of the line. -/
theorem reservedClear_pass {c : CalcState} (h : ReservedClear c.motionDir) (i : ℕ) :
    ReservedClear (pass c i).1.motionDir ∧ ReservedClear (pass c i).2.motionFlag := by
  have hdir : (pass c i).1.motionDir = c.motionDir := turn_motionDir c i
  refine ⟨by rwa [hdir], ?_⟩
  unfold pass emit
  dsimp only
  refine reservedClear_setFlags (fun j h8 h12 => ?_) _
  rw [turn_motionDir, Nat.testBit_and, h j h8 h12, Bool.false_and]

theorem reservedByte_recordBytes {r : MotionPeriod} (h : ReservedClear r.motionFlag) :
    ReservedByte (recordBytes r).1 := by
  intro j h8 h12
  show (2 ^ 8 * (UInt8.ofNat (r.motionFlag >>> 8)).toNat + (UInt8.ofNat r.motionFlag).toNat).testBit j = false
  have hlow : (UInt8.ofNat r.motionFlag).toNat < 2 ^ 8 := UInt8.toNat_lt _
  rw [Nat.testBit_two_pow_mul_add _ hlow, if_neg (by omega)]
  have hhigh : (UInt8.ofNat (r.motionFlag >>> 8)).toNat = r.motionFlag >>> 8 % 2 ^ 8 := UInt8.toNat_ofNat'
  rw [hhigh, Nat.testBit_mod_two_pow, Nat.testBit_shiftRight, Nat.add_sub_of_le h8, h j h8 h12, Bool.and_false]

end Reserved

/-! ## Every pulse in the direction of its record -/

section Runs

/-- The pulse goes in the direction that its record gives. -/
def Pulse.Directed (p : Pulse) : Prop := p.dirPin = flagDir (motionDirOf p.record.motionFlag) p.axis

/-- What every step keeps: the reserved bits are clear on the whole way of a record, and the pins show the word that
the interrupt remembers as soon as it has taken one. -/
structure PulsesOk (s : Pulses) : Prop where
  motionDir : ReservedClear s.substance.motionDir
  motionPeriod : ∀ r ∈ s.motionPeriod, ReservedClear r.motionFlag
  filled : Filled axisFifo ReservedByte s.fifo.fifo
  block : ∀ block, s.fifo.writer = .checked block → ∃ r, block = [r] ∧ ReservedByte r.1
  pins : s.run.motionDir = 0xFF00 ∨ PinsMatch s.run
  issued : ∀ p ∈ s.issued, p.Directed

theorem pulsesOk_start (dirPin : Axis → Dir) : PulsesOk (startPulses dirPin) where
  motionDir := fun j _ _ => Nat.zero_testBit j
  motionPeriod := fun r hr => by cases hr
  filled := filled_create reservedByte_zero
  block := fun block h => by cases h
  pins := Or.inl rfl
  issued := fun p hp => by cases hp

/-- The pins after the interrupt has taken a record. -/
theorem pinsMatch_reserved {s : StepperRun} (h : s.motionDir = 0xFF00 ∨ PinsMatch s) {r : MotionPeriod}
    (hr : ReservedClear r.motionFlag) :
    PinsMatch (stepperInterrupt s r).1 ∧ (stepperInterrupt s r).1.motionDir = motionDirOf r.motionFlag := by
  obtain hstart | hpins := h
  · -- the first record: its word is not the initial one
    have hne : s.motionDir ≠ motionDirOf r.motionFlag := by
      rw [hstart]
      exact hr.motionDirOf_ne.symm
    unfold stepperInterrupt
    dsimp only
    rw [if_pos hne]
    exact ⟨fun a => rfl, rfl⟩
  · exact pinsMatch_interrupt hpins r

theorem PulsesOk.take {s : Pulses} (h : PulsesOk s) {fifo : Shared axisFifo}
    (hfilled : Filled axisFifo ReservedByte fifo.fifo) (hwriter : fifo.writer = s.fifo.writer) {record : MotionPeriod}
    (hrecord : ReservedClear record.motionFlag) : PulsesOk (s.take fifo record) := by
  obtain ⟨hpins, hword⟩ := pinsMatch_reserved h.pins hrecord
  refine ⟨h.motionDir, h.motionPeriod, hfilled, fun block hb => h.block block (hwriter ▸ hb), Or.inr hpins,
    fun p hp => ?_⟩
  obtain hold | hnew := List.mem_append.mp hp
  · exact h.issued p hold
  · obtain ⟨a, -, rfl⟩ := List.mem_map.mp hnew
    show _ = flagDir (motionDirOf record.motionFlag) a
    rw [← hword]
    exact hpins a

theorem PulsesOk.interrupt {s : Pulses} (h : PulsesOk s) {fifo : Shared axisFifo}
    (hstep : Step s.fifo .interrupt fifo) :
    PulsesOk (s.interrupt fifo) := by
  obtain ⟨hfilled, hwriter⟩ := h.filled.interrupt hstep
  unfold Pulses.interrupt
  dsimp only
  split_ifs with hret
  · exact ⟨h.motionDir, h.motionPeriod, hfilled, fun block hb => h.block block (hwriter ▸ hb), h.pins, h.issued⟩
  · exact h.take hfilled hwriter (h.filled.read.2 hret)

/-- **Step lemma.** -/
theorem PulsesOk.step {s t : Pulses} {act : PulseAct} (h : PulsesOk s) (hstep : PulseStep s act t) : PulsesOk t := by
  cases hstep with
  | fetch _ _ =>
    exact ⟨reservedClear_fetchLine _ _ _, h.motionPeriod, h.filled, h.block, h.pins, h.issued⟩
  | pass _ _ _ =>
    obtain ⟨hdir, hrecord⟩ := reservedClear_pass h.motionDir _
    refine ⟨hdir, fun r hr => ?_, h.filled, h.block, h.pins, h.issued⟩
    rw [← Option.some.inj hr]
    exact hrecord
  | finish _ _ _ =>
    exact ⟨fun j _ _ => Nat.zero_testBit j, h.motionPeriod, h.filled, h.block, h.pins, h.issued⟩
  | @writeCheck r _ hr hfifo =>
    cases hfifo with
    | writeRejected _ _ => exact ⟨h.motionDir, h.motionPeriod, h.filled, h.block, h.pins, h.issued⟩
    | writeChecked _ _ =>
      refine ⟨h.motionDir, h.motionPeriod, h.filled, fun block hb => ?_, h.pins, h.issued⟩
      cases hb
      exact ⟨recordBytes r, rfl, reservedByte_recordBytes (h.motionPeriod r hr)⟩
  | writeCritical hfifo =>
    cases hfifo with
    | writeDone hw =>
      obtain ⟨r, rfl, hr⟩ := h.block _ hw
      have hfilled := h.filled.write r hr
      rw [show [r].length = 1 from rfl]
      generalize writeCritical s.fifo.fifo (recBytes [r]) 1 = fifo at hfilled ⊢
      exact ⟨h.motionDir, fun r hr => by (cases hr), hfilled, fun block hb => by (cases hb), h.pins, h.issued⟩
  | discard => exact ⟨h.motionDir, h.motionPeriod, h.filled, h.block, h.pins, h.issued⟩
  | rstStore hfifo =>
    have hfilled := h.filled.rstStore reservedByte_zero hfifo
    refine ⟨h.motionDir, h.motionPeriod, hfilled, ?_, h.pins, h.issued⟩
    cases hfifo <;> exact h.block
  | interrupt hfifo => exact h.interrupt hfifo

/-- **Direction before pulse**: whatever lines are planned, discarded and stopped, and however the parties interleave,
every pulse is issued while the direction pin of its axis is as the record says. -/
theorem direction_before_pulse {dirPin : Axis → Dir} {acts : List PulseAct} {s : Pulses}
    (h : Run PulseStep (startPulses dirPin) acts s) :
    ∀ p ∈ s.issued, p.dirPin = flagDir (motionDirOf p.record.motionFlag) p.axis :=
  (h.invariant (pulsesOk_start dirPin) fun _ _ _ ht hstep => ht.step hstep).issued

/-- The same line with Y turned. -/
def turnedY : PlanLine :=
  { threeSteps with
    axis := fun
      | .Y => { threeSteps.axis .Y with dir := .forward }
      | a => threeSteps.axis a }

/-- The first record of a line, a record that is lost in a reset, and the records of a line with one axis turned. -/
theorem direction_before_pulse_reset :
    ∃ s : Pulses,
      Run PulseStep (startPulses fun _ => .backward)
        [.fetch 0 threeSteps, .pass 0, .writeCheck, .writeCritical, .interrupt, .pass 0, .writeCheck, .writeCritical,
          .rstStore, .rstStore, .rstStore, .rstStore, .discard, .interrupt, .fetch 0 turnedY, .pass 0, .writeCheck,
          .writeCritical, .interrupt, .pass 0, .writeCheck, .writeCritical, .interrupt] s ∧
      s.issued.map (fun p => (p.axis, p.dirPin)) = [(.X, .forward), (.X, .forward), (.X, .forward), (.Y, .forward)] ∧
      ∀ p ∈ s.issued, p.dirPin = flagDir (motionDirOf p.record.motionFlag) p.axis := by
  have hfirst := (((((Run.nil (R := PulseStep) (startPulses fun _ => .backward)).snoc
    (@PulseStep.fetch _ 0 threeSteps rfl rfl)).snoc
    (.pass (i := 0) rfl rfl (by decide))).snoc
    (.writeCheck rfl (.writeChecked rfl (by decide)))).snoc
    (.writeCritical (.writeDone rfl))).snoc
    (.interrupt (.readDone (by decide)))
  have hreset := (((((((((hfirst.snoc
    (.pass (i := 0) rfl rfl (by decide))).snoc
    (.writeCheck rfl (.writeChecked rfl (by decide)))).snoc
    (.writeCritical (.writeDone rfl))).snoc
    (.rstStore (.rstReadIndex rfl))).snoc
    (.rstStore (.rstWriteIndex rfl))).snoc
    (.rstStore (.rstLeftSlot rfl))).snoc
    (.rstStore (.rstMemset rfl))).snoc
    .discard).snoc
    (.interrupt (.readRejected (by decide))))
  have hturned := (((((((((hreset.snoc
    (@PulseStep.fetch _ 0 turnedY rfl rfl)).snoc
    (.pass (i := 0) rfl rfl (by decide))).snoc
    (.writeCheck rfl (.writeChecked rfl (by decide)))).snoc
    (.writeCritical (.writeDone rfl))).snoc
    (.interrupt (.readDone (by decide)))).snoc
    (.pass (i := 0) rfl rfl (by decide))).snoc
    (.writeCheck rfl (.writeChecked rfl (by decide)))).snoc
    (.writeCritical (.writeDone rfl))).snoc
    (.interrupt (.readDone (by decide))))
  exact ⟨_, hturned, by decide +kernel, direction_before_pulse hturned⟩

end Runs

end Cxsw.Motion
