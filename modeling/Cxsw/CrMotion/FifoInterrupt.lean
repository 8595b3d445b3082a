import Cxsw.CrMotion.Fifo

/-!
# Cxsw.CrMotion.FifoInterrupt — the common FIFO shared with the step interrupt

Three parties share `AxisFifo`: the motion thread in `CommonWriteFifo`, the timer interrupt (`StepperInterrupt`
runs one whole `CommonReadFifo` of one record) and a thread in `SteppersStopQuick`, whose `CommonRstFifo` is four
stores outside any critical section.  `Step` interleaves them statement by statement; the critical section of the
write is one step, because interrupts are off in it.

* `replay`: the queue a log of writes, reads and resets leaves, `none` when a read did not return the oldest
  record then stored.
* `Quiet`: the steps during which the reset is not disturbed.
* `fifo_consistent_of_quiet`: in runs of quiet steps nothing is lost, repeated or read too early, and the counters
  agree whenever no operation is in progress.
* `fifo_reset_race`: one interrupt between the first two stores of the reset, and the counters disagree for good.
-/

namespace Cxsw.Fifo

/-! ## The step relation -/

section Defs

/-- Where `CommonWriteFifo` stands. -/
inductive WriterPc (S : ℕ)
  | idle
  /-- The free slots were checked; the critical section is next. -/
  | checked (block : List (Rec S))

/-- Where `CommonRstFifo` stands: after how many of its stores. -/
inductive RstPc
  | idle
  | readIndexStored
  | writeIndexStored
  | leftSlotStored
  deriving DecidableEq

/-- What happened to the FIFO, as its users see it. -/
inductive Event (S : ℕ)
  | wrote (block : List (Rec S))
  | read (readBuf : List UInt8)
  | reset

/-- The shared FIFO, the two threads inside it and the log of what was done. -/
structure Shared (m : FifoMem) where
  fifo : CommonFiFo
  writer : WriterPc m.singleSize
  rst : RstPc
  log : List (Event m.singleSize)

/-- The parties' next statements. -/
inductive Act (m : FifoMem)
  /-- `CommonWriteFifo` is called and checks the free slots. -/
  | writeCheck (block : { rs : List (Rec m.singleSize) // rs.length < 2 ^ 32 })
  /-- Its critical section. -/
  | writeCritical
  /-- `StepperInterrupt`: `CommonReadFifo(&AxisFifo, &MotionPeriod, 1)`. -/
  | interrupt
  /-- The next store of `CommonRstFifo`. -/
  | rstStore

variable {m : FifoMem}

def initShared (m : FifoMem) : Shared m :=
  ⟨commonCreateFifo m.singleSize m.fifoLen, .idle, .idle, []⟩

/-- One statement of one party. -/
inductive Step : Shared m → Act m → Shared m → Prop
  | writeRejected {s : Shared m} {b} : s.writer = .idle → s.fifo.fifoLeftSlot < b.1.length →
      Step s (.writeCheck b) s
  | writeChecked {s : Shared m} {b} : s.writer = .idle → ¬ s.fifo.fifoLeftSlot < b.1.length →
      Step s (.writeCheck b) { s with writer := .checked b.1 }
  | writeDone {s : Shared m} {block} : s.writer = .checked block →
      Step s .writeCritical
        { s with
          fifo := writeCritical s.fifo (recBytes block) block.length
          writer := .idle
          log := s.log ++ [.wrote block] }
  | readRejected {s : Shared m} : (commonReadFifo s.fifo 1).1 = -2 → Step s .interrupt s
  | readDone {s : Shared m} : (commonReadFifo s.fifo 1).1 ≠ -2 →
      Step s .interrupt
        { s with
          fifo := (commonReadFifo s.fifo 1).2.2
          log := s.log ++ [.read (commonReadFifo s.fifo 1).2.1] }
  | rstReadIndex {s : Shared m} : s.rst = .idle →
      Step s .rstStore { s with fifo := { s.fifo with readIndex := 0 }, rst := .readIndexStored }
  | rstWriteIndex {s : Shared m} : s.rst = .readIndexStored →
      Step s .rstStore { s with fifo := { s.fifo with writeIndex := 0 }, rst := .writeIndexStored }
  | rstLeftSlot {s : Shared m} : s.rst = .writeIndexStored →
      Step s .rstStore
        { s with
          fifo := { s.fifo with fifoLeftSlot := s.fifo.fifolen }
          rst := .leftSlotStored
          log := s.log ++ [.reset] }
  | rstMemset {s : Shared m} : s.rst = .leftSlotStored →
      Step s .rstStore
        { s with
          fifo := { s.fifo with
            fifoBuf := List.replicate (u32 (s.fifo.fifoSingleSize * s.fifo.fifolen)) 0 }
          rst := .idle }

/-- One event on the queue of records written and not yet read. -/
def replayStep {S : ℕ} (q : List (Rec S)) : Event S → Option (List (Rec S))
  | .wrote block => some (q ++ block)
  | .read readBuf =>
    match q with
    | [] => none
    | r :: q' => if r.1 = readBuf then some q' else none
  | .reset => some []

/-- The queue a log leaves, if every read in it returned the oldest record then stored. -/
def replay {S : ℕ} (log : List (Event S)) : Option (List (Rec S)) :=
  log.foldl (fun q e => q.bind (fun q => replayStep q e)) (some [])

/-- The relation between the indices and the free-slot counter. -/
def CountersAgree (f : CommonFiFo) : Prop :=
  (f.writeIndex + f.fifolen - f.readIndex) % f.fifolen = (f.fifolen - f.fifoLeftSlot) % f.fifolen

instance (f : CommonFiFo) : Decidable (CountersAgree f) := inferInstanceAs (Decidable (_ = _))

/-- No operation is in progress. -/
def Settled (s : Shared m) : Prop := s.writer = .idle ∧ s.rst = .idle

/-- The steps that leave a reset in progress undisturbed: between the store of the read index and that of the
free-slot counter the interrupt finds the FIFO empty, and no record is copied in after the store of the write
index. -/
def Quiet (s : Shared m) : Act m → Prop
  | .interrupt => s.rst = .readIndexStored ∨ s.rst = .writeIndexStored → s.fifo.fifoLeftSlot = s.fifo.fifolen
  | .writeCritical => s.rst = .writeIndexStored ∨ s.rst = .leftSlotStored → s.writer = .checked []
  | _ => True

end Defs

/-! ## The invariant of quiet runs -/

section Inv

variable {m : FifoMem}

theorem replay_concat {S : ℕ} (log : List (Event S)) (e : Event S) :
    replay (log ++ [e]) = (replay log).bind (fun q => replayStep q e) := by
  simp [replay, List.foldl_append]

/-- The buffer and its sizes, whatever the indices are. -/
structure Geom (m : FifoMem) (f : CommonFiFo) : Prop where
  len : f.fifolen = m.fifoLen
  size : f.fifoSingleSize = m.singleSize
  buf : f.fifoBuf.length = m.fifoLen * m.singleSize

/-- How the FIFO relates to the queue `q` at each point of a reset: the counters are wrong after its first store,
and right again, for the empty queue, after the third. -/
def RstInv (f : CommonFiFo) (q : BQueue (Rec m.singleSize) m.fifoLen) : RstPc → Prop
  | .idle => Reps m f q
  | .readIndexStored =>
    Geom m f ∧ f.readIndex = 0 ∧ f.writeIndex < m.fifoLen ∧ f.fifoLeftSlot + q.1.length = m.fifoLen
  | .writeIndexStored =>
    Geom m f ∧ f.readIndex = 0 ∧ f.writeIndex = 0 ∧ f.fifoLeftSlot + q.1.length = m.fifoLen
  | .leftSlotStored => Reps m f q ∧ q.1 = []

/-- The writer's check still holds at its critical section. -/
def WriterInv {S : ℕ} (fifoLeftSlot : ℕ) : WriterPc S → Prop
  | .idle => True
  | .checked block => block.length ≤ fifoLeftSlot

/-- The invariant of quiet runs. -/
def SharedInv (s : Shared m) : Prop :=
  ∃ q : BQueue (Rec m.singleSize) m.fifoLen,
    replay s.log = some q.1 ∧ RstInv s.fifo q s.rst ∧ WriterInv s.fifo.fifoLeftSlot s.writer

theorem Reps.geom {f : CommonFiFo} {q : BQueue (Rec m.singleSize) m.fifoLen} (h : Reps m f q) : Geom m f :=
  ⟨h.len, h.size, h.buf⟩

theorem WriterInv.mono {S left left' : ℕ} {w : WriterPc S} (h : WriterInv left w) (hle : left ≤ left') :
    WriterInv left' w := by
  cases w with
  | idle => exact trivial
  | checked block => exact le_trans h hle

theorem reps_empty {f : CommonFiFo} (h : Geom m f) (hr : f.readIndex < m.fifoLen)
    (hw : f.writeIndex = f.readIndex) (hl : f.fifoLeftSlot = m.fifoLen) :
    Reps m f (BQueue.empty _ _) where
  len := h.len
  size := h.size
  buf := h.buf
  read_lt := hr
  left := by simp [BQueue.empty, hl]
  write := by simp [BQueue.empty, hr, hw]
  cells := by simp [BQueue.empty]

/-- The critical section of a write never reads `readIndex`, so it keeps the geometry from any state in which the
write index is in range. -/
theorem geom_writeCritical {f : CommonFiFo} (h : Geom m f) (hw : f.writeIndex < m.fifoLen)
    (block : List (Rec m.singleSize)) (hb : block.length ≤ f.fifoLeftSlot) (hl : f.fifoLeftSlot ≤ m.fifoLen) :
    Geom m (writeCritical f (recBytes block) block.length) ∧
      (writeCritical f (recBytes block) block.length).readIndex = f.readIndex ∧
      (writeCritical f (recBytes block) block.length).writeIndex < m.fifoLen ∧
      (writeCritical f (recBytes block) block.length).fifoLeftSlot = f.fifoLeftSlot - block.length := by
  have h2 := m.len_lt
  -- the same write into an empty FIFO that starts at the write index
  set g : CommonFiFo := { f with readIndex := f.writeIndex, fifoLeftSlot := m.fifoLen } with hg
  have hg0 : Reps m g (BQueue.empty _ _) := reps_empty ⟨h.len, h.size, h.buf⟩ hw rfl rfl
  have hR := reps_writeCritical hg0 block (by simp [BQueue.empty]; omega)
  refine ⟨⟨h.len, h.size, hR.buf⟩, rfl, hR.write_lt, ?_⟩
  exact u32Sub_of_le hb (by omega)

/-- A read finds nothing when the free-slot counter stands at the capacity, wherever the indices are. -/
theorem commonReadFifo_empty {f : CommonFiFo} (h : f.fifoLeftSlot = f.fifolen) :
    (commonReadFifo f 1).1 = -2 := by
  have h0 : u32Sub f.fifolen f.fifoLeftSlot < 1 := by
    rw [h, u32Sub, Nat.add_sub_cancel_left, Nat.mod_self]
    exact Nat.one_pos
  unfold commonReadFifo
  rw [if_pos h0]

theorem sharedInv_init : SharedInv (initShared m) := by
  refine ⟨BQueue.empty _ _, rfl, reps_create m, trivial⟩

theorem writeCritical_nil {f : CommonFiFo} (h : Geom m f) (hw : f.writeIndex < m.fifoLen)
    (hl : f.fifoLeftSlot ≤ m.fifoLen) :
    writeCritical f (recBytes ([] : List (Rec m.singleSize))) 0 = f := by
  have h2 := m.len_lt
  have hlen := h.len
  have hsum : u32 (f.writeIndex + 0) = f.writeIndex := u32_of_lt (by omega)
  have hleft : u32Sub f.fifoLeftSlot 0 = f.fifoLeftSlot := u32Sub_of_le (by omega) (by omega)
  unfold writeCritical
  rw [hsum, hleft, if_pos (by omega)]
  simp [Ring.splice, show ¬ f.writeIndex = f.fifolen by omega]

theorem sharedInv_writeDone {s : Shared m} {block : List (Rec m.singleSize)} (hi : SharedInv s)
    (hw : s.writer = .checked block) (hq : Quiet s .writeCritical) :
    SharedInv
      { s with
        fifo := writeCritical s.fifo (recBytes block) block.length
        writer := .idle
        log := s.log ++ [.wrote block] } := by
  obtain ⟨q, hlog, hrst, hwr⟩ := hi
  rw [hw] at hwr
  have hroom : block.length ≤ s.fifo.fifoLeftSlot := hwr
  have hnew : replay (s.log ++ [.wrote block]) = some (q.1 ++ block) := by
    simp [replay_concat, hlog, replayStep]
  have hempty : s.rst = .writeIndexStored ∨ s.rst = .leftSlotStored → block = [] := by
    intro h
    have := hq h
    rw [hw] at this
    exact WriterPc.checked.inj this
  cases hr : s.rst with
  | idle =>
    rw [hr] at hrst
    have hR : Reps m s.fifo q := hrst
    have hfit : q.1.length + block.length ≤ m.fifoLen := by
      have := hR.left
      omega
    exact ⟨⟨q.1 ++ block, by simpa using hfit⟩, hnew, reps_writeCritical hR block hfit, trivial⟩
  | readIndexStored =>
    -- the block lands at the old write index and the rest of the reset discards it
    rw [hr] at hrst
    obtain ⟨hg, h0, hwlt, hl⟩ := hrst
    have hfit : q.1.length + block.length ≤ m.fifoLen := by omega
    obtain ⟨h3, h4, h5, h6⟩ := geom_writeCritical hg hwlt block hroom (by omega)
    refine ⟨⟨q.1 ++ block, by simpa using hfit⟩, hnew, ⟨h3, h4.trans h0, h5, ?_⟩, trivial⟩
    rw [h6, List.length_append]
    omega
  | writeIndexStored =>
    have hb := hempty (Or.inl hr)
    subst hb
    rw [hr] at hrst
    obtain ⟨hg, h0, hw0, hl⟩ := hrst
    refine ⟨q, by simpa using hnew, ?_, trivial⟩
    simp only [List.length_nil, writeCritical_nil hg (by rw [hw0]; exact m.len_pos) (by omega)]
    exact ⟨hg, h0, hw0, hl⟩
  | leftSlotStored =>
    have hb := hempty (Or.inr hr)
    subst hb
    rw [hr] at hrst
    have hR : Reps m s.fifo q := hrst.1
    have hl := hR.left
    refine ⟨q, by simpa using hnew, ?_, trivial⟩
    simp only [List.length_nil, writeCritical_nil hR.geom hR.write_lt (by omega)]
    exact hrst

theorem sharedInv_readDone {s : Shared m} (hi : SharedInv s) (hok : (commonReadFifo s.fifo 1).1 ≠ -2)
    (hq : Quiet s .interrupt) :
    SharedInv
      { s with
        fifo := (commonReadFifo s.fifo 1).2.2
        log := s.log ++ [.read (commonReadFifo s.fifo 1).2.1] } := by
  obtain ⟨q, hlog, hrst, hwr⟩ := hi
  -- it needs a stored record, so no reset is past its first store
  have hidle : s.rst = .idle := by
    cases hr : s.rst with
    | idle => rfl
    | readIndexStored => exact absurd (commonReadFifo_empty (hq (Or.inl hr))) hok
    | writeIndexStored => exact absurd (commonReadFifo_empty (hq (Or.inr hr))) hok
    | leftSlotStored =>
      rw [hr] at hrst
      have hrej := commonReadFifo_reject hrst.1 (n := 1) (by simp [hrst.2])
      exact absurd (by rw [hrej]) hok
  rw [hidle] at hrst
  have hR : Reps m s.fifo q := hrst
  have hpos : 1 ≤ q.1.length := by
    by_contra hlt
    have hrej := commonReadFifo_reject hR (n := 1) (by omega)
    exact hok (by rw [hrej])
  obtain ⟨f', he, hR'⟩ := commonReadFifo_accept hR hpos
  obtain ⟨r, q', hcons⟩ := List.exists_cons_of_length_pos (l := q.1) (by omega)
  have htake : recBytes (q.1.take 1) = r.1 := by simp [hcons]
  have hnew : replay (s.log ++ [.read (recBytes (q.1.take 1))]) = some (q.1.drop 1) := by
    rw [replay_concat, hlog, htake, hcons]
    simp [replayStep]
  rw [he]
  refine ⟨⟨q.1.drop 1, by simp; have := q.2; omega⟩, hnew, ?_, ?_⟩
  · rw [hidle]
    exact hR'
  · have h3 := hR.left
    have h4 := hR'.left
    rw [List.length_drop] at h4
    exact hwr.mono (by simp only; omega)

theorem sharedInv_rstStore {s t : Shared m} (hi : SharedInv s) (h : Step s .rstStore t) : SharedInv t := by
  obtain ⟨q, hlog, hrst, hwr⟩ := hi
  cases h with
  | rstReadIndex hr =>
    rw [hr] at hrst
    have hR : Reps m s.fifo q := hrst
    exact ⟨q, hlog, ⟨⟨hR.len, hR.size, hR.buf⟩, rfl, hR.write_lt, hR.left⟩, hwr⟩
  | rstWriteIndex hr =>
    rw [hr] at hrst
    obtain ⟨hg, hr0, -, hl⟩ := hrst
    exact ⟨q, hlog, ⟨⟨hg.len, hg.size, hg.buf⟩, hr0, rfl, hl⟩, hwr⟩
  | rstLeftSlot hr =>
    rw [hr] at hrst
    obtain ⟨hg, hr0, hw0, hl⟩ := hrst
    have hnew : replay (s.log ++ [.reset]) = some (BQueue.empty (Rec m.singleSize) m.fifoLen).1 := by
      simp [replay_concat, hlog, replayStep, BQueue.empty]
    have hle : s.fifo.fifoLeftSlot ≤ s.fifo.fifolen := by
      have := hg.len
      omega
    refine ⟨BQueue.empty _ _, hnew, ⟨?_, rfl⟩, hwr.mono hle⟩
    exact reps_empty ⟨hg.len, hg.size, hg.buf⟩ (by rw [hr0]; exact m.len_pos) (hw0.trans hr0.symm) hg.len
  | rstMemset hr =>
    rw [hr] at hrst
    obtain ⟨hR, hnil⟩ := hrst
    have hq0 : q = BQueue.empty _ _ := Subtype.ext hnil
    subst hq0
    have hbuf : u32 (s.fifo.fifoSingleSize * s.fifo.fifolen) = m.fifoLen * m.singleSize := by
      rw [hR.len, hR.size, Nat.mul_comm]
      exact m.u32_mul le_rfl
    have hw : s.fifo.writeIndex = s.fifo.readIndex := by
      have := hR.write
      simpa [BQueue.empty, hR.read_lt] using this
    have hl : s.fifo.fifoLeftSlot = m.fifoLen := by simpa [BQueue.empty] using hR.left
    refine ⟨BQueue.empty _ _, hlog, ?_, hwr⟩
    exact reps_empty ⟨hR.len, hR.size, by rw [hbuf, List.length_replicate]⟩ hR.read_lt hw hl

/-- **One quiet step keeps the invariant.** -/
theorem sharedInv_step {s t : Shared m} {a : Act m} (hi : SharedInv s) (h : Step s a t) (hq : Quiet s a) :
    SharedInv t := by
  cases a with
  | writeCheck block =>
    obtain ⟨q, hlog, hrst, hwr⟩ := hi
    cases h with
    | writeRejected _ _ => exact ⟨q, hlog, hrst, hwr⟩
    | writeChecked _ hroom => exact ⟨q, hlog, hrst, not_lt.mp hroom⟩
  | writeCritical =>
    cases h with
    | writeDone hw => exact sharedInv_writeDone hi hw hq
  | interrupt =>
    cases h with
    | readRejected _ => exact hi
    | readDone hok => exact sharedInv_readDone hi hok hq
  | rstStore => exact sharedInv_rstStore hi h

theorem Reps.countersAgree {f : CommonFiFo} {q : BQueue (Rec m.singleSize) m.fifoLen} (h : Reps m f q) :
    CountersAgree f := by
  have h1 := h.left
  have h2 := h.read_lt
  have h3 := q.2
  unfold CountersAgree
  rw [h.len, h.write, show m.fifoLen - f.fifoLeftSlot = q.1.length by omega]
  split_ifs with h4
  · rw [show f.readIndex + q.1.length + m.fifoLen - f.readIndex = q.1.length + m.fifoLen by omega,
      Nat.add_mod_right]
  · rw [show f.readIndex + q.1.length - m.fifoLen + m.fifoLen - f.readIndex = q.1.length by omega]

/-- **Consistency under the step interrupt.**  In every run whose steps leave a reset in progress undisturbed, each
read returned the oldest record written since the last reset and not yet read, and whenever no operation is in
progress the ring stores exactly the records still to be read and its counters agree. -/
theorem fifo_consistent_of_quiet {as : List (Act m)} {s : Shared m}
    (h : Run (Guarded Step Quiet) (initShared m) as s) :
    ∃ q : BQueue (Rec m.singleSize) m.fifoLen, replay s.log = some q.1 ∧
      (Settled s → Reps m s.fifo q ∧ CountersAgree s.fifo) := by
  obtain ⟨q, hlog, hrst, -⟩ := h.invariant sharedInv_init (fun _ _ _ hi hs => sharedInv_step hi hs.1 hs.2)
  refine ⟨q, hlog, fun hset => ?_⟩
  rw [hset.2] at hrst
  exact ⟨hrst, hrst.countersAgree⟩

end Inv

/-! ## The step FIFO -/

section AxisFifo

/-- `AxisFifoData`: `TICK_BUF_SIZE` records of a 16-bit motion flag and a 16-bit period. -/
def axisFifo : FifoMem := ⟨4, 512, by decide, by decide, by decide⟩

/-- One step of the X axis every 8 microseconds. -/
def xStep : Rec 4 := ⟨[1, 0, 8, 0], rfl⟩

/-- A run with a write, a read and a reset that no interrupt disturbs. -/
theorem fifo_consistent_quiet_run :
    ∃ s : Shared axisFifo,
      Run (Guarded Step Quiet) (initShared axisFifo)
        [.writeCheck ⟨[xStep, xStep], by decide⟩, .writeCritical, .interrupt, .rstStore, .rstStore, .rstStore,
          .rstStore] s ∧
      ∃ q : BQueue (Rec axisFifo.singleSize) axisFifo.fifoLen, replay s.log = some q.1 ∧
        (Settled s → Reps axisFifo s.fifo q ∧ CountersAgree s.fifo) := by
  have hrun := ((((((((Run.nil (R := Guarded Step Quiet) (initShared axisFifo)).snoc
    ⟨.writeChecked (b := ⟨[xStep, xStep], by decide⟩) rfl (by decide), trivial⟩).snoc
    ⟨.writeDone rfl, fun h => by rcases h with h | h <;> cases h⟩).snoc
    ⟨.readDone (by decide), fun h => by rcases h with h | h <;> cases h⟩).snoc
    ⟨.rstReadIndex rfl, trivial⟩).snoc
    ⟨.rstWriteIndex rfl, trivial⟩).snoc
    ⟨.rstLeftSlot rfl, trivial⟩).snoc
    ⟨.rstMemset rfl, trivial⟩)
  exact ⟨_, hrun, fifo_consistent_of_quiet hrun⟩

/-- **The reset race.**  Two records are stored; the interrupt reads one between the first two stores of
`CommonRstFifo`.  The reset ends with `ReadIndex = 1` and `WriteIndex = 0` in a FIFO that counts as empty. -/
theorem fifo_reset_race :
    ∃ (as : List (Act axisFifo)) (s : Shared axisFifo),
      Run Step (initShared axisFifo) as s ∧ Settled s ∧ ¬ CountersAgree s.fifo := by
  have hrun := ((((((((Run.nil (R := Step) (initShared axisFifo)).snoc
    (.writeChecked (b := ⟨[xStep, xStep], by decide⟩) rfl (by decide))).snoc
    (.writeDone rfl)).snoc
    (.rstReadIndex rfl)).snoc
    (.readDone (by decide))).snoc
    (.rstWriteIndex rfl)).snoc
    (.rstLeftSlot rfl)).snoc
    (.rstMemset rfl))
  exact ⟨_, _, hrun, ⟨rfl, rfl⟩, by decide⟩

end AxisFifo

end Cxsw.Fifo
