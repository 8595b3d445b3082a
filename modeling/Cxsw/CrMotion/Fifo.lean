import Mathlib.Data.List.Flatten
import Mathlib.Tactic.Ring
import Cxsw.Lib.Ring
import Cxsw.Lib.Run
import Cxsw.Lib.Word
import Cxsw.Lib.Queue

/-!
# Cxsw.CrMotion.Fifo — the common FIFO (`CrMotion/Fifo.c`)

A ring of `fifolen` records of `fifoSingleSize` bytes with a separately kept counter of free slots.  All counters
are `U32`; the copies are `memcpy`s at byte offsets.

* `commonReadFifo`, `commonWriteFifo`, `commonRstFifo`: the three operations, with their return codes.
* `Reps f q`: the ring holds the queue `q` of records.  Each operation has one lemma on `Reps`.
* `common_fifo_refines_queue`: over any sequence of calls the ring answers as a bounded queue does.

The null checks of the source (`CommonFifo == NULL && ...`) are not modelled: a caller has a FIFO.  `BufHead`
equals `FifoBuf` and `BufTail` is never read, so one byte list stands for the buffer.
-/

namespace Cxsw.Fifo

/-! ## The operations -/

/-- `CommonFiFo_t`. -/
structure CommonFiFo where
  fifoBuf : List UInt8
  readIndex : ℕ
  writeIndex : ℕ
  fifolen : ℕ
  fifoSingleSize : ℕ
  fifoLeftSlot : ℕ
  deriving DecidableEq

/-- The array a FIFO is created over: `fifoLen` elements of `singleSize` bytes.  `sizeof` is never `0`, and no C
object of this 32-bit target is larger than `PTRDIFF_MAX` bytes. -/
structure FifoMem where
  singleSize : ℕ
  fifoLen : ℕ
  size_pos : 0 < singleSize
  len_pos : 0 < fifoLen
  fits : fifoLen * singleSize < 2 ^ 31

/-- `CommonCreateFifo`. -/
def commonCreateFifo (singleSize fifoLen : ℕ) : CommonFiFo where
  fifoBuf := List.replicate (fifoLen * singleSize) 0
  readIndex := 0
  writeIndex := 0
  fifolen := fifoLen
  fifoSingleSize := singleSize
  fifoLeftSlot := fifoLen

/-- `n` bytes of the buffer from byte `off` on, as `memcpy` out of it takes them. -/
def bytesAt (f : CommonFiFo) (off n : ℕ) : List UInt8 := (f.fifoBuf.drop off).take n

/-- `CommonReadFifo`: the return code, what `ReadBuf` receives and the FIFO after the call. -/
def commonReadFifo (f : CommonFiFo) (readLen : ℕ) : ℤ × List UInt8 × CommonFiFo :=
  if u32Sub f.fifolen f.fifoLeftSlot < readLen then (-2, [], f)
  else
    let (readBuf, readIndex) :=
      if u32 (f.readIndex + readLen) ≤ f.fifolen then
        let readIndex := u32 (f.readIndex + readLen)
        (bytesAt f (u32 (f.readIndex * f.fifoSingleSize)) (u32 (readLen * f.fifoSingleSize)),
          if readIndex = f.fifolen then 0 else readIndex)
      else
        -- what is left to read after the wrap, and what is read before it
        let leftLen := u32Sub (u32 (f.readIndex + readLen)) f.fifolen
        let forwardLen := u32Sub readLen leftLen
        (bytesAt f (u32 (f.readIndex * f.fifoSingleSize)) (u32 (forwardLen * f.fifoSingleSize)) ++
          bytesAt f 0 (u32 (leftLen * f.fifoSingleSize)), leftLen)
    (s32 readLen, readBuf,
      { f with readIndex := readIndex, fifoLeftSlot := u32 (f.fifoLeftSlot + readLen) })

/-- The body of `CommonWriteFifo` between `ENTRY_CRITICAL` and `EXIT_CRITICAL`. -/
def writeCritical (f : CommonFiFo) (writeBuf : List UInt8) (writeLen : ℕ) : CommonFiFo :=
  let (fifoBuf, writeIndex) :=
    if u32 (f.writeIndex + writeLen) ≤ f.fifolen then
      let writeIndex := u32 (f.writeIndex + writeLen)
      (Ring.splice f.fifoBuf (u32 (f.writeIndex * f.fifoSingleSize))
          (writeBuf.take (u32 (writeLen * f.fifoSingleSize))),
        if writeIndex = f.fifolen then 0 else writeIndex)
    else
      let leftLen := u32Sub (u32 (f.writeIndex + writeLen)) f.fifolen
      let forwardLen := u32Sub writeLen leftLen
      (Ring.splice
          (Ring.splice f.fifoBuf (u32 (f.writeIndex * f.fifoSingleSize))
            (writeBuf.take (u32 (forwardLen * f.fifoSingleSize))))
          0 ((writeBuf.drop (u32 (forwardLen * f.fifoSingleSize))).take (u32 (leftLen * f.fifoSingleSize))),
        leftLen)
  { f with
    fifoBuf := fifoBuf
    writeIndex := writeIndex
    fifoLeftSlot := u32Sub f.fifoLeftSlot writeLen }

/-- `CommonWriteFifo`: the return code and the FIFO after the call. -/
def commonWriteFifo (f : CommonFiFo) (writeBuf : List UInt8) (writeLen : ℕ) : ℤ × CommonFiFo :=
  if f.fifoLeftSlot < writeLen then (-2, f) else (s32 writeLen, writeCritical f writeBuf writeLen)

/-- `CommonRstFifo`. -/
def commonRstFifo (f : CommonFiFo) : CommonFiFo :=
  { f with
    fifoBuf := List.replicate (u32 (f.fifoSingleSize * f.fifolen)) 0
    readIndex := 0
    writeIndex := 0
    fifoLeftSlot := f.fifolen }

/-- `CommonIsFullFifo`. -/
def commonIsFullFifo (f : CommonFiFo) : ℤ := if f.fifoLeftSlot = 0 then 1 else 0

/-- `CommonIsEmptyFifo`. -/
def commonIsEmptyFifo (f : CommonFiFo) : ℤ := if f.fifoLeftSlot = f.fifolen then 1 else 0

/-! ## Records and their bytes -/

section Records

variable {S : ℕ}

/-- A record: `S` bytes. -/
abbrev Rec (S : ℕ) : Type := { r : List UInt8 // r.length = S }

/-- The bytes of a block of records. -/
def recBytes (rs : List (Rec S)) : List UInt8 := (rs.map Subtype.val).flatten

@[simp] theorem recBytes_nil : recBytes ([] : List (Rec S)) = [] := rfl

@[simp] theorem recBytes_cons (r : Rec S) (rs : List (Rec S)) : recBytes (r :: rs) = r.1 ++ recBytes rs := rfl

theorem recBytes_append (rs ts : List (Rec S)) : recBytes (rs ++ ts) = recBytes rs ++ recBytes ts := by
  simp [recBytes]

@[simp] theorem recBytes_length (rs : List (Rec S)) : (recBytes rs).length = rs.length * S := by
  induction rs with
  | nil => simp
  | cons r rs ih => rw [recBytes_cons, List.length_append, ih, r.2, List.length_cons, Nat.succ_mul, Nat.add_comm]

theorem recBytes_take (rs : List (Rec S)) (n : ℕ) : (recBytes rs).take (n * S) = recBytes (rs.take n) := by
  induction rs generalizing n with
  | nil => simp
  | cons r rs ih =>
    cases n with
    | zero => simp
    | succ n =>
      have h1 : (n + 1) * S = S + n * S := by ring
      rw [recBytes_cons, List.take_succ_cons, recBytes_cons, ← ih, List.take_append, r.2, h1,
        List.take_of_length_le (by rw [r.2]; omega), Nat.add_sub_cancel_left]

theorem recBytes_drop (rs : List (Rec S)) (n : ℕ) : (recBytes rs).drop (n * S) = recBytes (rs.drop n) := by
  have h1 : recBytes rs = recBytes (rs.take n) ++ recBytes (rs.drop n) := by
    rw [← recBytes_append, List.take_append_drop]
  have h2 := List.take_append_drop (n * S) (recBytes rs)
  rw [recBytes_take] at h2
  exact List.append_cancel_left (h2.trans h1)

end Records

/-! ## Representation -/

/-- The ring `f` over the array `m` holds the queue `q`. -/
structure Reps (m : FifoMem) (f : CommonFiFo) (q : BQueue (Rec m.singleSize) m.fifoLen) : Prop where
  len : f.fifolen = m.fifoLen
  size : f.fifoSingleSize = m.singleSize
  buf : f.fifoBuf.length = m.fifoLen * m.singleSize
  read_lt : f.readIndex < m.fifoLen
  left : f.fifoLeftSlot + q.1.length = m.fifoLen
  write : f.writeIndex =
    if f.readIndex + q.1.length < m.fifoLen then f.readIndex + q.1.length
    else f.readIndex + q.1.length - m.fifoLen
  cells : Ring.window f.fifoBuf (f.readIndex * m.singleSize) (q.1.length * m.singleSize) = recBytes q.1

section Spec

variable {m : FifoMem} {f : CommonFiFo} {q : BQueue (Rec m.singleSize) m.fifoLen}

theorem FifoMem.len_lt (m : FifoMem) : m.fifoLen < 2 ^ 31 :=
  lt_of_le_of_lt (Nat.le_mul_of_pos_right _ m.size_pos) m.fits

theorem FifoMem.u32_mul (m : FifoMem) {k : ℕ} (hk : k ≤ m.fifoLen) :
    u32 (k * m.singleSize) = k * m.singleSize := by
  have h1 : k * m.singleSize ≤ m.fifoLen * m.singleSize := Nat.mul_le_mul_right _ hk
  have h2 := m.fits
  exact u32_of_lt (by omega)

theorem Reps.write_lt (h : Reps m f q) : f.writeIndex < m.fifoLen := by
  have h1 := h.read_lt
  have h2 := h.left
  rw [h.write]
  split_ifs <;> omega

theorem reps_create (m : FifoMem) :
    Reps m (commonCreateFifo m.singleSize m.fifoLen) (BQueue.empty _ _) where
  len := rfl
  size := rfl
  buf := by simp [commonCreateFifo]
  read_lt := m.len_pos
  left := by simp [commonCreateFifo, BQueue.empty]
  write := by simp [commonCreateFifo, BQueue.empty, m.len_pos]
  cells := by simp [BQueue.empty]

theorem reps_rst (h : Reps m f q) : Reps m (commonRstFifo f) (BQueue.empty _ _) where
  len := h.len
  size := h.size
  buf := by
    have h1 := m.u32_mul (le_refl m.fifoLen)
    simp only [commonRstFifo, List.length_replicate, h.len, h.size]
    rw [Nat.mul_comm, h1]
  read_lt := m.len_pos
  left := by simp [commonRstFifo, BQueue.empty, h.len]
  write := by simp [commonRstFifo, BQueue.empty, m.len_pos]
  cells := by simp [BQueue.empty]

/-- What the guard of a read computes is the number of stored records. -/
theorem Reps.stored (h : Reps m f q) : u32Sub f.fifolen f.fifoLeftSlot = q.1.length := by
  have h1 := h.left
  have h2 := m.len_lt
  rw [u32Sub_of_le (by rw [h.len]; omega) (by rw [h.len]; omega), h.len]
  omega

/-- A read of more than is stored is rejected. -/
theorem commonReadFifo_reject (h : Reps m f q) {n : ℕ} (hn : q.1.length < n) :
    commonReadFifo f n = (-2, [], f) := by
  simp only [commonReadFifo, h.stored, if_pos hn]

/-- A read of what is stored returns the oldest records and removes them. -/
theorem commonReadFifo_accept (h : Reps m f q) {n : ℕ} (hn : n ≤ q.1.length) :
    ∃ f', commonReadFifo f n = ((n : ℤ), recBytes (q.1.take n), f') ∧
      Reps m f' ⟨q.1.drop n, by simp; have := q.2; omega⟩ := by
  have h1 := h.left
  have h2 := m.len_lt
  have hr := h.read_lt
  have h3 : ¬ u32Sub f.fifolen f.fifoLeftSlot < n := by rw [h.stored]; omega
  have hsum : u32 (f.readIndex + n) = f.readIndex + n := u32_of_lt (by omega)
  have hret : s32 (n : ℤ) = n := s32_of_range (by omega) (by omega)
  have hleft : u32 (f.fifoLeftSlot + n) = f.fifoLeftSlot + n := u32_of_lt (by omega)
  have hrb : f.readIndex * m.singleSize < f.fifoBuf.length := by
    rw [h.buf]
    exact Nat.mul_lt_mul_of_pos_right hr m.size_pos
  have hnb : n * m.singleSize ≤ q.1.length * m.singleSize := Nat.mul_le_mul_right _ hn
  have hqb : q.1.length * m.singleSize ≤ f.fifoBuf.length := by
    rw [h.buf]
    exact Nat.mul_le_mul_right _ q.2
  have hsb : f.readIndex * m.singleSize + n * m.singleSize = (f.readIndex + n) * m.singleSize := by ring
  -- the bytes read are those of the `n` oldest records
  have hread : Ring.ringRead f.fifoBuf (f.readIndex * m.singleSize) (n * m.singleSize) =
      recBytes (q.1.take n) := by
    rw [Ring.ringRead_eq_window hrb (by omega), ← Ring.window_take _ _ hnb, h.cells, recBytes_take]
  have hdrop : recBytes (q.1.drop n) = Ring.window f.fifoBuf
      (if f.readIndex * m.singleSize + n * m.singleSize < f.fifoBuf.length then
        f.readIndex * m.singleSize + n * m.singleSize
       else f.readIndex * m.singleSize + n * m.singleSize - f.fifoBuf.length)
      (q.1.length * m.singleSize - n * m.singleSize) := by
    rw [← recBytes_drop, ← h.cells, Ring.window_drop hrb hnb hqb]
  have hqn : (q.1.drop n).length * m.singleSize = q.1.length * m.singleSize - n * m.singleSize := by
    rw [List.length_drop, Nat.sub_mul]
  rcases Nat.lt_or_ge m.fifoLen (f.readIndex + n) with hwrap | hlin
  · -- the block wraps
    have hll : u32Sub (f.readIndex + n) f.fifolen = f.readIndex + n - m.fifoLen := by
      rw [h.len, u32Sub_of_le (by omega) (by omega)]
    have hfl : u32Sub n (f.readIndex + n - m.fifoLen) = m.fifoLen - f.readIndex := by
      rw [u32Sub_of_le (by omega) (by omega)]
      omega
    have hcmp : m.fifoLen * m.singleSize < (f.readIndex + n) * m.singleSize :=
      Nat.mul_lt_mul_of_pos_right hwrap m.size_pos
    refine ⟨{ f with readIndex := f.readIndex + n - m.fifoLen, fifoLeftSlot := f.fifoLeftSlot + n }, ?_, ?_⟩
    · rw [h.len] at hll h3
      simp only [commonReadFifo, h.len, h.size, if_neg h3, hsum,
        if_neg (by omega : ¬ f.readIndex + n ≤ m.fifoLen), hret, hleft]
      rw [hll, hfl, m.u32_mul (by omega), m.u32_mul (by omega), m.u32_mul (by omega), ← hread]
      unfold Ring.ringRead bytesAt
      rw [if_neg (by rw [h.buf, hsb]; omega), h.buf, hsb]
      simp only [Nat.sub_mul, List.drop_zero]
    · refine ⟨h.len, h.size, h.buf, by simp; omega, by simp; omega, ?_, ?_⟩
      · simp only [List.length_drop]
        rw [h.write]
        split_ifs <;> omega
      · simp only [hqn]
        rw [hdrop, if_neg (by rw [h.buf, hsb]; omega), h.buf, hsb, Nat.sub_mul]
  · -- the block is contiguous
    refine ⟨{ f with
      readIndex := if f.readIndex + n = m.fifoLen then 0 else f.readIndex + n
      fifoLeftSlot := f.fifoLeftSlot + n }, ?_, ?_⟩
    · rw [h.len] at h3
      simp only [commonReadFifo, h.len, h.size, if_neg h3, hsum, if_pos hlin, hret, hleft]
      rw [m.u32_mul (by omega), m.u32_mul (by omega), ← hread]
      unfold Ring.ringRead bytesAt
      have hbytes : f.readIndex * m.singleSize + n * m.singleSize ≤ f.fifoBuf.length := by
        rw [h.buf, hsb]
        exact Nat.mul_le_mul_right _ hlin
      rw [if_pos hbytes]
    · refine ⟨h.len, h.size, h.buf, ?_, by simp; omega, ?_, ?_⟩
      · have := m.len_pos
        simp only
        split_ifs <;> omega
      · simp only [List.length_drop]
        rw [h.write]
        split_ifs <;> omega
      · simp only [hqn]
        rw [hdrop, h.buf, hsb]
        split_ifs with he hlt hlt
        · rw [he] at hlt
          omega
        · rw [he, Nat.sub_self, Nat.zero_mul]
        · rfl
        · have := Nat.mul_lt_mul_of_pos_right (show f.readIndex + n < m.fifoLen by omega) m.size_pos
          omega

/-- The critical section of a write appends the block, when it fits. -/
theorem reps_writeCritical (h : Reps m f q) (rs : List (Rec m.singleSize))
    (hn : q.1.length + rs.length ≤ m.fifoLen) :
    Reps m (writeCritical f (recBytes rs) rs.length) ⟨q.1 ++ rs, by simpa using hn⟩ := by
  have h1 := h.left
  have h2 := m.len_lt
  have hr := h.read_lt
  have hw := h.write_lt
  have hsum : u32 (f.writeIndex + rs.length) = f.writeIndex + rs.length := u32_of_lt (by omega)
  have hleft : u32Sub f.fifoLeftSlot rs.length = f.fifoLeftSlot - rs.length :=
    u32Sub_of_le (by omega) (by omega)
  have hrb : f.readIndex * m.singleSize < f.fifoBuf.length := by
    rw [h.buf]
    exact Nat.mul_lt_mul_of_pos_right hr m.size_pos
  have hfit : q.1.length * m.singleSize + (recBytes rs).length ≤ f.fifoBuf.length := by
    rw [h.buf, recBytes_length, ← Nat.add_mul]
    exact Nat.mul_le_mul_right _ hn
  have hwb : f.writeIndex * m.singleSize =
      if f.readIndex * m.singleSize + q.1.length * m.singleSize < f.fifoBuf.length then
        f.readIndex * m.singleSize + q.1.length * m.singleSize
      else f.readIndex * m.singleSize + q.1.length * m.singleSize - f.fifoBuf.length := by
    rw [h.write, h.buf, ← Nat.add_mul, ← Nat.sub_mul]
    split_ifs with h4 h5 h5
    · rfl
    · exact absurd (Nat.mul_lt_mul_of_pos_right h4 m.size_pos) h5
    · exact absurd (Nat.lt_of_mul_lt_mul_right h5) h4
    · rfl
  -- the two copies of the source are one ring write
  have hcopy : writeCritical f (recBytes rs) rs.length =
      { f with
        fifoBuf := Ring.ringWrite f.fifoBuf (f.writeIndex * m.singleSize) (recBytes rs)
        writeIndex :=
          if f.writeIndex + rs.length < m.fifoLen then f.writeIndex + rs.length
          else f.writeIndex + rs.length - m.fifoLen
        fifoLeftSlot := f.fifoLeftSlot - rs.length } := by
    unfold writeCritical Ring.ringWrite
    simp only [hsum, h.len, h.size, hleft]
    rcases Nat.lt_or_ge m.fifoLen (f.writeIndex + rs.length) with hwrap | hlin
    · have hll : u32Sub (f.writeIndex + rs.length) m.fifoLen = f.writeIndex + rs.length - m.fifoLen :=
        u32Sub_of_le (by omega) (by omega)
      have hfl : u32Sub rs.length (f.writeIndex + rs.length - m.fifoLen) = m.fifoLen - f.writeIndex := by
        rw [u32Sub_of_le (by omega) (by omega)]
        omega
      have hcmp : m.fifoLen * m.singleSize < (f.writeIndex + rs.length) * m.singleSize :=
        Nat.mul_lt_mul_of_pos_right hwrap m.size_pos
      rw [if_neg (by omega), if_neg (by rw [h.buf, recBytes_length, ← Nat.add_mul]; omega), if_neg (by omega),
        hll, hfl, m.u32_mul (by omega), m.u32_mul (by omega), m.u32_mul (by omega), h.buf, Nat.sub_mul]
      have htail : ((recBytes rs).drop (m.fifoLen * m.singleSize - f.writeIndex * m.singleSize)).take
          ((f.writeIndex + rs.length - m.fifoLen) * m.singleSize) =
          (recBytes rs).drop (m.fifoLen * m.singleSize - f.writeIndex * m.singleSize) := by
        refine List.take_of_length_le ?_
        rw [List.length_drop, recBytes_length, Nat.sub_mul, Nat.add_mul]
        omega
      rw [htail]
    · have hcmp : (f.writeIndex + rs.length) * m.singleSize ≤ m.fifoLen * m.singleSize :=
        Nat.mul_le_mul_right _ hlin
      have hbytes : f.writeIndex * m.singleSize + (recBytes rs).length ≤ f.fifoBuf.length := by
        rw [h.buf, recBytes_length, ← Nat.add_mul]
        exact hcmp
      have hidx : (if f.writeIndex + rs.length = m.fifoLen then 0 else f.writeIndex + rs.length) =
          if f.writeIndex + rs.length < m.fifoLen then f.writeIndex + rs.length
          else f.writeIndex + rs.length - m.fifoLen := by
        split_ifs <;> omega
      rw [if_pos hlin, if_pos hbytes, m.u32_mul (by omega), m.u32_mul (by omega),
        List.take_of_length_le (by simp), ← hidx]
  rw [hcopy]
  refine ⟨h.len, h.size, ?_, hr, ?_, ?_, ?_⟩
  · rw [← h.buf]
    refine Ring.ringWrite_length ?_ (by omega)
    rw [h.buf]
    exact Nat.mul_le_mul_right _ (by omega)
  · simp only [List.length_append]
    omega
  · simp only [List.length_append]
    rw [h.write]
    split_ifs <;> omega
  · have hwin := Ring.window_ringWrite (d := recBytes rs) hrb hfit hwb
    simp only [List.length_append, Nat.add_mul]
    rw [recBytes_append, ← h.cells, ← hwin, recBytes_length]

end Spec

/-! ## Refinement of a bounded queue -/

/-- The calls on a FIFO over the array `m`: a write brings a block of records, a read asks for any length. -/
inductive Call (m : FifoMem)
  | write (block : { rs : List (Rec m.singleSize) // rs.length < 2 ^ 32 })
  | read (readLen : UInt32)
  | rst

/-- One call: the return code and what the caller's buffer receives. -/
def call (m : FifoMem) (f : CommonFiFo) : Call m → CommonFiFo × (ℤ × List UInt8)
  | .write block =>
    let r := commonWriteFifo f (recBytes block.1) block.1.length
    (r.2, r.1, [])
  | .read readLen =>
    let r := commonReadFifo f readLen.toNat
    (r.2.2, r.1, r.2.1)
  | .rst => (commonRstFifo f, 0, [])

/-- The same call on a queue of capacity `fifoLen`: a block is moved whole or the call is rejected with `-2`. -/
def queueCall (m : FifoMem) (q : BQueue (Rec m.singleSize) m.fifoLen) :
    Call m → BQueue (Rec m.singleSize) m.fifoLen × (ℤ × List UInt8)
  | .write block =>
    match q.push block.1 with
    | some q' => (q', block.1.length, [])
    | none => (q, -2, [])
  | .read readLen =>
    match q.pop readLen.toNat with
    | some (rs, q') => (q', readLen.toNat, recBytes rs)
    | none => (q, -2, [])
  | .rst => (BQueue.empty _ _, 0, [])

/-- **One call** keeps the representation and answers as the queue does. -/
theorem call_refines {m : FifoMem} {f : CommonFiFo} {q : BQueue (Rec m.singleSize) m.fifoLen} (c : Call m)
    (h : Reps m f q) :
    Reps m (call m f c).1 (queueCall m q c).1 ∧ (call m f c).2 = (queueCall m q c).2 := by
  have h1 := h.left
  cases c with
  | write block =>
    rcases Nat.lt_or_ge m.fifoLen (q.1.length + block.1.length) with hbig | hfit
    · have hguard : f.fifoLeftSlot < block.1.length := by omega
      simp only [call, queueCall, BQueue.push_eq_none hbig, commonWriteFifo, if_pos hguard, and_true]
      exact h
    · have hguard : ¬ f.fifoLeftSlot < block.1.length := by omega
      have hret : s32 (block.1.length : ℤ) = block.1.length := by
        have h2 := m.len_lt
        exact s32_of_range (by omega) (by omega)
      simp only [call, queueCall, BQueue.push_eq_some hfit, commonWriteFifo, if_neg hguard, hret, and_true]
      exact reps_writeCritical h block.1 hfit
  | read readLen =>
    rcases Nat.lt_or_ge q.1.length readLen.toNat with hbig | hfit
    · simp only [call, queueCall, BQueue.pop_eq_none hbig, commonReadFifo_reject h hbig, and_true]
      exact h
    · obtain ⟨f', he, hR⟩ := commonReadFifo_accept h hfit
      simp only [call, queueCall, BQueue.pop_eq_some hfit, he, and_true]
      exact hR
  | rst => exact ⟨reps_rst h, rfl⟩

/-- What a represented queue says about the counters and the predicates of the ring. -/
theorem Reps.observe {m : FifoMem} {f : CommonFiFo} {q : BQueue (Rec m.singleSize) m.fifoLen}
    (h : Reps m f q) :
    f.readIndex < f.fifolen ∧ f.writeIndex < f.fifolen ∧ f.fifoLeftSlot = f.fifolen - q.1.length ∧
      commonIsFullFifo f = (if q.1.length = m.fifoLen then 1 else 0) ∧
      commonIsEmptyFifo f = (if q.1 = [] then 1 else 0) := by
  have h1 := h.left
  have h2 := h.len
  refine ⟨by rw [h2]; exact h.read_lt, by rw [h2]; exact h.write_lt, by omega, ?_, ?_⟩
  · unfold commonIsFullFifo
    congr 1
    exact propext ⟨fun _ => by omega, fun _ => by omega⟩
  · unfold commonIsEmptyFifo
    congr 1
    rw [← List.length_eq_zero_iff]
    exact propext ⟨fun _ => by omega, fun _ => by omega⟩

/-- **The FIFO is a bounded queue.**  From creation on, any sequence of writes, reads and resets gets the answers
of a queue of capacity `fifoLen` (the oldest records, in write order; an over-long request rejected with nothing
changed), and at its end the indices, the free-slot counter and the two predicates agree with that queue. -/
theorem common_fifo_refines_queue (m : FifoMem) (cs : List (Call m)) :
    let r := mealy (call m) (commonCreateFifo m.singleSize m.fifoLen) cs
    let a := mealy (queueCall m) (BQueue.empty _ _) cs
    r.2 = a.2 ∧ r.1.fifolen = m.fifoLen ∧ r.1.readIndex < r.1.fifolen ∧ r.1.writeIndex < r.1.fifolen ∧
      r.1.fifoLeftSlot = r.1.fifolen - a.1.1.length ∧
      commonIsFullFifo r.1 = (if a.1.1.length = m.fifoLen then 1 else 0) ∧
      commonIsEmptyFifo r.1 = (if a.1.1 = [] then 1 else 0) := by
  intro r a
  obtain ⟨hR, hout⟩ := mealy_simulation (fun f q c h => call_refines c h) cs _ _ (reps_create m)
  exact ⟨hout, hR.len, hR.observe⟩

end Cxsw.Fifo
