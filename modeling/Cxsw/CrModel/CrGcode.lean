import Mathlib.Algebra.Group.Nat.Defs
import Cxsw.Lib.Ring
import Cxsw.Lib.Run

/-!
# Cxsw.CrModel.CrGcode — the command ring (`CrModel/CrGcode.cpp`)

`PutGcodeCmd` sends a command to a message queue; the executor's `Exec` stores what it receives in a ring and has the
oldest command handled; `CrCmdQueueClear`, called by another thread, empties the queue and then the ring.  The executor
and the clear are taken statement by statement, in any interleaving.  A command is the number under which it was
accepted, so that the history can say which commands were handled and which were cleared.

* `ringInv_exec`, `ringInv_clear`: what one statement keeps.
* `cmd_ring_of_calm`: in every run where the clear resets the ring while the executor is at rest, the commands are
  handled once and in order, and the tests see how many are pending.
* `clear_overtakes`: a clear that resets the ring while a command is handled.
-/

namespace Cxsw.Cmd

open Cxsw.Ring

/-! ## The executor and the clear -/

section Defs

/-- `QUEUE_MSG_NUM`. -/
def queueMsgNum : ℕ := 16

/-- `QUEUE_MAX_MSG`. -/
def queueMaxMsg : ℕ := 8

/-- What `GcodeHandle` answers, as far as `Exec` tells the answers apart. -/
inductive HandleResult
  | execOk
  | execWait
  /-- `CrErr`, and every other answer. -/
  | failed
  deriving DecidableEq

/-- `GcodeHandleStatus`. -/
inductive HandleStatus
  | execProcess
  | execOk
  | execWait
  deriving DecidableEq

/-- Where the executor is in `Exec`; a flag says whether the loop goes on after this command. -/
inductive ExecPc
  | idle
  | recv
  | memcpy (c : ℕ)
  | nextTail
  | incCount
  | test
  | testWaiting
  | process
  | handle (cmd : Option ℕ)
  | memset (again : Bool)
  | nextHead (again : Bool)
  | decCount (again : Bool)
  | statusOk (again : Bool)
  deriving DecidableEq

/-- Where the other thread is in `CrCmdQueueClear`; while it empties the queue it counts failures. -/
inductive ClearPc
  | idle
  | drain (count : ℕ)
  | waitProcess
  | setHead
  | setCount
  | memset
  deriving DecidableEq

/-- The queue, the ring, the two threads, and the history: how many commands were accepted, which were handled and
which were cleared.  A zeroed cell holds no command. -/
structure CmdQueue where
  mq : List ℕ
  cmdBuff : List (Option ℕ)
  cmdBuffHead : ℕ
  cmdBuffTail : ℕ
  cmdCount : ℕ
  status : HandleStatus
  waiting : Bool
  exec : ExecPc
  clear : ClearPc
  accepted : ℕ
  executed : List (Option ℕ)
  cleared : List ℕ

/-- The state after the constructor, which does not set `GcodeHandleStatus`. -/
def initQueue : CmdQueue where
  mq := []
  cmdBuff := List.replicate queueMsgNum none
  cmdBuffHead := 0
  cmdBuffTail := 0
  cmdCount := 0
  status := .execOk
  waiting := false
  exec := .idle
  clear := .idle
  accepted := 0
  executed := []
  cleared := []

/-- `NextCmdIndex`. -/
def nextCmdIndex (index : ℕ) : ℕ := if index + 1 ≥ queueMsgNum then 0 else index + 1

/-- `CrCmdQueueIsEmpty`. -/
def crCmdQueueIsEmpty (s : CmdQueue) : Bool := s.cmdBuffHead = s.cmdBuffTail && s.cmdCount = 0

/-- `CrCmdQueueIsFull`. -/
def crCmdQueueIsFull (s : CmdQueue) : Bool := s.cmdBuffHead = s.cmdBuffTail && s.cmdCount = queueMsgNum

/-- The commands that the ring holds by its head and count. -/
def ringCmds (s : CmdQueue) : List ℕ := (window s.cmdBuff s.cmdBuffHead s.cmdCount).filterMap id

/-- `PutGcodeCmd`: sending fails, and is repeated, while the queue is full. -/
def putGcodeCmd (s : CmdQueue) : CmdQueue :=
  if s.mq.length < queueMaxMsg then { s with mq := s.mq ++ [s.accepted], accepted := s.accepted + 1 } else s

/-- The next statement of `Exec`; `r` is what the handler answers, where one is running. -/
def execStep (s : CmdQueue) (r : HandleResult) : CmdQueue :=
  match s.exec with
  | .idle => if s.waiting then s else { s with exec := .recv }
  | .recv =>
    if crCmdQueueIsFull s then { s with exec := .test }
    else
      match s.mq with
      | [] => { s with exec := .test }
      | c :: mq => { s with mq := mq, exec := .memcpy c }
  | .memcpy c => { s with cmdBuff := s.cmdBuff.set s.cmdBuffTail (some c), exec := .nextTail }
  | .nextTail => { s with cmdBuffTail := nextCmdIndex s.cmdBuffTail, exec := .incCount }
  | .incCount => { s with cmdCount := (s.cmdCount + 1) % 2 ^ 8, exec := .recv }
  | .test => if crCmdQueueIsEmpty s then { s with exec := .idle } else { s with exec := .testWaiting }
  | .testWaiting => if s.waiting then { s with exec := .idle } else { s with exec := .process }
  | .process => { s with status := .execProcess, exec := .handle (s.cmdBuff.getD s.cmdBuffHead none) }
  | .handle cmd =>
    match r with
    | .execOk => { s with executed := s.executed ++ [cmd], exec := .memset true }
    | .execWait => { s with status := .execWait, exec := .idle }
    | .failed => { s with executed := s.executed ++ [cmd], exec := .memset false }
  | .memset again => { s with cmdBuff := s.cmdBuff.set s.cmdBuffHead none, exec := .nextHead again }
  | .nextHead again => { s with cmdBuffHead := nextCmdIndex s.cmdBuffHead, exec := .decCount again }
  | .decCount again =>
    { s with cmdCount := if s.cmdCount > 0 then s.cmdCount - 1 else s.cmdCount, exec := .statusOk again }
  | .statusOk again => { s with status := .execOk, exec := if again then .test else .idle }

/-- The next statement of `CrCmdQueueClear`. -/
def clearStep (s : CmdQueue) : CmdQueue :=
  match s.clear with
  | .idle => s
  | .drain count =>
    match s.mq with
    | c :: mq => { s with mq := mq, cleared := s.cleared ++ [c] }
    | [] => { s with clear := if count + 1 > 10 then .waitProcess else .drain (count + 1) }
  | .waitProcess => if s.status = .execProcess then s else { s with clear := .setHead }
  | .setHead =>
    { s with cmdBuffHead := s.cmdBuffTail, cleared := s.cleared ++ ringCmds s, clear := .setCount }
  | .setCount => { s with cmdCount := 0, clear := .memset }
  | .memset => { s with cmdBuff := List.replicate queueMsgNum none, clear := .idle }

/-- What can happen next. -/
inductive CmdLabel
  | put
  | setWaiting (b : Bool)
  | exec (r : HandleResult)
  | callClear
  | clear
  deriving DecidableEq

/-- The effect of a label. -/
def cmdStep (s : CmdQueue) : CmdLabel → CmdQueue
  | .put => putGcodeCmd s
  | .setWaiting b => { s with waiting := b }
  | .exec r => execStep s r
  | .callClear => if s.clear = .idle then { s with clear := .drain 0 } else s
  | .clear => clearStep s

/-- The executor is not inside an update of the ring, nor between finding a command and having it handled. -/
def Calm (exec : ExecPc) : Prop :=
  match exec with
  | .idle | .recv | .memcpy _ | .test => True
  | _ => False

instance (exec : ExecPc) : Decidable (Calm exec) := by
  unfold Calm
  split <;> infer_instance

/-- The clear is about to change the ring. -/
def Resetting (clear : ClearPc) : Prop := clear = .setHead ∨ clear = .setCount ∨ clear = .memset

instance (clear : ClearPc) : Decidable (Resetting clear) := inferInstanceAs (Decidable (_ ∨ _))

/-- **The calm steps**: the clear goes on to reset the ring when the executor is calm, and meanwhile the executor does
no more than begin a pass. -/
def CalmStep (s : CmdQueue) : CmdLabel → Prop
  | .exec _ => Resetting s.clear → s.exec = .idle
  | .clear => s.clear = .waitProcess → s.status = .execProcess ∨ Calm s.exec
  | _ => True

instance (s : CmdQueue) (l : CmdLabel) : Decidable (CalmStep s l) := by
  unfold CalmStep
  split <;> infer_instance

end Defs

/-! ## The history of the commands -/

section History

/-- `done` were handled and `pending` are left: in the order of acceptance, and with the cleared ones every accepted
command once. -/
structure History (executed : List (Option ℕ)) (done pending cleared : List ℕ) (accepted : ℕ) : Prop where
  executed_eq : executed = done.map some
  order : (done ++ pending).Pairwise (· < ·)
  all : (done ++ pending ++ cleared).Perm (List.range accepted)

variable {executed : List (Option ℕ)} {done pending cleared : List ℕ} {accepted : ℕ}

theorem History.lt (h : History executed done pending cleared accepted) {c : ℕ} (hc : c ∈ done ++ pending) :
    c < accepted :=
  List.mem_range.mp (h.all.subset (List.mem_append_left _ hc))

theorem History.put (h : History executed done pending cleared accepted) :
    History executed done (pending ++ [accepted]) cleared (accepted + 1) := by
  refine ⟨h.executed_eq, ?_, ?_⟩
  · rw [← List.append_assoc, List.pairwise_append]
    refine ⟨h.order, List.pairwise_singleton _ _, ?_⟩
    intro c hc d hd
    rw [List.mem_singleton] at hd
    rw [hd]
    exact h.lt hc
  · rw [List.range_succ, ← List.append_assoc, List.append_assoc]
    refine (List.Perm.append_left _ List.perm_append_comm).trans ?_
    rw [← List.append_assoc]
    exact h.all.append_right _

theorem History.handled {x : ℕ} (h : History executed done (x :: pending) cleared accepted) :
    History (executed ++ [some x]) (done ++ [x]) pending cleared accepted := by
  have hl : done ++ [x] ++ pending = done ++ (x :: pending) := by rw [List.append_assoc, List.singleton_append]
  refine ⟨?_, ?_, ?_⟩
  · rw [h.executed_eq, List.map_append, List.map_singleton]
  · rw [hl]
    exact h.order
  · rw [hl]
    exact h.all

theorem History.clear {front mid back : List ℕ}
    (h : History executed done (front ++ (mid ++ back)) cleared accepted) :
    History executed done (front ++ back) (cleared ++ mid) accepted := by
  refine ⟨h.executed_eq, h.order.sublist ?_, List.Perm.trans ?_ h.all⟩
  · exact (((List.Sublist.refl back).trans (List.sublist_append_right mid back)).append_left front).append_left done
  · have hmid : (back ++ (cleared ++ mid)).Perm (mid ++ (back ++ cleared)) := by
      rw [← List.append_assoc]
      exact List.perm_append_comm
    simp only [List.append_assoc]
    exact (hmid.append_left front).append_left done

end History

/-! ## The ring -/

section RingInv

/-- The cells from `head` to before `tail` hold the commands `ring`. -/
structure InRing (cells : List (Option ℕ)) (head tail : ℕ) (ring : List ℕ) : Prop where
  size : cells.length = queueMsgNum
  head_lt : head < queueMsgNum
  fits : ring.length ≤ queueMsgNum
  tail_eq : tail = if head + ring.length < queueMsgNum then head + ring.length else head + ring.length - queueMsgNum
  cells_eq : window cells head ring.length = ring.map some

variable {cells : List (Option ℕ)} {head tail : ℕ} {ring : List ℕ}

theorem nextCmdIndex_eq {i : ℕ} (h : i < queueMsgNum) :
    nextCmdIndex i = if i + 1 < queueMsgNum then i + 1 else i + 1 - queueMsgNum := by
  unfold nextCmdIndex
  split_ifs <;> omega

theorem InRing.tail_lt (h : InRing cells head tail ring) : tail < queueMsgNum := by
  have h1 := h.head_lt
  have h2 := h.fits
  rw [h.tail_eq]
  split_ifs <;> omega

theorem InRing.nil (hc : cells.length = queueMsgNum) (hh : head < queueMsgNum) : InRing cells head head [] := by
  refine ⟨hc, hh, Nat.zero_le _, ?_, ?_⟩
  · rw [List.length_nil, Nat.add_zero, if_pos hh]
  · exact window_zero cells head

/-- Storing a command at the tail, and moving the tail. -/
theorem InRing.store (h : InRing cells head tail ring) (hn : ring.length < queueMsgNum) (c : ℕ) :
    InRing (cells.set tail (some c)) head (nextCmdIndex tail) (ring ++ [c]) := by
  have hsize := h.size
  have hh := h.head_lt
  have ht := h.tail_eq
  have hlen : (ring ++ [c]).length = ring.length + 1 := by rw [List.length_append, List.length_singleton]
  refine ⟨by rw [List.length_set, hsize], hh, by omega, ?_, ?_⟩
  · rw [nextCmdIndex_eq h.tail_lt, hlen, ht]
    split_ifs <;> omega
  · rw [hlen, window_set_end (by omega) (by omega) (by rw [hsize]; exact ht), h.cells_eq, List.map_append,
      List.map_singleton]

/-- The first command of a ring that is not empty. -/
theorem InRing.head_cell {x : ℕ} (h : InRing cells head tail (x :: ring)) : cells.getD head none = some x := by
  have hsize := h.size
  have hh := h.head_lt
  have hfits := h.fits
  have hcells := h.cells_eq
  rw [List.length_cons] at hcells hfits
  rw [window_succ (by omega) (by omega), List.map_cons] at hcells
  rw [List.getD_eq_getElem?_getD, List.getElem?_eq_getElem (by omega), List.head_eq_of_cons_eq hcells]
  rfl

/-- The ring behind its first command, whatever that cell holds then. -/
theorem InRing.rest {x : ℕ} (h : InRing cells head tail (x :: ring)) : InRing cells (nextCmdIndex head) tail ring := by
  have hsize := h.size
  have hh := h.head_lt
  have hfits := h.fits
  have ht := h.tail_eq
  have hcells := h.cells_eq
  rw [List.length_cons] at hcells hfits ht
  rw [window_succ (by omega) (by omega), List.map_cons] at hcells
  have hnext := nextCmdIndex_eq hh
  refine ⟨hsize, ?_, by omega, ?_, ?_⟩
  · rw [hnext]
    split_ifs <;> omega
  · rw [hnext, ht]
    split_ifs <;> omega
  · rw [hnext, ← hsize]
    exact List.tail_eq_of_cons_eq hcells

theorem InRing.zero_head (hh : head < queueMsgNum) (h : InRing cells (nextCmdIndex head) tail ring)
    (hn : ring.length < queueMsgNum) : InRing (cells.set head none) (nextCmdIndex head) tail ring := by
  have hsize := h.size
  have hnext := nextCmdIndex_eq hh
  refine ⟨by rw [List.length_set, hsize], h.head_lt, h.fits, h.tail_eq, ?_⟩
  rw [← h.cells_eq, hnext, ← hsize]
  exact window_set_start (by omega) (by omega) none

theorem InRing.tests {s : CmdQueue} (h : InRing s.cmdBuff s.cmdBuffHead s.cmdBuffTail ring)
    (hc : s.cmdCount = ring.length) :
    (crCmdQueueIsEmpty s = true ↔ ring = []) ∧ (crCmdQueueIsFull s = true ↔ ring.length = queueMsgNum) := by
  have hh := h.head_lt
  have ht := h.tail_eq
  have hfits := h.fits
  unfold crCmdQueueIsEmpty crCmdQueueIsFull
  simp only [Bool.and_eq_true, decide_eq_true_eq, hc, List.length_eq_zero_iff]
  constructor
  · constructor
    · rintro ⟨-, h0⟩
      exact h0
    · rintro rfl
      rw [List.length_nil, Nat.add_zero, if_pos hh] at ht
      exact ⟨ht.symm, rfl⟩
  · constructor
    · rintro ⟨-, hn⟩
      exact hn
    · intro hn
      rw [hn, if_neg (by omega), Nat.add_sub_cancel] at ht
      exact ⟨ht.symm, hn⟩

theorem InRing.ringCmds_eq {s : CmdQueue} (h : InRing s.cmdBuff s.cmdBuffHead s.cmdBuffTail ring)
    (hc : s.cmdCount = ring.length) : ringCmds s = ring := by
  unfold ringCmds
  rw [hc, h.cells_eq, List.filterMap_map]
  exact List.filterMap_some

/-- Where the ring and its indices stand at each statement of the executor; `ring` are the commands it holds that are
not yet handled. -/
def ExecInv (s : CmdQueue) (ring : List ℕ) : Prop :=
  match s.exec with
  | .idle | .recv | .test | .statusOk _ =>
    InRing s.cmdBuff s.cmdBuffHead s.cmdBuffTail ring ∧ s.cmdCount = ring.length
  | .memcpy _ =>
    InRing s.cmdBuff s.cmdBuffHead s.cmdBuffTail ring ∧ s.cmdCount = ring.length ∧ ring.length < queueMsgNum
  | .nextTail =>
    InRing s.cmdBuff s.cmdBuffHead (nextCmdIndex s.cmdBuffTail) ring ∧ s.cmdCount + 1 = ring.length
  | .incCount => InRing s.cmdBuff s.cmdBuffHead s.cmdBuffTail ring ∧ s.cmdCount + 1 = ring.length
  | .testWaiting | .process =>
    InRing s.cmdBuff s.cmdBuffHead s.cmdBuffTail ring ∧ s.cmdCount = ring.length ∧ ring ≠ []
  | .handle cmd =>
    InRing s.cmdBuff s.cmdBuffHead s.cmdBuffTail ring ∧ s.cmdCount = ring.length ∧
      ∃ x rest, ring = x :: rest ∧ cmd = some x
  | .memset _ | .nextHead _ =>
    s.cmdBuffHead < queueMsgNum ∧ InRing s.cmdBuff (nextCmdIndex s.cmdBuffHead) s.cmdBuffTail ring ∧
      s.cmdCount = ring.length + 1 ∧ ring.length < queueMsgNum
  | .decCount _ => InRing s.cmdBuff s.cmdBuffHead s.cmdBuffTail ring ∧ s.cmdCount = ring.length + 1

/-- Where they stand while the clear resets the ring: after its first statement the count is stale. -/
def RingAt (s : CmdQueue) (ring : List ℕ) : Prop :=
  match s.clear with
  | .setHead => Calm s.exec ∧ ExecInv s ring
  | .setCount =>
    Calm s.exec ∧ s.cmdBuff.length = queueMsgNum ∧ s.cmdBuffHead < queueMsgNum ∧ s.cmdBuffHead = s.cmdBuffTail ∧
      ring = []
  | .memset => Calm s.exec ∧ ExecInv s ring ∧ ring = []
  | _ => ExecInv s ring

/-- The command that the executor has received and not yet stored. -/
def received : ExecPc → List ℕ
  | .memcpy c => [c]
  | _ => []

/-- The commands accepted and neither handled nor cleared. -/
def pending (s : CmdQueue) (ring : List ℕ) : List ℕ := ring ++ (received s.exec ++ s.mq)

/-- The invariant of calm runs. -/
def CmdInv (s : CmdQueue) (done ring : List ℕ) : Prop :=
  RingAt s ring ∧ History s.executed done (pending s ring) s.cleared s.accepted

end RingInv

/-! ## The invariant of calm runs -/

section Calm

variable {s : CmdQueue} {done ring : List ℕ}

theorem cmdInv_init : CmdInv initQueue [] [] := by
  refine ⟨⟨InRing.nil rfl (by decide), rfl⟩, rfl, List.Pairwise.nil, ?_⟩
  exact List.Perm.refl _

/-- What is left of a pass at each statement, in statements. -/
def rank : ExecPc → List ℕ → ℕ
  | .idle, _ => 9
  | .recv, _ => 8
  | .memcpy _, _ => 22
  | .nextTail, _ => 10
  | .incCount, _ => 9
  | .test, [] => 10
  | .test, _ :: _ => 7
  | .testWaiting, _ => 6
  | .process, _ => 5
  | .handle _, _ => 4
  | .memset _, _ => 14
  | .nextHead _, _ => 13
  | .decCount _, _ => 12
  | .statusOk _, _ => 11

/-- How many statements the executor needs at most for what is pending, if every command succeeds. -/
def work (s : CmdQueue) (ring : List ℕ) : ℕ := 15 * s.mq.length + (11 * ring.length + rank s.exec ring)

/-- What a statement of the executor leaves: commands that are accounted for again, and less work if nothing keeps the
executor from it. -/
def ExecKeeps (s : CmdQueue) (r : HandleResult) (ring : List ℕ) : Prop :=
  ∃ done' ring', ExecInv (execStep s r) ring' ∧
    History (execStep s r).executed done' (pending (execStep s r) ring') (execStep s r).cleared
      (execStep s r).accepted ∧
    (s.waiting = false → r = .execOk → pending s ring ≠ [] → work (execStep s r) ring' < work s ring)

/-- The executor fetches a command, or ends the loop with what the ring holds. -/
theorem execKeeps_recv (r : HandleResult) (hpc : s.exec = .recv)
    (h : ExecInv s ring) (hh : History s.executed done (pending s ring) s.cleared s.accepted) :
    ExecKeeps s r ring := by
  unfold ExecInv at h
  unfold pending at hh
  unfold ExecKeeps execStep work pending
  rw [hpc] at h hh ⊢
  dsimp only at h ⊢
  -- the loop ends with a command in the ring
  have htest : ring ≠ [] → rank .test ring < rank .recv ring := by
    intro hne
    cases ring with
    | nil => exact absurd rfl hne
    | cons x rest => simp [rank]
  by_cases hfull : crCmdQueueIsFull s = true
  · rw [if_pos hfull]
    have hne : ring ≠ [] := by
      rintro rfl
      have := (h.1.tests h.2).2.mp hfull
      exact absurd this (by decide)
    refine ⟨done, ring, h, hh, fun _ _ _ => ?_⟩
    have := htest hne
    dsimp only
    omega
  · rw [if_neg hfull]
    have hlt : ring.length < queueMsgNum :=
      lt_of_le_of_ne h.1.fits fun hn => hfull ((h.1.tests h.2).2.mpr hn)
    cases hmq : s.mq with
    | nil =>
      rw [hmq] at hh
      refine ⟨done, ring, h, hh, fun _ _ hp => ?_⟩
      have := htest fun hn => hp (by rw [hn]; rfl)
      dsimp only
      omega
    | cons c mq =>
      rw [hmq] at hh
      refine ⟨done, ring, ⟨h.1, h.2, hlt⟩, hh, fun _ _ _ => ?_⟩
      simp only [rank, List.length_cons]
      omega

theorem execKeeps_memcpy (r : HandleResult) {c : ℕ} (hpc : s.exec = .memcpy c)
    (h : ExecInv s ring) (hh : History s.executed done (pending s ring) s.cleared s.accepted) :
    ExecKeeps s r ring := by
  unfold ExecInv at h
  unfold pending at hh
  unfold ExecKeeps execStep work pending
  rw [hpc] at h hh ⊢
  dsimp only at h ⊢
  obtain ⟨hr, hc, hlt⟩ := h
  have hlen : s.cmdCount + 1 = (ring ++ [c]).length := by rw [List.length_append, hc, List.length_singleton]
  have hp : ring ++ (received (.memcpy c) ++ s.mq) = (ring ++ [c]) ++ ([] ++ s.mq) := by
    rw [List.nil_append, List.append_assoc]
    rfl
  rw [hp] at hh
  refine ⟨done, ring ++ [c], ⟨hr.store hlt c, hlen⟩, hh, fun _ _ _ => ?_⟩
  simp only [rank]
  omega

/-- It has the oldest command handled, and takes it from the ring unless the handler asks to wait. -/
theorem execKeeps_handle (r : HandleResult) {cmd : Option ℕ}
    (hpc : s.exec = .handle cmd) (h : ExecInv s ring)
    (hh : History s.executed done (pending s ring) s.cleared s.accepted) : ExecKeeps s r ring := by
  unfold ExecInv at h
  unfold pending at hh
  unfold ExecKeeps execStep work pending
  rw [hpc] at h hh ⊢
  dsimp only at h ⊢
  obtain ⟨hr, hc, x, rest, rfl, rfl⟩ := h
  have hfits : rest.length + 1 ≤ queueMsgNum := hr.fits
  cases r with
  | execOk =>
    refine ⟨done ++ [x], rest, ⟨hr.head_lt, hr.rest, hc, hfits⟩, hh.handled, fun _ _ _ => ?_⟩
    simp only [rank, List.length_cons]
    omega
  | execWait => exact ⟨done, x :: rest, ⟨hr, hc⟩, hh, fun _ hr _ => by cases hr⟩
  | failed =>
    exact ⟨done ++ [x], rest, ⟨hr.head_lt, hr.rest, hc, hfits⟩, hh.handled, fun _ hr _ => by cases hr⟩

theorem execKeeps_statusOk (r : HandleResult) {again : Bool}
    (hpc : s.exec = .statusOk again) (h : ExecInv s ring)
    (hh : History s.executed done (pending s ring) s.cleared s.accepted) : ExecKeeps s r ring := by
  unfold ExecInv at h
  unfold pending at hh
  unfold ExecKeeps execStep work pending
  rw [hpc] at h hh ⊢
  have hrank : rank .test ring < rank (.statusOk again) ring ∧ rank .idle ring < rank (.statusOk again) ring := by
    cases ring with
    | nil => exact ⟨by simp [rank], by simp [rank]⟩
    | cons x rest => exact ⟨by simp [rank], by simp [rank]⟩
  cases again with
  | true =>
    refine ⟨done, ring, h, hh, fun _ _ _ => ?_⟩
    have := hrank.1
    dsimp only
    rw [if_pos rfl]
    omega
  | false =>
    refine ⟨done, ring, h, hh, fun _ _ _ => ?_⟩
    have := hrank.2
    dsimp only
    rw [if_neg (by decide)]
    omega

/-- **A statement of the executor** while no clear resets the ring: a received command joins the ring, a handled one
leaves it, and the work gets less if nothing keeps the executor from it. -/
theorem execStep_inv (r : HandleResult) (h : ExecInv s ring)
    (hh : History s.executed done (pending s ring) s.cleared s.accepted) : ExecKeeps s r ring := by
  have h0 := h
  have hh0 := hh
  unfold ExecInv at h
  unfold pending at hh
  cases hpc : s.exec with
  | recv => exact execKeeps_recv r hpc h0 hh0
  | memcpy c => exact execKeeps_memcpy r hpc h0 hh0
  | handle cmd => exact execKeeps_handle r hpc h0 hh0
  | statusOk again => exact execKeeps_statusOk r hpc h0 hh0
  | idle =>
    unfold ExecKeeps execStep work pending
    rw [hpc] at h hh ⊢
    dsimp only at h ⊢
    split_ifs with hw
    · exact ⟨done, ring, h0, hh0, fun hnw => absurd hw (by rw [hnw]; decide)⟩
    · exact ⟨done, ring, h, hh, fun _ _ _ => by simp [rank]⟩
  | nextTail =>
    unfold ExecKeeps execStep work pending
    rw [hpc] at h hh ⊢
    exact ⟨done, ring, h, hh, fun _ _ _ => by simp [rank]⟩
  | incCount =>
    unfold ExecKeeps execStep work pending
    rw [hpc] at h hh ⊢
    dsimp only at h
    obtain ⟨hr, hc⟩ := h
    have hfits : ring.length ≤ 16 := hr.fits
    have hcount : (s.cmdCount + 1) % 2 ^ 8 = ring.length := by omega
    exact ⟨done, ring, ⟨hr, hcount⟩, hh, fun _ _ _ => by simp [rank]⟩
  | test =>
    unfold ExecKeeps execStep work pending
    rw [hpc] at h hh ⊢
    dsimp only at h ⊢
    by_cases hempty : crCmdQueueIsEmpty s = true
    · rw [if_pos hempty]
      obtain rfl := (h.1.tests h.2).1.mp hempty
      exact ⟨done, [], h, hh, fun _ _ _ => by simp [rank]⟩
    · rw [if_neg hempty]
      cases ring with
      | nil => exact absurd ((h.1.tests h.2).1.mpr rfl) hempty
      | cons x rest => exact ⟨done, x :: rest, ⟨h.1, h.2, List.cons_ne_nil _ _⟩, hh, fun _ _ _ => by simp [rank]⟩
  | testWaiting =>
    unfold ExecKeeps execStep work pending
    rw [hpc] at h hh ⊢
    dsimp only at h ⊢
    obtain ⟨hr, hc, hne⟩ := h
    split_ifs with hw
    · exact ⟨done, ring, ⟨hr, hc⟩, hh, fun hnw => absurd hw (by rw [hnw]; decide)⟩
    · exact ⟨done, ring, ⟨hr, hc, hne⟩, hh, fun _ _ _ => by simp [rank]⟩
  | process =>
    unfold ExecKeeps execStep work pending
    rw [hpc] at h hh ⊢
    dsimp only at h ⊢
    obtain ⟨hr, hc, hne⟩ := h
    cases ring with
    | nil => exact absurd rfl hne
    | cons x rest =>
      exact ⟨done, x :: rest, ⟨hr, hc, x, rest, rfl, hr.head_cell⟩, hh, fun _ _ _ => by simp [rank]⟩
  | memset again =>
    unfold ExecKeeps execStep work pending
    rw [hpc] at h hh ⊢
    dsimp only at h ⊢
    obtain ⟨hlt, hr, hc, hn⟩ := h
    exact ⟨done, ring, ⟨hlt, hr.zero_head hlt hn, hc, hn⟩, hh, fun _ _ _ => by simp [rank]⟩
  | nextHead again =>
    unfold ExecKeeps execStep work pending
    rw [hpc] at h hh ⊢
    dsimp only at h ⊢
    obtain ⟨-, hr, hc, -⟩ := h
    exact ⟨done, ring, ⟨hr, hc⟩, hh, fun _ _ _ => by simp [rank]⟩
  | decCount again =>
    unfold ExecKeeps execStep work pending
    rw [hpc] at h hh ⊢
    dsimp only at h ⊢
    obtain ⟨hr, hc⟩ := h
    rw [if_pos (by omega), hc, Nat.add_sub_cancel]
    exact ⟨done, ring, ⟨hr, rfl⟩, hh, fun _ _ _ => by simp [rank]⟩

theorem ExecInv.of_calm {ring : List ℕ} (hcalm : Calm s.exec) (h : ExecInv s ring) :
    InRing s.cmdBuff s.cmdBuffHead s.cmdBuffTail ring ∧ s.cmdCount = ring.length := by
  unfold ExecInv at h
  cases hpc : s.exec with
  | idle =>
    rw [hpc] at h
    exact h
  | recv =>
    rw [hpc] at h
    exact h
  | memcpy c =>
    rw [hpc] at h
    exact ⟨h.1, h.2.1⟩
  | test =>
    rw [hpc] at h
    exact h
  | _ =>
    rw [hpc] at hcalm
    exact hcalm.elim

theorem ExecInv.calm_nil (hcalm : Calm s.exec)
    (h : InRing s.cmdBuff s.cmdBuffHead s.cmdBuffTail []) (hc : s.cmdCount = 0) : ExecInv s [] := by
  unfold ExecInv
  cases hpc : s.exec with
  | idle => exact ⟨h, hc⟩
  | recv => exact ⟨h, hc⟩
  | memcpy c => exact ⟨h, hc, by decide⟩
  | test => exact ⟨h, hc⟩
  | _ =>
    rw [hpc] at hcalm
    exact hcalm.elim

/-- **A statement of the clear**: from the queue it takes the oldest command, from the ring all. -/
theorem clearStep_inv (hi : CmdInv s done ring) (hok : CalmStep s .clear) :
    ∃ done' ring', CmdInv (clearStep s) done' ring' := by
  obtain ⟨h, hh⟩ := hi
  have h0 := h
  unfold RingAt at h
  unfold pending at hh
  unfold clearStep
  cases hpc : s.clear with
  | idle => exact ⟨done, ring, h0, hh⟩
  | drain count =>
    rw [hpc] at h
    cases hmq : s.mq with
    | nil =>
      rw [hmq] at hh
      dsimp only at h ⊢
      split_ifs
      · exact ⟨done, ring, h, hh⟩
      · exact ⟨done, ring, h, hh⟩
    | cons c mq =>
      have hp : ring ++ (received s.exec ++ s.mq) = (ring ++ received s.exec) ++ ([c] ++ mq) := by
        rw [hmq, List.append_assoc]
        rfl
      rw [hp] at hh
      have hclear := hh.clear
      rw [List.append_assoc] at hclear
      exact ⟨done, ring, h, hclear⟩
  | waitProcess =>
    rw [hpc] at h
    dsimp only at h ⊢
    by_cases hst : s.status = .execProcess
    · rw [if_pos hst]
      exact ⟨done, ring, h0, hh⟩
    · rw [if_neg hst]
      have hcalm : Calm s.exec := (hok hpc).resolve_left hst
      exact ⟨done, ring, ⟨hcalm, h⟩, hh⟩
  | setHead =>
    rw [hpc] at h
    obtain ⟨hcalm, h⟩ := h
    obtain ⟨hr, hc⟩ := h.of_calm hcalm
    have hsplit : History s.executed done ([] ++ (ring ++ (received s.exec ++ s.mq))) s.cleared s.accepted := hh
    have hclear := hsplit.clear
    rw [← hr.ringCmds_eq hc] at hclear
    exact ⟨done, [], ⟨hcalm, hr.size, hr.tail_lt, rfl, rfl⟩, hclear⟩
  | setCount =>
    rw [hpc] at h
    obtain ⟨hcalm, hsize, hlt, heq, rfl⟩ := h
    have hr : InRing s.cmdBuff s.cmdBuffHead s.cmdBuffTail [] := heq ▸ InRing.nil hsize hlt
    exact ⟨done, [], ⟨hcalm, ExecInv.calm_nil (s := { s with cmdCount := 0, clear := .memset }) hcalm hr rfl, rfl⟩, hh⟩
  | memset =>
    rw [hpc] at h
    obtain ⟨hcalm, h, rfl⟩ := h
    obtain ⟨hr, hc⟩ := h.of_calm hcalm
    have hnil : InRing (List.replicate queueMsgNum none) s.cmdBuffHead s.cmdBuffTail [] :=
      ⟨List.length_replicate, hr.head_lt, hr.fits, hr.tail_eq, window_zero _ _⟩
    exact ⟨done, [], ExecInv.calm_nil (s := { s with cmdBuff := List.replicate queueMsgNum none, clear := .idle }) hcalm
      hnil hc, hh⟩

theorem ringAt_iff (h : ¬ Resetting s.clear) (ring : List ℕ) : RingAt s ring ↔ ExecInv s ring := by
  unfold RingAt
  cases hpc : s.clear with
  | idle => exact Iff.rfl
  | drain count => exact Iff.rfl
  | waitProcess => exact Iff.rfl
  | setHead => exact absurd (Or.inl hpc) h
  | setCount => exact absurd (Or.inr (Or.inl hpc)) h
  | memset => exact absurd (Or.inr (Or.inr hpc)) h

/-- The executor leaves the clear, what is cleared, what is accepted and the waiting as they are. -/
theorem execStep_frame (s : CmdQueue) (r : HandleResult) :
    (execStep s r).clear = s.clear ∧ (execStep s r).cleared = s.cleared ∧ (execStep s r).accepted = s.accepted ∧
      (execStep s r).waiting = s.waiting := by
  unfold execStep
  cases s.exec with
  | handle cmd => cases r <;> exact ⟨rfl, rfl, rfl, rfl⟩
  | recv =>
    dsimp only
    cases s.mq <;> split_ifs <;> exact ⟨rfl, rfl, rfl, rfl⟩
  | idle => dsimp only; split_ifs <;> exact ⟨rfl, rfl, rfl, rfl⟩
  | test => dsimp only; split_ifs <;> exact ⟨rfl, rfl, rfl, rfl⟩
  | testWaiting => dsimp only; split_ifs <;> exact ⟨rfl, rfl, rfl, rfl⟩
  | _ => exact ⟨rfl, rfl, rfl, rfl⟩

/-- While the ring is reset, a calm step of the executor begins a pass at most. -/
theorem execStep_of_idle (h : s.exec = .idle) (r : HandleResult) :
    execStep s r = s ∨ execStep s r = { s with exec := .recv } := by
  unfold execStep
  rw [h]
  dsimp only
  split_ifs
  · exact Or.inl rfl
  · exact Or.inr rfl

theorem ExecInv.begin {ring : List ℕ} (hidle : s.exec = .idle) (h : ExecInv s ring) :
    ExecInv { s with exec := .recv } ring := by
  unfold ExecInv at h
  rw [hidle] at h
  exact h

theorem RingAt.begin {ring : List ℕ} (hidle : s.exec = .idle) (h : RingAt s ring) :
    RingAt { s with exec := .recv } ring := by
  unfold RingAt at h ⊢
  dsimp only
  cases hpc : s.clear with
  | setHead =>
    rw [hpc] at h
    exact ⟨trivial, h.2.begin hidle⟩
  | setCount =>
    rw [hpc] at h
    exact ⟨trivial, h.2⟩
  | memset =>
    rw [hpc] at h
    exact ⟨trivial, h.2.1.begin hidle, h.2.2⟩
  | _ =>
    rw [hpc] at h
    exact ExecInv.begin hidle h

theorem cmdInv_exec (r : HandleResult) (hi : CmdInv s done ring)
    (hok : CalmStep s (.exec r)) : ∃ done' ring', CmdInv (execStep s r) done' ring' := by
  obtain ⟨h, hh⟩ := hi
  by_cases hres : Resetting s.clear
  · have hidle := hok hres
    rcases execStep_of_idle hidle r with heq | heq
    · rw [heq]
      exact ⟨done, ring, h, hh⟩
    · rw [heq]
      unfold pending at hh
      rw [hidle] at hh
      exact ⟨done, ring, h.begin hidle, hh⟩
  · obtain ⟨done', ring', hexec, hhist, -⟩ := execStep_inv r ((ringAt_iff hres ring).mp h) hh
    refine ⟨done', ring', (ringAt_iff ?_ ring').mpr hexec, hhist⟩
    rw [(execStep_frame s r).1]
    exact hres

theorem cmdInv_put (hi : CmdInv s done ring) :
    CmdInv (putGcodeCmd s) done ring := by
  obtain ⟨h, hh⟩ := hi
  unfold putGcodeCmd
  split_ifs
  · refine ⟨h, ?_⟩
    have hput := hh.put
    unfold pending at hput ⊢
    rw [List.append_assoc, List.append_assoc] at hput
    exact hput
  · exact ⟨h, hh⟩

/-- **A calm step keeps the invariant.** -/
theorem cmdInv_step {l : CmdLabel} (hi : CmdInv s done ring)
    (hok : CalmStep s l) : ∃ done' ring', CmdInv (cmdStep s l) done' ring' := by
  cases l with
  | put => exact ⟨done, ring, cmdInv_put hi⟩
  | setWaiting b => exact ⟨done, ring, hi⟩
  | exec r => exact cmdInv_exec r hi hok
  | callClear =>
    show ∃ done' ring', CmdInv (if s.clear = .idle then { s with clear := .drain 0 } else s) done' ring'
    split_ifs with hidle
    · obtain ⟨h, hh⟩ := hi
      unfold RingAt at h
      rw [hidle] at h
      exact ⟨done, ring, h, hh⟩
    · exact ⟨done, ring, hi⟩
  | clear => exact clearStep_inv hi hok

/-- The executor alone, with a handler that succeeds. -/
def execOks (s : CmdQueue) (n : ℕ) : CmdQueue := (fun t => execStep t .execOk)^[n] s

/-- **The executor gets through**: nothing stays pending if no clear and no waiting intervenes and commands succeed. -/
theorem exec_drains (hw : s.waiting = false) (h : ExecInv s ring)
    (hh : History s.executed done (pending s ring) s.cleared s.accepted) :
    ∃ n done', History (execOks s n).executed done' [] s.cleared s.accepted := by
  induction hm : work s ring using Nat.strong_induction_on generalizing s done ring with
  | _ m ih =>
    by_cases hp : pending s ring = []
    · rw [hp] at hh
      exact ⟨0, done, hh⟩
    · obtain ⟨done', ring', hexec, hhist, hless⟩ := execStep_inv .execOk h hh
      obtain ⟨-, hcl, hacc, hwait⟩ := execStep_frame s .execOk
      obtain ⟨n, done'', hn⟩ := ih _ (hm ▸ hless hw rfl hp) (hwait.trans hw) hexec hhist rfl
      rw [hcl, hacc] at hn
      exact ⟨n + 1, done'', hn⟩

theorem indices_lt (h : s.cmdBuffHead < queueMsgNum ∧ s.cmdBuffTail < queueMsgNum) (l : CmdLabel) :
    (cmdStep s l).cmdBuffHead < queueMsgNum ∧ (cmdStep s l).cmdBuffTail < queueMsgNum := by
  have hnext : ∀ i, nextCmdIndex i < queueMsgNum := by
    intro i
    unfold nextCmdIndex queueMsgNum
    split_ifs <;> omega
  cases l with
  | put =>
    show (putGcodeCmd s).cmdBuffHead < queueMsgNum ∧ (putGcodeCmd s).cmdBuffTail < queueMsgNum
    unfold putGcodeCmd
    split_ifs <;> exact h
  | setWaiting b => exact h
  | exec r =>
    show (execStep s r).cmdBuffHead < queueMsgNum ∧ (execStep s r).cmdBuffTail < queueMsgNum
    unfold execStep
    cases s.exec with
    | nextTail => exact ⟨h.1, hnext _⟩
    | nextHead again => exact ⟨hnext _, h.2⟩
    | handle cmd => cases r <;> exact h
    | recv =>
      dsimp only
      cases s.mq <;> split_ifs <;> exact h
    | idle => dsimp only; split_ifs <;> exact h
    | test => dsimp only; split_ifs <;> exact h
    | testWaiting => dsimp only; split_ifs <;> exact h
    | _ => exact h
  | callClear =>
    show (if s.clear = .idle then { s with clear := .drain 0 } else s).cmdBuffHead < queueMsgNum ∧
      (if s.clear = .idle then { s with clear := .drain 0 } else s).cmdBuffTail < queueMsgNum
    split_ifs <;> exact h
  | clear =>
    show (clearStep s).cmdBuffHead < queueMsgNum ∧ (clearStep s).cmdBuffTail < queueMsgNum
    unfold clearStep
    cases s.clear with
    | setHead => exact ⟨h.2, h.2⟩
    | drain count =>
      dsimp only
      cases s.mq <;> exact h
    | waitProcess => dsimp only; split_ifs <;> exact h
    | _ => exact h

/-- The executor is where the ring is tested, or between passes, and no clear resets the ring. -/
def Settled (s : CmdQueue) : Prop :=
  (s.exec = .idle ∨ s.exec = .recv ∨ s.exec = .test) ∧ ¬ Resetting s.clear

/-- What a state of the command ring has to satisfy: the indices are in the ring; the commands handled, in the ring,
received and in the queue are in the order of acceptance, and with the cleared ones every accepted command once; the
tests see how many commands the ring holds; and, where no clear and no waiting intervenes, the executor handles all
that is pending. -/
structure RingOk (s : CmdQueue) (done ring : List ℕ) : Prop where
  indices : s.cmdBuffHead < queueMsgNum ∧ s.cmdBuffTail < queueMsgNum
  history : History s.executed done (pending s ring) s.cleared s.accepted
  isEmpty : Settled s → (crCmdQueueIsEmpty s = true ↔ ring = [])
  isFull : Settled s → (crCmdQueueIsFull s = true ↔ ring.length = queueMsgNum)
  drains : ¬ Resetting s.clear → s.waiting = false →
    ∃ n done', History (execOks s n).executed done' [] s.cleared s.accepted

/-- **The command ring in calm runs**: every accepted command is handled once and in order, or cleared. -/
theorem cmd_ring_of_calm {ls : List CmdLabel} {s : CmdQueue}
    (h : Run (Guarded (fun s l t => t = cmdStep s l) CalmStep) initQueue ls s) :
    ∃ done ring, RingOk s done ring := by
  have hindices : s.cmdBuffHead < queueMsgNum ∧ s.cmdBuffTail < queueMsgNum :=
    h.invariant (I := fun s => s.cmdBuffHead < queueMsgNum ∧ s.cmdBuffTail < queueMsgNum) (by decide) (by
      rintro t l u ht ⟨rfl, -⟩
      exact indices_lt ht l)
  obtain ⟨done, ring, hring, hhist⟩ : ∃ done ring, CmdInv s done ring :=
    h.invariant (I := fun s => ∃ done ring, CmdInv s done ring) ⟨[], [], cmdInv_init⟩ (by
      rintro t l u ⟨done, ring, hi⟩ ⟨rfl, hok⟩
      exact cmdInv_step hi hok)
  have htests : Settled s → (crCmdQueueIsEmpty s = true ↔ ring = []) ∧
      (crCmdQueueIsFull s = true ↔ ring.length = queueMsgNum) := by
    rintro ⟨hpc, hres⟩
    have hcalm : Calm s.exec := by
      rcases hpc with hpc | hpc | hpc
      · rw [hpc]
        trivial
      · rw [hpc]
        trivial
      · rw [hpc]
        trivial
    obtain ⟨hr, hc⟩ := ((ringAt_iff hres ring).mp hring).of_calm hcalm
    exact hr.tests hc
  exact ⟨done, ring, hindices, hhist, fun hs => (htests hs).1, fun hs => (htests hs).2,
    fun hres hw => exec_drains hw ((ringAt_iff hres ring).mp hring) hhist⟩

/-! ## A clear after a command, and a clear during a command -/

/-- Statements of the executor, every command of which succeeds. -/
def execs (n : ℕ) : List CmdLabel := List.replicate n (.exec .execOk)

/-- Statements of the clear. -/
def clears (n : ℕ) : List CmdLabel := List.replicate n .clear

/-- A command is accepted and received, and the executor finds the ring not empty; after it a clear. -/
def clearAfterCmd : List CmdLabel :=
  [.put] ++ execs 16 ++ [.callClear] ++ clears 15 ++ [.put] ++ execs 6

/-- **A clear after a command**: the executor is between passes while the ring is reset; the command put after the
clear is the one that the ring holds then. -/
theorem cmd_ring_calmRun :
    AllSteps cmdStep CalmStep initQueue clearAfterCmd ∧
      ∃ done ring, RingOk (clearAfterCmd.foldl cmdStep initQueue) done ring := by
  have hcalm : AllSteps cmdStep CalmStep initQueue clearAfterCmd := by decide
  exact ⟨hcalm, cmd_ring_of_calm (Run.of_allSteps hcalm)⟩

/-- A clear that resets the ring while a command is handled: it looks at the status just before the executor sets
it. -/
def clearDuringCmd : List CmdLabel :=
  [.put] ++ execs 8 ++ [.callClear] ++ clears 12 ++ execs 1 ++ clears 3 ++ execs 5

/-- **The clear during a command**: afterwards the head has passed the tail, so that the ring is not empty although no
command is pending, and the executor goes on to handle a cell that holds none. -/
theorem clear_overtakes :
    (clearDuringCmd.foldl cmdStep initQueue).exec = .test ∧
      (clearDuringCmd.foldl cmdStep initQueue).cmdBuffHead = 2 ∧
      (clearDuringCmd.foldl cmdStep initQueue).cmdBuffTail = 1 ∧
      (clearDuringCmd.foldl cmdStep initQueue).accepted = 1 ∧
      ((clearDuringCmd ++ execs 4).foldl cmdStep initQueue).executed = [some 0, none] ∧
      ¬ ∃ done ring, RingOk ((clearDuringCmd ++ execs 4).foldl cmdStep initQueue) done ring := by
  have hexec : ((clearDuringCmd ++ execs 4).foldl cmdStep initQueue).executed = [some 0, none] := by decide
  refine ⟨by decide, by decide, by decide, by decide, hexec, ?_⟩
  rintro ⟨done, ring, hok⟩
  have hmap := hok.history.executed_eq
  rw [hexec] at hmap
  have hnone : none ∈ done.map some := by
    rw [← hmap]
    simp
  simp at hnone

end Calm

end Cxsw.Cmd
