import Mathlib.Algebra.BigOperators.Group.List.Basic
import Mathlib.Logic.Function.Basic
import Cxsw.Chelper.MsgBlock

/-!
# Cxsw.Chelper.SerialQueue — the host's side of a link (`klippy/chelper/serialqueue.c`)

Messages wait on the stalled and the ready list of their command queue, until they are put into a block.  A block is
kept on `sent_queue` until it is acknowledged, and sent again after a nak or a timeout.

Times are left out, with what only they use; the clocks of `check_send_command` are arguments.  A timer is at
`PR_NEVER`, at `PR_NOW` or at some time that may have come.

* `SerialQueue` and its functions: the code.
-/

namespace Cxsw.Link

/-! ## The code -/

section Defs

def maxPendingBlocks : ℕ := 12
def maxClock : ℕ := 0x7fffffffffffffff
def backgroundPriorityClock : ℕ := 0x7fffffff00000000
def messagePayloadMax : ℕ := 59

/-- A `queue_message` on a command queue. -/
structure QueueMessage where
  msg : List UInt8
  minClock : ℕ
  reqClock : ℕ
  notifyId : ℕ
  deriving DecidableEq

structure CommandQueue where
  stalledQueue : List QueueMessage
  readyQueue : List QueueMessage

def CommandQueue.isEmpty (q : CommandQueue) : Bool := q.readyQueue.isEmpty && q.stalledQueue.isEmpty

inductive Timer
  | never
  | now
  | later
  deriving DecidableEq

/-- A message on `receive_queue`: a notification, or what the other side sent. -/
inductive Incoming
  | notify (notifyId : ℕ)
  | data (block : List UInt8)

/-- `struct serialqueue`.  Command queues are known by their addresses. -/
structure SerialQueue where
  receiveWindow : ℤ
  sendSeq : ℕ
  receiveSeq : ℕ
  ignoreNakSeq : ℕ
  lastAckSeq : ℕ
  retransmitSeq : ℕ
  sentQueue : List (List UInt8)
  retransmitTimer : Timer
  queues : ℕ → CommandQueue
  pendingQueues : List ℕ
  readyBytes : ℤ
  stalledBytes : ℤ
  needAckBytes : ℤ
  lastAckBytes : ℤ
  needKickClock : ℕ
  /-- The sequence number of the block, and `notify_id`. -/
  notifyQueue : List (ℕ × ℕ)
  receiveQueue : List Incoming

namespace SerialQueue

/-- `serialqueue_alloc`, for a serial port. -/
def alloc : SerialQueue :=
  ⟨0, 1, 1, 0, 0, 0, [], .never, fun _ => ⟨[], []⟩, [], 0, 0, 0, 0, maxClock, [], []⟩

/-! ### Received messages -/

/-- The loop of `update_receive_seq`, from `sent_seq`: the length of the last message that is removed where it has the
number before `rseq`, what stays on `sent_queue`, and `need_ack_bytes`. -/
def removeSent (rseq : ℕ) : ℕ → List (List UInt8) → ℤ → Option ℕ × List (List UInt8) × ℤ
  | _, [], needAckBytes => (none, [], needAckBytes)
  | sentSeq, sent :: sentQueue, needAckBytes =>
    if rseq = sentSeq + 1 then (some sent.length, sentQueue, needAckBytes - sent.length)
    else removeSent rseq (sentSeq + 1) sentQueue (needAckBytes - sent.length)

/-- `update_receive_seq`. -/
def updateReceiveSeq (sq : SerialQueue) (rseq : ℕ) : SerialQueue :=
  let r := removeSent rseq sq.receiveSeq sq.sentQueue sq.needAckBytes
  { sq with
    sentQueue := r.2.1
    needAckBytes := r.2.2
    -- an ack for a message that was not sent: connection init
    sendSeq := if r.1 = none then rseq else sq.sendSeq
    lastAckBytes := r.1.elim sq.lastAckBytes fun len => len
    receiveSeq := rseq
    retransmitTimer := if r.2.1 = [] then .never else .later }

/-- `wake_seq`, an unsigned number. -/
def wakeSeq (rseq : ℕ) (block : List UInt8) : ℕ :=
  (rseq + 2 ^ 64 - 1 - if messageMin < block.length then 1 else 0) % 2 ^ 64

/-- What `handle_message` does with the messages on `notify_queue`. -/
def wakeNotify (sq : SerialQueue) (wakeSeq : ℕ) : SerialQueue :=
  { sq with
    notifyQueue := sq.notifyQueue.dropWhile fun qm => qm.1 ≤ wakeSeq
    receiveQueue := sq.receiveQueue ++ (sq.notifyQueue.takeWhile fun qm => qm.1 ≤ wakeSeq).map fun qm => .notify qm.2 }

/-- The rest of `handle_message`: an ack or a nak, or data. -/
def processMessage (sq : SerialQueue) (rseq : ℕ) (block : List UInt8) : SerialQueue :=
  if block.length = messageMin then
    if sq.lastAckSeq < rseq then { sq with lastAckSeq := rseq }
    else if rseq > sq.ignoreNakSeq ∧ sq.sentQueue ≠ [] then { sq with retransmitTimer := .now }
    else sq
  else { sq with receiveQueue := sq.receiveQueue ++ [.data block] }

/-- The number that `handle_message` finds for a message, before it is compared with `send_seq`. -/
def messageSeq (sq : SerialQueue) (block : List UInt8) : ℕ :=
  let rseq := sq.receiveSeq - sq.receiveSeq % 16 + (block.getD 1 0 &&& messageSeqMask).toNat
  if rseq < sq.receiveSeq then rseq + 16 else rseq

/-- `handle_message`, without the fast readers. -/
def handleMessage (sq : SerialQueue) (block : List UInt8) : SerialQueue :=
  let rseq := sq.messageSeq block
  let process (sq : SerialQueue) := (sq.wakeNotify (wakeSeq rseq block)).processMessage rseq block
  if rseq = sq.receiveSeq then process sq
  -- an ack for a message not sent, or out of order
  else if rseq > sq.sendSeq ∧ sq.receiveSeq ≠ 1 then sq
  else process (sq.updateReceiveSeq rseq)

/-! ### Blocks that are sent -/

/-- `retransmit_event`: the bytes that are written, and the state; it returns a time. -/
def retransmitEvent (sq : SerialQueue) : List UInt8 × SerialQueue :=
  (messageSync :: sq.sentQueue.flatten,
    { sq with
      ignoreNakSeq :=
        if sq.retransmitTimer = .now then
          if sq.receiveSeq < sq.retransmitSeq then sq.retransmitSeq else sq.receiveSeq
        else sq.sendSeq
      retransmitSeq := sq.sendSeq
      retransmitTimer := .later })

/-- The search for the message with the lowest `req_clock`: its queue, the message, and what is behind it. -/
def findHighest (queues : ℕ → CommandQueue) (pendingQueues : List ℕ) :
    Option (ℕ × QueueMessage × List QueueMessage) :=
  (pendingQueues.foldl (fun (best : ℕ × Option (ℕ × QueueMessage × List QueueMessage)) q =>
    match (queues q).readyQueue with
    | [] => best
    | m :: rest => if m.reqClock < best.1 then (m.reqClock, some (q, m, rest)) else best) (maxClock, none)).2

/-- `list_del` of a message that is first on the ready list of `cq`, and what goes with it. -/
def takeMessage (sq : SerialQueue) (cq : ℕ) (qm : QueueMessage) (rest : List QueueMessage) : SerialQueue :=
  let q : CommandQueue := ⟨(sq.queues cq).stalledQueue, rest⟩
  { sq with
    queues := Function.update sq.queues cq q
    pendingQueues := if q.isEmpty then sq.pendingQueues.erase cq else sq.pendingQueues
    readyBytes := sq.readyBytes - qm.msg.length
    notifyQueue := if qm.notifyId ≠ 0 then sq.notifyQueue ++ [(sq.sendSeq, qm.notifyId)] else sq.notifyQueue }

/-- The loop of `build_and_send_command`: the messages that go into the block, with their queues.  Without a message
that has a `req_clock` below `MAX_CLOCK` it follows a null pointer.  The fuel is the number of rounds. -/
def takeMessages : ℕ → SerialQueue → ℕ → Option (SerialQueue × List (ℕ × QueueMessage))
  | 0, _, _ => none
  | fuel + 1, sq, len =>
    if sq.readyBytes = 0 then some (sq, [])
    else
      match findHighest sq.queues sq.pendingQueues with
      | none => none
      | some (cq, qm, rest) =>
        if len + qm.msg.length > messageMax - messageTrailerSize then some (sq, [])
        else
          (takeMessages fuel (sq.takeMessage cq qm rest) (len + qm.msg.length)).map fun r => (r.1, (cq, qm) :: r.2)

/-- The number of a block in its header. -/
def seqByte (seq : ℕ) : UInt8 := messageDest ||| (UInt8.ofNat seq &&& messageSeqMask)

def payload (qms : List (ℕ × QueueMessage)) : List UInt8 := qms.flatMap fun qm => qm.2.msg

/-- The end of `build_and_send_command`: the block is stored. -/
def storeBlock (sq : SerialQueue) (out : List UInt8) : SerialQueue :=
  { sq with
    retransmitTimer := if sq.sentQueue = [] then .later else sq.retransmitTimer
    sendSeq := sq.sendSeq + 1
    needAckBytes := sq.needAckBytes + out.length
    sentQueue := sq.sentQueue ++ [out] }

/-- `build_and_send_command`: the state, the block and the messages in it. -/
def buildAndSendCommand (sq : SerialQueue) : Option (SerialQueue × List UInt8 × List (ℕ × QueueMessage)) :=
  -- a round for every message that is ready, and one more
  let rounds := (sq.pendingQueues.map fun q => (sq.queues q).readyQueue.length).sum + 1
  (takeMessages rounds sq messageHeaderSize).map fun r =>
    let out := frame (seqByte r.1.sendSeq) (payload r.2)
    (r.1.storeBlock out, out, r.2)

/-- The clocks of `check_send_command`: `ack_clock`, what stands for `BACKGROUND_PRIORITY_CLOCK`, and `reqclock_delta`
where the clock of the other side is known. -/
structure Clocks where
  ackClock : ℕ
  backgroundClock : ℕ
  reqclockDelta : Option ℕ

/-- When `check_send_command` wants to be called again. -/
inductive Waketime
  | now
  | never
  /-- At `wantclock`. -/
  | at (wantclock : ℕ)
  deriving DecidableEq

/-- The messages of a queue that are no longer stalled, and their number of bytes. -/
def wake (sq : SerialQueue) (clocks : Clocks) (cq : ℕ) : SerialQueue :=
  let q := sq.queues cq
  let moved := q.stalledQueue.takeWhile fun qm => qm.minClock ≤ clocks.ackClock
  let bytes : ℕ := (moved.map fun qm => qm.msg.length).sum
  { sq with
    queues := Function.update sq.queues cq ⟨q.stalledQueue.dropWhile fun qm => qm.minClock ≤ clocks.ackClock,
      q.readyQueue ++ moved⟩
    stalledBytes := sq.stalledBytes - bytes
    readyBytes := sq.readyBytes + bytes }

/-- The loop of `check_send_command`: the state, `min_stalled_clock` and `min_ready_clock`. -/
def wakeStalled (sq : SerialQueue) (clocks : Clocks) : SerialQueue × ℕ × ℕ :=
  sq.pendingQueues.foldl (fun r cq =>
    let sq := r.1.wake clocks cq
    let q := sq.queues cq
    let minStalledClock := q.stalledQueue.head?.elim r.2.1 fun qm => min qm.minClock r.2.1
    let minReadyClock := q.readyQueue.head?.elim r.2.2 fun qm =>
      min (if qm.reqClock = backgroundPriorityClock then clocks.backgroundClock else qm.reqClock) r.2.2
    (sq, minStalledClock, minReadyClock)) (sq, maxClock, maxClock)

/-- The first tests of `check_send_command`: whether an ack must come before another block. -/
def mustWait (sq : SerialQueue) : Bool :=
  sq.sendSeq < sq.receiveSeq ∨ sq.receiveSeq + maxPendingBlocks ≤ sq.sendSeq ∨
    (sq.receiveSeq < sq.sendSeq ∧ sq.receiveWindow ≠ 0 ∧
      sq.receiveWindow < sq.needAckBytes + messageMax + if sq.lastAckSeq < sq.receiveSeq then sq.lastAckBytes else 0)

/-- `check_send_command`. -/
def checkSendCommand (sq : SerialQueue) (clocks : Clocks) : SerialQueue × Waketime :=
  if sq.mustWait then (sq, .never)
  else
    let r := sq.wakeStalled clocks
    let sq := r.1
    let minStalledClock := r.2.1
    let minReadyClock := r.2.2
    if messagePayloadMax ≤ sq.readyBytes then (sq, .now)
    else
      match clocks.reqclockDelta with
      | none => if sq.readyBytes ≠ 0 then (sq, .now) else ({ sq with needKickClock := maxClock }, .never)
      | some reqclockDelta =>
        if minReadyClock ≤ clocks.ackClock + reqclockDelta then (sq, .now)
        else
          let wantclock := min minStalledClock (minReadyClock - reqclockDelta)
          ({ sq with needKickClock := wantclock }, .at wantclock)

/-- A round of `command_event`: the state, and the block that is built, with the messages in it. -/
def commandRound (sq : SerialQueue) (clocks : Clocks) :
    Option (SerialQueue × Option (List UInt8 × List (ℕ × QueueMessage))) :=
  let r := sq.checkSendCommand clocks
  if r.2 = .now then r.1.buildAndSendCommand.map fun b => (b.1, some b.2) else some (r.1, none)

/-! ### Messages that are to be sent -/

/-- `min_clock` as `serialqueue_send_batch` sets it. -/
def prepared (qm : QueueMessage) : QueueMessage :=
  if (qm.minClock + 2 ^ 31) % 2 ^ 64 < qm.reqClock ∧ qm.reqClock ≠ backgroundPriorityClock then
    { qm with minClock := qm.reqClock - 2 ^ 31 }
  else qm

/-- What is queued of a batch. -/
def batch (msgs : List QueueMessage) : List QueueMessage :=
  if (msgs.map fun qm => qm.msg.length).sum = 0 then [] else msgs.map prepared

/-- `serialqueue_send_batch`: the state, and whether the background thread is woken. -/
def sendBatch (sq : SerialQueue) (cq : ℕ) (msgs : List QueueMessage) : SerialQueue × Bool :=
  match batch msgs with
  | [] => (sq, false)
  | qm :: qms =>
    let q := sq.queues cq
    let mustwake : Bool := qm.minClock < sq.needKickClock
    ({ sq with
        pendingQueues := if q.isEmpty then sq.pendingQueues ++ [cq] else sq.pendingQueues
        queues := Function.update sq.queues cq ⟨q.stalledQueue ++ qm :: qms, q.readyQueue⟩
        stalledBytes := sq.stalledBytes + (((qm :: qms).map fun qm => qm.msg.length).sum : ℕ)
        needKickClock := if mustwake then 0 else sq.needKickClock }, mustwake)

/-- `serialqueue_pull`, where there is a message. -/
def pull (sq : SerialQueue) : SerialQueue × Option Incoming :=
  match sq.receiveQueue with
  | [] => (sq, none)
  | qm :: rest => ({ sq with receiveQueue := rest }, some qm)

end SerialQueue

end Defs

end Cxsw.Link
