import Cxsw.Chelper.Retransmit

/-!
# Cxsw.Chelper.SerialLink — host and microcontroller on a line that loses blocks (`serialqueue.c`, `src/command.c`)

The host numbers its blocks modulo 16 and sends again what is not acknowledged.  The microcontroller dispatches a block
that has the number it expects, and answers with the next one; a block with another number it only answers.  A block
that is damaged is lost, with or without a nak.  The microcontroller was up before the host: it may expect any number
first.

* `SerialLink`, `LinkStep`: the two sides and what is on the way.
* `Refines`: they are a sender and a receiver of `GoBackN`, with the numbers they really have.
* `dispatched_in_order`: blocks are dispatched in the order in which they were made, each once, without a gap.
* `notified_after_dispatch`: a notification comes when the dispatch of the block of its message has ended.
* `everything_dispatched`: once the blocks are sent again and nothing more is lost, everything is dispatched and
  acknowledged.
-/

namespace Cxsw.Link

/-! ## The code and the line -/

section Defs

/-- The side of the microcontroller. -/
structure Console where
  /-- `next_sequence`. -/
  nextSequence : UInt8
  /-- The block that `command_dispatch` works on. -/
  dispatching : Option (List UInt8)
  dispatched : List (List UInt8)

/-- What is between the header and the trailer. -/
def contentsOf (block : List UInt8) : List UInt8 := (block.drop messageHeaderSize).take (block.length - messageMin)

/-- The end of `command_find_block`: the sequence number of a block is checked.  The second result says that it is not
the one that is expected, which is answered with a nak. -/
def Console.checkSequence (c : Console) (block : List UInt8) : Console × Bool :=
  let msgseq := block.getD 1 0
  if msgseq ≠ c.nextSequence then (c, true)
  else
    ({ c with
        nextSequence := ((msgseq + 1) &&& messageSeqMask) ||| messageDest
        dispatching := some (contentsOf block) }, false)

/-- A message of the microcontroller, as `command_add_frame` makes it. -/
def Console.reply (c : Console) (payload : List UInt8) : List UInt8 := frame c.nextSequence payload

structure SerialLink where
  host : Host
  console : Console
  /-- Blocks on the way to the microcontroller. -/
  toMcu : List (List UInt8)
  toHost : List (List UInt8)

/-- Where a run starts: the microcontroller expects any number. -/
def SerialLink.start (nextSequence : UInt8) : SerialLink := ⟨Host.alloc, ⟨nextSequence, none, []⟩, [], []⟩

/-- The block that is dispatched is done with. -/
def SerialLink.dispatchedTo (s : SerialLink) (block : List UInt8) : SerialLink :=
  { s with
    console := ⟨s.console.nextSequence, none, s.console.dispatched ++ [block]⟩
    toHost := s.toHost ++ [s.console.reply []] }

/-- The blocks in bytes that are written. -/
def blocksIn (written : List UInt8) : List (List UInt8) := Decoder.outputsOf inputEvent (false, []) [written]

inductive LinkEvent
  | send (cq : ℕ) (msgs : List QueueMessage)
  | command (clocks : SerialQueue.Clocks)
  | retransmit
  | pull
  | setReceiveWindow (receiveWindow : ℤ)
  | deliver
  | finish
  | cutOff
  | respond (payload : List UInt8)
  | nak
  | hear
  | lose
  | loseReply

inductive LinkStep : SerialLink → LinkEvent → SerialLink → Prop
  | send {s : SerialLink} (cq : ℕ) (msgs : List QueueMessage) :
      LinkStep s (.send cq msgs) { s with host := { s.host with sq := (s.host.sq.sendBatch cq msgs).1 } }
  | wait {s : SerialLink} {sq : SerialQueue} {clocks : SerialQueue.Clocks}
      (h : s.host.sq.commandRound clocks = some (sq, none)) :
      LinkStep s (.command clocks) { s with host := { s.host with sq := sq } }
  | block {s : SerialLink} {sq : SerialQueue} {clocks : SerialQueue.Clocks} {out : List UInt8}
      {qms : List (ℕ × QueueMessage)} (h : s.host.sq.commandRound clocks = some (sq, some (out, qms))) :
      LinkStep s (.command clocks)
        { s with
          host := ⟨sq, s.host.log ++ [(s.host.sq.sendSeq, qms)], s.host.naks⟩
          toMcu := s.toMcu ++ blocksIn out }
  | retransmit {s : SerialLink} (h : s.host.sq.retransmitTimer ≠ .never) :
      LinkStep s .retransmit
        { s with
          host := ⟨s.host.sq.retransmitEvent.2, s.host.log,
            if s.host.sq.retransmitTimer = .now then s.host.naks ++ [(s.host.sq.receiveSeq, s.host.sq.sendSeq)]
            else s.host.naks⟩
          toMcu := s.toMcu ++ blocksIn s.host.sq.retransmitEvent.1 }
  | pull {s : SerialLink} : LinkStep s .pull { s with host := { s.host with sq := s.host.sq.pull.1 } }
  | setReceiveWindow {s : SerialLink} (w : ℤ) :
      LinkStep s (.setReceiveWindow w) { s with host := { s.host with sq := { s.host.sq with receiveWindow := w } } }
  /-- A block arrives that is expected. -/
  | accept {s : SerialLink} {b : List UInt8} {rest : List (List UInt8)} {c : Console} (h : s.toMcu = b :: rest)
      (hidle : s.console.dispatching = none) (hc : s.console.checkSequence b = (c, false)) :
      LinkStep s .deliver { s with toMcu := rest, console := c }
  /-- Another one arrives. -/
  | reject {s : SerialLink} {b : List UInt8} {rest : List (List UInt8)} {c : Console} (h : s.toMcu = b :: rest)
      (hidle : s.console.dispatching = none) (hc : s.console.checkSequence b = (c, true)) :
      LinkStep s .deliver { s with toMcu := rest, console := c, toHost := s.toHost ++ [c.reply []] }
  /-- `command_dispatch` comes back, and the block is acknowledged. -/
  | finish {s : SerialLink} {p : List UInt8} (h : s.console.dispatching =
      some p) : LinkStep s .finish (s.dispatchedTo p)
  /-- A command of the block shuts down, and the rest of the block is dropped.  The block is looked at again, and has
  not the number that is expected; the nak is the same message. -/
  | cutOff {s : SerialLink} {p : List UInt8} (h : s.console.dispatching =
      some p) : LinkStep s .cutOff (s.dispatchedTo p)
  /-- A command, or something else, sends a message. -/
  | respond {s : SerialLink} (payload : List UInt8) (h : payload ≠ []) :
      LinkStep s (.respond payload) { s with toHost := s.toHost ++ [s.console.reply payload] }
  /-- What arrives is not a block. -/
  | nak {s : SerialLink} (hidle : s.console.dispatching = none) :
      LinkStep s .nak { s with toHost := s.toHost ++ [s.console.reply []] }
  | hear {s : SerialLink} {b : List UInt8} {rest : List (List UInt8)} (h : s.toHost = b :: rest) :
      LinkStep s .hear
        { s with host := { s.host with sq := s.host.sq.handleMessage b }, toHost := rest }
  | lose {s : SerialLink} {blocks : List (List UInt8)} (h : blocks.Sublist s.toMcu) :
      LinkStep s .lose { s with toMcu := blocks }
  | loseReply {s : SerialLink} {blocks : List (List UInt8)} (h : blocks.Sublist s.toHost) :
      LinkStep s .loseReply { s with toHost := blocks }

/-- The first number that the host gives to a block for the microcontroller to dispatch. -/
def firstSeq (nextSequence : UInt8) : ℕ :=
  if nextSequence &&& messageSeqMask = 0 then 16 else (nextSequence &&& messageSeqMask).toNat

end Defs

/-! ## Numbers in a byte -/

section SeqBytes

open SerialQueue (seqByte payload)

theorem seqByte_eq (k : ℕ) : seqByte k = UInt8.ofNat (16 + k % 16) := by
  have h : ∀ b : UInt8, messageDest ||| (b &&& messageSeqMask) = UInt8.ofNat (16 + b.toNat % 16) :=
    CString.forall_uint8 (by decide +kernel)
  unfold seqByte
  rw [h, UInt8.toNat_ofNat']
  congr 2
  omega

theorem seqByte_toNat (k : ℕ) : (seqByte k).toNat = 16 + k % 16 := by
  rw [seqByte_eq, UInt8.toNat_ofNat']
  omega

theorem seqByte_inj (j k : ℕ) : seqByte j = seqByte k ↔ j % 16 = k % 16 := by
  rw [← UInt8.toNat_inj, seqByte_toNat, seqByte_toNat, Nat.add_left_cancel_iff]

/-- What is tried on all numbers modulo 16. -/
theorem forall_seqByte {P : UInt8 → Prop} (h : ∀ r : Fin 16, P (UInt8.ofNat (16 + r))) (k : ℕ) : P (seqByte k) := by
  rw [seqByte_eq]
  exact h ⟨k % 16, Nat.mod_lt _ (by decide)⟩

theorem seqByte_dest (k : ℕ) : seqByte k &&& ~~~messageSeqMask = messageDest :=
  forall_seqByte (P := fun b => b &&& ~~~messageSeqMask = messageDest) (by decide) k

theorem seqByte_nibble (k : ℕ) : (seqByte k &&& messageSeqMask).toNat = k % 16 := by
  have h := forall_seqByte (P := fun b => (b &&& messageSeqMask).toNat = b.toNat - 16) (by decide) k
  rw [h, seqByte_toNat]
  omega

/-- The firmware's next number is the next number. -/
theorem seqByte_succ (k : ℕ) : ((seqByte k + 1) &&& messageSeqMask) ||| messageDest = seqByte (k + 1) := by
  have h := forall_seqByte (P := fun b => ((b + 1) &&& messageSeqMask) ||| messageDest =
    UInt8.ofNat (16 + (b.toNat - 16 + 1) % 16)) (by decide) k
  rw [h, seqByte_toNat, seqByte_eq]
  congr 2
  omega

/-- The first number is the one that the microcontroller expects. -/
theorem seqByte_firstSeq : ∀ {b : UInt8}, b &&& ~~~messageSeqMask = messageDest →
    seqByte (firstSeq b) = b ∧ 1 ≤ firstSeq b ∧ firstSeq b ≤ 16 :=
  @(CString.forall_uint8 (by decide +kernel))

end SeqBytes

/-! ## Blocks -/

section Blocks

open SerialQueue (seqByte payload)

variable {b : ℕ × List (ℕ × QueueMessage)} {block : List UInt8}

theorem frame_seq (seq : UInt8) (payload : List UInt8) : (frame seq payload).getD 1 0 = seq := by
  unfold frame
  simp

theorem contentsOf_frame (seq : UInt8) (payload : List UInt8) : contentsOf (frame seq payload) = payload := by
  have h2 : messageHeaderSize = 2 := rfl
  have h5 : messageMin = 5 := rfl
  unfold contentsOf
  rw [frame_length, h2, h5, Nat.add_sub_cancel]
  unfold frame
  simp

theorem blockOf_seq (b : ℕ × List (ℕ × QueueMessage)) : (blockOf b).getD 1 0 = seqByte b.1 := frame_seq _ _

theorem blockOf_valid (h : (payload b.2).length ≤ 59) : Valid (blockOf b) := frame_valid h (seqByte_dest _)

theorem blocksIn_stream (blocks : List (ℕ × List UInt8)) (h : ∀ b ∈ blocks, Valid b.2) :
    blocksIn (streamOf blocks) = blocks.map Prod.snd := by
  unfold blocksIn
  rw [outputsOf_inputEvent, List.flatten_singleton, mcu_stream false blocks h, filterMap_blocks]

/-- **A block that is written** is one on the line. -/
theorem blocksIn_block (h : Valid block) : blocksIn block = [block] := by
  have hstream : streamOf [(0, block)] = block := by simp [streamOf]
  have hblocks := blocksIn_stream [(0, block)] (by simpa using h)
  rw [hstream] at hblocks
  exact hblocks

/-- **What `retransmit_event` writes** is the blocks of `sent_queue`. -/
theorem blocksIn_retransmit {blocks : List (List UInt8)} (hne : blocks ≠ []) (h : ∀ b ∈ blocks, Valid b) :
    blocksIn (messageSync :: blocks.flatten) = blocks := by
  cases blocks with
  | nil => exact absurd rfl hne
  | cons b blocks =>
    have hstream : streamOf ((1, b) :: blocks.map fun b => (0, b)) = messageSync :: (b :: blocks).flatten := by
      unfold streamOf
      simp [Function.comp_def]
    have hblocks := blocksIn_stream ((1, b) :: blocks.map fun b => (0, b)) (by simpa using h)
    rw [hstream] at hblocks
    rw [hblocks]
    simp

end Blocks

/-! ## The two sides as a sender and a receiver -/

section Refinement

open SerialQueue (seqByte payload)

/-- Whether a block is being dispatched. -/
def Console.busy (c : Console) : ℕ := if c.dispatching.isSome then 1 else 0

/-- A message on the way to the host has the number of an answer.  Without contents it is sent when nothing is being
dispatched. -/
def Answers (expected busy : ℕ) (block : List UInt8) (k : ℕ) : Prop :=
  block.getD 1 0 = seqByte k ∧ messageMin ≤ block.length ∧ (block.length = messageMin → k + busy ≤ expected)

/-- The state of the link and the one with the numbers. -/
structure Refines (first : ℕ) (s : SerialLink) (t : GoBackN.State (List (ℕ × QueueMessage))) : Prop where
  made : t.made = s.host.log
  base : t.base = s.host.sq.receiveSeq
  next : t.next = s.host.sq.sendSeq
  line : s.toMcu = t.line.map blockOf
  expected : s.console.nextSequence = seqByte t.expected
  answers : List.Forall₂ (Answers t.expected s.console.busy) s.toHost t.answers
  dispatched : s.console.dispatched =
    (t.made.filter fun b => first ≤ b.1 ∧ b.1 < t.expected - s.console.busy).map fun b => payload b.2
  taken : s.console.dispatched ++ s.console.dispatching.toList = t.taken.map payload

/-- What holds along a run. -/
structure Linked (first : ℕ) (s : SerialLink) (t : GoBackN.State (List (ℕ × QueueMessage))) : Prop where
  sound : Sound s.host
  inv : GoBackN.Inv 12 16 1 first t
  refines : Refines first s t

/-- The steps of the sender and the receiver. -/
abbrev Steps := Run (GoBackN.Step (α := List (ℕ × QueueMessage)) 12)

variable {first : ℕ} {s s' : SerialLink} {t t' : GoBackN.State (List (ℕ × QueueMessage))}

theorem forall₂_sublist {α β : Type*} {R : α → β → Prop} {l l' : List α} {m : List β} (h : List.Forall₂ R l m)
    (hl : l'.Sublist l) : ∃ m', m'.Sublist m ∧ List.Forall₂ R l' m' := by
  induction h generalizing l' with
  | nil =>
    rw [List.sublist_nil.mp hl]
    exact ⟨[], List.Sublist.refl _, List.Forall₂.nil⟩
  | @cons a b l m hab h ih =>
    cases hl with
    | cons _ hl =>
      obtain ⟨m', hm, hr⟩ := ih hl
      exact ⟨m', hm.cons b, hr⟩
    | cons_cons _ hl =>
      obtain ⟨m', hm, hr⟩ := ih hl
      exact ⟨b :: m', hm.cons_cons b, List.Forall₂.cons hab hr⟩

theorem linked_start {b : UInt8} (h : b &&& ~~~messageSeqMask = messageDest) :
    Linked (firstSeq b) (SerialLink.start b) (GoBackN.State.start 1 (firstSeq b)) := by
  obtain ⟨hb, h1, -⟩ := seqByte_firstSeq h
  exact ⟨sound_alloc, GoBackN.inv_start h1, rfl, rfl, rfl, rfl, hb.symm, List.Forall₂.nil, rfl, rfl⟩

/-- The host heard of the number in a message. -/
theorem Linked.messageSeq (h : Linked first s t) (hfirst : first < 1 + 16) {block : List UInt8} {k : ℕ}
    {rest : List ℕ} (hans : t.answers = k :: rest) (hblock : block.getD 1 0 = seqByte k) :
    s.host.sq.messageSeq block = k := by
  have hk := GoBackN.recover_answer h.inv (by decide) hfirst (hans ▸ List.mem_cons_self)
  rw [h.refines.base] at hk
  unfold SerialQueue.messageSeq
  rw [hblock, seqByte_nibble]
  exact hk

/-- What the host did not hear yet of what the microcontroller expects is behind what is on the line. -/
def Pending (s : SerialLink) (t : GoBackN.State (List (ℕ × QueueMessage))) : Prop :=
  s.console.dispatching = none → GoBackN.Told t ∨ t.line ≠ []

/-- The notifications that are wanted for the messages of blocks: the number of the block, and `notify_id`. -/
def wanted (log : List (ℕ × List (ℕ × QueueMessage))) : List (ℕ × ℕ) :=
  log.flatMap fun b => (b.2.filter fun qm => qm.2.notifyId ≠ 0).map fun qm => (b.1, qm.2.notifyId)

def Incoming.notifyId? : Incoming → Option ℕ
  | .notify notifyId => some notifyId
  | .data _ => none

/-- The notifications that came, in the order in which they were wanted: their blocks were dispatched. -/
def Notified (first : ℕ) (s : SerialLink) (t : GoBackN.State (List (ℕ × QueueMessage))) : Prop :=
  ∃ came, wanted s.host.log = came ++ s.host.sq.notifyQueue ∧
    s.host.sq.receiveQueue.filterMap Incoming.notifyId? <:+ came.map Prod.snd ∧
    ∀ x ∈ came, first ≤ x.1 → x.1 < t.expected - s.console.busy

/-- Where nothing is notified and the blocks that were dispatched stay so. -/
theorem Notified.of_same (h : Notified first s t) (hlog : s'.host.log = s.host.log)
    (hnotify : s'.host.sq.notifyQueue = s.host.sq.notifyQueue)
    (hreceive : s'.host.sq.receiveQueue.filterMap Incoming.notifyId? <:+
      s.host.sq.receiveQueue.filterMap Incoming.notifyId?)
    (hdone : t.expected - s.console.busy ≤ t'.expected - s'.console.busy) : Notified first s' t' := by
  obtain ⟨came, hwanted, hsuffix, hcame⟩ := h
  exact ⟨came, by rw [hlog, hnotify]; exact hwanted, hreceive.trans hsuffix,
    fun x hx hfirst => lt_of_lt_of_le (hcame x hx hfirst) hdone⟩

/-- A step of the link is steps of the sender and the receiver, which lose nothing if it does not. -/
def Follows (first : ℕ) (s : SerialLink) (t : GoBackN.State (List (ℕ × QueueMessage))) (l : LinkEvent)
    (s' : SerialLink) : Prop :=
  ∃ ks t', Steps t ks t' ∧ Refines first s' t' ∧ (l ≠ .lose → GoBackN.Label.lose ∉ ks) ∧
    (l ≠ .lose → l ≠ .loseReply → Pending s t → Pending s' t') ∧
    (2 ≤ first → Notified first s t → Notified first s' t')

/-- The host does something that the line does not see. -/
theorem Linked.host (h : Linked first s t) (l : LinkEvent) {host : Host} (hlog : host.log = s.host.log)
    (hrecv : host.sq.receiveSeq = s.host.sq.receiveSeq) (hsend : host.sq.sendSeq = s.host.sq.sendSeq)
    (hnotify : host.sq.notifyQueue = s.host.sq.notifyQueue)
    (hreceive : host.sq.receiveQueue.filterMap Incoming.notifyId? <:+
      s.host.sq.receiveQueue.filterMap Incoming.notifyId?) :
    Follows first s t l { s with host := host } := by
  have hr := h.refines
  exact ⟨[], t, Run.nil t, ⟨hr.made.trans hlog.symm, hr.base.trans hrecv.symm, hr.next.trans hsend.symm, hr.line,
    hr.expected, hr.answers, hr.dispatched, hr.taken⟩, fun _ hmem => absurd hmem List.not_mem_nil, fun _ _ hp => hp,
    fun _ hn => hn.of_same hlog hnotify hreceive (le_refl _)⟩

/-- The microcontroller sends a message. -/
theorem Refines.answer (hr : Refines first s t) {payload : List UInt8}
    (hp : payload = [] → s.console.dispatching = none) :
    Refines first { s with toHost := s.toHost ++ [s.console.reply payload] } t.answer := by
  refine ⟨hr.made, hr.base, hr.next, hr.line, hr.expected, ?_, hr.dispatched, hr.taken⟩
  refine List.rel_append hr.answers (List.Forall₂.cons ⟨?_, ?_, fun hlen => ?_⟩ List.Forall₂.nil)
  · unfold Console.reply
    rw [frame_seq, hr.expected]
  · unfold Console.reply
    rw [frame_length]
    exact Nat.le_add_left _ _
  · unfold Console.reply at hlen
    rw [frame_length] at hlen
    have h5 : messageMin = 5 := rfl
    have hnil : payload = [] := List.length_eq_zero_iff.mp (by omega)
    unfold Console.busy
    rw [hp hnil]
    exact le_refl _

theorem Linked.answer (h : Linked first s t) (l : LinkEvent) {payload : List UInt8}
    (hp : payload = [] → s.console.dispatching = none) :
    Follows first s t l { s with toHost := s.toHost ++ [s.console.reply payload] } :=
  ⟨[.answer], t.answer, (Run.nil t).snoc GoBackN.Step.answer, h.refines.answer hp, fun _ hmem => by simp at hmem,
    fun _ _ _ _ => Or.inl (GoBackN.told_answer t),
    fun _ hn => hn.of_same rfl rfl (List.suffix_refl _) (le_refl _)⟩

theorem Linked.block (h : Linked first s t) {sq : SerialQueue} {clocks : SerialQueue.Clocks} {out : List UInt8}
    {qms : List (ℕ × QueueMessage)} (hround : s.host.sq.commandRound clocks = some (sq, some (out, qms))) :
    Follows first s t (.command clocks) { s with
      host := ⟨sq, s.host.log ++ [(s.host.sq.sendSeq, qms)], s.host.naks⟩
      toMcu := s.toMcu ++ blocksIn out } := by
  have hr := h.refines
  have hsound := h.sound.command hround
  obtain ⟨-, hout, hsize, mid, built, hw, htaken, rfl⟩ := commandRound_block h.sound.queued hround
  obtain ⟨-, hsend, hrecv, -⟩ := hw.link.trans htaken.link
  have hblock : out = blockOf (s.host.sq.sendSeq, qms) := hout
  have hroom : t.next < t.base + 12 := by
    have hnext := hsound.sender.next_le
    simp only [SerialQueue.storeBlock, hsend, hrecv] at hnext
    rw [hr.next, hr.base]
    omega
  have hexp := h.inv.expected_le
  refine ⟨[.send qms], t.send qms, (Run.nil t).snoc (GoBackN.Step.send qms hroom),
    ⟨?_, ?_, ?_, ?_, hr.expected, hr.answers, ?_,
    hr.taken⟩, fun _ hmem => by simp at hmem, fun _ _ _ _ => Or.inr ?_, fun _ hn => ?_⟩
  · simp only [GoBackN.State.send, hr.made, hr.next]
  · simp only [GoBackN.State.send, SerialQueue.storeBlock, hrecv, hr.base]
  · simp only [GoBackN.State.send, SerialQueue.storeBlock, hsend, hr.next]
  · rw [hblock, blocksIn_block (blockOf_valid hsize)]
    simp only [GoBackN.State.send, hr.line, List.map_append, hr.next, List.map_cons, List.map_nil]
  · change s.console.dispatched = ((t.made ++ [(t.next, qms)]).filter fun b =>
      first ≤ b.1 ∧ b.1 < t.expected - s.console.busy).map fun b => payload b.2
    -- the new block is not among those that were dispatched
    have hnew : ¬ (first ≤ t.next ∧ t.next < t.expected - s.console.busy) := by
      rcases hexp with hle | ⟨-, he⟩ <;> omega
    rw [List.filter_append, List.filter_cons_of_neg (by rw [decide_eq_true_iff]; exact hnew), List.filter_nil,
      List.append_nil]
    exact hr.dispatched
  · exact List.append_ne_nil_of_right_ne_nil _ (List.cons_ne_nil _ _)
  · obtain ⟨came, hwanted, hsuffix, hcame⟩ := hn
    have hmid := hw.link.2.1
    refine ⟨came, ?_, ?_, hcame⟩
    · simp only [SerialQueue.storeBlock, htaken.notify, hw.notify, hmid]
      unfold wanted at hwanted ⊢
      rw [List.flatMap_append, hwanted, List.append_assoc]
      simp
    · simp only [SerialQueue.storeBlock, htaken.received, hw.received]
      exact hsuffix

theorem Linked.resend (h : Linked first s t) (htimer : s.host.sq.retransmitTimer ≠ .never) (naks : List (ℕ × ℕ)) :
    t.unacked ≠ [] ∧ Refines first { s with
      host := ⟨s.host.sq.retransmitEvent.2, s.host.log, naks⟩
      toMcu := s.toMcu ++ blocksIn s.host.sq.retransmitEvent.1 } t.resend := by
  have hr := h.refines
  have hne : s.host.sq.sentQueue ≠ [] := fun hnil => htimer (h.sound.timer.mpr hnil)
  have hsent : s.host.sq.sentQueue = t.unacked.map blockOf := by
    unfold GoBackN.State.unacked
    rw [hr.made, hr.base]
    exact h.sound.sent
  have hvalid : ∀ b ∈ s.host.sq.sentQueue, Valid b := by
    intro b hb
    rw [h.sound.sent] at hb
    obtain ⟨p, hp, rfl⟩ := List.mem_map.mp hb
    exact blockOf_valid (h.sound.size p (List.mem_of_mem_filter hp))
  refine ⟨fun hnil => hne (by rw [hsent, hnil, List.map_nil]), hr.made, hr.base, hr.next, ?_, hr.expected, hr.answers,
    hr.dispatched, hr.taken⟩
  change s.toMcu ++ blocksIn (messageSync :: s.host.sq.sentQueue.flatten) = (t.line ++ t.unacked).map blockOf
  rw [blocksIn_retransmit hne hvalid, List.map_append, ← hsent, hr.line]

theorem Linked.retransmit (h : Linked first s t) (htimer : s.host.sq.retransmitTimer ≠ .never) {naks : List (ℕ × ℕ)} :
    Follows first s t .retransmit { s with
      host := ⟨s.host.sq.retransmitEvent.2, s.host.log, naks⟩
      toMcu := s.toMcu ++ blocksIn s.host.sq.retransmitEvent.1 } := by
  obtain ⟨hne, href⟩ := h.resend htimer naks
  exact ⟨[.resend], t.resend, (Run.nil t).snoc GoBackN.Step.resend, href, fun _ hmem => by simp at hmem,
    fun _ _ _ _ => Or.inr (List.append_ne_nil_of_right_ne_nil _ hne),
    fun _ hn => hn.of_same rfl rfl (List.suffix_refl _) (le_refl _)⟩

/-- A block that arrives is the first frame on the line. -/
theorem Linked.arrives (h : Linked first s t) {b : List UInt8} {rest : List (List UInt8)}
    (hline : s.toMcu = b :: rest) :
    ∃ p line, t.line = p :: line ∧ b = blockOf p ∧ rest = line.map blockOf ∧
      (b.getD 1 0 = s.console.nextSequence ↔ p.1 = t.expected) := by
  have hmap := h.refines.line
  rw [hline] at hmap
  obtain ⟨p, line, hcons, hp, hrest⟩ := List.map_eq_cons_iff.mp hmap.symm
  refine ⟨p, line, hcons, hp.symm, hrest.symm, ?_⟩
  rw [← hp, blockOf_seq, h.refines.expected, seqByte_inj]
  exact GoBackN.number_of_residue h.inv (by decide) hcons

theorem Linked.accept (h : Linked first s t) {b : List UInt8} {rest : List (List UInt8)} {c : Console}
    (hline : s.toMcu = b :: rest) (hidle : s.console.dispatching = none) (hc : s.console.checkSequence b = (c, false)) :
    Follows first s t .deliver { s with toMcu := rest, console := c } := by
  have hr := h.refines
  obtain ⟨p, line, hcons, hb, hrest, hseq⟩ := h.arrives hline
  have hbusy : s.console.busy = 0 := by
    unfold Console.busy
    rw [hidle]
    rfl
  unfold Console.checkSequence at hc
  simp only at hc
  split_ifs at hc with hne
  · cases hc
  · have hnumber : p.1 = t.expected := hseq.mp (not_not.mp hne)
    have hcontents : contentsOf b = payload p.2 := by
      rw [hb]
      exact contentsOf_frame _ _
    have hexp : ((b.getD 1 0 + 1) &&& messageSeqMask) ||| messageDest = seqByte (t.expected + 1) := by
      rw [not_not.mp hne, hr.expected, seqByte_succ]
    have ht : ({ t with line := line } : GoBackN.State _).receive p =
        { t with line := line, expected := t.expected + 1, taken := t.taken ++ [p.2] } := by
      unfold GoBackN.State.receive
      rw [if_pos hnumber]
    cases hc
    refine ⟨[.deliver], { t with line := line, expected := t.expected + 1, taken := t.taken ++ [p.2] }, ?_,
      ⟨hr.made, hr.base,
      hr.next, hrest, hexp, ?_, ?_, ?_⟩, fun _ hmem => by simp at hmem, (fun _ _ _ hnone => nomatch hnone),
      fun _ hn => hn.of_same rfl rfl (List.suffix_refl _) ?_⟩
    · rw [← ht]
      exact (Run.nil t).snoc (GoBackN.Step.deliver hcons)
    · -- what was answered before is not about this block
      refine hr.answers.imp fun block k hk => ⟨hk.1, hk.2.1, fun hlen => ?_⟩
      have := hk.2.2 hlen
      simp only [Console.busy, Option.isSome_some, if_true]
      omega
    · have hd := hr.dispatched
      rw [hbusy, Nat.sub_zero] at hd
      exact hd
    · have htaken := hr.taken
      rw [hidle, Option.toList_none, List.append_nil] at htaken
      simp only [Option.toList_some, List.map_append, List.map_cons, List.map_nil, htaken, hcontents]
    · simp only [Console.busy, Option.isSome_some, if_true]
      omega

theorem Linked.reject (h : Linked first s t) {b : List UInt8} {rest : List (List UInt8)} {c : Console}
    (hline : s.toMcu = b :: rest) (hidle : s.console.dispatching = none) (hc : s.console.checkSequence b = (c, true)) :
    Follows first s t .deliver { s with toMcu := rest, console := c, toHost := s.toHost ++ [c.reply []] } := by
  have hr := h.refines
  obtain ⟨p, line, hcons, hb, hrest, hseq⟩ := h.arrives hline
  unfold Console.checkSequence at hc
  simp only at hc
  split_ifs at hc with hne
  · cases hc
    have hnumber : p.1 ≠ t.expected := fun heq => hne (hseq.mpr heq)
    have ht : ({ t with line := line } : GoBackN.State _).receive p = { t with line := line } := by
      unfold GoBackN.State.receive
      rw [if_neg hnumber]
    have hstep : Steps t [.deliver] { t with line := line } := by
      rw [← ht]
      exact (Run.nil t).snoc (GoBackN.Step.deliver hcons)
    -- the microcontroller answers from where it was
    have hmid : Refines first { s with toMcu := rest } { t with line := line } :=
      ⟨hr.made, hr.base, hr.next, hrest, hr.expected, hr.answers, hr.dispatched, hr.taken⟩
    exact ⟨[.deliver] ++ [.answer], _, hstep.snoc GoBackN.Step.answer, hmid.answer fun _ => hidle,
      fun _ hmem => by simp at hmem, fun _ _ _ _ => Or.inl (GoBackN.told_answer _),
      fun _ hn => hn.of_same rfl rfl (List.suffix_refl _) (le_refl _)⟩
  · cases hc

theorem Linked.finish (h : Linked first s t) {p : List UInt8} (hbusy : s.console.dispatching = some p) (l : LinkEvent) :
    Follows first s t l (s.dispatchedTo p) := by
  have hr := h.refines
  have htaken := hr.taken
  rw [hbusy, Option.toList_some] at htaken
  have hmid : Refines first { s with console := ⟨s.console.nextSequence, none, s.console.dispatched ++ [p]⟩ } t := by
    refine ⟨hr.made, hr.base, hr.next, hr.line, hr.expected, ?_, ?_, by simpa using htaken⟩
    · refine hr.answers.imp fun block k hk => ⟨hk.1, hk.2.1, fun hlen => ?_⟩
      exact le_trans (Nat.le_add_right _ _) (hk.2.2 hlen)
    · have hzero : (⟨s.console.nextSequence, none, s.console.dispatched ++ [p]⟩ : Console).busy = 0 := rfl
      simp only [hzero, Nat.sub_zero]
      rw [htaken, h.inv.taken_eq, List.map_map]
      rfl
  exact ⟨[.answer], t.answer, (Run.nil t).snoc GoBackN.Step.answer, hmid.answer fun _ => rfl,
    fun _ hmem => by simp at hmem, fun _ _ _ _ => Or.inl (GoBackN.told_answer t),
    fun _ hn => hn.of_same rfl rfl (List.suffix_refl _) (Nat.sub_le_sub_left (Nat.zero_le _) _)⟩

theorem Linked.lose (h : Linked first s t) {blocks : List (List UInt8)} (hsub : blocks.Sublist s.toMcu) :
    Follows first s t .lose { s with toMcu := blocks } := by
  have hr := h.refines
  rw [hr.line] at hsub
  obtain ⟨line, hline, hblocks⟩ := List.sublist_map_iff.mp hsub
  exact ⟨[.lose], { t with line := line }, (Run.nil t).snoc (GoBackN.Step.lose hline),
    ⟨hr.made, hr.base, hr.next, hblocks,
    hr.expected, hr.answers, hr.dispatched, hr.taken⟩, fun hl => absurd rfl hl, fun hl => absurd rfl hl,
    fun _ hn => hn.of_same rfl rfl (List.suffix_refl _) (le_refl _)⟩

theorem Linked.loseReply (h : Linked first s t) {blocks : List (List UInt8)} (hsub : blocks.Sublist s.toHost) :
    Follows first s t .loseReply { s with toHost := blocks } := by
  have hr := h.refines
  obtain ⟨answers, hans, hrel⟩ := forall₂_sublist hr.answers hsub
  exact ⟨[.loseAnswer], { t with answers := answers }, (Run.nil t).snoc (GoBackN.Step.loseAnswer hans),
    ⟨hr.made, hr.base,
    hr.next, hr.line, hr.expected, hrel, hr.dispatched, hr.taken⟩, fun _ hmem => by simp at hmem,
      fun _ hl => absurd rfl hl,
    fun _ hn => hn.of_same rfl rfl (List.suffix_refl _) (le_refl _)⟩

/-- The notifications that `handle_message` finds. -/
theorem handleMessage_notify (sq : SerialQueue) (block : List UInt8)
    (h : ¬ (sq.sendSeq < sq.messageSeq block ∧ sq.receiveSeq ≠ 1)) :
    (sq.handleMessage block).notifyQueue =
        sq.notifyQueue.dropWhile (fun qm => qm.1 ≤ SerialQueue.wakeSeq (sq.messageSeq block) block) ∧
      (sq.handleMessage block).receiveQueue.filterMap Incoming.notifyId? =
        sq.receiveQueue.filterMap Incoming.notifyId? ++
          (sq.notifyQueue.takeWhile fun qm => qm.1 ≤ SerialQueue.wakeSeq (sq.messageSeq block) block).map Prod.snd := by
  have hprocess (sq' : SerialQueue) (hn : sq'.notifyQueue = sq.notifyQueue) (hr : sq'.receiveQueue = sq.receiveQueue) :
      ((sq'.wakeNotify (SerialQueue.wakeSeq (sq.messageSeq block) block)).processMessage (sq.messageSeq block)
          block).notifyQueue =
          sq.notifyQueue.dropWhile (fun qm => qm.1 ≤ SerialQueue.wakeSeq (sq.messageSeq block) block) ∧
        ((sq'.wakeNotify (SerialQueue.wakeSeq (sq.messageSeq block) block)).processMessage (sq.messageSeq block)
          block).receiveQueue.filterMap Incoming.notifyId? =
          sq.receiveQueue.filterMap Incoming.notifyId? ++
            (sq.notifyQueue.takeWhile fun qm => qm.1 ≤
              SerialQueue.wakeSeq (sq.messageSeq block) block).map Prod.snd := by
    unfold SerialQueue.processMessage SerialQueue.wakeNotify
    rw [← hn, ← hr]
    split_ifs <;> simp [List.filterMap_append, List.filterMap_map, Function.comp_def, Incoming.notifyId?]
  unfold SerialQueue.handleMessage
  simp only
  split_ifs
  · exact hprocess sq rfl rfl
  · exact hprocess (sq.updateReceiveSeq (sq.messageSeq block)) rfl rfl

/-- What `wake_seq` comes to: a number less, and another one for data. -/
theorem wakeSeq_le {k : ℕ} (block : List UInt8) (h : 2 ≤ k) :
    SerialQueue.wakeSeq k block ≤ k - 1 - if messageMin < block.length then 1 else 0 := by
  unfold SerialQueue.wakeSeq
  generalize hd : (if messageMin < block.length then 1 else 0) = d
  have hd1 : d ≤ 1 := by
    rw [← hd]
    split_ifs <;> omega
  have hsum : k + 2 ^ 64 - 1 - d = (k - 1 - d) + 2 ^ 64 := by omega
  rw [hsum, Nat.add_mod_right]
  exact Nat.mod_le _ _

theorem Linked.hear (h : Linked first s t) (hfirst : first < 1 + 16) {b : List UInt8} {rest : List (List UInt8)}
    (hreply : s.toHost = b :: rest) :
    Follows first s t .hear { s with host := { s.host with sq := s.host.sq.handleMessage b }, toHost := rest } := by
  have hr := h.refines
  have hrel := hr.answers
  rw [hreply] at hrel
  obtain ⟨k, answers, hk, hrest, hans⟩ := List.forall₂_cons_left_iff.mp hrel
  have hseq := h.messageSeq hfirst hans hk.1
  obtain ⟨hbk, -, hke⟩ := h.inv.answers_mem k (hans ▸ List.mem_cons_self)
  have hexp := h.inv.expected_le
  have hbase := hr.base
  have hnext := hr.next
  have hle := h.inv.sender.base_le_next
  -- the message is not refused
  obtain ⟨hlog, hrecv, hsend⟩ : True ∧ (s.host.sq.handleMessage b).receiveSeq = k ∧
      (s.host.sq.handleMessage b).sendSeq = max t.next k := by
    rcases handleMessage_cases s.host.sq b with ⟨-, hfar, hone⟩ | ⟨sq', hsq, hrecv', heq⟩
    · rcases hexp with hexp | ⟨hone', -⟩
      · omega
      · exact absurd (hbase.symm.trans hone') hone
    · obtain ⟨-, ⟨hsend', hrecv'', -, -⟩, -, -⟩ := processed sq' (SerialQueue.wakeSeq (s.host.sq.messageSeq b) b)
        (s.host.sq.messageSeq b) b
      rw [heq, hsend', hrecv'', hrecv', hseq]
      refine ⟨trivial, rfl, ?_⟩
      rcases hsq with ⟨rfl, hsame⟩ | ⟨rfl, hlt, -⟩
      · rw [max_eq_left (by omega)]
        exact hnext.symm
      · rw [(h.sound.update hlt).2, hseq, hnext]
  refine ⟨[.hear], _, (Run.nil t).snoc (GoBackN.Step.hear hans),
    ⟨hr.made, hrecv.symm, hsend.symm, hr.line, hr.expected, hrest,
    hr.dispatched, hr.taken⟩, fun _ hmem => by simp at hmem, fun _ _ hp hidle => ?_, fun htwo hn => ?_⟩
  · rcases hp hidle with htold | hline
    · exact Or.inl (htold.hear hans)
    · exact Or.inr hline
  · obtain ⟨came, hwanted, hsuffix, hcame⟩ := hn
    obtain ⟨hqueue, hreceive⟩ := handleMessage_notify s.host.sq b (by
      rintro ⟨hfar, hone⟩
      rcases hexp with hexp | ⟨hone', -⟩
      · omega
      · exact hone (hbase.symm.trans hone'))
    have hk2 : 2 ≤ k := le_trans htwo (h.inv.answers_mem k (hans ▸ List.mem_cons_self)).2.1
    have hwake := wakeSeq_le b hk2
    rw [← hseq] at hwake
    refine ⟨came ++ s.host.sq.notifyQueue.takeWhile fun qm =>
      qm.1 ≤ SerialQueue.wakeSeq (s.host.sq.messageSeq b) b, ?_, ?_, fun x hx hx1 => ?_⟩
    · rw [hqueue, List.append_assoc, List.takeWhile_append_dropWhile]
      exact hwanted
    · obtain ⟨front, hfront⟩ := hsuffix
      exact ⟨front, by rw [hreceive, List.map_append, ← hfront, List.append_assoc]⟩
    · rcases List.mem_append.mp hx with hx | hx
      · exact hcame x hx hx1
      · -- an answer without contents is sent when all blocks before its number were dispatched
        have hle := List.mem_takeWhile_imp hx
        rw [decide_eq_true_iff] at hle
        have h5 : messageMin = 5 := rfl
        have hmin := hk.2.1
        have hbusy : s.console.busy ≤ 1 := by
          unfold Console.busy
          split_ifs <;> omega
        change x.1 < t.expected - s.console.busy
        rw [hseq] at hle hwake
        split_ifs at hwake with hdata
        · omega
        · have := hk.2.2 (by omega)
          omega

/-- **Every step of the link** is one of the sender and the receiver. -/
theorem Linked.step (h : Linked first s t) (hfirst : first < 1 + 16) {l : LinkEvent} (hs : LinkStep s l s') :
    Follows first s t l s' ∧ Sound s'.host := by
  cases hs with
  | send cq msgs =>
    obtain ⟨⟨-, hsend, hrecv, -⟩, hnotify, hreceive⟩ := sameLink_sendBatch s.host.sq cq msgs
    exact ⟨h.host _ rfl hrecv hsend hnotify (by rw [hreceive]), h.sound.step (HostStep.send cq msgs)⟩
  | wait hround =>
    obtain ⟨hw, -⟩ := commandRound_wait h.sound.queued hround
    obtain ⟨-, hsend, hrecv, -⟩ := hw.link
    exact ⟨h.host _ rfl hrecv hsend hw.notify (by rw [hw.received]), h.sound.step (HostStep.wait hround)⟩
  | block hround => exact ⟨h.block hround, h.sound.command hround⟩
  | retransmit htimer => exact ⟨h.retransmit htimer, h.sound.step (HostStep.retransmit htimer)⟩
  | pull =>
    obtain ⟨-, ⟨-, hsend, hrecv, -⟩, hnotify, hreceive⟩ := same_pull s.host.sq
    exact ⟨h.host _ rfl hrecv hsend hnotify (hreceive.filterMap _), h.sound.step HostStep.pull⟩
  | setReceiveWindow w => exact ⟨h.host _ rfl rfl rfl rfl (List.suffix_refl _),
      h.sound.step (HostStep.setReceiveWindow w)⟩
  | accept hline hidle hc => exact ⟨h.accept hline hidle hc, h.sound⟩
  | reject hline hidle hc => exact ⟨h.reject hline hidle hc, h.sound⟩
  | finish hbusy => exact ⟨h.finish hbusy _, h.sound⟩
  | cutOff hbusy => exact ⟨h.finish hbusy _, h.sound⟩
  | respond payload hp => exact ⟨h.answer _ fun hnil => absurd hnil hp, h.sound⟩
  | nak hidle => exact ⟨h.answer _ fun _ => hidle, h.sound⟩
  | hear hreply => exact ⟨h.hear hfirst hreply, h.sound.handleMessage _⟩
  | lose hsub => exact ⟨h.lose hsub, h.sound⟩
  | loseReply hsub => exact ⟨h.loseReply hsub, h.sound⟩

end Refinement

/-! ## Whole runs -/

section Runs

open SerialQueue (payload)

variable {b : UInt8} {s s' : SerialLink} {ls ks : List LinkEvent} {t : GoBackN.State (List (ℕ × QueueMessage))}

/-- What was queued on a command queue. -/
def queued (q : ℕ) (ls : List LinkEvent) : List QueueMessage :=
  ls.flatMap fun
    | .send cq msgs => if cq = q then SerialQueue.batch msgs else []
    | _ => []

theorem host_of_run (h : Run LinkStep (SerialLink.start b) ls s) :
    ∃ es, Run HostStep Host.alloc es s.host ∧ ∀ q, submitted q es = queued q ls := by
  refine h.history (I := fun ls s => ∃ es, Run HostStep Host.alloc es s.host ∧ ∀ q, submitted q es = queued q ls)
    ⟨[], Run.nil _, fun _ => rfl⟩ fun ls s l s' hex hstep => ?_
  obtain ⟨es, hrun, hsub⟩ := hex
  -- a step of the host, or none
  have hsnoc {e : HostEvent} (hs : HostStep s.host e s'.host) (he : ∀ q, submitted q [e] = queued q [l]) :
      ∃ es, Run HostStep Host.alloc es s'.host ∧ ∀ q, submitted q es = queued q (ls ++ [l]) := by
    refine ⟨es ++ [e], hrun.snoc hs, fun q => ?_⟩
    have h1 : submitted q (es ++ [e]) = submitted q es ++ submitted q [e] := List.flatMap_append
    have h2 : queued q (ls ++ [l]) = queued q ls ++ queued q [l] := List.flatMap_append
    rw [h1, h2, hsub, he]
  have hsame (hh : s'.host = s.host) (hl : ∀ q, queued q [l] = []) :
      ∃ es, Run HostStep Host.alloc es s'.host ∧ ∀ q, submitted q es = queued q (ls ++ [l]) := by
    refine ⟨es, hh ▸ hrun, fun q => ?_⟩
    have h2 : queued q (ls ++ [l]) = queued q ls ++ queued q [l] := List.flatMap_append
    rw [h2, hl, List.append_nil, hsub]
  cases hstep with
  | send cq msgs => exact hsnoc (HostStep.send cq msgs) fun _ => rfl
  | wait hround => exact hsnoc (HostStep.wait hround) fun _ => rfl
  | block hround => exact hsnoc (HostStep.block hround) fun _ => rfl
  | retransmit htimer => exact hsnoc (HostStep.retransmit htimer) fun _ => rfl
  | pull => exact hsnoc HostStep.pull fun _ => rfl
  | setReceiveWindow w => exact hsnoc (HostStep.setReceiveWindow w) fun _ => rfl
  | @hear block _ hreply => exact hsnoc (HostStep.message block) fun _ => rfl
  | accept => exact hsame rfl fun _ => rfl
  | reject => exact hsame rfl fun _ => rfl
  | finish => exact hsame rfl fun _ => rfl
  | cutOff => exact hsame rfl fun _ => rfl
  | respond => exact hsame rfl fun _ => rfl
  | nak => exact hsame rfl fun _ => rfl
  | lose => exact hsame rfl fun _ => rfl
  | loseReply => exact hsame rfl fun _ => rfl

theorem firstSeq_lt (h : b &&& ~~~messageSeqMask = messageDest) : firstSeq b < 1 + 16 := by
  have := (seqByte_firstSeq h).2.2
  omega

/-- The steps after which the two sides are linked. -/
theorem Linked.next (h : Linked (firstSeq b) s t) (hb : b &&& ~~~messageSeqMask = messageDest) {l : LinkEvent}
    (hs : LinkStep s l s') : ∃ ks t', Steps t ks t' ∧ Linked (firstSeq b) s' t' ∧
      (l ≠ .lose → GoBackN.Label.lose ∉ ks) ∧ (l ≠ .lose → l ≠ .loseReply → Pending s t → Pending s' t') ∧
      (2 ≤ firstSeq b → Notified (firstSeq b) s t → Notified (firstSeq b) s' t') := by
  obtain ⟨⟨ks, t', hsteps, href, hrest⟩, hsound⟩ := h.step (firstSeq_lt hb) hs
  have hinv := hsteps.invariant h.inv fun _ _ _ hi hst => hi.step (by decide) (firstSeq_lt hb) hst
  exact ⟨ks, t', hsteps, ⟨hsound, hinv, href⟩, hrest⟩

/-- **Along every run** the two sides are a sender and a receiver. -/
theorem linked_of_run (hb : b &&& ~~~messageSeqMask = messageDest) (h : Run LinkStep (SerialLink.start b) ls s) :
    ∃ t, Linked (firstSeq b) s t ∧ (2 ≤ firstSeq b → Notified (firstSeq b) s t) := by
  refine h.invariant (I := fun s => ∃ t, Linked (firstSeq b) s t ∧ (2 ≤ firstSeq b → Notified (firstSeq b) s t))
    ⟨_, linked_start hb, fun _ => ⟨[], rfl, List.suffix_refl _, fun _ hx => absurd hx List.not_mem_nil⟩⟩
    fun s l s' hex hs => ?_
  obtain ⟨t, ht, hn⟩ := hex
  obtain ⟨ks, t', -, hlinked, -, -, hnotified⟩ := ht.next hb hs
  exact ⟨t', hlinked, fun htwo => hnotified htwo (hn htwo)⟩

/-- The blocks that were made, by what became of them. -/
theorem taken_of_run (hb : b &&& ~~~messageSeqMask = messageDest) (h : Run LinkStep (SerialLink.start b) ls s) :
    ∃ before done after, s.host.log = before ++ done ++ after ∧
      (∀ x ∈ before, x.1 < firstSeq b) ∧
      s.console.dispatched ++ s.console.dispatching.toList = done.map (fun x => payload x.2) ∧
      ∀ x ∈ after, blockOf x ∈ s.host.sq.sentQueue := by
  obtain ⟨t, ht, -⟩ := linked_of_run hb h
  obtain ⟨before, done, after, hmade, htaken, hbefore, hafter⟩ := GoBackN.made_eq ht.inv
  have hr := ht.refines
  rw [hr.made] at hmade
  refine ⟨before, done, after, hmade, hbefore, ?_, fun x hx => ?_⟩
  · rw [hr.taken, htaken, List.map_map]
    rfl
  · rw [ht.sound.sent]
    refine List.mem_map_of_mem (List.mem_filter.mpr ⟨?_, ?_⟩)
    · rw [hmade]
      exact List.mem_append_right _ hx
    · rw [decide_eq_true_iff, ← hr.base]
      exact hafter x hx

/-- The messages of a command queue are in the blocks, or they wait, in the order in which they were queued. -/
theorem queued_of_run (h : Run LinkStep (SerialLink.start b) ls s) (q : ℕ) :
    ofQueue q (s.host.log.flatMap Prod.snd) ++ (s.host.sq.queues q).contents = queued q ls := by
  obtain ⟨es, hes, hsub⟩ := host_of_run h
  rw [(ordered_of_run hes).contents q, hsub]

/-- **In order, each once, without a gap**, whatever is lost, sent again or answered: the blocks that were made are
those that have a number before the one that the microcontroller expected at first, then those that were dispatched,
the last of them possibly not to its end, then those that were not, which the host keeps.  So the messages of any
command queue are dispatched in the order in which they were queued. -/
theorem dispatched_in_order (hb : b &&& ~~~messageSeqMask = messageDest) (h : Run LinkStep (SerialLink.start b) ls s) :
    ∃ before done after, s.host.log = before ++ done ++ after ∧
      (∀ x ∈ before, x.1 < firstSeq b) ∧
      s.console.dispatched ++ s.console.dispatching.toList = done.map (fun x => payload x.2) ∧
      (∀ x ∈ after, blockOf x ∈ s.host.sq.sentQueue) ∧
      ∀ q, ofQueue q (before.flatMap Prod.snd) ++ ofQueue q (done.flatMap Prod.snd) ++
        (ofQueue q (after.flatMap Prod.snd) ++ (s.host.sq.queues q).contents) = queued q ls := by
  obtain ⟨before, done, after, hmade, hbefore, htaken, hafter⟩ := taken_of_run hb h
  refine ⟨before, done, after, hmade, hbefore, htaken, hafter, fun q => ?_⟩
  have horder := queued_of_run h q
  rw [hmade, List.flatMap_append, List.flatMap_append, ofQueue_append, ofQueue_append] at horder
  rw [← horder, List.append_assoc, List.append_assoc, List.append_assoc]

/-- **A notification comes after the block was dispatched**: those that are wanted for the messages of the blocks come
in order, and one that came for a block from the first that the microcontroller expected on is for a block whose
dispatch has ended, as that of all before it (at its end, or cut off by a shutdown).  Only where the microcontroller
expects the number 1 at first, a message other than an acknowledgement sets `wake_seq` to the largest number there
is. -/
theorem notified_after_dispatch (hb : b &&& ~~~messageSeqMask = messageDest) (hone : b ≠ 0x11)
    (h : Run LinkStep (SerialLink.start b) ls s) :
    ∃ came, wanted s.host.log = came ++ s.host.sq.notifyQueue ∧
      s.host.sq.receiveQueue.filterMap Incoming.notifyId? <:+ came.map Prod.snd ∧
      ∀ x ∈ came, firstSeq b ≤ x.1 →
        (s.host.log.filter fun y => firstSeq b ≤ y.1 ∧ y.1 < x.1 + 1).map (fun y => payload y.2) <+:
          s.console.dispatched := by
  obtain ⟨t, ht, hn⟩ := linked_of_run hb h
  have hfirst : ∀ b : UInt8, b &&& ~~~messageSeqMask = messageDest → b ≠ 0x11 → 2 ≤ firstSeq b :=
    CString.forall_uint8 (by decide +kernel)
  have htwo := hfirst b hb hone
  obtain ⟨came, hwanted, hsuffix, hcame⟩ := hn htwo
  refine ⟨came, hwanted, hsuffix, fun x hx hx1 => ?_⟩
  rw [ht.refines.dispatched, ← ht.refines.made]
  exact (GoBackN.filter_and_mono ht.inv.sender.made_sorted _ (hcame x hx hx1)).map _

/-- **Everything goes through** in the end: from any state, when the blocks are sent again and nothing more is lost, in
whatever order the rest happens, then everything that was made for the microcontroller was dispatched and is
acknowledged once nothing is on its way and nothing is being dispatched. -/
theorem everything_dispatched (hb : b &&& ~~~messageSeqMask = messageDest) {s₁ s₂ : SerialLink}
    (h : Run LinkStep (SerialLink.start b) ls s) (hsent : LinkStep s .retransmit s₁) (hrest : Run LinkStep s₁ ks s₂)
    (hlose : ∀ l ∈ ks, l ≠ .lose ∧ l ≠ .loseReply) (hmcu : s₂.toMcu = []) (hhost : s₂.toHost = [])
    (hidle : s₂.console.dispatching = none) :
    s₂.host.sq.sentQueue = [] ∧
      s₂.console.dispatched = (s₂.host.log.filter fun x => firstSeq b ≤ x.1).map fun x => payload x.2 := by
  obtain ⟨t, ht, -⟩ := linked_of_run hb h
  -- the blocks are on the line, behind whatever was there
  have hstart : ∃ t₁, Linked (firstSeq b) s₁ t₁ ∧ GoBackN.Complete t₁ ∧ Pending s₁ t₁ := by
    cases hsent with
    | retransmit htimer =>
      obtain ⟨hne, href⟩ := ht.resend htimer _
      exact ⟨t.resend, ⟨ht.sound.step (HostStep.retransmit htimer), ht.inv.resend (by decide) (firstSeq_lt hb), href⟩,
        GoBackN.complete_resend ht.inv, fun _ => Or.inr (List.append_ne_nil_of_right_ne_nil _ hne)⟩
  obtain ⟨t₂, ht₂, hcomplete, hpending⟩ := (hrest.guarded hlose).invariant
    (I := fun s => ∃ t, Linked (firstSeq b) s t ∧ GoBackN.Complete t ∧ Pending s t) hstart fun s l s' hex hs => by
      obtain ⟨t, ht, hcomplete, hpending⟩ := hex
      obtain ⟨ks, t', hsteps, hlinked, hkeep, hpend, -⟩ := ht.next hb hs.1
      have hboth := (hsteps.guarded (P := (· ≠ .lose)) fun l hl heq => hkeep hs.2.1 (heq ▸ hl)).invariant
        (I := fun t => GoBackN.Inv 12 16 1 (firstSeq b) t ∧ GoBackN.Complete t) ⟨ht.inv, hcomplete⟩
        fun _ _ _ hi hst => ⟨hi.1.step (by decide) (firstSeq_lt hb) hst.1, hi.2.step hi.1 hst.1 hst.2⟩
      exact ⟨t', hlinked, hboth.2, hpend hs.2.1 hs.2.2 hpending⟩
  have hr := ht₂.refines
  have hline : t₂.line = [] := List.map_eq_nil_iff.mp (hr.line.symm.trans hmcu)
  have hanswers : t₂.answers = [] := by
    have hrel := hr.answers
    rw [hhost] at hrel
    exact List.forall₂_nil_left_iff.mp hrel
  have htold : GoBackN.Told t₂ := (hpending hidle).resolve_right fun hne => hne hline
  obtain ⟨hbase, htaken⟩ := GoBackN.settled ht₂.inv hcomplete htold hline hanswers
  constructor
  · have hlen := ht₂.sound.sent_length
    rw [← hr.base, ← hr.next, hbase, Nat.sub_self] at hlen
    exact List.length_eq_zero_iff.mp hlen
  · have hall := hr.taken
    rw [hidle, Option.toList_none, List.append_nil, htaken, hr.made, List.map_map] at hall
    exact hall

/-- A first block has a number that is not expected; the second one is lost on its first way. -/
def lossyEvents : List LinkEvent :=
  [.send 7 [⟨[5], 0, 0, 3⟩], .command ⟨0, 0, none⟩, .deliver, .hear, .send 7 [⟨[6], 0, 0, 4⟩],
    .command ⟨0, 0, none⟩, .lose]

theorem run_lossyEvents : ∃ s s₁ s₂, Run LinkStep (SerialLink.start 0x10) lossyEvents s ∧ LinkStep s .retransmit s₁ ∧
    Run LinkStep s₁ [.deliver, .finish, .hear] s₂ ∧ s₂.toMcu = [] ∧ s₂.toHost = [] ∧ s₂.console.dispatching = none ∧
    s₂.console.dispatched = [[6]] ∧ wanted s₂.host.log = [(1, 3), (16, 4)] ∧ s₂.host.sq.notifyQueue = [] := by
  have h1 := (Run.nil (R := LinkStep) (SerialLink.start 0x10)).snoc (LinkStep.send 7 [⟨[5], 0, 0, 3⟩])
  have h2 := h1.snoc (@LinkStep.block _ _ ⟨0, 0, none⟩ _ _ rfl)
  have h3 := h2.snoc (@LinkStep.reject _ _ _ _ rfl rfl rfl)
  have h4 := h3.snoc (@LinkStep.hear _ _ _ rfl)
  have h5 := h4.snoc (LinkStep.send 7 [⟨[6], 0, 0, 4⟩])
  have h6 := h5.snoc (@LinkStep.block _ _ ⟨0, 0, none⟩ _ _ rfl)
  have h7 := h6.snoc (@LinkStep.lose _ [] (List.nil_sublist _))
  have h8 := h7.snoc (LinkStep.retransmit (by decide))
  have h9 := h8.snoc (@LinkStep.accept _ _ _ _ rfl rfl rfl)
  have h10 := h9.snoc (@LinkStep.finish _ _ rfl)
  have h11 := h10.snoc (@LinkStep.hear _ _ _ rfl)
  have hall : Run LinkStep (SerialLink.start 0x10) ((lossyEvents ++ [.retransmit]) ++ [.deliver, .finish, .hear])
    _ := h11
  obtain ⟨s₁, hfirst, hrest⟩ := hall.split
  obtain ⟨s, hs, hre⟩ := hfirst.last
  exact ⟨s, s₁, _, hs, hre, hrest, rfl, rfl, rfl, rfl, rfl, rfl⟩

theorem dispatched_in_order_concreteCase : ∃ s, Run LinkStep (SerialLink.start 0x10)
      ((lossyEvents ++ [.retransmit]) ++ [.deliver, .finish, .hear]) s ∧
    ∃ before done after, s.host.log = before ++ done ++ after ∧ (∀ x ∈ before, x.1 < firstSeq 0x10) ∧
      [[6]] = done.map (fun x => payload x.2) ∧ after.map blockOf ⊆ s.host.sq.sentQueue := by
  obtain ⟨s, s₁, s₂, hs, hre, hrest, -, -, hidle, hdone, -⟩ := run_lossyEvents
  have hrun := (hs.snoc hre).append hrest
  obtain ⟨before, done, after, hlog, hbefore, htaken, hafter, -⟩ := dispatched_in_order (by decide) hrun
  rw [hidle, hdone] at htaken
  refine ⟨s₂, hrun, before, done, after, hlog, hbefore, htaken, fun block hblock => ?_⟩
  obtain ⟨x, hx, rfl⟩ := List.mem_map.mp hblock
  exact hafter x hx

theorem notified_after_dispatch_concreteCase : ∃ s : SerialLink, s.console.dispatched = [[6]] ∧
    (s.host.log.filter fun y => firstSeq 0x10 ≤ y.1 ∧ y.1 < 16 + 1).map
    (fun y => payload y.2) <+: s.console.dispatched := by
  obtain ⟨s, s₁, s₂, hs, hre, hrest, -, -, -, hdone, hwanted, hqueue⟩ := run_lossyEvents
  obtain ⟨came, hcame, -, hprefix⟩ := notified_after_dispatch (by decide) (by decide) ((hs.snoc hre).append hrest)
  rw [hwanted, hqueue, List.append_nil] at hcame
  exact ⟨s₂, hdone, hprefix (16, 4) (hcame ▸ by simp) (by decide)⟩

theorem everything_dispatched_concreteCase : ∃ s : SerialLink, s.console.dispatched = [[6]] ∧
    s.host.sq.sentQueue = [] := by
  obtain ⟨s, s₁, s₂, hs, hre, hrest, hmcu, hhost, hidle, hdone, -⟩ := run_lossyEvents
  exact ⟨s₂, hdone, (everything_dispatched (by decide) hs hre hrest (by simp) hmcu hhost hidle).1⟩

end Runs

end Cxsw.Link
