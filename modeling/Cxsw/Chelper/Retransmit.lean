import Cxsw.Lib.GoBackN
import Cxsw.Chelper.CommandQueues

/-!
# Cxsw.Chelper.Retransmit — blocks that wait for an acknowledgement (`klippy/chelper/serialqueue.c`)

The host is looked at alone: any well formed message may come from the other side at any time.

* `Sound`: `sent_queue` has the blocks from `receive_seq` to `send_seq`, and what is said of them is right.
* `unacked_bounded`: never more than twelve, in a buffer that is large enough.
* `naks_bounded`: no block is sent again more than twice because of naks.
-/

namespace Cxsw.Link

/-! ## Blocks by their numbers -/

section Blocks

/-- The block with a number and its messages. -/
def blockOf (b : ℕ × List (ℕ × QueueMessage)) : List UInt8 :=
  frame (SerialQueue.seqByte b.1) (SerialQueue.payload b.2)

/-- The bytes of blocks. -/
def sizeOfBlocks (blocks : List (List UInt8)) : ℕ := (blocks.map List.length).sum

/-- **The loop of `update_receive_seq`**: it takes the blocks below `rseq`, as far as there are any. -/
theorem removeSent_eq (rseq sentSeq : ℕ) (sentQueue : List (List UInt8)) (needAckBytes : ℤ) (h : sentSeq < rseq) :
    SerialQueue.removeSent rseq sentSeq sentQueue needAckBytes =
      (sentQueue[rseq - sentSeq - 1]?.map List.length, sentQueue.drop (rseq - sentSeq),
        needAckBytes - sizeOfBlocks (sentQueue.take (rseq - sentSeq))) := by
  induction sentQueue generalizing sentSeq needAckBytes with
  | nil => simp [SerialQueue.removeSent, sizeOfBlocks]
  | cons sent sentQueue ih =>
    obtain ⟨d, hd⟩ : ∃ d, rseq - sentSeq = d + 1 := ⟨rseq - sentSeq - 1, by omega⟩
    rw [SerialQueue.removeSent, hd]
    by_cases hr : rseq = sentSeq + 1
    · have hd0 : d = 0 := by omega
      rw [if_pos hr, hd0]
      simp [sizeOfBlocks]
    · have hnext : rseq - (sentSeq + 1) = d := by omega
      have hindex : d - 1 + 1 = d := by omega
      rw [if_neg hr, ih (sentSeq + 1) _ (by omega), hnext]
      refine Prod.ext ?_ (Prod.ext rfl ?_)
      · simp only [Nat.add_sub_cancel]
        rw [← hindex, List.getElem?_cons_succ, Nat.add_sub_cancel]
      · simp only [sizeOfBlocks, List.take_succ_cons, List.map_cons, List.sum_cons]
        push_cast
        omega

end Blocks

/-! ## The invariant of the host -/

section Sounds

/-- What the host keeps, whatever it receives. -/
structure Sound (s : Host) : Prop where
  queued : Queued s.sq
  sender : GoBackN.Sender 12 s.log s.sq.receiveSeq s.sq.sendSeq
  receive_pos : 1 ≤ s.sq.receiveSeq
  size : ∀ b ∈ s.log, (SerialQueue.payload b.2).length ≤ 59
  sent : s.sq.sentQueue = (s.log.filter fun b => s.sq.receiveSeq ≤ b.1).map blockOf
  need : s.sq.needAckBytes = sizeOfBlocks s.sq.sentQueue
  last : 0 ≤ s.sq.lastAckBytes ∧ s.sq.lastAckBytes ≤ 64
  timer : s.sq.retransmitTimer = .never ↔ s.sq.sentQueue = []

variable {s s' : Host} {sq sq' : SerialQueue} {e : HostEvent} {es : List HostEvent} {block : List UInt8} {rseq : ℕ}

theorem sound_alloc : Sound Host.alloc :=
  ⟨ordered_alloc.queued, GoBackN.sender_start 1, le_refl _, fun _ h => absurd h List.not_mem_nil, rfl, rfl,
    ⟨le_refl _, by decide⟩, ⟨fun _ => rfl, fun _ => rfl⟩⟩

theorem Sound.sent_length (h : Sound s) : s.sq.sentQueue.length = s.sq.sendSeq - s.sq.receiveSeq := by
  have hlen := congrArg List.length h.sender.unacked_range
  rw [h.sent, List.length_map]
  simpa using hlen

theorem Sound.block_length (h : Sound s) : ∀ b ∈ s.sq.sentQueue, b.length ≤ 64 := by
  intro b hb
  rw [h.sent] at hb
  obtain ⟨p, hp, rfl⟩ := List.mem_map.mp hb
  have hsize := h.size p (List.mem_of_mem_filter hp)
  unfold blockOf
  rw [frame_length]
  omega

/-- The number that `handle_message` finds is not behind. -/
theorem receiveSeq_le_messageSeq (sq : SerialQueue) (block : List UInt8) : sq.receiveSeq ≤ sq.messageSeq block := by
  unfold SerialQueue.messageSeq
  simp only
  split_ifs <;> omega

/-- **`update_receive_seq`** for a number that is ahead. -/
theorem Sound.update (h : Sound s) (hr : s.sq.receiveSeq < rseq) :
    Sound { s with sq := s.sq.updateReceiveSeq rseq } ∧
      (s.sq.updateReceiveSeq rseq).sendSeq = max s.sq.sendSeq rseq := by
  have hremove := removeSent_eq rseq s.sq.receiveSeq s.sq.sentQueue s.sq.needAckBytes hr
  have hlen := h.sent_length
  have hbase := h.sender.base_le_next
  have hsend : (s.sq.updateReceiveSeq rseq).sendSeq = max s.sq.sendSeq rseq := by
    unfold SerialQueue.updateReceiveSeq
    simp only [hremove]
    -- the last block that is removed is there if enough blocks were sent
    by_cases hfar : s.sq.sendSeq < rseq
    · have hnone : s.sq.sentQueue[rseq - s.sq.receiveSeq - 1]? = none := List.getElem?_eq_none (by omega)
      rw [hnone, Option.map_none, if_pos rfl, max_eq_right hfar.le]
    · have hsome : s.sq.sentQueue[rseq - s.sq.receiveSeq - 1]? ≠ none := by
        rw [Ne, List.getElem?_eq_none_iff]
        omega
      rw [if_neg (by rw [Option.map_eq_none_iff]; exact hsome), max_eq_left (not_lt.mp hfar)]
  refine ⟨⟨?_, ?_, ?_, h.size, ?_, ?_, ?_, ?_⟩, hsend⟩
  · exact h.queued.of_same ⟨rfl, rfl, rfl, rfl⟩
  · have hhear := h.sender.hear hr.le
    rw [← hsend] at hhear
    exact hhear
  · exact le_trans h.receive_pos hr.le
  · change (SerialQueue.removeSent rseq s.sq.receiveSeq s.sq.sentQueue s.sq.needAckBytes).2.1 =
      (s.log.filter fun b => rseq ≤ b.1).map blockOf
    rw [hremove, h.sender.unacked_hear hr.le, List.map_drop, ← h.sent]
  · have hsplit : sizeOfBlocks (s.sq.sentQueue.take (rseq - s.sq.receiveSeq)) +
        sizeOfBlocks (s.sq.sentQueue.drop (rseq - s.sq.receiveSeq)) = sizeOfBlocks s.sq.sentQueue := by
      unfold sizeOfBlocks
      rw [← List.sum_append, ← List.map_append, List.take_append_drop]
    have hneed := h.need
    unfold SerialQueue.updateReceiveSeq
    simp only [hremove]
    omega
  · unfold SerialQueue.updateReceiveSeq
    simp only [hremove]
    cases hget : s.sq.sentQueue[rseq - s.sq.receiveSeq - 1]? with
    | none => exact h.last
    | some b =>
      have := h.block_length b (List.mem_of_getElem? hget)
      simp only [Option.map_some, Option.elim_some]
      omega
  · unfold SerialQueue.updateReceiveSeq
    simp only
    split_ifs with hnil
    · exact ⟨fun _ => hnil, fun _ => rfl⟩
    · exact ⟨(fun h => nomatch h), fun h => absurd h hnil⟩

/-- What `handle_message` does: nothing, or its last part, possibly after `update_receive_seq`. -/
theorem handleMessage_cases (sq : SerialQueue) (block : List UInt8) :
    (sq.handleMessage block = sq ∧ sq.sendSeq < sq.messageSeq block ∧ sq.receiveSeq ≠ 1) ∨
      ∃ sq', (sq' = sq ∧ sq.messageSeq block = sq.receiveSeq ∨
          sq' = sq.updateReceiveSeq (sq.messageSeq block) ∧ sq.receiveSeq < sq.messageSeq block ∧
            (sq.messageSeq block ≤ sq.sendSeq ∨ sq.receiveSeq = 1)) ∧
        sq'.receiveSeq = sq.messageSeq block ∧
        sq.handleMessage block =
          (sq'.wakeNotify (SerialQueue.wakeSeq (sq.messageSeq block) block)).processMessage (sq.messageSeq
            block) block := by
  have hle := receiveSeq_le_messageSeq sq block
  unfold SerialQueue.handleMessage
  simp only
  split_ifs with hsame hfar
  · exact Or.inr ⟨sq, Or.inl ⟨rfl, hsame⟩, hsame.symm, rfl⟩
  · exact Or.inl ⟨rfl, hfar⟩
  · refine Or.inr ⟨sq.updateReceiveSeq (sq.messageSeq block), Or.inr ⟨rfl, by omega, ?_⟩, rfl, rfl⟩
    by_contra hno
    push Not at hno
    exact hfar hno

/-- The last part of `handle_message`. -/
structure Processed (sq sq' : SerialQueue) (rseq : ℕ) : Prop where
  same : SameQueues sq sq'
  numbers : sq'.sendSeq = sq.sendSeq ∧ sq'.receiveSeq = sq.receiveSeq ∧ sq'.ignoreNakSeq = sq.ignoreNakSeq ∧
    sq'.retransmitSeq = sq.retransmitSeq
  sent : sq'.sentQueue = sq.sentQueue ∧ sq'.needAckBytes = sq.needAckBytes ∧ sq'.lastAckBytes = sq.lastAckBytes
  timer : sq'.retransmitTimer = sq.retransmitTimer ∨
    (sq'.retransmitTimer = .now ∧ sq.ignoreNakSeq < rseq ∧ sq.sentQueue ≠ [])

theorem processed (sq : SerialQueue) (wake rseq : ℕ) (block : List UInt8) :
    Processed sq ((sq.wakeNotify wake).processMessage rseq block) rseq := by
  unfold SerialQueue.processMessage
  split_ifs with hmin hack hnak
  · exact ⟨⟨rfl, rfl, rfl, rfl⟩, ⟨rfl, rfl, rfl, rfl⟩, ⟨rfl, rfl, rfl⟩, Or.inl rfl⟩
  · exact ⟨⟨rfl, rfl, rfl, rfl⟩, ⟨rfl, rfl, rfl, rfl⟩, ⟨rfl, rfl, rfl⟩, Or.inr ⟨rfl, hnak.1, hnak.2⟩⟩
  · exact ⟨⟨rfl, rfl, rfl, rfl⟩, ⟨rfl, rfl, rfl, rfl⟩, ⟨rfl, rfl, rfl⟩, Or.inl rfl⟩
  · exact ⟨⟨rfl, rfl, rfl, rfl⟩, ⟨rfl, rfl, rfl, rfl⟩, ⟨rfl, rfl, rfl⟩, Or.inl rfl⟩

theorem Sound.process (h : Sound s) (hp : Processed s.sq sq' rseq) : Sound { s with sq := sq' } := by
  obtain ⟨hsend, hrecv, -, -⟩ := hp.numbers
  obtain ⟨hsent, hneed, hlast⟩ := hp.sent
  refine ⟨h.queued.of_same hp.same, ?_, ?_, h.size, ?_, ?_, ?_, ?_⟩
  · simp only [hsend, hrecv]
    exact h.sender
  · simp only [hrecv]
    exact h.receive_pos
  · simp only [hsent, hrecv]
    exact h.sent
  · simp only [hsent, hneed]
    exact h.need
  · simp only [hlast]
    exact h.last
  · simp only [hsent]
    rcases hp.timer with ht | ⟨ht, -, hne⟩
    · rw [ht]
      exact h.timer
    · rw [ht]
      exact ⟨(fun h => nomatch h), fun h => absurd h hne⟩

/-- **Any message.** -/
theorem Sound.handleMessage (h : Sound s) (block : List UInt8) : Sound { s with sq := s.sq.handleMessage block } := by
  rcases handleMessage_cases s.sq block with ⟨hnone, -⟩ | ⟨sq', hsq, -, heq⟩
  · rw [hnone]
    exact h
  · have hsound : Sound { s with sq := sq' } := by
      rcases hsq with ⟨rfl, -⟩ | ⟨rfl, hlt, -⟩
      · exact h
      · exact (h.update hlt).1
    rw [heq]
    exact hsound.process (processed sq' _ _ block)

theorem Sound.command {clocks : SerialQueue.Clocks} (h : Sound s) {out : List UInt8} {qms : List (ℕ × QueueMessage)}
    (hround : s.sq.commandRound clocks = some (sq', some (out, qms))) :
    Sound ⟨sq', s.log ++ [(s.sq.sendSeq, qms)], s.naks⟩ := by
  obtain ⟨hwait, hout, hsize, mid, built, hw, htaken, rfl⟩ := commandRound_block h.queued hround
  obtain ⟨-, hsend, hrecv, -, -, -, hsent, htimer, hneed, hlast⟩ := hw.link.trans htaken.link
  have hroom : s.sq.sendSeq < s.sq.receiveSeq + 12 := by
    by_contra hfull
    have htrue : s.sq.mustWait = true := by
      unfold SerialQueue.mustWait
      rw [decide_eq_true_iff]
      exact Or.inr (Or.inl (not_lt.mp hfull))
    rw [hwait] at htrue
    cases htrue
  have hsender := h.sender.send hroom qms
  have hbase := h.sender.base_le_next
  refine ⟨htaken.queued.of_same ⟨rfl, rfl, rfl, rfl⟩, ?_, ?_, ?_, ?_, ?_, ?_, ?_⟩
  · simp only [SerialQueue.storeBlock, hsend, hrecv]
    exact hsender
  · simp only [SerialQueue.storeBlock, hrecv]
    exact h.receive_pos
  · intro b hb
    rcases List.mem_append.mp hb with hb | hb
    · exact h.size b hb
    · rw [List.mem_singleton.mp hb]
      exact hsize
  · simp only [SerialQueue.storeBlock, hrecv, hsent]
    rw [List.filter_append, List.map_append, ← h.sent, List.filter_cons_of_pos (by simpa using hbase), hout]
    rfl
  · have hn := h.need
    simp only [SerialQueue.storeBlock, hneed, hsent, sizeOfBlocks, List.map_append, List.sum_append, List.map_cons,
      List.map_nil, List.sum_cons, List.sum_nil] at hn ⊢
    rw [Nat.cast_add, Nat.add_zero]
    omega
  · simp only [SerialQueue.storeBlock, hlast]
    exact h.last
  · simp only [SerialQueue.storeBlock, hsent, htimer]
    have hne : s.sq.sentQueue ++ [out] ≠ [] := List.append_ne_nil_of_right_ne_nil _ (List.cons_ne_nil _ _)
    split_ifs with hnil
    · exact ⟨fun ht => absurd ht (by decide), fun h => absurd h hne⟩
    · exact ⟨fun ht => absurd (h.timer.mp ht) hnil, fun h => absurd h hne⟩

theorem Sound.of_link (h : Sound s) (hlink : SameLink s.sq sq') (hq : Queued sq') : Sound { s with sq := sq' } := by
  obtain ⟨-, hsend, hrecv, -, -, -, hsent, htimer, hneed, hlast⟩ := hlink
  refine ⟨hq, ?_, ?_, h.size, ?_, ?_, ?_, ?_⟩
  · simp only [hsend, hrecv]
    exact h.sender
  · simp only [hrecv]
    exact h.receive_pos
  · simp only [hsent, hrecv]
    exact h.sent
  · simp only [hneed, hsent]
    exact h.need
  · simp only [hlast]
    exact h.last
  · simp only [htimer, hsent]
    exact h.timer

/-- **Any step of the host.** -/
theorem Sound.step (h : Sound s) (hs : HostStep s e s') : Sound s' := by
  cases hs with
  | send cq msgs => exact h.of_link (sameLink_sendBatch s.sq cq msgs).1 (sendBatch_spec h.queued cq msgs).1
  | wait hround =>
    obtain ⟨hw, hq⟩ := commandRound_wait h.queued hround
    exact h.of_link hw.link hq
  | block hround => exact h.command hround
  | retransmit htimer =>
    refine ⟨h.queued.of_same ⟨rfl, rfl, rfl, rfl⟩, h.sender, h.receive_pos, h.size, h.sent, h.need, h.last, ?_⟩
    exact ⟨(fun h => nomatch h), fun hnil => absurd (h.timer.mpr hnil) htimer⟩
  | message block => exact h.handleMessage block
  | pull => exact h.of_link (same_pull s.sq).2.1 (h.queued.of_same (same_pull s.sq).1)
  | setReceiveWindow w =>
    exact ⟨h.queued.of_same ⟨rfl, rfl, rfl, rfl⟩, h.sender, h.receive_pos, h.size, h.sent, h.need, h.last, h.timer⟩

theorem sound_of_run (h : Run HostStep Host.alloc es s) : Sound s :=
  h.invariant sound_alloc fun _ _ _ hi hs => hi.step hs

end Sounds

/-! ## What waits for an acknowledgement -/

section Unacked

variable {s : Host} {es : List HostEvent}

theorem length_flatten_le {blocks : List (List UInt8)} {n : ℕ} (h : ∀ b ∈ blocks, b.length ≤ n) :
    blocks.flatten.length ≤ n * blocks.length := by
  induction blocks with
  | nil => simp
  | cons b blocks ih =>
    have hb := h b List.mem_cons_self
    have := ih fun b hb => h b (List.mem_cons_of_mem _ hb)
    rw [List.flatten_cons, List.length_append, List.length_cons, Nat.mul_succ]
    omega

/-- **What waits for an acknowledgement**, whatever the other side sends: the blocks from `receive_seq` to `send_seq`,
not more than twelve of them.  `need_ack_bytes` is their length, they fit in the buffer of `retransmit_event` with the
`MESSAGE_SYNC` before them, and the timer runs as long as there are any. -/
theorem unacked_bounded (h : Run HostStep Host.alloc es s) :
    (∃ kept, kept <:+ s.log ∧ s.sq.sentQueue = kept.map blockOf ∧
        kept.map Prod.fst = List.range' s.sq.receiveSeq (s.sq.sendSeq - s.sq.receiveSeq)) ∧
      s.sq.sendSeq ≤ s.sq.receiveSeq + maxPendingBlocks ∧
      s.sq.needAckBytes = (s.sq.sentQueue.flatten.length : ℕ) ∧
      s.sq.retransmitEvent.1.length ≤ messageMax * maxPendingBlocks + 1 ∧
      (s.sq.retransmitTimer = .never ↔ s.sq.sentQueue = []) := by
  have hs := sound_of_run h
  have hsize : s.sq.sentQueue.flatten.length ≤ 64 * s.sq.sentQueue.length := length_flatten_le hs.block_length
  have hlen := hs.sent_length
  have hnext := hs.sender.next_le
  refine ⟨⟨_, GoBackN.filter_le_suffix hs.sender.made_sorted _, hs.sent, hs.sender.unacked_range⟩, hnext, ?_, ?_,
    hs.timer⟩
  · rw [hs.need, sizeOfBlocks, List.length_flatten]
  · have hbuf : s.sq.retransmitEvent.1.length = s.sq.sentQueue.flatten.length + 1 := rfl
    have hmax : messageMax * maxPendingBlocks = 64 * 12 := rfl
    omega

end Unacked

/-! ## Naks -/

section Naks

variable {s s' : Host} {es : List HostEvent} {e : HostEvent} {f : ℕ}

/-- How often the block with a number was sent again because of a nak. -/
def nakked (naks : List (ℕ × ℕ)) (f : ℕ) : ℕ := (naks.filter fun r => r.1 ≤ f ∧ f < r.2).length

/-- `retransmit_seq` and `ignore_nak_seq` tell the blocks that were sent again once, and twice, from the others. -/
structure Nakked (s : Host) : Prop where
  retransmit_le : s.sq.retransmitSeq ≤ s.sq.sendSeq
  ignore_le : s.sq.ignoreNakSeq ≤ s.sq.sendSeq
  now : s.sq.retransmitTimer = .now → s.sq.ignoreNakSeq < s.sq.receiveSeq
  once : ∀ f, 1 ≤ nakked s.naks f → f < s.sq.retransmitSeq
  twice : ∀ f, 2 ≤ nakked s.naks f → f < s.sq.ignoreNakSeq
  bound : ∀ f, nakked s.naks f ≤ 2

theorem nakked_append (naks : List (ℕ × ℕ)) (r : ℕ × ℕ) (f : ℕ) :
    nakked (naks ++ [r]) f = nakked naks f + if r.1 ≤ f ∧ f < r.2 then 1 else 0 := by
  unfold nakked
  rw [List.filter_append, List.length_append]
  split_ifs with hr
  · rw [List.filter_cons_of_pos (by simpa using hr)]
    rfl
  · rw [List.filter_cons_of_neg (by rw [decide_eq_true_iff]; exact hr)]
    rfl

theorem Nakked.of_same (h : Nakked s) (hnaks : s'.naks = s.naks) (hretr : s'.sq.retransmitSeq = s.sq.retransmitSeq)
    (hign : s'.sq.ignoreNakSeq = s.sq.ignoreNakSeq) (hsend : s.sq.sendSeq ≤ s'.sq.sendSeq)
    (hnow : s'.sq.retransmitTimer = .now → s'.sq.ignoreNakSeq < s'.sq.receiveSeq) : Nakked s' := by
  refine ⟨?_, ?_, hnow, ?_, ?_, ?_⟩
  · rw [hretr]
    exact le_trans h.retransmit_le hsend
  · rw [hign]
    exact le_trans h.ignore_le hsend
  · rw [hnaks, hretr]
    exact h.once
  · rw [hnaks, hign]
    exact h.twice
  · rw [hnaks]
    exact h.bound

/-- **`retransmit_event`.** -/
theorem Nakked.retransmit (h : Nakked s) (hs : Sound s) :
    Nakked ⟨s.sq.retransmitEvent.2, s.log,
      if s.sq.retransmitTimer = .now then s.naks ++ [(s.sq.receiveSeq, s.sq.sendSeq)] else s.naks⟩ := by
  have hretr := h.retransmit_le
  have hign := h.ignore_le
  have hbase := hs.sender.base_le_next
  by_cases hnow : s.sq.retransmitTimer = .now
  · have hlt := h.now hnow
    simp only [hnow, if_true, SerialQueue.retransmitEvent]
    refine ⟨le_refl _, by simp only; split_ifs <;> omega, (fun ht => nomatch ht), fun f hf => ?_, fun f hf => ?_,
      fun f => ?_⟩
    all_goals
      have h1 := h.once f
      have h2 := h.twice f
      have h3 := h.bound f
      simp only [nakked_append] at *
    · split_ifs at hf with hr
      · exact hr.2
      · have := h1 hf
        omega
    · split_ifs at hf with hr
      · -- sent again once before: a number below `retransmit_seq`
        have := h1 (by omega)
        rw [if_pos (by omega)]
        exact this
      · have := h2 hf
        split_ifs <;> omega
    · split_ifs with hr
      · by_contra hmore
        have := h2 (by omega)
        omega
      · exact h3
  · simp only [hnow, if_false, SerialQueue.retransmitEvent]
    exact ⟨le_refl _, le_refl _, (fun ht => nomatch ht), fun f hf => lt_of_lt_of_le (h.once f hf) hretr,
      fun f hf => lt_of_lt_of_le (h.twice f hf) hign, h.bound⟩

/-- **Any message.** -/
theorem Nakked.handleMessage (h : Nakked s) (hs : Sound s) (block : List UInt8) :
    Nakked { s with sq := s.sq.handleMessage block } := by
  rcases handleMessage_cases s.sq block with ⟨hnone, -⟩ | ⟨sq', hsq, hseq, heq⟩
  · rw [hnone]
    exact h
  · have hupdated : Nakked { s with sq := sq' } := by
      rcases hsq with ⟨rfl, -⟩ | ⟨rfl, hlt, -⟩
      · exact h
      · refine h.of_same rfl rfl rfl ?_ fun hnow => ?_
        · exact (hs.update hlt).2 ▸ le_max_left _ _
        · -- the timer is set to another time
          unfold SerialQueue.updateReceiveSeq at hnow
          simp only at hnow
          split_ifs at hnow
    obtain ⟨-, ⟨hsend, hrecv, hign, hretr⟩, -, htimer⟩ :=
      processed sq' (SerialQueue.wakeSeq (s.sq.messageSeq block) block) (s.sq.messageSeq block) block
    rw [heq]
    refine hupdated.of_same rfl hretr hign hsend.ge fun hnow => ?_
    simp only [hign, hrecv, hseq]
    rcases htimer with ht | ⟨-, hlt, -⟩
    · rw [← hseq]
      exact hupdated.now (ht ▸ hnow)
    · exact hlt

theorem Nakked.step (h : Nakked s) (hs : Sound s) (hstep : HostStep s e s') : Nakked s' := by
  -- where the numbers and the timer stay
  have hlink {sq' : SerialQueue} (hl : SameLink s.sq sq') : Nakked { s with sq := sq' } := by
    obtain ⟨-, hsend, hrecv, hign, -, hretr, -, htimer, -, -⟩ := hl
    exact h.of_same rfl hretr hign hsend.ge fun hnow => by
      simp only [hign, hrecv]
      exact h.now (htimer ▸ hnow)
  cases hstep with
  | send cq msgs => exact hlink (sameLink_sendBatch s.sq cq msgs).1
  | wait hround => exact hlink (commandRound_wait hs.queued hround).1.link
  | block hround =>
    obtain ⟨-, -, -, mid, built, hw, htaken, rfl⟩ := commandRound_block hs.queued hround
    obtain ⟨-, hsend, hrecv, hign, -, hretr, hsent, htimer, -, -⟩ := hw.link.trans htaken.link
    refine h.of_same rfl hretr hign ?_ fun hnow => ?_
    · simp only [SerialQueue.storeBlock, hsend]
      exact Nat.le_succ _
    · simp only [SerialQueue.storeBlock, hign, hrecv] at hnow ⊢
      split_ifs at hnow
      exact h.now (htimer ▸ hnow)
  | retransmit htimer => exact h.retransmit hs
  | message block => exact h.handleMessage hs block
  | pull => exact hlink (same_pull s.sq).2.1
  | setReceiveWindow w => exact ⟨h.retransmit_le, h.ignore_le, h.now, h.once, h.twice, h.bound⟩

/-- **Naks make the host send a block again twice at most**, however many come, and whatever else happens. -/
theorem naks_bounded (h : Run HostStep Host.alloc es s) (f : ℕ) :
    (s.naks.filter fun r => r.1 ≤ f ∧ f < r.2).length ≤ 2 := by
  have hboth : Sound s ∧ Nakked s := by
    refine h.invariant (I := fun s => Sound s ∧ Nakked s) ⟨sound_alloc, ?_⟩
      fun s e s' hi hs => ⟨hi.1.step hs, hi.2.step hi.1 hs⟩
    have hzero : ∀ f, nakked Host.alloc.naks f = 0 := fun _ => rfl
    refine ⟨Nat.zero_le _, Nat.zero_le _, (fun h => nomatch h), fun f hf => ?_, fun f hf => ?_, fun f => Nat.zero_le _⟩
    · rw [hzero] at hf
      omega
    · rw [hzero] at hf
      omega
  exact hboth.2.bound f

end Naks

/-! ## A run -/

section Concrete

/-- A block is made, and the second answer to it is a nak. -/
def nakEvents : List HostEvent :=
  [.send 7 [⟨[5], 0, 0, 0⟩], .command ⟨0, 0, none⟩, .message (frame 0x11 []), .message (frame 0x11 []), .retransmit]

theorem run_nakEvents : ∃ s, Run HostStep Host.alloc nakEvents s ∧ s.naks = [(1, 2)] := by
  have h1 := (Run.nil (R := HostStep) Host.alloc).snoc (HostStep.send 7 [⟨[5], 0, 0, 0⟩])
  have h2 := h1.snoc (@HostStep.block _ _ ⟨0, 0, none⟩ _ _ rfl)
  have h3 := h2.snoc (HostStep.message (frame 0x11 []))
  have h4 := h3.snoc (HostStep.message (frame 0x11 []))
  refine ⟨_, h4.snoc (HostStep.retransmit ?_), rfl⟩
  decide +kernel

theorem unacked_bounded_concreteCase :
    ∃ s : Host, s.naks = [(1, 2)] ∧ s.sq.retransmitEvent.1.length ≤ messageMax * maxPendingBlocks + 1 := by
  obtain ⟨s, hrun, hnaks⟩ := run_nakEvents
  exact ⟨s, hnaks, (unacked_bounded hrun).2.2.2.1⟩

theorem naks_bounded_concreteCase : ([(1, 2)].filter fun r : ℕ × ℕ => r.1 ≤ 1 ∧ 1 < r.2).length ≤ 2 := by
  obtain ⟨s, hrun, hnaks⟩ := run_nakEvents
  have h := naks_bounded hrun 1
  rw [hnaks] at h
  exact h

end Concrete

end Cxsw.Link
