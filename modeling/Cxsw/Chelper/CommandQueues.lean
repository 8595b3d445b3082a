import Mathlib.Algebra.BigOperators.Group.List.Lemmas
import Mathlib.Data.List.TakeWhile
import Mathlib.Tactic.Ring
import Cxsw.Lib.Run
import Cxsw.Chelper.SerialQueue

/-!
# Cxsw.Chelper.CommandQueues — the messages of the command queues (`klippy/chelper/serialqueue.c`)

Any number of command queues feed one link.  Messages of one queue keep their order; between queues the lowest
`req_clock` goes first.

* `Queued`: the list of the pending queues and the two counters of bytes, which are `int` there and unbounded here.
* `Host`, `HostStep`: the host with the blocks it made, whatever the other side sends.
* `queues_in_order`: along every run no queue loses, doubles or reorders a message, the counters are exact, no message
  goes before its `min_clock`, and a block has room for what is put into it.
* `commandRound_isSome`: the search for the next message does not fail.
-/

namespace Cxsw.Link

/-! ## Queues -/

section Queues

def bytes (qms : List QueueMessage) : ℕ := (qms.map fun qm => qm.msg.length).sum

/-- What is on a command queue, in the order in which it was put there. -/
def CommandQueue.contents (q : CommandQueue) : List QueueMessage := q.readyQueue ++ q.stalledQueue

/-- The list of the pending queues has those that are not empty, each once, and the counters are those of its
messages. -/
structure Queued (sq : SerialQueue) : Prop where
  nodup : sq.pendingQueues.Nodup
  mem_iff : ∀ q, q ∈ sq.pendingQueues ↔ (sq.queues q).contents ≠ []
  ready : sq.readyBytes = ((sq.pendingQueues.map fun q => bytes (sq.queues q).readyQueue).sum : ℕ)
  stalled : sq.stalledBytes = ((sq.pendingQueues.map fun q => bytes (sq.queues q).stalledQueue).sum : ℕ)

theorem isEmpty_iff (q : CommandQueue) : q.isEmpty = true ↔ q.contents = [] := by
  unfold CommandQueue.isEmpty CommandQueue.contents
  rw [Bool.and_eq_true, List.isEmpty_iff, List.isEmpty_iff, List.append_eq_nil_iff]

theorem bytes_append (l l' : List QueueMessage) : bytes (l ++ l') = bytes l + bytes l' := by
  unfold bytes
  rw [List.map_append, List.sum_append]

/-- A sum over the pending queues, where one of them changes. -/
theorem sum_update (f : CommandQueue → ℕ) (queues : ℕ → CommandQueue) (q : CommandQueue) {cq : ℕ} {l : List ℕ}
    (hn : l.Nodup) (hmem : cq ∈ l) :
    (l.map fun x => f (Function.update queues cq q x)).sum + f (queues cq) =
      (l.map fun x => f (queues x)).sum + f q := by
  induction l with
  | nil => simp at hmem
  | cons x l ih =>
    obtain ⟨hx, hn⟩ := List.nodup_cons.mp hn
    simp only [List.map_cons, List.sum_cons]
    rcases List.mem_cons.mp hmem with rfl | hmem
    · have hrest : (l.map fun x => f (Function.update queues cq q x)) = l.map fun x => f (queues x) :=
        List.map_congr_left fun y hy => by rw [Function.update_of_ne (by rintro rfl; exact hx hy)]
      rw [hrest, Function.update_self]
      ring
    · have hne : x ≠ cq := by
        rintro rfl
        exact hx hmem
      rw [Function.update_of_ne hne]
      have := ih hn hmem
      omega

theorem sum_update_of_notMem (f : CommandQueue → ℕ) (queues : ℕ → CommandQueue) (q : CommandQueue) {cq : ℕ} {l : List ℕ}
    (hmem : cq ∉ l) : (l.map fun x => f (Function.update queues cq q x)).sum = (l.map fun x => f (queues x)).sum := by
  refine congrArg List.sum (List.map_congr_left fun y hy => ?_)
  rw [Function.update_of_ne (by rintro rfl; exact hmem hy)]

end Queues

/-! ## Messages are no longer stalled -/

section Wake

variable {sq : SerialQueue} {clocks : SerialQueue.Clocks} {cq : ℕ}

/-- Two states that differ in their queues, the counters of these and `need_kick_clock` only. -/
def SameLink (sq sq' : SerialQueue) : Prop :=
  sq'.receiveWindow = sq.receiveWindow ∧ sq'.sendSeq = sq.sendSeq ∧ sq'.receiveSeq = sq.receiveSeq ∧
    sq'.ignoreNakSeq = sq.ignoreNakSeq ∧ sq'.lastAckSeq = sq.lastAckSeq ∧ sq'.retransmitSeq = sq.retransmitSeq ∧
    sq'.sentQueue = sq.sentQueue ∧ sq'.retransmitTimer = sq.retransmitTimer ∧ sq'.needAckBytes = sq.needAckBytes ∧
    sq'.lastAckBytes = sq.lastAckBytes

theorem SameLink.refl (sq : SerialQueue) : SameLink sq sq := ⟨rfl, rfl, rfl, rfl, rfl, rfl, rfl, rfl, rfl, rfl⟩

theorem SameLink.trans {a b c : SerialQueue} (h : SameLink a b) (h' : SameLink b c) : SameLink a c := by
  obtain ⟨h1, h2, h3, h4, h5, h6, h7, h8, h9, h10⟩ := h
  obtain ⟨k1, k2, k3, k4, k5, k6, k7, k8, k9, k10⟩ := h'
  exact ⟨k1.trans h1, k2.trans h2, k3.trans h3, k4.trans h4, k5.trans h5, k6.trans h6, k7.trans h7, k8.trans h8,
    k9.trans h9, k10.trans h10⟩

/-- Two states with the same messages, where those that became ready have a clock that has come. -/
structure Woken (ackClock : ℕ) (sq sq' : SerialQueue) : Prop where
  link : SameLink sq sq'
  notify : sq'.notifyQueue = sq.notifyQueue
  received : sq'.receiveQueue = sq.receiveQueue
  pending : sq'.pendingQueues = sq.pendingQueues
  contents : ∀ q, (sq'.queues q).contents = (sq.queues q).contents
  ready : ∀ q, ∀ qm ∈ (sq'.queues q).readyQueue, qm ∈ (sq.queues q).readyQueue ∨ qm.minClock ≤ ackClock

theorem Woken.refl (ackClock : ℕ) (sq : SerialQueue) : Woken ackClock sq sq :=
  ⟨SameLink.refl sq, rfl, rfl, rfl, fun _ => rfl, fun _ _ h => Or.inl h⟩

theorem Woken.trans {ackClock : ℕ} {a b c : SerialQueue} (h : Woken ackClock a b) (h' : Woken ackClock b c) :
    Woken ackClock a c := by
  refine ⟨h.link.trans h'.link, h'.notify.trans h.notify, h'.received.trans h.received, h'.pending.trans h.pending,
    fun q => (h'.contents q).trans (h.contents q), ?_⟩
  intro q qm hqm
  rcases h'.ready q qm hqm with hqm | hclock
  · exact h.ready q qm hqm
  · exact Or.inr hclock

theorem wake_queues (sq : SerialQueue) (clocks : SerialQueue.Clocks) (cq q : ℕ) :
    (sq.wake clocks cq).queues q =
      if q = cq then
        ⟨(sq.queues cq).stalledQueue.dropWhile fun qm => qm.minClock ≤ clocks.ackClock,
          (sq.queues cq).readyQueue ++ (sq.queues cq).stalledQueue.takeWhile fun qm => qm.minClock ≤ clocks.ackClock⟩
      else sq.queues q := by
  unfold SerialQueue.wake
  simp only
  by_cases hq : q = cq
  · rw [hq, Function.update_self, if_pos rfl]
  · rw [Function.update_of_ne hq, if_neg hq]

theorem woken_wake (sq : SerialQueue) (clocks : SerialQueue.Clocks) (cq : ℕ) :
    Woken clocks.ackClock sq (sq.wake clocks cq) := by
  refine ⟨⟨rfl, rfl, rfl, rfl, rfl, rfl, rfl, rfl, rfl, rfl⟩, rfl, rfl, rfl, fun q => ?_, fun q qm hqm => ?_⟩
  · rw [wake_queues]
    split_ifs with hq
    · unfold CommandQueue.contents
      rw [hq, List.append_assoc, List.takeWhile_append_dropWhile]
    · rfl
  · rw [wake_queues] at hqm
    split_ifs at hqm with hq
    · rcases List.mem_append.mp hqm with hqm | hqm
      · exact Or.inl (hq ▸ hqm)
      · exact Or.inr (by simpa using List.mem_takeWhile_imp hqm)
    · exact Or.inl hqm

theorem Queued.wake (h : Queued sq) (hmem : cq ∈ sq.pendingQueues) (clocks : SerialQueue.Clocks) :
    Queued (sq.wake clocks cq) := by
  have hw := woken_wake sq clocks cq
  have hsplit : bytes ((sq.queues cq).stalledQueue.takeWhile fun qm => qm.minClock ≤ clocks.ackClock) +
      bytes ((sq.queues cq).stalledQueue.dropWhile fun qm => qm.minClock ≤ clocks.ackClock) =
        bytes (sq.queues cq).stalledQueue := by
    rw [← bytes_append, List.takeWhile_append_dropWhile]
  refine ⟨h.nodup, fun q => ?_, ?_, ?_⟩
  · rw [hw.contents]
    exact h.mem_iff q
  · have hsum := sum_update (fun q => bytes q.readyQueue) sq.queues ⟨(sq.queues cq).stalledQueue.dropWhile fun qm =>
      qm.minClock ≤ clocks.ackClock, (sq.queues cq).readyQueue ++ (sq.queues cq).stalledQueue.takeWhile fun qm =>
        qm.minClock ≤ clocks.ackClock⟩ h.nodup hmem
    have hready := h.ready
    simp only [bytes_append] at hsum
    unfold SerialQueue.wake
    simp only
    unfold bytes at hsum hready ⊢
    omega
  · have hsum := sum_update (fun q => bytes q.stalledQueue) sq.queues ⟨(sq.queues cq).stalledQueue.dropWhile fun qm =>
      qm.minClock ≤ clocks.ackClock, (sq.queues cq).readyQueue ++ (sq.queues cq).stalledQueue.takeWhile fun qm =>
        qm.minClock ≤ clocks.ackClock⟩ h.nodup hmem
    have hstalled := h.stalled
    unfold SerialQueue.wake
    simp only at hsum ⊢
    unfold bytes at hsum hstalled hsplit ⊢
    omega

theorem wakeStalled_spec (h : Queued sq) (clocks : SerialQueue.Clocks) :
    Woken clocks.ackClock sq (sq.wakeStalled clocks).1 ∧ Queued (sq.wakeStalled clocks).1 := by
  -- the loop over any of the pending queues
  have hloop (l : List ℕ) (r : SerialQueue × ℕ × ℕ) (hr : Queued r.1) (hl : ∀ q ∈ l, q ∈ r.1.pendingQueues) :
      let r' := l.foldl (fun r cq =>
        let sq := r.1.wake clocks cq
        let q := sq.queues cq
        let minStalledClock := q.stalledQueue.head?.elim r.2.1 fun qm => min qm.minClock r.2.1
        let minReadyClock := q.readyQueue.head?.elim r.2.2 fun qm =>
          min (if qm.reqClock = backgroundPriorityClock then clocks.backgroundClock else qm.reqClock) r.2.2
        (sq, minStalledClock, minReadyClock)) r
      Woken clocks.ackClock r.1 r'.1 ∧ Queued r'.1 := by
    induction l generalizing r with
    | nil => exact ⟨Woken.refl _ _, hr⟩
    | cons cq l ih =>
      have hw := woken_wake r.1 clocks cq
      obtain ⟨h1, h2⟩ := ih (r.1.wake clocks cq, _, _) (hr.wake (hl cq List.mem_cons_self) clocks)
        fun q hq => hw.pending ▸ hl q (List.mem_cons_of_mem _ hq)
      exact ⟨hw.trans h1, h2⟩
  exact hloop sq.pendingQueues (sq, maxClock, maxClock) h fun q hq => hq

/-- **`check_send_command`** moves messages that may go to the ready lists, and does nothing else to the messages. -/
theorem checkSendCommand_spec (h : Queued sq) (clocks : SerialQueue.Clocks) :
    Woken clocks.ackClock sq (sq.checkSendCommand clocks).1 ∧ Queued (sq.checkSendCommand clocks).1 ∧
      ((sq.checkSendCommand clocks).2 = .now → sq.mustWait = false) := by
  obtain ⟨hw, hq⟩ := wakeStalled_spec h clocks
  have hkick (clock : ℕ) : Woken clocks.ackClock sq { (sq.wakeStalled clocks).1 with needKickClock := clock } ∧
      Queued { (sq.wakeStalled clocks).1 with needKickClock := clock } :=
    ⟨⟨hw.link, hw.notify, hw.received, hw.pending, hw.contents, hw.ready⟩, ⟨hq.nodup, hq.mem_iff, hq.ready, hq.stalled⟩⟩
  unfold SerialQueue.checkSendCommand
  cases hwait : sq.mustWait with
  | true => exact ⟨Woken.refl _ _, h, fun h => by cases h⟩
  | false =>
    simp only [Bool.false_eq_true, if_false]
    by_cases hfull : (messagePayloadMax : ℤ) ≤ (sq.wakeStalled clocks).1.readyBytes
    · rw [if_pos hfull]
      exact ⟨hw, hq, fun _ => trivial⟩
    · rw [if_neg hfull]
      cases clocks.reqclockDelta with
      | none =>
        simp only
        split_ifs
        · exact ⟨hw, hq, fun _ => trivial⟩
        · exact ⟨(hkick maxClock).1, (hkick maxClock).2, fun _ => trivial⟩
      | some delta =>
        simp only
        split_ifs
        · exact ⟨hw, hq, fun _ => trivial⟩
        · exact ⟨(hkick _).1, (hkick _).2, fun _ => trivial⟩

end Wake

/-! ## Messages go into a block -/

section Take

variable {sq sq' : SerialQueue} {cq : ℕ} {qm : QueueMessage} {rest : List QueueMessage} {qms : List (ℕ × QueueMessage)}

/-- The messages of one queue. -/
def ofQueue (q : ℕ) (qms : List (ℕ × QueueMessage)) : List QueueMessage :=
  (qms.filter fun qm => qm.1 = q).map Prod.snd

theorem ofQueue_append (q : ℕ) (l l' : List (ℕ × QueueMessage)) : ofQueue q
    (l ++ l') = ofQueue q l ++ ofQueue q l' := by
  unfold ofQueue
  rw [List.filter_append, List.map_append]

theorem ofQueue_cons (q cq : ℕ) (qm : QueueMessage) (l : List (ℕ × QueueMessage)) :
    ofQueue q ((cq, qm) :: l) = (if cq = q then [qm] else []) ++ ofQueue q l := by
  unfold ofQueue
  rw [List.filter_cons]
  by_cases hq : cq = q <;> simp [hq]

/-- What the search knows when it went through some of the queues. -/
theorem findHighest_loop (queues : ℕ → CommandQueue) (l : List ℕ) :
    let best := l.foldl (fun (best : ℕ × Option (ℕ × QueueMessage × List QueueMessage)) q =>
      match (queues q).readyQueue with
      | [] => best
      | m :: rest => if m.reqClock < best.1 then (m.reqClock, some (q, m, rest)) else best) (maxClock, none)
    best.1 ≤ maxClock ∧ (∀ q ∈ l, ∀ m ∈ (queues q).readyQueue.head?, best.1 ≤ m.reqClock) ∧
      (best.2 = none → best.1 = maxClock) ∧
      ∀ cq qm rest, best.2 = some (cq, qm, rest) →
        cq ∈ l ∧ (queues cq).readyQueue = qm :: rest ∧ qm.reqClock = best.1 ∧ best.1 < maxClock := by
  induction l using List.reverseRecOn with
  | nil => exact ⟨le_refl _, fun q hq => absurd hq List.not_mem_nil, fun _ => rfl, fun _ _ _ h => by cases h⟩
  | append_singleton l q ih =>
    obtain ⟨h1, h2, h3, h4⟩ := ih
    simp only [List.foldl_append, List.foldl_cons, List.foldl_nil]
    generalize l.foldl _ _ = best at h1 h2 h3 h4 ⊢
    have hold : ∀ cq qm rest, best.2 = some (cq, qm, rest) →
        cq ∈ l ++ [q] ∧ (queues cq).readyQueue = qm :: rest ∧ qm.reqClock = best.1 ∧ best.1 < maxClock := by
      intro cq qm rest hbest
      obtain ⟨hmem, hready⟩ := h4 cq qm rest hbest
      exact ⟨List.mem_append_left _ hmem, hready⟩
    cases hq : (queues q).readyQueue with
    | nil =>
      refine ⟨h1, fun x hx m hm => ?_, h3, hold⟩
      rcases List.mem_append.mp hx with hx | hx
      · exact h2 x hx m hm
      · rw [List.mem_singleton.mp hx, hq] at hm
        simp at hm
    | cons m rest =>
      simp only
      split_ifs with hlt
      · refine ⟨le_trans hlt.le h1, fun x hx n hn => ?_, fun h => h.elim, fun cq qm rest' h => ?_⟩
        · rcases List.mem_append.mp hx with hx | hx
          · exact le_trans hlt.le (h2 x hx n hn)
          · rw [List.mem_singleton.mp hx, hq, List.head?_cons, Option.mem_some_iff] at hn
            rw [hn]
        · cases h
          exact ⟨List.mem_append_right _ (List.mem_singleton_self _), hq, rfl, lt_of_lt_of_le hlt h1⟩
      · refine ⟨h1, fun x hx n hn => ?_, h3, hold⟩
        rcases List.mem_append.mp hx with hx | hx
        · exact h2 x hx n hn
        · rw [List.mem_singleton.mp hx, hq, List.head?_cons, Option.mem_some_iff] at hn
          rw [← hn]
          exact not_lt.mp hlt

/-- **The search**: a message that is first on the ready list of a pending queue, and no other one there has a lower
`req_clock`. -/
theorem findHighest_spec {queues : ℕ → CommandQueue} {pending : List ℕ}
    (h : SerialQueue.findHighest queues pending = some (cq, qm, rest)) :
    cq ∈ pending ∧ (queues cq).readyQueue = qm :: rest ∧
      ∀ q ∈ pending, ∀ m ∈ (queues q).readyQueue.head?, qm.reqClock ≤ m.reqClock := by
  obtain ⟨-, hmin, -, hbest⟩ := findHighest_loop queues pending
  obtain ⟨hmem, hready, hclock, -⟩ := hbest cq qm rest h
  exact ⟨hmem, hready, fun q hq m hm => hclock ▸ hmin q hq m hm⟩

theorem findHighest_isSome {queues : ℕ → CommandQueue} {pending : List ℕ} {q : ℕ} (hq : q ∈ pending)
    (hm : (queues q).readyQueue.head? = some qm) (hclock : qm.reqClock < maxClock) :
    (SerialQueue.findHighest queues pending).isSome := by
  obtain ⟨-, hmin, hnone, -⟩ := findHighest_loop queues pending
  cases hbest : SerialQueue.findHighest queues pending with
  | some best => rfl
  | none =>
    have hle := hmin q hq qm hm
    rw [hnone hbest] at hle
    omega

theorem takeMessage_queues (sq : SerialQueue) (hready : (sq.queues cq).readyQueue = qm :: rest) (q : ℕ) :
    (sq.queues q).contents = ofQueue q [(cq, qm)] ++ ((sq.takeMessage cq qm rest).queues q).contents ∧
      ∀ m ∈ ((sq.takeMessage cq qm rest).queues q).readyQueue, m ∈ (sq.queues q).readyQueue := by
  unfold SerialQueue.takeMessage
  simp only
  rw [ofQueue_cons]
  by_cases hq : q = cq
  · rw [hq, Function.update_self, if_pos rfl]
    refine ⟨?_, fun m hm => hready ▸ List.mem_cons_of_mem _ hm⟩
    unfold CommandQueue.contents
    rw [hready]
    rfl
  · rw [Function.update_of_ne hq, if_neg (Ne.symm hq)]
    exact ⟨rfl, fun m hm => hm⟩

/-- A sum over the pending queues, when a message is taken. -/
theorem takeMessage_sum (h : Queued sq) (hmem : cq ∈ sq.pendingQueues) (qm : QueueMessage) (rest : List QueueMessage)
    (f : CommandQueue → ℕ) (hf : f ⟨[], []⟩ = 0) :
    (((sq.takeMessage cq qm rest).pendingQueues.map fun q => f ((sq.takeMessage cq qm rest).queues q)).sum) +
        f (sq.queues cq) =
      (sq.pendingQueues.map fun q => f (sq.queues q)).sum + f ⟨(sq.queues cq).stalledQueue, rest⟩ := by
  unfold SerialQueue.takeMessage
  simp only
  split_ifs with hempty
  · -- the queue leaves the list, with nothing in it
    have hnone := (isEmpty_iff _).mp hempty
    unfold CommandQueue.contents at hnone
    obtain ⟨hrest, hstalled⟩ := List.append_eq_nil_iff.mp hnone
    simp only at hrest hstalled
    have hout : cq ∉ sq.pendingQueues.erase cq := List.Nodup.not_mem_erase h.nodup
    have hsum : f (sq.queues cq) + ((sq.pendingQueues.erase cq).map fun q => f (sq.queues q)).sum =
        (sq.pendingQueues.map fun q => f (sq.queues q)).sum :=
      List.sum_map_erase (fun q => f (sq.queues q)) hmem
    rw [sum_update_of_notMem f sq.queues _ hout, hrest, hstalled, hf]
    omega
  · exact sum_update f sq.queues _ h.nodup hmem

theorem Queued.takeMessage (h : Queued sq) (hmem : cq ∈ sq.pendingQueues)
    (hready : (sq.queues cq).readyQueue = qm :: rest) : Queued (sq.takeMessage cq qm rest) := by
  have hr := takeMessage_sum h hmem qm rest (fun q => bytes q.readyQueue) rfl
  have hs := takeMessage_sum h hmem qm rest (fun q => bytes q.stalledQueue) rfl
  have hbytes : bytes (qm :: rest) = qm.msg.length + bytes rest := rfl
  simp only [hready, hbytes] at hr
  simp only at hs
  have hready' := h.ready
  have hstalled' := h.stalled
  refine ⟨?_, fun q => ?_, ?_, ?_⟩
  · unfold SerialQueue.takeMessage
    simp only
    split_ifs
    · exact h.nodup.erase _
    · exact h.nodup
  · unfold SerialQueue.takeMessage
    simp only
    by_cases hq : q = cq
    · rw [hq, Function.update_self, ← not_iff_not, not_not, ← isEmpty_iff]
      split_ifs with hempty
      · exact ⟨fun _ => hempty, fun _ => List.Nodup.not_mem_erase h.nodup⟩
      · exact ⟨fun hno => absurd hmem hno, fun hyes => absurd hyes hempty⟩
    · rw [Function.update_of_ne hq]
      split_ifs
      · rw [List.mem_erase_of_ne hq]
        exact h.mem_iff q
      · exact h.mem_iff q
  · change sq.readyBytes - (qm.msg.length : ℤ) = _
    omega
  · change sq.stalledBytes = _
    omega

/-- What the loop of `build_and_send_command` does. -/
structure Taken (sq sq' : SerialQueue) (qms : List (ℕ × QueueMessage)) : Prop where
  queued : Queued sq'
  link : SameLink sq sq'
  received : sq'.receiveQueue = sq.receiveQueue
  contents : ∀ q, (sq.queues q).contents = ofQueue q qms ++ (sq'.queues q).contents
  ready : ∀ q, ∀ m ∈ (sq'.queues q).readyQueue, m ∈ (sq.queues q).readyQueue
  taken : ∀ qm ∈ qms, qm.2 ∈ (sq.queues qm.1).readyQueue
  notify : sq'.notifyQueue = sq.notifyQueue ++
    (qms.filter fun qm => qm.2.notifyId ≠ 0).map fun qm => (sq.sendSeq, qm.2.notifyId)

theorem takeMessages_spec {fuel len : ℕ} (h : Queued sq) (hlen : len ≤ 61)
    (htake : SerialQueue.takeMessages fuel sq len = some (sq', qms)) :
    Taken sq sq' qms ∧ len + (SerialQueue.payload qms).length ≤ 61 := by
  have hstop : Taken sq sq [] ∧ len + (SerialQueue.payload []).length ≤ 61 :=
    ⟨⟨h, SameLink.refl sq, rfl, fun _ => rfl, fun _ _ hm => hm, fun _ hm => absurd hm List.not_mem_nil,
      (List.append_nil _).symm⟩, hlen⟩
  induction fuel generalizing sq len qms with
  | zero => cases htake
  | succ fuel ih =>
    rw [SerialQueue.takeMessages] at htake
    split_ifs at htake with hzero
    · cases htake
      exact hstop
    · cases hfind : SerialQueue.findHighest sq.queues sq.pendingQueues with
      | none =>
        rw [hfind] at htake
        cases htake
      | some best =>
        obtain ⟨cq, qm, rest⟩ := best
        obtain ⟨hmem, hready, -⟩ := findHighest_spec hfind
        rw [hfind] at htake
        simp only at htake
        split_ifs at htake with hroom
        · cases htake
          exact hstop
        · obtain ⟨r, hr, he⟩ := Option.map_eq_some_iff.mp htake
          cases he
          have hq := h.takeMessage hmem hready
          have hle : len + qm.msg.length ≤ 61 := not_lt.mp hroom
          obtain ⟨hnext, hsize⟩ := ih hq hle hr ⟨⟨hq, SameLink.refl _, rfl, fun _ => rfl, fun _ _ hm => hm,
            fun _ hm => absurd hm List.not_mem_nil, (List.append_nil _).symm⟩, hle⟩
          have hfirst := takeMessage_queues sq hready
          have hlink : SameLink sq (sq.takeMessage cq qm rest) :=
            ⟨rfl, rfl, rfl, rfl, rfl, rfl, rfl, rfl, rfl, rfl⟩
          refine ⟨⟨hnext.queued, hlink.trans hnext.link, hnext.received, fun q => ?_, fun q m hm => ?_,
            fun m hm => ?_, ?_⟩, ?_⟩
          · rw [(hfirst q).1, hnext.contents q, ← List.append_assoc, ← ofQueue_append]
            rfl
          · exact (hfirst q).2 m (hnext.ready q m hm)
          · rcases List.mem_cons.mp hm with rfl | hm
            · exact hready ▸ List.mem_cons_self
            · exact (hfirst m.1).2 m.2 (hnext.taken m hm)
          · rw [hnext.notify]
            unfold SerialQueue.takeMessage
            simp only [List.filter_cons, decide_not, Bool.not_eq_true', decide_eq_false_iff_not]
            split_ifs <;> simp
          · unfold SerialQueue.payload at hsize ⊢
            rw [List.flatMap_cons, List.length_append]
            simp only
            omega

/-- **The search does not fail**, and there are rounds enough. -/
theorem takeMessages_isSome {fuel len : ℕ} (h : Queued sq)
    (hclock : ∀ q, ∀ qm ∈ (sq.queues q).readyQueue, qm.reqClock < maxClock)
    (hfuel : (sq.pendingQueues.map fun q => (sq.queues q).readyQueue.length).sum < fuel) :
    (SerialQueue.takeMessages fuel sq len).isSome := by
  induction fuel generalizing sq len with
  | zero => omega
  | succ fuel ih =>
    rw [SerialQueue.takeMessages]
    split_ifs with hzero
    · rfl
    · -- bytes that are ready are those of a message
      have hsome : ∃ q ∈ sq.pendingQueues, (sq.queues q).readyQueue ≠ [] := by
        by_contra hno
        push Not at hno
        apply hzero
        rw [h.ready, List.map_congr_left fun q hq => by rw [hno q hq]]
        simp [bytes]
      obtain ⟨q, hq, hne⟩ := hsome
      obtain ⟨m, ms, hm⟩ := List.exists_cons_of_ne_nil hne
      have hfound := findHighest_isSome hq (by rw [hm, List.head?_cons])
        (hclock q m (hm ▸ List.mem_cons_self))
      obtain ⟨⟨cq, qm, rest⟩, hbest⟩ := Option.isSome_iff_exists.mp hfound
      obtain ⟨hmem, hready, -⟩ := findHighest_spec hbest
      rw [hbest]
      simp only
      split_ifs
      · rfl
      · rw [Option.isSome_map]
        have hcount := takeMessage_sum h hmem qm rest (fun q => q.readyQueue.length) rfl
        simp only [hready, List.length_cons] at hcount
        refine ih (h.takeMessage hmem hready) (fun q' m hm => ?_) (by omega)
        exact hclock q' m ((takeMessage_queues sq hready q').2 m hm)

end Take

/-! ## Whole runs -/

section Runs

/-- The host, and what it did. -/
structure Host where
  sq : SerialQueue
  /-- The blocks that were made, with their numbers and their messages. -/
  log : List (ℕ × List (ℕ × QueueMessage))
  /-- The first number and the one behind the last, of blocks that were sent again because of a nak. -/
  naks : List (ℕ × ℕ)

def Host.alloc : Host := ⟨SerialQueue.alloc, [], []⟩

/-- What happens at the host.  Any message may come from the other side. -/
inductive HostEvent
  | send (cq : ℕ) (msgs : List QueueMessage)
  | command (clocks : SerialQueue.Clocks)
  | retransmit
  | message (block : List UInt8)
  | pull
  | setReceiveWindow (receiveWindow : ℤ)

inductive HostStep : Host → HostEvent → Host → Prop
  | send {s : Host} (cq : ℕ) (msgs : List QueueMessage) :
      HostStep s (.send cq msgs) { s with sq := (s.sq.sendBatch cq msgs).1 }
  | wait {s : Host} {sq : SerialQueue} {clocks : SerialQueue.Clocks} (h : s.sq.commandRound clocks = some (sq, none)) :
      HostStep s (.command clocks) { s with sq := sq }
  | block {s : Host} {sq : SerialQueue} {clocks : SerialQueue.Clocks} {out : List UInt8} {qms : List (ℕ × QueueMessage)}
      (h : s.sq.commandRound clocks = some (sq, some (out, qms))) :
      HostStep s (.command clocks) ⟨sq, s.log ++ [(s.sq.sendSeq, qms)], s.naks⟩
  | retransmit {s : Host} (h : s.sq.retransmitTimer ≠ .never) :
      HostStep s .retransmit ⟨s.sq.retransmitEvent.2, s.log,
        if s.sq.retransmitTimer = .now then s.naks ++ [(s.sq.receiveSeq, s.sq.sendSeq)] else s.naks⟩
  | message {s : Host} (block : List UInt8) : HostStep s (.message block) { s with sq := s.sq.handleMessage block }
  | pull {s : Host} : HostStep s .pull { s with sq := s.sq.pull.1 }
  | setReceiveWindow {s : Host} (w : ℤ) :
      HostStep s (.setReceiveWindow w) { s with sq := { s.sq with receiveWindow := w } }

/-- What was queued on a command queue. -/
def submitted (q : ℕ) (es : List HostEvent) : List QueueMessage :=
  es.flatMap fun
    | .send cq msgs => if cq = q then SerialQueue.batch msgs else []
    | _ => []

/-- Two states with the same command queues. -/
def SameQueues (sq sq' : SerialQueue) : Prop :=
  sq'.queues = sq.queues ∧ sq'.pendingQueues = sq.pendingQueues ∧ sq'.readyBytes = sq.readyBytes ∧
    sq'.stalledBytes = sq.stalledBytes

variable {sq sq' : SerialQueue} {clocks : SerialQueue.Clocks}

theorem Queued.of_same (h : Queued sq) (hs : SameQueues sq sq') : Queued sq' := by
  obtain ⟨h1, h2, h3, h4⟩ := hs
  exact ⟨h2 ▸ h.nodup, by rw [h1, h2]; exact h.mem_iff, by rw [h1, h2, h3]; exact h.ready,
    by rw [h1, h2, h4]; exact h.stalled⟩

theorem sameQueues_handleMessage (sq : SerialQueue) (block : List UInt8) : SameQueues sq (sq.handleMessage block) := by
  have hprocess (sq : SerialQueue) (rseq wake : ℕ) : SameQueues sq
      ((sq.wakeNotify wake).processMessage rseq block) := by
    unfold SerialQueue.processMessage
    split_ifs <;> exact ⟨rfl, rfl, rfl, rfl⟩
  unfold SerialQueue.handleMessage
  simp only
  split_ifs
  · exact hprocess _ _ _
  · exact ⟨rfl, rfl, rfl, rfl⟩
  · exact hprocess _ _ _

theorem same_pull (sq : SerialQueue) :
    SameQueues sq sq.pull.1 ∧ SameLink sq sq.pull.1 ∧ sq.pull.1.notifyQueue = sq.notifyQueue ∧
      sq.pull.1.receiveQueue <:+ sq.receiveQueue := by
  unfold SerialQueue.pull
  split
  · exact ⟨⟨rfl, rfl, rfl, rfl⟩, SameLink.refl sq, rfl, List.suffix_refl _⟩
  · rename_i qm rest hqueue
    exact ⟨⟨rfl, rfl, rfl, rfl⟩, ⟨rfl, rfl, rfl, rfl, rfl, rfl, rfl, rfl, rfl, rfl⟩, rfl,
      hqueue ▸ List.suffix_cons qm rest⟩

/-- **A round of `command_event` without a block.** -/
theorem commandRound_wait (h : Queued sq) (hround : sq.commandRound clocks = some (sq', none)) :
    Woken clocks.ackClock sq sq' ∧ Queued sq' := by
  obtain ⟨hw, hq, -⟩ := checkSendCommand_spec h clocks
  unfold SerialQueue.commandRound at hround
  simp only at hround
  split_ifs at hround
  · obtain ⟨b, -, he⟩ := Option.map_eq_some_iff.mp hround
    cases he
  · cases hround
    exact ⟨hw, hq⟩

/-- **A round with a block.** -/
theorem commandRound_block (h : Queued sq) {out : List UInt8} {qms : List (ℕ × QueueMessage)}
    (hround : sq.commandRound clocks = some (sq', some (out, qms))) :
    sq.mustWait = false ∧ out = frame (SerialQueue.seqByte sq.sendSeq) (SerialQueue.payload qms) ∧
      (SerialQueue.payload qms).length ≤ 59 ∧
      ∃ mid built, Woken clocks.ackClock sq mid ∧ Taken mid built qms ∧ sq' = built.storeBlock out := by
  obtain ⟨hw, hq, hnow⟩ := checkSendCommand_spec h clocks
  unfold SerialQueue.commandRound at hround
  simp only at hround
  split_ifs at hround with hwake
  · obtain ⟨⟨b, bout, bqms⟩, hb, he⟩ := Option.map_eq_some_iff.mp hround
    cases he
    obtain ⟨r, hr, he⟩ := Option.map_eq_some_iff.mp hb
    cases he
    obtain ⟨htaken, hsize⟩ := takeMessages_spec hq (show messageHeaderSize ≤ 61 by decide) hr
    have hseq : r.1.sendSeq = sq.sendSeq := htaken.link.2.1.trans hw.link.2.1
    have h2 : messageHeaderSize = 2 := rfl
    exact ⟨hnow hwake, by rw [hseq], by omega, _, r.1, hw, htaken, rfl⟩
  · cases hround

/-- **`command_event` does not fail** as long as the clocks are below `MAX_CLOCK`. -/
theorem commandRound_isSome (h : Queued sq) (hclock : ∀ q, ∀ qm ∈ (sq.queues q).contents, qm.reqClock < maxClock)
    (clocks : SerialQueue.Clocks) : (sq.commandRound clocks).isSome := by
  obtain ⟨hw, hq, -⟩ := checkSendCommand_spec h clocks
  have hready : ∀ q, ∀ qm ∈ ((sq.checkSendCommand clocks).1.queues q).readyQueue, qm.reqClock < maxClock := by
    intro q qm hqm
    refine hclock q qm ?_
    rw [← hw.contents q]
    exact List.mem_append_left _ hqm
  unfold SerialQueue.commandRound SerialQueue.buildAndSendCommand
  simp only
  split_ifs
  · rw [Option.isSome_map, Option.isSome_map]
    exact takeMessages_isSome hq hready (Nat.lt_succ_self _)
  · rfl

/-- What a batch adds to a sum over the pending queues. -/
theorem sendBatch_sum (h : Queued sq) (cq : ℕ) (q : CommandQueue) (f : CommandQueue → ℕ) (hf : f ⟨[], []⟩ = 0) :
    ((if (sq.queues cq).isEmpty then sq.pendingQueues ++ [cq] else sq.pendingQueues).map fun x =>
        f (Function.update sq.queues cq q x)).sum + f (sq.queues cq) =
      (sq.pendingQueues.map fun x => f (sq.queues x)).sum + f q := by
  split_ifs with hempty
  · -- the queue joins the list
    have hnone := (isEmpty_iff _).mp hempty
    have hout : cq ∉ sq.pendingQueues := fun hin => (h.mem_iff cq).mp hin hnone
    obtain ⟨hready, hstalled⟩ := List.append_eq_nil_iff.mp hnone
    have hold : f (sq.queues cq) = 0 := by
      have hq : sq.queues cq = ⟨[], []⟩ := by
        cases hq : sq.queues cq
        rw [hq] at hready hstalled
        simp only at hready hstalled
        rw [hready, hstalled]
      rw [hq, hf]
    rw [List.map_append, List.sum_append, sum_update_of_notMem f sq.queues q hout, hold]
    simp
  · have hin : cq ∈ sq.pendingQueues := (h.mem_iff cq).mpr fun hnone => hempty ((isEmpty_iff _).mpr hnone)
    exact sum_update f sq.queues q h.nodup hin

theorem sameLink_sendBatch (sq : SerialQueue) (cq : ℕ) (msgs : List QueueMessage) :
    SameLink sq (sq.sendBatch cq msgs).1 ∧ (sq.sendBatch cq msgs).1.notifyQueue = sq.notifyQueue ∧
      (sq.sendBatch cq msgs).1.receiveQueue = sq.receiveQueue := by
  unfold SerialQueue.sendBatch
  split <;> exact ⟨⟨rfl, rfl, rfl, rfl, rfl, rfl, rfl, rfl, rfl, rfl⟩, rfl, rfl⟩

/-- **`serialqueue_send_batch`** puts the messages behind the others. -/
theorem sendBatch_spec (h : Queued sq) (cq : ℕ) (msgs : List QueueMessage) :
    Queued (sq.sendBatch cq msgs).1 ∧
      ∀ q, ((sq.sendBatch cq msgs).1.queues q).contents =
          (sq.queues q).contents ++ (if cq = q then SerialQueue.batch msgs else []) ∧
        ((sq.sendBatch cq msgs).1.queues q).readyQueue = (sq.queues q).readyQueue := by
  unfold SerialQueue.sendBatch
  cases hbatch : SerialQueue.batch msgs with
  | nil =>
    refine ⟨h, fun q => ⟨?_, rfl⟩⟩
    rw [ite_self, List.append_nil]
  | cons qm qms =>
    simp only
    have hcontents : ∀ q, (Function.update sq.queues cq
        ⟨(sq.queues cq).stalledQueue ++ qm :: qms, (sq.queues cq).readyQueue⟩ q).contents =
          (sq.queues q).contents ++ (if cq = q then qm :: qms else []) := by
      intro q
      by_cases hq : cq = q
      · rw [← hq, Function.update_self, if_pos rfl]
        unfold CommandQueue.contents
        rw [List.append_assoc]
      · rw [Function.update_of_ne (Ne.symm hq), if_neg hq, List.append_nil]
    have hready : ∀ q, (Function.update sq.queues cq
        ⟨(sq.queues cq).stalledQueue ++ qm :: qms, (sq.queues cq).readyQueue⟩ q).readyQueue =
          (sq.queues q).readyQueue := by
      intro q
      by_cases hq : q = cq
      · rw [hq, Function.update_self]
      · rw [Function.update_of_ne hq]
    refine ⟨?_, fun q => ⟨hcontents q, hready q⟩⟩
    have hmem := h.mem_iff cq
    have hr := h.ready
    have hs := h.stalled
    have hrsum := sendBatch_sum h cq ⟨(sq.queues cq).stalledQueue ++ qm :: qms, (sq.queues cq).readyQueue⟩
      (fun q => bytes q.readyQueue) rfl
    have hssum := sendBatch_sum h cq ⟨(sq.queues cq).stalledQueue ++ qm :: qms, (sq.queues cq).readyQueue⟩
      (fun q => bytes q.stalledQueue) rfl
    have hnew : bytes (qm :: qms) = ((qm :: qms).map fun qm => qm.msg.length).sum := rfl
    simp only [bytes_append, hnew] at hrsum hssum
    refine ⟨?_, fun q => ?_, ?_, ?_⟩
    · simp only
      split_ifs with hempty
      · have hout : cq ∉ sq.pendingQueues := fun hin => hmem.mp hin ((isEmpty_iff _).mp hempty)
        exact h.nodup.append (List.nodup_singleton cq) (List.disjoint_singleton.mpr hout)
      · exact h.nodup
    · simp only
      rw [hcontents]
      by_cases hq : cq = q
      · rw [← hq, if_pos rfl]
        refine ⟨fun _ hnone => by simp at hnone, fun _ => ?_⟩
        split_ifs with hempty
        · exact List.mem_append_right _ (List.mem_singleton_self cq)
        · exact hmem.mpr fun hnone => hempty ((isEmpty_iff _).mpr hnone)
      · rw [if_neg hq, List.append_nil]
        split_ifs
        · rw [List.mem_append, List.mem_singleton, or_iff_left (Ne.symm hq)]
          exact h.mem_iff q
        · exact h.mem_iff q
    · simp only
      omega
    · simp only
      omega

/-- What the messages of the queues and of the blocks have in common, along a run with these events. -/
structure Ordered (es : List HostEvent) (s : Host) : Prop where
  queued : Queued s.sq
  contents : ∀ q, ofQueue q (s.log.flatMap Prod.snd) ++ (s.sq.queues q).contents = submitted q es
  readyClock : ∀ q, ∀ qm ∈ (s.sq.queues q).readyQueue, ∃ clocks, .command clocks ∈ es ∧ qm.minClock ≤ clocks.ackClock
  sentClock : ∀ b ∈ s.log, ∀ qm ∈ b.2, ∃ clocks, .command clocks ∈ es ∧ qm.2.minClock ≤ clocks.ackClock
  size : ∀ b ∈ s.log, (SerialQueue.payload b.2).length ≤ 59

variable {s s' : Host} {es : List HostEvent} {e : HostEvent}

/-- An event that does not touch the queues. -/
theorem Ordered.of_same {naks : List (ℕ × ℕ)} (h : Ordered es s) (hs : SameQueues s.sq sq')
    (he : ∀ q, submitted q [e] = []) :
    Ordered (es ++ [e]) ⟨sq', s.log, naks⟩ := by
  have hqueues := hs.1
  refine ⟨h.queued.of_same hs, fun q => ?_, fun q qm hqm => ?_, fun b hb qm hqm => ?_, h.size⟩
  · have hsub : submitted q (es ++ [e]) = submitted q es ++ submitted q [e] := List.flatMap_append
    rw [hsub, he, List.append_nil, ← h.contents q]
    simp only [hqueues]
  · simp only [hqueues] at hqm
    obtain ⟨clocks, hmem, hle⟩ := h.readyClock q qm hqm
    exact ⟨clocks, List.mem_append_left _ hmem, hle⟩
  · obtain ⟨clocks, hmem, hle⟩ := h.sentClock b hb qm hqm
    exact ⟨clocks, List.mem_append_left _ hmem, hle⟩

/-- **One event.** -/
theorem Ordered.step (h : Ordered es s) (hs : HostStep s e s') : Ordered (es ++ [e]) s' := by
  have hsub (q : ℕ) : submitted q (es ++ [e]) = submitted q es ++ submitted q [e] := List.flatMap_append
  have hold {P : SerialQueue.Clocks → Prop} (hex : ∃ clocks, HostEvent.command clocks ∈ es ∧ P clocks) :
      ∃ clocks, HostEvent.command clocks ∈ es ++ [e] ∧ P clocks := by
    obtain ⟨clocks, hmem, hp⟩ := hex
    exact ⟨clocks, List.mem_append_left _ hmem, hp⟩
  cases hs with
  | send cq msgs =>
    obtain ⟨hq, hspec⟩ := sendBatch_spec h.queued cq msgs
    refine ⟨hq, fun q => ?_, fun q qm hqm => ?_, fun b hb qm hqm => hold (h.sentClock b hb qm hqm), h.size⟩
    · have hone : submitted q [.send cq msgs] = if cq = q then SerialQueue.batch msgs else [] := List.append_nil _
      rw [hsub, hone, ← h.contents q, (hspec q).1, List.append_assoc]
    · simp only [(hspec q).2] at hqm
      exact hold (h.readyClock q qm hqm)
  | @wait sq clocks hround =>
    obtain ⟨hw, hq⟩ := commandRound_wait h.queued hround
    refine ⟨hq, fun q => ?_, fun q qm hqm => ?_, fun b hb qm hqm => hold (h.sentClock b hb qm hqm), h.size⟩
    · rw [hsub, ← h.contents q, hw.contents q]
      exact (List.append_nil _).symm
    · rcases hw.ready q qm hqm with hqm | hclock
      · exact hold (h.readyClock q qm hqm)
      · exact ⟨clocks, List.mem_append_right _ (List.mem_singleton_self _), hclock⟩
  | @block sq clocks out qms hround =>
    obtain ⟨-, -, hsize, mid, built, hw, htaken, rfl⟩ := commandRound_block h.queued hround
    have hwoken : ∀ q, ∀ qm ∈ (mid.queues q).readyQueue,
        ∃ clocks', HostEvent.command clocks' ∈ es ++ [.command clocks] ∧ qm.minClock ≤ clocks'.ackClock := by
      intro q qm hqm
      rcases hw.ready q qm hqm with hqm | hclock
      · exact hold (h.readyClock q qm hqm)
      · exact ⟨clocks, List.mem_append_right _ (List.mem_singleton_self _), hclock⟩
    refine ⟨htaken.queued.of_same ⟨rfl, rfl, rfl, rfl⟩, fun q => ?_,
      fun q qm hqm => hwoken q qm (htaken.ready q qm hqm),
      fun b hb qm hqm => ?_, fun b hb => ?_⟩
    · rw [hsub, ← h.contents q, ← hw.contents q, htaken.contents q, List.flatMap_append, ofQueue_append]
      simp [submitted, SerialQueue.storeBlock]
    · rcases List.mem_append.mp hb with hb | hb
      · exact hold (h.sentClock b hb qm hqm)
      · rw [List.mem_singleton.mp hb] at hqm
        exact hwoken qm.1 qm.2 (htaken.taken qm hqm)
    · rcases List.mem_append.mp hb with hb | hb
      · exact h.size b hb
      · rw [List.mem_singleton.mp hb]
        exact hsize
  | retransmit => exact h.of_same ⟨rfl, rfl, rfl, rfl⟩ fun _ => rfl
  | message block => exact h.of_same (sameQueues_handleMessage s.sq block) fun _ => rfl
  | pull => exact h.of_same (same_pull s.sq).1 fun _ => rfl
  | setReceiveWindow w => exact h.of_same ⟨rfl, rfl, rfl, rfl⟩ fun _ => rfl

theorem ordered_alloc : Ordered [] Host.alloc :=
  ⟨⟨List.nodup_nil, fun _ => by simp [Host.alloc, SerialQueue.alloc, CommandQueue.contents], rfl, rfl⟩, fun _ => rfl,
    fun _ _ h => absurd h List.not_mem_nil, fun _ h => absurd h List.not_mem_nil, fun _ h => absurd h List.not_mem_nil⟩

theorem ordered_of_run (h : Run HostStep Host.alloc es s) : Ordered es s :=
  h.history ordered_alloc fun _ _ _ _ ho hs => ho.step hs

/-- **No queue loses, doubles or reorders a message**, whatever the other side sends: what went into blocks, and what
waits, is what was queued.  The counters are exact; a message goes when its `min_clock` has come, into a block that has
room for it; and a round of `command_event` does not fail, as long as the clocks are below `MAX_CLOCK`. -/
theorem queues_in_order (h : Run HostStep Host.alloc es s) :
    (∀ q, ofQueue q (s.log.flatMap Prod.snd) ++ (s.sq.queues q).contents = submitted q es) ∧
      s.sq.readyBytes = ((s.sq.pendingQueues.map fun q => bytes (s.sq.queues q).readyQueue).sum : ℕ) ∧
      s.sq.stalledBytes = ((s.sq.pendingQueues.map fun q => bytes (s.sq.queues q).stalledQueue).sum : ℕ) ∧
      (∀ q, q ∈ s.sq.pendingQueues ↔ (s.sq.queues q).contents ≠ []) ∧
      (∀ b ∈ s.log, (SerialQueue.payload b.2).length ≤ 59 ∧
        ∀ qm ∈ b.2, ∃ clocks, .command clocks ∈ es ∧ qm.2.minClock ≤ clocks.ackClock) ∧
      ((∀ q, ∀ qm ∈ submitted q es, qm.reqClock < maxClock) → ∀ clocks, (s.sq.commandRound clocks).isSome) := by
  have ho := ordered_of_run h
  refine ⟨ho.contents, ho.queued.ready, ho.queued.stalled, ho.queued.mem_iff,
    fun b hb => ⟨ho.size b hb, ho.sentClock b hb⟩,
    fun hclock clocks => commandRound_isSome ho.queued (fun q qm hqm => hclock q qm ?_) clocks⟩
  rw [← ho.contents q]
  exact List.mem_append_right _ hqm

/-- A message is queued, and the host can go on. -/
theorem queues_in_order_concreteCase :
    ((SerialQueue.alloc.sendBatch 7 [⟨[5], 0, 0, 0⟩]).1.commandRound ⟨0, 0, none⟩).isSome := by
  have hrun := (Run.nil Host.alloc).snoc (HostStep.send 7 [⟨[5], 0, 0, 0⟩])
  refine (queues_in_order hrun).2.2.2.2.2 (fun q qm hqm => ?_) _
  by_cases hq : 7 = q
  · subst hq
    have hmem : qm ∈ [(⟨[5], 0, 0, 0⟩ : QueueMessage)] := hqm
    rw [List.mem_singleton.mp hmem]
    decide
  · simp [submitted, hq] at hqm

end Runs

end Cxsw.Link
