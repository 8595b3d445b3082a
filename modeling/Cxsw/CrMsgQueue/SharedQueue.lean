import Mathlib.Data.List.DropRight
import Mathlib.Order.Nat
import Cxsw.Lib.Run

/-!
# Cxsw.CrMsgQueue.SharedQueue — sending and receiving (`CrMsgQueue/SharedQueue/CrSharedMsgQueue.c`)

`CrMsgSend` and `CrMsgRecv` work on a message queue of capacity one, opened without blocking, and on a backup buffer of
one message that the handles of a queue name share.  A receive that finds the queue empty returns the backup; a send
that finds it full first receives a message itself, which backs that up, and then tries again.

The two calls run in different threads; `ChannelStep` interleaves their operations on the queue and on the buffer.

* `Numbered`: messages carry the number of the send, which no operation looks at.
* `ChannelInv`: the invariant.
* `latest_value`: receives never go back, and the last message is received from the first call on.
-/

namespace Cxsw.MsgQueue

/-! ## The step relation -/

section Defs

variable {M : Type*}

/-- A message and the number of its send; `0` is the content of the buffer before all sends. -/
structure Numbered (M : Type*) where
  number : ℕ
  content : M

/-- Where `CrMsgSend` stands. -/
inductive SenderPc (M : Type*)
  | idle
  /-- Before the first `CrMsgQueueTimedSend`. -/
  | sending (m : Numbered M)
  /-- The queue was full; before the `CrMsgQueueTimedRecv` of its `CrMsgRecv`. -/
  | draining (m : Numbered M)
  /-- That took a message; before the copy into the buffer. -/
  | backing (m d : Numbered M)
  /-- It found the queue empty; before the copy out of the buffer, which is not used. -/
  | reading (m : Numbered M)
  /-- Before the second `CrMsgQueueTimedSend`. -/
  | retrying (m : Numbered M)

/-- Where `CrMsgRecv` stands. -/
inductive ReceiverPc (M : Type*)
  | idle
  /-- Before its `CrMsgQueueTimedRecv`. -/
  | receiving
  /-- That took a message; before the copy into the buffer. -/
  | backing (d : Numbered M)
  /-- It found the queue empty; before the copy out of the buffer. -/
  | reading

/-- The queue, the buffer `DataBuff`, the two threads, the messages given to `CrMsgSend` so far, what its last call has
returned, how many calls of `CrMsgRecv` have begun, and what those that are over have returned. -/
structure Channel (M : Type*) where
  queue : Option (Numbered M)
  dataBuff : Numbered M
  sender : SenderPc M
  receiver : ReceiverPc M
  sent : List M
  result : Option Bool
  calls : ℕ
  returned : List (Numbered M)

/-- Nothing is sent, and the buffer has its first content. -/
def Channel.init (first : M) : Channel M := ⟨none, ⟨0, first⟩, .idle, .idle, [], none, 0, []⟩

/-- The threads' operations; a call of `CrMsgSend` brings its message. -/
inductive ChannelAct (M : Type*)
  | sendCall (m : M)
  | sender
  | receiver

/-- One operation of one thread. -/
inductive ChannelStep : Channel M → ChannelAct M → Channel M → Prop
  | sendCall {s : Channel M} (m : M) : s.sender = .idle →
      ChannelStep s (.sendCall m) { s with sender := .sending ⟨s.sent.length + 1, m⟩, sent := s.sent ++ [m] }
  | sendOk {s : Channel M} {m : Numbered M} : s.sender = .sending m → s.queue = none →
      ChannelStep s .sender { s with queue := some m, sender := .idle, result := some true }
  | sendFull {s : Channel M} {m q : Numbered M} : s.sender = .sending m → s.queue = some q →
      ChannelStep s .sender { s with sender := .draining m }
  | drain {s : Channel M} {m q : Numbered M} : s.sender = .draining m → s.queue = some q →
      ChannelStep s .sender { s with queue := none, sender := .backing m q }
  | drainEmpty {s : Channel M} {m : Numbered M} : s.sender = .draining m → s.queue = none →
      ChannelStep s .sender { s with sender := .reading m }
  | backup {s : Channel M} {m d : Numbered M} : s.sender = .backing m d →
      ChannelStep s .sender { s with dataBuff := d, sender := .retrying m }
  | read {s : Channel M} {m : Numbered M} : s.sender = .reading m →
      ChannelStep s .sender { s with sender := .retrying m }
  | retryOk {s : Channel M} {m : Numbered M} : s.sender = .retrying m → s.queue = none →
      ChannelStep s .sender { s with queue := some m, sender := .idle, result := some true }
  | retryFull {s : Channel M} {m q : Numbered M} : s.sender = .retrying m → s.queue = some q →
      ChannelStep s .sender { s with sender := .idle, result := some false }
  | recvCall {s : Channel M} : s.receiver = .idle →
      ChannelStep s .receiver { s with receiver := .receiving, calls := s.calls + 1 }
  | recvTake {s : Channel M} {q : Numbered M} : s.receiver = .receiving → s.queue = some q →
      ChannelStep s .receiver { s with queue := none, receiver := .backing q }
  | recvEmpty {s : Channel M} : s.receiver = .receiving → s.queue = none →
      ChannelStep s .receiver { s with receiver := .reading }
  | recvBackup {s : Channel M} {d : Numbered M} : s.receiver = .backing d →
      ChannelStep s .receiver { s with dataBuff := d, receiver := .idle, returned := s.returned ++ [d] }
  | recvRead {s : Channel M} : s.receiver = .reading →
      ChannelStep s .receiver { s with receiver := .idle, returned := s.returned ++ [s.dataBuff] }

/-- The number belongs to the content. -/
def Sent (first : M) (sent : List M) (m : Numbered M) : Prop := (first :: sent)[m.number]? = some m.content

/-- What was received follows the order in which it was sent. -/
def InOrder (first : M) (s : Channel M) : Prop :=
  (s.returned.map Numbered.number).Pairwise (· ≤ ·) ∧ ∀ r ∈ s.returned, Sent first s.sent r

/-- From `s` on every call of `CrMsgRecv` returns `m`, as long as nothing is sent. -/
def Latest (s : Channel M) (m : M) : Prop :=
  ∀ (acts : List (ChannelAct M)) (t : Channel M), Run ChannelStep s acts t → (∀ a ∈ acts, ∀ v, a ≠ .sendCall v) →
    ∀ k ≥ s.calls, ∀ r, t.returned[k]? = some r → r.content = m

end Defs

/-! ## The invariant -/

section Inv

variable {M : Type*} {first : M} {s t : Channel M} {a : ChannelAct M}

/-- The message that a call of `CrMsgSend` has not enqueued yet. -/
def SenderPc.message : SenderPc M → Option (Numbered M)
  | .idle => none
  | .sending m => some m
  | .draining m => some m
  | .backing m _ => some m
  | .reading m => some m
  | .retrying m => some m

/-- The message that it has taken out. -/
def SenderPc.taken : SenderPc M → Option (Numbered M)
  | .backing _ d => some d
  | _ => none

/-- It has emptied the queue, or found it empty. -/
def SenderPc.Emptied : SenderPc M → Prop
  | .backing _ _ => True
  | .reading _ => True
  | .retrying _ => True
  | _ => False

/-- The number of the newest message that was enqueued. -/
def Channel.newest (s : Channel M) : ℕ :=
  match s.sender.message with
  | none => s.sent.length
  | some _ => s.sent.length - 1

/-- The message that the buffer holds as soon as the receiver has backed up what it has taken. -/
def Channel.backup (s : Channel M) : Numbered M :=
  match s.receiver with
  | .backing d => d
  | _ => s.dataBuff

/-- **The invariant.**  The queue holds the newest message.  Nothing that was received is newer than the backup, which
is the newest message itself when the queue is empty and the sender is not about to fill it again. -/
structure ChannelInv (first : M) (s : Channel M) : Prop where
  message : ∀ m ∈ s.sender.message, m.number = s.sent.length ∧ Sent first s.sent m
  queue : ∀ q ∈ s.queue, q.number = s.newest ∧ Sent first s.sent q
  taken : ∀ d ∈ s.sender.taken, d.number = s.newest ∧ Sent first s.sent d
  emptied : s.sender.Emptied → s.queue = none
  buffer : Sent first s.sent s.dataBuff
  backup : s.backup.number ≤ s.newest ∧ Sent first s.sent s.backup
  received : ∀ r ∈ s.returned, r.number ≤ s.backup.number
  inOrder : InOrder first s
  fresh : s.queue = none → ¬ s.sender.Emptied → s.backup.number = s.newest
  result : s.result ≠ some false

theorem channelInv_init (first : M) : ChannelInv first (Channel.init first) where
  message m hm := by cases hm
  queue q hq := by cases hq
  taken d hd := by cases hd
  emptied _ := rfl
  buffer := rfl
  backup := ⟨le_rfl, rfl⟩
  received r hr := by cases hr
  inOrder := ⟨List.Pairwise.nil, fun r hr => by cases hr⟩
  fresh _ _ := rfl
  result := by simp [Channel.init]

theorem Sent.concat {sent : List M} {m : Numbered M} (h : Sent first sent m) (v : M) : Sent first (sent ++ [v]) m := by
  unfold Sent at h ⊢
  rw [← List.cons_append, List.getElem?_append_left (List.getElem?_eq_some_iff.mp h).1]
  exact h

theorem sent_concat (first : M) (sent : List M) (v : M) : Sent first (sent ++ [v]) ⟨sent.length + 1, v⟩ := by
  simp [Sent]

theorem InOrder.concat {d : Numbered M} (h : InOrder first s) (hd : Sent first s.sent d)
    (hle : ∀ r ∈ s.returned, r.number ≤ d.number) :
    InOrder first { s with returned := s.returned ++ [d] } := by
  refine ⟨?_, fun r hr => ?_⟩
  · rw [List.map_append, List.pairwise_append]
    refine ⟨h.1, List.pairwise_singleton _ _, fun x hx y hy => ?_⟩
    obtain ⟨r, hr, rfl⟩ := List.mem_map.mp hx
    obtain rfl := List.mem_singleton.mp hy
    exact hle r hr
  · rcases List.mem_append.mp hr with hr | hr
    · exact h.2 r hr
    · obtain rfl := List.mem_singleton.mp hr
      exact hd

theorem newest_le (s : Channel M) : s.newest ≤ s.sent.length := by
  unfold Channel.newest
  split <;> omega

/-- The queue is filled: whatever is in the buffer is older. -/
theorem ChannelInv.enqueue (h : ChannelInv first s) {m : Numbered M} (hm : s.sender.message = some m) :
    ChannelInv first { s with queue := some m, sender := .idle, result := some true } where
  message m hm := by cases hm
  queue q hq := by
    obtain rfl := Option.some.inj hq
    exact h.message m hm
  taken d hd := by cases hd
  emptied he := by cases he
  buffer := h.buffer
  backup := ⟨h.backup.1.trans (newest_le s), h.backup.2⟩
  received := h.received
  inOrder := h.inOrder
  fresh hq := by cases hq
  result := by simp

/-- A move of the sender within a call that fills nothing in. -/
theorem ChannelInv.move (h : ChannelInv first s) {pc : SenderPc M} (queue : Option (Numbered M))
    (hmessage : pc.message = s.sender.message) (hqueue : ∀ q ∈ queue, q ∈ s.queue)
    (htaken : ∀ d ∈ pc.taken, d ∈ s.queue) (hemptied : pc.Emptied → queue = none)
    (hfresh : queue = none → ¬ pc.Emptied → s.queue = none ∧ ¬ s.sender.Emptied) :
    ChannelInv first { s with queue := queue, sender := pc } := by
  have hnewest : Channel.newest { s with queue := queue, sender := pc } = s.newest := by
    unfold Channel.newest
    dsimp only
    rw [hmessage]
  exact
    { message := fun m hm => h.message m (hmessage ▸ hm)
      queue := fun q hq => by
        rw [hnewest]
        exact h.queue q (hqueue q hq)
      taken := fun d hd => by
        rw [hnewest]
        exact h.queue d (htaken d hd)
      emptied := hemptied
      buffer := h.buffer
      backup := by
        rw [hnewest]
        exact h.backup
      received := h.received
      inOrder := h.inOrder
      fresh := fun hq he => by
        rw [hnewest]
        exact h.fresh (hfresh hq he).1 (hfresh hq he).2
      result := h.result }

/-- A move of the receiver that neither takes nor returns a message. -/
theorem ChannelInv.wait (h : ChannelInv first s) {pc : ReceiverPc M} (calls : ℕ)
    (hbackup : Channel.backup { s with receiver := pc, calls := calls } = s.backup) :
    ChannelInv first { s with receiver := pc, calls := calls } where
  message := h.message
  queue := h.queue
  taken := h.taken
  emptied := h.emptied
  buffer := h.buffer
  backup := by
    rw [hbackup]
    exact h.backup
  received := by
    rw [hbackup]
    exact h.received
  inOrder := h.inOrder
  fresh := by
    rw [hbackup]
    exact h.fresh
  result := h.result

theorem ChannelInv.take (h : ChannelInv first s) {q : Numbered M} (hq : s.queue = some q) :
    ChannelInv first { s with queue := none, receiver := .backing q } where
  message := h.message
  queue _ hq := by cases hq
  taken := h.taken
  emptied _ := rfl
  buffer := h.buffer
  backup := ⟨(h.queue q hq).1.le, (h.queue q hq).2⟩
  received r hr := ((h.received r hr).trans h.backup.1).trans (h.queue q hq).1.ge
  inOrder := h.inOrder
  fresh _ _ := (h.queue q hq).1
  result := h.result

theorem ChannelInv.return (h : ChannelInv first s) :
    ChannelInv first { s with
      dataBuff := s.backup, receiver := .idle, returned := s.returned ++ [s.backup] } where
  message := h.message
  queue := h.queue
  taken := h.taken
  emptied := h.emptied
  buffer := h.backup.2
  backup := h.backup
  received r hr := by
    rcases List.mem_append.mp hr with hr | hr
    · exact h.received r hr
    · rw [List.mem_singleton.mp hr]
      exact le_rfl
  inOrder := h.inOrder.concat h.backup.2 h.received
  fresh := h.fresh
  result := h.result

/-- **Every operation** keeps the invariant. -/
theorem ChannelInv.step (h : ChannelInv first s) (hs : ChannelStep s a t) : ChannelInv first t := by
  cases hs with
  | sendCall m hpc =>
    have hold : s.newest = s.sent.length := by
      rw [Channel.newest, hpc]
      rfl
    have hnewest : Channel.newest { s with
        sender := .sending ⟨s.sent.length + 1, m⟩, sent := s.sent ++ [m] } = s.newest := by
      rw [hold]
      simp [Channel.newest, SenderPc.message]
    exact
      { message := fun m' hm' => by
          obtain rfl := Option.some.inj hm'
          exact ⟨by simp, sent_concat first s.sent m⟩
        queue := fun q hq => by
          rw [hnewest]
          exact ⟨(h.queue q hq).1, (h.queue q hq).2.concat m⟩
        taken := fun d hd => by cases hd
        emptied := fun he => by cases he
        buffer := h.buffer.concat m
        backup := by
          rw [hnewest]
          exact ⟨h.backup.1, h.backup.2.concat m⟩
        received := h.received
        inOrder := ⟨h.inOrder.1, fun r hr => (h.inOrder.2 r hr).concat m⟩
        fresh := fun hq _ => by
          rw [hnewest]
          exact h.fresh hq (by rw [hpc]; exact id)
        result := h.result }
  | sendOk hpc _ => exact h.enqueue (by rw [hpc]; rfl)
  | retryOk hpc _ => exact h.enqueue (by rw [hpc]; rfl)
  | sendFull hpc hq =>
    refine h.move s.queue (by rw [hpc]; rfl) (fun q hq => hq) (fun d hd => by cases hd)
      (fun he => by cases he) fun hnone _ => ⟨hnone, ?_⟩
    rw [hpc]
    exact id
  | drain hpc hq =>
    refine h.move none (by rw [hpc]; rfl) (fun q hq => by cases hq) (fun d hd => ?_) (fun _ => rfl)
      fun _ he => absurd trivial he
    obtain rfl := Option.some.inj hd
    exact hq
  | drainEmpty hpc hq =>
    exact h.move s.queue (by rw [hpc]; rfl) (fun q hq => hq) (fun d hd => by cases hd) (fun _ => hq)
      fun _ he => absurd trivial he
  | read hpc =>
    have hq : s.queue = none := h.emptied (by rw [hpc]; trivial)
    exact h.move s.queue (by rw [hpc]; rfl) (fun q hq => hq) (fun d hd => by cases hd) (fun _ => hq)
      fun _ he => absurd trivial he
  | retryFull hpc hq =>
    -- the sender has emptied the queue, and nobody else fills it
    have hnone : s.queue = none := h.emptied (by rw [hpc]; trivial)
    rw [hnone] at hq
    cases hq
  | @backup m d hpc =>
    obtain ⟨hnumber, hsent⟩ := h.taken d (by rw [hpc]; rfl)
    have hq : s.queue = none := h.emptied (by rw [hpc]; trivial)
    have hnewest : Channel.newest { s with dataBuff := d, sender := .retrying m } = s.newest := by
      rw [Channel.newest, Channel.newest, hpc]
      rfl
    -- the buffer gets the newest message, unless the receiver is about to overwrite it
    have hbackup : Channel.backup { s with dataBuff := d, sender := .retrying m } = s.backup ∨
        Channel.backup { s with dataBuff := d, sender := .retrying m } = d := by
      unfold Channel.backup
      dsimp only
      split
      · exact Or.inl rfl
      · exact Or.inr rfl
    exact
      { message := fun m' hm' => h.message m' (by rw [hpc]; exact hm')
        queue := fun q hq' => by
          rw [hnewest]
          exact h.queue q hq'
        taken := fun d hd => by cases hd
        emptied := fun _ => hq
        buffer := hsent
        backup := by
          rw [hnewest]
          rcases hbackup with hb | hb
          · rw [hb]
            exact h.backup
          · rw [hb]
            exact ⟨hnumber.le, hsent⟩
        received := fun r hr => by
          rcases hbackup with hb | hb
          · rw [hb]
            exact h.received r hr
          · rw [hb, hnumber]
            exact (h.received r hr).trans h.backup.1
        inOrder := h.inOrder
        fresh := fun _ he => absurd trivial he
        result := h.result }
  | recvCall hpc =>
    refine h.wait (s.calls + 1) ?_
    rw [Channel.backup, Channel.backup, hpc]
  | recvEmpty hpc _ =>
    refine h.wait s.calls ?_
    rw [Channel.backup, Channel.backup, hpc]
  | recvTake _ hq => exact h.take hq
  | @recvBackup d hpc =>
    have hd : s.backup = d := by rw [Channel.backup, hpc]
    rw [← hd]
    exact h.return
  | recvRead hpc =>
    have hd : s.backup = s.dataBuff := by rw [Channel.backup, hpc]
    have hreturn := h.return
    rw [hd] at hreturn
    exact hreturn

theorem ChannelInv.run {acts : List (ChannelAct M)} (h : Run ChannelStep (Channel.init first) acts s) :
    ChannelInv first s :=
  h.invariant (channelInv_init first) fun _ _ _ ht hstep => ht.step hstep

end Inv

/-! ## The last message -/

section Last

variable {M : Type*} {first m : M} {s t : Channel M} {a : ChannelAct M} {k : ℕ}

/-- How many calls of `CrMsgRecv` are not over. -/
def ReceiverPc.busy : ReceiverPc M → ℕ
  | .idle => 0
  | _ => 1

/-- The calls that have begun are those that are over and the one that is not. -/
def Counted (s : Channel M) : Prop := s.returned.length + s.receiver.busy = s.calls

theorem Counted.step (h : Counted s) (hs : ChannelStep s a t) : Counted t := by
  unfold Counted at h ⊢
  cases hs with
  | recvCall hpc =>
    rw [hpc] at h
    exact congrArg (· + 1) h
  | recvTake hpc _ =>
    rw [hpc] at h
    exact h
  | recvEmpty hpc _ =>
    rw [hpc] at h
    exact h
  | recvBackup hpc =>
    rw [hpc] at h
    simpa [ReceiverPc.busy] using h
  | recvRead hpc =>
    rw [hpc] at h
    simpa [ReceiverPc.busy] using h
  | _ => exact h

/-- After a send that has succeeded, and nothing sent since: the calls of `CrMsgRecv` from number `k` on return the
newest message, and they find the queue empty only when the buffer has it. -/
structure LastInv (first : M) (k : ℕ) (m : M) (s : Channel M) : Prop where
  inv : ChannelInv first s
  idle : s.sender = .idle
  last : s.sent.getLast? = some m
  counted : Counted s
  returned : ∀ i ≥ k, ∀ r, s.returned[i]? = some r → r.number = s.newest
  backing : ∀ d, s.receiver = .backing d → k < s.calls → d.number = s.newest
  reading : s.receiver = .reading → k < s.calls → s.queue = none

theorem LastInv.concat (h : LastInv first k m s) {d : Numbered M} (hbusy : s.receiver.busy = 1)
    (hd : k < s.calls → d.number = s.newest) :
    ∀ i ≥ k, ∀ r, (s.returned ++ [d])[i]? = some r → r.number = s.newest := by
  intro i hi r hr
  have hcounted := h.counted
  unfold Counted at hcounted
  rcases Nat.lt_or_ge i s.returned.length with hlt | hge
  · rw [List.getElem?_append_left hlt] at hr
    exact h.returned i hi r hr
  · rw [List.getElem?_append_right hge] at hr
    obtain ⟨hzero, heq⟩ := List.getElem?_eq_some_iff.mp hr
    have hone : i - s.returned.length = 0 := by
      rw [List.length_singleton] at hzero
      omega
    simp only [hone, List.getElem_cons_zero] at heq
    rw [← heq]
    exact hd (by omega)

theorem LastInv.step (h : LastInv first k m s) (ha : ∀ v, a ≠ .sendCall v) (hs : ChannelStep s a t) :
    LastInv first k m t := by
  have hinv := h.inv.step hs
  have hcounted := h.counted.step hs
  have hidle := h.idle
  cases hs with
  | sendCall v _ => exact absurd rfl (ha v)
  | recvCall hpc =>
    exact ⟨hinv, hidle, h.last, hcounted, h.returned, (fun d hd => by cases hd), (fun hd => by cases hd)⟩
  | @recvTake q hpc hq =>
    refine ⟨hinv, hidle, h.last, hcounted, h.returned, fun d hd _ => ?_, fun hd => by cases hd⟩
    obtain rfl : q = d := by injection hd
    exact (h.inv.queue q hq).1
  | recvEmpty hpc hq =>
    exact ⟨hinv, hidle, h.last, hcounted, h.returned, (fun d hd => by cases hd), fun _ _ => hq⟩
  | @recvBackup d hpc =>
    refine ⟨hinv, hidle, h.last, hcounted, ?_, (fun d hd => by cases hd), (fun hd => by cases hd)⟩
    exact h.concat (by rw [hpc]; rfl) (h.backing d hpc)
  | recvRead hpc =>
    refine ⟨hinv, hidle, h.last, hcounted, ?_, (fun d hd => by cases hd), (fun hd => by cases hd)⟩
    refine h.concat (by rw [hpc]; rfl) fun hk => ?_
    have hfresh := h.inv.fresh (h.reading hpc hk) (by rw [hidle]; exact id)
    rwa [Channel.backup, hpc] at hfresh
  | sendOk hpc _ => rw [hidle] at hpc; cases hpc
  | sendFull hpc _ => rw [hidle] at hpc; cases hpc
  | drain hpc _ => rw [hidle] at hpc; cases hpc
  | drainEmpty hpc _ => rw [hidle] at hpc; cases hpc
  | backup hpc => rw [hidle] at hpc; cases hpc
  | read hpc => rw [hidle] at hpc; cases hpc
  | retryOk hpc _ => rw [hidle] at hpc; cases hpc
  | retryFull hpc _ => rw [hidle] at hpc; cases hpc

/-- What the newest message is once the sender is idle. -/
theorem LastInv.content (h : LastInv first k m s) {i : ℕ} (hi : k ≤ i) {r : Numbered M}
    (hr : s.returned[i]? = some r) : r.content = m := by
  have hnumber : r.number = s.sent.length := by
    rw [h.returned i hi r hr, Channel.newest, h.idle]
    rfl
  have hsent := h.inv.inOrder.2 r (List.mem_of_getElem? hr)
  have hlast := h.last
  rw [List.getLast?_eq_getElem?] at hlast
  have hpos : 0 < s.sent.length := by
    have hlt := (List.getElem?_eq_some_iff.mp hlast).1
    omega
  rw [Sent, hnumber, List.getElem?_cons, if_neg hpos.ne', hlast] at hsent
  exact (Option.some.inj hsent).symm

end Last

/-! ## Calls that nothing interrupts -/

section Whole

variable {M : Type*}

/-- The queue and the backup buffer between the calls. -/
structure Shared (M : Type*) where
  queue : List M
  dataBuff : M
  deriving DecidableEq

/-- A whole `CrMsgRecv`, with what it returns. -/
def Shared.crMsgRecv (c : Shared M) : M × Shared M :=
  match c.queue with
  | [] => (c.dataBuff, c)
  | d :: rest => (d, ⟨rest, d⟩)

/-- A whole `CrMsgSend` to a queue of capacity `maxMsg`. -/
def Shared.crMsgSend (maxMsg : ℕ) (m : M) (c : Shared M) : Shared M :=
  if c.queue.length < maxMsg then { c with queue := c.queue ++ [m] }
  else
    let c' := (Shared.crMsgRecv c).2
    if c'.queue.length < maxMsg then { c' with queue := c'.queue ++ [m] } else c'

/-- What the next `CrMsgRecv` returns when `ms` has been sent: the oldest message that the queue still holds. -/
def Shared.afterSends (maxMsg : ℕ) (c : Shared M) (ms : List M) : M := ((c.queue ++ ms).rtake maxMsg).headD c.dataBuff

theorem length_rtake_le {α : Type*} (l : List α) (n : ℕ) : (l.rtake n).length ≤ n := by
  rw [List.rtake, List.length_drop]
  omega

theorem rtake_of_length_le {α : Type*} {l : List α} {n : ℕ} (h : l.length ≤ n) : l.rtake n = l := by
  rw [List.rtake, Nat.sub_eq_zero_of_le h, List.drop_zero]

theorem rtake_concat_rtake {α : Type*} (l : List α) (x : α) (n : ℕ) : (l.rtake n ++ [x]).rtake n = (l ++ [x]).rtake n := by
  cases n with
  | zero => simp
  | succ n =>
    have hinner : (l.rtake (n + 1)).rtake n = l.rtake n := by
      simp [List.rtake_eq_reverse_take_reverse, List.take_take]
    rw [List.rtake_concat_succ, List.rtake_concat_succ, hinner]

variable {maxMsg : ℕ} {c : Shared M}

theorem queue_crMsgSend (hfits : c.queue.length ≤ maxMsg) (m : M) :
    (Shared.crMsgSend maxMsg m c).queue = (c.queue ++ [m]).rtake maxMsg := by
  rcases c with ⟨queue, dataBuff⟩
  by_cases hroom : queue.length < maxMsg
  · rw [Shared.crMsgSend, if_pos hroom, rtake_of_length_le (by simpa using Nat.succ_le_of_lt hroom)]
  · obtain rfl : maxMsg = queue.length := le_antisymm (not_lt.mp hroom) hfits
    cases queue with
    | nil => rfl
    | cons d rest => simp [Shared.crMsgSend, Shared.crMsgRecv, List.rtake]

theorem queue_sends (hfits : c.queue.length ≤ maxMsg) (ms : List M) :
    (ms.foldl (fun c m => Shared.crMsgSend maxMsg m c) c).queue = (c.queue ++ ms).rtake maxMsg := by
  induction ms using List.reverseRecOn with
  | nil => rw [List.foldl_nil, List.append_nil, rtake_of_length_le hfits]
  | append_singleton ms m ih =>
    have hfits' := length_rtake_le (c.queue ++ ms) maxMsg
    rw [← ih] at hfits'
    rw [List.foldl_concat, queue_crMsgSend hfits', ih, rtake_concat_rtake, List.append_assoc]

theorem crMsgRecv_fst (c : Shared M) : (Shared.crMsgRecv c).1 = c.queue.headD c.dataBuff := by
  rcases c with ⟨_ | ⟨d, rest⟩, dataBuff⟩
  · rfl
  · rfl

/-- **The oldest message that is left** is received next. -/
theorem crMsgRecv_sends (hfits : c.queue.length ≤ maxMsg) (hpos : 0 < maxMsg) (ms : List M) :
    (Shared.crMsgRecv (ms.foldl (fun c m => Shared.crMsgSend maxMsg m c) c)).1 = c.afterSends maxMsg ms := by
  rw [crMsgRecv_fst, queue_sends hfits, Shared.afterSends]
  cases ms with
  | nil => rfl
  | cons m ms =>
    have hne : (c.queue ++ m :: ms).rtake maxMsg ≠ [] := by
      rw [List.rtake, ne_eq, List.drop_eq_nil_iff, not_le]
      simp only [List.length_append, List.length_cons]
      omega
    obtain ⟨d, rest, hd⟩ := List.exists_cons_of_ne_nil hne
    rw [hd, List.headD_cons, List.headD_cons]

end Whole

end Cxsw.MsgQueue
