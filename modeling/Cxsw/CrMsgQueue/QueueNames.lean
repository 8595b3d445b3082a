import Mathlib.Data.List.Nodup
import Cxsw.CrMsgQueue.Map

/-!
# Cxsw.CrMsgQueue.QueueNames — separation of queue names (`Map.cpp`, `CrSharedMsgQueue.c`)

Several names are opened with `CrMsgOpen`, and `CrMsgSend` and `CrMsgRecv` run on the handles.  The message queues of
the system are a parameter, one for each name; the backup buffers are those of the registry, which `CrQueueBuffInit`
finds by the hash of the name alone.

* `crMsgRecv`, `crMsgSend`: the two calls, on the queue and the buffer that the handle points to.
* `NamesApart`: each name has a buffer of its own size, and its calls behave as if the others were not made.
* `namesApart_iff`: so it is exactly when the names have different hashes.
-/

namespace Cxsw.MsgQueue

/-! ## The functions -/

section Defs

variable {Q : Type}

/-- A message queue of the system that does not block: `recv` with the length of the caller's buffer gives the message,
its priority and the rest, `send` gives the queue with the message. -/
structure PosixQueue (Q : Type) where
  recv : Q → ℕ → Option (List UInt8 × ℕ × Q)
  send : Q → List UInt8 → ℕ → Option Q

/-- `memcpy` of `n` bytes. -/
def memcpy (dst src : List UInt8) (n : ℕ) : List UInt8 := src.take n ++ dst.drop n

/-- What a call returns, and for a receive the caller's buffer and the priority, where it is written. -/
structure MsgResult where
  ret : ℤ
  msgBuff : List UInt8
  msgPri : Option ℕ
  deriving DecidableEq

/-- What a handle points to: the message queue and the content of `DataBuff`. -/
structure MsgChannel (Q : Type) where
  queue : Q
  dataBuff : List UInt8

/-- `CrMsgRecv` on an open handle; `msgBuff` is the caller's buffer of `MsgLen` bytes. -/
def crMsgRecv (posix : PosixQueue Q) (h : SharedMsgQueue) (c : MsgChannel Q) (msgBuff : List UInt8) :
    MsgResult × MsgChannel Q :=
  match posix.recv c.queue msgBuff.length with
  | none =>
    if h.usingBuff then
      -- the content of the last receive
      let msgLen := min h.dataLen msgBuff.length
      (⟨msgLen, memcpy msgBuff c.dataBuff msgLen.toNat, none⟩, c)
    else (⟨-1, msgBuff, none⟩, c)
  | some (m, msgPri, queue) =>
    let msgBuff := memcpy msgBuff m m.length
    let size := min h.dataLen msgBuff.length
    (⟨msgBuff.length, msgBuff, some msgPri⟩,
      ⟨queue, if h.usingBuff then memcpy c.dataBuff msgBuff size.toNat else c.dataBuff⟩)

/-- `CrMsgSend` on an open handle; `data` is what its local array holds before it is used. -/
def crMsgSend (posix : PosixQueue Q) (h : SharedMsgQueue) (c : MsgChannel Q) (msgBuff : List UInt8) (msgPri : ℕ)
    (data : ℕ → UInt8) : MsgResult × MsgChannel Q :=
  match posix.send c.queue msgBuff msgPri with
  | some queue => (⟨msgBuff.length, msgBuff, none⟩, { c with queue := queue })
  | none =>
    if !h.usingBuff then (⟨-1, msgBuff, none⟩, c)
    else
      let r := crMsgRecv posix h c ((List.range h.dataLen.toNat).map data)
      if r.1.ret < 0 then (⟨-1, msgBuff, none⟩, r.2)
      else
        match posix.send r.2.queue msgBuff msgPri with
        | none => (⟨-1, msgBuff, none⟩, r.2)
        | some queue => (⟨msgBuff.length, msgBuff, none⟩, { r.2 with queue := queue })

/-- A call on a handle. -/
inductive MsgOp
  | send (msgBuff : List UInt8) (msgPri : ℕ) (data : ℕ → UInt8)
  | recv (msgBuff : List UInt8)

/-- Its result. -/
def MsgOp.run (posix : PosixQueue Q) (h : SharedMsgQueue) (c : MsgChannel Q) : MsgOp → MsgResult × MsgChannel Q
  | .send msgBuff msgPri data => crMsgSend posix h c msgBuff msgPri data
  | .recv msgBuff => crMsgRecv posix h c msgBuff

/-- The message queues by name, and the allocated buffers. -/
structure QueueMemory (Q : Type) where
  queues : List UInt8 → Q
  buffs : ℕ → Option (List UInt8)

/-- What the handle points to, if it is open. -/
def QueueMemory.channel (m : QueueMemory Q) (h : SharedMsgQueue) : Option (MsgChannel Q) :=
  match h.queue, h.dataBuff with
  | some name, some p => (m.buffs p).map fun bytes => ⟨m.queues name, bytes⟩
  | _, _ => none

/-- It is written. -/
def QueueMemory.store (m : QueueMemory Q) (h : SharedMsgQueue) (c : MsgChannel Q) : QueueMemory Q :=
  match h.queue, h.dataBuff with
  | some name, some p =>
    ⟨Function.update m.queues name c.queue, Function.update m.buffs p (some c.dataBuff)⟩
  | _, _ => m

/-- A call on one of the handles; there is no result where the handle is not open. -/
def QueueMemory.call (posix : PosixQueue Q) (handles : List SharedMsgQueue) (m : QueueMemory Q) (i : ℕ × MsgOp) :
    QueueMemory Q × Option MsgResult :=
  match handles[i.1]? with
  | none => (m, none)
  | some h =>
    match m.channel h with
    | none => (m, none)
    | some c => (m.store h (i.2.run posix h c).2, some (i.2.run posix h c).1)

/-- The same on what one handle points to. -/
def MsgChannel.call (posix : PosixQueue Q) (h : SharedMsgQueue) (c : MsgChannel Q) (op : MsgOp) :
    MsgChannel Q × Option MsgResult :=
  ((op.run posix h c).2, some (op.run posix h c).1)

/-- The call, if it is on handle `k`. -/
def onHandle (k : ℕ) (i : ℕ × MsgOp) : Option MsgOp := if i.1 = k then some i.2 else none

/-- A name that is opened with a message size. -/
structure Opening where
  outcomes : Outcomes
  name : List UInt8
  msgSize : ℤ

/-- `CrMsgOpen` for each of them in turn. -/
def openAll (l : List Opening) : Option QueueSystem :=
  l.foldlM (fun s q => s.call (.msgOpen q.outcomes (some q.name) (some q.msgSize))) QueueSystem.init

/-- **The names are kept apart.** -/
structure NamesApart (l : List Opening) (s : QueueSystem) : Prop where
  /-- Each name has a buffer of its message size, -/
  size : ∀ (k : ℕ) (q : Opening) (h : SharedMsgQueue), l[k]? = some q → s.handles[k]? = some h →
    ∃ p bytes, h.dataBuff = some p ∧ s.registry.buffs p = some bytes ∧ (bytes.length : ℤ) = q.msgSize ∧
      h.dataLen = q.msgSize
  /-- which is its own, -/
  own : ∀ (k k' : ℕ) (h h' : SharedMsgQueue), s.handles[k]? = some h → s.handles[k']? = some h' → k ≠ k' →
    h.dataBuff ≠ h'.dataBuff
  /-- and in every run of calls, those on its handle return what they return without the others. -/
  apart : ∀ (Q : Type) (posix : PosixQueue Q) (queues : List UInt8 → Q) (calls : List (ℕ × MsgOp)) (k : ℕ)
    (h : SharedMsgQueue), s.handles[k]? = some h → ∃ c, QueueMemory.channel ⟨queues, s.registry.buffs⟩ h = some c ∧
      outputsAt (onHandle k) (QueueMemory.call posix s.handles) ⟨queues, s.registry.buffs⟩ calls =
        (mealy (MsgChannel.call posix h) c (calls.filterMap (onHandle k))).2

end Defs

/-! ## Opening -/

section Opening

variable {l : List Opening} {s t : QueueSystem} {q : Opening} {g g' : Registry} {h : SharedMsgQueue}

theorem crMsgOpen_some {o : Outcomes} {name : List UInt8} {msgSize : ℤ} (hfresh : Fresh g)
    (hlive : ∀ p, mapFind g.mapPtr (bernsteinHash name prime) = some p → ∃ info, g.infos p = some info)
    (h1 : crMsgOpen g o (some name) (some msgSize) = some (some h, g')) :
    ∃ attr, h = ⟨true, attr.data, attr.dataLen, attr.queueName, some name, some attr.mutex⟩ ∧
      InitResult g name msgSize (true, some attr, g') := by
  unfold crMsgOpen at h1
  dsimp only at h1
  by_cases hqueue : o.queue = true
  swap
  · rw [if_pos (by simpa using hqueue)] at h1
    cases h1
  rw [if_neg (by simpa using hqueue)] at h1
  obtain ⟨⟨ret, attr, g1⟩, hr, h1⟩ := Option.bind_eq_some_iff.mp h1
  obtain ⟨-, hinit⟩ := (crQueueBuffInit_result hfresh hlive).of_eq_some hr
  cases ret with
  | false => cases h1
  | true =>
    cases attr with
    | none => cases h1
    | some attr =>
      dsimp only at h1
      by_cases hhandle : o.handle = true
      · rw [if_pos hhandle] at h1
        cases h1
        exact ⟨attr, rfl, hinit⟩
      · rw [if_neg hhandle] at h1
        obtain ⟨_, -, hpair⟩ := Option.map_eq_some_iff.mp h1
        cases hpair

/-- The handle points to the entry that is found under the hash of its name. -/
def Points (g : Registry) (q : Opening) (h : SharedMsgQueue) : Prop :=
  h.queue = some q.name ∧ ∃ p info, mapFind g.mapPtr (bernsteinHash q.name prime) = some p ∧ g.infos p = some info ∧
    h.dataBuff = some p ∧ h.dataLen = info.buffLen

/-- The entries are those of the names that are open, each with the buffer of its first opener, and the handles point to
them. -/
structure Opened (l : List Opening) (g : Registry) (handles : List SharedMsgQueue) : Prop where
  fresh : Fresh g
  entry : ∀ key p, mapFind g.mapPtr key = some p → ∃ q ∈ l, bernsteinHash q.name prime = key ∧
    ∃ count bytes, g.infos p = some ⟨count, some p, q.msgSize, some p⟩ ∧ g.buffs p = some bytes ∧
      (bytes.length : ℤ) = q.msgSize
  inj : ∀ key key' p, mapFind g.mapPtr key = some p → mapFind g.mapPtr key' = some p → key = key'
  handle : List.Forall₂ (Points g) l handles

theorem opened_init : Opened [] Registry.init [] where
  fresh _ _ := ⟨rfl, rfl, rfl⟩
  entry _ _ h := by cases h
  inj _ _ _ h := by cases h
  handle := .nil

theorem Points.mono (hp : Points g q h)
    (hfind : ∀ key p, mapFind g.mapPtr key = some p → mapFind g'.mapPtr key = some p)
    (hinfos : ∀ p info, g.infos p = some info → ∃ info', g'.infos p = some info' ∧ info'.buffLen = info.buffLen) :
    Points g' q h := by
  obtain ⟨hqueue, p, info, hf, hi, hd, hlen⟩ := hp
  obtain ⟨info', hi', heq⟩ := hinfos p info hi
  exact ⟨hqueue, p, info', hfind _ p hf, hi', hd, hlen.trans heq.symm⟩

theorem Fresh.ne {info : QueueBuffInfo} {p p' : ℕ} (hf : Fresh g) (hi : g.infos p = some info) (hp' : g.next ≤ p') :
    p' ≠ p := by
  rintro rfl
  rw [(hf p' hp').1] at hi
  cases hi

/-- **One more name.** -/
theorem Opened.concat {handles : List SharedMsgQueue} {attr : QueueBuffAttr} (ho : Opened l g handles)
    (hinit : InitResult g q.name q.msgSize (true, some attr, g')) :
    Opened (l ++ [q]) g'
      (handles ++ [⟨true, attr.data, attr.dataLen, attr.queueName, some q.name, some attr.mutex⟩]) := by
  cases hinit with
  | @shared p info _ hfind hinfo hmap hinfos hnames hbuffs hnext =>
    obtain ⟨first, -, -, count, _, hinfo', -⟩ := ho.entry _ p hfind
    obtain rfl := Option.some.inj (hinfo.symm.trans hinfo')
    have hself : g'.infos p = some ⟨count + 1, some p, first.msgSize, some p⟩ := by
      rw [hinfos, Function.update_self]
    refine ⟨fun p' hp' => ?_, fun key p' hfind' => ?_, fun key key' p' hk hk' => ?_, ?_⟩
    · obtain ⟨hi, hn, hb⟩ := ho.fresh p' (hnext ▸ hp')
      rw [hinfos, hnames, hbuffs, Function.update_of_ne (ho.fresh.ne hinfo (hnext ▸ hp'))]
      exact ⟨hi, hn, hb⟩
    · obtain ⟨q', hq', hkey, count', bytes, hi, hb, hsize⟩ := ho.entry key p' ((hmap key).symm.trans hfind')
      rw [hbuffs]
      by_cases heq : p' = p
      · rw [heq, hinfo] at hi
        have hlen : first.msgSize = q'.msgSize := congrArg QueueBuffInfo.buffLen (Option.some.inj hi)
        rw [heq, hself, hlen]
        exact ⟨q', List.mem_append_left _ hq', hkey, count + 1, bytes, rfl, heq ▸ hb, hsize⟩
      · rw [hinfos, Function.update_of_ne heq]
        exact ⟨q', List.mem_append_left _ hq', hkey, count', bytes, hi, hb, hsize⟩
    · exact ho.inj key key' p' ((hmap key).symm.trans hk) ((hmap key').symm.trans hk')
    · refine List.rel_append (ho.handle.imp fun q' h hp => hp.mono (fun key p' hf => (hmap key).trans hf) ?_)
        (.cons ⟨rfl, p, _, (hmap _).trans hfind, hself, rfl, rfl⟩ .nil)
      intro p' info' hi
      by_cases heq : p' = p
      · rw [heq, hinfo] at hi
        rw [heq]
        exact ⟨_, hself, by cases hi; rfl⟩
      · exact ⟨info', by rw [hinfos, Function.update_of_ne heq]; exact hi, rfl⟩
  | created hsize hfind hmap hinfos hnames hbuffs hnext =>
    have hself : g'.infos g.next = some ⟨1, some g.next, q.msgSize, some g.next⟩ := by
      rw [hinfos, Function.update_self]
    have hold : ∀ key p, mapFind g.mapPtr key = some p → p ≠ g.next := by
      intro key p hp
      obtain ⟨_, -, -, _, _, hi, -⟩ := ho.entry key p hp
      exact (ho.fresh.ne hi le_rfl).symm
    refine ⟨fun p' hp' => ?_, fun key p' hfind' => ?_, fun key key' p' hk hk' => ?_, ?_⟩
    · have hne : p' ≠ g.next := by omega
      rw [hinfos, hnames, hbuffs, Function.update_of_ne hne, Function.update_of_ne hne, Function.update_of_ne hne]
      exact ho.fresh p' (by omega)
    · rw [hmap] at hfind'
      split_ifs at hfind' with hkey
      · obtain rfl := Option.some.inj hfind'
        rw [hself, hbuffs, Function.update_self]
        exact ⟨q, List.mem_append_right _ (List.mem_singleton_self q), hkey.symm, 1, _, rfl, rfl, by
          rw [List.length_replicate]; omega⟩
      · obtain ⟨q', hq', hkey', count', bytes, hi, hb, hsize'⟩ := ho.entry key p' hfind'
        have hne := hold key p' hfind'
        rw [hinfos, hbuffs, Function.update_of_ne hne, Function.update_of_ne hne]
        exact ⟨q', List.mem_append_left _ hq', hkey', count', bytes, hi, hb, hsize'⟩
    · rw [hmap] at hk hk'
      split_ifs at hk hk' with h1 h2
      · rw [h1, h2]
      · exact absurd (Option.some.inj hk).symm (hold key' p' hk')
      · exact absurd (Option.some.inj hk').symm (hold key p' hk)
      · exact ho.inj key key' p' hk hk'
    · refine List.rel_append (ho.handle.imp fun q' h hp => hp.mono (fun key p' hf => ?_) fun p' info' hi => ?_)
        (.cons ⟨rfl, g.next, _, by rw [hmap, if_pos rfl], hself, rfl, rfl⟩ .nil)
      · have hne : key ≠ bernsteinHash q.name prime := by
          rintro rfl
          rw [hfind] at hf
          cases hf
        rw [hmap, if_neg hne]
        exact hf
      · exact ⟨info', by rw [hinfos, Function.update_of_ne (ho.fresh.ne hi le_rfl).symm]; exact hi, rfl⟩

theorem opened_openAll : ∀ (l : List Opening) {s : QueueSystem}, openAll l = some s → s.handles.length ≤ l.length ∧
    (s.handles.length = l.length → Opened l s.registry s.handles) := by
  intro l
  induction l using List.reverseRecOn with
  | nil =>
    intro s hs
    obtain rfl := Option.some.inj hs
    exact ⟨le_rfl, fun _ => opened_init⟩
  | append_singleton l q ih =>
    intro t ht
    unfold openAll at ht
    rw [List.foldlM_append] at ht
    obtain ⟨s, hs, ht⟩ := Option.bind_eq_some_iff.mp ht
    rw [List.foldlM_cons] at ht
    obtain ⟨t', hcall, ht'⟩ := Option.bind_eq_some_iff.mp ht
    obtain rfl := Option.some.inj ht'
    obtain ⟨hle, hopened⟩ := ih hs
    rw [List.length_append, List.length_singleton]
    obtain ⟨⟨r, g⟩, hr, rfl⟩ := Option.map_eq_some_iff.mp hcall
    cases r with
    | none => exact ⟨Nat.le_succ_of_le hle, fun hlen => absurd hlen (Nat.ne_of_lt (Nat.lt_succ_of_le hle))⟩
    | some h =>
      dsimp only
      rw [List.length_append, List.length_singleton]
      refine ⟨Nat.succ_le_succ hle, fun hlen => ?_⟩
      have ho := hopened (Nat.succ.inj hlen)
      obtain ⟨attr, rfl, hinit⟩ := crMsgOpen_some ho.fresh (fun p hp => by
        obtain ⟨_, -, -, _, _, hinfo, -⟩ := ho.entry _ p hp
        exact ⟨_, hinfo⟩) hr
      exact ho.concat hinit

theorem forall₂_getElem? {α β : Type} {R : α → β → Prop} {as : List α} {bs : List β} (hR : List.Forall₂ R as bs) :
    ∀ {k : ℕ} {b : β}, bs[k]? = some b → ∃ a, as[k]? = some a ∧ R a b := by
  induction hR with
  | nil =>
    intro k b hb
    cases hb
  | cons hab _ ih =>
    intro k b hb
    cases k with
    | zero =>
      obtain rfl := Option.some.inj hb
      exact ⟨_, rfl, hab⟩
    | succ k => exact ih hb

theorem Opened.points {handles : List SharedMsgQueue} (ho : Opened l g handles) {k : ℕ} (hk : handles[k]? = some h) :
    ∃ q, l[k]? = some q ∧ Points g q h :=
  forall₂_getElem? ho.handle hk

/-- Two handles share a buffer exactly when the hashes of their names are equal. -/
theorem Points.dataBuff_eq_iff {q q' : Opening} {h h' : SharedMsgQueue} {handles : List SharedMsgQueue}
    (ho : Opened l g handles) (hp : Points g q h) (hp' : Points g q' h') :
    h.dataBuff = h'.dataBuff ↔ bernsteinHash q.name prime = bernsteinHash q'.name prime := by
  obtain ⟨-, p, -, hf, -, hd, -⟩ := hp
  obtain ⟨-, p', -, hf', -, hd', -⟩ := hp'
  rw [hd, hd']
  constructor
  · intro heq
    obtain rfl := Option.some.inj heq
    exact ho.inj _ _ p hf hf'
  · intro heq
    rw [← hf, ← hf', heq]

end Opening

/-! ## Separation -/

section Apart

variable {Q : Type} {l : List Opening} {s : QueueSystem} {h h' : SharedMsgQueue} {m : QueueMemory Q}
  {c c' : MsgChannel Q}

theorem channel_store (hc : m.channel h = some c) : (m.store h c').channel h = some c' := by
  unfold QueueMemory.channel QueueMemory.store at *
  cases hq : h.queue with
  | none =>
    rw [hq] at hc
    cases hc
  | some name =>
    cases hd : h.dataBuff with
    | none =>
      rw [hq, hd] at hc
      cases hc
    | some p =>
      dsimp only
      rw [Function.update_self, Function.update_self]
      rfl

theorem channel_store_of_ne (hqueue : h.queue ≠ h'.queue) (hdata : h.dataBuff ≠ h'.dataBuff) :
    (m.store h' c').channel h = m.channel h := by
  unfold QueueMemory.channel QueueMemory.store
  cases hq : h.queue with
  | none => rfl
  | some name =>
    cases hd : h.dataBuff with
    | none => rfl
    | some p =>
      cases hq' : h'.queue with
      | none => rfl
      | some name' =>
        cases hd' : h'.dataBuff with
        | none => rfl
        | some p' =>
          have hname : name ≠ name' := fun heq => hqueue (by rw [hq, hq', heq])
          have hp : p ≠ p' := fun heq => hdata (by rw [hd, hd', heq])
          dsimp only
          rw [Function.update_of_ne hname, Function.update_of_ne hp]

/-- **The others do not matter**: the calls on handle `k`, if no other handle has its name or its buffer. -/
theorem outputsAt_call (posix : PosixQueue Q) {handles : List SharedMsgQueue} {k : ℕ} (hk : handles[k]? = some h)
    (hne : ∀ k' h', handles[k']? = some h' → k' ≠ k → h.queue ≠ h'.queue ∧ h.dataBuff ≠ h'.dataBuff)
    (hc : m.channel h = some c) (calls : List (ℕ × MsgOp)) :
    outputsAt (onHandle k) (QueueMemory.call posix handles) m calls =
      (mealy (MsgChannel.call posix h) c (calls.filterMap (onHandle k))).2 := by
  refine outputsAt_eq (R := fun m c => m.channel h = some c) ?_ ?_ calls m c hc (allSteps_true _ m calls)
  · rintro m c ⟨k', op⟩ op' hc - hop
    unfold onHandle at hop
    split_ifs at hop with hkk
    obtain rfl := Option.some.inj hop
    dsimp only at hkk
    subst hkk
    unfold QueueMemory.call MsgChannel.call
    dsimp only
    rw [hk]
    dsimp only
    rw [hc]
    exact ⟨channel_store hc, rfl⟩
  · rintro m c ⟨k', op⟩ hc - hop
    unfold onHandle at hop
    split_ifs at hop with hkk
    unfold QueueMemory.call
    dsimp only
    cases hk' : handles[k']? with
    | none => exact hc
    | some h' =>
      dsimp only
      cases hc' : m.channel h' with
      | none => exact hc
      | some c' =>
        obtain ⟨hqueue, hdata⟩ := hne k' h' hk' hkk
        exact (channel_store_of_ne hqueue hdata).trans hc

theorem eq_of_nodup_map {α β : Type} {f : α → β} {as : List α} (hnodup : (as.map f).Nodup) {k k' : ℕ} {a a' : α}
    (ha : as[k]? = some a) (ha' : as[k']? = some a') (heq : f a = f a') : k = k' := by
  have hlt := (List.getElem?_eq_some_iff.mp ha).1
  refine (List.getElem?_inj (by rw [List.length_map]; exact hlt) hnodup).mp ?_
  rw [List.getElem?_map, List.getElem?_map, ha, ha']
  exact congrArg some heq

/-- **Separation.**  Names that were opened are kept apart exactly when their hashes differ. -/
theorem namesApart_iff (hnames : (l.map Opening.name).Nodup) (hs : openAll l = some s)
    (hall : s.handles.length = l.length) :
    NamesApart l s ↔ (l.map fun q => bernsteinHash q.name prime).Nodup := by
  have ho := (opened_openAll l hs).2 hall
  constructor
  · intro hapart
    rw [List.nodup_iff_getElem?_ne_getElem?]
    intro k k' hlt hlen heq
    rw [List.length_map] at hlen
    obtain ⟨h, hk⟩ : ∃ h, s.handles[k]? = some h := ⟨_, List.getElem?_eq_getElem (by omega)⟩
    obtain ⟨h', hk'⟩ : ∃ h', s.handles[k']? = some h' := ⟨_, List.getElem?_eq_getElem (by omega)⟩
    obtain ⟨q, hq, hp⟩ := ho.points hk
    obtain ⟨q', hq', hp'⟩ := ho.points hk'
    rw [List.getElem?_map, List.getElem?_map, hq, hq'] at heq
    exact hapart.own k k' h h' hk hk' hlt.ne ((hp.dataBuff_eq_iff ho hp').mpr (Option.some.inj heq))
  · intro hhash
    have hown : ∀ (k k' : ℕ) (h h' : SharedMsgQueue), s.handles[k]? = some h → s.handles[k']? = some h' → k ≠ k' →
        h.dataBuff ≠ h'.dataBuff := by
      intro k k' h h' hk hk' hne heq
      obtain ⟨q, hq, hp⟩ := ho.points hk
      obtain ⟨q', hq', hp'⟩ := ho.points hk'
      exact hne (eq_of_nodup_map hhash hq hq' ((hp.dataBuff_eq_iff ho hp').mp heq))
    have hsize : ∀ (k : ℕ) (q : Opening) (h : SharedMsgQueue), l[k]? = some q → s.handles[k]? = some h →
        ∃ p bytes, h.dataBuff = some p ∧ s.registry.buffs p = some bytes ∧ (bytes.length : ℤ) = q.msgSize ∧
          h.dataLen = q.msgSize := by
      intro k q h hq hk
      obtain ⟨q', hq', -, p, info, hf, hi, hd, hlen⟩ := ho.points hk
      obtain rfl := Option.some.inj (hq.symm.trans hq')
      obtain ⟨first, hfirst, hkey, count, bytes, hi', hb, hbytes⟩ := ho.entry _ p hf
      obtain rfl := Option.some.inj (hi.symm.trans hi')
      -- no other opening has the hash
      obtain rfl : first = q := List.inj_on_of_nodup_map hhash hfirst (List.mem_of_getElem? hq) hkey
      exact ⟨p, bytes, hd, hb, hbytes, hlen⟩
    refine ⟨hsize, hown, fun Q posix queues calls k h hk => ?_⟩
    obtain ⟨q, hq, hqueue, -⟩ := ho.points hk
    obtain ⟨p, bytes, hd, hb, -⟩ := hsize k q h hq hk
    have hc : QueueMemory.channel ⟨queues, s.registry.buffs⟩ h = some ⟨queues q.name, bytes⟩ := by
      unfold QueueMemory.channel
      rw [hqueue, hd]
      dsimp only
      rw [hb]
      rfl
    refine ⟨_, hc, outputsAt_call posix hk (fun k' h' hk' hne => ⟨fun heq => hne ?_, ?_⟩) hc calls⟩
    · obtain ⟨q', hq', hqueue', -⟩ := ho.points hk'
      rw [hqueue, hqueue'] at heq
      exact eq_of_nodup_map hnames hq' hq (Option.some.inj heq).symm
    · exact hown k k' h h' hk hk' hne.symm

/-- Two names of one hash share a buffer: the message of the first is received on the second. -/
theorem colliding_names :
    let ok : Outcomes := ⟨true, true, true, true, true, true, true⟩
    let l : List Opening := [⟨ok, [65, 97], 2⟩, ⟨ok, [66, 66], 4⟩]
    let slot : PosixQueue (Option (List UInt8)) :=
      ⟨fun q _ => q.map fun m => (m, 0, none), fun q m _ => if q.isNone then some (some m) else none⟩
    (l.map Opening.name).Nodup ∧ ∃ s, openAll l = some s ∧ s.handles.length = l.length ∧ ¬ NamesApart l s ∧
      (mealy (QueueMemory.call slot s.handles) ⟨fun _ => none, s.registry.buffs⟩
        [(0, .send [7, 8] 0 fun _ => 0), (0, .recv [0, 0]), (1, .recv [0, 0, 0, 0])]).2 =
        [some ⟨2, [7, 8], none⟩, some ⟨2, [7, 8], some 0⟩, some ⟨2, [7, 8, 0, 0], none⟩] := by
  intro ok l slot
  refine ⟨by decide, _, rfl, rfl, fun h => ?_, rfl⟩
  exact h.own 0 1 _ _ rfl rfl (by decide) rfl

/-- Two names of different hashes. -/
theorem namesApart_twoNames :
    let ok : Outcomes := ⟨true, true, true, true, true, true, true⟩
    let l : List Opening := [⟨ok, [65], 8⟩, ⟨ok, [66], 4⟩]
    ∃ s, openAll l = some s ∧ (NamesApart l s ↔ (l.map fun q => bernsteinHash q.name prime).Nodup) := by
  intro ok l
  exact ⟨_, rfl, namesApart_iff (by decide) rfl rfl⟩

end Apart

end Cxsw.MsgQueue
