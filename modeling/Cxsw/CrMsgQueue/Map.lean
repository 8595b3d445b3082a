import Mathlib.Data.Set.Function
import Mathlib.Logic.Function.Basic
import Mathlib.Tactic.Common
import Cxsw.Lib.Run

/-!
# Cxsw.CrMsgQueue.Map — the registry of backup buffers (`CrMsgQueue/SharedQueue/Map.cpp`)

`CrMsgOpen` takes the backup buffer of a queue name from a map that is keyed by a hash of the name, and creates it for
the first opener; `CrMsgClose` gives it back, and the last one frees it.  The handles keep pointers into the entry.

A pointer is the number of the call of `CrQueueBuffInit` that has allocated the block; the information, the name and the
buffer of an entry are allocated at their own places.  Where the code would use a block that was freed, or write to a
block for which there was no memory, a function has no result.  The latter it does with the map and its nodes:
`operator new` is `rt_malloc` and returns `NULL`, which neither `new` nor `insert` asks for.

* `crQueueBuffInit`, `crQueueBuffUnInit`, `crMsgOpen`, `crMsgClose`: the functions.
* `RegistryOk`, `SystemInv`: the invariants.
* `registry_lifetimes_iff`: for names with different hashes, entries live exactly as long as they are open, as long as
  the map and its nodes get their memory.
-/

namespace Cxsw.MsgQueue

/-! ## The functions -/

section Defs

/-- `PRIME`. -/
def prime : Int32 := 31

/-- `BernsteinHash`; plain `char` is unsigned on the target, and the sum wraps. -/
def bernsteinHash (key : List UInt8) (prime : Int32) : Int32 :=
  key.foldl (fun hash c => prime * hash + c.toUInt32.toInt32) 0

/-- `QueueBuffInfo_t`. -/
structure QueueBuffInfo where
  count : ℤ
  buff : Option ℕ
  buffLen : ℤ
  queueName : Option ℕ

/-- `MapPtr`, and what is allocated. -/
structure Registry where
  mapPtr : Option (Int32 → Option ℕ)
  infos : ℕ → Option QueueBuffInfo
  names : ℕ → Option (List UInt8)
  buffs : ℕ → Option (List UInt8)
  next : ℕ

/-- Nothing is allocated. -/
def Registry.init : Registry := ⟨none, fun _ => none, fun _ => none, fun _ => none, 0⟩

/-- Which of the calls to the system succeed: `CrMsgQueueOpen`, and each allocation; `map` and `node` are made by
`new`. -/
structure Outcomes where
  queue : Bool
  map : Bool
  info : Bool
  name : Bool
  buff : Bool
  node : Bool
  handle : Bool

/-- `MapFind`. -/
def mapFind (map : Option (Int32 → Option ℕ)) (key : Int32) : Option ℕ := map.bind fun m => m key

/-- `MapInsert`: the data, if it was inserted, and the map.  The pair is built in a new `node` of the map. -/
def mapInsert (map : Option (Int32 → Option ℕ)) (key : Int32) (data : ℕ) (node : Bool) :
    Option (Option ℕ × Option (Int32 → Option ℕ)) :=
  match map with
  | none => some (none, none)
  | some m =>
    match m key with
    | some _ => some (none, some m)
    | none => if node then some (some data, some (Function.update m key (some data))) else none

/-- `MapErase`. -/
def mapErase (map : Option (Int32 → Option ℕ)) (key : Int32) : Option (Int32 → Option ℕ) :=
  map.map fun m => Function.update m key none

/-- `free`. -/
def free {α : Type} (heap : ℕ → Option α) : Option ℕ → ℕ → Option α
  | none => heap
  | some p => Function.update heap p none

/-- `QueueBuffAttr_t`; the pointer to the lock points into the information. -/
structure QueueBuffAttr where
  data : Option ℕ
  dataLen : ℤ
  queueName : Option ℕ
  mutex : ℕ

/-- The map is created at the first call; its constructor writes to the block before `MapPtr` is compared with
`NULL`. -/
def Registry.createMap (g : Registry) (o : Outcomes) : Option Registry :=
  if g.mapPtr.isSome then some g
  else if o.map then some { g with mapPtr := some fun _ => none } else none

/-- The part of `CrQueueBuffInit` that creates a `Buff`; each exit frees what was allocated before. -/
def Registry.createBuff (g : Registry) (o : Outcomes) (queueName : List UInt8) (msgSize : ℤ) : Option ℕ × Registry :=
  let p := g.next
  let g := { g with next := p + 1 }
  if !o.info then (none, g)
  else
    let g := { g with infos := Function.update g.infos p (some ⟨0, none, 0, none⟩) }
    if !o.name then (none, { g with infos := free g.infos (some p) })
    else
      let g := { g with names := Function.update g.names p (some []) }
      if !o.buff then (none, { g with names := free g.names (some p), infos := free g.infos (some p) })
      else
        (some p, { g with
          infos := Function.update g.infos p (some ⟨0, some p, msgSize, some p⟩)
          names := Function.update g.names p (some queueName)
          buffs := Function.update g.buffs p (some (List.replicate msgSize.toNat 0)) })

/-- The part that frees it again. -/
def Registry.freeBuff (g : Registry) (p : ℕ) (info : QueueBuffInfo) : Registry :=
  { g with
    names := free g.names info.queueName
    buffs := free g.buffs info.buff
    infos := free g.infos (some p) }

/-- The part that counts the opener and fills in `Attr`. -/
def Registry.share (g : Registry) (p : ℕ) : Option (Bool × Option QueueBuffAttr × Registry) :=
  (g.infos p).map fun info =>
    (true, some ⟨info.buff, info.buffLen, info.queueName, p⟩,
      { g with infos := Function.update g.infos p (some { info with count := info.count + 1 }) })

/-- The part that puts it into the map. -/
def Registry.insertBuff (g : Registry) (o : Outcomes) (hash : Int32) (p : ℕ) :
    Option (Bool × Option QueueBuffAttr × Registry) :=
  (mapInsert g.mapPtr hash p o.node).bind fun r =>
    match r with
    | (some _, map) => { g with mapPtr := map }.share p
    -- `Buff` is freed and not used any more, and `Attr` stays unset
    | (none, _) => (g.infos p).map fun info => (true, none, g.freeBuff p info)

/-- `CrQueueBuffInit`: what it returns, and `Attr` if it is set. -/
def crQueueBuffInit (g : Registry) (o : Outcomes) (queueName : List UInt8) (msgSize : ℤ) :
    Option (Bool × Option QueueBuffAttr × Registry) :=
  (g.createMap o).bind fun g =>
    if g.mapPtr.isNone then some (false, none, g)
    else if msgSize < 1 then some (false, none, g)
    else
      let hash := bernsteinHash queueName prime
      match mapFind g.mapPtr hash with
      | some data => g.share data
      | none =>
        match g.createBuff o queueName msgSize with
        | (none, g) => some (false, none, g)
        | (some buff, g) => g.insertBuff o hash buff

/-- `CrQueueBuffUnInit`. -/
def crQueueBuffUnInit (g : Registry) (queueName : Option ℕ) : Option Registry :=
  match queueName with
  | none => some g
  | some q =>
    (g.names q).bind fun name =>
      let hashValue := bernsteinHash name prime
      match mapFind g.mapPtr hashValue with
      | none => some g
      | some newHead =>
        (g.infos newHead).bind fun info =>
          (info.queueName.bind g.names).map fun held =>
            if held = name then
              let info := { info with count := info.count - 1 }
              let g := { g with infos := Function.update g.infos newHead (some info) }
              if info.count ≤ 0 then { g.freeBuff newHead info with mapPtr := mapErase g.mapPtr hashValue } else g
            else g

/-- `SharedMsgQueue_t`; `queue` is the name under which the message queue is open. -/
structure SharedMsgQueue where
  usingBuff : Bool
  dataBuff : Option ℕ
  dataLen : ℤ
  name : Option ℕ
  queue : Option (List UInt8)
  mutex : Option ℕ

/-- `CrMsgOpen`: the handle, or `NULL`.  Of `Attr` it reads the size of a message. -/
def crMsgOpen (g : Registry) (o : Outcomes) (name : Option (List UInt8)) (attr : Option ℤ) :
    Option (Option SharedMsgQueue × Registry) :=
  match name, attr with
  | some name, some msgSize =>
    if !o.queue then some (none, g)
    else
      (crQueueBuffInit g o name msgSize).bind fun r =>
        match r with
        | (false, _, g) => some (none, g)
        | (true, none, _) => none
        | (true, some attr, g) =>
          if o.handle then
            some (some ⟨true, attr.data, attr.dataLen, attr.queueName, some name, some attr.mutex⟩, g)
          else (crQueueBuffUnInit g attr.queueName).map fun g => (none, g)
  | _, _ => some (none, g)

/-- `CrMsgClose`: the handle as it leaves it; it is not freed. -/
def crMsgClose (g : Registry) (queue : SharedMsgQueue) : Option (SharedMsgQueue × Registry) :=
  (crQueueBuffUnInit g queue.name).map fun g => (⟨false, none, 0, none, none, none⟩, g)

/-- The calls of the interface; a handle is the number of the open that has returned it. -/
inductive QueueCall
  | msgOpen (o : Outcomes) (name : Option (List UInt8)) (attr : Option ℤ)
  | msgClose (handle : ℕ)

/-- The registry, the handles that were returned, and how often a name was opened with success and closed. -/
structure QueueSystem where
  registry : Registry
  handles : List SharedMsgQueue
  opens : List UInt8 → ℕ
  closes : List UInt8 → ℕ

/-- Nothing is open. -/
def QueueSystem.init : QueueSystem := ⟨Registry.init, [], fun _ => 0, fun _ => 0⟩

/-- One more for the name under which the message queue is open. -/
def bump (f : List UInt8 → ℕ) : Option (List UInt8) → List UInt8 → ℕ
  | none => f
  | some name => Function.update f name (f name + 1)

/-- The state after a call. -/
def QueueSystem.call (s : QueueSystem) : QueueCall → Option QueueSystem
  | .msgOpen o name attr =>
    (crMsgOpen s.registry o name attr).map fun r =>
      match r with
      | (none, g) => { s with registry := g }
      | (some h, g) => { s with registry := g, handles := s.handles ++ [h], opens := bump s.opens h.queue }
  | .msgClose handle =>
    match s.handles[handle]? with
    | none => some s
    | some h =>
      (crMsgClose s.registry h).map fun r =>
        { s with registry := r.2, handles := s.handles.set handle r.1, closes := bump s.closes h.queue }

/-- The blocks of an entry are allocated. -/
def Outcomes.entry (o : Outcomes) : Bool := o.info && o.name && o.buff

/-- Each `new` that `CrQueueBuffInit` comes to returns a block: that of the map, if there is none yet, and that of the
node, if the name has no entry and its blocks are there. -/
def Registry.NewSucceeds (g : Registry) (o : Outcomes) (name : List UInt8) (msgSize : ℤ) : Prop :=
  (g.mapPtr.isNone = true → o.map = true) ∧
    (1 ≤ msgSize → mapFind g.mapPtr (bernsteinHash name prime) = none → o.entry = true → o.node = true)

/-- The same for a call of the interface. -/
def NewSucceeds (s : QueueSystem) : QueueCall → Prop
  | .msgOpen o (some name) (some msgSize) => o.queue = true → s.registry.NewSucceeds o name msgSize
  | _ => True

/-- The same registry and the same counts. -/
structure Unchanged (g g' : Registry) : Prop where
  find : ∀ key, mapFind g'.mapPtr key = mapFind g.mapPtr key
  infos : g'.infos = g.infos
  names : g'.names = g.names
  buffs : g'.buffs = g.buffs

end Defs

/-! ## What the functions do -/

section Spec

variable {g g' : Registry} {o : Outcomes} {name : List UInt8} {msgSize : ℤ} {key : Int32} {p q : ℕ}

theorem mapFind_insert (m : Int32 → Option ℕ) (key' : Int32) :
    mapFind (some (Function.update m key (some p))) key' = if key' = key then some p else mapFind (some m) key' := by
  simp only [mapFind, Option.bind_some, Function.update_apply]

theorem mapFind_erase (map : Option (Int32 → Option ℕ)) (key' : Int32) :
    mapFind (mapErase map key) key' = if key' = key then none else mapFind map key' := by
  cases map with
  | none => simp [mapFind, mapErase]
  | some m => simp only [mapFind, mapErase, Option.map_some, Option.bind_some, Function.update_apply]

theorem Unchanged.refl (g : Registry) : Unchanged g g := ⟨fun _ => rfl, rfl, rfl, rfl⟩

/-- Nothing is allocated under the numbers that are to come. -/
def Fresh (g : Registry) : Prop := ∀ p ≥ g.next, g.infos p = none ∧ g.names p = none ∧ g.buffs p = none

/-- What was allocated under a fresh number and freed again is as before. -/
theorem free_update {α : Type} {heap : ℕ → Option α} {p : ℕ} (h : heap p = none) (x : Option α) :
    free (Function.update heap p x) (some p) = heap := by
  change Function.update (Function.update heap p x) p none = heap
  rw [Function.update_idem, ← h, Function.update_eq_self]

theorem createMap_result (g : Registry) (o : Outcomes) :
    CallResult (g.mapPtr.isNone = true → o.map = true)
      (fun g' => g'.mapPtr.isSome = true ∧ Unchanged g g' ∧ g'.next = g.next) (g.createMap o) := by
  unfold Registry.createMap
  split_ifs with hsome hmap
  · exact .done (fun hnone => by simp_all) ⟨hsome, Unchanged.refl g, rfl⟩
  · refine .done (fun _ => hmap) ⟨rfl, ⟨fun key => ?_, rfl, rfl, rfl⟩, rfl⟩
    have hnone : g.mapPtr = none := by simpa using hsome
    simp [mapFind, hnone]
  · exact .stuck fun hok => hmap (hok (by simpa using hsome))

theorem createBuff_spec (h : Fresh g) :
    (g.createBuff o name msgSize).2.mapPtr = g.mapPtr ∧ (g.createBuff o name msgSize).2.next = g.next + 1 ∧
      ((g.createBuff o name msgSize).1 = none ∧ o.entry = false ∧ Unchanged g (g.createBuff o name msgSize).2 ∨
        (g.createBuff o name msgSize).1 = some g.next ∧ o.entry = true ∧
          (g.createBuff o name msgSize).2.infos =
            Function.update g.infos g.next (some ⟨0, some g.next, msgSize, some g.next⟩) ∧
          (g.createBuff o name msgSize).2.names = Function.update g.names g.next (some name) ∧
          (g.createBuff o name msgSize).2.buffs =
            Function.update g.buffs g.next (some (List.replicate msgSize.toNat 0))) := by
  obtain ⟨hi, hn, -⟩ := h g.next le_rfl
  unfold Registry.createBuff
  dsimp only
  split_ifs with h1 h2 h3
  · exact ⟨rfl, rfl, Or.inl ⟨rfl, by simp_all [Outcomes.entry], fun _ => rfl, rfl, rfl, rfl⟩⟩
  · exact ⟨rfl, rfl, Or.inl ⟨rfl, by simp_all [Outcomes.entry], fun _ => rfl, free_update hi _, rfl, rfl⟩⟩
  · exact ⟨rfl, rfl, Or.inl ⟨rfl, by simp_all [Outcomes.entry], fun _ => rfl, free_update hi _, free_update hn _, rfl⟩⟩
  · refine ⟨rfl, rfl, Or.inr ⟨rfl, by simp_all [Outcomes.entry], ?_, ?_, rfl⟩⟩
    · exact Function.update_idem ..
    · exact Function.update_idem ..

/-- What `CrQueueBuffInit` returns and leaves. -/
inductive InitResult (g : Registry) (name : List UInt8) (msgSize : ℤ) : Bool × Option QueueBuffAttr × Registry → Prop
  /-- It fails. -/
  | failed {g' : Registry} (h : Unchanged g g') (hnext : g.next ≤ g'.next) : InitResult g name msgSize (false, none, g')
  /-- One more opener of the entry at `p`. -/
  | shared {p : ℕ} {info : QueueBuffInfo} {g' : Registry}
    (hfind : mapFind g.mapPtr (bernsteinHash name prime) = some p) (hinfo : g.infos p = some info)
    (hmap : ∀ key, mapFind g'.mapPtr key = mapFind g.mapPtr key)
    (hinfos : g'.infos = Function.update g.infos p (some { info with count := info.count + 1 }))
    (hnames : g'.names = g.names) (hbuffs : g'.buffs = g.buffs) (hnext : g'.next = g.next) :
    InitResult g name msgSize (true, some ⟨info.buff, info.buffLen, info.queueName, p⟩, g')
  /-- The first opener. -/
  | created {g' : Registry} (hsize : 1 ≤ msgSize) (hfind : mapFind g.mapPtr (bernsteinHash name prime) = none)
    (hmap : ∀ key, mapFind g'.mapPtr key =
      if key = bernsteinHash name prime then some g.next else mapFind g.mapPtr key)
    (hinfos : g'.infos = Function.update g.infos g.next (some ⟨1, some g.next, msgSize, some g.next⟩))
    (hnames : g'.names = Function.update g.names g.next (some name))
    (hbuffs : g'.buffs = Function.update g.buffs g.next (some (List.replicate msgSize.toNat 0)))
    (hnext : g'.next = g.next + 1) :
    InitResult g name msgSize (true, some ⟨some g.next, msgSize, some g.next, g.next⟩, g')

theorem insertBuff_result {info : QueueBuffInfo} (hmap : g.mapPtr.isSome = true) (hfind : mapFind g.mapPtr key = none)
    (hinfo : g.infos p = some info) :
    CallResult (o.node = true) (fun r => ∃ m, r = (true, some ⟨info.buff, info.buffLen, info.queueName, p⟩,
        { g with
          mapPtr := m
          infos := Function.update g.infos p (some { info with count := info.count + 1 }) }) ∧
      ∀ key', mapFind m key' = if key' = key then some p else mapFind g.mapPtr key') (g.insertBuff o key p) := by
  obtain ⟨m, hm⟩ := Option.isSome_iff_exists.mp hmap
  have hkey : m key = none := by
    rw [hm] at hfind
    exact hfind
  unfold Registry.insertBuff Registry.share
  rw [hm]
  simp only [mapInsert, hkey]
  split_ifs with hnode
  · simp only [Option.bind_some, hinfo, Option.map_some]
    refine .done hnode ⟨some (Function.update m key (some p)), rfl, fun key' => ?_⟩
    rw [mapFind_insert]
  · exact .stuck hnode

/-- **`CrQueueBuffInit`** never uses a freed block, if the entry of the name is allocated. -/
theorem crQueueBuffInit_result (h : Fresh g)
    (hlive : ∀ p, mapFind g.mapPtr (bernsteinHash name prime) = some p → ∃ info, g.infos p = some info) :
    CallResult (g.NewSucceeds o name msgSize) (InitResult g name msgSize) (crQueueBuffInit g o name msgSize) := by
  have hmake := createMap_result g o
  unfold crQueueBuffInit
  rcases hg0 : g.createMap o with _ | g0
  · rw [hg0] at hmake
    cases hmake with
    | stuck hno => exact .stuck fun hok => hno hok.1
  obtain ⟨hnew, hsome, hsame, hnext⟩ := hmake.of_eq_some hg0
  rw [Option.bind_some, if_neg (by simp [Option.isSome_iff_ne_none.mp hsome])]
  dsimp only
  split_ifs with hsize
  · exact .done ⟨hnew, fun hle => absurd hle (by omega)⟩ (.failed hsame hnext.ge)
  cases hfind : mapFind g0.mapPtr (bernsteinHash name prime) with
  | some p =>
    rw [hsame.find] at hfind
    obtain ⟨info, hinfo⟩ := hlive p hfind
    simp only [Registry.share, hsame.infos, hinfo, Option.map_some]
    exact .done ⟨hnew, fun _ hnone => by simp [hfind] at hnone⟩
      (@InitResult.shared g name msgSize p info { g0 with
        infos := Function.update g.infos p (some { info with count := info.count + 1 }) } hfind hinfo hsame.find rfl
        hsame.names hsame.buffs hnext)
  | none =>
    have hfresh : Fresh g0 := by
      intro p hp
      rw [hsame.infos, hsame.names, hsame.buffs]
      exact h p (by rw [hnext] at hp; exact hp)
    obtain ⟨hmap, hnext', hcase⟩ := @createBuff_spec g0 o name msgSize hfresh
    rcases hbuff : g0.createBuff o name msgSize with ⟨b, g1⟩
    rw [hbuff] at hmap hnext' hcase
    dsimp only at hmap hnext' hcase ⊢
    rcases hcase with ⟨rfl, hentry, hun⟩ | ⟨rfl, hentry, hinfos, hnames, hbuffs⟩
    · refine .done ⟨hnew, fun _ _ hall => by simp [hentry] at hall⟩
        (.failed ⟨fun key => (hun.find key).trans (hsame.find key), hun.infos.trans hsame.infos,
          hun.names.trans hsame.names, hun.buffs.trans hsame.buffs⟩ ?_)
      rw [hnext', hnext]
      exact Nat.le_succ _
    · have hinsert := @insertBuff_result g1 o (bernsteinHash name prime) g0.next
        ⟨0, some g0.next, msgSize, some g0.next⟩ (by rw [hmap]; exact hsome) (by rw [hmap]; exact hfind)
        (by rw [hinfos, Function.update_self])
      dsimp only
      rcases hr : g1.insertBuff o (bernsteinHash name prime) g0.next with _ | r
      · rw [hr] at hinsert
        cases hinsert with
        | stuck hno =>
          exact .stuck fun hok => hno (hok.2 (by omega) (by rw [← hsame.find]; exact hfind) hentry)
      obtain ⟨hnode, m, rfl, hm⟩ := hinsert.of_eq_some hr
      refine .done ⟨hnew, fun _ _ _ => hnode⟩ ?_
      rw [hnext] at hinfos hnames hbuffs hm ⊢
      refine .created (by omega) (by rw [← hsame.find]; exact hfind) (fun key => ?_) ?_ ?_ ?_ ?_
      · rw [hm, hmap, hsame.find]
      · dsimp only
        rw [hinfos, Function.update_idem, hsame.infos]
        rfl
      · exact hnames.trans (by rw [hsame.names])
      · exact hbuffs.trans (by rw [hsame.buffs])
      · exact hnext'.trans (by rw [hnext])

/-- **`CrQueueBuffUnInit`** of a name that its entry holds: one opener less, and the last one frees the entry. -/
theorem crQueueBuffUnInit_spec {count len : ℤ} (hname : g.names q = some name)
    (hfind : mapFind g.mapPtr (bernsteinHash name prime) = some p)
    (hinfo : g.infos p = some ⟨count, some q, len, some q⟩) :
    crQueueBuffUnInit g (some q) = some (
      if count - 1 ≤ 0 then
        { g with
          mapPtr := mapErase g.mapPtr (bernsteinHash name prime)
          infos := free (Function.update g.infos p (some ⟨count - 1, some q, len, some q⟩)) (some p)
          names := free g.names (some q)
          buffs := free g.buffs (some q) }
      else { g with infos := Function.update g.infos p (some ⟨count - 1, some q, len, some q⟩) }) := by
  unfold crQueueBuffUnInit
  simp only [hname, hfind, hinfo, Option.bind_some, Option.map_some, if_true]
  rfl

/-- What `CrMsgOpen` returns and leaves. -/
inductive OpenResult (g : Registry) (name : Option (List UInt8)) : Option SharedMsgQueue × Registry → Prop
  /-- It fails. -/
  | failed {g' : Registry} (h : Unchanged g g') (hnext : g.next ≤ g'.next) : OpenResult g name (none, g')
  /-- It returns a handle. -/
  | opened {key : List UInt8} {msgSize : ℤ} {attr : QueueBuffAttr} {g' : Registry} (hname : name = some key)
    (h : InitResult g key msgSize (true, some attr, g')) :
    OpenResult g name (some ⟨true, attr.data, attr.dataLen, attr.queueName, some key, some attr.mutex⟩, g')

end Spec

/-! ## The invariant of the registry -/

section Inv

variable {names : Set (List UInt8)} {g g' : Registry} {opened : List UInt8 → ℕ} {name : List UInt8} {p : ℕ}

/-- The entry at `p` is that of `name` and counts `count` openers. -/
structure Entry (g : Registry) (p : ℕ) (name : List UInt8) (count : ℤ) : Prop where
  name : g.names p = some name
  info : ∃ len, g.infos p = some ⟨count, some p, len, some p⟩ ∧ ∃ bytes, g.buffs p = some bytes ∧
    (bytes.length : ℤ) = len

/-- **The invariant.**  The entries are those of the names that are open, each with the number of its openers. -/
structure RegistryOk (names : Set (List UInt8)) (g : Registry) (opened : List UInt8 → ℕ) : Prop where
  fresh : Fresh g
  entry : ∀ key p, mapFind g.mapPtr key = some p →
    ∃ name ∈ names, bernsteinHash name prime = key ∧ 0 < opened name ∧ Entry g p name (opened name)
  held : ∀ name, 0 < opened name → name ∈ names ∧ ∃ p, mapFind g.mapPtr (bernsteinHash name prime) = some p

theorem registryOk_init (names : Set (List UInt8)) : RegistryOk names Registry.init fun _ => 0 where
  fresh _ _ := ⟨rfl, rfl, rfl⟩
  entry _ _ h := by cases h
  held _ h := absurd h (Nat.lt_irrefl 0)

theorem Entry.congr {count : ℤ} (h : Entry g p name count) (hi : g'.infos p = g.infos p)
    (hn : g'.names p = g.names p) (hb : g'.buffs p = g.buffs p) : Entry g' p name count := by
  obtain ⟨hname, len, hinfo, bytes, hbytes, hlen⟩ := h
  exact ⟨hn.trans hname, len, hi.trans hinfo, bytes, hb.trans hbytes, hlen⟩

theorem RegistryOk.unchanged (h : RegistryOk names g opened) (hu : Unchanged g g') (hnext : g.next ≤ g'.next) :
    RegistryOk names g' opened where
  fresh p hp := by
    rw [hu.infos, hu.names, hu.buffs]
    exact h.fresh p (hnext.trans hp)
  entry key p hfind := by
    rw [hu.find] at hfind
    obtain ⟨name, hn, hkey, hpos, he⟩ := h.entry key p hfind
    exact ⟨name, hn, hkey, hpos, he.congr (by rw [hu.infos]) (by rw [hu.names]) (by rw [hu.buffs])⟩
  held name hpos := by
    obtain ⟨hn, p, hfind⟩ := h.held name hpos
    exact ⟨hn, p, (hu.find _).trans hfind⟩

/-- The entry that is found under the hash of a name is the one of the name. -/
theorem RegistryOk.entryOf (h : RegistryOk names g opened)
    (hinj : Set.InjOn (fun name => bernsteinHash name prime) names) (hn : name ∈ names)
    (hfind : mapFind g.mapPtr (bernsteinHash name prime) = some p) :
    0 < opened name ∧ Entry g p name (opened name) := by
  obtain ⟨name', hn', hkey, hpos, he⟩ := h.entry _ p hfind
  obtain rfl : name' = name := hinj hn' hn hkey
  exact ⟨hpos, he⟩

theorem RegistryOk.ne {key : Int32} {q : ℕ} (h : RegistryOk names g opened) {count : ℤ} (he : Entry g p name count)
    (hq : mapFind g.mapPtr key = some q) (hne : key ≠ bernsteinHash name prime) : q ≠ p := by
  rintro rfl
  obtain ⟨name', -, hkey, -, he'⟩ := h.entry key q hq
  obtain rfl : name' = name := Option.some.inj (he'.name.symm.trans he.name)
  exact hne hkey.symm

/-- The entries of other names, where the blocks of one name and its count change. -/
theorem RegistryOk.other {key : Int32} {q k : ℕ} (h : RegistryOk names g opened)
    (hq : mapFind g.mapPtr key = some q) (hkey : key ≠ bernsteinHash name prime) (hi : g'.infos q = g.infos q)
    (hn : g'.names q = g.names q) (hb : g'.buffs q = g.buffs q) :
    ∃ name' ∈ names, bernsteinHash name' prime = key ∧ 0 < Function.update opened name k name' ∧
      Entry g' q name' (Function.update opened name k name') := by
  obtain ⟨name', hn', hkey', hpos, he⟩ := h.entry key q hq
  have hne : name' ≠ name := by
    rintro rfl
    exact hkey hkey'.symm
  refine ⟨name', hn', hkey', ?_, ?_⟩
  · rw [Function.update_of_ne hne]
    exact hpos
  · rw [Function.update_of_ne hne]
    exact he.congr hi hn hb

/-- **One more opener.** -/
theorem RegistryOk.init (h : RegistryOk names g opened)
    (hinj : Set.InjOn (fun name => bernsteinHash name prime) names) (hn : name ∈ names) {msgSize : ℤ}
    {attr : QueueBuffAttr} (hr : InitResult g name msgSize (true, some attr, g')) :
    RegistryOk names g' (Function.update opened name (opened name + 1)) ∧
      mapFind g'.mapPtr (bernsteinHash name prime) = some attr.mutex ∧ attr.data = some attr.mutex ∧
      attr.queueName = some attr.mutex ∧
      ∀ key q, mapFind g.mapPtr key = some q → mapFind g'.mapPtr key = some q := by
  cases hr with
  | @shared p info _ hfind hinfo hmap hinfos hnames hbuffs hnext =>
    obtain ⟨hpos, he⟩ := h.entryOf hinj hn hfind
    obtain ⟨hname, len, hinfo', bytes, hbytes, hlen⟩ := he
    obtain rfl := Option.some.inj (hinfo.symm.trans hinfo')
    refine ⟨⟨fun q hq => ?_, fun key q hq => ?_, fun name' hpos' => ?_⟩, (hmap _).trans hfind, rfl, rfl,
      fun key q hq => (hmap key).trans hq⟩
    · rw [hnext] at hq
      obtain ⟨hi, hn', hb⟩ := h.fresh q hq
      have hne : q ≠ p := by
        rintro rfl
        rw [hi] at hinfo
        cases hinfo
      rw [hinfos, hnames, hbuffs, Function.update_of_ne hne]
      exact ⟨hi, hn', hb⟩
    · rw [hmap] at hq
      by_cases hkey : key = bernsteinHash name prime
      · rw [hkey, hfind] at hq
        obtain rfl := Option.some.inj hq
        refine ⟨name, hn, hkey.symm, by simp, ?_, len, ?_, bytes, ?_, hlen⟩
        · rw [hnames]
          exact hname
        · rw [hinfos, Function.update_self, Function.update_self]
          push_cast
          rfl
        · rw [hbuffs]
          exact hbytes
      · have hne : q ≠ p := h.ne ⟨hname, len, hinfo', bytes, hbytes, hlen⟩ hq hkey
        refine h.other hq hkey ?_ (by rw [hnames]) (by rw [hbuffs])
        rw [hinfos, Function.update_of_ne hne]
    · by_cases heq : name' = name
      · rw [heq]
        exact ⟨hn, p, (hmap _).trans hfind⟩
      · rw [Function.update_of_ne heq] at hpos'
        obtain ⟨hn', q, hq⟩ := h.held name' hpos'
        exact ⟨hn', q, (hmap _).trans hq⟩
  | created hsize hfind hmap hinfos hnames hbuffs hnext =>
    have hzero : opened name = 0 := by
      by_contra hpos
      obtain ⟨-, q, hq⟩ := h.held name (by omega)
      rw [hfind] at hq
      cases hq
    have hkeep : ∀ key q, mapFind g.mapPtr key = some q → mapFind g'.mapPtr key = some q := by
      intro key q hq
      have hne : key ≠ bernsteinHash name prime := by
        rintro rfl
        rw [hfind] at hq
        cases hq
      rw [hmap, if_neg hne]
      exact hq
    refine ⟨⟨fun q hq => ?_, fun key q hq => ?_, fun name' hpos' => ?_⟩, by rw [hmap, if_pos rfl], rfl, rfl, hkeep⟩
    · rw [hnext] at hq
      have hne : q ≠ g.next := by omega
      rw [hinfos, hnames, hbuffs, Function.update_of_ne hne, Function.update_of_ne hne, Function.update_of_ne hne]
      exact h.fresh q (by omega)
    · rw [hmap] at hq
      by_cases hkey : key = bernsteinHash name prime
      · rw [if_pos hkey] at hq
        obtain rfl := Option.some.inj hq
        refine ⟨name, hn, hkey.symm, by simp, ?_, msgSize, ?_, List.replicate msgSize.toNat 0, ?_, ?_⟩
        · rw [hnames, Function.update_self]
        · rw [hinfos, Function.update_self, Function.update_self, hzero]
          rfl
        · rw [hbuffs, Function.update_self]
        · rw [List.length_replicate]
          omega
      · rw [if_neg hkey] at hq
        -- the new place was not in use
        have hne : q ≠ g.next := by
          rintro rfl
          obtain ⟨name', -, -, -, he'⟩ := h.entry key _ hq
          have hname := he'.name
          rw [(h.fresh g.next le_rfl).2.1] at hname
          cases hname
        refine h.other hq hkey ?_ ?_ ?_
        · rw [hinfos, Function.update_of_ne hne]
        · rw [hnames, Function.update_of_ne hne]
        · rw [hbuffs, Function.update_of_ne hne]
    · by_cases heq : name' = name
      · rw [heq]
        exact ⟨hn, g.next, by rw [hmap, if_pos rfl]⟩
      · rw [Function.update_of_ne heq] at hpos'
        obtain ⟨hn', q, hq⟩ := h.held name' hpos'
        exact ⟨hn', q, hkeep _ q hq⟩

/-- **One opener less.** -/
theorem RegistryOk.unInit (h : RegistryOk names g opened)
    (hinj : Set.InjOn (fun name => bernsteinHash name prime) names) (hn : name ∈ names)
    (hfind : mapFind g.mapPtr (bernsteinHash name prime) = some p) :
    ∃ g', crQueueBuffUnInit g (some p) = some g' ∧
      RegistryOk names g' (Function.update opened name (opened name - 1)) ∧
      ∀ key q, mapFind g.mapPtr key = some q → key ≠ bernsteinHash name prime ∨ 1 < opened name →
        mapFind g'.mapPtr key = some q := by
  obtain ⟨hpos, hname, len, hinfo, bytes, hbytes, hlen⟩ := h.entryOf hinj hn hfind
  have hne : ∀ key q, mapFind g.mapPtr key = some q → key ≠ bernsteinHash name prime → q ≠ p := fun key q hq hkey =>
    h.ne ⟨hname, len, hinfo, bytes, hbytes, hlen⟩ hq hkey
  refine ⟨_, crQueueBuffUnInit_spec hname hfind hinfo, ?_⟩
  split_ifs with hlast
  · -- the last opener: the entry goes
    have hone : opened name = 1 := by omega
    refine ⟨⟨fun q hq => ?_, fun key q hq => ?_, fun name' hpos' => ?_⟩, fun key q hq hkey => ?_⟩
    · obtain ⟨hi, hn', hb⟩ := h.fresh q hq
      have hqp : q ≠ p := by
        rintro rfl
        rw [hi] at hinfo
        cases hinfo
      dsimp only [free]
      rw [Function.update_of_ne hqp, Function.update_of_ne hqp, Function.update_of_ne hqp, Function.update_of_ne hqp]
      exact ⟨hi, hn', hb⟩
    · rw [mapFind_erase] at hq
      split_ifs at hq with hkey
      have hqp := hne key q hq hkey
      refine h.other hq hkey ?_ (Function.update_of_ne hqp ..) (Function.update_of_ne hqp ..)
      dsimp only [free]
      rw [Function.update_of_ne hqp, Function.update_of_ne hqp]
    · have hnn : name' ≠ name := by
        rintro rfl
        rw [Function.update_self, hone] at hpos'
        exact absurd hpos' (Nat.lt_irrefl 0)
      rw [Function.update_of_ne hnn] at hpos'
      obtain ⟨hn', q, hq⟩ := h.held name' hpos'
      have hkey : bernsteinHash name' prime ≠ bernsteinHash name prime := fun heq => hnn (hinj hn' hn heq)
      exact ⟨hn', q, by rw [mapFind_erase, if_neg hkey]; exact hq⟩
    · rw [mapFind_erase, if_neg (hkey.resolve_right (by omega))]
      exact hq
  · have hmany : 1 < opened name := by omega
    refine ⟨⟨fun q hq => ?_, fun key q hq => ?_, fun name' hpos' => ?_⟩, fun key q hq _ => hq⟩
    · obtain ⟨hi, hn', hb⟩ := h.fresh q hq
      have hqp : q ≠ p := by
        rintro rfl
        rw [hi] at hinfo
        cases hinfo
      dsimp only
      rw [Function.update_of_ne hqp]
      exact ⟨hi, hn', hb⟩
    · by_cases hkey : key = bernsteinHash name prime
      · obtain rfl : p = q := Option.some.inj (hfind.symm.trans (hkey ▸ hq))
        refine ⟨name, hn, hkey.symm, ?_, hname, len, ?_, bytes, hbytes, hlen⟩
        · rw [Function.update_self]
          omega
        · dsimp only
          rw [Function.update_self, Function.update_self, Int.ofNat_sub hmany.le]
          rfl
      · exact h.other hq hkey (Function.update_of_ne (hne key q hq hkey) ..) rfl rfl
    · by_cases heq : name' = name
      · rw [heq]
        exact ⟨hn, p, hfind⟩
      · rw [Function.update_of_ne heq] at hpos'
        exact h.held name' hpos'

/-- **`CrMsgOpen`** never uses a freed block; where it fails the registry is as before. -/
theorem crMsgOpen_result (h : RegistryOk names g opened)
    (hinj : Set.InjOn (fun name => bernsteinHash name prime) names) {o : Outcomes} {key : List UInt8} {msgSize : ℤ}
    (hn : key ∈ names) :
    CallResult (o.queue = true → g.NewSucceeds o key msgSize) (OpenResult g (some key))
      (crMsgOpen g o (some key) (some msgSize)) := by
  unfold crMsgOpen
  dsimp only
  by_cases hqueue : o.queue = true
  swap
  · rw [if_pos (by simpa using hqueue)]
    exact .done (fun hq => absurd hq hqueue) (.failed (Unchanged.refl g) le_rfl)
  rw [if_neg (by simpa using hqueue)]
  have hcall := @crQueueBuffInit_result g o key msgSize h.fresh fun p hp => by
    obtain ⟨-, -, len, hinfo, -⟩ := h.entryOf hinj hn hp
    exact ⟨_, hinfo⟩
  rcases hr : crQueueBuffInit g o key msgSize with _ | ⟨ret, attr, g1⟩
  · rw [hr] at hcall
    cases hcall with
    | stuck hno => exact .stuck fun hok => hno (hok hqueue)
  obtain ⟨hnew, hinit⟩ := hcall.of_eq_some hr
  rw [Option.bind_some]
  by_cases hhandle : o.handle = true
  · cases hinit with
    | failed hu hnext => exact .done (fun _ => hnew) (.failed hu hnext)
    | shared hfind hinfo hmap hinfos hnames hbuffs hnext =>
      have hshared : InitResult g key msgSize _ := .shared hfind hinfo hmap hinfos hnames hbuffs hnext
      dsimp only
      rw [if_pos hhandle]
      exact .done (fun _ => hnew) (.opened rfl hshared)
    | created hsize hfind hmap hinfos hnames hbuffs hnext =>
      dsimp only
      rw [if_pos hhandle]
      exact .done (fun _ => hnew) (.opened rfl (.created hsize hfind hmap hinfos hnames hbuffs hnext))
  · -- the entry is given back
    cases hinit with
    | failed hu hnext => exact .done (fun _ => hnew) (.failed hu hnext)
    | @shared p info _ hfind hinfo hmap hinfos hnames hbuffs hnext =>
      obtain ⟨hpos, hname, len, hinfo', -⟩ := h.entryOf hinj hn hfind
      obtain rfl := Option.some.inj (hinfo.symm.trans hinfo')
      dsimp only at hinfos
      have hun := crQueueBuffUnInit_spec (hnames ▸ hname) ((hmap _).trans hfind)
        (by rw [hinfos, Function.update_self])
      rw [if_neg (by omega)] at hun
      dsimp only
      rw [if_neg hhandle, hun]
      refine .done (fun _ => hnew) (.failed ⟨hmap, ?_, hnames, hbuffs⟩ hnext.ge)
      dsimp only
      rw [hinfos, Function.update_idem, Int.add_sub_cancel, ← hinfo', Function.update_eq_self]
    | created hsize hfind hmap hinfos hnames hbuffs hnext =>
      obtain ⟨hi, hnm, hb⟩ := h.fresh g.next le_rfl
      have hun := crQueueBuffUnInit_spec (by rw [hnames, Function.update_self])
        (by rw [hmap, if_pos rfl]) (by rw [hinfos, Function.update_self])
      rw [if_pos (by omega)] at hun
      dsimp only
      rw [if_neg hhandle, hun]
      refine .done (fun _ => hnew) (.failed ⟨fun key' => ?_, ?_, ?_, ?_⟩ ?_)
      · rw [mapFind_erase, hmap]
        split_ifs with hkey
        · rw [hkey, hfind]
        · rfl
      · dsimp only
        rw [hinfos, Function.update_idem, free_update hi]
      · dsimp only
        rw [hnames, free_update hnm]
      · dsimp only
        rw [hbuffs, free_update hb]
      · dsimp only
        omega

end Inv

/-! ## Every run -/

section Runs

variable {names : Set (List UInt8)} {s t : QueueSystem} {c : QueueCall} {name : List UInt8}

/-- How many handles are open on a name. -/
def openOn (handles : List SharedMsgQueue) (name : List UInt8) : ℕ := handles.countP fun h => h.queue = some name

/-- The handle keeps its pointers into the entry of its name. -/
def Holds (g : Registry) (h : SharedMsgQueue) (name : List UInt8) : Prop :=
  ∃ p, mapFind g.mapPtr (bernsteinHash name prime) = some p ∧ h.dataBuff = some p ∧ h.name = some p ∧ h.mutex = some p

/-- **The invariant** of the registry and its handles. -/
structure SystemInv (names : Set (List UInt8)) (s : QueueSystem) : Prop where
  registry : RegistryOk names s.registry (openOn s.handles)
  handle : ∀ h ∈ s.handles, ∀ name, h.queue = some name → Holds s.registry h name
  closed : ∀ h ∈ s.handles, h.queue = none → h.name = none
  count : ∀ name, openOn s.handles name + s.closes name = s.opens name

theorem systemInv_init (names : Set (List UInt8)) : SystemInv names QueueSystem.init where
  registry := registryOk_init names
  handle h hh := by cases hh
  closed h hh := by cases hh
  count _ := rfl

theorem openOn_concat (handles : List SharedMsgQueue) {h : SharedMsgQueue} (hq : h.queue = some name) :
    openOn (handles ++ [h]) = Function.update (openOn handles) name (openOn handles name + 1) := by
  funext name'
  unfold openOn
  rw [List.countP_append, List.countP_singleton, hq, Function.update_apply]
  by_cases heq : name' = name
  · simp [heq]
  · simp [heq, Ne.symm heq]

/-- A handle that is open on the name is one of those that are counted. -/
theorem openOn_pos {handles : List SharedMsgQueue} {h : SharedMsgQueue} (hh : h ∈ handles) (hq : h.queue = some name) :
    0 < openOn handles name :=
  List.countP_pos_iff.mpr ⟨h, hh, by simpa using hq⟩

theorem openOn_set {handles : List SharedMsgQueue} {k : ℕ} {h h' : SharedMsgQueue} (hk : handles[k]? = some h)
    (hq' : h'.queue = none) (name' : List UInt8) :
    openOn (handles.set k h') name' = openOn handles name' - if h.queue = some name' then 1 else 0 := by
  obtain ⟨hlt, hget⟩ := List.getElem?_eq_some_iff.mp hk
  unfold openOn
  rw [List.countP_set hlt, hget, hq']
  simp

/-- The call names only queues of the given ones. -/
def NamesIn (names : Set (List UInt8)) : QueueCall → Prop
  | .msgOpen _ name _ => ∀ n ∈ name, n ∈ names
  | .msgClose _ => True

theorem SystemInv.msgOpen (h : SystemInv names s) (hinj : Set.InjOn (fun name => bernsteinHash name prime) names)
    {key : List UInt8} (hn : key ∈ names) (o : Outcomes) (msgSize : ℤ) :
    CallResult (NewSucceeds s (.msgOpen o (some key) (some msgSize))) (SystemInv names)
      (s.call (.msgOpen o (some key) (some msgSize))) := by
  have hcall := @crMsgOpen_result _ _ _ h.registry hinj o key msgSize hn
  unfold QueueSystem.call
  dsimp only
  rcases hr : crMsgOpen s.registry o (some key) (some msgSize) with _ | r
  · rw [hr] at hcall
    cases hcall with
    | stuck hno => exact .stuck hno
  obtain ⟨hnew, hopen⟩ := hcall.of_eq_some hr
  rw [Option.map_some]
  refine .done hnew ?_
  cases hopen with
  | failed hu hnext =>
    refine ⟨h.registry.unchanged hu hnext, fun q hq name hqn => ?_, h.closed, h.count⟩
    obtain ⟨p, hfind, hp⟩ := h.handle q hq name hqn
    exact ⟨p, (hu.find _).trans hfind, hp⟩
  | @opened _ msgSize attr g' hkey hinit =>
    obtain rfl := Option.some.inj hkey
    obtain ⟨hok, hfind, hdata, hqueue, hkeep⟩ := h.registry.init hinj hn hinit
    set handle : SharedMsgQueue := ⟨true, attr.data, attr.dataLen, attr.queueName, some key, some attr.mutex⟩
    have hconcat : openOn (s.handles ++ [handle]) =
        Function.update (openOn s.handles) key (openOn s.handles key + 1) := openOn_concat s.handles rfl
    refine ⟨?_, fun q hq name hqn => ?_, fun q hq hqn => ?_, fun name => ?_⟩
    · dsimp only
      rw [hconcat]
      exact hok
    · rcases List.mem_append.mp hq with hq | hq
      · obtain ⟨p, hp, hptr⟩ := h.handle q hq name hqn
        exact ⟨p, hkeep _ p hp, hptr⟩
      · obtain rfl := List.mem_singleton.mp hq
        obtain rfl : key = name := Option.some.inj hqn
        exact ⟨attr.mutex, hfind, hdata, hqueue, rfl⟩
    · rcases List.mem_append.mp hq with hq | hq
      · exact h.closed q hq hqn
      · obtain rfl := List.mem_singleton.mp hq
        cases hqn
    · have hcount := h.count name
      change openOn (s.handles ++ [handle]) name + s.closes name = bump s.opens (some key) name
      rw [hconcat]
      simp only [bump, Function.update_apply]
      split_ifs with heq
      · rw [heq] at hcount ⊢
        omega
      · exact hcount

theorem SystemInv.msgClose (h : SystemInv names s) (hinj : Set.InjOn (fun name => bernsteinHash name prime) names)
    (k : ℕ) : ∃ t, s.call (.msgClose k) = some t ∧ SystemInv names t := by
  unfold QueueSystem.call
  dsimp only
  cases hk : s.handles[k]? with
  | none => exact ⟨s, rfl, h⟩
  | some q =>
    have hmem : q ∈ s.handles := List.mem_of_getElem? hk
    unfold crMsgClose
    dsimp only
    set closed : SharedMsgQueue := ⟨false, none, 0, none, none, none⟩
    cases hq : q.queue with
    | none =>
      -- it is closed already
      have hsame : openOn (s.handles.set k closed) = openOn s.handles := by
        funext name'
        rw [openOn_set hk rfl, hq]
        rfl
      rw [h.closed q hmem hq]
      refine ⟨_, rfl, ?_, fun q' hq' name hqn => ?_, fun q' hq' hqn => ?_, fun name => ?_⟩
      · dsimp only
        rw [hsame]
        exact h.registry
      · rcases List.mem_or_eq_of_mem_set hq' with hq' | rfl
        · exact h.handle q' hq' name hqn
        · cases hqn
      · rcases List.mem_or_eq_of_mem_set hq' with hq' | rfl
        · exact h.closed q' hq' hqn
        · rfl
      · dsimp only [bump]
        rw [hsame]
        exact h.count name
    | some name =>
      obtain ⟨p, hfind, -, hptr, -⟩ := h.handle q hmem name hq
      have hpos := openOn_pos hmem hq
      obtain ⟨g', hun, hok, hkeep⟩ := h.registry.unInit hinj (h.registry.held name hpos).1 hfind
      have hset : openOn (s.handles.set k closed) =
          Function.update (openOn s.handles) name (openOn s.handles name - 1) := by
        funext name'
        rw [openOn_set hk rfl, hq, Function.update_apply]
        by_cases heq : name' = name
        · simp [heq]
        · simp [heq, Ne.symm heq]
      rw [hptr, hun]
      refine ⟨_, rfl, ?_, fun q' hq' name' hqn => ?_, fun q' hq' hqn => ?_, fun name' => ?_⟩
      · dsimp only
        rw [hset]
        exact hok
      · have hpos' := openOn_pos hq' hqn
        rcases List.mem_or_eq_of_mem_set hq' with hq' | rfl
        · obtain ⟨p', hp', hptr'⟩ := h.handle q' hq' name' hqn
          refine ⟨p', hkeep _ p' hp' ?_, hptr'⟩
          by_cases heq : name' = name
          · -- another handle is open on the name
            rw [hset, heq, Function.update_self] at hpos'
            exact Or.inr (by omega)
          · have hn' := (h.registry.held name' (openOn_pos hq' hqn)).1
            exact Or.inl fun hkey => heq (hinj hn' (h.registry.held name hpos).1 hkey)
        · cases hqn
      · rcases List.mem_or_eq_of_mem_set hq' with hq' | rfl
        · exact h.closed q' hq' hqn
        · rfl
      · have hcount := h.count name'
        dsimp only [bump]
        rw [hset]
        by_cases heq : name' = name
        · subst heq
          rw [Function.update_self, Function.update_self]
          omega
        · rw [Function.update_of_ne heq, Function.update_of_ne heq]
          exact hcount

theorem SystemInv.call (h : SystemInv names s) (hinj : Set.InjOn (fun name => bernsteinHash name prime) names)
    (hc : NamesIn names c) : CallResult (NewSucceeds s c) (SystemInv names) (s.call c) := by
  cases c with
  | msgOpen o name attr =>
    cases name with
    | none => exact .done trivial h
    | some key =>
      cases attr with
      | none => exact .done trivial h
      | some msgSize => exact h.msgOpen hinj (hc key rfl) o msgSize
  | msgClose k =>
    obtain ⟨t, ht, hinv⟩ := h.msgClose hinj k
    rw [ht]
    exact .done trivial hinv

/-- **What the registry owes to its users.** -/
structure Lifetimes (names : Set (List UInt8)) (s : QueueSystem) : Prop where
  /-- There is an entry exactly while the name was opened more often than closed, -/
  entry : ∀ name ∈ names, (mapFind s.registry.mapPtr (bernsteinHash name prime)).isSome = true ↔
    s.closes name < s.opens name
  /-- and it counts the difference. -/
  count : ∀ name ∈ names, ∀ p, mapFind s.registry.mapPtr (bernsteinHash name prime) = some p →
    ∃ info, s.registry.infos p = some info ∧ info.count = s.opens name - s.closes name
  /-- The buffer and the name that a handle points to are allocated. -/
  held : ∀ h ∈ s.handles, h.queue.isSome = true → ∃ p bytes, h.dataBuff = some p ∧ h.name = some p ∧
    s.registry.buffs p = some bytes ∧ s.registry.names p = h.queue
  /-- An open that fails changes nothing. -/
  failed : ∀ o name attr g, (∀ n ∈ name, n ∈ names) → crMsgOpen s.registry o name attr = some (none, g) →
    Unchanged s.registry g

theorem SystemInv.lifetimes (h : SystemInv names s)
    (hinj : Set.InjOn (fun name => bernsteinHash name prime) names) : Lifetimes names s where
  entry name hn := by
    have hcount := h.count name
    rw [Option.isSome_iff_exists]
    constructor
    · rintro ⟨p, hfind⟩
      have hpos := (h.registry.entryOf hinj hn hfind).1
      omega
    · intro hlt
      exact (h.registry.held name (by omega)).2
  count name hn p hfind := by
    have hcount := h.count name
    obtain ⟨-, -, len, hinfo, -⟩ := h.registry.entryOf hinj hn hfind
    refine ⟨_, hinfo, ?_⟩
    dsimp only
    omega
  held q hq hsome := by
    obtain ⟨name, hname⟩ := Option.isSome_iff_exists.mp hsome
    obtain ⟨p, hfind, hdata, hptr, -⟩ := h.handle q hq name hname
    have hn := (h.registry.held name (openOn_pos hq hname)).1
    obtain ⟨-, hpn, len, -, bytes, hbytes, -⟩ := h.registry.entryOf hinj hn hfind
    exact ⟨p, bytes, hdata, hptr, hbytes, hpn.trans hname.symm⟩
  failed o name attr g hname hg := by
    cases name with
    | none =>
      cases hg
      exact Unchanged.refl _
    | some key =>
      cases attr with
      | none =>
        cases hg
        exact Unchanged.refl _
      | some msgSize =>
        have hopen := ((crMsgOpen_result h.registry hinj (hname key rfl)).of_eq_some hg).2
        cases hopen with
        | failed hu _ => exact hu

/-- **Lifetimes.**  Over names with different hashes a sequence of calls runs without using a freed block or a block
that there was no memory for, and entries live exactly as long as they are open, if and only if each `new` that it
comes to succeeds; any other allocation may fail. -/
theorem registry_lifetimes_iff (hinj : Set.InjOn (fun name => bernsteinHash name prime) names) {calls : List QueueCall}
    (hcalls : ∀ c ∈ calls, NamesIn names c) :
    (∃ s, calls.foldlM QueueSystem.call QueueSystem.init = some s ∧ Lifetimes names s) ↔
      AllCalls QueueSystem.call NewSucceeds QueueSystem.init calls :=
  (foldlM_result (fun _ _ hI hc => hI.call hinj hc) (systemInv_init names) hcalls).exists_iff
    fun _ hinv => hinv.lifetimes hinj

/-- Two names; one is opened twice, the second time without memory for the handle, and then closed. -/
theorem registry_lifetimes_twoNames :
    let names : Set (List UInt8) := {[65], [66]}
    let calls : List QueueCall := [.msgOpen ⟨true, true, true, true, true, true, true⟩ (some [65]) (some 8),
      .msgOpen ⟨true, false, true, true, true, true, true⟩ (some [66]) (some 4),
      .msgOpen ⟨true, false, true, true, true, false, false⟩ (some [65]) (some 8), .msgClose 0]
    ∃ s, calls.foldlM QueueSystem.call QueueSystem.init = some s ∧ Lifetimes names s := by
  refine (registry_lifetimes_iff ?_ ?_).mpr ?_
  · rintro a (rfl | rfl) b (rfl | rfl) h
    · rfl
    · exact absurd h (by decide)
    · exact absurd h (by decide)
    · rfl
  · simp [NamesIn]
  · refine ⟨fun _ => ⟨fun _ => rfl, fun _ _ _ => rfl⟩, fun s hs => ?_⟩
    obtain rfl := Option.some.inj hs
    refine ⟨fun _ => ⟨(fun hnone => nomatch hnone), fun _ _ _ => rfl⟩, fun s hs => ?_⟩
    obtain rfl := Option.some.inj hs
    refine ⟨fun _ => ⟨(fun hnone => nomatch hnone), fun _ hfind => ?_⟩, fun s hs => ⟨trivial, fun _ _ => trivial⟩⟩
    cases hfind

/-- One name, and no memory for its node. -/
theorem registry_no_node :
    ¬ ∀ (names : Set (List UInt8)) (calls : List QueueCall),
      Set.InjOn (fun name => bernsteinHash name prime) names → (∀ c ∈ calls, NamesIn names c) →
        ∃ s, calls.foldlM QueueSystem.call QueueSystem.init = some s ∧ Lifetimes names s := by
  intro h
  obtain ⟨s, hs, -⟩ := h {[65]} [.msgOpen ⟨true, true, true, true, true, false, true⟩ (some [65]) (some 8)]
    (Set.injOn_singleton _ _) (by simp [NamesIn])
  cases hs

end Runs

end Cxsw.MsgQueue
