import Mathlib.Data.List.Basic
import Mathlib.Data.List.Nodup
import Mathlib.Data.List.Sort
import Mathlib.Logic.Function.Basic
import Cxsw.Lib.Run

/-!
# Cxsw.Viewer.EventControl — the event bus of the viewer (`3d-lib/src/event/EventControl.ts`)

`EventControl` keeps a list of callbacks for each message and role.  A dispatch goes through the roles of its message,
copies the list of each when it comes to it, and calls the callbacks of the copy; what they do to the bus happens before
the next call.  Names of messages and roles are taken from a type, so none is a property that every object inherits.

* `Bus`: what the bus is for.  A dispatch has to call the listeners that were registered when it began and have not been
  removed since, in the order of registration within a role.
* `spliceLoop_eq`, `spliceLoop_removes_iff`: the loop of `removeEvent` keeps every second listener.
-/

namespace Cxsw.Viewer

variable {Msg Role Callback : Type*}

/-! ## The listeners of a message -/

section Listeners

/-- `_listeners[msg]`: the roles that have a list, in the order in which they got it, and their lists.  A message
without object is one without roles. -/
structure RoleListeners (Role Callback : Type*) where
  keys : List Role
  array : Role → List Callback
  keys_nodup : keys.Nodup
  array_nodup : ∀ role, (array role).Nodup
  array_absent : ∀ role, role ∉ keys → array role = []

/-- No object, or an empty one. -/
def RoleListeners.empty : RoleListeners Role Callback where
  keys := []
  array := fun _ => []
  keys_nodup := List.nodup_nil
  array_nodup := fun _ => List.nodup_nil
  array_absent := fun _ _ => rfl

/-- `for (let i=0; i<listenerArray.length; ++i) listenerArray.splice(i, 1)`. -/
def spliceLoop (i : ℕ) (listenerArray : List Callback) : List Callback :=
  if i < listenerArray.length then spliceLoop (i + 1) (listenerArray.eraseIdx i) else listenerArray
termination_by listenerArray.length - i
decreasing_by
  rw [List.length_eraseIdx]
  split <;> omega

/-- The second, the fourth, and so on. -/
def everySecond : List Callback → List Callback
  | [] => []
  | [_] => []
  | _ :: b :: l => b :: everySecond l

theorem spliceLoop_append (l : List Callback) : ∀ pre : List Callback,
    spliceLoop pre.length (pre ++ l) = pre ++ everySecond l := by
  induction l using everySecond.induct with
  | case1 =>
    intro pre
    rw [spliceLoop, if_neg (by simp)]
    rfl
  | case2 a =>
    intro pre
    have hstep : (pre ++ [a]).eraseIdx pre.length = pre := by
      simp [List.eraseIdx_append_of_length_le]
    rw [spliceLoop, if_pos (by simp), hstep, spliceLoop, if_neg (by omega)]
    simp [everySecond]
  | case3 a b l ih =>
    intro pre
    have hstep : (pre ++ a :: b :: l).eraseIdx pre.length = (pre ++ [b]) ++ l := by
      simp [List.eraseIdx_append_of_length_le]
    have hrest := ih (pre ++ [b])
    rw [List.length_append, List.length_singleton] at hrest
    rw [spliceLoop, if_pos (by simp), hstep, hrest]
    simp [everySecond]

/-- What the loop of `removeEvent` leaves. -/
theorem spliceLoop_eq (l : List Callback) : spliceLoop 0 l = everySecond l :=
  spliceLoop_append l []

theorem everySecond_sublist (l : List Callback) : (everySecond l).Sublist l := by
  induction l using everySecond.induct with
  | case1 => exact List.nil_sublist _
  | case2 a => exact List.nil_sublist _
  | case3 a b l ih => exact (ih.cons_cons b).cons a

theorem length_everySecond (l : List Callback) : (everySecond l).length = l.length / 2 := by
  induction l using everySecond.induct with
  | case1 => simp [everySecond]
  | case2 a => simp [everySecond]
  | case3 a b l ih =>
    simp only [everySecond, List.length_cons, ih]
    omega

variable [DecidableEq Role] [DecidableEq Callback]

omit [DecidableEq Role] in
/-- **The loop** removes the one callback exactly from a list of at most two listeners that it heads. -/
theorem spliceLoop_removes_iff {l : List Callback} (hnodup : l.Nodup) (callback : Callback) :
    spliceLoop 0 l = l.filter (· ≠ callback) ↔ l = [] ∨ l.head? = some callback ∧ l.length ≤ 2 := by
  rw [spliceLoop_eq]
  match l, hnodup with
  | [], _ => simp [everySecond]
  | [a], _ =>
    by_cases ha : a = callback <;> simp [everySecond, ha]
  | [a, b], hnodup =>
    have hab : a ≠ b := by simpa using hnodup
    by_cases ha : a = callback
    · have hb : b ≠ callback := fun hb => hab (ha.trans hb.symm)
      simp [everySecond, ha, hb]
    · simp [everySecond, ha, hab.symm]
  | a :: b :: c :: l, hnodup =>
    -- three listeners or more: the loop removes two at least
    have hlength := length_everySecond (a :: b :: c :: l)
    have hfilter : (a :: b :: c :: l).length ≤ ((a :: b :: c :: l).filter (· ≠ callback)).length + 1 := by
      have herase := hnodup.erase_eq_filter callback
      have hle : (a :: b :: c :: l).length - 1 ≤ ((a :: b :: c :: l).erase callback).length := List.le_length_erase
      rw [herase] at hle
      have hne : (fun x => x != callback) = fun x => decide (x ≠ callback) := by
        ext x
        by_cases hx : x = callback <;> simp [hx]
      rw [hne] at hle
      omega
    constructor
    · intro h
      rw [h] at hlength
      simp only [List.length_cons] at hlength hfilter
      omega
    · rintro (h | ⟨-, h⟩) <;> simp at h

/-- The part of `addEvent` that concerns the object of the message. -/
def RoleListeners.addEvent (o : RoleListeners Role Callback) (callback : Callback) (role : Role) :
    RoleListeners Role Callback where
  keys := if role ∈ o.keys then o.keys else o.keys ++ [role]
  array := Function.update o.array role
    (if callback ∈ o.array role then o.array role else o.array role ++ [callback])
  keys_nodup := by
    split
    · exact o.keys_nodup
    · next h => exact o.keys_nodup.append (List.nodup_singleton role) (by simpa using h)
  array_nodup := by
    intro r
    by_cases hr : r = role
    · subst hr
      rw [Function.update_self]
      split
      · exact o.array_nodup r
      · next h => exact (o.array_nodup r).append (List.nodup_singleton callback) (by simpa using h)
    · rw [Function.update_of_ne hr]
      exact o.array_nodup r
  array_absent := by
    intro r hr
    have hne : r ≠ role := by
      rintro rfl
      revert hr
      split <;> simp_all
    rw [Function.update_of_ne hne]
    refine o.array_absent r fun hmem => hr ?_
    split
    · exact hmem
    · exact List.mem_append_left _ hmem

/-- `hasEvent`, which looks for the role only. -/
def RoleListeners.hasEvent (o : RoleListeners Role Callback) (role : Role) : Bool := role ∈ o.keys

/-- The part of `removeEvent` that concerns the object of the message. -/
def RoleListeners.removeEvent (o : RoleListeners Role Callback) (role : Role) : RoleListeners Role Callback where
  keys := o.keys
  array := if o.hasEvent role then Function.update o.array role (spliceLoop 0 (o.array role)) else o.array
  keys_nodup := o.keys_nodup
  array_nodup := by
    intro r
    split
    · by_cases hr : r = role
      · subst hr
        rw [Function.update_self, spliceLoop_eq]
        exact (o.array_nodup r).sublist (everySecond_sublist _)
      · rw [Function.update_of_ne hr]
        exact o.array_nodup r
    · exact o.array_nodup r
  array_absent := by
    intro r hr
    split
    · next h =>
      have hne : r ≠ role := by
        rintro rfl
        exact hr (by simpa [hasEvent] using h)
      rw [Function.update_of_ne hne]
      exact o.array_absent r hr
    · exact o.array_absent r hr

omit [DecidableEq Callback] in
theorem RoleListeners.removeEvent_array (o : RoleListeners Role Callback) (role r : Role) :
    (o.removeEvent role).array r = if r = role then spliceLoop 0 (o.array r) else o.array r := by
  unfold removeEvent
  by_cases hr : r = role
  · subst hr
    by_cases h : o.hasEvent r = true
    · simp [h]
    · have hnil : o.array r = [] := o.array_absent r (by simpa [hasEvent] using h)
      simp [h, hnil, spliceLoop_eq, everySecond]
  · split <;> simp [hr]

theorem RoleListeners.addEvent_array (o : RoleListeners Role Callback) (callback : Callback) (role r : Role) :
    (o.addEvent callback role).array r =
      if r = role ∧ callback ∉ o.array r then o.array r ++ [callback] else o.array r := by
  by_cases hr : r = role
  · subst hr
    by_cases h : callback ∈ o.array r <;> simp [addEvent, h]
  · simp [addEvent, hr]

end Listeners

/-! ## The bus of the code -/

section Code

/-- A running dispatch: its arguments, the `_listeners` that it read, the roles still to come, and what is left of the
copy of the list of `role`. -/
structure Dispatch (Msg Role Callback : Type*) where
  msg : Msg
  fromRole : Role
  toRoles : Option (List Role)
  dictionary : ℕ
  roles : List Role
  role : Option Role
  array : List Callback

/-- The objects that `_listeners` has been, the number of the one it is, and the running dispatches, the innermost
first. An object is replaced only by `disposeEvent`, and a running dispatch keeps the one that it read. -/
structure EventControl (Msg Role Callback : Type*) where
  dictionaries : ℕ → Msg → RoleListeners Role Callback
  current : ℕ
  dispatches : List (Dispatch Msg Role Callback)

/-- `_listeners`. -/
def EventControl.listeners (c : EventControl Msg Role Callback) : Msg → RoleListeners Role Callback :=
  c.dictionaries c.current

/-- `roleListenerArray` of a dispatch. -/
def EventControl.roleListenerArray (c : EventControl Msg Role Callback) (d : Dispatch Msg Role Callback) :
    RoleListeners Role Callback :=
  c.dictionaries d.dictionary d.msg

/-- Before the first call. -/
def EventControl.start : EventControl Msg Role Callback where
  dictionaries := fun _ _ => RoleListeners.empty
  current := 0
  dispatches := []

variable [DecidableEq Msg] [DecidableEq Role] [DecidableEq Callback]

/-- An object of `_listeners` changes. -/
def EventControl.modify (c : EventControl Msg Role Callback) (msg : Msg) (o : RoleListeners Role Callback) :
    EventControl Msg Role Callback :=
  { c with dictionaries := Function.update c.dictionaries c.current (Function.update c.listeners msg o) }

def EventControl.addEvent (c : EventControl Msg Role Callback) (msg : Msg) (callback : Callback) (role : Role) :
    EventControl Msg Role Callback :=
  c.modify msg ((c.listeners msg).addEvent callback role)

/-- The callback is not looked at. -/
def EventControl.removeEvent (c : EventControl Msg Role Callback) (msg : Msg) (_callback : Callback) (role : Role) :
    EventControl Msg Role Callback :=
  c.modify msg ((c.listeners msg).removeEvent role)

/-- `_listeners = {}`. -/
def EventControl.disposeEvent (c : EventControl Msg Role Callback) : EventControl Msg Role Callback :=
  { c with
    dictionaries := Function.update c.dictionaries (c.current + 1) fun _ => RoleListeners.empty
    current := c.current + 1 }

/-- The order of `for (let role in roleListenerArray)`: names that are array indices come first, by their value
(`arrayIndex`), the others in the order in which they were added. -/
def forInOrder (arrayIndex : Role → Option ℕ) (keys : List Role) : List Role :=
  (keys.filter fun role => (arrayIndex role).isSome).insertionSort
      (fun role role' => (arrayIndex role).getD 0 ≤ (arrayIndex role').getD 0) ++
    keys.filter fun role => (arrayIndex role).isNone

/-- `dispatchEvent` begins. -/
def EventControl.dispatchEvent (arrayIndex : Role → Option ℕ) (c : EventControl Msg Role Callback) (msg : Msg)
    (fromRole : Role) (toRoles : Option (List Role)) : EventControl Msg Role Callback :=
  { c with
    dispatches :=
      { msg, fromRole, toRoles
        dictionary := c.current
        roles := forInOrder arrayIndex (c.listeners msg).keys
        role := none
        array := [] } :: c.dispatches }

/-- `role == fromRole` and, with `toRoles`, `toRoles.indexOf(role)`. -/
def receives (fromRole : Role) (toRoles : Option (List Role)) (role : Role) : Bool :=
  role ≠ fromRole && toRoles.all (role ∈ ·)

/-- The loop over the roles up to the next call: a list is copied when its role is reached. -/
def Dispatch.reach (d : Dispatch Msg Role Callback) (o : RoleListeners Role Callback) :
    List Role → Option (Dispatch Msg Role Callback × Role × Callback)
  | [] => none
  | role :: roles =>
    if receives d.fromRole d.toRoles role then
      match o.array role with
      | callback :: array => some ({ d with roles, role := some role, array }, role, callback)
      | [] => d.reach o roles
    else d.reach o roles

/-- The next call of a dispatch. -/
def Dispatch.next (d : Dispatch Msg Role Callback) (o : RoleListeners Role Callback) :
    Option (Dispatch Msg Role Callback × Role × Callback) :=
  match d.role, d.array with
  | some role, callback :: array => some ({ d with array }, role, callback)
  | _, _ => d.reach o d.roles

/-- What a running dispatch does next: it calls a listener of a role, or returns. -/
inductive Output (Role Callback : Type*) where
  | call (role : Role) (callback : Callback)
  | finished
  deriving DecidableEq

/-- The calls from outside or from a callback, and `next`: the innermost dispatch goes on. -/
inductive Op (Msg Role Callback : Type*) where
  | addEvent (msg : Msg) (callback : Callback) (role : Role)
  | removeEvent (msg : Msg) (callback : Callback) (role : Role)
  | disposeEvent
  | dispatchEvent (msg : Msg) (fromRole : Role) (toRoles : Option (List Role))
  | next

/-- The innermost dispatch goes on. -/
def EventControl.next (c : EventControl Msg Role Callback) :
    EventControl Msg Role Callback × Option (Output Role Callback) :=
  match c.dispatches with
  | [] => (c, none)
  | d :: dispatches =>
    match d.next (c.roleListenerArray d) with
    | some (d', role, callback) => ({ c with dispatches := d' :: dispatches }, some (.call role callback))
    | none => ({ c with dispatches }, some .finished)

def EventControl.step (arrayIndex : Role → Option ℕ) (c : EventControl Msg Role Callback) (op : Op Msg Role Callback) :
    EventControl Msg Role Callback × Option (Output Role Callback) :=
  match op with
  | .addEvent msg callback role => (c.addEvent msg callback role, none)
  | .removeEvent msg callback role => (c.removeEvent msg callback role, none)
  | .disposeEvent => (c.disposeEvent, none)
  | .dispatchEvent msg fromRole toRoles => (c.dispatchEvent arrayIndex msg fromRole toRoles, none)
  | .next => c.next

end Code

/-! ## What the bus is for -/

section Bus

/-- A dispatch of the bus: the listeners of each role that it has still to call, and those added since it began. -/
structure Expected (Msg Role Callback : Type*) where
  msg : Msg
  todo : Role → List Callback
  added : List (Role × Callback)

/-- The listeners registered, and the dispatches. -/
structure Bus (Msg Role Callback : Type*) where
  registered : Msg → Role → List Callback
  dispatches : List (Expected Msg Role Callback)

def Bus.start : Bus Msg Role Callback := ⟨fun _ _ => [], []⟩

variable [DecidableEq Msg] [DecidableEq Role] [DecidableEq Callback]

/-- A listener is registered once; the running dispatches do not call it. -/
def Bus.addEvent (b : Bus Msg Role Callback) (msg : Msg) (callback : Callback)
    (role : Role) : Bus Msg Role Callback where
  registered := fun m r =>
    if m = msg ∧ r = role ∧ callback ∉ b.registered m r then b.registered m r ++ [callback] else b.registered m r
  dispatches := b.dispatches.map fun x =>
    if x.msg = msg ∧ callback ∉ b.registered msg role then { x with added := (role, callback) :: x.added } else x

/-- That listener is gone, and no dispatch calls it any more. -/
def Bus.removeEvent (b : Bus Msg Role Callback) (msg : Msg) (callback : Callback) (role : Role) :
    Bus Msg Role Callback where
  registered := fun m r =>
    if m = msg ∧ r = role then (b.registered m r).filter (· ≠ callback) else b.registered m r
  dispatches := b.dispatches.map fun x =>
    if x.msg = msg then
      { x with todo := fun r => if r = role then (x.todo r).filter (· ≠ callback) else x.todo r }
    else x

/-- All listeners are gone. -/
def Bus.disposeEvent (b : Bus Msg Role Callback) : Bus Msg Role Callback where
  registered := fun _ _ => []
  dispatches := b.dispatches.map fun x => { x with todo := fun _ => [] }

/-- A dispatch has to call the listeners of the roles that receive it. -/
def Bus.dispatchEvent (b : Bus Msg Role Callback) (msg : Msg) (fromRole : Role) (toRoles : Option (List Role)) :
    Bus Msg Role Callback :=
  { b with
    dispatches :=
      { msg
        todo := fun role => if receives fromRole toRoles role then b.registered msg role else []
        added := [] } :: b.dispatches }

/-- The innermost dispatch has called a listener, or has returned. -/
def Bus.next (b : Bus Msg Role Callback) (out : Option (Output Role Callback)) : Bus Msg Role Callback :=
  match out, b.dispatches with
  | some (.call role _), x :: dispatches =>
    { b with dispatches := { x with todo := Function.update x.todo role (x.todo role).tail } :: dispatches }
  | some .finished, _ :: dispatches => { b with dispatches }
  | _, _ => b

def Bus.step (b : Bus Msg Role Callback) (op : Op Msg Role Callback) (out : Option (Output Role Callback)) :
    Bus Msg Role Callback :=
  match op with
  | .addEvent msg callback role => b.addEvent msg callback role
  | .removeEvent msg callback role => b.removeEvent msg callback role
  | .disposeEvent => b.disposeEvent
  | .dispatchEvent msg fromRole toRoles => b.dispatchEvent msg fromRole toRoles
  | .next => b.next out

omit [DecidableEq Msg] [DecidableEq Role] [DecidableEq Callback] in
/-- A call is of the first listener still to be called of its role; a dispatch returns when none is left. -/
def Bus.Accepts (b : Bus Msg Role Callback) : Option (Output Role Callback) → Prop
  | none => True
  | some (.call role callback) => ∃ x ∈ b.dispatches.head?, (x.todo role).head? = some callback
  | some .finished => ∃ x ∈ b.dispatches.head?, ∀ role, x.todo role = []

/-- The code beside the bus. -/
structure System (Msg Role Callback : Type*) where
  code : EventControl Msg Role Callback
  bus : Bus Msg Role Callback

def System.start : System Msg Role Callback := ⟨.start, .start⟩

def step (arrayIndex : Role → Option ℕ) (s : System Msg Role Callback) (op : Op Msg Role Callback) :
    System Msg Role Callback where
  code := (s.code.step arrayIndex op).1
  bus := s.bus.step op (s.code.step arrayIndex op).2

/-- The code calls what the bus has to call, and its lists are the listeners registered. -/
structure Right (arrayIndex : Role → Option ℕ) (s : System Msg Role Callback) (op : Op Msg Role Callback) : Prop where
  accepts : s.bus.Accepts (s.code.step arrayIndex op).2
  registered : ∀ msg role,
    ((step arrayIndex s op).code.listeners msg).array role = (step arrayIndex s op).bus.registered msg role

omit [DecidableEq Msg] [DecidableEq Callback] in
/-- Nothing is left to call. -/
def Quiet (c : EventControl Msg Role Callback) (d : Dispatch Msg Role Callback) : Prop :=
  d.array = [] ∧ ∀ role ∈ d.roles, receives d.fromRole d.toRoles role → (c.roleListenerArray d).array role = []

/-- The steps that go right: a removal of the first of at most two listeners, which no copy of a running dispatch holds;
no disposal while a dispatch has something left to call; and when a dispatch comes to a role, none of its listeners was
added since the dispatch began. -/
def StepOk (s : System Msg Role Callback) (op : Op Msg Role Callback) : Prop :=
  match op with
  | .removeEvent msg callback role =>
    ((s.code.listeners msg).array role = [] ∨
        ((s.code.listeners msg).array role).head? = some callback ∧ ((s.code.listeners msg).array role).length ≤ 2) ∧
      ∀ d ∈ s.code.dispatches, d.msg = msg → d.role = some role → callback ∉ d.array
  | .disposeEvent => ∀ d ∈ s.code.dispatches, Quiet s.code d
  | .next => ∀ d ∈ s.code.dispatches.head?, ∀ x ∈ s.bus.dispatches.head?, d.array = [] →
    ∀ role ∈ d.roles.find? fun role =>
      receives d.fromRole d.toRoles role && (s.code.roleListenerArray d).array role ≠ [],
    ∀ callback ∈ (s.code.roleListenerArray d).array role, (role, callback) ∉ x.added
  | _ => True

instance (s : System Msg Role Callback) (op : Op Msg Role Callback) : Decidable (StepOk s op) :=
  match op with
  | .addEvent .. => isTrue trivial
  | .removeEvent .. => inferInstanceAs (Decidable (_ ∧ _))
  | .disposeEvent => inferInstanceAs (Decidable (∀ d ∈ s.code.dispatches, _ ∧ _))
  | .dispatchEvent .. => isTrue trivial
  | .next => inferInstanceAs (Decidable (∀ d ∈ s.code.dispatches.head?, ∀ x ∈ s.bus.dispatches.head?, _ →
      ∀ role ∈ _, _))

end Bus

end Cxsw.Viewer
