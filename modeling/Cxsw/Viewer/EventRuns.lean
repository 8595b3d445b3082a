import Cxsw.Viewer.EventControl

/-!
# Cxsw.Viewer.EventRuns — the event bus over its runs (`3d-lib/src/event/EventControl.ts`)

Every running dispatch of the code is kept beside one of the bus that says what it still has to call.

* `Serves`: a dispatch of the code has what it has to call before it.
* `Inv.step`: what one operation keeps.
* `dispatch_run`: the runs whose calls are those of the bus.
-/

namespace Cxsw.Viewer

variable {Msg Role Callback : Type*}

/-! ## The runs -/

section Runs

variable [DecidableEq Msg] [DecidableEq Role] [DecidableEq Callback] {arrayIndex : Role → Option ℕ}
  {c : EventControl Msg Role Callback} {d : Dispatch Msg Role Callback} {x : Expected Msg Role Callback}
  {s : System Msg Role Callback}

omit [DecidableEq Msg] [DecidableEq Role] [DecidableEq Callback] in
theorem forInOrder_perm (arrayIndex : Role → Option ℕ) (keys : List Role) : (forInOrder arrayIndex keys).Perm keys := by
  unfold forInOrder
  have hnone : (fun role => (arrayIndex role).isNone) = fun role => !(arrayIndex role).isSome := by
    ext role
    simp
  rw [hnone]
  exact ((List.perm_insertionSort _ _).append_right _).trans (List.filter_append_perm _ keys)

omit [DecidableEq Role] [DecidableEq Callback] in
theorem listeners_modify (msg m : Msg) (o : RoleListeners Role Callback) :
    (c.modify msg o).listeners m = if m = msg then o else c.listeners m := by
  by_cases hm : m = msg <;> simp [EventControl.modify, EventControl.listeners, hm]

omit [DecidableEq Role] [DecidableEq Callback] in
theorem roleListenerArray_modify (msg : Msg) (o : RoleListeners Role Callback) :
    (c.modify msg o).roleListenerArray d =
      if d.dictionary = c.current ∧ d.msg = msg then o else c.roleListenerArray d := by
  by_cases hd : d.dictionary = c.current
  · by_cases hm : d.msg = msg <;>
      simp [EventControl.modify, EventControl.listeners, EventControl.roleListenerArray, hd, hm]
  · simp [EventControl.modify, EventControl.roleListenerArray, hd]

/-- What the dispatch of the code will call is what the dispatch of the bus has to call, and what was added since. -/
structure Serves (c : EventControl Msg Role Callback) (d : Dispatch Msg Role Callback)
    (x : Expected Msg Role Callback) : Prop where
  msg : x.msg = d.msg
  dictionary : d.dictionary ≤ c.current
  stale : d.dictionary < c.current → Quiet c d
  nodup : (d.role.toList ++ d.roles).Nodup
  role_none : d.role = none → d.array = []
  todo : ∀ role, x.todo role =
    if d.role = some role then d.array
    else if role ∈ d.roles ∧ receives d.fromRole d.toRoles role then
      ((c.roleListenerArray d).array role).filter fun callback => (role, callback) ∉ x.added
    else []

structure Inv (s : System Msg Role Callback) : Prop where
  registered : ∀ msg role, (s.code.listeners msg).array role = s.bus.registered msg role
  dispatches : List.Forall₂ (Serves s.code) s.code.dispatches s.bus.dispatches

omit [DecidableEq Msg] in
theorem Serves.todo_of_quiet (h : Serves c d x) (hquiet : Quiet c d) (role : Role) : x.todo role = [] := by
  rw [h.todo]
  split
  · exact hquiet.1
  · split
    · next hrole => rw [hquiet.2 role hrole.1 hrole.2, List.filter_nil]
    · rfl

omit [DecidableEq Msg] in
/-- A dispatch with nothing left to call keeps so while its object stays. -/
theorem Serves.of_quiet (h : Serves c d x) (hquiet : Quiet c d) {c' : EventControl Msg Role Callback}
    {x' : Expected Msg Role Callback} (hmsg : x'.msg = x.msg) (htodo : ∀ role, x'.todo role = [])
    (hcurrent : c.current ≤ c'.current) (hobject : c'.roleListenerArray d = c.roleListenerArray d) :
    Serves c' d x' := by
  have hquiet' : Quiet c' d := ⟨hquiet.1, by rw [hobject]; exact hquiet.2⟩
  refine ⟨hmsg.trans h.msg, h.dictionary.trans hcurrent, fun _ => hquiet', h.nodup, h.role_none, fun role => ?_⟩
  rw [htodo]
  split
  · exact hquiet.1.symm
  · split
    · next hrole => rw [hquiet'.2 role hrole.1 hrole.2, List.filter_nil]
    · rfl

omit [DecidableEq Msg] in
theorem Serves.congr (h : Serves c d x) {c' : EventControl Msg Role Callback} (hcurrent : c'.current = c.current)
    (hobject : c'.roleListenerArray d = c.roleListenerArray d) : Serves c' d x := by
  refine ⟨h.msg, hcurrent ▸ h.dictionary, ?_, h.nodup, h.role_none, ?_⟩
  · rw [hcurrent]
    intro hlt
    exact ⟨(h.stale hlt).1, by rw [hobject]; exact (h.stale hlt).2⟩
  · rw [hobject]
    exact h.todo

theorem Serves.addEvent (h : Serves c d x) (msg : Msg) (callback : Callback) (role : Role) :
    Serves (c.addEvent msg callback role) d
      (if x.msg = msg ∧ callback ∉ (c.listeners msg).array role then { x with added := (role, callback) :: x.added }
        else x) := by
  by_cases htouched : d.dictionary = c.current ∧ d.msg = msg
  · obtain ⟨hlive, hmsg⟩ := htouched
    have hobject : (c.addEvent msg callback role).roleListenerArray d =
        (c.roleListenerArray d).addEvent callback role := by
      rw [EventControl.addEvent, roleListenerArray_modify, if_pos ⟨hlive, hmsg⟩]
      simp [EventControl.listeners, EventControl.roleListenerArray, hlive, hmsg]
    have hlist : (c.listeners msg).array role = (c.roleListenerArray d).array role := by
      simp [EventControl.listeners, EventControl.roleListenerArray, hlive, hmsg]
    have hstale : ¬ d.dictionary < (c.addEvent msg callback role).current := fun hlt => absurd hlive (Nat.ne_of_lt hlt)
    rw [hlist]
    by_cases hnew : callback ∈ (c.roleListenerArray d).array role
    · rw [if_neg (fun hx => hx.2 hnew)]
      refine ⟨h.msg, h.dictionary, fun hlt => absurd hlt hstale, h.nodup, h.role_none, fun r => ?_⟩
      have hsame : ((c.roleListenerArray d).addEvent callback role).array r = (c.roleListenerArray d).array r := by
        rw [RoleListeners.addEvent_array, if_neg]
        rintro ⟨rfl, hr⟩
        exact hr hnew
      rw [hobject, hsame]
      exact h.todo r
    · rw [if_pos ⟨h.msg.trans hmsg, hnew⟩]
      refine ⟨h.msg, h.dictionary, fun hlt => absurd hlt hstale, h.nodup, h.role_none, fun r => ?_⟩
      -- the listener is the one that was added since
      have hfilter : (((c.roleListenerArray d).addEvent callback role).array r).filter
            (fun cb => (r, cb) ∉ (role, callback) :: x.added) =
          ((c.roleListenerArray d).array r).filter fun cb => (r, cb) ∉ x.added := by
        rw [RoleListeners.addEvent_array]
        by_cases hr : r = role
        · subst hr
          rw [if_pos ⟨rfl, hnew⟩, List.filter_append]
          have hlast : [callback].filter (fun cb => (r, cb) ∉ (r, callback) :: x.added) = [] := by simp
          rw [hlast, List.append_nil]
          refine List.filter_congr fun cb hcb => ?_
          have hne : cb ≠ callback := fun he => hnew (he ▸ hcb)
          simp [hne]
        · rw [if_neg fun h => hr h.1]
          exact List.filter_congr fun cb _ => by simp [hr]
      rw [hobject, hfilter]
      exact h.todo r
  · have hobject : (c.addEvent msg callback role).roleListenerArray d = c.roleListenerArray d := by
      rw [EventControl.addEvent, roleListenerArray_modify, if_neg htouched]
    split
    · next hx =>
      have hstale : d.dictionary < c.current :=
        Nat.lt_of_le_of_ne h.dictionary fun he => htouched ⟨he, h.msg ▸ hx.1⟩
      exact h.of_quiet (h.stale hstale) rfl (h.todo_of_quiet (h.stale hstale)) Nat.le.refl hobject
    · exact h.congr rfl hobject

/-- A listener is removed during a dispatch that does not hold it in its copy. -/
theorem Serves.removeEvent (h : Serves c d x) (msg : Msg) (callback : Callback) (role : Role)
    (hremoves : spliceLoop 0 ((c.listeners msg).array role) = ((c.listeners msg).array role).filter (· ≠ callback))
    (hcopy : d.msg = msg → d.role = some role → callback ∉ d.array) :
    Serves (c.removeEvent msg callback role) d
      (if x.msg = msg then
        { x with todo := fun r => if r = role then (x.todo r).filter (· ≠ callback) else x.todo r }
      else x) := by
  by_cases htouched : d.dictionary = c.current ∧ d.msg = msg
  · obtain ⟨hlive, hmsg⟩ := htouched
    have hlisteners : c.listeners msg = c.roleListenerArray d := by
      simp [EventControl.listeners, EventControl.roleListenerArray, hlive, hmsg]
    have hobject : (c.removeEvent msg callback role).roleListenerArray d =
        (c.roleListenerArray d).removeEvent role := by
      rw [EventControl.removeEvent, roleListenerArray_modify, if_pos ⟨hlive, hmsg⟩, hlisteners]
    have hstale : ¬ d.dictionary < (c.removeEvent msg callback role).current :=
      fun hlt => absurd hlive (Nat.ne_of_lt hlt)
    rw [hlisteners] at hremoves
    rw [if_pos (h.msg.trans hmsg)]
    refine ⟨h.msg, h.dictionary, fun hlt => absurd hlt hstale, h.nodup, h.role_none, fun r => ?_⟩
    simp only [hobject, h.todo, RoleListeners.removeEvent_array]
    by_cases hr : r = role
    · subst hr
      simp only [if_true, hremoves]
      split
      · next hrole =>
        exact List.filter_eq_self.mpr fun cb hcb => by
          have hne : cb ≠ callback := fun he => hcopy hmsg hrole (he ▸ hcb)
          simpa using hne
      · split
        · exact List.filter_comm _ _ _
        · rfl
    · simp only [hr, if_false]
  · have hobject : (c.removeEvent msg callback role).roleListenerArray d = c.roleListenerArray d := by
      rw [EventControl.removeEvent, roleListenerArray_modify, if_neg htouched]
    split
    · next hx =>
      have hstale : d.dictionary < c.current :=
        Nat.lt_of_le_of_ne h.dictionary fun he => htouched ⟨he, h.msg ▸ hx⟩
      refine h.of_quiet (h.stale hstale) rfl (fun r => ?_) Nat.le.refl hobject
      simp [h.todo_of_quiet (h.stale hstale)]
    · exact h.congr rfl hobject

omit [DecidableEq Msg] [DecidableEq Callback] in
/-- The loop over the roles: the roles passed have no listener, and the list of the role reached is copied. -/
theorem reach_some {o : RoleListeners Role Callback} {roles : List Role} {d' : Dispatch Msg Role Callback} {role : Role}
    {callback : Callback} (h : d.reach o roles = some (d', role, callback)) :
    ∃ passed rest array, roles = passed ++ role :: rest ∧ o.array role = callback :: array ∧
      receives d.fromRole d.toRoles role ∧ d' = { d with roles := rest, role := some role, array } ∧
      (∀ r ∈ passed, receives d.fromRole d.toRoles r → o.array r = []) ∧
      roles.find? (fun r => receives d.fromRole d.toRoles r && o.array r ≠ []) = some role := by
  induction roles with
  | nil => simp [Dispatch.reach] at h
  | cons r roles ih =>
    -- a role is passed if it does not receive or has no listener
    have hpass (hr : receives d.fromRole d.toRoles r → o.array r = [])
        (hrest : d.reach o roles = some (d', role, callback)) : ∃ passed rest array,
        r :: roles = passed ++ role :: rest ∧ o.array role = callback :: array ∧
        receives d.fromRole d.toRoles role ∧ d' = { d with roles := rest, role := some role, array } ∧
        (∀ r ∈ passed, receives d.fromRole d.toRoles r → o.array r = []) ∧
        (r :: roles).find? (fun r => receives d.fromRole d.toRoles r && o.array r ≠ []) = some role := by
      obtain ⟨passed, rest, array, hroles, harray, hreceives, hd', hpassed, hfind⟩ := ih hrest
      refine ⟨r :: passed, rest, array, by rw [hroles, List.cons_append], harray, hreceives, hd', ?_, ?_⟩
      · intro r' hr'
        rcases List.mem_cons.mp hr' with rfl | hr'
        · exact hr
        · exact hpassed r' hr'
      · rw [List.find?_cons_of_neg, hfind]
        by_cases hrec : receives d.fromRole d.toRoles r = true
        · simp [hr hrec]
        · simp [hrec]
    rw [Dispatch.reach] at h
    split at h
    · next hrec =>
      split at h
      · next cb array harray =>
        simp only [Option.some.injEq, Prod.mk.injEq] at h
        obtain ⟨hd', rfl, rfl⟩ := h
        refine ⟨[], roles, array, rfl, harray, hrec, hd'.symm, by simp, ?_⟩
        exact List.find?_cons_of_pos (by simp [hrec, harray])
      · next harray => exact hpass (fun _ => harray) h
    · next hrec => exact hpass (fun hr => absurd hr hrec) h

omit [DecidableEq Msg] [DecidableEq Callback] in
theorem reach_none {o : RoleListeners Role Callback} {roles : List Role} (h : d.reach o roles = none) :
    ∀ role ∈ roles, receives d.fromRole d.toRoles role → o.array role = [] := by
  induction roles with
  | nil => simp
  | cons r roles ih =>
    rw [Dispatch.reach] at h
    intro role hrole hrec
    split at h
    · split at h
      · simp at h
      · next harray =>
        rcases List.mem_cons.mp hrole with rfl | hrole
        · exact harray
        · exact ih h role hrole hrec
    · next hnot =>
      rcases List.mem_cons.mp hrole with rfl | hrole
      · exact absurd hrec hnot
      · exact ih h role hrole hrec

omit [DecidableEq Msg] in
theorem Serves.call_copy (h : Serves c d x) {role : Role} {callback : Callback} {array : List Callback}
    (hrole : d.role = some role) (harray : d.array = callback :: array) :
    (x.todo role).head? = some callback ∧
      Serves c { d with array } { x with todo := Function.update x.todo role (x.todo role).tail } := by
  have htodo : x.todo role = callback :: array := by rw [h.todo, if_pos hrole, harray]
  refine ⟨by rw [htodo]; rfl, h.msg, h.dictionary, ?_, h.nodup, ?_, fun r => ?_⟩
  · intro hlt
    have hnil := (h.stale hlt).1
    rw [harray] at hnil
    cases hnil
  · intro hnone
    rw [show d.role = none from hnone] at hrole
    cases hrole
  · by_cases hr : r = role
    · subst hr
      simp [hrole, htodo]
    · have hne : d.role ≠ some r := by
        rw [hrole]
        exact fun he => hr (Option.some.inj he).symm
      have htodo' := h.todo r
      rw [if_neg hne] at htodo'
      simp only [Function.update_of_ne hr, if_neg hne]
      exact htodo'

omit [DecidableEq Msg] in
theorem Serves.call_reached (h : Serves c d x) (hnil : d.array = [])
    (hok : ∀ role ∈ d.roles.find? fun role =>
      receives d.fromRole d.toRoles role && (c.roleListenerArray d).array role ≠ [],
      ∀ callback ∈ (c.roleListenerArray d).array role, (role, callback) ∉ x.added)
    {d' : Dispatch Msg Role Callback} {role : Role} {callback : Callback}
    (hreach : d.reach (c.roleListenerArray d) d.roles = some (d', role, callback)) :
    (x.todo role).head? = some callback ∧
      Serves c d' { x with todo := Function.update x.todo role (x.todo role).tail } := by
  obtain ⟨passed, rest, array, hroles, harray, hreceives, rfl, hpassed, hfind⟩ := reach_some hreach
  have hnodup := h.nodup
  rw [hroles] at hnodup
  have hne : d.role ≠ some role := by
    intro hrole
    rw [hrole] at hnodup
    simp at hnodup
  have hmem : role ∈ d.roles := by simp [hroles]
  have htodo : x.todo role = callback :: array := by
    rw [h.todo, if_neg hne, if_pos ⟨hmem, hreceives⟩, ← harray]
    exact List.filter_eq_self.mpr fun cb hcb => by simpa using hok role hfind cb hcb
  have hnodup_roles : (passed ++ role :: rest).Nodup := (List.nodup_append.mp hnodup).2.1
  refine ⟨by rw [htodo]; rfl, h.msg, h.dictionary, ?_, ?_, ?_, fun r => ?_⟩
  · intro hlt
    have hempty := (h.stale hlt).2 role hmem hreceives
    rw [harray] at hempty
    cases hempty
  · exact (List.nodup_append.mp hnodup_roles).2.1
  · intro hnone
    cases hnone
  · by_cases hr : r = role
    · subst hr
      simp [htodo]
    · have hrole : ¬ some role = some r := fun he => hr (Option.some.inj he).symm
      simp only [Function.update_of_ne hr, if_neg hrole, h.todo]
      -- a role that was passed has no listener, and the role before does not come again
      split
      · next hr' =>
        have hnot : r ∉ rest := by
          rw [hr'] at hnodup
          intro hmem'
          simp [hmem'] at hnodup
        rw [hnil, if_neg fun h => hnot h.1]
      · by_cases hrec : receives d.fromRole d.toRoles r = true
        · by_cases hpass : r ∈ passed
          · have hempty := hpassed r hpass hrec
            simp [EventControl.roleListenerArray] at hempty ⊢
            simp [hempty]
          · simp only [hroles, List.mem_append, List.mem_cons, hpass, hr, false_or]
            rfl
        · simp [hrec]

omit [DecidableEq Msg] in
/-- A call: it is the first that the bus has to make, and the rest is what it still has to. -/
theorem Serves.call (h : Serves c d x)
    (hok : d.array = [] → ∀ role ∈ d.roles.find? fun role =>
      receives d.fromRole d.toRoles role && (c.roleListenerArray d).array role ≠ [],
      ∀ callback ∈ (c.roleListenerArray d).array role, (role, callback) ∉ x.added)
    {d' : Dispatch Msg Role Callback} {role : Role} {callback : Callback}
    (hnext : d.next (c.roleListenerArray d) = some (d', role, callback)) :
    (x.todo role).head? = some callback ∧
      Serves c d' { x with todo := Function.update x.todo role (x.todo role).tail } := by
  unfold Dispatch.next at hnext
  split at hnext
  · next role' callback' array hrole harray =>
    simp only [Option.some.injEq, Prod.mk.injEq] at hnext
    obtain ⟨rfl, rfl, rfl⟩ := hnext
    exact h.call_copy hrole harray
  · next hcopy =>
    have hnil : d.array = [] := by
      cases hrole : d.role with
      | none => exact h.role_none hrole
      | some role' =>
        cases harray : d.array with
        | nil => rfl
        | cons cb array => exact absurd harray (hcopy role' cb array hrole)
    exact h.call_reached hnil (hok hnil) hnext

omit [DecidableEq Msg] in
theorem Serves.finished (h : Serves c d x) (hnext : d.next (c.roleListenerArray d) = none) (role : Role) :
    x.todo role = [] := by
  unfold Dispatch.next at hnext
  split at hnext
  · cases hnext
  · next hcopy =>
    refine h.todo_of_quiet ⟨?_, reach_none hnext⟩ role
    cases hrole : d.role with
    | none => exact h.role_none hrole
    | some role' =>
      cases harray : d.array with
      | nil => rfl
      | cons cb array => exact absurd harray (hcopy role' cb array hrole)

omit [DecidableEq Msg] in
/-- The dispatches served stay so where each of the bus's is changed. -/
theorem forall₂_serves_map {c' : EventControl Msg Role Callback} {ds : List (Dispatch Msg Role Callback)}
    {xs : List (Expected Msg Role Callback)} {f : Expected Msg Role Callback → Expected Msg Role Callback}
    (h : List.Forall₂ (Serves c) ds xs) (hf : ∀ d ∈ ds, ∀ x, Serves c d x → Serves c' d (f x)) :
    List.Forall₂ (Serves c') ds (xs.map f) := by
  induction h with
  | nil => exact List.Forall₂.nil
  | cons hd _ ih =>
    exact List.Forall₂.cons (hf _ List.mem_cons_self _ hd) (ih fun d hmem => hf d (List.mem_cons_of_mem _ hmem))

omit [DecidableEq Msg] in
theorem Inv.next (h : Inv s) (hok : StepOk s .next) :
    s.bus.Accepts (s.code.next).2 ∧
      List.Forall₂ (Serves s.code) (s.code.next).1.dispatches (s.bus.next (s.code.next).2).dispatches ∧
      (s.code.next).1.dictionaries = s.code.dictionaries ∧ (s.code.next).1.current = s.code.current ∧
      (s.bus.next (s.code.next).2).registered = s.bus.registered := by
  have hdispatches := h.dispatches
  unfold StepOk at hok
  unfold EventControl.next
  cases hds : s.code.dispatches with
  | nil =>
    rw [hds] at hdispatches
    have hxs := List.forall₂_nil_left_iff.mp hdispatches
    simp [Bus.Accepts, Bus.next, hds, hxs]
  | cons d ds =>
    rw [hds] at hdispatches
    obtain ⟨x, xs, hserves, hrest, hxs⟩ := List.forall₂_cons_left_iff.mp hdispatches
    cases hnext : d.next (s.code.roleListenerArray d) with
    | none =>
      simp only [hnext]
      refine ⟨⟨x, by simp [hxs], hserves.finished hnext⟩, ?_, trivial, trivial, ?_⟩
      · simpa [Bus.next, hxs] using hrest
      · simp [Bus.next, hxs]
    | some r =>
      obtain ⟨d', role, callback⟩ := r
      obtain ⟨hhead, hserves'⟩ := hserves.call (hok d (by simp [hds]) x (by simp [hxs])) hnext
      simp only [hnext]
      refine ⟨⟨x, by simp [hxs], hhead⟩, ?_, trivial, trivial, ?_⟩
      · simp only [Bus.next, hxs]
        exact List.Forall₂.cons hserves' hrest
      · simp [Bus.next, hxs]

theorem Inv.addEvent (h : Inv s) (msg : Msg) (callback : Callback) (role : Role) :
    Inv (step arrayIndex s (.addEvent msg callback role)) := by
  constructor
  · intro m r
    simp only [Viewer.step, EventControl.step, EventControl.addEvent, listeners_modify, Bus.step, Bus.addEvent,
      ← h.registered]
    by_cases hm : m = msg
    · subst hm
      simp [RoleListeners.addEvent_array]
    · simp [hm]
  · simp only [Viewer.step, EventControl.step, Bus.step, Bus.addEvent, ← h.registered]
    exact forall₂_serves_map h.dispatches fun d _ x hd => hd.addEvent msg callback role

theorem Inv.removeEvent (h : Inv s) {msg : Msg} {callback : Callback} {role : Role}
    (hok : StepOk s (.removeEvent msg callback role)) : Inv (step arrayIndex s (.removeEvent msg callback role)) := by
  have hremoves := (spliceLoop_removes_iff ((s.code.listeners msg).array_nodup role) callback).mpr hok.1
  constructor
  · intro m r
    simp only [Viewer.step, EventControl.step, EventControl.removeEvent, listeners_modify, Bus.step, Bus.removeEvent,
      ← h.registered]
    by_cases hm : m = msg
    · subst hm
      by_cases hr : r = role
      · subst hr
        simpa [RoleListeners.removeEvent_array] using hremoves
      · simp [RoleListeners.removeEvent_array, hr]
    · simp [hm]
  · simp only [Viewer.step, EventControl.step, Bus.step, Bus.removeEvent]
    exact forall₂_serves_map h.dispatches fun d hmem x hd =>
      hd.removeEvent msg callback role hremoves (hok.2 d hmem)

/-- The dispatches that run keep the dictionary they began with, and have nothing left to call in it. -/
theorem Inv.disposeEvent (h : Inv s) (hok : StepOk s .disposeEvent) : Inv (step arrayIndex s .disposeEvent) := by
  constructor
  · intro m r
    simp [Viewer.step, EventControl.step, EventControl.disposeEvent, EventControl.listeners, Bus.step,
      Bus.disposeEvent, RoleListeners.empty]
  · simp only [Viewer.step, EventControl.step, Bus.step, Bus.disposeEvent]
    refine forall₂_serves_map h.dispatches fun d hmem x hd => hd.of_quiet (hok d hmem) rfl (fun _ => rfl) ?_ ?_
    · exact Nat.le_succ _
    · have hne : d.dictionary ≠ s.code.current + 1 := Nat.ne_of_lt (Nat.lt_succ_of_le hd.dictionary)
      simp [EventControl.disposeEvent, EventControl.roleListenerArray, Function.update_of_ne hne]

/-- A dispatch begins with all that is registered to call. -/
theorem Inv.dispatchEvent (h : Inv s) (msg : Msg) (fromRole : Role) (toRoles : Option (List Role)) :
    Inv (step arrayIndex s (.dispatchEvent msg fromRole toRoles)) := by
  refine ⟨h.registered, ?_⟩
  refine List.Forall₂.cons ⟨rfl, le_rfl, fun hlt => absurd hlt (lt_irrefl _), ?_, fun _ => rfl, fun role => ?_⟩
    (h.dispatches.imp fun d x hd => hd.congr rfl rfl)
  · exact (forInOrder_perm _ _).nodup_iff.mpr (s.code.listeners msg).keys_nodup
  · simp only [← h.registered, (forInOrder_perm arrayIndex _).mem_iff, reduceCtorEq, if_false]
    by_cases hrec : receives fromRole toRoles role = true
    · by_cases hmem : role ∈ (s.code.listeners msg).keys
      · simp [hrec, hmem]
        rfl
      · simp [hrec, hmem, (s.code.listeners msg).array_absent role hmem]
    · simp [hrec]

/-- A step that goes right. -/
theorem Inv.step (h : Inv s) {op : Op Msg Role Callback} (hok : StepOk s op) :
    Inv (step arrayIndex s op) ∧ Right arrayIndex s op := by
  suffices hstep : s.bus.Accepts (s.code.step arrayIndex op).2 ∧ Inv (Viewer.step arrayIndex s op) from
    ⟨hstep.2, hstep.1, hstep.2.registered⟩
  cases op with
  | addEvent msg callback role => exact ⟨trivial, h.addEvent msg callback role⟩
  | removeEvent msg callback role => exact ⟨trivial, h.removeEvent hok⟩
  | disposeEvent => exact ⟨trivial, h.disposeEvent hok⟩
  | dispatchEvent msg fromRole toRoles => exact ⟨trivial, h.dispatchEvent msg fromRole toRoles⟩
  | next =>
    obtain ⟨haccepts, hserves, hdictionaries, hcurrent, hregistered⟩ := h.next hok
    refine ⟨haccepts, fun m r => ?_, hserves.imp fun d x hd => hd.congr hcurrent ?_⟩
    · simp only [Viewer.step, EventControl.step, Bus.step, hregistered, EventControl.listeners, hdictionaries, hcurrent]
      exact h.registered m r
    · simp only [Viewer.step, EventControl.step, EventControl.roleListenerArray, hdictionaries]

omit [DecidableEq Msg] in
theorem inv_start : Inv (System.start : System Msg Role Callback) :=
  ⟨fun _ _ => rfl, List.Forall₂.nil⟩

/-- **The bus**: in a run whose steps are as above, every dispatch calls the listeners that the bus has to call, in
order, and returns when it has called all, and the lists of the code are the listeners registered. -/
theorem dispatch_run {ops : List (Op Msg Role Callback)} (h : AllSteps (step arrayIndex) StepOk System.start ops) :
    AllSteps (step arrayIndex) (Right arrayIndex) System.start ops :=
  AllSteps.of_invariant (fun _ _ hI hok => hI.step hok) inv_start h

/-- Two listeners of role 7 and one of role 8; the first of role 7 is removed, and role 5 dispatches. -/
def oneRemoved : List (Op ℕ ℕ ℕ) :=
  [.addEvent 0 1 7, .addEvent 0 2 7, .addEvent 0 3 8, .removeEvent 0 1 7, .dispatchEvent 0 5 none, .next, .next, .next]

theorem oneRemoved_right :
    AllSteps (step fun _ => none) (Right fun _ => none) System.start oneRemoved := by
  exact dispatch_run (by decide +kernel)

/-- Three listeners: removing the first takes the third with it. -/
theorem third_removed_with_first :
    ¬ AllSteps (step fun _ => none) (Right fun _ => none) System.start
      ([.addEvent 0 1 7, .addEvent 0 2 7, .addEvent 0 3 7, .removeEvent 0 1 7] : List (Op ℕ ℕ ℕ)) := by
  intro h
  have hlist := h.2.2.2.1.registered 0 7
  simp [step, System.start, EventControl.step, EventControl.start, EventControl.listeners, EventControl.addEvent,
    EventControl.removeEvent, EventControl.modify, RoleListeners.addEvent_array, RoleListeners.removeEvent_array,
    RoleListeners.empty, spliceLoop_eq, everySecond, Bus.step, Bus.addEvent, Bus.removeEvent, Bus.start] at hlist

end Runs

end Cxsw.Viewer
