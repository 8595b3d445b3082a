import Mathlib.Data.List.Perm.Basic
import Mathlib.Logic.Function.Basic
import Cxsw.Lib.Run
import Cxsw.Mcu.Stepper

/-!
# Cxsw.Mcu.Sched — the timers of the microcontroller (`src/sched.c`)

The timers are in a list, the next one first.  Their times have 32 bits and are compared by the sign of their
difference, so the list is in order only as long as no two times are far from each other: a periodic timer is always
close, and the sentinel half the range behind it ends the list.  A timer is found a new place from the one that was
inserted last, if that is not behind it.

A timer that is deleted while it is the first one leaves `deleted_timer` in its place.  The function of a timer may
delete other timers; it does not add any.

* `SchedStatus` and its functions: the code; `none` is a shutdown, or a pointer that does not lead to a timer of the
  list.
* `Chain`, `Chain.insert`, `Chain.insertFrom`: a list that is in order, and a new timer in it.
* `Inv` and a lemma for each event: the list is in order for times that are integers.
* `timers_in_order`: no timer is lost, and the first of the list is the next one.
-/

namespace Cxsw.Sched

open McuStepper (timerIsBefore)

/-! ## The code -/

section Defs

/-- `periodic_timer`, `sentinel_timer`, `deleted_timer`, and those of the other modules. -/
inductive Timer
  | periodic
  | sentinel
  | deleted
  | user (n : ℕ)
  deriving DecidableEq

/-- `SchedStatus`, with the `waketime` of the timers; `timerList` is what `next` leads to. -/
structure SchedStatus where
  waketime : Timer → UInt32
  timerList : List Timer
  lastInsert : Timer

/-- The loop of `insert_timer`: the timers behind `pos`. -/
def insertBefore (stop : Timer → Bool) (t : Timer) : List Timer → Option (List Timer)
  | [] => none
  | pos :: rest => if stop pos then some (t :: pos :: rest) else (insertBefore stop t rest).map (pos :: ·)

/-- `insert_timer` for a `pos` in the list. -/
def insertFrom (stop : Timer → Bool) (t pos : Timer) : List Timer → Option (List Timer)
  | [] => none
  | p :: rest =>
    if p = pos then (insertBefore stop t rest).map (p :: ·) else (insertFrom stop t pos rest).map (p :: ·)

namespace SchedStatus

def setWake (s : SchedStatus) (t : Timer) (waketime : UInt32) : SchedStatus :=
  { s with waketime := Function.update s.waketime t waketime }

/-- The comparison of `insert_timer`. -/
def stops (s : SchedStatus) (waketime : UInt32) (pos : Timer) : Bool := timerIsBefore waketime (s.waketime pos)

/-- `sched_add_timer` at the time `now`, for a timer whose `waketime` is set, before a shutdown: after one
`try_shutdown` does nothing, and the timer is inserted. -/
def addTimer (now : UInt32) (s : SchedStatus) (add : Timer) : Option SchedStatus :=
  match s.timerList with
  | [] => none
  | tl :: rest =>
    if timerIsBefore (s.waketime add) (s.waketime tl) then
      if timerIsBefore (s.waketime add) now then none -- "Timer too close"
      else
        some { s.setWake .deleted (s.waketime add) with
          timerList := .deleted :: add :: if tl = .deleted then rest else tl :: rest }
    else (insertFrom (s.stops (s.waketime add)) add tl (tl :: rest)).map fun l => { s with timerList := l }

/-- `sched_del_timer`. -/
def delTimer (s : SchedStatus) (del : Timer) : SchedStatus :=
  let s :=
    match s.timerList with
    | [] => s
    | tl :: rest =>
      if tl = del then { s.setWake .deleted (s.waketime del) with timerList := .deleted :: rest }
      else { s with timerList := tl :: rest.erase del }
  if s.lastInsert = del then { s with lastInsert := .periodic } else s

/-- `periodic_event`, for `timer_from_us(100000)`. -/
def periodicEvent (ticks : UInt32) (s : SchedStatus) : SchedStatus :=
  (s.setWake .periodic (s.waketime .periodic + ticks)).setWake .sentinel (s.waketime .periodic + ticks + 0x80000000)

theorem setWake_waketime (s : SchedStatus) (t : Timer) (waketime : UInt32) :
    (s.setWake t waketime).waketime = Function.update s.waketime t waketime := rfl

theorem periodicEvent_waketime (ticks : UInt32) (s : SchedStatus) :
    (s.periodicEvent ticks).waketime = Function.update (Function.update s.waketime .periodic
      (s.waketime .periodic + ticks))
      .sentinel (s.waketime .periodic + ticks + 0x80000000) := rfl

/-- "Update timer_list" of `sched_timer_dispatch`, for what the timer's function returns. -/
def updateTimerList (reschedule : Bool) (s : SchedStatus) : Option SchedStatus :=
  match s.timerList with
  | t :: next :: rest =>
    if ¬ reschedule then
      some { s with timerList := next :: rest, lastInsert := if s.lastInsert = t then next else s.lastInsert }
    else if timerIsBefore (s.waketime t) (s.waketime next) then some s
    else
      let pos := if timerIsBefore (s.waketime t) (s.waketime s.lastInsert) then next else s.lastInsert
      -- where `pos` is the timer itself, its `next` is still that of before
      (if pos = t then insertBefore (s.stops (s.waketime t)) t (next :: rest)
        else insertFrom (s.stops (s.waketime t)) t pos (next :: rest)).map fun l =>
          { s with timerList := l, lastInsert := t }
  | _ => none

/-- The `next_waketime` that goes with it. -/
def nextWaketime (reschedule : Bool) (s : SchedStatus) : Option UInt32 :=
  match s.timerList with
  | t :: next :: _ =>
    if ¬ reschedule then some (s.waketime next)
    else if timerIsBefore (s.waketime t) (s.waketime next) then some (s.waketime t)
    else some (s.waketime next)
  | _ => none

/-- `sched_timer_dispatch` behind the call: the list, and what is returned. -/
def finish (reschedule : Bool) (s : SchedStatus) : Option (SchedStatus × UInt32) :=
  (s.updateTimerList reschedule).bind fun s' => (s.nextWaketime reschedule).map fun waketime => (s', waketime)

/-- `sched_timer_dispatch`: the function of a timer deletes some others, and reschedules its timer or not. -/
def dispatch (ticks : UInt32) (dels : List ℕ) (res : Option UInt32) (s : SchedStatus) : Option (SchedStatus × UInt32) :=
  match s.timerList with
  | [] => none
  | .periodic :: _ => (s.periodicEvent ticks).finish true
  | .sentinel :: _ => none -- "sentinel timer called"
  | .deleted :: _ => s.finish false
  | .user n :: _ =>
    let s := dels.foldl (fun s m => s.delTimer (.user m)) s
    match res with
    | none => s.finish false
    | some waketime => (s.setWake (.user n) waketime).finish true

/-- `sched_timer_reset`. -/
def timerReset (s : SchedStatus) : SchedStatus :=
  { s.setWake .deleted (s.waketime .periodic) with
    timerList := [.deleted, .periodic, .sentinel], lastInsert := .periodic }

/-- The static values. -/
def init : SchedStatus := ⟨fun t => if t = .sentinel then 0x80000000 else 0, [.periodic, .sentinel], .periodic⟩

end SchedStatus

/-! ### What the modules see of it -/

/-- The timers that are scheduled, each with its time, and the time of the periodic timer. -/
structure World where
  s : SchedStatus
  due : ℕ → Option ℤ
  periodic : ℤ

inductive Event
  | add (now : UInt32) (n : ℕ) (time : ℤ)
  | del (n : ℕ)
  | reset
  | dispatch (dels : List ℕ) (res : Option ℤ)
  deriving DecidableEq

/-- A time that is close to the periodic timer. -/
def World.Close (w : World) (time : ℤ) : Prop := w.periodic - 2 ^ 30 ≤ time ∧ time < w.periodic + 2 ^ 30

namespace World

def start : World := ⟨SchedStatus.init, fun _ => none, 0⟩

/-- A module sets the time of its timer and schedules it. -/
def add (now : UInt32) (w : World) (n : ℕ) (time : ℤ) : Option World :=
  ((w.s.setWake (.user n) (UInt32.ofInt time)).addTimer now (.user n)).map fun s =>
    { w with s := s, due := Function.update w.due n (some time) }

def del (w : World) (n : ℕ) : World :=
  { w with s := w.s.delTimer (.user n), due := Function.update w.due n none }

def reset (w : World) : World :=
  { w with s := w.s.timerReset, due := fun _ => none }

/-- The first timer is called. -/
def dispatch (ticks : UInt32) (w : World) (dels : List ℕ) (res : Option ℤ) : Option (World × UInt32) :=
  (w.s.dispatch ticks dels (res.map UInt32.ofInt)).map fun (s, waketime) =>
    match w.s.timerList.head? with
    | some (.user n) =>
      (⟨s, Function.update (dels.foldl (fun due m => Function.update due m none) w.due) n res, w.periodic⟩, waketime)
    | some .periodic => (⟨s, w.due, w.periodic + ticks.toNat⟩, waketime)
    | _ => (⟨s, w.due, w.periodic⟩, waketime)

end World

/-- When a timer is next. -/
def World.time (w : World) : Timer → Option ℤ
  | .periodic => some w.periodic
  | .sentinel => some (w.periodic + 2 ^ 31)
  | .deleted => none
  | .user n => w.due n

/-- What the modules do: a timer is not added twice, no time is far away, and a function does not delete its own
timer. -/
inductive SchedStep (ticks : UInt32) : World → Event → World → Prop
  | add {w w' : World} {now : UInt32} {n : ℕ} {time : ℤ} (hnew : w.due n = none) (hclose : w.Close time)
      (h : w.add now n time = some w') : SchedStep ticks w (.add now n time) w'
  | del {w : World} {n : ℕ} : SchedStep ticks w (.del n) (w.del n)
  | reset {w : World} : SchedStep ticks w .reset w.reset
  | dispatch {w w' : World} {waketime : UInt32} {dels : List ℕ} {res : Option ℤ}
      (hdels : ∀ m ∈ dels, w.s.timerList.head? ≠ some (.user m))
      (hclose : ∀ time ∈ res, w.Close time) (h : w.dispatch ticks dels res = some (w', waketime)) :
      SchedStep ticks w (.dispatch dels res) w'

end Defs

/-! ## Lists in order -/

section Chains

variable {T : Timer → ℤ} {P time : ℤ} {L l l' r : List Timer} {t pos : Timer} {stop : Timer → Bool}
  {wake : Timer → UInt32}

/-- The difference of two times that are not far from each other. -/
theorem timerIsBefore_iff {a b : ℤ} (h : -2 ^ 31 ≤ a - b) (h' : a - b < 2 ^ 31) :
    timerIsBefore (UInt32.ofInt a) (UInt32.ofInt b) = true ↔ a < b := by
  unfold timerIsBefore
  have hdiff : UInt32.ofInt a - UInt32.ofInt b = UInt32.ofInt (a - b) := by
    rw [show UInt32.ofInt a = UInt32.ofInt (a - b) + UInt32.ofInt b by rw [← UInt32.ofInt_add, sub_add_cancel]]
    exact UInt32.add_sub_cancel _ _
  rw [hdiff, StepCompress.int32_ofInt h h', decide_eq_true_iff]
  omega

/-- A list of timers in the order of their times. -/
structure Chain (T : Timer → ℤ) (P : ℤ) (L : List Timer) : Prop where
  nodup : L.Nodup
  sorted : L.Pairwise fun x y => T x ≤ T y
  close : ∀ x ∈ L, x ≠ .sentinel → P - 2 ^ 30 ≤ T x ∧ T x < P + 2 ^ 30
  periodic : T .periodic = P
  sentinel : T .sentinel = P + 2 ^ 31

theorem Chain.tail (h : Chain T P (t :: l)) : Chain T P l :=
  ⟨h.nodup.of_cons, h.sorted.of_cons, fun x hx => h.close x (List.mem_cons_of_mem t hx), h.periodic, h.sentinel⟩

theorem Chain.sublist (h : Chain T P L) (hs : l.Sublist L) : Chain T P l :=
  ⟨h.nodup.sublist hs, h.sorted.sublist hs, fun x hx => h.close x (hs.subset hx), h.periodic, h.sentinel⟩

theorem Chain.congr (h : Chain T P L) {T' : Timer → ℤ} (heq : ∀ x ∈ L, T' x = T x) (hp : T' .periodic = P)
    (hs : T' .sentinel = P + 2 ^ 31) : Chain T' P L := by
  refine ⟨h.nodup, h.sorted.imp_of_mem fun hx hy hle => ?_, fun x hx hne => ?_, hp, hs⟩
  · rw [heq _ hx, heq _ hy]
    exact hle
  · rw [heq x hx]
    exact h.close x hx hne

theorem insertBefore_spec (h : ∃ p ∈ r, stop p = true) :
    ∃ a p b, r = a ++ p :: b ∧ (∀ x ∈ a, stop x = false) ∧ stop p = true ∧
      insertBefore stop t r = some (a ++ t :: p :: b) := by
  induction r with
  | nil =>
    obtain ⟨p, hp, -⟩ := h
    exact absurd hp List.not_mem_nil
  | cons q r ih =>
    by_cases hq : stop q = true
    · exact ⟨[], q, r, rfl, fun x hx => absurd hx List.not_mem_nil, hq, if_pos hq⟩
    · obtain ⟨p, hp, hstop⟩ := h
      have hpr : p ∈ r := (List.mem_cons.mp hp).resolve_left fun heq => hq (heq ▸ hstop)
      obtain ⟨a, p', b, hr, hfalse, hp', hinsert⟩ := ih ⟨p, hpr, hstop⟩
      refine ⟨q :: a, p', b, by rw [hr, List.cons_append],
        List.forall_mem_cons.mpr ⟨Bool.eq_false_iff.mpr hq, hfalse⟩, hp', ?_⟩
      rw [insertBefore, if_neg hq, hinsert]
      rfl

theorem insertFrom_eq (hpos : pos ∉ l) :
    insertFrom stop t pos (l ++ pos :: r) = (insertBefore stop t r).map (l ++ pos :: ·) := by
  induction l with
  | nil => exact if_pos rfl
  | cons q l ih =>
    have hq : q ≠ pos := fun heq => hpos (heq ▸ List.mem_cons_self)
    rw [List.cons_append, insertFrom, if_neg hq, ih fun hl => hpos (List.mem_cons_of_mem q hl), Option.map_map]
    rfl

/-- **A timer is inserted**, from a place that is not behind it: the list is in order again. -/
theorem Chain.insert (h : Chain T P (l ++ r)) (hwake : ∀ x ∈ l ++ r, wake x = UInt32.ofInt (T x)) (ht : t ∉ l ++ r)
    (hsent : t ≠ .sentinel) (hclose : P - 2 ^ 30 ≤ T t ∧ T t < P + 2 ^ 30) (hl : ∀ x ∈ l, T x ≤ T t)
    (hend : .sentinel ∈ l ++ r) (hper : P ≤ T t ∨ .periodic ∈ l ++ r) :
    ∃ r', insertBefore (fun x => timerIsBefore (UInt32.ofInt (T t)) (wake x)) t r = some r' ∧ Chain T P (l ++ r') ∧
      (l ++ r').Perm (t :: (l ++ r)) := by
  have hmem : ∀ x ∈ l ++ r, T t < T x → x ∈ r := fun x hx hlt =>
    (List.mem_append.mp hx).resolve_left fun hxl => absurd (hl x hxl) (not_le.mpr hlt)
  have hsr : Timer.sentinel ∈ r := hmem _ hend (by rw [h.sentinel]; omega)
  have hbefore : ∀ x ∈ l ++ r, x ≠ .sentinel →
      (timerIsBefore (UInt32.ofInt (T t)) (wake x) = true ↔ T t < T x) := by
    intro x hx hne
    have hx' := h.close x hx hne
    rw [hwake x hx]
    exact timerIsBefore_iff (by omega) (by omega)
  -- the walk ends at the sentinel, or in front of the periodic timer
  have hstop : ∃ p ∈ r, timerIsBefore (UInt32.ofInt (T t)) (wake p) = true := by
    by_cases hP : P ≤ T t
    · refine ⟨.sentinel, hsr, ?_⟩
      rw [hwake _ hend, h.sentinel]
      exact (timerIsBefore_iff (by omega) (by omega)).mpr (by omega)
    · have hp := hper.resolve_left hP
      have hlt : T t < T .periodic := by rw [h.periodic]; omega
      exact ⟨.periodic, hmem _ hp hlt, (hbefore _ hp (by decide)).mpr hlt⟩
  obtain ⟨a, p, b, hr, hfalse, hp, hinsert⟩ := insertBefore_spec (t := t) hstop
  subst hr
  have hperm : (l ++ (a ++ t :: p :: b)).Perm (t :: (l ++ (a ++ p :: b))) := by
    rw [← List.append_assoc, ← List.append_assoc]
    exact List.perm_middle
  refine ⟨_, hinsert, ⟨hperm.nodup_iff.mpr (List.nodup_cons.mpr ⟨ht, h.nodup⟩), ?_, ?_, h.periodic, h.sentinel⟩, hperm⟩
  · have hsorted := h.sorted
    rw [← List.append_assoc] at hsorted ⊢
    obtain ⟨h1, h2, h3⟩ := List.pairwise_append.mp hsorted
    have hpb : p ∈ l ++ (a ++ p :: b) := List.mem_append_right _ (List.mem_append_right _ List.mem_cons_self)
    have htp : T t < T p := by
      by_cases hps : p = .sentinel
      · rw [hps, h.sentinel]
        omega
      · exact (hbefore p hpb hps).mp hp
    have hfirst : ∀ x ∈ l ++ a, T x ≤ T t := by
      intro x hx
      rcases List.mem_append.mp hx with hxl | hxa
      · exact hl x hxl
      · have hxm : x ∈ l ++ (a ++ p :: b) := List.mem_append_right _ (List.mem_append_left _ hxa)
        have hxs : x ≠ .sentinel := by
          rintro rfl
          have hne : p ≠ .sentinel := by
            rintro rfl
            have hnodup := h.nodup
            rw [← List.append_assoc] at hnodup
            exact List.disjoint_of_nodup_append hnodup hx List.mem_cons_self
          have hle := h3 _ hx p List.mem_cons_self
          rw [h.sentinel] at hle
          have := (h.close p hpb hne).2
          omega
        by_contra hlt
        have := (hbefore x hxm hxs).mpr (not_le.mp hlt)
        rw [hfalse x hxa] at this
        cases this
    refine List.pairwise_append.mpr ⟨h1, List.pairwise_cons.mpr ⟨fun y hy => ?_, h2⟩, fun x hx y hy => ?_⟩
    · rcases List.mem_cons.mp hy with rfl | hyb
      · exact htp.le
      · exact htp.le.trans ((List.pairwise_cons.mp h2).1 y hyb)
    · rcases List.mem_cons.mp hy with rfl | hyb
      · exact hfirst x hx
      · exact h3 x hx y hyb
  · intro x hx hne
    rcases List.mem_cons.mp (hperm.mem_iff.mp hx) with rfl | hold
    · exact hclose
    · exact h.close x hold hne

/-- The same from a place in the list whose time is not behind. -/
theorem Chain.insertFrom (h : Chain T P L) (hwake : ∀ x ∈ L, wake x = UInt32.ofInt (T x)) (ht : t ∉ L)
    (hsent : t ≠ .sentinel)
    (hclose : P - 2 ^ 30 ≤ T t ∧ T t < P + 2 ^ 30) (hend : .sentinel ∈ L) (hper : P ≤ T t ∨ .periodic ∈ L)
    (hpos : pos ∈ L)
    (hle : T pos ≤ T t) :
    ∃ l', Sched.insertFrom (fun x => timerIsBefore (UInt32.ofInt (T t)) (wake x)) t pos L = some l' ∧ Chain T P l' ∧
      l'.Perm (t :: L) := by
  obtain ⟨a, b, rfl⟩ := List.append_of_mem hpos
  have hna : pos ∉ a := fun ha => List.disjoint_of_nodup_append h.nodup ha List.mem_cons_self
  have hl : ∀ x ∈ a ++ [pos], T x ≤ T t := fun x hx => by
    rcases List.mem_append.mp hx with hxa | hxp
    · exact ((List.pairwise_append.mp h.sorted).2.2 x hxa pos List.mem_cons_self).trans hle
    · rw [List.mem_singleton.mp hxp]
      exact hle
  have hsplit : a ++ pos :: b = (a ++ [pos]) ++ b := by
    rw [List.append_assoc]
    rfl
  rw [insertFrom_eq hna]
  rw [hsplit] at h hwake ht hend hper ⊢
  obtain ⟨r', hinsert, hchain, hperm⟩ := h.insert hwake ht hsent hclose hl hend hper
  rw [List.append_assoc] at hchain hperm
  refine ⟨a ++ pos :: r', ?_, hchain, hperm⟩
  rw [hinsert]
  rfl

/-- **A timer is rescheduled**, the first one, from a place that is in the list. -/
theorem reschedule_spec {s : SchedStatus} (hlist : s.timerList = t :: r) (hr : Chain T P r)
    (hwake : ∀ x ∈ t :: r, s.waketime x = UInt32.ofInt (T x)) (ht : t ∉ r) (hsent : t ≠ .sentinel)
    (hclose : P - 2 ^ 30 ≤ T t ∧ T t < P + 2 ^ 30) (hend : .sentinel ∈ r) (hper : P ≤ T t ∨ .periodic ∈ r)
    (hlast : s.lastInsert ∈ t :: r) (hlast' : s.lastInsert ≠ .sentinel) :
    ∃ s', s.updateTimerList true = some s' ∧ s'.waketime = s.waketime ∧ s'.timerList.Perm (t :: r) ∧
      Chain T P s'.timerList ∧ s'.lastInsert ∈ t :: r ∧ s'.lastInsert ≠ .sentinel := by
  have hbefore : ∀ x ∈ t :: r, x ≠ .sentinel →
      (timerIsBefore (s.waketime t) (s.waketime x) = true ↔ T t < T x) := by
    intro x hx hne
    have hx' : P - 2 ^ 30 ≤ T x ∧ T x < P + 2 ^ 30 := by
      rcases List.mem_cons.mp hx with rfl | hxr
      · exact hclose
      · exact hr.close x hxr hne
    rw [hwake t List.mem_cons_self, hwake x hx]
    exact timerIsBefore_iff (by omega) (by omega)
  have hwr : ∀ x ∈ r, s.waketime x = UInt32.ofInt (T x) := fun x hx => hwake x (List.mem_cons_of_mem t hx)
  have hfun : s.stops (s.waketime t) = fun x => timerIsBefore (UInt32.ofInt (T t)) (s.waketime x) := by
    unfold SchedStatus.stops
    rw [hwake t List.mem_cons_self]
  cases r with
  | nil => exact absurd hend List.not_mem_nil
  | cons next rest =>
    have hnextle : ∀ x ∈ next :: rest, T next ≤ T x :=
      List.forall_mem_cons.mpr ⟨le_rfl, (List.pairwise_cons.mp hr.sorted).1⟩
    unfold SchedStatus.updateTimerList
    rw [hlist]
    simp only [not_true_eq_false, if_false]
    by_cases hb : timerIsBefore (s.waketime t) (s.waketime next) = true
    · -- it stays the first one
      simp only [hb, if_true]
      have hlt : T t < T next := by
        by_cases hns : next = .sentinel
        · rw [hns, hr.sentinel]
          omega
        · exact (hbefore next (List.mem_cons_of_mem t List.mem_cons_self) hns).mp hb
      refine ⟨s, rfl, rfl, by rw [hlist], ?_, hlast, hlast'⟩
      rw [hlist]
      refine ⟨List.nodup_cons.mpr ⟨ht, hr.nodup⟩,
        List.pairwise_cons.mpr ⟨fun x hx => hlt.le.trans (hnextle x hx), hr.sorted⟩,
        List.forall_mem_cons.mpr ⟨fun _ => hclose, hr.close⟩, hr.periodic, hr.sentinel⟩
    · have hns : next ≠ .sentinel := by
        rintro rfl
        refine hb ?_
        have hP : P ≤ T t := hper.resolve_right fun hp => by
          have hle := hnextle _ hp
          rw [hr.sentinel, hr.periodic] at hle
          omega
        rw [hwake t List.mem_cons_self, hwr _ List.mem_cons_self, hr.sentinel]
        exact (timerIsBefore_iff (by omega) (by omega)).mpr (by omega)
      have hnext : T next ≤ T t :=
        not_lt.mp fun hlt => hb ((hbefore next (List.mem_cons_of_mem t List.mem_cons_self) hns).mpr hlt)
      rw [if_neg hb]
      have hpos : ∀ pos ∈ next :: rest, T pos ≤ T t →
        ∃ l', insertFrom (s.stops (s.waketime t)) t pos (next :: rest) = some l' ∧
          Chain T P l' ∧ l'.Perm (t :: next :: rest) := by
        rw [hfun]
        exact fun pos hmem hle => hr.insertFrom hwr ht hsent hclose hend hper hmem hle
      have hdone : ∀ l' : List Timer, Chain T P l' → l'.Perm (t :: next :: rest) →
          ∃ s', some { s with timerList := l', lastInsert := t } = some s' ∧ s'.waketime = s.waketime ∧
            s'.timerList.Perm (t :: next :: rest) ∧ Chain T P s'.timerList ∧ s'.lastInsert ∈ t :: next :: rest ∧
            s'.lastInsert ≠ .sentinel :=
        fun l' hchain hperm => ⟨_, rfl, rfl, hperm, hchain, List.mem_cons_self, hsent⟩
      have hnt : next ≠ t := fun heq => ht (heq ▸ List.mem_cons_self)
      by_cases hh : timerIsBefore (s.waketime t) (s.waketime s.lastInsert) = true
      · obtain ⟨l', hinsert, hchain, hperm⟩ := hpos next List.mem_cons_self hnext
        rw [if_pos hh, if_neg hnt, hinsert]
        exact hdone l' hchain hperm
      · rw [if_neg hh]
        by_cases hself : s.lastInsert = t
        · -- its `next` is still the one of before
          have hl : ∀ x ∈ ([] : List Timer), T x ≤ T t := fun x hx => absurd hx List.not_mem_nil
          obtain ⟨r', hinsert, hchain, hperm⟩ := Chain.insert (l := []) hr hwr ht hsent hclose hl hend hper
          rw [if_pos hself, hfun, hinsert]
          exact hdone r' hchain hperm
        · have hmem := (List.mem_cons.mp hlast).resolve_left hself
          have hle : T s.lastInsert ≤ T t := not_lt.mp fun hlt => hh ((hbefore _ hlast hlast').mpr hlt)
          obtain ⟨l', hinsert, hchain, hperm⟩ := hpos s.lastInsert hmem hle
          rw [if_neg hself, hinsert]
          exact hdone l' hchain hperm

end Chains

/-! ## Runs -/

section Runs

variable {T : Timer → ℤ} {w w' : World} {n : ℕ} {time : ℤ} {ticks : UInt32} {dels : List ℕ} {res : Option ℤ} {t : Timer}
  {rest : List Timer}

/-- What is kept: `T` are the times of the timers in the list. -/
structure Inv (w : World) (T : Timer → ℤ) : Prop where
  chain : Chain T w.periodic w.s.timerList
  wake : ∀ x ∈ w.s.timerList, w.s.waketime x = UInt32.ofInt (T x)
  periodic : .periodic ∈ w.s.timerList
  sentinel : .sentinel ∈ w.s.timerList
  due : ∀ n a, w.due n = some a ↔ .user n ∈ w.s.timerList ∧ T (.user n) = a
  deleted : .deleted ∉ w.s.timerList.tail
  last : w.s.lastInsert ∈ w.s.timerList
  last_ne : w.s.lastInsert ≠ .sentinel

theorem inv_start : Inv World.start fun t => if t = .sentinel then 2 ^ 31 else 0 where
  chain := by
    refine ⟨by decide, ?_, fun x hx hne => ?_, rfl, rfl⟩
    · exact List.pairwise_cons.mpr ⟨fun y hy => by rw [List.mem_singleton.mp hy]; decide, List.pairwise_singleton _ _⟩
    · simp only [if_neg hne]
      decide
  wake := by
    intro x hx
    rcases List.mem_pair.mp hx with rfl | rfl <;> decide
  periodic := List.mem_cons_self
  sentinel := List.mem_cons_of_mem _ List.mem_cons_self
  due n a := by
    refine ⟨fun h => absurd h.symm (Option.some_ne_none a), fun h => ?_⟩
    rcases List.mem_pair.mp h.1 with hu | hu <;> cases hu
  deleted := by decide
  last := List.mem_cons_self
  last_ne := by decide

theorem Inv.ne_nil (h : Inv w T) : ∃ t rest, w.s.timerList = t :: rest :=
  List.exists_cons_of_ne_nil (List.ne_nil_of_mem h.periodic)

theorem Inv.first (h : Inv w T) (hlist : w.s.timerList = t :: rest) :
    t ≠ .sentinel ∧ (∀ x ∈ rest, T t ≤ T x) ∧ t ∉ rest ∧ T t ≤ w.periodic ∧ (t ≠ .periodic → .periodic ∈ rest) ∧
      .sentinel ∈ rest ∧ .deleted ∉ rest := by
  have hsorted := h.chain.sorted
  have hnodup := h.chain.nodup
  have hper := h.periodic
  have hsent := h.sentinel
  have hdel := h.deleted
  rw [hlist] at hsorted hnodup hper hsent hdel
  have hfirst := (List.pairwise_cons.mp hsorted).1
  have hle : T t ≤ w.periodic := by
    rcases List.mem_cons.mp hper with heq | hmem
    · rw [← heq, h.chain.periodic]
    · rw [← h.chain.periodic]
      exact hfirst _ hmem
  have hne : t ≠ .sentinel := by
    rintro rfl
    rw [h.chain.sentinel] at hle
    omega
  exact ⟨hne, hfirst, (List.nodup_cons.mp hnodup).1, hle, fun hp => (List.mem_cons.mp hper).resolve_left (Ne.symm hp),
    (List.mem_cons.mp hsent).resolve_left (Ne.symm hne), hdel⟩

/-- The timers that are scheduled, when one of them changes. -/
theorem Inv.due_update (h : Inv w T) {T' : Timer → ℤ} {L : List Timer} {r : Option ℤ}
    (hmem : ∀ m, m ≠ n → (.user m ∈ L ↔ .user m ∈ w.s.timerList)) (hT : ∀ m, m ≠ n → T' (.user m) = T (.user m))
    (hn : ∀ a, r = some a ↔ .user n ∈ L ∧ T' (.user n) = a) (m : ℕ) (a : ℤ) :
    Function.update w.due n r m = some a ↔ .user m ∈ L ∧ T' (.user m) = a := by
  by_cases hmn : m = n
  · rw [hmn, Function.update_self]
    exact hn a
  · rw [Function.update_of_ne hmn, hmem m hmn, hT m hmn]
    exact h.due m a

theorem without_deleted {tl : Timer} {L : List Timer} (hL : (if tl = .deleted then rest else tl :: rest) = L)
    (hdel : .deleted ∉ rest) :
    L.Sublist (tl :: rest) ∧ .deleted ∉ L ∧ ∀ x, x ≠ .deleted → (x ∈ L ↔ x ∈ tl :: rest) := by
  subst hL
  split_ifs with hd
  · refine ⟨List.sublist_cons_self _ _, hdel, fun x hx => ?_⟩
    rw [List.mem_cons, hd]
    exact (or_iff_right hx).symm
  · refine ⟨List.Sublist.refl _, fun hmem => ?_, fun _ _ => Iff.rfl⟩
    exact (List.mem_cons.mp hmem).elim (fun heq => hd heq.symm) hdel

theorem Inv.not_mem (h : Inv w T) (hnew : w.due n = none) : .user n ∉ w.s.timerList := fun hmem => by
  have := (h.due n _).mpr ⟨hmem, rfl⟩
  rw [hnew] at this
  cases this

/-- A timer is added in front of all others, behind the deleted timer. -/
theorem Inv.add_first (h : Inv w T) {tl : Timer} {L : List Timer} (hlist : w.s.timerList = tl :: rest)
    (hnew : w.due n = none)
    (hclose : w.Close time) (hlt : time < T tl) (hL : (if tl = .deleted then rest else tl :: rest) = L) :
    Inv ⟨⟨Function.update (Function.update w.s.waketime (.user n) (UInt32.ofInt time)) .deleted (UInt32.ofInt time),
      .deleted :: .user n :: L, w.s.lastInsert⟩, Function.update w.due n (some time), w.periodic⟩
      (Function.update (Function.update T (.user n) time) .deleted time) := by
  obtain ⟨hne, hfirst, htl, hle, hper, hsent, hdel⟩ := h.first hlist
  have hn := h.not_mem hnew
  have hchain := h.chain
  have hwake := h.wake
  have hlast := h.last
  have hperiodic := h.periodic
  rw [hlist] at hn hchain hwake hlast hperiodic
  obtain ⟨hsub, hdL, hmemL⟩ := without_deleted hL hdel
  have hkeptL : ∀ x ∈ L, x ≠ .user n ∧ x ≠ .deleted := fun x hx =>
    ⟨fun heq => hn (heq ▸ hsub.subset hx), fun heq => hdL (heq ▸ hx)⟩
  have hT : ∀ x ∈ L, Function.update (Function.update T (.user n) time) .deleted time x = T x := fun x hx => by
    rw [Function.update_of_ne (hkeptL x hx).2, Function.update_of_ne (hkeptL x hx).1]
  have hTn : Function.update (Function.update T (.user n) time) .deleted time (.user n) = time := by
    rw [Function.update_of_ne (by simp), Function.update_self]
  have hcL : Chain (Function.update (Function.update T (.user n) time) .deleted time) w.periodic L := by
    refine (hchain.sublist hsub).congr hT ?_ ?_
    · rw [Function.update_of_ne (by decide), Function.update_of_ne (by simp), hchain.periodic]
    · rw [Function.update_of_ne (by decide), Function.update_of_ne (by simp), hchain.sentinel]
  have hbelow : ∀ x ∈ L, time ≤ Function.update (Function.update T (.user n) time) .deleted time x := fun x hx => by
    rw [hT x hx]
    rcases List.mem_cons.mp (hsub.subset hx) with rfl | hxr
    · exact hlt.le
    · exact hlt.le.trans (hfirst x hxr)
  refine ⟨⟨?_, ?_, ?_, hcL.periodic, hcL.sentinel⟩, ?_, ?_, ?_, ?_, ?_, ?_, h.last_ne⟩
  · refine List.nodup_cons.mpr ⟨fun hmem => ?_, List.nodup_cons.mpr ⟨fun hmem => (hkeptL _ hmem).1 rfl, hcL.nodup⟩⟩
    rcases List.mem_cons.mp hmem with heq | hmem
    · cases heq
    · exact hdL hmem
  · refine List.pairwise_cons.mpr ⟨List.forall_mem_cons.mpr ⟨?_, fun x hx => ?_⟩, List.pairwise_cons.mpr
      ⟨fun x hx => ?_, hcL.sorted⟩⟩
    · rw [hTn, Function.update_self]
    · rw [Function.update_self]
      exact hbelow x hx
    · rw [hTn]
      exact hbelow x hx
  · refine List.forall_mem_cons.mpr ⟨fun _ => ?_, List.forall_mem_cons.mpr ⟨fun _ => ?_, hcL.close⟩⟩
    · rw [Function.update_self]
      exact hclose
    · rw [hTn]
      exact hclose
  · show ∀ x ∈ Timer.deleted :: .user n :: L, Function.update (Function.update w.s.waketime (.user n)
      (UInt32.ofInt time)) .deleted (UInt32.ofInt time) x = _
    refine List.forall_mem_cons.mpr ⟨?_, List.forall_mem_cons.mpr ⟨?_, fun x hx => ?_⟩⟩
    · rw [Function.update_self, Function.update_self]
    · rw [hTn, Function.update_of_ne (by simp), Function.update_self]
    · rw [hT x hx, Function.update_of_ne (hkeptL x hx).2, Function.update_of_ne (hkeptL x hx).1]
      exact hwake x (hsub.subset hx)
  · exact List.mem_cons_of_mem _ (List.mem_cons_of_mem _ ((hmemL _ (by decide)).mpr hperiodic))
  · exact List.mem_cons_of_mem _ (List.mem_cons_of_mem _ ((hmemL _ (by decide)).mpr (List.mem_cons_of_mem tl hsent)))
  · refine h.due_update (fun m hm => ?_) (fun m hm => ?_) fun a => ?_
    · rw [hlist, ← hmemL _ (by simp)]
      simp [hm]
    · rw [Function.update_of_ne (by simp), Function.update_of_ne (by simpa using hm)]
    · rw [hTn]
      simp
  · exact fun hmem => (List.mem_cons.mp hmem).elim (fun heq => by cases heq) hdL
  · by_cases hd : w.s.lastInsert = .deleted
    · exact hd ▸ List.mem_cons_self
    · exact List.mem_cons_of_mem _ (List.mem_cons_of_mem _ ((hmemL _ hd).mpr hlast))

theorem Inv.add_behind (h : Inv w T) {tl : Timer} (hlist : w.s.timerList = tl :: rest) (hnew : w.due n = none)
    (hclose : w.Close time) (hge : T tl ≤ time) :
    ∃ l, insertFrom (fun x => timerIsBefore (UInt32.ofInt time)
      (Function.update w.s.waketime (.user n) (UInt32.ofInt time) x))
        (.user n) tl (tl :: rest) = some l ∧
      Inv ⟨⟨Function.update w.s.waketime (.user n) (UInt32.ofInt time), l, w.s.lastInsert⟩,
        Function.update w.due n (some time),
        w.periodic⟩ (Function.update T (.user n) time) := by
  obtain ⟨hne, hfirst, htl, hle, hper, hsent, hdel⟩ := h.first hlist
  have hn := h.not_mem hnew
  have hchain := h.chain
  have hwake := h.wake
  have hlast := h.last
  have hperiodic := h.periodic
  rw [hlist] at hn hchain hwake hlast hperiodic
  have hkept : ∀ x ∈ tl :: rest, x ≠ .user n := fun x hx heq => hn (heq ▸ hx)
  have hT : ∀ x ∈ tl :: rest, Function.update T (.user n) time x = T x := fun x hx =>
    Function.update_of_ne (hkept x hx) _ _
  have hchain' : Chain (Function.update T (.user n) time) w.periodic (tl :: rest) :=
    hchain.congr hT ((Function.update_of_ne (by simp) _ _).trans hchain.periodic)
      ((Function.update_of_ne (by simp) _ _).trans hchain.sentinel)
  have hwake' : ∀ x ∈ tl :: rest, Function.update w.s.waketime (.user n) (UInt32.ofInt time) x =
      UInt32.ofInt (Function.update T (.user n) time x) := fun x hx => by
    rw [hT x hx]
    exact (Function.update_of_ne (hkept x hx) _ _).trans (hwake x hx)
  obtain ⟨l, hinsert, hnew', hperm⟩ := hchain'.insertFrom hwake' hn (by simp)
    (by rw [Function.update_self]; exact hclose)
    (List.mem_cons_of_mem _ hsent) (Or.inr hperiodic) List.mem_cons_self (by
      rw [hT tl List.mem_cons_self, Function.update_self]
      exact hge)
  rw [Function.update_self] at hinsert
  have hmem : ∀ x, x ∈ l ↔ x = .user n ∨ x ∈ tl :: rest := fun x => hperm.mem_iff.trans List.mem_cons
  refine ⟨l, hinsert, hnew', fun x hx => ?_, (hmem _).mpr (Or.inr hperiodic),
    (hmem _).mpr (Or.inr (List.mem_cons_of_mem tl hsent)), ?_, fun hd => ?_, (hmem _).mpr (Or.inr hlast), h.last_ne⟩
  · rcases (hmem x).mp hx with rfl | hold
    · exact (Function.update_self _ _ _).trans (by rw [Function.update_self])
    · rw [hT x hold]
      exact (Function.update_of_ne (hkept x hold) _ _).trans (hwake x hold)
  · refine h.due_update (fun m hm => ?_) (fun m hm => Function.update_of_ne (by simpa using hm) _ _) fun a => ?_
    · rw [hlist]
      refine (hmem _).trans (or_iff_right ?_)
      simpa using hm
    · rw [Function.update_self, hmem]
      simp
  · have hhead := hinsert
    rw [insertFrom, if_pos rfl] at hhead
    obtain ⟨r', -, rfl⟩ := Option.map_eq_some_iff.mp hhead
    rcases (hmem _).mp (List.mem_cons_of_mem tl hd) with heq | hold
    · cases heq
    · rcases List.mem_cons.mp hold with heq | hold
      · exact (List.nodup_cons.mp hnew'.nodup).1 (heq ▸ hd)
      · exact hdel hold

/-- **A timer is added.** -/
theorem Inv.add (h : Inv w T) (now : UInt32) (hnew : w.due n = none) (hclose : w.Close time) :
    (timerIsBefore (UInt32.ofInt time) now = true ∧ w.add now n time = none) ∨ ∃ w' T', w.add now n time = some w' ∧
      Inv w' T' := by
  obtain ⟨tl, rest, hlist⟩ := h.ne_nil
  have hne := (h.first hlist).1
  have hmem : tl ∈ w.s.timerList := hlist ▸ List.mem_cons_self
  have hntl : tl ≠ .user n := fun heq => h.not_mem hnew (heq ▸ hmem)
  have hctl := h.chain.close tl hmem hne
  have hbefore := timerIsBefore_iff (a := time) (b := T tl) (by have := hclose.1; omega) (by have := hclose.2; omega)
  unfold World.add SchedStatus.addTimer SchedStatus.setWake
  simp only [hlist, Function.update_self, Function.update_of_ne hntl, h.wake tl hmem]
  by_cases hb : timerIsBefore (UInt32.ofInt time) (UInt32.ofInt (T tl)) = true
  · rw [if_pos hb]
    by_cases hnow : timerIsBefore (UInt32.ofInt time) now = true
    · exact Or.inl ⟨hnow, by rw [if_pos hnow]; rfl⟩
    · rw [if_neg hnow]
      exact Or.inr ⟨_, _, rfl, h.add_first hlist hnew hclose (hbefore.mp hb) rfl⟩
  · rw [if_neg hb]
    obtain ⟨l, hinsert, hinv⟩ := h.add_behind hlist hnew hclose (not_lt.mp fun hlt => hb (hbefore.mpr hlt))
    exact Or.inr ⟨_, _, congrArg (fun l => Option.map _ (Option.map _ l)) hinsert, hinv⟩

/-- **A timer is deleted**, whether it is scheduled or not. -/
theorem Inv.del (h : Inv w T) (n : ℕ) : ∃ T', Inv (w.del n) T' := by
  obtain ⟨tl, rest, hlist⟩ := h.ne_nil
  obtain ⟨hne, hfirst, htl, hle, hper, hsent, hdel⟩ := h.first hlist
  have hchain := h.chain
  have hwake := h.wake
  have hlast := h.last
  rw [hlist] at hchain hwake hlast
  -- what `last_insert` is besides
  have hfinish : ∀ (wake : Timer → UInt32) (L : List Timer) (T' : Timer → ℤ), .periodic ∈ L →
      (w.s.lastInsert ≠ .user n → w.s.lastInsert ∈ L) →
      (∀ li ∈ L, li ≠ .sentinel → Inv ⟨⟨wake, L, li⟩, Function.update w.due n none, w.periodic⟩ T') →
      ∃ T', Inv ⟨if w.s.lastInsert = .user n then ⟨wake, L, .periodic⟩ else ⟨wake, L, w.s.lastInsert⟩,
        Function.update w.due n none, w.periodic⟩ T' := by
    intro wake L T' hper' hkeep hinv
    refine ⟨T', ?_⟩
    split_ifs with hl
    · exact hinv .periodic hper' (by decide)
    · exact hinv w.s.lastInsert (hkeep hl) h.last_ne
  unfold World.del SchedStatus.delTimer
  simp only [hlist]
  by_cases htn : tl = .user n
  · -- `deleted_timer` takes its place
    subst htn
    simp only [if_true, SchedStatus.setWake]
    have hkept : ∀ x ∈ rest, x ≠ .deleted := fun x hx heq => hdel (heq ▸ hx)
    have hT : ∀ x ∈ rest, Function.update T .deleted (T (.user n)) x = T x := fun x hx =>
      Function.update_of_ne (hkept x hx) _ _
    have hc := hchain.tail.congr hT ((Function.update_of_ne (by decide) _ _).trans hchain.periodic)
      ((Function.update_of_ne (by decide) _ _).trans hchain.sentinel)
    refine hfinish _ _ (Function.update T .deleted (T (.user n))) (List.mem_cons_of_mem _ (hper (by simp)))
      (fun hl => List.mem_cons_of_mem _ ((List.mem_cons.mp hlast).resolve_left hl)) fun li hli hlis => ?_
    refine ⟨⟨List.nodup_cons.mpr ⟨hdel, hc.nodup⟩, List.pairwise_cons.mpr ⟨fun x hx => ?_, hc.sorted⟩,
      List.forall_mem_cons.mpr ⟨fun _ => ?_, hc.close⟩, hc.periodic, hc.sentinel⟩,
      List.forall_mem_cons.mpr ⟨?_, fun x hx => ?_⟩, List.mem_cons_of_mem _ (hper (by simp)),
        List.mem_cons_of_mem _ hsent,
      h.due_update (fun m hm => ?_) (fun m hm => Function.update_of_ne (by simp) _ _) fun a => ?_, hdel, hli, hlis⟩
    · rw [Function.update_self, hT x hx]
      exact hfirst x hx
    · rw [Function.update_self]
      exact hchain.close _ List.mem_cons_self hne
    · show Function.update w.s.waketime .deleted (w.s.waketime (.user n)) .deleted = _
      rw [Function.update_self, Function.update_self]
      exact hwake _ List.mem_cons_self
    · rw [hT x hx]
      exact (Function.update_of_ne (hkept x hx) _ _).trans (hwake x (List.mem_cons_of_mem _ hx))
    · rw [hlist]
      simp [hm]
    · simp [htl]
  · simp only [if_neg htn]
    have hsub : (tl :: rest.erase (.user n)).Sublist (tl :: rest) := (List.erase_sublist).cons_cons tl
    have hmem : ∀ x, x ≠ .user n → (x ∈ tl :: rest.erase (.user n) ↔ x ∈ tl :: rest) := fun x hx => by
      rw [List.mem_cons, List.mem_cons, List.mem_erase_of_ne hx]
    have hgone : .user n ∉ tl :: rest.erase (.user n) := fun hu => by
      rcases List.mem_cons.mp hu with heq | hu
      · exact htn heq.symm
      · exact (hchain.nodup.of_cons).not_mem_erase hu
    refine hfinish _ _ T ((hmem _ (by simp)).mpr (hlist ▸ h.periodic)) (fun hl => (hmem _ hl).mpr hlast)
      fun li hli hlis => ?_
    refine ⟨hchain.sublist hsub, fun x hx => hwake x (hsub.subset hx), (hmem _ (by simp)).mpr (hlist ▸ h.periodic),
      (hmem _ (by simp)).mpr (List.mem_cons_of_mem tl hsent), h.due_update (fun m hm => ?_) (fun _ _ => rfl)
        fun a => ?_,
      fun hd => hdel (List.mem_of_mem_erase hd), hli, hlis⟩
    · rw [hlist]
      exact hmem _ (by simpa using hm)
    · simp [hgone]

theorem inv_reschedule {s : SchedStatus} {due : ℕ → Option ℤ} {P : ℤ} (hlist : s.timerList = t :: rest)
    (hrest : Chain T P rest)
    (hwake : ∀ x ∈ t :: rest, s.waketime x = UInt32.ofInt (T x)) (ht : t ∉ rest) (hne : t ≠ .sentinel)
    (hclose : P - 2 ^ 30 ≤ T t ∧ T t < P + 2 ^ 30) (hsent : .sentinel ∈ rest) (hper : .periodic ∈ t :: rest)
    (hdel : .deleted ∉ t :: rest) (hlast : s.lastInsert ∈ t :: rest) (hlast' : s.lastInsert ≠ .sentinel)
    (hdue : ∀ m a, due m = some a ↔ .user m ∈ t :: rest ∧ T (.user m) = a) :
    ∃ s', s.updateTimerList true = some s' ∧ Inv ⟨s', due, P⟩ T := by
  have hP : P ≤ T t ∨ .periodic ∈ rest := by
    rcases List.mem_cons.mp hper with heq | hmem
    · rw [← heq, hrest.periodic]
      exact Or.inl le_rfl
    · exact Or.inr hmem
  obtain ⟨s', hrun, hsame, hperm, hchain, hl, hl'⟩ :=
    reschedule_spec hlist hrest hwake ht hne hclose hsent hP hlast hlast'
  refine ⟨s', hrun, hchain, fun x hx => ?_, hperm.mem_iff.mpr hper, hperm.mem_iff.mpr (List.mem_cons_of_mem t hsent),
    fun m a => ?_, fun hd => hdel (hperm.mem_iff.mp (List.mem_of_mem_tail hd)), hperm.mem_iff.mpr hl, hl'⟩
  · show s'.waketime x = _
    rw [hsame]
    exact hwake x (hperm.mem_iff.mp hx)
  · rw [hdue]
    exact and_congr_left fun _ => hperm.mem_iff.symm

theorem Inv.done (h : Inv w T) (hlist : w.s.timerList = t :: rest) (hp : t ≠ .periodic) (due : ℕ → Option ℤ)
    (hdue : ∀ m a, due m = some a ↔ .user m ∈ rest ∧ T (.user m) = a) :
    ∃ s', w.s.updateTimerList false = some s' ∧ Inv ⟨s', due, w.periodic⟩ T := by
  obtain ⟨hne, hfirst, htl, hle, hper, hsent, hdel⟩ := h.first hlist
  have hchain := h.chain
  have hwake := h.wake
  have hlast := h.last
  rw [hlist] at hchain hwake hlast
  cases rest with
  | nil => exact absurd hsent List.not_mem_nil
  | cons next rest =>
    have hns : next ≠ .sentinel := by
      rintro rfl
      rcases List.mem_cons.mp (hper hp) with heq | hmem
      · cases heq
      · have hle' := (List.pairwise_cons.mp hchain.sorted.of_cons).1 _ hmem
        rw [hchain.sentinel, hchain.periodic] at hle'
        omega
    unfold SchedStatus.updateTimerList
    rw [hlist]
    refine ⟨_, rfl, hchain.tail, fun x hx => hwake x (List.mem_cons_of_mem t hx), hper hp, hsent, hdue,
      fun hd => hdel (List.mem_of_mem_tail hd), ?_, ?_⟩
    · show ite _ _ _ ∈ _
      split_ifs with hl
      · exact List.mem_cons_self
      · exact (List.mem_cons.mp hlast).resolve_left hl
    · show ite _ _ _ ≠ _
      split_ifs
      · exact hns
      · exact h.last_ne

/-- The first timer is called and asks for another time. -/
theorem Inv.again (h : Inv w T) (hlist : w.s.timerList = .user n :: rest) (hclose : w.Close time) :
    ∃ s' T', (w.s.setWake (.user n) (UInt32.ofInt time)).updateTimerList true = some s' ∧
      Inv ⟨s', Function.update w.due n (some time), w.periodic⟩ T' := by
  obtain ⟨hne, hfirst, htl, hle, hper, hsent, hdel⟩ := h.first hlist
  have hchain := h.chain
  have hwake := h.wake
  have hlast := h.last
  rw [hlist] at hchain hwake hlast
  have hkept : ∀ x ∈ rest, x ≠ .user n := fun x hx heq => htl (heq ▸ hx)
  have hT : ∀ x ∈ rest, Function.update T (.user n) time x = T x := fun x hx => Function.update_of_ne (hkept x hx) _ _
  have hc := hchain.tail.congr hT ((Function.update_of_ne (by simp) _ _).trans hchain.periodic)
    ((Function.update_of_ne (by simp) _ _).trans hchain.sentinel)
  have hwake' : ∀ x ∈ Timer.user n :: rest, (w.s.setWake (.user n) (UInt32.ofInt time)).waketime x =
      UInt32.ofInt (Function.update T (.user n) time x) := by
    rw [SchedStatus.setWake_waketime]
    refine List.forall_mem_cons.mpr ⟨?_, fun x hx => ?_⟩
    · rw [Function.update_self, Function.update_self]
    · rw [hT x hx]
      exact (Function.update_of_ne (hkept x hx) _ _).trans (hwake x (List.mem_cons_of_mem _ hx))
  have hdel' : Timer.deleted ∉ Timer.user n :: rest := fun hd =>
    (List.mem_cons.mp hd).elim (fun heq => by cases heq) hdel
  have hdue : ∀ m a, Function.update w.due n (some time) m = some a ↔
      .user m ∈ Timer.user n :: rest ∧ Function.update T (.user n) time (.user m) = a :=
    h.due_update (fun m _ => by rw [hlist]) (fun m hm => Function.update_of_ne (by simpa using hm) _ _) fun a => by
      rw [Function.update_self]
      simp
  obtain ⟨s', hrun, hinv⟩ := inv_reschedule (s := w.s.setWake (.user n) (UInt32.ofInt time)) hlist hc hwake' htl hne
    (by rw [Function.update_self]; exact hclose) hsent (List.mem_cons_of_mem _
      (hper (by simp))) hdel' hlast h.last_ne hdue
  exact ⟨s', _, hrun, hinv⟩

/-- The periodic timer is called: the window moves on. -/
theorem Inv.tick (h : Inv w T) (hlist : w.s.timerList = .periodic :: rest) (hticks : ticks.toNat ≤ 2 ^ 30) :
    ∃ s' T', (w.s.periodicEvent ticks).updateTimerList true = some s' ∧
      Inv ⟨s', w.due, w.periodic + ticks.toNat⟩ T' := by
  obtain ⟨hne, hfirst, htl, hle, hper, hsent, hdel⟩ := h.first hlist
  have hchain := h.chain
  have hwake := h.wake
  have hlast := h.last
  rw [hlist] at hchain hwake hlast
  have hP := hchain.periodic
  have hpos : (0 : ℤ) ≤ ticks.toNat := Int.natCast_nonneg _
  have hsmall : (ticks.toNat : ℤ) ≤ 2 ^ 30 := by exact_mod_cast hticks
  let T' := Function.update (Function.update T .periodic (w.periodic + ticks.toNat)) .sentinel 
    (w.periodic + ticks.toNat + 2 ^ 31)
  have hTs : T' .sentinel = w.periodic + ticks.toNat + 2 ^ 31 := Function.update_self _ _ _
  have hTp : T' .periodic = w.periodic + ticks.toNat := (Function.update_of_ne (by decide) _ _).trans
    (Function.update_self _ _ _)
  have hkept : ∀ x ∈ rest, x ≠ .periodic := fun x hx heq => htl (heq ▸ hx)
  have hT : ∀ x ∈ rest, x ≠ .sentinel → T' x = T x := fun x hx hxs =>
    (Function.update_of_ne hxs _ _).trans (Function.update_of_ne (hkept x hx) _ _)
  -- no timer is behind the periodic one any more, and only the sentinel has moved
  have hwindow : ∀ x ∈ rest, x ≠ .sentinel → w.periodic ≤ T' x ∧ T' x < w.periodic + 2 ^ 30 := fun x hx hxs => by
    rw [hT x hx hxs]
    exact ⟨hP ▸ hfirst x hx, (hchain.close x (List.mem_cons_of_mem _ hx) hxs).2⟩
  have hbelow : ∀ x ∈ rest, T' x ≤ T' .sentinel := fun x hx => by
    by_cases hxs : x = .sentinel
    · rw [hxs]
    · have := (hwindow x hx hxs).2
      rw [hTs]
      omega
  have hsorted : rest.Pairwise fun x y => T' x ≤ T' y := by
    refine hchain.sorted.of_cons.imp_of_mem fun {x y} hx hy hxy => ?_
    by_cases hys : y = .sentinel
    · rw [hys]
      exact hbelow x hx
    · have hxs : x ≠ .sentinel := by
        rintro rfl
        have := (hchain.close y (List.mem_cons_of_mem _ hy) hys).2
        rw [hchain.sentinel] at hxy
        omega
      rw [hT x hx hxs, hT y hy hys]
      exact hxy
  have hc : Chain T' (w.periodic + ticks.toNat) rest := by
    refine ⟨hchain.nodup.of_cons, hsorted, fun x hx hxs => ?_, hTp, hTs⟩
    have := hwindow x hx hxs
    omega
  have hwake' : ∀ x ∈ Timer.periodic :: rest, (w.s.periodicEvent ticks).waketime x = UInt32.ofInt (T' x) := by
    have hwp : w.s.waketime .periodic + ticks = UInt32.ofInt (w.periodic + ticks.toNat) := by
      rw [hwake _ List.mem_cons_self, hP, UInt32.ofInt_add, StepCompress.ofInt_natCast, UInt32.ofNat_toNat]
    rw [SchedStatus.periodicEvent_waketime]
    refine List.forall_mem_cons.mpr ⟨?_, fun x hx => ?_⟩
    · rw [hTp, Function.update_of_ne (by decide), Function.update_self, hwp]
    · by_cases hxs : x = .sentinel
      · rw [hxs, hTs, Function.update_self, hwp, UInt32.ofInt_add (w.periodic + ticks.toNat)]
        rfl
      · rw [hT x hx hxs, Function.update_of_ne hxs, Function.update_of_ne (hkept x hx)]
        exact hwake x (List.mem_cons_of_mem _ hx)
  have hdel' : Timer.deleted ∉ Timer.periodic :: rest := fun hd =>
    (List.mem_cons.mp hd).elim (fun heq => by cases heq) hdel
  have hdue : ∀ m a, w.due m = some a ↔ .user m ∈ Timer.periodic :: rest ∧ T' (.user m) = a := fun m a => by
    rw [h.due m a, hlist]
    refine and_congr_right fun _ => ?_
    rw [show T' (.user m) = T (.user m) from (Function.update_of_ne (by simp) _ _).trans
      (Function.update_of_ne (by simp) _ _)]
  obtain ⟨s', hrun, hinv⟩ := inv_reschedule (s := w.s.periodicEvent ticks) hlist hc hwake' htl hne
    (by rw [hTp]; omega) hsent List.mem_cons_self hdel' hlast h.last_ne hdue
  exact ⟨s', T', hrun, hinv⟩

/-! ### A function that deletes timers -/

theorem delTimer_head {s : SchedStatus} (hlist : s.timerList = .user n :: rest) {m : ℕ} (hm : m ≠ n) :
    ∃ rest', (s.delTimer (.user m)).timerList = .user n :: rest' := by
  have hne : Timer.user n ≠ .user m := fun heq => hm (Timer.user.inj heq).symm
  unfold SchedStatus.delTimer
  rw [hlist]
  simp only [if_neg hne]
  split_ifs <;> exact ⟨_, rfl⟩

theorem foldl_worldDel (w : World) : dels.foldl World.del w =
    ⟨dels.foldl (fun s m => s.delTimer (.user m)) w.s, dels.foldl (fun due m => Function.update due m none) w.due,
      w.periodic⟩ := by
  induction dels generalizing w with
  | nil => rfl
  | cons m dels ih => exact ih (w.del m)

theorem Inv.foldl_del (h : Inv w T) (hlist : w.s.timerList = .user n :: rest) (hdels : ∀ m ∈ dels, m ≠ n) :
    ∃ T' rest', Inv (dels.foldl World.del w) T' ∧ (dels.foldl World.del w).s.timerList = .user n :: rest' := by
  induction dels generalizing w T rest with
  | nil => exact ⟨T, rest, h, hlist⟩
  | cons m dels ih =>
    obtain ⟨hm, hdels⟩ := List.forall_mem_cons.mp hdels
    obtain ⟨T', hT'⟩ := h.del m
    obtain ⟨rest', hlist'⟩ := delTimer_head hlist hm
    exact ih hT' hlist' hdels

/-- Behind a shutdown there are only the timers of this module. -/
theorem Inv.reset (h : Inv w T) : Inv w.reset (Function.update T .deleted w.periodic) := by
  have hP := h.chain.periodic
  have hS := h.chain.sentinel
  have hTd : Function.update T .deleted w.periodic .deleted = w.periodic := Function.update_self _ _ _
  have hTp : Function.update T .deleted w.periodic .periodic =
    w.periodic := (Function.update_of_ne (by decide) _ _).trans hP
  have hTs : Function.update T .deleted w.periodic .sentinel = w.periodic + 2 ^ 31 :=
    (Function.update_of_ne (by decide) _ _).trans hS
  have hall : ∀ x ∈ w.reset.s.timerList, x = .deleted ∨ x = .periodic ∨ x = .sentinel := fun x hx => by
    simpa [World.reset, SchedStatus.timerReset] using hx
  have hnodup : [Timer.deleted, .periodic, .sentinel].Nodup := by decide
  have hdel : Timer.deleted ∉ [Timer.periodic, .sentinel] := by decide
  have hlast : Timer.periodic ≠ .sentinel := by decide
  refine ⟨⟨hnodup, ?_, fun x hx hxs => ?_, hTp, hTs⟩, fun x hx => ?_, List.mem_cons_of_mem _ List.mem_cons_self,
    List.mem_cons_of_mem _ (List.mem_cons_of_mem _ List.mem_cons_self), fun n a => ?_, hdel,
    List.mem_cons_of_mem _ List.mem_cons_self, hlast⟩
  · show List.Pairwise _ [Timer.deleted, .periodic, .sentinel]
    simp only [List.pairwise_cons, List.forall_mem_cons, hTd, hTp, hTs]
    simp
  · show w.periodic - 2 ^ 30 ≤ _ ∧ _ < w.periodic + 2 ^ 30
    rcases hall x hx with rfl | rfl | rfl
    · rw [hTd]
      omega
    · rw [hTp]
      omega
    · exact absurd rfl hxs
  · show Function.update w.s.waketime .deleted (w.s.waketime .periodic) x = _
    rcases hall x hx with rfl | rfl | rfl
    · rw [Function.update_self, hTd, ← hP]
      exact h.wake _ h.periodic
    · rw [Function.update_of_ne (by decide), hTp, ← hP]
      exact h.wake _ h.periodic
    · rw [Function.update_of_ne (by decide), hTs, ← hS]
      exact h.wake _ h.sentinel
  · refine ⟨fun hd => absurd hd.symm (Option.some_ne_none a), fun hu => ?_⟩
    rcases hall _ hu.1 with heq | heq | heq <;> cases heq

/-- The time that is returned is that of the timer that is then the first one. -/
theorem finish_spec {s s' : SchedStatus} {reschedule : Bool} (h : s.updateTimerList reschedule = some s') :
    ∃ waketime, s.finish reschedule = some (s', waketime) ∧ s'.timerList.head?.map s'.waketime = some waketime := by
  unfold SchedStatus.finish
  rw [h, Option.bind_some]
  unfold SchedStatus.updateTimerList at h
  unfold SchedStatus.nextWaketime
  match hlist : s.timerList with
  | [] | [_] => rw [hlist] at h; cases h
  | t :: next :: rest =>
    rw [hlist] at h
    cases reschedule with
    | false =>
      obtain rfl := Option.some.inj h
      exact ⟨_, rfl, rfl⟩
    | true =>
      simp only [not_true_eq_false, if_false] at h ⊢
      by_cases hb : timerIsBefore (s.waketime t) (s.waketime next) = true
      · rw [if_pos hb] at h ⊢
        cases h
        exact ⟨_, rfl, by rw [hlist]; rfl⟩
      · rw [if_neg hb] at h ⊢
        obtain ⟨l, hl, rfl⟩ := Option.map_eq_some_iff.mp h
        refine ⟨_, rfl, ?_⟩
        -- the walk goes past `next`
        have hhead : l.head? = some next := by
          generalize (if timerIsBefore (s.waketime t) (s.waketime s.lastInsert) =
            true then next else s.lastInsert) = pos at hl
          by_cases hpos : pos = t
          · rw [if_pos hpos, insertBefore, if_neg (show ¬ s.stops (s.waketime t) next = true from hb)] at hl
            obtain ⟨l', -, rfl⟩ := Option.map_eq_some_iff.mp hl
            rfl
          · rw [if_neg hpos, insertFrom] at hl
            split_ifs at hl <;> (obtain ⟨l', -, rfl⟩ := Option.map_eq_some_iff.mp hl; rfl)
        show l.head?.map s.waketime = _
        rw [hhead]
        rfl

/-- **The first timer is called.** -/
theorem Inv.dispatch (h : Inv w T) (hticks : ticks.toNat ≤ 2 ^ 30)
    (hdels : ∀ m ∈ dels, w.s.timerList.head? ≠ some (.user m))
    (hclose : ∀ time ∈ res, w.Close time) : ∃ w' waketime T', w.dispatch ticks dels res = some (w', waketime) ∧
    Inv w' T' ∧
      w'.s.timerList.head?.map w'.s.waketime = some waketime := by
  obtain ⟨t, rest, hlist⟩ := h.ne_nil
  obtain ⟨hne, -, htl, -⟩ := h.first hlist
  unfold World.dispatch SchedStatus.dispatch
  rw [hlist]
  cases t with
  | periodic =>
    obtain ⟨s', T', hrun, hinv⟩ := h.tick hlist hticks
    obtain ⟨waketime, hfinish, hnext⟩ := finish_spec hrun
    exact ⟨_, waketime, T', congrArg (Option.map _) hfinish, hinv, hnext⟩
  | sentinel => exact absurd rfl hne
  | deleted =>
    obtain ⟨s', hrun, hinv⟩ := h.done hlist (by decide) w.due fun m a => by
      rw [h.due m a, hlist, List.mem_cons, or_iff_right (by simp)]
    obtain ⟨waketime, hfinish, hnext⟩ := finish_spec hrun
    exact ⟨_, waketime, T, congrArg (Option.map _) hfinish, hinv, hnext⟩
  | user n =>
    have hdels' : ∀ m ∈ dels, m ≠ n := fun m hm heq => hdels m hm (by rw [hlist, heq]; rfl)
    obtain ⟨T₁, rest₁, h₁, hlist₁⟩ := h.foldl_del hlist hdels'
    have hclose₁ : ∀ time ∈ res, (dels.foldl World.del w).Close time := fun time htime => by
      rw [foldl_worldDel]
      exact hclose time htime
    have htl₁ := (h₁.first hlist₁).2.2.1
    rw [foldl_worldDel] at h₁ hlist₁ hclose₁
    cases res with
    | none =>
      obtain ⟨s', hrun, hinv⟩ := h₁.done hlist₁ (by simp)
        (Function.update (dels.foldl (fun due m => Function.update due m none) w.due) n none) <|
          h₁.due_update (fun m hm => by rw [hlist₁]; simp [hm]) (fun _ _ => rfl) fun a => by simp [htl₁]
      obtain ⟨waketime, hfinish, hnext⟩ := finish_spec hrun
      exact ⟨_, waketime, T₁, congrArg (Option.map _) hfinish, hinv, hnext⟩
    | some time =>
      obtain ⟨s', T', hrun, hinv⟩ := h₁.again hlist₁ (hclose₁ time rfl)
      obtain ⟨waketime, hfinish, hnext⟩ := finish_spec hrun
      exact ⟨_, waketime, T', congrArg (Option.map _) hfinish, hinv, hnext⟩

theorem SchedStep.inv (hticks : ticks.toNat ≤ 2 ^ 30) {e : Event} (h : Inv w T) (hstep : SchedStep ticks w e w') :
    ∃ T', Inv w' T' := by
  cases hstep with
  | add hnew hclose hadd =>
    rcases h.add _ hnew hclose with ⟨-, hw₁⟩ | ⟨w₁, T', hw₁, hinv⟩
    · rw [hadd] at hw₁
      cases hw₁
    · rw [hadd] at hw₁
      cases hw₁
      exact ⟨T', hinv⟩
  | del => exact h.del _
  | reset => exact ⟨_, h.reset⟩
  | dispatch hdels hclose hdispatch =>
    obtain ⟨w₁, waketime, T', hw₁, hinv, -⟩ := h.dispatch hticks hdels hclose
    rw [hdispatch] at hw₁
    cases hw₁
    exact ⟨T', hinv⟩

theorem Inv.time_eq (h : Inv w T) {a : ℤ} (ha : w.time t = some a) : T t = a := by
  cases t with
  | periodic => exact h.chain.periodic.trans (Option.some.inj ha)
  | sentinel => exact h.chain.sentinel.trans (Option.some.inj ha)
  | deleted => cases ha
  | user n => exact ((h.due n a).mp ha).2

/-- **The timers are called in order.**  After every run of events the list holds the timers that are scheduled, each
of them once, the periodic timer and the sentinel, in the order of their times, and each has its time in its 32 bits.
The sentinel is never the first one, and there is always a place for a timer. -/
theorem timers_in_order (hticks : ticks.toNat ≤ 2 ^ 30) {es : List Event} (h : Run (SchedStep ticks) World.start es w) :
    w.s.timerList.Nodup ∧ (∀ n, .user n ∈ w.s.timerList ↔ (w.due n).isSome = true) ∧ .periodic ∈ w.s.timerList ∧
      .sentinel ∈ w.s.timerList ∧
      w.s.timerList.Pairwise (fun t u => ∀ a ∈ w.time t, ∀ b ∈ w.time u, a ≤ b) ∧
      (∀ t ∈ w.s.timerList, ∀ a ∈ w.time t, w.s.waketime t = UInt32.ofInt a) ∧
      w.s.timerList.head? ≠ some .sentinel ∧
      (∀ now n time, w.due n = none → w.Close time → timerIsBefore (UInt32.ofInt time) now = false →
        ∃ w', w.add now n time = some w') ∧
      ∀ dels res, (∀ m ∈ dels, w.s.timerList.head? ≠ some (.user m)) → (∀ time ∈ res, w.Close time) →
        ∃ w' waketime, w.dispatch ticks dels res = some (w', waketime) ∧
          w'.s.timerList.head?.map w'.s.waketime = some waketime := by
  obtain ⟨T, hinv⟩ := h.invariant (I := fun w => ∃ T, Inv w T) ⟨_, inv_start⟩
    fun _ _ _ ⟨_, hw⟩ hstep => hstep.inv hticks hw
  obtain ⟨t, rest, hlist⟩ := hinv.ne_nil
  refine ⟨hinv.chain.nodup, fun n => ?_, hinv.periodic, hinv.sentinel,
    hinv.chain.sorted.imp fun {x y} hxy a ha b hb => ?_, fun x hx a ha => ?_,
    ?_, fun now n time hnew hclose hnow => ?_, fun dels res hdels hclose => ?_⟩
  · rw [Option.isSome_iff_exists]
    exact ⟨fun hn => ⟨_, (hinv.due n _).mpr ⟨hn, rfl⟩⟩, fun ⟨a, ha⟩ => ((hinv.due n a).mp ha).1⟩
  · rw [← hinv.time_eq ha, ← hinv.time_eq hb]
    exact hxy
  · rw [← hinv.time_eq ha]
    exact hinv.wake x hx
  · rw [hlist]
    exact fun heq => (hinv.first hlist).1 (Option.some.inj heq)
  · rcases hinv.add now hnew hclose with ⟨hbefore, -⟩ | ⟨w', T', hw', -⟩
    · rw [hnow] at hbefore
      cases hbefore
    · exact ⟨w', hw'⟩
  · obtain ⟨w', waketime, T', hw', -, hnext⟩ := hinv.dispatch hticks hdels hclose
    exact ⟨w', waketime, hw', hnext⟩

theorem timers_in_order_concreteCase :
    ∃ w, Run (SchedStep 1000) World.start [.add 0 3 700, .add 0 4 500, .dispatch [] none, .del 4] w ∧
      w.s.timerList = [.deleted, .user 3, .periodic, .sentinel] ∧ w.s.timerList.Nodup := by
  have h1 := (Run.nil (R := SchedStep 1000) World.start).snoc
    (@SchedStep.add _ _ _ 0 3 700 rfl ⟨by decide, by decide⟩ rfl)
  have h2 := h1.snoc (@SchedStep.add _ _ _ 0 4 500 rfl ⟨by decide, by decide⟩ rfl)
  have h3 := h2.snoc (@SchedStep.dispatch _ _ _ _ [] none (by simp) (by simp) rfl)
  have h4 := h3.snoc (@SchedStep.del _ _ 4)
  exact ⟨_, h4, rfl, (timers_in_order (by decide) h4).1⟩

end Runs

end Cxsw.Sched
