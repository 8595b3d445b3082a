import Mathlib.Logic.Function.Basic
import Mathlib.Data.List.Nodup
import Mathlib.Data.UInt
import Cxsw.Lib.Run

/-!
# Cxsw.Mcu.Homing — end stops and their triggers on the microcontroller (`src/trsync.c`, `src/endstop.c`)

The steppers that are to stop at an end stop are signals of a `trsync`.  It triggers once: by an end stop, by a command,
or when its time is over.  Then the signals are called, and the host is told the reason.  The task reads the flags of a
`trsync` with the interrupts off and sends the report after it has turned them on; in between timers run, and nothing
else does.

* `Trsync` and its functions: the code; `Sync` keeps with it what happened since `trsync_start`.
* `Linked`: a signal is active while it waits for one `trsync`; `Sync.Good`: what is kept of each `trsync`.
* `stopped_once`: every stepper is stopped once, for the first reason, and this reason is what the host is told.
* `Endstop` and its events: the code; `Samples` counts the samples of the pin.
* `endstop_triggers_iff`: the end stop triggers with the first series of samples that is long enough, and when it
  samples.
-/

namespace Cxsw.Homing

/-! ## The code of `trsync.c` -/

section Defs

/-- `struct trsync`: the bits of its flags, and the `waketime` of its timers while they are scheduled. -/
structure Trsync where
  reportTime : Option UInt32
  expireTime : Option UInt32
  reportTicks : UInt32
  signals : List ℕ
  canTrigger : Bool
  report : Bool
  triggerReason : UInt8
  expireReason : UInt8
  deriving DecidableEq

/-- The response `trsync_state`. -/
structure TrsyncState where
  canTrigger : Bool
  triggerReason : UInt8
  clock : UInt32
  deriving DecidableEq

/-- A `trsync`, and what happened to it: whether it was started, the signals added since then and before it triggered,
those called, the reasons with which `trsync_do_trigger` was called, how many reports had been sent at the first of
these calls, the reports, and the one that was read and is still to be sent. -/
structure Sync where
  ts : Trsync
  started : Bool
  joined : List ℕ
  stopped : List (ℕ × UInt8)
  calls : List UInt8
  seen : ℕ
  reports : List TrsyncState
  sending : Option TrsyncState
  deriving DecidableEq

/-- The objects by their `oid`, the signals whose `func` is set, and the `trsync` for which a report is to be sent. -/
structure World where
  sync : ℕ → Sync
  active : ℕ → Bool
  busy : Option ℕ

/-- What `oid_alloc` gives. -/
def Trsync.init : Trsync := ⟨none, none, 0, [], false, false, 0, 0⟩

namespace Sync

/-- Nothing happened yet. -/
def init (ts : Trsync) : Sync := ⟨ts, false, [], [], [], 0, [], none⟩

/-- `trsync_do_trigger` is called. -/
def called (c : Sync) (reason : UInt8) : Sync :=
  { c with calls := c.calls ++ [reason], seen := if c.calls = [] then c.reports.length else c.seen }

/-- The reports, with the one that is still to be sent. -/
def said (c : Sync) : List TrsyncState := c.reports ++ c.sending.toList

end Sync

/-- The loop of `trsync_do_trigger`. -/
def dispatchSignals (reason : UInt8) : List ℕ → (ℕ → Bool) → List (ℕ × UInt8) → (ℕ → Bool) × List (ℕ × UInt8)
  | [], active, stopped => (active, stopped)
  | tss :: signals, active, stopped =>
    dispatchSignals reason signals (Function.update active tss false) (stopped ++ [(tss, reason)])

/-- The loop of `trsync_clear`. -/
def clearSignals : List ℕ → (ℕ → Bool) → ℕ → Bool
  | [], active => active
  | tss :: signals, active => clearSignals signals (Function.update active tss false)

namespace World

def start : World := ⟨fun _ => Sync.init Trsync.init, fun _ => false, none⟩

/-- A change of one `trsync`. -/
def change (w : World) (oid : ℕ) (f : Trsync → Trsync) : World :=
  { w with sync := Function.update w.sync oid { w.sync oid with ts := f (w.sync oid).ts } }

/-- `trsync_do_trigger`. -/
def doTrigger (w : World) (oid : ℕ) (reason : UInt8) : World :=
  let c := (w.sync oid).called reason
  if ¬ c.ts.canTrigger then { w with sync := Function.update w.sync oid c }
  else
    let r := dispatchSignals reason c.ts.signals w.active c.stopped
    let ts := { c.ts with triggerReason := reason, canTrigger := false, report := true, signals := [] }
    { w with sync := Function.update w.sync oid { c with ts := ts, stopped := r.2 }, active := r.1 }

/-- `trsync_expire_event`. -/
def expireEvent (w : World) (oid : ℕ) : World :=
  (w.doTrigger oid (w.sync oid).ts.expireReason).change oid fun ts => { ts with expireTime := none }

/-- `trsync_report_event`. -/
def reportEvent (w : World) (oid : ℕ) : World :=
  w.change oid fun ts => { ts with report := true, reportTime := ts.reportTime.map (· + ts.reportTicks) }

/-- `trsync_add_signal`. -/
def addSignal (w : World) (oid : ℕ) (tss : ℕ) : Option World :=
  if w.active tss then none -- "Can't add signal that is already active"
  else
    let c := w.sync oid
    let c' :=
      { c with
        ts := { c.ts with signals := tss :: c.ts.signals }
        joined := if c.ts.canTrigger then tss :: c.joined else c.joined }
    some { w with sync := Function.update w.sync oid c', active := Function.update w.active tss true }

/-- `trsync_clear`. -/
def clear (w : World) (oid : ℕ) : World :=
  let ts := (w.sync oid).ts
  let c := Sync.init { Trsync.init with reportTicks := ts.reportTicks }
  { w with sync := Function.update w.sync oid c, active := clearSignals ts.signals w.active }

/-- `command_trsync_start`. -/
def trsyncStart (w : World) (oid : ℕ) (reportClock reportTicks : UInt32) (expireReason : UInt8) : World :=
  let w := w.clear oid
  let ts :=
    { (w.sync oid).ts with
      canTrigger := true
      reportTime := if reportTicks ≠ 0 then some reportClock else none
      reportTicks := reportTicks
      expireReason := expireReason }
  { w with sync := Function.update w.sync oid { w.sync oid with ts := ts, started := true } }

/-- `command_trsync_set_timeout`. -/
def setTimeout (w : World) (oid : ℕ) (clock : UInt32) : World :=
  w.change oid fun ts => if ts.canTrigger then { ts with expireTime := some clock } else ts

/-- `command_trsync_trigger`.  Its timers are deleted before the report is sent: nothing changes it in between. -/
def trigger (w : World) (oid : ℕ) (reason : UInt8) : World :=
  let w := (w.doTrigger oid reason).change oid fun ts =>
    { ts with reportTime := none, expireTime := none, canTrigger := false, report := false }
  let c := w.sync oid
  { w with sync := Function.update w.sync oid { c with reports := c.reports ++ [⟨false, c.ts.triggerReason, 0⟩] } }

/-- The body of the loop of `trsync_task`, up to `irq_enable`. -/
def task (w : World) (oid : ℕ) (time : UInt32) : World :=
  let c := w.sync oid
  if ¬ c.ts.report then w
  else
    let c' :=
      { c with
        ts := { c.ts with report := false }
        sending := some ⟨c.ts.canTrigger, c.ts.triggerReason, time⟩ }
    { w with sync := Function.update w.sync oid c', busy := some oid }

/-- `trsync_report`, of what was read. -/
def sendReport (w : World) (oid : ℕ) : World :=
  let c := w.sync oid
  { w with sync := Function.update w.sync oid { c with reports := c.said, sending := none }, busy := none }

/-- `trsync_shutdown`; what was read is not sent any more. -/
def shutdown (w : World) (oids : List ℕ) : World := { oids.foldl World.clear w with busy := none }

end World

inductive Event
  | start (oid : ℕ) (reportClock reportTicks : UInt32) (expireReason : UInt8)
  | setTimeout (oid : ℕ) (clock : UInt32)
  | trigger (oid : ℕ) (reason : UInt8)
  | signal (oid tss : ℕ)
  | doTrigger (oid : ℕ) (reason : UInt8)
  | expire (oid : ℕ)
  | report (oid : ℕ)
  | task (oid : ℕ) (time : UInt32)
  | send (oid : ℕ)
  | shutdown (oids : List ℕ)
  deriving DecidableEq

/-- What runs in a task, and so not while the task of the reports sends one. -/
def Event.ofTask : Event → Bool
  | .start _ _ _ _ | .setTimeout _ _ | .trigger _ _ | .signal _ _ | .task _ _ => true
  | .doTrigger _ _ | .expire _ | .report _ | .send _ | .shutdown _ => false

/-- The effect of an event: a command, a call of `trsync_do_trigger` by an end stop, a timer that is scheduled, a report
that is read or sent, and the shutdown of all objects. -/
def World.effect (w : World) : Event → Option World
  | .start oid reportClock reportTicks expireReason => some (w.trsyncStart oid reportClock reportTicks expireReason)
  | .setTimeout oid clock => some (w.setTimeout oid clock)
  | .trigger oid reason => some (w.trigger oid reason)
  | .signal oid tss => w.addSignal oid tss
  | .doTrigger oid reason => some (w.doTrigger oid reason)
  | .expire oid => if (w.sync oid).ts.expireTime.isSome then some (w.expireEvent oid) else none
  | .report oid => if (w.sync oid).ts.reportTime.isSome then some (w.reportEvent oid) else none
  | .task oid time => some (w.task oid time)
  | .send oid => if w.busy = some oid then some (w.sendReport oid) else none
  | .shutdown oids => if w.busy.all (· ∈ oids) then some (w.shutdown oids) else none

/-- The events that can come. -/
def World.step (w : World) (e : Event) : Option World :=
  if e.ofTask = true ∧ w.busy.isSome = true then none else w.effect e

end Defs

/-! ## What is kept -/

section Invariant

variable {w w' : World} {c : Sync} {oid tss : ℕ} {reason : UInt8} {signals : List ℕ} {active : ℕ → Bool}

theorem clearSignals_iff : clearSignals signals active tss = true ↔ active tss = true ∧ tss ∉ signals := by
  induction signals generalizing active with
  | nil => simp [clearSignals]
  | cons s signals ih =>
    rw [clearSignals, ih, List.mem_cons, not_or]
    by_cases hs : tss = s
    · simp [hs]
    · simp [hs]

theorem dispatchSignals_eq (stopped : List (ℕ × UInt8)) : dispatchSignals reason signals active stopped =
    (clearSignals signals active, stopped ++ signals.map fun s => (s, reason)) := by
  induction signals generalizing active stopped with
  | nil => simp [dispatchSignals, clearSignals]
  | cons s signals ih => simp [dispatchSignals, clearSignals, ih]

/-- A signal is active while it is in one of the lists, once. -/
structure Linked (w : World) : Prop where
  nodup : ∀ oid, (w.sync oid).ts.signals.Nodup
  unique : ∀ s o o', s ∈ (w.sync o).ts.signals → s ∈ (w.sync o').ts.signals → o = o'
  active : ∀ s, w.active s = true ↔ ∃ o, s ∈ (w.sync o).ts.signals

theorem Linked.congr (h : Linked w) (hsignals : ∀ o, (w'.sync o).ts.signals = (w.sync o).ts.signals)
    (hactive : w'.active = w.active) : Linked w' := by
  refine ⟨fun o => ?_, fun s o o' => ?_, fun s => ?_⟩
  · rw [hsignals]
    exact h.nodup o
  · rw [hsignals, hsignals]
    exact h.unique s o o'
  · simp only [hsignals, hactive]
    exact h.active s

/-- All signals of one `trsync` leave it. -/
theorem Linked.release (h : Linked w) (hempty : c.ts.signals = []) :
    Linked { w with
      sync := Function.update w.sync oid c
      active := clearSignals (w.sync oid).ts.signals w.active } := by
  have hmem : ∀ s o, s ∈ (Function.update w.sync oid c o).ts.signals ↔ o ≠ oid ∧ s ∈ (w.sync o).ts.signals := by
    intro s o
    by_cases ho : o = oid
    · rw [ho, Function.update_self, hempty]
      simp
    · rw [Function.update_of_ne ho]
      simp [ho]
  refine ⟨fun o => ?_, fun s o o' ho ho' => h.unique s o o' ((hmem s o).mp ho).2 ((hmem s o').mp ho').2, fun s => ?_⟩
  · by_cases ho : o = oid
    · show (Function.update w.sync oid c o).ts.signals.Nodup
      rw [ho, Function.update_self, hempty]
      exact List.nodup_nil
    · show (Function.update w.sync oid c o).ts.signals.Nodup
      rw [Function.update_of_ne ho]
      exact h.nodup o
  · show clearSignals _ _ _ = true ↔ ∃ o, s ∈ (Function.update w.sync oid c o).ts.signals
    rw [clearSignals_iff, h.active]
    simp only [hmem]
    constructor
    · rintro ⟨⟨o, ho⟩, hnot⟩
      exact ⟨o, fun heq => hnot (heq ▸ ho), ho⟩
    · rintro ⟨o, hne, ho⟩
      exact ⟨⟨o, ho⟩, fun hs => hne (h.unique s o oid ho hs)⟩

/-- The host is told, or is going to be. -/
def Sync.Reported (c : Sync) : Prop := c.ts.report = true ∨ ∃ r ∈ c.said, r.canTrigger = false

/-- What was reported: first that it can trigger, then that it has and why; at most one report of the first kind comes
after the first trigger. -/
def Sync.InOrder (c : Sync) : Prop :=
  ∃ before after, c.said = before ++ after ∧ (∀ r ∈ before, r.canTrigger = true ∧ r.triggerReason = 0) ∧
    (∀ r ∈ after, r.canTrigger = false ∧ c.ts.canTrigger = false ∧ r.triggerReason = c.ts.triggerReason) ∧
    (c.started = true → c.calls ≠ [] → before.length ≤ c.seen + 1)

/-- What is kept of one `trsync`. -/
structure Sync.Good (c : Sync) : Prop where
  nodup : c.joined.Nodup
  can : c.ts.canTrigger = true ↔ c.started = true ∧ c.calls = []
  waiting : c.ts.canTrigger = true → c.stopped = [] ∧ c.ts.signals = c.joined ∧ c.ts.triggerReason = 0
  triggered : c.ts.canTrigger = false → c.stopped = c.joined.map fun s => (s, c.ts.triggerReason)
  first : c.started = true → ∀ reason ∈ c.calls.head?, c.ts.triggerReason = reason
  idle : c.started = false → c.joined = []
  reports : c.InOrder
  told : c.started = true → c.ts.canTrigger = false → c.Reported

/-- What is kept. -/
structure Inv (w : World) : Prop where
  linked : Linked w
  good : ∀ oid, (w.sync oid).Good
  busy : ∀ oid, (w.sync oid).sending.isSome = true → w.busy = some oid

theorem inOrder_nil (h : c.said = []) : c.InOrder :=
  ⟨[], [], h, fun _ hr => absurd hr List.not_mem_nil, fun _ hr => absurd hr List.not_mem_nil,
    fun _ _ => Nat.zero_le _⟩

theorem good_init {ts : Trsync} (hcan : ts.canTrigger = false) : (Sync.init ts).Good where
  nodup := List.nodup_nil
  can := ⟨fun h => absurd (h.symm.trans hcan) (by decide), fun h => absurd h.1 Bool.false_ne_true⟩
  waiting h := absurd (h.symm.trans hcan) (by decide)
  triggered _ := rfl
  first h := absurd h Bool.false_ne_true
  idle _ := rfl
  reports := inOrder_nil rfl
  told h := absurd h Bool.false_ne_true

theorem inv_start : Inv World.start where
  linked := ⟨fun _ => List.nodup_nil, fun _ _ _ hs => absurd hs List.not_mem_nil,
    fun _ => ⟨fun ha => absurd ha Bool.false_ne_true, fun ⟨_, hs⟩ => absurd hs List.not_mem_nil⟩⟩
  good _ := good_init rfl
  busy _ hs := absurd hs Bool.false_ne_true

/-- One `trsync` changes. -/
theorem good_update {sync : ℕ → Sync} (h : ∀ o, (sync o).Good) (hc : c.Good) (o : ℕ) :
    (Function.update sync oid c o).Good := by
  by_cases ho : o = oid
  · rw [ho, Function.update_self]
    exact hc
  · rw [Function.update_of_ne ho]
    exact h o

theorem signals_update {sync : ℕ → Sync} (hc : c.ts.signals = (sync oid).ts.signals) (o : ℕ) :
    (Function.update sync oid c o).ts.signals = (sync o).ts.signals := by
  by_cases ho : o = oid
  · rw [ho, Function.update_self]
    exact hc
  · rw [Function.update_of_ne ho]

/-- A report that is read stays the only one. -/
theorem Inv.busy_update (h : Inv w) (hc : c.sending.isSome = true → w.busy = some oid) (o : ℕ)
    (hs : (Function.update w.sync oid c o).sending.isSome = true) : w.busy = some o := by
  by_cases ho : o = oid
  · subst ho
    rw [Function.update_self] at hs
    exact hc hs
  · rw [Function.update_of_ne ho] at hs
    exact h.busy o hs

/-- A change that leaves the signals in place. -/
theorem Inv.update (h : Inv w) (hsignals : c.ts.signals = (w.sync oid).ts.signals) (hc : c.Good)
    (hsending : c.sending.isSome = true → w.busy = some oid) : Inv { w with sync := Function.update w.sync oid c } :=
  ⟨h.linked.congr (signals_update hsignals) rfl, good_update h.good hc, h.busy_update hsending⟩

end Invariant

/-! ## Every event keeps it -/

section Steps

variable {w w' : World} {c : Sync} {oid tss : ℕ} {reason : UInt8}

/-- A call that comes too late. -/
theorem Sync.Good.called (h : c.Good) (hcan : c.ts.canTrigger = false) (reason : UInt8) : (c.called reason).Good := by
  have hhad : c.started = true → c.calls ≠ [] := fun hs hc => by
    have := h.can.mpr ⟨hs, hc⟩
    rw [hcan] at this
    cases this
  refine ⟨h.nodup, ⟨fun hc => ?_, fun hc => ?_⟩, fun hc => ?_, h.triggered, fun hs r hr => ?_, h.idle, ?_, h.told⟩
  · exact absurd (hc.symm.trans hcan) (by decide)
  · exact absurd hc.2 (List.append_ne_nil_of_right_ne_nil _ (List.cons_ne_nil _ _))
  · exact absurd (hc.symm.trans hcan) (by decide)
  · -- the first call was before this one
    refine h.first hs r ?_
    obtain ⟨r', rest, hcalls⟩ := List.exists_cons_of_ne_nil (hhad hs)
    have hr' : some r' = some r := by simpa [Sync.called, hcalls] using hr
    rw [hcalls]
    exact hr'
  · obtain ⟨before, after, hsaid, hbefore, hafter, hseen⟩ := h.reports
    refine ⟨before, after, hsaid, hbefore, hafter, fun hs _ => ?_⟩
    show before.length ≤ (if c.calls = [] then c.reports.length else c.seen) + 1
    rw [if_neg (hhad hs)]
    exact hseen hs (hhad hs)

/-- The call that triggers. -/
theorem Sync.Good.triggers (h : c.Good) (hcan : c.ts.canTrigger = true) (reason : UInt8) :
    Sync.Good { c.called reason with
      ts := { c.ts with triggerReason := reason, canTrigger := false, report := true, signals := [] }
      stopped := c.joined.map fun s => (s, reason) } := by
  obtain ⟨hstarted, hcalls⟩ := h.can.mp hcan
  refine ⟨h.nodup, ⟨fun hc => absurd hc Bool.false_ne_true, fun hc => ?_⟩, fun hc => absurd hc Bool.false_ne_true,
    fun _ => rfl, fun _ r hr => ?_, h.idle, ?_, fun _ _ => Or.inl rfl⟩
  · exact absurd hc.2 (List.append_ne_nil_of_right_ne_nil _ (List.cons_ne_nil _ _))
  · have hr' : some reason = some r := by simpa [Sync.called, hcalls] using hr
    exact Option.some.inj hr'
  · obtain ⟨before, after, hsaid, hbefore, hafter, -⟩ := h.reports
    have hnone : after = [] := List.eq_nil_iff_forall_not_mem.mpr fun r hr =>
      absurd (hcan.symm.trans (hafter r hr).2.1) (by decide)
    subst hnone
    refine ⟨before, [], hsaid, hbefore, fun r hr => absurd hr List.not_mem_nil, fun _ _ => ?_⟩
    -- of what was read before, all but one report was sent
    show before.length ≤ (if c.calls = [] then c.reports.length else c.seen) + 1
    rw [if_pos hcalls]
    have hlen := congrArg List.length hsaid
    have hone : c.sending.toList.length ≤ 1 := by cases c.sending <;> simp
    simp only [Sync.said, List.length_append, List.length_nil] at hlen
    omega

theorem Inv.doTrigger (h : Inv w) (oid : ℕ) (reason : UInt8) : Inv (w.doTrigger oid reason) := by
  unfold World.doTrigger
  have hg := h.good oid
  have hsame : ((w.sync oid).called reason).ts = (w.sync oid).ts := rfl
  by_cases hcan : (w.sync oid).ts.canTrigger = true
  · obtain ⟨hstopped, hjoined, -⟩ := hg.waiting hcan
    have hgood := hg.triggers hcan reason
    simp only [hsame, hcan, not_true_eq_false, if_false, dispatchSignals_eq]
    refine ⟨h.linked.release rfl, good_update h.good ?_, h.busy_update (h.busy oid)⟩
    have hcalled : ((w.sync oid).called reason).stopped = [] := hstopped
    rw [hcalled, List.nil_append, hjoined]
    exact hgood
  · simp only [hsame, hcan, if_pos, Bool.false_eq_true, not_false_eq_true]
    exact h.update rfl (hg.called (Bool.eq_false_iff.mpr hcan) reason) (h.busy oid)

theorem Inv.addSignal (h : Inv w) (hw' : w.addSignal oid tss = some w') : Inv w' := by
  unfold World.addSignal at hw'
  split_ifs at hw' with hactive
  obtain rfl := Option.some.inj hw'
  have hg := h.good oid
  have hnew : ∀ o, tss ∉ (w.sync o).ts.signals := fun o ho => hactive ((h.linked.active tss).mpr ⟨o, ho⟩)
  refine ⟨⟨fun o => ?_, fun s o o' => ?_, fun s => ?_⟩, good_update h.good ⟨?_, hg.can, fun hc => ?_, fun hc => ?_,
    hg.first, fun hs => ?_, hg.reports, hg.told⟩, h.busy_update (h.busy oid)⟩
  · by_cases ho : o = oid
    · subst ho
      simpa using ⟨hnew o, h.linked.nodup o⟩
    · simpa [ho] using h.linked.nodup o
  · have hu := h.linked.unique s o o'
    by_cases ho : o = oid <;> by_cases ho' : o' = oid
    · intros
      rw [ho, ho']
    · subst ho
      simp only [Function.update_self, Function.update_of_ne ho', List.mem_cons]
      rintro (rfl | hs) hs'
      · exact absurd hs' (hnew o')
      · exact hu hs hs'
    · subst ho'
      simp only [Function.update_self, Function.update_of_ne ho, List.mem_cons]
      rintro hs (rfl | hs')
      · exact absurd hs (hnew o)
      · exact hu hs hs'
    · simp only [Function.update_of_ne ho, Function.update_of_ne ho']
      exact hu
  · have ha := h.linked.active s
    by_cases hs : s = tss
    · subst hs
      simp only [Function.update_self, true_iff]
      exact ⟨oid, by rw [Function.update_self]; exact List.mem_cons_self⟩
    · simp only [Function.update_of_ne hs, ha]
      refine exists_congr fun o => ?_
      by_cases ho : o = oid
      · subst ho
        simp [hs]
      · rw [Function.update_of_ne ho]
  · show (ite _ _ _ : List ℕ).Nodup
    split_ifs with hc
    · refine List.nodup_cons.mpr ⟨?_, hg.nodup⟩
      rw [← (hg.waiting hc).2.1]
      exact hnew oid
    · exact hg.nodup
  · obtain ⟨hstopped, hjoined, hreason⟩ := hg.waiting hc
    refine ⟨hstopped, ?_, hreason⟩
    show tss :: _ = ite _ _ _
    rw [if_pos hc, hjoined]
  · show (w.sync oid).stopped = _
    rw [if_neg (Bool.eq_false_iff.mp hc)]
    exact hg.triggered hc
  · have hcan : ¬ (w.sync oid).ts.canTrigger = true := fun hc =>
      absurd (hs.symm.trans (hg.can.mp hc).1) (by decide)
    show ite _ _ _ = []
    rw [if_neg hcan]
    exact hg.idle hs

theorem Inv.clear (h : Inv w) (oid : ℕ) : Inv (w.clear oid) :=
  ⟨h.linked.release rfl, good_update h.good (good_init rfl), h.busy_update fun hs => absurd hs Bool.false_ne_true⟩

/-- A change of what no one else looks at. -/
theorem Inv.change (h : Inv w) {f : Trsync → Trsync} (hsignals : (f (w.sync oid).ts).signals = (w.sync oid).ts.signals)
    (hcan : (f (w.sync oid).ts).canTrigger = (w.sync oid).ts.canTrigger)
    (hreason : (f (w.sync oid).ts).triggerReason = (w.sync oid).ts.triggerReason)
    (hreport : (w.sync oid).ts.report = true → (f (w.sync oid).ts).report = true) : Inv (w.change oid f) := by
  have hg := h.good oid
  refine h.update hsignals ⟨hg.nodup, ?_, ?_, ?_, ?_, hg.idle, ?_, fun hs => ?_⟩ (h.busy oid)
  · rw [hcan]
    exact hg.can
  · rw [hsignals, hcan, hreason]
    exact hg.waiting
  · rw [hcan, hreason]
    exact hg.triggered
  · rw [hreason]
    exact hg.first
  · obtain ⟨before, after, hsaid, hbefore, hafter, hseen⟩ := hg.reports
    refine ⟨before, after, hsaid, hbefore, fun r hr => ?_, hseen⟩
    rw [hcan, hreason]
    exact hafter r hr
  · rw [hcan]
    exact fun hc => (hg.told hs hc).imp_left hreport

theorem Inv.trsyncStart (h : Inv w) (reportClock reportTicks : UInt32) (expireReason : UInt8) :
    Inv (w.trsyncStart oid reportClock reportTicks expireReason) := by
  have hclear := h.clear oid
  have hsync : (w.clear oid).sync oid = Sync.init { Trsync.init with reportTicks := (w.sync oid).ts.reportTicks } :=
    Function.update_self _ _ _
  unfold World.trsyncStart
  refine hclear.update (by rw [hsync]) ?_ ?_ <;> rw [hsync]
  · exact ⟨List.nodup_nil, ⟨fun _ => ⟨rfl, rfl⟩, fun _ => rfl⟩, fun _ => ⟨rfl, rfl, rfl⟩, fun _ => rfl,
      fun _ r hr => absurd hr.symm (Option.some_ne_none r), fun _ => rfl, inOrder_nil rfl,
      fun _ hc => absurd hc.symm Bool.false_ne_true⟩
  · exact fun hs => absurd hs Bool.false_ne_true

theorem Inv.setTimeout (h : Inv w) (clock : UInt32) : Inv (w.setTimeout oid clock) := by
  unfold World.setTimeout
  by_cases hcan : (w.sync oid).ts.canTrigger = true
  · refine h.change ?_ ?_ ?_ ?_ <;> simp [hcan]
  · refine h.change ?_ ?_ ?_ ?_ <;> simp [hcan]

theorem doTrigger_canTrigger (w : World) (oid : ℕ) (reason : UInt8) :
    ((w.doTrigger oid reason).sync oid).ts.canTrigger = false := by
  unfold World.doTrigger
  have hsame : ((w.sync oid).called reason).ts = (w.sync oid).ts := rfl
  by_cases hcan : (w.sync oid).ts.canTrigger = true
  · simp [hsame, hcan]
  · simp [hsame, hcan]

theorem doTrigger_sending (w : World) (oid : ℕ) (reason : UInt8) (o : ℕ) :
    ((w.doTrigger oid reason).sync o).sending = (w.sync o).sending := by
  unfold World.doTrigger
  by_cases ho : o = oid
  · subst ho
    dsimp only
    split_ifs <;> simp [Sync.called]
  · dsimp only
    split_ifs <;> simp [ho]

/-- One more report is read, of what is there. -/
theorem Sync.InOrder.read {c' : Sync} (h : c.InOrder) (state : TrsyncState) (hsaid : c'.said = c.said ++ [state])
    (hcan : c'.ts.canTrigger = c.ts.canTrigger) (hreason : c'.ts.triggerReason = c.ts.triggerReason)
    (hzero : c.ts.canTrigger = true → c.ts.triggerReason = 0)
    (hstate : state.canTrigger = c.ts.canTrigger ∧ state.triggerReason = c.ts.triggerReason)
    (hstarted : c'.started = c.started) (hcalls : c'.calls = c.calls) (hseen : c'.seen = c.seen)
    (hfirst : c.ts.canTrigger = true → c.calls = []) : c'.InOrder := by
  obtain ⟨before, after, heq, hbefore, hafter, hlen⟩ := h
  unfold Sync.InOrder
  rw [hsaid, heq, hcan, hreason, hstarted, hcalls, hseen]
  cases hc : c.ts.canTrigger with
  | true =>
    have hnone : after = [] := List.eq_nil_iff_forall_not_mem.mpr fun r hr =>
      absurd (hc.symm.trans (hafter r hr).2.1) (by decide)
    subst hnone
    refine ⟨before ++ [state], [], by simp, fun r hr => ?_, fun r hr => absurd hr List.not_mem_nil,
      fun _ hne => absurd (hfirst hc) hne⟩
    rcases List.mem_append.mp hr with hold | hnew
    · exact hbefore r hold
    · obtain rfl := List.mem_singleton.mp hnew
      exact ⟨hstate.1.trans hc, hstate.2.trans (hzero hc)⟩
  | false =>
    refine ⟨before, after ++ [state], (List.append_assoc _ _ _), hbefore, fun r hr => ?_, hlen⟩
    rcases List.mem_append.mp hr with hold | hnew
    · exact ⟨(hafter r hold).1, rfl, (hafter r hold).2.2⟩
    · obtain rfl := List.mem_singleton.mp hnew
      exact ⟨hstate.1.trans hc, rfl, hstate.2⟩

/-- A report is read, with the flag for it taken back. -/
theorem Sync.Good.read {c' : Sync} (h : c.Good) (state : TrsyncState) (hsaid : c'.said = c.said ++ [state])
    (hstate : state.canTrigger = c.ts.canTrigger ∧ state.triggerReason = c.ts.triggerReason)
    (hts : c'.ts.canTrigger = c.ts.canTrigger ∧ c'.ts.triggerReason = c.ts.triggerReason ∧
      c'.ts.signals = c.ts.signals)
    (hrest : c'.started = c.started ∧ c'.joined = c.joined ∧ c'.stopped = c.stopped ∧ c'.calls = c.calls ∧
      c'.seen = c.seen) : c'.Good := by
  obtain ⟨hcan, hreason, hsignals⟩ := hts
  obtain ⟨hstarted, hjoined, hstopped, hcalls, hseen⟩ := hrest
  have horder := h.reports.read state hsaid hcan hreason (fun hc => (h.waiting hc).2.2) hstate hstarted hcalls hseen
    fun hc => (h.can.mp hc).2
  refine ⟨by rw [hjoined]; exact h.nodup, by rw [hcan, hstarted, hcalls]; exact h.can, ?_, ?_, ?_, ?_, horder, ?_⟩
  · rw [hcan, hstopped, hsignals, hjoined, hreason]
    exact h.waiting
  · rw [hcan, hstopped, hjoined, hreason]
    exact h.triggered
  · rw [hstarted, hcalls, hreason]
    exact h.first
  · rw [hstarted, hjoined]
    exact h.idle
  · intro _ hc
    refine Or.inr ⟨state, ?_, hstate.1.trans (hcan.symm.trans hc)⟩
    rw [hsaid]
    exact List.mem_append_right _ List.mem_cons_self

theorem Inv.trigger (h : Inv w) (hbusy : w.busy = none) (oid : ℕ) (reason : UInt8) : Inv (w.trigger oid reason) := by
  have hinv := h.doTrigger oid reason
  have hcan := doTrigger_canTrigger w oid reason
  have hsending : ((w.doTrigger oid reason).sync oid).sending = none := by
    rw [doTrigger_sending]
    by_contra hne
    have := h.busy oid (Option.isSome_iff_ne_none.mpr hne)
    rw [hbusy] at this
    cases this
  unfold World.trigger
  generalize w.doTrigger oid reason = w₁ at hinv hcan hsending
  unfold World.change
  simp only [Function.update_idem, Function.update_self]
  refine hinv.update rfl ((hinv.good oid).read ⟨false, (w₁.sync oid).ts.triggerReason, 0⟩ ?_ ⟨hcan.symm, rfl⟩
    ⟨hcan.symm, rfl, rfl⟩ ⟨rfl, rfl, rfl, rfl, rfl⟩) ?_
  · simp [Sync.said, hsending]
  · rw [hsending]
    exact fun hs => absurd hs Bool.false_ne_true

theorem Inv.task (h : Inv w) (hbusy : w.busy = none) (oid : ℕ) (time : UInt32) : Inv (w.task oid time) := by
  have hnone : ∀ o, (w.sync o).sending = none := fun o => by
    by_contra hne
    have := h.busy o (Option.isSome_iff_ne_none.mpr hne)
    rw [hbusy] at this
    cases this
  unfold World.task
  by_cases hreport : (w.sync oid).ts.report = true
  · simp only [hreport, not_true_eq_false, if_false]
    refine ⟨h.linked.congr (signals_update rfl) rfl, good_update h.good ?_, fun o hs => ?_⟩
    · refine (h.good oid).read ⟨(w.sync oid).ts.canTrigger, (w.sync oid).ts.triggerReason, time⟩ ?_ ⟨rfl, rfl⟩
        ⟨rfl, rfl, rfl⟩ ⟨rfl, rfl, rfl, rfl, rfl⟩
      simp [Sync.said, hnone]
    · change (Function.update w.sync oid _ o).sending.isSome = true at hs
      by_cases ho : o = oid
      · rw [ho]
      · rw [Function.update_of_ne ho, hnone] at hs
        cases hs
  · simp only [hreport, Bool.false_eq_true, not_false_eq_true, if_true]
    exact h

theorem said_sendReport (c : Sync) : Sync.said { c with reports := c.said, sending := none } = c.said := by
  simp [Sync.said]

theorem Inv.sendReport (h : Inv w) (hbusy : w.busy = some oid) : Inv (w.sendReport oid) := by
  have hg := h.good oid
  have hsaid := said_sendReport (w.sync oid)
  refine ⟨h.linked.congr (signals_update rfl) rfl,
    good_update h.good ⟨hg.nodup, hg.can, hg.waiting, hg.triggered, hg.first,
    hg.idle, ?_, ?_⟩, fun o hs => ?_⟩
  · unfold Sync.InOrder
    rw [hsaid]
    exact hg.reports
  · unfold Sync.Reported
    rw [hsaid]
    exact hg.told
  · change (Function.update w.sync oid _ o).sending.isSome = true at hs
    by_cases ho : o = oid
    · rw [ho, Function.update_self] at hs
      cases hs
    · rw [Function.update_of_ne ho] at hs
      exact absurd (Option.some.inj (hbusy.symm.trans (h.busy o hs))).symm ho

theorem foldl_clear_sending {oids : List ℕ} {o : ℕ}
    (hs : ((oids.foldl World.clear w).sync o).sending.isSome = true) :
    o ∉ oids ∧ (w.sync o).sending.isSome = true := by
  induction oids generalizing w with
  | nil => exact ⟨List.not_mem_nil, hs⟩
  | cons oid oids ih =>
    obtain ⟨hnot, hs'⟩ := ih hs
    have hclear : (w.clear oid).sync = Function.update w.sync oid _ := rfl
    rw [hclear] at hs'
    by_cases ho : o = oid
    · rw [ho, Function.update_self] at hs'
      cases hs'
    · rw [Function.update_of_ne ho] at hs'
      exact ⟨fun hmem => (List.mem_cons.mp hmem).elim ho hnot, hs'⟩

theorem Inv.foldl_clear (h : Inv w) (oids : List ℕ) : Inv (oids.foldl World.clear w) := by
  induction oids generalizing w with
  | nil => exact h
  | cons oid oids ih => exact ih (h.clear oid)

/-- The shutdown clears the `trsync` whose report was to be sent, as all others. -/
theorem Inv.shutdown (h : Inv w) {oids : List ℕ} (hall : w.busy.all (· ∈ oids) = true) : Inv (w.shutdown oids) := by
  have hinv := h.foldl_clear oids
  refine ⟨hinv.linked.congr (fun _ => rfl) rfl, hinv.good, fun o hs => ?_⟩
  obtain ⟨hnot, hs'⟩ := foldl_clear_sending (w := w) hs
  rw [h.busy o hs'] at hall
  exact absurd (by simpa using hall) hnot

theorem Inv.step (h : Inv w) {e : Event} (hw' : w.step e = some w') : Inv w' := by
  unfold World.step at hw'
  split_ifs at hw' with htask
  have hbusy : e.ofTask = true → w.busy = none := fun he => by
    by_contra hne
    exact htask ⟨he, Option.isSome_iff_ne_none.mpr hne⟩
  cases e with
  | start oid reportClock reportTicks expireReason =>
    obtain rfl := Option.some.inj hw'
    exact h.trsyncStart _ _ _
  | setTimeout oid clock =>
    obtain rfl := Option.some.inj hw'
    exact h.setTimeout _
  | trigger oid reason =>
    obtain rfl := Option.some.inj hw'
    exact h.trigger (hbusy rfl) _ _
  | signal oid tss => exact h.addSignal hw'
  | doTrigger oid reason =>
    obtain rfl := Option.some.inj hw'
    exact h.doTrigger _ _
  | expire oid =>
    simp only [World.effect] at hw'
    split_ifs at hw'
    obtain rfl := Option.some.inj hw'
    exact (h.doTrigger _ _).change rfl rfl rfl id
  | report oid =>
    simp only [World.effect] at hw'
    split_ifs at hw'
    obtain rfl := Option.some.inj hw'
    exact h.change rfl rfl rfl fun _ => rfl
  | task oid time =>
    obtain rfl := Option.some.inj hw'
    exact h.task (hbusy rfl) _ _
  | send oid =>
    simp only [World.effect] at hw'
    split_ifs at hw' with hsend
    obtain rfl := Option.some.inj hw'
    exact h.sendReport hsend
  | shutdown oids =>
    simp only [World.effect] at hw'
    split_ifs at hw' with hall
    obtain rfl := Option.some.inj hw'
    exact h.shutdown hall

end Steps

/-! ## Every run -/

section Runs

variable {w : World}

/-- **What a `trsync` does**, with what it was told and what it reported. -/
structure Sync.Once (c : Sync) : Prop where
  /-- It can trigger from its start to the first trigger. -/
  can : c.ts.canTrigger = true ↔ c.started = true ∧ c.calls = []
  /-- Until then the signals wait; -/
  waits : c.started = true → c.calls = [] → c.stopped = [] ∧ c.ts.signals = c.joined
  /-- with the first trigger each of them is called once, with its reason. -/
  stops : c.started = true → ∀ reason ∈ c.calls.head?, c.stopped = c.joined.map fun s => (s, reason)
  nodup : c.joined.Nodup
  /-- Before its start, and after a shutdown, no signal is called. -/
  idle : c.started = false → c.stopped = []
  /-- The reports say first that it can trigger, then that it has, with the reason of the first trigger; at most one of
  the first kind, which had been read before, comes after this trigger. -/
  reports : c.started = true → ∃ before after, c.said = before ++ after ∧
    (∀ r ∈ before, r.canTrigger = true ∧ r.triggerReason = 0) ∧
    (∀ r ∈ after, r.canTrigger = false ∧ c.calls.head? = some r.triggerReason) ∧
    (c.calls ≠ [] → before.length ≤ c.seen + 1)
  /-- One of the second kind is sent, or going to be, whether a signal waited or not. -/
  told : c.started = true → c.calls ≠ [] → c.Reported

theorem Sync.Good.once {c : Sync} (h : c.Good) : c.Once := by
  have hhad : c.started = true → c.calls ≠ [] → c.ts.canTrigger = false := fun _ hne =>
    Bool.eq_false_iff.mpr fun hc => hne (h.can.mp hc).2
  refine ⟨h.can, fun hs hc => ?_, fun hs reason hr => ?_, h.nodup, fun hs => ?_, fun hs => ?_,
    fun hs hne => h.told hs (hhad hs hne)⟩
  · obtain ⟨hstopped, hjoined, -⟩ := h.waiting (h.can.mpr ⟨hs, hc⟩)
    exact ⟨hstopped, hjoined⟩
  · have hne : c.calls ≠ [] := fun hc => by
      rw [hc] at hr
      exact absurd hr.symm (Option.some_ne_none reason)
    rw [h.triggered (hhad hs hne), h.first hs reason hr]
  · have hcan : c.ts.canTrigger = false := Bool.eq_false_iff.mpr fun hc =>
      absurd (hs.symm.trans (h.can.mp hc).1) (by decide)
    rw [h.triggered hcan, h.idle hs, List.map_nil]
  · obtain ⟨before, after, hsaid, hbefore, hafter, hseen⟩ := h.reports
    refine ⟨before, after, hsaid, hbefore, fun r hr => ?_, hseen hs⟩
    obtain ⟨hr1, hr2, hr3⟩ := hafter r hr
    have hne : c.calls ≠ [] := fun hc => absurd ((h.can.mpr ⟨hs, hc⟩).symm.trans hr2) (by decide)
    obtain ⟨reason, rest, hcalls⟩ := List.exists_cons_of_ne_nil hne
    have hfirst := h.first hs reason (by rw [hcalls]; rfl)
    exact ⟨hr1, by rw [hr3, hfirst, hcalls]; rfl⟩

/-- **Every stepper is stopped once.**  In every order of commands, end stops, timers and reports, with any number of
`trsync`s: each of them does what `Sync.Once` says, and a signal can be added exactly while it waits for none. -/
theorem stopped_once {es : List Event} (h : Run (fun w e w' => w.step e = some w') World.start es w) (oid : ℕ) :
    (w.sync oid).Once ∧ ∀ tss, (w.addSignal oid tss).isSome = true ↔ ∀ o, tss ∉ (w.sync o).ts.signals := by
  have hinv := h.invariant inv_start fun _ _ _ hw hstep => hw.step hstep
  refine ⟨(hinv.good oid).once, fun tss => ?_⟩
  have ha := hinv.linked.active tss
  unfold World.addSignal
  split_ifs with hactive
  · obtain ⟨o, ho⟩ := ha.mp hactive
    exact ⟨fun hs => absurd hs Bool.false_ne_true, fun hall => absurd ho (hall o)⟩
  · exact ⟨fun _ o ho => hactive (ha.mpr ⟨o, ho⟩), fun _ => rfl⟩

/-- Two steppers, and an end stop that triggers while a report is to be sent, before the timeout. -/
theorem stopped_once_concreteCase : ∃ w, Run (fun w e w' => World.step w e = some w') World.start
    [.start 1 100 50 4, .signal 1 7, .signal 1 8, .setTimeout 1 900, .report 1, .task 1 110, .doTrigger 1 2, .send 1,
      .expire 1, .task 1 120, .send 1] w ∧
      (w.sync 1).reports = [⟨true, 0, 110⟩, ⟨false, 2, 120⟩] ∧ (w.sync 1).calls = [2, 4] ∧
      (w.sync 1).stopped = (w.sync 1).joined.map fun s => (s, 2) := by
  have hrun {w₁ : World} {es : List Event} (h : Run (fun w e w' => World.step w e = some w') World.start es w₁)
      {e : Event} {w₂ : World} (he : w₁.step e = some w₂) :
      Run (fun w e w' => World.step w e = some w') World.start (es ++ [e]) w₂ := h.snoc he
  have h1 := hrun (Run.nil World.start) (e := .start 1 100 50 4) rfl
  have h3 := hrun (hrun h1 (e := .signal 1 7) rfl) (e := .signal 1 8) rfl
  have h5 := hrun (hrun h3 (e := .setTimeout 1 900) rfl) (e := .report 1) rfl
  have h7 := hrun (hrun h5 (e := .task 1 110) rfl) (e := .doTrigger 1 2) rfl
  have h9 := hrun (hrun h7 (e := .send 1) rfl) (e := .expire 1) rfl
  have h11 := hrun (hrun h9 (e := .task 1 120) rfl) (e := .send 1) rfl
  exact ⟨_, h11, rfl, rfl, (stopped_once h11 1).1.stops rfl 2 rfl⟩

end Runs

/-! ## `endstop.c` -/

section EndstopDefs

/-- `struct endstop` while it is homing: the level of the pin that it waits for, and whether `func` is
`endstop_oversample_event`. -/
structure Endstop where
  waketime : UInt32
  oversample : Bool
  restTime : UInt32
  sampleTime : UInt32
  nextwake : UInt32
  pinHigh : Bool
  sampleCount : UInt8
  triggerCount : UInt8
  triggerReason : UInt8
  deriving DecidableEq

namespace Endstop

/-- `command_endstop_home`, with a `sample_count`. -/
def home (e : Endstop) (clock sampleTicks : UInt32) (sampleCount : UInt8) (restTicks : UInt32) (pinValue : Bool)
    (triggerReason : UInt8) : Endstop :=
  { e with
    waketime := clock
    sampleTime := sampleTicks
    sampleCount := sampleCount
    restTime := restTicks
    oversample := false
    triggerCount := sampleCount
    pinHigh := pinValue
    triggerReason := triggerReason }

/-- `endstop_oversample_event`; with a reason for `trsync_do_trigger` the timer is done. -/
def oversampleEvent (e : Endstop) (val : Bool) : Endstop × Option UInt8 :=
  if val ≠ e.pinHigh then ({ e with oversample := false, waketime := e.nextwake, triggerCount := e.sampleCount }, none)
  else
    let count := e.triggerCount - 1
    if count = 0 then (e, some e.triggerReason)
    else ({ e with triggerCount := count, waketime := e.waketime + e.sampleTime }, none)

/-- `endstop_event`, which may look at the pin twice. -/
def endstopEvent (e : Endstop) (val val' : Bool) : Endstop × Option UInt8 :=
  let nextwake := e.waketime + e.restTime
  if val ≠ e.pinHigh then ({ e with waketime := nextwake }, none)
  else { e with nextwake := nextwake, oversample := true }.oversampleEvent val'

/-- The timer is called. -/
def event (e : Endstop) (vals : Bool × Bool) : Endstop × Option UInt8 :=
  if e.oversample then e.oversampleEvent vals.2 else e.endstopEvent vals.1 vals.2

/-- The timer is called until it triggers. -/
def run : Endstop → List (Bool × Bool) → Endstop × Option UInt8
  | e, [] => (e, none)
  | e, vals :: rest =>
    match e.event vals with
    | (e', none) => e'.run rest
    | (e', some reason) => (e', some reason)

end Endstop

/-- What is said of the samples: how many series ended too early, and how long the current one is. -/
structure Samples where
  misses : ℕ
  streak : ℕ
  deriving DecidableEq

/-- A series begins with two looks at the pin. -/
def Samples.sample (pin : Bool) (c : Samples) (vals : Bool × Bool) : Samples :=
  if (0 < c.streak ∨ vals.1 = pin) ∧ vals.2 = pin then ⟨c.misses, c.streak + 1⟩ else ⟨c.misses + 1, 0⟩

/-- The samples of a run. -/
def Samples.all (pin : Bool) (es : List (Bool × Bool)) : Samples := es.foldl (Samples.sample pin) ⟨0, 0⟩

end EndstopDefs

/-! ### The samples of the pin -/

section Endstops

variable {e : Endstop} {c : Samples} {nextwake : UInt32} {sampleCount reason : UInt8} {es : List (Bool × Bool)}

/-- The end stop `e` with the samples `c`. -/
def Endstop.sampled (e : Endstop) (c : Samples) (nextwake : UInt32) : Endstop :=
  { e with
    waketime := e.waketime + UInt32.ofNat c.misses * e.restTime + UInt32.ofNat c.streak * e.sampleTime
    oversample := decide (0 < c.streak)
    nextwake := nextwake
    triggerCount := e.sampleCount - UInt8.ofNat c.streak }

/-- In a series `nextwake` is the beginning of the next one. -/
def Endstop.Next (e : Endstop) (c : Samples) (nextwake : UInt32) : Prop :=
  0 < c.streak → nextwake = e.waketime + UInt32.ofNat (c.misses + 1) * e.restTime

theorem ofNat_succ_mul (n : ℕ) (x : UInt32) : UInt32.ofNat (n + 1) * x = UInt32.ofNat n * x + x := by
  rw [UInt32.ofNat_add, UInt32.add_mul, show UInt32.ofNat 1 = 1 from rfl, UInt32.one_mul]

/-- A sample in a series that has begun. -/
theorem oversampleEvent_spec (val : Bool) (hshort : c.streak < e.sampleCount.toNat)
    (hnext : nextwake = e.waketime + UInt32.ofNat (c.misses + 1) * e.restTime) :
    if val = e.pinHigh then
      if c.streak + 1 = e.sampleCount.toNat then
        ({ e.sampled c nextwake with oversample := true }.oversampleEvent val).2 = some e.triggerReason
      else { e.sampled c nextwake with oversample := true }.oversampleEvent val =
        (e.sampled ⟨c.misses, c.streak + 1⟩ nextwake, none)
    else { e.sampled c nextwake with oversample := true }.oversampleEvent val =
      (e.sampled ⟨c.misses + 1, 0⟩ nextwake, none) := by
  have hn := UInt8.toNat_lt e.sampleCount
  have hcount : e.sampleCount - UInt8.ofNat c.streak - 1 = e.sampleCount - UInt8.ofNat (c.streak + 1) := by
    rw [UInt8.ofNat_add]
    show _ = e.sampleCount - (UInt8.ofNat c.streak + 1)
    grind
  have hzero : e.sampleCount - UInt8.ofNat (c.streak + 1) = 0 ↔ c.streak + 1 = e.sampleCount.toNat := by
    rw [sub_eq_zero, ← UInt8.toNat_inj, UInt8.toNat_ofNat', Nat.mod_eq_of_lt (by omega)]
    exact eq_comm
  unfold Endstop.oversampleEvent Endstop.sampled
  by_cases hval : val = e.pinHigh
  · rw [if_pos hval]
    simp only [hval, ne_eq, not_true_eq_false, if_false, hcount, hzero]
    split_ifs with hlast
    · rfl
    · refine Prod.ext ?_ rfl
      simp only [ofNat_succ_mul, UInt32.add_assoc, Nat.succ_pos, decide_true]
  · rw [if_neg hval]
    simp only [ne_eq, hval, not_false_eq_true, if_true, hnext]
    refine Prod.ext ?_ rfl
    simp

/-- **One event**: the end stop goes on with the samples, or it has enough of them. -/
theorem event_spec (vals : Bool × Bool) (hshort : c.streak < e.sampleCount.toNat) (hnext : e.Next c nextwake) :
    if (c.sample e.pinHigh vals).streak = e.sampleCount.toNat then
      ((e.sampled c nextwake).event vals).2 = some e.triggerReason
    else ∃ nextwake', (e.sampled c nextwake).event vals = (e.sampled (c.sample e.pinHigh vals) nextwake', none) ∧
      e.Next (c.sample e.pinHigh vals) nextwake' := by
  by_cases hbegin : 0 < c.streak ∨ vals.1 = e.pinHigh
  · -- the pin is looked at in a series
    have hover : ∃ next, next = e.waketime + UInt32.ofNat (c.misses + 1) * e.restTime ∧
        (e.sampled c nextwake).event vals = { e.sampled c next with oversample := true }.oversampleEvent vals.2 := by
      by_cases hc : 0 < c.streak
      · refine ⟨nextwake, hnext hc, ?_⟩
        simp only [Endstop.event, Endstop.sampled, hc, decide_true, if_true]
      · have hzero : c.streak = 0 := Nat.eq_zero_of_not_pos hc
        refine ⟨_, rfl, ?_⟩
        rw [ofNat_succ_mul]
        simp [Endstop.event, Endstop.endstopEvent, Endstop.sampled, hzero, hbegin.resolve_left hc, UInt32.add_assoc]
    obtain ⟨next, hn, hevent⟩ := hover
    have hspec := oversampleEvent_spec vals.2 hshort hn
    rw [hevent]
    unfold Samples.sample
    by_cases hval : vals.2 = e.pinHigh
    · rw [if_pos (show _ ∧ vals.2 = e.pinHigh from ⟨hbegin, hval⟩)]
      rw [if_pos hval] at hspec
      by_cases hlast : c.streak + 1 = e.sampleCount.toNat
      · rw [if_pos hlast] at hspec ⊢
        exact hspec
      · rw [if_neg hlast] at hspec ⊢
        exact ⟨next, hspec, fun _ => hn⟩
    · rw [if_neg hval] at hspec
      rw [if_neg (show ¬ (_ ∧ vals.2 = e.pinHigh) from fun h => hval h.2), if_neg (show ¬ 0 = _ by omega)]
      exact ⟨next, hspec, fun h => absurd h (lt_irrefl 0)⟩
  · have hzero : c.streak = 0 := Nat.eq_zero_of_not_pos fun h => hbegin (Or.inl h)
    have hval : ¬ vals.1 = e.pinHigh := fun h => hbegin (Or.inr h)
    unfold Samples.sample
    rw [if_neg (show ¬ (_ ∧ vals.2 = e.pinHigh) from fun h => hbegin h.1), if_neg (show ¬ 0 = _ by omega)]
    refine ⟨nextwake, ?_, fun h => absurd h (lt_irrefl 0)⟩
    simp [Endstop.event, Endstop.endstopEvent, Endstop.sampled, hzero, hval, UInt32.add_mul, UInt32.add_assoc]

/-- Whole runs, from where the end stop is. -/
theorem run_spec (hshort : c.streak < e.sampleCount.toNat) (hnext : e.Next c nextwake) :
    (((e.sampled c nextwake).run es).2 = some reason ↔ reason = e.triggerReason ∧
      ∃ es', es' <+: es ∧ (es'.foldl (Samples.sample e.pinHigh) c).streak = e.sampleCount.toNat) ∧
    (((e.sampled c nextwake).run es).2 = none → ∃ nextwake',
      ((e.sampled c nextwake).run es).1 = e.sampled (es.foldl (Samples.sample e.pinHigh) c) nextwake') := by
  induction es generalizing c nextwake with
  | nil =>
    refine ⟨⟨fun h => absurd h.symm (Option.some_ne_none reason), ?_⟩, fun _ => ⟨nextwake, rfl⟩⟩
    rintro ⟨-, es', hes', hstreak⟩
    rw [List.prefix_nil.mp hes'] at hstreak
    exact absurd hstreak hshort.ne
  | cons vals es ih =>
    have hevent := event_spec vals hshort hnext
    have hparts : (∃ es', es' <+: vals :: es ∧ (es'.foldl (Samples.sample e.pinHigh) c).streak = e.sampleCount.toNat) ↔
        ∃ es', es' <+: es ∧ (es'.foldl (Samples.sample e.pinHigh) (c.sample e.pinHigh vals)).streak =
          e.sampleCount.toNat := by
      constructor
      · rintro ⟨es', hes', hstreak⟩
        rcases List.prefix_cons_iff.mp hes' with rfl | ⟨t, rfl, ht⟩
        · exact absurd hstreak hshort.ne
        · exact ⟨t, ht, hstreak⟩
      · rintro ⟨es', hes', hstreak⟩
        exact ⟨vals :: es', List.prefix_cons_iff.mpr (Or.inr ⟨es', rfl, hes'⟩), hstreak⟩
    rw [hparts, Endstop.run]
    by_cases hlast : (c.sample e.pinHigh vals).streak = e.sampleCount.toNat
    · rw [if_pos hlast] at hevent
      generalize (e.sampled c nextwake).event vals = r at hevent
      obtain ⟨e', reason'⟩ := r
      obtain rfl : reason' = some e.triggerReason := hevent
      refine ⟨⟨fun h => ⟨(Option.some.inj h).symm, [], List.nil_prefix, hlast⟩, fun h => congrArg some h.1.symm⟩,
        fun h => ?_⟩
      exact absurd h (Option.some_ne_none _)
    · rw [if_neg hlast] at hevent
      obtain ⟨next, heq, hnext'⟩ := hevent
      rw [heq]
      have hle : (c.sample e.pinHigh vals).streak ≤ c.streak + 1 := by
        unfold Samples.sample
        split_ifs <;> simp
      exact ih (by omega) hnext'

/-- **An end stop triggers** with the first series of `sample_count` samples at the level it waits for, and not before.
 The series begin `rest_ticks` apart, whatever became of those before, and their samples are `sample_ticks` apart. -/
theorem endstop_triggers_iff (hcount : 0 < sampleCount) (e : Endstop) (clock sampleTicks restTicks : UInt32)
    (pin : Bool)
    (triggerReason : UInt8) (es : List (Bool × Bool)) :
    let r := (e.home clock sampleTicks sampleCount restTicks pin triggerReason).run es
    (∀ reason, r.2 = some reason ↔
      reason = triggerReason ∧ ∃ es', es' <+: es ∧ (Samples.all pin es').streak = sampleCount.toNat) ∧
    (r.2 = none → r.1.waketime = clock + UInt32.ofNat (Samples.all pin es).misses * restTicks +
      UInt32.ofNat (Samples.all pin es).streak * sampleTicks) := by
  intro r
  have hsampled : e.home clock sampleTicks sampleCount restTicks pin triggerReason =
      (e.home clock sampleTicks sampleCount restTicks pin triggerReason).sampled ⟨0, 0⟩ e.nextwake := by
    simp [Endstop.sampled, Endstop.home]
  have hshort : 0 < sampleCount.toNat := UInt8.lt_iff_toNat_lt.mp hcount
  have hrun : ∀ reason, _ := fun reason => @run_spec
    (e.home clock sampleTicks sampleCount restTicks pin triggerReason) ⟨0, 0⟩ e.nextwake reason es hshort
    fun h => absurd h (lt_irrefl 0)
  rw [← hsampled] at hrun
  refine ⟨fun reason => (hrun reason).1, fun hnone => ?_⟩
  obtain ⟨next, hend⟩ := (hrun 0).2 hnone
  exact congrArg Endstop.waketime hend

theorem endstop_triggers_iff_concreteCase :
    ((Endstop.mk 0 false 0 0 0 false 0 0 0).home 100 5 2 30 true 1 |>.run
      [(false, false), (true, true), (true, false), (true, true), (false, true)]).2 = some 1 :=
  ((endstop_triggers_iff (by decide) (Endstop.mk 0 false 0 0 0 false 0 0 0) 100 5 30 true 1
    [(false, false), (true, true), (true, false), (true, true), (false, true)]).1 1).mpr
    ⟨rfl, _, List.prefix_rfl, by decide⟩

end Endstops

end Cxsw.Homing
