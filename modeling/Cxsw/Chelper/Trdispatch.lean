import Mathlib.Data.List.Infix
import Cxsw.Mcu.Homing

/-!
# Cxsw.Chelper.Trdispatch — homing with several microcontrollers (`trdispatch.c`, `src/trsync.c`)

The steppers that an end stop is to stop may be connected to several microcontrollers.  Each has a `trsync`; the host
hears their reports, and tells all of them to trigger when one of them did.  Commands and reports arrive in order,
sooner or later; that a report is lost, and comes again with the next one, is left out.

* `Dispatch`, `handleTrsyncState`: the code, with the commands and the reports that are under way.
* `Sync.Moves`: what an event does to a `trsync` that it does not start.
* `all_or_none`: when nothing is under way any more, either all have triggered or none has.
-/

namespace Cxsw.Homing

/-! ## The code -/

section Defs

/-- `struct trdispatch_mcu` with its microcontroller: the commands under way, and how many reports have come. -/
structure Mcu where
  world : World
  down : List Event
  read : ℕ

/-- `struct trdispatch`. -/
structure Dispatch where
  canTrigger : Bool
  mcu : ℕ → Mcu

namespace Dispatch

def send (d : Dispatch) (i : ℕ) (e : Event) : Dispatch :=
  { d with mcu := Function.update d.mcu i { d.mcu i with down := (d.mcu i).down ++ [e] } }

/-- `handle_trsync_state`; `extended` are the timeouts that the estimates of the clocks give. -/
def handleTrsyncState (tdmList : List ℕ) (oid : ℕ → ℕ) (dispatchReason : UInt8) (d : Dispatch) (state : TrsyncState)
    (extended : List (ℕ × UInt32)) : Dispatch :=
  if ¬ d.canTrigger then d
  else if ¬ state.canTrigger then
    tdmList.foldl (fun d m => d.send m (.trigger (oid m) dispatchReason)) { d with canTrigger := false }
  else extended.foldl (fun d m => d.send m.1 (.setTimeout (oid m.1) m.2)) d

end Dispatch

/-- The commands that do not start a `trsync` again. -/
def Event.Keeps : Event → Prop
  | .start _ _ _ _ | .shutdown _ => False
  | _ => True

/-- What a microcontroller does by itself. -/
def Event.Own : Event → Prop
  | .doTrigger _ _ | .expire _ | .report _ | .task _ _ | .send _ => True
  | _ => False

inductive DispatchLabel
  | command (i : ℕ)
  | event (i : ℕ) (e : Event)
  | stop (i : ℕ) (reason : UInt8)
  | arrive (i : ℕ) (extended : List (ℕ × UInt32))

/-- A command arrives, a microcontroller goes on by itself, the host stops one of them, or a report arrives. -/
inductive DispatchStep (tdmList : List ℕ) (oid : ℕ → ℕ)
    (dispatchReason : UInt8) : Dispatch → DispatchLabel → Dispatch → Prop
  | command {d : Dispatch} {i : ℕ} {e : Event} {down : List Event} {w : World} (hdown : (d.mcu i).down = e :: down)
      (hstep : (d.mcu i).world.step e = some w) :
      DispatchStep tdmList oid dispatchReason d (.command i)
        { d with mcu := Function.update d.mcu i ⟨w, down, (d.mcu i).read⟩ }
  | event {d : Dispatch} {i : ℕ} {e : Event} {w : World} (hown : e.Own) (hstep : (d.mcu i).world.step e = some w) :
      DispatchStep tdmList oid dispatchReason d (.event i e)
        { d with mcu := Function.update d.mcu i { d.mcu i with world := w } }
  | stop {d : Dispatch} (i : ℕ) (reason : UInt8) :
      DispatchStep tdmList oid dispatchReason d (.stop i reason) (d.send i (.trigger (oid i) reason))
  | arrive {d : Dispatch} {i : ℕ} {state : TrsyncState} {extended : List (ℕ × UInt32)}
      (hstate : ((d.mcu i).world.sync (oid i)).reports[(d.mcu i).read]? = some state) :
      DispatchStep tdmList oid dispatchReason d (.arrive i extended)
        (Dispatch.handleTrsyncState tdmList oid dispatchReason
          { d with mcu := Function.update d.mcu i { d.mcu i with read := (d.mcu i).read + 1 } } state extended)

/-- A `trsync` that was stopped, or not yet used. -/
structure Sync.Idle (c : Sync) : Prop where
  canTrigger : c.ts.canTrigger = false
  report : c.ts.report = false
  reportTime : c.ts.reportTime = none
  reports : c.reports = []
  sending : c.sending = none

/-- It was started, and has triggered. -/
def Sync.Triggered (c : Sync) : Prop := c.started = true ∧ c.ts.canTrigger = false

/-- Each of its steppers was stopped once, with the reason of the first trigger. -/
def Sync.StoppedOnce (c : Sync) : Prop :=
  c.joined.Nodup ∧ c.calls.head? = some c.ts.triggerReason ∧
    c.stopped = c.joined.map fun s => (s, c.ts.triggerReason)

/-- No command is under way, and every report was sent and has come. -/
def Mcu.Settled (m : Mcu) (oid : ℕ) : Prop :=
  m.down = [] ∧ (m.world.sync oid).ts.report = false ∧ (m.world.sync oid).sending = none ∧
    m.read = (m.world.sync oid).reports.length

/-- The host has sent the commands that start the `trsync` of a microcontroller. -/
def Mcu.Begins (m : Mcu) (oid : ℕ) : Prop :=
  (∃ reportClock reportTicks expireReason down,
    m.down = .start oid reportClock reportTicks expireReason :: down ∧ ∀ e ∈ down, e.Keeps) ∧
  (m.world.sync oid).Idle ∧ m.read = 0

end Defs

/-! ## What an event does to a `trsync` -/

section Moves

variable {w w' : World} {c c' c'' : Sync} {e : Event} {oid o : ℕ} {reason : UInt8}

/-- The host is told, or is going to be, once it has triggered. -/
def Sync.Told (c : Sync) : Prop := c.ts.canTrigger = false → c.Reported

structure Sync.Moves (c c' : Sync) : Prop where
  reports : c.reports <+: c'.reports
  started : c.started = true → c'.started = true
  triggered : c.ts.canTrigger = false → c'.ts.canTrigger = false
  told : c.Told → c'.Told

theorem Sync.Moves.refl (c : Sync) : c.Moves c := ⟨List.prefix_rfl, id, id, id⟩

theorem Sync.Moves.trans (h : c.Moves c') (h' : c'.Moves c'') : c.Moves c'' :=
  ⟨h.reports.trans h'.reports, h'.started ∘ h.started, h'.triggered ∘ h.triggered, h'.told ∘ h.told⟩

theorem moves_update {sync : ℕ → Sync} (hc : (sync oid).Moves c)
    (o : ℕ) : (sync o).Moves (Function.update sync oid c o) := by
  by_cases ho : o = oid
  · rw [ho, Function.update_self]
    exact hc
  · rw [Function.update_of_ne ho]
    exact Sync.Moves.refl _

theorem doTrigger_moves (w : World) (oid : ℕ) (reason : UInt8) (o : ℕ) :
    (w.sync o).Moves ((w.doTrigger oid reason).sync o) := by
  simp only [World.doTrigger]
  split_ifs
  · refine moves_update ?_ o
    exact ⟨List.prefix_rfl, id, fun _ => rfl, fun _ _ => Or.inl rfl⟩
  · refine moves_update ?_ o
    exact ⟨List.prefix_rfl, id, id, id⟩

theorem change_moves (w : World) {f : Trsync → Trsync}
    (hcan : (f (w.sync oid).ts).canTrigger = (w.sync oid).ts.canTrigger)
    (hreport : (w.sync oid).ts.report = true → (f (w.sync oid).ts).report = true) (o : ℕ) :
    (w.sync o).Moves ((w.change oid f).sync o) := by
  unfold World.change
  refine moves_update ?_ o
  refine ⟨List.prefix_rfl, id, fun h => hcan.trans h, fun h hc => ?_⟩
  exact (h (hcan.symm.trans hc)).imp_left hreport

/-- The command triggers, and reports it at once. -/
theorem trigger_spec (w : World) (oid : ℕ) (reason : UInt8) :
    ((w.trigger oid reason).sync oid).ts.canTrigger = false ∧
      ∀ o, (w.sync o).Moves ((w.trigger oid reason).sync o) := by
  unfold World.trigger World.change
  simp only [Function.update_idem, Function.update_self]
  refine ⟨trivial, fun o => (doTrigger_moves w oid reason o).trans (moves_update ?_ o)⟩
  refine ⟨List.prefix_append _ _, id, fun _ => rfl, fun _ _ => ?_⟩
  exact Or.inr ⟨_, List.mem_append_left _ (List.mem_append_right _ List.mem_cons_self), rfl⟩

theorem task_moves (w : World) (oid : ℕ) (time : UInt32) (o : ℕ) : (w.sync o).Moves ((w.task oid time).sync o) := by
  simp only [World.task]
  split_ifs
  · refine moves_update ?_ o
    exact ⟨List.prefix_rfl, id, id, fun _ hc => Or.inr ⟨_, List.mem_append_right _ List.mem_cons_self, hc⟩⟩
  · exact Sync.Moves.refl _

theorem sendReport_moves (w : World) (oid o : ℕ) : (w.sync o).Moves ((w.sendReport oid).sync o) := by
  unfold World.sendReport
  refine moves_update ?_ o
  refine ⟨List.prefix_append _ _, id, id, fun h hc => ?_⟩
  unfold Sync.Reported
  rw [said_sendReport]
  exact h hc

/-- The event that comes. -/
theorem step_effect (h : w.step e = some w') : w.effect e = some w' := by
  unfold World.step at h
  split_ifs at h
  exact h

theorem step_moves (he : e.Keeps) (h : w.step e = some w') (o : ℕ) : (w.sync o).Moves (w'.sync o) := by
  have h' := step_effect h
  cases e with
  | start oid reportClock reportTicks expireReason => exact he.elim
  | shutdown oids => exact he.elim
  | setTimeout oid clock =>
    obtain rfl := Option.some.inj h'
    refine change_moves w ?_ ?_ o <;> split_ifs <;> simp
  | trigger oid reason =>
    obtain rfl := Option.some.inj h'
    exact (trigger_spec w oid reason).2 o
  | signal oid tss =>
    simp only [World.effect, World.addSignal] at h'
    split_ifs at h'
    all_goals
      obtain rfl := Option.some.inj h'
      refine moves_update ?_ o
      exact ⟨List.prefix_rfl, id, id, id⟩
  | doTrigger oid reason =>
    obtain rfl := Option.some.inj h'
    exact doTrigger_moves w oid reason o
  | expire oid =>
    simp only [World.effect] at h'
    split_ifs at h'
    obtain rfl := Option.some.inj h'
    exact (doTrigger_moves w oid _ o).trans (change_moves _ rfl id o)
  | report oid =>
    simp only [World.effect] at h'
    split_ifs at h'
    obtain rfl := Option.some.inj h'
    exact change_moves w rfl (fun _ => rfl) o
  | task oid time =>
    obtain rfl := Option.some.inj h'
    exact task_moves w oid time o
  | send oid =>
    simp only [World.effect] at h'
    split_ifs at h'
    obtain rfl := Option.some.inj h'
    exact sendReport_moves w oid o

/-- An idle `trsync` does not trigger. -/
theorem doTrigger_idle (oid : ℕ) (reason : UInt8)
    (hidle : (w.sync o).Idle) : ((w.doTrigger oid reason).sync o).Idle := by
  simp only [World.doTrigger]
  by_cases ho : o = oid
  · subst ho
    split_ifs with h
    · exact absurd (h.symm.trans hidle.canTrigger) (by decide)
    · simp only [Function.update_self]
      exact ⟨hidle.canTrigger, hidle.report, hidle.reportTime, hidle.reports, hidle.sending⟩
  · split_ifs <;> simp only [Function.update_of_ne ho] <;> exact hidle

/-- An idle `trsync` stays so until it is started. -/
theorem own_idle (he : e.Own) (h : w.step e = some w') (hidle : (w.sync o).Idle) : (w'.sync o).Idle := by
  have h' := step_effect h
  cases e with
  | start | setTimeout | trigger | signal | shutdown => exact he.elim
  | doTrigger oid reason =>
    obtain rfl := Option.some.inj h'
    exact doTrigger_idle oid reason hidle
  | expire oid =>
    simp only [World.effect] at h'
    split_ifs at h'
    obtain rfl := Option.some.inj h'
    unfold World.expireEvent World.change
    have hsame := doTrigger_idle oid (w.sync oid).ts.expireReason hidle
    by_cases ho : o = oid
    · subst ho
      simp only [Function.update_self]
      exact ⟨hsame.canTrigger, hsame.report, hsame.reportTime, hsame.reports, hsame.sending⟩
    · simp only [Function.update_of_ne ho]
      exact hsame
  | report oid =>
    simp only [World.effect] at h'
    split_ifs at h' with htime
    obtain rfl := Option.some.inj h'
    have ho : o ≠ oid := by
      rintro rfl
      rw [hidle.reportTime] at htime
      cases htime
    unfold World.reportEvent World.change
    simp only [Function.update_of_ne ho]
    exact hidle
  | task oid time =>
    obtain rfl := Option.some.inj h'
    simp only [World.task]
    split_ifs with hreport
    · have ho : o ≠ oid := by
        rintro rfl
        exact absurd (hreport.symm.trans hidle.report) (by decide)
      simp only [Function.update_of_ne ho]
      exact hidle
    · exact hidle
  | send oid =>
    simp only [World.effect] at h'
    split_ifs at h'
    obtain rfl := Option.some.inj h'
    unfold World.sendReport
    by_cases ho : o = oid
    · subst ho
      simp only [Function.update_self]
      refine ⟨hidle.canTrigger, hidle.report, hidle.reportTime, ?_, rfl⟩
      show (w.sync o).said = []
      simp [Sync.said, hidle.reports, hidle.sending]
    · simp only [Function.update_of_ne ho]
      exact hidle

end Moves

/-! ## Runs -/

section Runs

variable {tdmList : List ℕ} {oid : ℕ → ℕ} {dispatchReason : UInt8} {d d' d'' : Dispatch} {m m' : Mcu} {i o : ℕ}
  {e : Event} {w : World}
  {down : List Event} {reason : UInt8}

/-- The `trsync` is started, and is not going to be again. -/
def Mcu.Started (m : Mcu) : Prop := ∀ e ∈ m.down, e.Keeps

/-- What is kept of one microcontroller. -/
structure Mcu.Good (m : Mcu) (o : ℕ) : Prop where
  phase : m.Begins o ∨ m.Started ∧ (m.world.sync o).Told ∧ (m.world.sync o).started = true
  read : m.read ≤ (m.world.sync o).reports.length
  world : Inv m.world

/-- No report that came said that it had triggered. -/
def Mcu.Quiet (m : Mcu) (o : ℕ) : Prop := ∀ r ∈ (m.world.sync o).reports.take m.read, r.canTrigger = true

/-- It has triggered, or is told to. -/
def Mcu.Triggers (m : Mcu) (o : ℕ) : Prop :=
  (∃ reason, .trigger o reason ∈ m.down) ∨ m.Started ∧ (m.world.sync o).Triggered

/-- What every step does to one microcontroller. -/
structure Mcu.Goes (m m' : Mcu) (o : ℕ) : Prop where
  good : m.Good o → m'.Good o
  quiet : m.Good o → m.Quiet o → m'.Quiet o
  triggers : m.Good o → m.Triggers o → m'.Triggers o

theorem take_of_moves {c c' : Sync} (h : c.Moves c') {n : ℕ}
    (hn : n ≤ c.reports.length) : c'.reports.take n = c.reports.take n := by
  obtain ⟨rest, hrest⟩ := h.reports
  rw [← hrest, List.take_append_of_le_length hn]

theorem own_keeps (he : e.Own) : e.Keeps := by
  cases e with
  | start | setTimeout | trigger | signal | shutdown => exact he.elim
  | doTrigger | expire | report | task | send => trivial

theorem event_goes (he : e.Own) (h : m.world.step e = some w) : m.Goes { m with world := w } o := by
  have hmoves := step_moves (own_keeps he) h o
  refine ⟨fun hg => ⟨?_, hg.read.trans hmoves.reports.length_le, hg.world.step h⟩, fun hg hquiet => ?_,
    fun _ => Or.imp_right fun ht => ⟨ht.1, hmoves.started ht.2.1, hmoves.triggered ht.2.2⟩⟩
  · rcases hg.phase with ⟨hdown, hidle, hread⟩ | ⟨hdown, htold, hstarted⟩
    · exact Or.inl ⟨hdown, own_idle he h hidle, hread⟩
    · exact Or.inr ⟨hdown, hmoves.told htold, hmoves.started hstarted⟩
  · unfold Mcu.Quiet
    rw [take_of_moves hmoves hg.read]
    exact hquiet

/-- A command of one that is started. -/
theorem command_goes (hdown : m.down = e :: down) (h : m.world.step e = some w) : m.Goes ⟨w, down, m.read⟩ o := by
  have hbegin : m.Begins o → (w.sync o).ts.canTrigger = true ∧ (w.sync o).started = true ∧ (w.sync o).reports = [] ∧
      (∀ e ∈ down, e.Keeps) ∧ m.read = 0 ∧ ¬ e.Keeps := by
    rintro ⟨⟨reportClock, reportTicks, expireReason, down', hdown', hkeeps⟩, -, hread⟩
    obtain ⟨rfl, rfl⟩ := List.cons.inj (hdown.symm.trans hdown')
    obtain rfl := Option.some.inj (step_effect h)
    unfold World.trsyncStart World.clear
    simp only [Function.update_self]
    exact ⟨trivial, trivial, rfl, hkeeps, hread, id⟩
  have hstart : m.Started → e.Keeps ∧ ∀ e ∈ down, e.Keeps := fun hs =>
    List.forall_mem_cons.mp (show ∀ x ∈ e :: down, x.Keeps from hdown ▸ hs)
  refine ⟨fun hg => ?_, fun hg hquiet => ?_, fun hg htriggers => ?_⟩
  · rcases hg.phase with hb | ⟨hs, htold, hstarted⟩
    · obtain ⟨hcan, hstarted, -, hkeeps, hread, -⟩ := hbegin hb
      refine ⟨Or.inr ⟨hkeeps, fun hc => absurd (hcan.symm.trans hc) (by decide), hstarted⟩, ?_, hg.world.step h⟩
      exact hread.trans_le (Nat.zero_le _)
    · have hmoves := step_moves (hstart hs).1 h o
      exact ⟨Or.inr ⟨(hstart hs).2, hmoves.told htold, hmoves.started hstarted⟩,
        hg.read.trans hmoves.reports.length_le, hg.world.step h⟩
  · rcases hg.phase with hb | ⟨hs, -⟩
    · intro r hr
      rw [(hbegin hb).2.2.1, List.take_nil] at hr
      exact absurd hr List.not_mem_nil
    · unfold Mcu.Quiet
      rw [take_of_moves (step_moves (hstart hs).1 h o) hg.read]
      exact hquiet
  · have hkeeps : ∀ e ∈ down, e.Keeps := by
      rcases hg.phase with hb | ⟨hs, -⟩
      · exact (hbegin hb).2.2.2.1
      · exact (hstart hs).2
    rcases htriggers with ⟨reason, hmem⟩ | ⟨hs, hstarted, hcan⟩
    · rw [hdown] at hmem
      rcases List.mem_cons.mp hmem with rfl | hmem
      · -- it is started already, as the command that starts it would come first
        have hstarted : (m.world.sync o).started = true := by
          rcases hg.phase with hb | ⟨-, -, hstarted⟩
          · exact absurd trivial (hbegin hb).2.2.2.2.2
          · exact hstarted
        obtain rfl := Option.some.inj (step_effect h)
        obtain ⟨hcan, hmoves⟩ := trigger_spec m.world o reason
        exact Or.inr ⟨hkeeps, (hmoves o).started hstarted, hcan⟩
      · exact Or.inl ⟨reason, hmem⟩
    · have hmoves := step_moves (hstart hs).1 h o
      exact Or.inr ⟨hkeeps, hmoves.started hstarted, hmoves.triggered hcan⟩

theorem send_goes (he : e.Keeps) : m.Goes { m with down := m.down ++ [e] } o := by
  have hstarted : m.Started → ∀ x ∈ m.down ++ [e], x.Keeps := fun hs x hx =>
    (List.mem_append.mp hx).elim (hs x) fun hx => List.mem_singleton.mp hx ▸ he
  refine ⟨fun hg => ⟨?_, hg.read, hg.world⟩, fun _ => id,
    fun _ => Or.imp (fun ⟨reason, hr⟩ => ⟨reason, List.mem_append_left _ hr⟩)
    fun ht => ⟨hstarted ht.1, ht.2⟩⟩
  rcases hg.phase with ⟨⟨a, b, c, down, hdown, hkeeps⟩, hidle, hread⟩ | ⟨hs, htold⟩
  · refine Or.inl ⟨⟨a, b, c, down ++ [e], by rw [hdown]; rfl, fun x hx => ?_⟩, hidle, hread⟩
    exact (List.mem_append.mp hx).elim (hkeeps x) fun hx => List.mem_singleton.mp hx ▸ he
  · exact Or.inr ⟨hstarted hs, htold⟩

/-- What is kept. -/
structure Dispatch.Inv (tdmList : List ℕ) (oid : ℕ → ℕ) (d : Dispatch) : Prop where
  good : ∀ i ∈ tdmList, (d.mcu i).Good (oid i)
  quiet : d.canTrigger = true → ∀ i ∈ tdmList, (d.mcu i).Quiet (oid i)
  triggers : d.canTrigger = false → ∀ i ∈ tdmList, (d.mcu i).Triggers (oid i)

/-- One microcontroller goes on. -/
theorem Dispatch.Inv.update (h : d.Inv tdmList oid) (i : ℕ) (hm : (d.mcu i).Goes m (oid i)) :
    Dispatch.Inv tdmList oid { d with mcu := Function.update d.mcu i m } := by
  have hall : ∀ j, (d.mcu j).Goes (Function.update d.mcu i m j) (oid j) := fun j => by
    by_cases hj : j = i
    · rw [hj, Function.update_self]
      exact hm
    · rw [Function.update_of_ne hj]
      exact ⟨id, fun _ => id, fun _ => id⟩
  exact ⟨fun j hj => (hall j).good (h.good j hj), fun hc j hj => (hall j).quiet (h.good j hj) (h.quiet hc j hj),
    fun hc j hj => (hall j).triggers (h.good j hj) (h.triggers hc j hj)⟩

theorem Dispatch.Inv.send (h : d.Inv tdmList oid) (i : ℕ) (he : e.Keeps) : Dispatch.Inv tdmList oid (d.send i e) :=
  h.update i (send_goes he)

theorem Dispatch.Inv.extended (h : d.Inv tdmList oid) (extended : List (ℕ × UInt32)) :
    Dispatch.Inv tdmList oid (extended.foldl (fun d m => d.send m.1 (.setTimeout (oid m.1) m.2)) d) := by
  induction extended generalizing d with
  | nil => exact h
  | cons x extended ih => exact ih (h.send x.1 trivial)

/-- The host tells all to trigger. -/
theorem foldl_trigger (reason : UInt8) (l : List ℕ) (d : Dispatch) (hgood : ∀ i ∈ tdmList, (d.mcu i).Good (oid i)) :
    let d' := l.foldl (fun d m => d.send m (.trigger (oid m) reason)) d
    d'.canTrigger = d.canTrigger ∧ (∀ i ∈ tdmList, (d'.mcu i).Good (oid i)) ∧
      ∀ i, (i ∈ l ∨ ∃ reason, .trigger (oid i) reason ∈ (d.mcu i).down) →
        ∃ reason, .trigger (oid i) reason ∈ (d'.mcu i).down := by
  induction l generalizing d with
  | nil => exact ⟨rfl, hgood, fun i hi => hi.elim (fun h => absurd h List.not_mem_nil) id⟩
  | cons x l ih =>
    have hsend : ∀ i ∈ tdmList, ((d.send x (.trigger (oid x) reason)).mcu i).Good (oid i) := fun i hi => by
      unfold Dispatch.send
      by_cases hix : i = x
      · subst hix
        simp only [Function.update_self]
        exact (send_goes (e := .trigger (oid i) reason) trivial).good (hgood i hi)
      · simp only [Function.update_of_ne hix]
        exact hgood i hi
    obtain ⟨hcan, hgood', hmem⟩ := ih (d.send x (.trigger (oid x) reason)) hsend
    refine ⟨hcan, hgood', fun i hi => hmem i ?_⟩
    unfold Dispatch.send
    by_cases hix : i = x
    · subst hix
      refine Or.inr ⟨reason, ?_⟩
      simp only [Function.update_self]
      exact List.mem_append_right _ List.mem_cons_self
    · simp only [Function.update_of_ne hix]
      exact hi.imp_left fun h => (List.mem_cons.mp h).resolve_left hix

theorem DispatchStep.inv {l : DispatchLabel} (h : d.Inv tdmList oid)
    (hstep : DispatchStep tdmList oid dispatchReason d l d') :
    d'.Inv tdmList oid := by
  cases hstep with
  | command hdown hw => exact h.update _ (command_goes hdown hw)
  | event hown hw => exact h.update _ (event_goes hown hw)
  | stop i reason => exact h.send i trivial
  | @arrive i state extended hstate =>
    obtain ⟨hlt, -⟩ := List.getElem?_eq_some_iff.mp hstate
    -- the report that comes is one more that was heard
    generalize hd₁ : ({ d with mcu := Function.update d.mcu i { d.mcu i with read := (d.mcu i).read + 1 } } :
      Dispatch) = d₁
    have hcan₁ : d₁.canTrigger = d.canTrigger := by rw [← hd₁]
    have hself : d₁.mcu i = { d.mcu i with read := (d.mcu i).read + 1 } := by
      rw [← hd₁]
      exact Function.update_self _ _ _
    have hother : ∀ j, j ≠ i → d₁.mcu j = d.mcu j := fun j hji => by
      rw [← hd₁]
      exact Function.update_of_ne hji _ _
    have hgood : ∀ j ∈ tdmList, (d₁.mcu j).Good (oid j) := fun j hj => by
      by_cases hji : j = i
      · subst hji
        rw [hself]
        have hg := h.good j hj
        refine ⟨hg.phase.imp_left fun hb => ?_, hlt, hg.world⟩
        rw [hb.2.1.reports] at hlt
        exact absurd hlt (Nat.not_lt_zero _)
      · rw [hother j hji]
        exact h.good j hj
    unfold Dispatch.handleTrsyncState
    by_cases hcan : d.canTrigger = true
    · rw [if_neg (not_not.mpr (hcan₁.trans hcan))]
      by_cases hstill : state.canTrigger = true
      · rw [if_neg (not_not.mpr hstill)]
        refine Dispatch.Inv.extended ⟨hgood, fun _ j hj => ?_, fun hc => ?_⟩ extended
        · have hquiet := h.quiet hcan j hj
          by_cases hji : j = i
          · subst hji
            rw [hself]
            intro r hr
            rw [List.take_add_one, hstate] at hr
            rcases List.mem_append.mp hr with hold | hnew
            · exact hquiet r hold
            · rw [List.mem_singleton.mp hnew]
              exact hstill
          · rw [hother j hji]
            exact hquiet
        · exact absurd ((hcan₁.trans hcan).symm.trans hc) (by decide)
      · rw [if_pos hstill]
        obtain ⟨hfalse, hgood', hmem⟩ := foldl_trigger dispatchReason tdmList { d₁ with canTrigger := false } hgood
        exact ⟨hgood', fun hc => absurd (hfalse.symm.trans hc) Bool.false_ne_true,
          fun _ j hj => Or.inl (hmem j (Or.inl hj))⟩
    · rw [if_pos (hcan₁ ▸ hcan)]
      refine ⟨hgood, fun hc => absurd (hcan₁.symm.trans hc) hcan, fun hc j hj => ?_⟩
      have ht := h.triggers (hcan₁.symm.trans hc) j hj
      by_cases hji : j = i
      · subst hji
        rw [hself]
        exact ht
      · rw [hother j hji]
        exact ht

theorem stoppedOnce_of_good {c : Sync} (h : c.Good) (htriggered : c.Triggered) : c.StoppedOnce := by
  obtain ⟨hstarted, hcan⟩ := htriggered
  refine ⟨h.nodup, ?_, h.triggered hcan⟩
  cases hcalls : c.calls with
  | nil => exact absurd ((h.can.mpr ⟨hstarted, hcalls⟩).symm.trans hcan) (by decide)
  | cons reason rest => rw [h.first hstarted reason (by rw [hcalls]; rfl), List.head?_cons]

/-- **All or none.**  From the commands that start a `trsync` on each microcontroller, in every order in which commands
and reports arrive, timers and end stops trigger and the host stops some: once the host has heard of one that triggered,
all others have triggered or are told to.  When nothing is under way any more, all of them have triggered, and have
stopped each of their steppers once, or none has. -/
theorem all_or_none {d₀ : Dispatch} {ls : List DispatchLabel} (hcan : d₀.canTrigger = true)
    (hbegin : ∀ i ∈ tdmList, (d₀.mcu i).Begins (oid i))
    (hworld : ∀ i ∈ tdmList, ∃ es, Run (fun w e w' => World.step w e = some w') World.start es (d₀.mcu i).world)
    (h : Run (DispatchStep tdmList oid dispatchReason) d₀ ls d) :
    (d.canTrigger = false → ∀ i ∈ tdmList, (∃ reason, .trigger (oid i) reason ∈ (d.mcu i).down) ∨
      (d.mcu i).Started ∧ ((d.mcu i).world.sync (oid i)).Triggered) ∧
    ((∀ i ∈ tdmList, (d.mcu i).Settled (oid i)) →
      (∀ i ∈ tdmList, ((d.mcu i).world.sync (oid i)).ts.canTrigger = true) ∨
      ∀ i ∈ tdmList, ((d.mcu i).world.sync (oid i)).Triggered ∧ ((d.mcu i).world.sync (oid i)).StoppedOnce) := by
  have hinit : d₀.Inv tdmList oid := by
    refine ⟨fun i hi => ⟨Or.inl (hbegin i hi), ?_, ?_⟩, fun _ i hi r hr => ?_,
      fun hc => absurd (hcan.symm.trans hc) (by decide)⟩
    · rw [(hbegin i hi).2.2]
      exact Nat.zero_le _
    · obtain ⟨es, hes⟩ := hworld i hi
      exact hes.invariant inv_start fun _ _ _ hw hstep => hw.step hstep
    · rw [(hbegin i hi).2.1.reports, List.take_nil] at hr
      exact absurd hr List.not_mem_nil
  have hinv : d.Inv tdmList oid := h.invariant hinit fun _ _ _ hd hstep => hstep.inv hd
  refine ⟨fun hc i hi => hinv.triggers hc i hi, fun hquiet => ?_⟩
  by_cases hall : ∀ i ∈ tdmList, ((d.mcu i).world.sync (oid i)).ts.canTrigger = true
  · exact Or.inl hall
  · right
    push Not at hall
    obtain ⟨i, hi, hne⟩ := hall
    -- its report has come, so all others were told
    have hfalse : d.canTrigger = false := by
      obtain ⟨hdown, hreport, hsending, hread⟩ := hquiet i hi
      have htold : ((d.mcu i).world.sync (oid i)).Told := by
        rcases (hinv.good i hi).phase with ⟨⟨a, b, c, down, hstart, -⟩, -⟩ | ⟨-, htold, -⟩
        · rw [hdown] at hstart
          cases hstart
        · exact htold
      rcases htold (Bool.eq_false_iff.mpr hne) with hflag | ⟨r, hr, hrc⟩
      · rw [hreport] at hflag
        cases hflag
      · have hsaid : ((d.mcu i).world.sync (oid i)).said = ((d.mcu i).world.sync (oid i)).reports := by
          simp [Sync.said, hsending]
        rw [hsaid] at hr
        by_contra hc
        have := hinv.quiet (Bool.eq_true_of_not_eq_false hc) i hi r (by rw [hread, List.take_length]; exact hr)
        rw [hrc] at this
        cases this
    intro j hj
    have hj' : ((d.mcu j).world.sync (oid j)).Triggered := by
      rcases hinv.triggers hfalse j hj with ⟨reason, hmem⟩ | ⟨-, hc⟩
      · rw [(hquiet j hj).1] at hmem
        exact absurd hmem List.not_mem_nil
      · exact hc
    exact ⟨hj', stoppedOnce_of_good ((hinv.good j hj).world.good (oid j)) hj'⟩

/-- Two microcontrollers, whose `trsync` the host starts, each with a stepper. -/
def twoMcus : Dispatch := ⟨true, fun _ => ⟨World.start, [.start 3 100 50 4, .signal 3 7], 0⟩⟩

theorem all_or_none_concreteCase : ∃ d ls, Run (DispatchStep [0, 1] (fun _ => 3) 2) twoMcus ls d ∧
    ((d.mcu 1).world.sync 3).stopped = [(7, 2)] ∧
    ((∀ i ∈ [0, 1], ((d.mcu i).world.sync 3).ts.canTrigger = true) ∨
      ∀ i ∈ [0, 1], ((d.mcu i).world.sync 3).Triggered ∧ ((d.mcu i).world.sync 3).StoppedOnce) := by
  have h0 := Run.nil (R := DispatchStep [0, 1] (fun _ => 3) 2) twoMcus
  have h1 := h0.snoc (@DispatchStep.command _ _ _ _ 0 _ _ _ rfl rfl)
  have h2 := h1.snoc (@DispatchStep.command _ _ _ _ 0 _ _ _ rfl rfl)
  have h3 := h2.snoc (@DispatchStep.command _ _ _ _ 1 _ _ _ rfl rfl)
  have h4 := h3.snoc (@DispatchStep.command _ _ _ _ 1 _ _ _ rfl rfl)
  have h5 := h4.snoc (@DispatchStep.stop _ _ _ _ 0 2)
  have h6 := h5.snoc (@DispatchStep.command _ _ _ _ 0 _ _ _ rfl rfl)
  have h7 := h6.snoc (@DispatchStep.arrive _ _ _ _ 0 _ [] rfl)
  have h8 := h7.snoc (@DispatchStep.command _ _ _ _ 0 _ _ _ rfl rfl)
  have h9 := h8.snoc (@DispatchStep.command _ _ _ _ 1 _ _ _ rfl rfl)
  have h10 := h9.snoc (@DispatchStep.arrive _ _ _ _ 0 _ [] rfl)
  have h11 := h10.snoc (@DispatchStep.arrive _ _ _ _ 1 _ [] rfl)
  refine ⟨_, _, h11, rfl, (all_or_none rfl (fun i _ => ?_) (fun i _ => ⟨[], Run.nil _⟩) h11).2 ?_⟩
  · refine ⟨⟨100, 50, 4, [.signal 3 7], rfl, fun e he => ?_⟩, ⟨rfl, rfl, rfl, rfl, rfl⟩, rfl⟩
    rw [List.mem_singleton.mp he]
    trivial
  · refine List.forall_mem_cons.mpr ⟨⟨rfl, rfl, rfl, rfl⟩, List.forall_mem_cons.mpr ⟨⟨rfl, rfl, rfl, rfl⟩, ?_⟩⟩
    exact fun i hi => absurd hi List.not_mem_nil

end Runs

end Cxsw.Homing
