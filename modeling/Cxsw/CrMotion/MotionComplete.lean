import Cxsw.CrMotion.CalcTicks

/-!
# Cxsw.CrMotion.MotionComplete — is the motion complete? (`CrMotion/CrMotionPlanner.cpp`)

`IsMotionComplete` reads the FIFO, the line in `Substance` and the ring, in this order.  Work moves the other way round,
from the ring to `Substance` and from there into the FIFO, so that each of the three may be empty when it is read
although they are never empty together.

* `CompleteStep`: the call beside `Calc` and the interrupt, statement by statement.
* `NothingLeft`: whatever `Calc` and the interrupt do, no record is written or taken any more.
* `motionComplete_sound`: what has to hold between the reads for the answer to be right.
* `complete_too_early`: a line that is generated during the call.
-/

namespace Cxsw.Motion

open Fifo

/-! ## The call -/

section Defs

/-- Where `IsMotionComplete` stands. -/
inductive CompletePc
  | idle
  /-- The FIFO was empty. -/
  | fifoEmpty
  /-- The line in `Substance` was complete. -/
  | lineComplete
  deriving DecidableEq

/-- `Calc` and what it shares, the call, and its last answer. -/
structure MotionComplete where
  ticks : CalcTicks
  pc : CompletePc
  answer : Bool

def initComplete : MotionComplete := ⟨initTicks, .idle, false⟩

/-- Whose statement is next. -/
inductive CompleteAct
  | tick (a : TickAct)
  /-- The next read of the call. -/
  | check

/-- The next read. -/
def checkStatement (s : MotionComplete) : MotionComplete :=
  match s.pc with
  | .idle =>
    if commonIsEmptyFifo s.ticks.fifo = 0 then { s with answer := false } else { s with pc := .fifoEmpty }
  | .fifoEmpty =>
    if s.ticks.substance.line.usable = false then { s with pc := .lineComplete }
    else { s with pc := .idle, answer := false }
  | .lineComplete => { s with pc := .idle, answer := isPlanLineBuffEmpty s.ticks.ring }

/-- The state after a statement. -/
def completeAct (s : MotionComplete) : CompleteAct → MotionComplete
  | .tick a => { s with ticks := tickAct s.ticks a }
  | .check => checkStatement s

/-- The statements of `Calc` and of the interrupt. -/
def Running : TickAct → Prop
  | .statement _ | .interrupt => True
  | _ => False

/-- During the call no line is planned or discarded. -/
def Allowed (s : MotionComplete) : CompleteAct → Prop
  | .tick a => s.pc = .idle ∨ Running a
  | .check => True

/-- The same as a relation. -/
def CompleteStep (s : MotionComplete) (a : CompleteAct) (t : MotionComplete) : Prop :=
  Guarded (fun s a t => t = completeAct s a) Allowed s a t

def RunningStep (s : CalcTicks) (a : TickAct) (t : CalcTicks) : Prop := t = tickAct s a ∧ Running a

/-- All pulses have been taken: without another line no record is written, and the interrupt finds none. -/
def NothingLeft (s : CalcTicks) : Prop :=
  ∀ acts t, Run RunningStep s acts t → (∀ a, Running a → enqueues t a = none) ∧ (commonReadFifo t.fifo 1).1 = -2

/-- The answer is right, if it is that the motion is complete. -/
def Sound (s : MotionComplete) : CompleteAct → Prop
  | .check => s.pc = .lineComplete → isPlanLineBuffEmpty s.ticks.ring = true → NothingLeft s.ticks
  | .tick _ => True

/-- The FIFO is empty, and `Calc` has neither a line nor a record under way. -/
def AtRest (s : CalcTicks) : Prop :=
  s.fifo.fifoLeftSlot = s.fifo.fifolen ∧ ¬s.pc.Getting ∧ ¬s.pc.Fetched ∧ ¬s.pc.Passing

instance (a : TickAct) : Decidable (Running a) :=
  match a with
  | .statement _ | .interrupt => isTrue trivial
  | .plan _ | .clearFlag | .clearHead | .discard | .rst _ => isFalse id

instance (s : MotionComplete) (a : CompleteAct) : Decidable (Allowed s a) := by
  cases a <;> unfold Allowed <;> infer_instance

instance (s : CalcTicks) : Decidable (AtRest s) := by
  unfold AtRest
  infer_instance

/-- Where the line in `Substance` is found complete, `Calc` is still at rest; and it takes no line before the ring is
read. -/
def CompleteOk (s : MotionComplete) : CompleteAct → Prop
  | .check => s.pc = .fifoEmpty → s.ticks.substance.line.usable = false → AtRest s.ticks
  | .tick (.statement _) => s.pc = .lineComplete → s.ticks.pc ≠ .advancing
  | _ => True

instance (s : MotionComplete) (a : CompleteAct) : Decidable (CompleteOk s a) :=
  match a with
  | .check => inferInstanceAs (Decidable (s.pc = .fifoEmpty → s.ticks.substance.line.usable = false → AtRest s.ticks))
  | .tick (.statement _) => inferInstanceAs (Decidable (s.pc = .lineComplete → s.ticks.pc ≠ .advancing))
  | .tick (.plan _) | .tick .clearFlag | .tick .clearHead | .tick .discard | .tick (.rst _) | .tick .interrupt =>
    isTrue trivial

end Defs

/-! ## Rest -/

section Rest

/-- The ring is empty, and there is no line in `Substance` either. -/
structure Settled (s : CalcTicks) : Prop where
  ring : isPlanLineBuffEmpty s.ring = true
  line : s.substance.line.usable = false
  rest : AtRest s

theorem read_empty {f : CommonFiFo} (h : f.fifoLeftSlot = f.fifolen) : commonReadFifo f 1 = (-2, [], f) := by
  have hnone : u32Sub f.fifolen f.fifoLeftSlot = 0 := by
    unfold u32Sub
    rw [h]
    omega
  unfold commonReadFifo
  rw [hnone, if_pos Nat.zero_lt_one]

theorem interrupt_empty {s : CalcTicks} (h : s.fifo.fifoLeftSlot = s.fifo.fifolen) : tickAct s .interrupt = s := by
  rw [tickAct_interrupt, read_empty h]
  rfl

/-- At rest `Calc` walks around without a line. -/
theorem Settled.statement {s : CalcTicks} (h : Settled s) (n : ℕ) : Settled (calcStatement n s) := by
  obtain ⟨hring, hline, hfifo, hget, hfetch, hpass⟩ := h
  unfold calcStatement
  cases hpc : s.pc with
  | outside => exact ⟨hring, hline, hfifo, id, id, id⟩
  | head =>
    rw [if_pos (Or.inl ⟨hring, hline⟩)]
    exact ⟨hring, hline, hfifo, id, id, id⟩
  | current =>
    rw [hline]
    exact ⟨hring, hline, hfifo, id, id, id⟩
  | next =>
    rw [hring]
    exact ⟨hring, hline, hfifo, id, id, id⟩
  | entered =>
    rw [hline]
    exact ⟨hring, hline, hfifo, id, id, id⟩
  | preparing => exact absurd (by rw [hpc]; trivial) hfetch
  | turning => exact absurd (by rw [hpc]; trivial) hpass
  | writing record => exact absurd (by rw [hpc]; trivial) hpass
  | storing record => exact absurd (by rw [hpc]; trivial) hpass
  | _ => exact absurd (by rw [hpc]; trivial) hget

theorem Settled.step {s t : CalcTicks} {a : TickAct} (h : Settled s) (hstep : RunningStep s a t) : Settled t := by
  obtain ⟨rfl, ha⟩ := hstep
  cases a with
  | statement n => exact h.statement n
  | interrupt => rwa [interrupt_empty h.rest.1]
  | _ => exact ha.elim

theorem Settled.nothingLeft {s : CalcTicks} (h : Settled s) : NothingLeft s := by
  intro acts t hrun
  have ht : Settled t := hrun.invariant h fun _ _ _ hu hstep => hu.step hstep
  refine ⟨fun a _ => ?_, ?_⟩
  · cases a with
    | statement n =>
      unfold enqueues
      cases hpc : t.pc with
      | storing record => exact absurd (by rw [hpc]; trivial) ht.rest.2.2.2
      | _ => rfl
    | _ => rfl
  · rw [read_empty ht.rest.1]

end Rest

/-! ## The answer -/

section Answer

/-- Since the line was found complete: `Calc` may be fetching the next one, which is still in the ring. -/
structure Quiet (s : CalcTicks) : Prop where
  fifo : s.fifo.fifoLeftSlot = s.fifo.fifolen
  getting : s.pc.Getting → isPlanLineBuffEmpty s.ring = false
  line : s.substance.line.usable = true → s.pc.Fetched
  passing : ¬s.pc.Passing
  preparing : s.pc ≠ .preparing

theorem getting_of_fetched {pc : CalcPc} (h : pc.Fetched) (hprep : pc ≠ .preparing) : pc.Getting := by
  cases pc with
  | preparing => exact absurd rfl hprep
  | marking => trivial
  | advancing => trivial
  | _ => exact h.elim

theorem Quiet.settled {s : CalcTicks} (h : Quiet s) (hring : isPlanLineBuffEmpty s.ring = true) : Settled s := by
  have hget : ¬s.pc.Getting := by
    intro hget
    have hne := h.getting hget
    rw [hring] at hne
    cases hne
  have hfetch : ¬s.pc.Fetched := fun hf => hget (getting_of_fetched hf h.preparing)
  exact ⟨hring, Bool.eq_false_iff.mpr fun hu => hfetch (h.line hu), h.fifo, hget, hfetch, h.passing⟩

theorem AtRest.quiet {s : CalcTicks} (h : AtRest s) (hline : s.substance.line.usable = false) : Quiet s := by
  obtain ⟨hfifo, hget, hfetch, hpass⟩ := h
  refine ⟨hfifo, fun hg => absurd hg hget, fun hu => ?_, hpass, fun hpc => hfetch (by rw [hpc]; trivial)⟩
  rw [hline] at hu
  cases hu

/-- **A statement of `Calc`** after the line was found complete. -/
theorem Quiet.statement {s : CalcTicks} (h : Quiet s) (n : ℕ) (hok : s.pc ≠ .advancing) :
    Quiet (calcStatement n s) := by
  obtain ⟨hfifo, hget, hline, hpass, hprep⟩ := h
  have hfalse : ¬s.pc.Fetched → s.substance.line.usable = false := fun hf =>
    Bool.eq_false_iff.mpr fun hu => hf (hline hu)
  unfold calcStatement
  cases hpc : s.pc with
  | outside =>
    rw [hpc] at hline
    exact ⟨hfifo, fun h => h.elim, hline, id, nofun⟩
  | head =>
    rw [hpc] at hline
    dsimp only
    split_ifs <;> exact ⟨hfifo, fun h => h.elim, hline, id, nofun⟩
  | current =>
    rw [hfalse (by rw [hpc]; exact id)]
    rw [hpc] at hline
    exact ⟨hfifo, fun h => h.elim, hline, id, nofun⟩
  | next =>
    rw [hpc] at hline
    dsimp only
    split_ifs with hempty
    · exact ⟨hfifo, fun h => h.elim, hline, id, nofun⟩
    · exact ⟨hfifo, fun _ => Bool.eq_false_iff.mpr hempty, hline, id, nofun⟩
  | checking =>
    have hne := hget (by rw [hpc]; trivial)
    rw [hpc] at hline
    dsimp only
    split_ifs
    · exact ⟨hfifo, fun _ => hne, hline, id, nofun⟩
    · exact ⟨hfifo, fun h => h.elim, hline, id, nofun⟩
  | taking =>
    have hne := hget (by rw [hpc]; trivial)
    rw [hpc] at hline
    exact ⟨hfifo, fun _ => hne, hline, id, nofun⟩
  | copying =>
    have hne := hget (by rw [hpc]; trivial)
    exact ⟨hfifo, fun _ => hne, fun _ => trivial, id, nofun⟩
  | marking =>
    have hne := hget (by rw [hpc]; trivial)
    exact ⟨hfifo, fun _ => hne, fun _ => trivial, id, nofun⟩
  | advancing => exact absurd hpc hok
  | preparing => exact absurd hpc hprep
  | entered =>
    rw [hfalse (by rw [hpc]; exact id)]
    rw [hpc] at hline
    exact ⟨hfifo, fun h => h.elim, hline, id, nofun⟩
  | turning => exact absurd (by rw [hpc]; trivial) hpass
  | writing record => exact absurd (by rw [hpc]; trivial) hpass
  | storing record => exact absurd (by rw [hpc]; trivial) hpass

/-- **The invariant.** -/
def CompleteInv (s : MotionComplete) : Prop := s.pc = .lineComplete → Quiet s.ticks

theorem completeInv_step {s t : MotionComplete} {a : CompleteAct} (h : CompleteInv s) (hstep : CompleteStep s a t)
    (hok : CompleteOk s a) : CompleteInv t := by
  obtain ⟨rfl, hallowed⟩ := hstep
  intro hpc
  cases a with
  | check =>
    unfold completeAct checkStatement at hpc ⊢
    cases hs : s.pc with
    | idle =>
      rw [hs] at hpc
      dsimp only at hpc
      split_ifs at hpc
    | fifoEmpty =>
      rw [hs] at hpc
      dsimp only at hpc ⊢
      split_ifs at hpc ⊢ with hline
      exact (hok hs hline).quiet hline
    | lineComplete =>
      rw [hs] at hpc
      cases hpc
  | tick a =>
    have hs : s.pc = .lineComplete := hpc
    have hquiet := h hs
    have hrun : Running a := by
      obtain hidle | hrun := hallowed
      · rw [hs] at hidle
        cases hidle
      · exact hrun
    show Quiet (tickAct s.ticks a)
    cases a with
    | statement n => exact hquiet.statement n (hok hs)
    | interrupt => rwa [interrupt_empty hquiet.fifo]
    | _ => exact hrun.elim

/-- **A motion that is found complete is complete**, where `Calc` is at rest when the line in `Substance` is found
complete, and takes no line before the ring is read. -/
theorem motionComplete_sound {s : MotionComplete} {acts : List CompleteAct}
    (h : Run (Guarded CompleteStep CompleteOk) initComplete acts s) :
    Run (fun s a t => CompleteStep s a t ∧ Sound s a) initComplete acts s := by
  refine (h.mono_of_invariant (I := CompleteInv) (fun hpc => by cases hpc) fun s a t hs hstep => ?_).1
  refine ⟨completeInv_step hs hstep.1 hstep.2, hstep.1, ?_⟩
  cases a with
  | check => exact fun hpc hring => ((hs hpc).settled hring).nothingLeft
  | tick a => trivial

/-- A line of one step. -/
def oneStep : PlanLine := { ramp with axis := fun a => { ramp.axis a with steps := if a = .X then 1 else 0 } }

/-- The line is planned, and `Calc` generates it in 18 statements, `during` of them between the first two reads. -/
def completeRun (before during : ℕ) : List CompleteAct :=
  .tick (.plan oneStep) :: List.replicate before (.tick (.statement 256)) ++ [.tick .interrupt, .check] ++
    List.replicate during (.tick (.statement 256)) ++ [.check]

/-- The line is generated and executed before the call. -/
theorem motionComplete_sound_before :
    Run (fun s a t => CompleteStep s a t ∧ Sound s a) initComplete (completeRun 18 0 ++ [.check])
      ((completeRun 18 0 ++ [CompleteAct.check]).foldl completeAct initComplete) := by
  refine motionComplete_sound ((run_congr (fun _ _ _ => and_assoc) _ _ _).mpr (Run.of_allSteps ?_))
  decide +kernel

/-- **Complete too early**: the line is generated while the call is between its reads.  When it answers that the motion
is complete, the step is in the FIFO. -/
theorem complete_too_early :
    ∃ s t : MotionComplete, Run CompleteStep initComplete (completeRun 0 18) s ∧ CompleteStep s .check t ∧
      t.answer = true ∧ (commonReadFifo t.ticks.fifo 1).1 = 1 ∧ ¬Sound s .check := by
  refine ⟨_, _, Run.of_allSteps (by decide +kernel), ⟨rfl, trivial⟩, by decide +kernel, by decide +kernel, fun h => ?_⟩
  have hleft := (h (by decide +kernel) (by decide +kernel) [] _ (Run.nil _)).2
  exact absurd hleft (by decide +kernel)

end Answer

end Cxsw.Motion
