import Cxsw.CrMotion.CalcTicks

/-!
# Cxsw.CrMotion.DiscardLine — the line behind a discarded one (`CrMotion/Bresenham.cpp`)

`DiscardCurrentLine` only clears `Usable`.  The times that the ramps have run, `AccCompletedTime` and
`DecCompletedTime`, go back to zero in the `STOP` branch, which a discarded line does not reach, and `MaxSteps` at the
next call of `Calc`.

* `fresh`: the records that a freshly initialised generator makes of a line.
* `Generation`: the thread, and the records of the line that was fetched last.
* `sameAsFresh_of_clean`: where the times are zero and the search for the longest axis finds what it would find from
  zero, a line gets its own records, whatever was discarded before and wherever.
* `clean_undisturbed`: without a discard it is always so.
* `discard_changes_next`: one discard, and the next line is too fast.
-/

namespace Cxsw.Motion

/-! ## The records of a line -/

section Defs

/-- The generator in a line: its state, `StepInterval`, and the records so far. -/
structure LineRun where
  state : CalcState
  stepInterval : ℕ
  records : List MotionPeriod

/-- A pass.  `StepInterval` is zero in the first one of a call. -/
def LineRun.pass (r : LineRun) (resumed : Bool) : LineRun :=
  let i := if resumed then 0 else r.stepInterval
  ⟨(Motion.pass r.state i).1, (turn r.state i).2, r.records ++ [(Motion.pass r.state i).2]⟩

/-- A freshly initialised generator after these passes of a line. -/
def fresh (line : PlanLine) (resumed : List Bool) : LineRun :=
  resumed.foldl LineRun.pass ⟨fetchLine 0 initCalc line, 0, []⟩

/-- The thread; the line that was fetched last, whether it was taken up, whether a call has begun since its last pass,
for each pass whether it was the first one of a call, and the records. -/
structure Generation where
  ticks : CalcTicks
  line : PlanLine
  takenUp : Bool
  called : Bool
  resumed : List Bool
  records : List MotionPeriod

def initGeneration : Generation := ⟨initTicks, PlanLine.zero, false, false, [], []⟩

/-- The state after a statement. -/
def generationAct (s : Generation) (a : TickAct) : Generation :=
  let ticks := tickAct s.ticks a
  match a with
  | .statement _ =>
    match s.ticks.pc with
    | .outside => { s with ticks := ticks, called := true }
    | .preparing => ⟨ticks, s.ticks.substance.line, ticks.substance.line.usable, false, [], []⟩
    | .turning =>
      if s.ticks.substance.status = .stop then { s with ticks := ticks }
      else
        { s with
          ticks := ticks
          called := false
          resumed := s.resumed ++ [s.called]
          records := s.records ++ [(pass s.ticks.substance s.ticks.stepInterval).2] }
    | _ => { s with ticks := ticks }
  | _ => { s with ticks := ticks }

/-- The same as a relation. -/
def GenerationStep (s : Generation) (a : TickAct) (t : Generation) : Prop := t = generationAct s a

/-- The line is taken up, and makes the same records, in the same phases, as in a freshly initialised generator. -/
def SameAsFresh (s : Generation) : Prop :=
  s.takenUp = (fetchLine 0 initCalc s.line).line.usable ∧ s.records = (fresh s.line s.resumed).records ∧
    (s.ticks.pc = .turning → s.ticks.substance.status = (fresh s.line s.resumed).state.status)

/-- The generator is clean where a line is set up. -/
def FetchClean (s : Generation) : TickAct → Prop
  | .statement _ =>
    s.ticks.pc = .preparing →
      s.ticks.substance.accCompletedTime = 0 ∧ s.ticks.substance.decCompletedTime = 0 ∧
        findLongest s.ticks.substance.line s.ticks.maxSteps = findLongest s.ticks.substance.line 0
  | _ => True

instance (s : Generation) (a : TickAct) : Decidable (FetchClean s a) := by
  cases a <;> unfold FetchClean <;> infer_instance

end Defs

/-! ## A clean generator -/

section Clean

@[simp] theorem setLineUsable_usable (c : CalcState) (b : Bool) : (setLineUsable c b).line.usable = b := rfl

@[simp] theorem setLineUsable_status (c : CalcState) (b : Bool) : (setLineUsable c b).status = c.status := rfl

@[simp] theorem setLineUsable_twice (c : CalcState) (b b' : Bool) :
    setLineUsable (setLineUsable c b) b' = setLineUsable c b' := rfl

theorem setLineUsable_self (c : CalcState) : setLineUsable c c.line.usable = c := rfl

theorem turn_setLineUsable (c : CalcState) (b : Bool) (i : ℕ) :
    turn (setLineUsable c b) i = (setLineUsable (turn c i).1 b, (turn c i).2) := by
  unfold turn
  cases hs : c.status with
  | decelerate =>
    by_cases h : (longest c).steps ≤ c.stepsCount
    · have h' : (longest (setLineUsable c b)).steps ≤ (setLineUsable c b).stepsCount := h
      simp only [setLineUsable_status, hs, if_pos h, if_pos h']
      rfl
    · have h' : ¬(longest (setLineUsable c b)).steps ≤ (setLineUsable c b).stepsCount := h
      simp only [setLineUsable_status, hs, if_neg h, if_neg h']
      rfl
  | stop => simp only [setLineUsable_status, hs]
  | _ =>
    simp only [setLineUsable_status, hs]
    rfl

theorem pass_setLineUsable (c : CalcState) (b : Bool) (i : ℕ) :
    pass (setLineUsable c b) i = (setLineUsable (pass c i).1 b, (pass c i).2) := by
  unfold pass
  rw [turn_setLineUsable]
  rfl

theorem turn_interval {c : CalcState} (h : ¬Overrun c) (i j : ℕ) (hs : c.status ≠ .stop) : turn c i = turn c j := by
  unfold turn
  cases hstatus : c.status with
  | decelerate =>
    have hle : ¬(longest c).steps ≤ c.stepsCount := fun hle => h ⟨hstatus, hle⟩
    simp only [if_neg hle]
  | stop => exact absurd hstatus hs
  | _ => rfl

theorem fetched_not_overrun {line : PlanLine} (h : (fetchLine 0 initCalc line).line.usable = true) :
    ¬Overrun (fetchLine 0 initCalc line) := by
  rintro ⟨-, hle⟩
  have hpos : 0 < (line.axis (findLongest line 0).1).steps := of_decide_eq_true h
  exact absurd (Nat.le_zero.mp hle) hpos.ne'

/-- A clean generator sets a line up as a fresh one does. -/
theorem fetchLine_clean {c : CalcState} {m : ℕ} (hacc : c.accCompletedTime = 0) (hdec : c.decCompletedTime = 0)
    (hlongest : findLongest c.line m = findLongest c.line 0) :
    fetchLine m c c.line = fetchLine 0 initCalc c.line := by
  unfold fetchLine
  rw [hlongest, hacc, hdec]
  rfl

/-- The thread is in the line that was fetched last. -/
def CalcTicks.AtLine (s : CalcTicks) : Prop := (s.substance.line.usable = true ∧ ¬s.pc.Fetched) ∨ s.pc.Passing

/-- **The invariant.** -/
structure Agrees (s : Generation) : Prop where
  taken : s.takenUp = (fetchLine 0 initCalc s.line).line.usable
  records : s.records = (fresh s.line s.resumed).records
  takenUp : s.ticks.AtLine → s.takenUp = true
  state : s.ticks.AtLine →
    s.ticks.substance = setLineUsable (fresh s.line s.resumed).state s.ticks.substance.line.usable
  interval : s.ticks.AtLine → s.resumed ≠ [] →
    s.ticks.stepInterval = if s.called then 0 else (fresh s.line s.resumed).stepInterval

theorem not_atLine_init : ¬initTicks.AtLine := by
  rintro (⟨h, -⟩ | h)
  · cases h
  · exact h

theorem agrees_init : Agrees initGeneration where
  taken := rfl
  records := rfl
  takenUp h := absurd h not_atLine_init
  state h := absurd h not_atLine_init
  interval h := absurd h not_atLine_init

/-- A statement that leaves the generator, but for `Usable`, and enters no line. -/
theorem Agrees.keep {s : Generation} (h : Agrees s) {t : CalcTicks}
    (hline : t.AtLine → s.ticks.AtLine ∧ t.substance = setLineUsable s.ticks.substance t.substance.line.usable ∧
      t.stepInterval = s.ticks.stepInterval) : Agrees { s with ticks := t } where
  taken := h.taken
  records := h.records
  takenUp ht := h.takenUp (hline ht).1
  state ht := by
    obtain ⟨hs, hsub, -⟩ := hline ht
    show t.substance = _
    rw [hsub, h.state hs]
    simp
  interval ht hne := by
    obtain ⟨hs, -, hi⟩ := hline ht
    exact hi.trans (h.interval hs hne)

theorem Agrees.same {s : Generation} (h : Agrees s) {t : CalcTicks} (hsub : t.substance = s.ticks.substance)
    (hi : t.stepInterval = s.ticks.stepInterval) (hline : t.AtLine → s.ticks.AtLine) :
    Agrees { s with ticks := t } := by
  refine h.keep fun ht => ⟨hline ht, ?_, hi⟩
  rw [hsub, setLineUsable_self]

/-- A line is in `Substance`, but `Usable` has not been stored. -/
theorem Agrees.fetching {s : Generation} (h : Agrees s) {t : CalcTicks} (hpc : t.pc.Fetched) (hpass : ¬t.pc.Passing) :
    Agrees { s with ticks := t } := by
  refine h.keep fun ht => ?_
  obtain ⟨-, hnot⟩ | ht := ht
  · exact absurd hpc hnot
  · exact absurd ht hpass

theorem fresh_concat (line : PlanLine) (resumed : List Bool) (called : Bool) :
    fresh line (resumed ++ [called]) = (fresh line resumed).pass called := by
  unfold fresh
  rw [List.foldl_append, List.foldl_cons, List.foldl_nil]

/-- A pass of the thread is a pass of the fresh generator. -/
theorem Agrees.pass_eq {s : Generation} (h : Agrees s) (hline : s.ticks.AtLine)
    (hs : s.ticks.substance.status ≠ .stop) :
    turn s.ticks.substance s.ticks.stepInterval =
      turn s.ticks.substance (if s.called then 0 else (fresh s.line s.resumed).stepInterval) := by
  by_cases hne : s.resumed = []
  · have htaken := h.takenUp hline
    rw [h.taken] at htaken
    have hstate := h.state hline
    rw [hne] at hstate
    refine turn_interval ?_ _ _ hs
    rw [hstate]
    exact fetched_not_overrun htaken
  · rw [h.interval hline hne]

/-- **The switch** of a line in progress. -/
theorem Agrees.turning {s : Generation} (h : Agrees s) (hpc : s.ticks.pc = .turning) (n : ℕ) :
    Agrees (generationAct s (.statement n)) := by
  have hline : s.ticks.AtLine := Or.inr (by rw [hpc]; trivial)
  simp only [generationAct, tickAct, calcStatement, hpc]
  by_cases hs : s.ticks.substance.status = .stop
  · rw [if_pos hs, if_pos hs]
    refine h.keep fun ht => ?_
    obtain ⟨ht, -⟩ | ht := ht
    · cases ht
    · exact ht.elim
  · rw [if_neg hs, if_neg hs]
    have hturn := h.pass_eq hline hs
    have hpass : pass s.ticks.substance s.ticks.stepInterval =
        (setLineUsable ((fresh s.line s.resumed).pass s.called).state s.ticks.substance.line.usable,
          (pass (fresh s.line s.resumed).state (if s.called then 0 else (fresh s.line s.resumed).stepInterval)).2) := by
      unfold pass
      rw [hturn]
      show pass s.ticks.substance _ = _
      conv_lhs => rw [h.state hline]
      rw [pass_setLineUsable]
      rfl
    have hinterval : (turn s.ticks.substance s.ticks.stepInterval).2 =
        ((fresh s.line s.resumed).pass s.called).stepInterval := by
      rw [hturn, h.state hline, turn_setLineUsable]
      rfl
    refine ⟨h.taken, ?_, fun _ => h.takenUp hline, fun _ => ?_, fun _ _ => ?_⟩
    · show s.records ++ [_] = _
      rw [fresh_concat, hpass, h.records]
      rfl
    · show (pass s.ticks.substance s.ticks.stepInterval).1 = _
      rw [fresh_concat, hpass]
      rfl
    · show (turn s.ticks.substance s.ticks.stepInterval).2 = _
      rw [fresh_concat, hinterval]
      rfl

theorem generationAct_other (s : Generation) {a : TickAct} (h : ¬a.Generator) :
    generationAct s a = { s with ticks := tickAct s.ticks a } := by
  cases a with
  | statement n => exact absurd trivial h
  | _ => rfl

theorem generationAct_ticks (s : Generation) (a : TickAct) : (generationAct s a).ticks = tickAct s.ticks a := by
  cases a with
  | statement n =>
    unfold generationAct
    cases s.ticks.pc <;> dsimp only
    split_ifs <;> rfl
  | _ => rfl

theorem agrees_calc {s : Generation} (h : Agrees s) (n : ℕ) (hclean : FetchClean s (.statement n)) :
    Agrees (generationAct s (.statement n)) := by
  have hentry : ∀ pc : CalcPc, ¬pc.Passing → ({ s.ticks with pc := pc } : CalcTicks).AtLine → ¬s.ticks.pc.Fetched →
      s.ticks.AtLine := by
    intro pc hpass ht hpc
    obtain ⟨hu, -⟩ | ht := ht
    · exact Or.inl ⟨hu, hpc⟩
    · exact absurd ht hpass
  cases hpc : s.ticks.pc with
  | turning => exact h.turning hpc n
  | preparing =>
    simp only [generationAct, tickAct, calcStatement, hpc]
    obtain ⟨hacc, hdec, hlongest⟩ := hclean hpc
    have hfetch := fetchLine_clean hacc hdec hlongest
    refine ⟨?_, rfl, fun ht => ?_, fun _ => ?_, fun _ hne => absurd rfl hne⟩
    · rw [hfetch]
    · obtain ⟨hu, -⟩ | ht := ht
      · exact hu
      · exact ht.elim
    · rw [hfetch]
      exact (setLineUsable_self _).symm
  | outside =>
    simp only [generationAct, tickAct, calcStatement, hpc]
    have hline := hentry .head id
    rw [hpc] at hline
    refine ⟨h.taken, h.records, fun ht => h.takenUp (hline ht id), fun ht => h.state (hline ht id), fun _ _ => rfl⟩
  | head =>
    simp only [generationAct, tickAct, calcStatement, hpc]
    split_ifs <;> exact h.same rfl rfl fun ht => hentry _ id ht (by rw [hpc]; exact id)
  | current =>
    simp only [generationAct, tickAct, calcStatement, hpc]
    split_ifs <;> exact h.same rfl rfl fun ht => hentry _ id ht (by rw [hpc]; exact id)
  | next =>
    simp only [generationAct, tickAct, calcStatement, hpc]
    split_ifs <;> exact h.same rfl rfl fun ht => hentry _ id ht (by rw [hpc]; exact id)
  | checking =>
    simp only [generationAct, tickAct, calcStatement, hpc]
    split_ifs <;> exact h.same rfl rfl fun ht => hentry _ id ht (by rw [hpc]; exact id)
  | taking =>
    simp only [generationAct, tickAct, calcStatement, hpc]
    exact h.same rfl rfl fun ht => hentry _ id ht (by rw [hpc]; exact id)
  | copying =>
    simp only [generationAct, tickAct, calcStatement, hpc]
    exact h.fetching trivial id
  | marking =>
    simp only [generationAct, tickAct, calcStatement, hpc]
    exact h.fetching trivial id
  | advancing =>
    simp only [generationAct, tickAct, calcStatement, hpc]
    exact h.fetching trivial id
  | entered =>
    simp only [generationAct, tickAct, calcStatement, hpc]
    split_ifs with hu
    · exact h.same rfl rfl fun _ => Or.inl ⟨hu, by rw [hpc]; exact id⟩
    · exact h.same rfl rfl fun ht => hentry _ id ht (by rw [hpc]; exact id)
  | writing record =>
    have hline : s.ticks.AtLine := Or.inr (by rw [hpc]; trivial)
    simp only [generationAct, tickAct, calcStatement, hpc]
    split_ifs <;> exact h.same rfl rfl fun _ => hline
  | storing record =>
    have hline : s.ticks.AtLine := Or.inr (by rw [hpc]; trivial)
    simp only [generationAct, tickAct, calcStatement, hpc]
    exact h.same rfl rfl fun _ => hline

/-- **Every statement of every party.** -/
theorem agrees_step {s t : Generation} {a : TickAct} (h : Agrees s) (hstep : GenerationStep s a t)
    (hclean : FetchClean s a) : Agrees t := by
  rw [hstep]
  by_cases hgen : a.Generator
  · cases a with
    | statement n => exact agrees_calc h n hclean
    | discard =>
      refine h.keep fun ht => ⟨?_, rfl, rfl⟩
      obtain ⟨hu, -⟩ | ht := ht
      · cases hu
      · exact Or.inr ht
    | _ => exact hgen.elim
  · rw [generationAct_other s hgen]
    have hsame := tickAct_sameGenerator s.ticks hgen
    refine h.same hsame.substance hsame.stepInterval fun ht => ?_
    unfold CalcTicks.AtLine at ht ⊢
    rwa [hsame.substance, hsame.pc] at ht

/-- **A discard does not touch the next line** where the generator is clean when the next line is set up. -/
theorem sameAsFresh_of_clean {s : Generation} {acts : List TickAct}
    (h : Run (Guarded GenerationStep FetchClean) initGeneration acts s) : SameAsFresh s := by
  have hagrees : Agrees s := h.invariant agrees_init fun _ _ _ ht hstep => agrees_step ht hstep.1 hstep.2
  refine ⟨hagrees.taken, hagrees.records, fun hpc => ?_⟩
  rw [hagrees.state (Or.inr (by rw [hpc]; trivial))]
  rfl

/-- Two lines of 100 steps; the first one is discarded after `n` statements of the thread, which then does `k` more. -/
def discardAfter (n k : ℕ) : List TickAct :=
  [.plan ramp, .plan ramp] ++ List.replicate n (.statement 256) ++ [.discard] ++ List.replicate k (.statement 256)

/-- A discard before the first pass. -/
theorem sameAsFresh_unstarted : SameAsFresh ((discardAfter 10 20).foldl generationAct initGeneration) :=
  sameAsFresh_of_clean (Run.of_allSteps (by decide +kernel))

/-- **A discard after the first pass**: the next line starts with the time that the first one has accelerated for, and
its second step comes too early. -/
theorem discard_changes_next :
    ∃ s : Generation, Run GenerationStep initGeneration (discardAfter 14 20) s ∧
      s.records.map MotionPeriod.stepPeriod = [500, 917] ∧
      (fresh s.line s.resumed).records.map MotionPeriod.stepPeriod = [500, 1000] ∧ ¬SameAsFresh s := by
  refine ⟨_, Run.of_foldl generationAct initGeneration _, by decide +kernel, by decide +kernel, fun h => ?_⟩
  exact absurd h.2.1 (by decide +kernel)

end Clean

/-! ## Without a discard -/

section Undisturbed

/-- From the look at the ring to the store of `Usable`. -/
def CalcPc.Seeking : CalcPc → Prop
  | .next | .preparing => True
  | pc => pc.Getting

/-- A line is in progress. -/
def CalcTicks.Busy (s : CalcTicks) : Prop := s.substance.line.usable = true ∧ ¬s.pc.Seeking

/-- Where no line is in progress, the times and `MaxSteps` are zero. -/
structure CleanOutside (s : CalcTicks) : Prop where
  times : ¬s.Busy → s.substance.accCompletedTime = 0 ∧ s.substance.decCompletedTime = 0
  maxSteps : ¬s.Busy → s.pc ≠ .outside → s.maxSteps = 0
  passing : s.pc.Passing → s.substance.line.usable = true

theorem cleanOutside_init : CleanOutside initTicks where
  times _ := ⟨rfl, rfl⟩
  maxSteps _ _ := rfl
  passing h := h.elim

/-- A statement that keeps the generator, and ends no line. -/
theorem CleanOutside.keep {s t : CalcTicks} (h : CleanOutside s)
    (hacc : t.substance.accCompletedTime = s.substance.accCompletedTime)
    (hdec : t.substance.decCompletedTime = s.substance.decCompletedTime)
    (hbusy : ¬t.Busy → ¬s.Busy) (hmax : t.pc ≠ .outside → t.maxSteps = 0 ∨ t.maxSteps = s.maxSteps ∧ s.pc ≠ .outside)
    (hpass : t.pc.Passing → t.substance.line.usable = true) : CleanOutside t where
  times ht := by
    rw [hacc, hdec]
    exact h.times (hbusy ht)
  maxSteps ht hpc := by
    obtain h0 | ⟨heq, hs⟩ := hmax hpc
    · exact h0
    · exact heq.trans (h.maxSteps (hbusy ht) hs)
  passing := hpass

theorem CleanOutside.same {s t : CalcTicks} (h : CleanOutside s) (hsame : SameGenerator s t) : CleanOutside t := by
  refine h.keep ?_ ?_ ?_ ?_ ?_
  · rw [hsame.substance]
  · rw [hsame.substance]
  · unfold CalcTicks.Busy
    rw [hsame.substance, hsame.pc]
    exact id
  · rw [hsame.pc, hsame.maxSteps]
    exact fun hpc => Or.inr ⟨rfl, hpc⟩
  · rw [hsame.pc, hsame.substance]
    exact h.passing

/-- **One statement of the thread.** -/
theorem cleanOutside_calc {s : CalcTicks} (h : CleanOutside s) (n : ℕ) : CleanOutside (calcStatement n s) := by
  unfold calcStatement
  cases hpc : s.pc with
  | outside =>
    refine h.keep rfl rfl ?_ (fun _ => Or.inl rfl) fun ht => ht.elim
    exact fun ht hs => ht ⟨hs.1, id⟩
  | head =>
    dsimp only
    split_ifs with hout
    · exact h.keep rfl rfl (fun ht hs => ht ⟨hs.1, id⟩) (fun ht => absurd rfl ht) fun ht => ht.elim
    · exact h.keep rfl rfl (fun ht hs => ht ⟨hs.1, id⟩)
        (fun _ => Or.inr ⟨rfl, by rw [hpc]; exact nofun⟩) fun ht => ht.elim
  | current =>
    dsimp only
    split_ifs with hu
    · exact h.keep rfl rfl (fun ht hs => ht ⟨hs.1, id⟩)
        (fun _ => Or.inr ⟨rfl, by rw [hpc]; exact nofun⟩) fun ht => ht.elim
    · exact h.keep rfl rfl (fun _ hs => hu hs.1)
        (fun _ => Or.inr ⟨rfl, by rw [hpc]; exact nofun⟩) fun ht => ht.elim
  | next =>
    have hs : ¬s.Busy := fun hs => hs.2 (by rw [hpc]; trivial)
    dsimp only
    split_ifs with hempty
    · exact h.keep rfl rfl (fun _ => hs) (fun ht => absurd rfl ht) fun ht => ht.elim
    · exact h.keep rfl rfl (fun _ => hs)
        (fun _ => Or.inr ⟨rfl, by rw [hpc]; exact nofun⟩) fun ht => ht.elim
  | checking =>
    have hs : ¬s.Busy := fun hs => hs.2 (by rw [hpc]; trivial)
    dsimp only
    split_ifs with hu
    · exact h.keep rfl rfl (fun _ => hs)
        (fun _ => Or.inr ⟨rfl, by rw [hpc]; exact nofun⟩) fun ht => ht.elim
    · exact h.keep rfl rfl (fun _ => hs) (fun ht => absurd rfl ht) fun ht => ht.elim
  | preparing =>
    have hs : ¬s.Busy := fun hs => hs.2 (by rw [hpc]; trivial)
    have hmax : s.maxSteps = 0 := h.maxSteps hs (by rw [hpc]; exact nofun)
    refine ⟨fun _ => h.times hs, fun ht _ => ?_, fun ht => ht.elim⟩
    dsimp only
    rw [hmax]
    by_contra hne
    refine ht ⟨?_, id⟩
    show (fetchLine s.maxSteps s.substance s.substance.line).line.usable = true
    rw [hmax, fetchLine_usable, decide_eq_true_iff]
    rw [findLongest_snd] at hne
    omega
  | entered =>
    dsimp only
    split_ifs with hu
    · exact h.keep rfl rfl (fun ht hs => ht ⟨hs.1, id⟩)
        (fun _ => Or.inr ⟨rfl, by rw [hpc]; exact nofun⟩) fun _ => hu
    · exact h.keep rfl rfl (fun _ hs => hu hs.1)
        (fun _ => Or.inr ⟨rfl, by rw [hpc]; exact nofun⟩) fun ht => ht.elim
  | turning =>
    have hu := h.passing (by rw [hpc]; trivial)
    dsimp only
    split_ifs with hs
    · exact ⟨fun _ => ⟨rfl, rfl⟩, fun _ ht => absurd rfl ht, fun ht => ht.elim⟩
    · have hu' : (pass s.substance s.stepInterval).1.line.usable = true := by rw [pass_line, hu]
      exact ⟨fun ht => absurd ⟨hu', id⟩ ht, fun ht => absurd ⟨hu', id⟩ ht, fun _ => hu'⟩
  | writing record =>
    dsimp only
    split_ifs with hfull
    · exact h
    · exact h.keep rfl rfl (fun ht hs => ht ⟨hs.1, id⟩)
        (fun _ => Or.inr ⟨rfl, by rw [hpc]; exact nofun⟩) fun _ => h.passing (by rw [hpc]; trivial)
  | storing record =>
    have hu := h.passing (by rw [hpc]; trivial)
    exact ⟨fun ht => absurd ⟨hu, id⟩ ht, fun ht => absurd ⟨hu, id⟩ ht, fun ht => ht.elim⟩
  | _ =>
    -- inside `GetNextPlanLine`
    have hs : ¬s.Busy := fun hs => hs.2 (by rw [hpc]; trivial)
    exact h.keep rfl rfl (fun _ => hs) (fun _ => Or.inr ⟨rfl, by rw [hpc]; exact nofun⟩) fun ht => ht.elim

def NotDiscard (_ : Generation) (a : TickAct) : Prop := a ≠ .discard

/-- **Without a discard** the generator is always clean. -/
theorem clean_undisturbed {s : Generation} {acts : List TickAct}
    (h : Run (Guarded GenerationStep NotDiscard) initGeneration acts s) :
    Run (Guarded GenerationStep FetchClean) initGeneration acts s := by
  refine (h.mono_of_invariant (I := fun s => CleanOutside s.ticks) cleanOutside_init fun s a t hs hstep => ?_).1
  obtain ⟨rfl, hnot⟩ := hstep
  rw [generationAct_ticks]
  refine ⟨?_, rfl, ?_⟩
  · by_cases hgen : a.Generator
    · cases a with
      | statement n => exact cleanOutside_calc hs n
      | discard => exact absurd rfl hnot
      | _ => exact hgen.elim
    · exact hs.same (tickAct_sameGenerator s.ticks hgen)
  · cases a with
    | statement n =>
      intro hpc
      have hbusy : ¬s.ticks.Busy := fun h => h.2 (by rw [hpc]; trivial)
      obtain ⟨hacc, hdec⟩ := hs.times hbusy
      refine ⟨hacc, hdec, ?_⟩
      rw [hs.maxSteps hbusy (by rw [hpc]; exact nofun)]
    | _ => trivial

end Undisturbed

end Cxsw.Motion
