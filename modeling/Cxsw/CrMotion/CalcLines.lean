import Cxsw.CrMotion.Bresenham

/-!
# Cxsw.CrMotion.CalcLines — the trace of the generator, line by line

A trace is cut at its fetches: `group f` lists the lines fetched so far, newest first, each with what `f` keeps of
its passes.  A property of one line in progress, kept from pass to pass, becomes a property of every run.

* `LineRule`: what has to be shown of one line.
* `LinesInv`: the invariant of runs: every line but the newest is done, and the newest is done or in progress.
* `LineRule.run`: the first gives the second, in every run.
-/

namespace Cxsw.Motion

variable {β : Type*}

/-! ## Grouping -/

section Group

variable (f : CalcState → MotionPeriod → β)

/-- Add an event to the lines fetched so far. -/
def addEvent (lines : List (PlanLine × List β)) : CalcEvent → List (PlanLine × List β)
  | .fetch line => (line, []) :: lines
  | .pass c r =>
    match lines with
    | [] => []
    | s :: older => (s.1, s.2 ++ [f c r]) :: older

/-- The lines a trace fetches, newest first, each with its passes before the next fetch. -/
def group (trace : List CalcEvent) : List (PlanLine × List β) := trace.foldl (addEvent f) []

theorem group_concat (trace : List CalcEvent) (e : CalcEvent) :
    group f (trace ++ [e]) = addEvent f (group f trace) e := by
  simp [group, List.foldl_append]

theorem group_fetched (trace : List CalcEvent) : (group f trace).reverse.map Prod.fst = fetched trace := by
  have h : ∀ (es : List CalcEvent) (lines : List (PlanLine × List β)),
      (es.foldl (addEvent f) lines).reverse.map Prod.fst = lines.reverse.map Prod.fst ++ fetched es := by
    intro es
    induction es with
    | nil => simp [fetched]
    | cons e es ih =>
      intro lines
      rw [List.foldl_cons, ih]
      cases e with
      | fetch l => simp [addEvent, fetched]
      | pass c r => cases lines <;> simp [addEvent, fetched]
  simpa [group] using h trace []

end Group

/-! ## The rule -/

section Rule

variable {f : CalcState → MotionPeriod → β} {P : PlanLine → Prop} {Idle : CalcState → Prop}
variable {In : CalcState → PlanLine → List β → Prop} {Done : PlanLine × List β → Prop}

/-- What has to be shown of one line: `In` while it is in progress, `Done` after it, `Idle` between the lines. -/
structure LineRule (f : CalcState → MotionPeriod → β) (P : PlanLine → Prop) (Idle : CalcState → Prop)
    (In : CalcState → PlanLine → List β → Prop) (Done : PlanLine × List β → Prop) : Prop where
  init : Idle initCalc
  skip : ∀ c l, Idle c → P l → l.maxSteps = 0 → Idle (fetchLine 0 c l) ∧ Done (l, [])
  fetch : ∀ c l, Idle c → P l → 0 < l.maxSteps → In (fetchLine 0 c l) l []
  pass : ∀ c l bs i, c.status ≠ .stop → In c l bs → In (pass c i).1 l (bs ++ [f c (pass c i).2])
  finish : ∀ c l bs, c.status = .stop → In c l bs → Idle (finishLine c) ∧ Done (l, bs)

/-- The invariant of runs. -/
structure LinesInv (f : CalcState → MotionPeriod → β) (Idle : CalcState → Prop)
    (In : CalcState → PlanLine → List β → Prop) (Done : PlanLine × List β → Prop) (trace : List CalcEvent)
    (c : CalcState) : Prop where
  older : ∀ s ∈ (group f trace).tail, Done s
  newest : ∀ s older, group f trace = s :: older → if c.line.usable then In c s.1 s.2 else Done s
  empty : group f trace = [] → c.line.usable = false
  idle : c.line.usable = false → Idle c

theorem LineRule.inv_init (h : LineRule f P Idle In Done) : LinesInv f Idle In Done [] initCalc :=
  ⟨fun s hs => absurd hs (List.not_mem_nil), fun s older he => (by cases he), fun _ => rfl, fun _ => h.init⟩

theorem LineRule.inv_fetch (h : LineRule f P Idle In Done) {trace : List CalcEvent} {c : CalcState} {l : PlanLine}
    (hu : c.line.usable = false) (hl : P l) (hi : LinesInv f Idle In Done trace c) :
    LinesInv f Idle In Done (trace ++ [.fetch l]) (fetchLine 0 c l) := by
  have hseg := group_concat f trace (.fetch l)
  refine ⟨?_, ?_, fun he => (by rw [hseg] at he; cases he), fun hu' => ?_⟩
  · rw [hseg]
    intro s hs
    cases hsg : group f trace with
    | nil =>
      rw [hsg] at hs
      cases hs
    | cons s' older =>
      rw [hsg] at hs
      have hnew := hi.newest s' older hsg
      rw [if_neg (by simp [hu])] at hnew
      have hold := hi.older
      rw [hsg] at hold
      rcases List.mem_cons.mp hs with hs | hs
      · rw [hs]
        exact hnew
      · exact hold s hs
  · intro s older he
    rw [hseg] at he
    cases he
    rw [fetchLine_usable]
    by_cases hpos : 0 < l.maxSteps
    · rw [if_pos (by simpa using hpos)]
      exact h.fetch c l (hi.idle hu) hl hpos
    · rw [if_neg (by simpa using hpos)]
      exact (h.skip c l (hi.idle hu) hl (by omega)).2
  · rw [fetchLine_usable, decide_eq_false_iff_not] at hu'
    exact (h.skip c l (hi.idle hu) hl (by omega)).1

theorem LineRule.inv_finish (h : LineRule f P Idle In Done) {trace : List CalcEvent} {c : CalcState}
    (hu : c.line.usable = true) (hs : c.status = .stop) (hi : LinesInv f Idle In Done trace c) :
    LinesInv f Idle In Done trace (finishLine c) := by
  have hfin : ∀ s older, group f trace = s :: older → Idle (finishLine c) ∧ Done s := by
    intro s older he
    have hnew := hi.newest s older he
    rw [if_pos hu] at hnew
    exact h.finish c s.1 s.2 hs hnew
  refine ⟨hi.older, fun s older he => ?_, fun _ => rfl, fun _ => ?_⟩
  · rw [if_neg (by simp [finishLine])]
    exact (hfin s older he).2
  · cases hsg : group f trace with
    | nil =>
      rw [hi.empty hsg] at hu
      cases hu
    | cons s older => exact (hfin s older hsg).1

theorem LineRule.inv_pass (h : LineRule f P Idle In Done) {trace : List CalcEvent} {c : CalcState} (i : ℕ)
    (hu : c.line.usable = true) (hs : c.status ≠ .stop) (hi : LinesInv f Idle In Done trace c) :
    LinesInv f Idle In Done (trace ++ [.pass c (Motion.pass c i).2]) (Motion.pass c i).1 := by
  have hseg := group_concat f trace (.pass c (Motion.pass c i).2)
  have hu' : (Motion.pass c i).1.line.usable = true := by rw [pass_line, hu]
  cases hsg : group f trace with
  | nil =>
    rw [hi.empty hsg] at hu
    cases hu
  | cons s' older' =>
    rw [hsg] at hseg
    refine ⟨?_, fun s older he => ?_, fun he => (by rw [hseg] at he; cases he), fun hf => ?_⟩
    · have hold := hi.older
      rw [hsg] at hold
      rw [hseg]
      exact hold
    · have hnew := hi.newest s' older' hsg
      rw [if_pos hu] at hnew
      rw [hseg] at he
      cases he
      rw [if_pos hu']
      exact h.pass c s'.1 s'.2 i hs hnew
    · rw [hu'] at hf
      cases hf

/-- **The rule for lines**: what holds of one line from its fetch to its end holds of every line of every run, and
the lines are fetched in the order in which they were planned. -/
theorem LineRule.run (h : LineRule f P Idle In Done) (is : List CalcInput) (hp : ∀ l ∈ planned is, P l) :
    LinesInv f Idle In Done (calcRun is).2 (calcRun is).1.1 ∧
      planned is = (group f (calcRun is).2).reverse.map Prod.fst ++ (calcRun is).1.2 := by
  rw [group_fetched]
  exact calcRun_rule h.inv_init (fun _ _ _ hu hl hi => h.inv_fetch hu hl hi) (fun _ _ hu hs hi => h.inv_finish hu hs hi)
    (fun _ _ i hu hs hi => h.inv_pass i hu hs hi) is hp

/-- The lines that are finished after a run: all but one that is in progress. -/
def finished (f : CalcState → MotionPeriod → β) (is : List CalcInput) : List (PlanLine × List β) :=
  if (calcRun is).1.1.line.usable then (group f (calcRun is).2).tail else group f (calcRun is).2

/-- Every finished line of a run is done. -/
theorem LineRule.finished_done (h : LineRule f P Idle In Done) (is : List CalcInput) (hp : ∀ l ∈ planned is, P l) :
    ∀ s ∈ finished f is, Done s := by
  have hinv := (h.run is hp).1
  intro s hs
  unfold finished at hs
  cases hu : (calcRun is).1.1.line.usable with
  | true =>
    rw [hu, if_pos rfl] at hs
    exact hinv.older s hs
  | false =>
    rw [hu, if_neg (by simp)] at hs
    cases hsg : group f (calcRun is).2 with
    | nil =>
      rw [hsg] at hs
      cases hs
    | cons s' older =>
      have hnew := hinv.newest s' older hsg
      rw [if_neg (by simp [hu])] at hnew
      have hold := hinv.older
      rw [hsg] at hs hold
      rcases List.mem_cons.mp hs with hs | hs
      · rw [hs]
        exact hnew
      · exact hold s hs

end Rule

end Cxsw.Motion
