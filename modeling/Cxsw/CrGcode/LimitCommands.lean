import Cxsw.Lib.Run
import Cxsw.CrMotion.CrMotionPlanner

/-!
# Cxsw.CrGcode.LimitCommands — the limits of the planner (`CmdM/GcodeM201Handle.cpp`, `M203`, `M204`, `M205`)

The planner reads the acceleration, the speed and the jerk of an axis from its stepper and the acceleration of a line
from the global attributes.  `M201` sets the first.  `M203` writes its values to the modal feedrate, the printing
acceleration of `M204` goes to the X stepper, and `M205` writes to the free slot of the ring, which the next line
overwrites.

* `gcodeM201Exec`, `gcodeM203Exec`, `gcodeM204Exec`, `gcodeM205Exec`: the handlers.
* `Limits`, `Limits.after`: the limits, and what the commands should make of them.
* `inForce`, `planLine_eq`, `planRetract_eq`: the limits that a line planned now uses.
* `limits_run_iff`: in a run they are those of the commands where every command is `LimitOk`, and nowhere else.
-/

namespace Cxsw.LimitCommands

open Motion

/-! ## The handlers -/

section Handlers

/-- `StepperMotionAttr_t`, what the planner reads. -/
structure StepperMotionAttr where
  maxVelocity : ℤ
  acceleration : ℤ
  jerk : ℤ
  deriving DecidableEq

/-- The steppers, the planner and the two attributes that nothing reads. -/
structure LimitState where
  stepsPerMm : Axis → ℕ
  root : ℚ → ℚ
  motionAttr : Axis → StepperMotionAttr
  planner : Planner
  velMinXYZ : ℤ
  travelVelMinXYZ : ℤ

/-- `EXTRUDERS`. -/
def extruders : ℤ := 1

/-- `GCODE_EXEC_OK` and `CrErr`. -/
def gcodeExecOk : ℤ := 1

def crErr : ℤ := 0

/-- `ArgM201_t` and `ArgM203_t`: the words that are given. -/
structure AxisArg where
  t : Option ℤ
  axis : Axis → Option ℚ

/-- `ArgM204_t`. -/
structure ArgM204 where
  p : Option ℚ
  r : Option ℚ
  s : Option ℚ
  t : Option ℚ

/-- `ArgM205_t` without the two words that nothing is done with. -/
structure ArgM205 where
  s : Option ℚ
  t : Option ℚ
  axis : Axis → Option ℚ

/-- `SetStepperMotion` with another acceleration. -/
def LimitState.setAcceleration (s : LimitState) (a : Axis) (acceleration : ℤ) : LimitState :=
  { s with motionAttr := Function.update s.motionAttr a { s.motionAttr a with acceleration } }

/-- `SetMotionFeedRateAttr`. -/
def LimitState.setFeedRateAttr (s : LimitState) (feedrate : FeedrateAttr) : LimitState :=
  { s with planner := { s.planner with feedrate } }

/-- The check of the extruder's index in `M201`. -/
def m201Refused (p : AxisArg) : Bool := p.t.any fun t => t < 0 || extruders ≤ t

/-- That in `M203` lets one more pass. -/
def m203Refused (p : AxisArg) : Bool := p.t.any fun t => t < 0 || extruders < t

def gcodeM201Exec (s : LimitState) (p : AxisArg) : ℤ × LimitState :=
  if m201Refused p then (crErr, s)
  else
    (gcodeExecOk, Axis.all.foldl (fun s a =>
      match p.axis a with
      | some v => s.setAcceleration a (toS32 v)
      | none => s) s)

/-- The attributes are read once; each word that is given stores its value and sets them. -/
def gcodeM203Exec (s : LimitState) (p : AxisArg) : ℤ × LimitState :=
  if m203Refused p then (crErr, s)
  else
    (gcodeExecOk, (Axis.all.foldl (fun (r : FeedrateAttr × LimitState) a =>
      match p.axis a with
      | some v => ({ r.1 with feedrate := v }, r.2.setFeedRateAttr { r.1 with feedrate := v })
      | none => r) (s.planner.feedrate, s)).2)

/-- The word `S`, an old one for both accelerations, sets that of the X axis and takes the travel acceleration from
`T`. -/
def gcodeM204Exec (s : LimitState) (p : ArgM204) : ℤ × LimitState :=
  let s :=
    match p.s with
    | some v =>
      let s := s.setAcceleration .X (toS32 v)
      s.setFeedRateAttr { s.planner.feedrate with travelAccelXYZ := toS32 (p.t.getD 0) }
    | none => s
  let s :=
    match p.p with
    | some v => s.setAcceleration .X (toS32 v)
    | none => s
  let s :=
    match p.r with
    | some v => s.setFeedRateAttr { s.planner.feedrate with retractAccel := v }
    | none => s
  let s :=
    match p.t with
    | some v => s.setFeedRateAttr { s.planner.feedrate with travelAccelXYZ := toS32 v }
    | none => s
  (gcodeExecOk, s)

/-- A jerk is stored in the slot at the tail of the ring. -/
def LimitState.setTailJerk (s : LimitState) (a : Axis) (maxJerk : ℤ) : LimitState :=
  let tail := s.planner.ring.lineBuffTail
  let line := s.planner.ring.lineBuff tail
  { s with planner := { s.planner with ring := { s.planner.ring with
      lineBuff := Function.update s.planner.ring.lineBuff tail
        { line with axis := Function.update line.axis a { line.axis a with maxJerk } } } } }

def gcodeM205Exec (s : LimitState) (p : ArgM205) : ℤ × LimitState :=
  let s :=
    match p.s with
    | some v => { s with velMinXYZ := toS32 v }
    | none => s
  let s :=
    match p.t with
    | some v => { s with travelVelMinXYZ := toS32 v }
    | none => s
  (gcodeExecOk, Axis.all.foldl (fun s a =>
    match p.axis a with
    | some v => s.setTailJerk a (toS32 v)
    | none => s) s)

end Handlers

/-! ## Runs -/

section Runs

/-- The commands with the words that set a limit, and what goes on between them: moves, the `F` word of a move, and the
other thread. -/
inductive LimitEvent where
  | m201 (p : AxisArg)
  | m203 (p : AxisArg)
  | m204 (p r t : Option ℚ)
  | m205 (axis : Axis → Option ℚ)
  | planLine (current target : Axis → ℚ)
  | planRetract (current target : Axis → ℚ)
  | feedrate (v : ℚ)
  | getNextPlanLine
  | planLineBuffClear

/-- What the planner reads of the steppers. -/
def LimitState.machine (s : LimitState) : Machine where
  stepper a := some ⟨s.stepsPerMm a, (s.motionAttr a).maxVelocity, (s.motionAttr a).jerk, (s.motionAttr a).acceleration⟩
  root := s.root

/-- The state after an event. -/
def LimitState.event (s : LimitState) : LimitEvent → LimitState
  | .m201 p => (gcodeM201Exec s p).2
  | .m203 p => (gcodeM203Exec s p).2
  | .m204 p r t => (gcodeM204Exec s ⟨p, r, none, t⟩).2
  | .m205 axis => (gcodeM205Exec s ⟨none, none, axis⟩).2
  | .planLine current target => { s with planner := (Motion.planLine s.machine s.planner current target).2 }
  | .planRetract current target => { s with planner := (Motion.planRetract s.machine s.planner current target).2 }
  | .feedrate v => s.setFeedRateAttr { s.planner.feedrate with feedrate := v }
  | .getNextPlanLine => { s with planner := s.planner.call .getNextPlanLine }
  | .planLineBuffClear => { s with planner := s.planner.call .planLineBuffClear }

/-- The limits of a line: of each axis, and its own acceleration by its kind. -/
@[ext]
structure Limits where
  maxAccel : Axis → ℤ
  maxSpeed : Axis → ℤ
  maxJerk : Axis → ℤ
  print : ℚ
  retract : ℚ
  travel : ℚ

/-- The words that are given, in whole units, instead of the limits that were. -/
def given (axis : Axis → Option ℚ) (limit : Axis → ℤ) (a : Axis) : ℤ := ((axis a).map toS32).getD (limit a)

/-- The limits that an event should leave.  A command that is refused sets none. -/
def Limits.after (w : Limits) : LimitEvent → Limits
  | .m201 p => if m201Refused p then w else { w with maxAccel := given p.axis w.maxAccel }
  | .m203 p => if m203Refused p then w else { w with maxSpeed := given p.axis w.maxSpeed }
  | .m204 p r t =>
    { w with
      print := (p.map fun v => (toS32 v : ℚ)).getD w.print
      retract := r.getD w.retract
      travel := (t.map fun v => (toS32 v : ℚ)).getD w.travel }
  | .m205 axis => { w with maxJerk := given axis w.maxJerk }
  | _ => w

/-- The limits that a line planned now uses. -/
def inForce (s : LimitState) : Limits where
  maxAccel a := (s.motionAttr a).acceleration
  maxSpeed a := (s.motionAttr a).maxVelocity
  maxJerk a := (s.motionAttr a).jerk
  print := if s.planner.feedrate.accelXYZ ≤ 0 then accelerationAccel else s.planner.feedrate.accelXYZ
  retract := (requestRetract s.planner.feedrate).1
  travel := if s.planner.feedrate.travelAccelXYZ ≤ 0 then accelerationTravel else s.planner.feedrate.travelAccelXYZ

/-- The steppers with these limits. -/
def Limits.machine (w : Limits) (s : LimitState) : Machine where
  stepper a := some ⟨s.stepsPerMm a, w.maxSpeed a, w.maxJerk a, w.maxAccel a⟩
  root := s.root

/-- `PlanLine` with these limits. -/
def lineWith (w : Limits) (s : LimitState) (current target : Axis → ℚ) : ℤ × Planner :=
  if isPlanLineBuffFull s.planner.ring then (-1, s.planner)
  else
    let p := { s.planner with feedrate := checkFeedrate s.planner.feedrate }
    let d := dis target current
    planBlock (w.machine s) p (cutE d) (if |d .E| < minEChange then w.travel else w.print, (requestLine p.feedrate d).2)

/-- `PlanRetract` with these limits. -/
def retractWith (w : Limits) (s : LimitState) (current target : Axis → ℚ) : ℤ × Planner :=
  if isPlanLineBuffFull s.planner.ring then (-1, s.planner)
  else planBlock (w.machine s) s.planner (dis target current) (w.retract, (requestRetract s.planner.feedrate).2)

/-- The axes that a command names. -/
def LimitEvent.names : LimitEvent → Axis → Bool
  | .m201 p => fun a => (p.axis a).isSome
  | .m203 p => fun a => (p.axis a).isSome
  | .m205 axis => fun a => (axis a).isSome
  | _ => fun _ => false

/-- A command is one of the four. -/
def LimitEvent.isCommand : LimitEvent → Bool
  | .m201 _ | .m203 _ | .m204 _ _ _ | .m205 _ => true
  | _ => false

/-- What a command leaves alone. -/
structure Frame (e : LimitEvent) (s s' : LimitState) : Prop where
  axis : ∀ a, e.names a = false → s'.motionAttr a = s.motionAttr a
  feedrate : s'.planner.feedrate.feedrate = s.planner.feedrate.feedrate
  head : s'.planner.ring.lineBuffHead = s.planner.ring.lineBuffHead
  tail : s'.planner.ring.lineBuffTail = s.planner.ring.lineBuffTail
  lines : ∀ i < getPlanLineBuffNum s.planner.ring,
    s'.planner.ring.lineBuff ((s.planner.ring.lineBuffHead + i) % buffMaxSize) =
      s.planner.ring.lineBuff ((s.planner.ring.lineBuffHead + i) % buffMaxSize)

/-- **What an event owes to the limits** `w`: a line that it plans uses them, those in force afterwards are the ones
that it should leave, and a command changes nothing else. -/
structure LimitKept (s : LimitState) (w : Limits) (e : LimitEvent) : Prop where
  line : ∀ current target, e = .planLine current target →
    Motion.planLine s.machine s.planner current target = lineWith w s current target
  retract : ∀ current target, e = .planRetract current target →
    Motion.planRetract s.machine s.planner current target = retractWith w s current target
  force : inForce (s.event e) = w.after e
  frame : e.isCommand = true → Frame e s (s.event e)

/-- The value of the last axis that is named. -/
def lastGiven (axis : Axis → Option ℚ) : Option ℚ := (axis .E).or ((axis .Z).or ((axis .Y).or (axis .X)))

/-- The commands that are right: `M203` and `M205` give each axis that they name the limit that it has, and the last
value of `M203` is the modal feedrate; `M204` gives a printing acceleration that is the one in force and that of the X
axis, a retract acceleration above zero and a travel acceleration of at least one. -/
def LimitOk (s : LimitState) : LimitEvent → Prop
  | .m203 p => m203Refused p = false →
      (∀ a, ∀ v ∈ p.axis a, toS32 v = (s.motionAttr a).maxVelocity) ∧
        ∀ v ∈ lastGiven p.axis, v = s.planner.feedrate.feedrate
  | .m204 p r t =>
      (∀ v ∈ p, toS32 v = (s.motionAttr .X).acceleration ∧ (toS32 v : ℚ) = (inForce s).print) ∧
        (∀ v ∈ r, eolData < v) ∧ ∀ v ∈ t, 0 < toS32 v
  | .m205 axis => ∀ a, ∀ v ∈ axis a, toS32 v = (s.motionAttr a).jerk
  | _ => True

end Runs


/-! ## The limits in force -/

section Force

variable {s : LimitState} {w : Limits}

/-- The request of a line is the acceleration of its kind. -/
theorem requestLine_eq (s : LimitState) (d : Axis → ℚ) :
    requestLine (checkFeedrate s.planner.feedrate) d =
      (if |d .E| < minEChange then (inForce s).travel else (inForce s).print,
        (requestLine (checkFeedrate s.planner.feedrate) d).2) := by
  unfold checkFeedrate
  by_cases hslow : s.planner.feedrate.feedrate < eolData
  · rw [if_pos hslow]
    rfl
  · rw [if_neg hslow]
    rfl

/-- **A line** uses the limits in force. -/
theorem planLine_eq (h : inForce s = w) (current target : Axis → ℚ) :
    Motion.planLine s.machine s.planner current target = lineWith w s current target := by
  subst h
  unfold Motion.planLine lineWith
  split_ifs
  · rfl
  · dsimp only
    rw [requestLine_eq]
    rfl

theorem planRetract_eq (h : inForce s = w) (current target : Axis → ℚ) :
    Motion.planRetract s.machine s.planner current target = retractWith w s current target := by
  subst h
  rfl

/-- They depend on the steppers and the global accelerations. -/
theorem inForce_congr {s' : LimitState} (hattr : s'.motionAttr = s.motionAttr)
    (haccel : s'.planner.feedrate.accelXYZ = s.planner.feedrate.accelXYZ)
    (hretract : s'.planner.feedrate.retractAccel = s.planner.feedrate.retractAccel)
    (htravel : s'.planner.feedrate.travelAccelXYZ = s.planner.feedrate.travelAccelXYZ) : inForce s' = inForce s := by
  simp only [inForce, requestRetract, hattr, haccel, hretract, htravel]

theorem planBlock_feedrate (m : Machine) (p : Planner) (d : Axis → ℚ) (request : ℚ × ℚ) :
    (planBlock m p d request).2.feedrate = p.feedrate := by
  unfold planBlock
  split <;> rfl

theorem inForce_planLine (s : LimitState) (current target : Axis → ℚ) :
    inForce (s.event (.planLine current target)) = inForce s := by
  have hkeeps : (Motion.planLine s.machine s.planner current target).2.feedrate = s.planner.feedrate ∨
      (Motion.planLine s.machine s.planner current target).2.feedrate = checkFeedrate s.planner.feedrate := by
    unfold Motion.planLine
    split_ifs
    · exact Or.inl rfl
    · exact Or.inr (planBlock_feedrate _ _ _ _)
  have hcheck (f : FeedrateAttr) : (checkFeedrate f).accelXYZ = f.accelXYZ ∧
      (checkFeedrate f).retractAccel = f.retractAccel ∧ (checkFeedrate f).travelAccelXYZ = f.travelAccelXYZ := by
    unfold checkFeedrate
    split_ifs <;> exact ⟨rfl, rfl, rfl⟩
  obtain ⟨haccel, hretract, htravel⟩ := hcheck s.planner.feedrate
  rcases hkeeps with hsame | hchecked
  · exact inForce_congr rfl (congrArg _ hsame) (congrArg _ hsame) (congrArg _ hsame)
  · exact inForce_congr rfl ((congrArg _ hchecked).trans haccel) ((congrArg _ hchecked).trans hretract)
      ((congrArg _ hchecked).trans htravel)

theorem inForce_planRetract (s : LimitState) (current target : Axis → ℚ) :
    inForce (s.event (.planRetract current target)) = inForce s := by
  have hkeeps : (Motion.planRetract s.machine s.planner current target).2.feedrate = s.planner.feedrate := by
    unfold Motion.planRetract
    split_ifs
    · rfl
    · exact planBlock_feedrate _ _ _ _
  exact inForce_congr rfl (congrArg _ hkeeps) (congrArg _ hkeeps) (congrArg _ hkeeps)

theorem inForce_event {e : LimitEvent} (h : e.isCommand = false) : inForce (s.event e) = inForce s := by
  cases e with
  | m201 => cases h
  | m203 => cases h
  | m204 => cases h
  | m205 => cases h
  | planLine current target => exact inForce_planLine s current target
  | planRetract current target => exact inForce_planRetract s current target
  | feedrate v => rfl
  | getNextPlanLine => rfl
  | planLineBuffClear => rfl

theorem given_eq_iff (axis : Axis → Option ℚ) (limit : Axis → ℤ) :
    given axis limit = limit ↔ ∀ a, ∀ v ∈ axis a, toS32 v = limit a := by
  rw [funext_iff]
  refine forall_congr' fun a => ?_
  unfold given
  cases axis a with
  | none => simp
  | some v => simp

end Force

/-! ## What the handlers change -/

section Effects

variable (s : LimitState)

/-- `M201` sets the acceleration of the axes that it names. -/
theorem m201_effect {p : AxisArg} (h : m201Refused p = false) :
    (gcodeM201Exec s p).2 =
      { s with motionAttr := fun a => { s.motionAttr a with
          acceleration := given p.axis (fun a => (s.motionAttr a).acceleration) a } } := by
  have hfold : ∀ (as : List Axis) (s : LimitState), as.Nodup →
      as.foldl (fun s a =>
        match p.axis a with
        | some v => s.setAcceleration a (toS32 v)
        | none => s) s =
        { s with motionAttr := fun a => if a ∈ as then { s.motionAttr a with
            acceleration := given p.axis (fun a => (s.motionAttr a).acceleration) a } else s.motionAttr a } := by
    intro as
    induction as with
    | nil =>
      intro s _
      simp only [List.not_mem_nil, if_false]
      rfl
    | cons a as ih =>
      intro s hnodup
      obtain ⟨hnot, hrest⟩ := List.nodup_cons.mp hnodup
      rw [List.foldl_cons, ih _ hrest]
      cases haxis : p.axis a with
      | none =>
        congr 1
        funext b
        by_cases hb : b = a
        · subst hb
          simp [hnot, given, haxis]
        · simp [hb]
      | some v =>
        simp only [LimitState.setAcceleration]
        congr 1
        funext b
        by_cases hb : b = a
        · subst hb
          simp [hnot, given, haxis]
        · simp [hb, given]
  rw [gcodeM201Exec, if_neg (by simp [h]), hfold Axis.all s (by decide)]
  simp only [Axis.mem_all, if_true]

theorem m203_effect {p : AxisArg} (h : m203Refused p = false) :
    (gcodeM203Exec s p).2 =
      s.setFeedRateAttr
        { s.planner.feedrate with feedrate := (lastGiven p.axis).getD s.planner.feedrate.feedrate } := by
  rw [gcodeM203Exec, if_neg (by simp [h])]
  unfold lastGiven Axis.all
  dsimp only [List.foldl]
  cases p.axis .X <;> cases p.axis .Y <;> cases p.axis .Z <;> cases p.axis .E <;> rfl

/-- `M204` with a printing acceleration sets that of the X axis. -/
theorem m204_effect (p r t : Option ℚ) :
    (s.event (.m204 p r t)).motionAttr =
        (p.map fun v => Function.update s.motionAttr .X { s.motionAttr .X with acceleration := toS32 v }).getD
          s.motionAttr ∧
      (s.event (.m204 p r t)).planner = { s.planner with feedrate := { s.planner.feedrate with
        retractAccel := r.getD s.planner.feedrate.retractAccel
        travelAccelXYZ := (t.map toS32).getD s.planner.feedrate.travelAccelXYZ } } := by
  cases p <;> cases r <;> cases t <;> exact ⟨rfl, rfl⟩

theorem m205_effect (axis : Axis → Option ℚ) : ∃ line,
    s.event (.m205 axis) = { s with planner := { s.planner with ring := { s.planner.ring with
      lineBuff := Function.update s.planner.ring.lineBuff s.planner.ring.lineBuffTail line } } } := by
  have hfold : ∀ (as : List Axis) (line : PlanLine), ∃ line', as.foldl (fun s a =>
      match axis a with
      | some v => s.setTailJerk a (toS32 v)
      | none => s) { s with planner := { s.planner with ring := { s.planner.ring with
        lineBuff := Function.update s.planner.ring.lineBuff s.planner.ring.lineBuffTail line } } } =
      { s with planner := { s.planner with ring := { s.planner.ring with
        lineBuff := Function.update s.planner.ring.lineBuff s.planner.ring.lineBuffTail line' } } } := by
    intro as
    induction as with
    | nil => exact fun line => ⟨line, rfl⟩
    | cons a as ih =>
      intro line
      rw [List.foldl_cons]
      cases axis a with
      | none => exact ih line
      | some v =>
        dsimp only [LimitState.setTailJerk]
        rw [Function.update_idem]
        exact ih _
  obtain ⟨line, hline⟩ := hfold Axis.all (s.planner.ring.lineBuff s.planner.ring.lineBuffTail)
  rw [Function.update_eq_self] at hline
  exact ⟨line, hline⟩

end Effects

/-! ## Every step -/

section Steps

variable {s : LimitState} {w : Limits}

theorem Frame.of_same {e : LimitEvent} {s' : LimitState} (hattr : s'.motionAttr = s.motionAttr)
    (hfeedrate : s'.planner.feedrate.feedrate = s.planner.feedrate.feedrate)
    (hring : s'.planner.ring = s.planner.ring) :
    Frame e s s' :=
  ⟨fun a _ => congrFun hattr a, hfeedrate, congrArg _ hring, congrArg _ hring, fun _ _ => by rw [hring]⟩

theorem frame_m201 (s : LimitState) (p : AxisArg) : Frame (.m201 p) s (s.event (.m201 p)) := by
  cases hrefused : m201Refused p with
  | true =>
    have hsame : s.event (.m201 p) = s := by simp [LimitState.event, gcodeM201Exec, hrefused]
    rw [hsame]
    exact Frame.of_same rfl rfl rfl
  | false =>
    rw [LimitState.event, m201_effect s hrefused]
    refine ⟨fun a hname => ?_, rfl, rfl, rfl, fun _ _ => rfl⟩
    have hnone : p.axis a = none := by simpa [LimitEvent.names] using hname
    simp [given, hnone]

theorem frame_m205 (s : LimitState) (axis : Axis → Option ℚ) : Frame (.m205 axis) s (s.event (.m205 axis)) := by
  obtain ⟨line, hline⟩ := m205_effect s axis
  rw [hline]
  refine ⟨fun _ _ => rfl, rfl, rfl, rfl, fun i hi => Function.update_of_ne ?_ _ _⟩
  unfold getPlanLineBuffNum buffMaxSize at hi
  unfold buffMaxSize
  omega

theorem m201_kept (s : LimitState) (p : AxisArg) : inForce (s.event (.m201 p)) = (inForce s).after (.m201 p) := by
  cases hrefused : m201Refused p with
  | true => simp [LimitState.event, gcodeM201Exec, Limits.after, hrefused]
  | false =>
    rw [LimitState.event, m201_effect s hrefused]
    simp [Limits.after, hrefused, inForce]

/-- `M203` keeps the limits in force and stores its last value as the modal feedrate. -/
theorem m203_iff (s : LimitState) (p : AxisArg) :
    (inForce (s.event (.m203 p)) = (inForce s).after (.m203 p) ∧ Frame (.m203 p) s (s.event (.m203 p))) ↔
      LimitOk s (.m203 p) := by
  cases hrefused : m203Refused p with
  | true =>
    have hsame : s.event (.m203 p) = s := by simp [LimitState.event, gcodeM203Exec, hrefused]
    rw [hsame]
    refine iff_of_true ⟨by simp [Limits.after, hrefused], Frame.of_same rfl rfl rfl⟩ ?_
    exact fun hnot => by rw [hrefused] at hnot; cases hnot
  | false =>
    have heffect : s.event (.m203 p) = s.setFeedRateAttr { s.planner.feedrate with
        feedrate := (lastGiven p.axis).getD s.planner.feedrate.feedrate } := m203_effect s hrefused
    have hforce : inForce (s.event (.m203 p)) = (inForce s).after (.m203 p) ↔
        ∀ a, ∀ v ∈ p.axis a, toS32 v = (s.motionAttr a).maxVelocity := by
      have hsame : inForce (s.event (.m203 p)) = inForce s := by
        rw [heffect]
        rfl
      have hafter : (inForce s).after (.m203 p) =
          { inForce s with maxSpeed := given p.axis (inForce s).maxSpeed } := by
        simp [Limits.after, hrefused]
      rw [hsame, hafter, ← given_eq_iff p.axis fun a => (s.motionAttr a).maxVelocity, Limits.ext_iff]
      exact ⟨fun hext => hext.2.1.symm, fun hspeed => ⟨rfl, hspeed.symm, rfl, rfl, rfl, rfl⟩⟩
    have hframe : Frame (.m203 p) s (s.event (.m203 p)) ↔
        ∀ v ∈ lastGiven p.axis, v = s.planner.feedrate.feedrate := by
      rw [heffect]
      constructor
      · intro hframe v hv
        have hfeedrate := hframe.feedrate
        simpa [LimitState.setFeedRateAttr, Option.mem_def.mp hv] using hfeedrate
      · intro hlast
        refine Frame.of_same rfl ?_ rfl
        cases hv : lastGiven p.axis with
        | none => rfl
        | some v => exact hlast v hv
    rw [hforce, hframe]
    exact (imp_iff_right hrefused).symm

theorem default_iff {α : Type*} [LinearOrder α] {bound default : α} (hdefault : bound < default) (v : α) :
    (if v ≤ bound then default else v) = v ↔ bound < v := by
  split_ifs with hle
  · refine iff_of_false ?_ (not_lt.mpr hle)
    rintro rfl
    exact absurd hdefault (not_lt.mpr hle)
  · exact iff_of_true rfl (not_le.mp hle)

theorem m204_iff (s : LimitState) (p r t : Option ℚ) :
    (inForce (s.event (.m204 p r t)) = (inForce s).after (.m204 p r t) ∧
      Frame (.m204 p r t) s (s.event (.m204 p r t))) ↔
      LimitOk s (.m204 p r t) := by
  obtain ⟨hattr, hplanner⟩ := m204_effect s p r t
  have hprint : (inForce (s.event (.m204 p r t))).print = (inForce s).print := by
    simp [inForce, hplanner]
  have hretract : (inForce (s.event (.m204 p r t))).retract = r.getD (inForce s).retract ↔ ∀ v ∈ r, eolData < v := by
    cases r with
    | none => simp [inForce, requestRetract, hplanner]
    | some v =>
      have hdefault : eolData < accelerationRetract := by norm_num [eolData, accelerationRetract]
      simpa [inForce, requestRetract, hplanner] using default_iff hdefault v
  have htravel : (inForce (s.event (.m204 p r t))).travel = (t.map fun v => (toS32 v : ℚ)).getD (inForce s).travel ↔
      ∀ v ∈ t, 0 < toS32 v := by
    cases t with
    | none => simp [inForce, hplanner]
    | some v =>
      have hdefault : (0 : ℚ) < accelerationTravel := by norm_num [accelerationTravel]
      simpa [inForce, hplanner] using default_iff hdefault (toS32 v : ℚ)
  -- the X axis keeps its acceleration
  have hkeeps : (∀ v ∈ p, toS32 v = (s.motionAttr .X).acceleration) →
      (s.event (.m204 p r t)).motionAttr = s.motionAttr := by
    intro hp
    rw [hattr]
    cases p with
    | none => rfl
    | some v =>
      rw [Option.map_some, Option.getD_some, hp v rfl]
      exact Function.update_eq_self _ _
  constructor
  · rintro ⟨hforce, -⟩
    rw [Limits.ext_iff] at hforce
    obtain ⟨haccel, -, -, hprint', hretract', htravel'⟩ := hforce
    refine ⟨fun v hv => ?_, hretract.mp hretract', htravel.mp htravel'⟩
    obtain rfl := Option.mem_def.mp hv
    have hx := congrFun haccel .X
    rw [hprint] at hprint'
    exact ⟨by simpa [inForce, hattr, Limits.after] using hx, hprint'.symm⟩
  · rintro ⟨hp, hr, ht⟩
    have hsame := hkeeps fun v hv => (hp v hv).1
    refine ⟨Limits.ext ?_ ?_ ?_ ?_ (hretract.mpr hr) (htravel.mpr ht), Frame.of_same hsame ?_ ?_⟩
    · exact congrArg (fun attr a => (attr a).acceleration) hsame
    · exact congrArg (fun attr a => (attr a).maxVelocity) hsame
    · exact congrArg (fun attr a => (attr a).jerk) hsame
    · rw [hprint]
      cases p with
      | none => rfl
      | some v => exact (hp v rfl).2.symm
    · rw [hplanner]
    · rw [hplanner]

theorem m205_iff (s : LimitState) (axis : Axis → Option ℚ) :
    (inForce (s.event (.m205 axis)) = (inForce s).after (.m205 axis) ∧ Frame (.m205 axis) s (s.event (.m205 axis))) ↔
      LimitOk s (.m205 axis) := by
  have hsame : inForce (s.event (.m205 axis)) = inForce s := by
    obtain ⟨line, hline⟩ := m205_effect s axis
    rw [hline]
    rfl
  rw [and_iff_left (frame_m205 s axis), hsame, LimitOk, ← given_eq_iff axis fun a => (s.motionAttr a).jerk,
    Limits.ext_iff]
  exact ⟨fun hext => hext.2.2.1.symm, fun hjerk => ⟨rfl, rfl, hjerk.symm, rfl, rfl, rfl⟩⟩

/-- **The commands** leave the limits that they should and change nothing else, exactly where they are right. -/
theorem command_iff (h : inForce s = w) {e : LimitEvent} (he : e.isCommand = true) :
    (inForce (s.event e) = w.after e ∧ Frame e s (s.event e)) ↔ LimitOk s e := by
  subst h
  cases e with
  | m201 p => exact iff_of_true ⟨m201_kept s p, frame_m201 s p⟩ trivial
  | m203 p => exact m203_iff s p
  | m204 p r t => exact m204_iff s p r t
  | m205 axis => exact m205_iff s axis
  | planLine => cases he
  | planRetract => cases he
  | feedrate => cases he
  | getNextPlanLine => cases he
  | planLineBuffClear => cases he

theorem event_isCommand_or (e : LimitEvent) :
    e.isCommand = true ∨ e.isCommand = false ∧ ∀ w : Limits, w.after e = w := by
  cases e <;> simp [LimitEvent.isCommand, Limits.after]

/-- **Every step** from a state whose limits are as they should be. -/
theorem limitKept_iff (h : inForce s = w) (e : LimitEvent) : LimitKept s w e ↔ LimitOk s e := by
  have hplanned (hkept : inForce (s.event e) = w.after e ∧ (e.isCommand = true → Frame e s (s.event e))) :
      LimitKept s w e :=
    ⟨fun current target _ => planLine_eq h current target, fun current target _ => planRetract_eq h current target,
      hkept.1,
      hkept.2⟩
  rcases event_isCommand_or e with he | ⟨he, hafter⟩
  · rw [← command_iff h he]
    exact ⟨fun hkept => ⟨hkept.force, hkept.frame he⟩, fun hkept => hplanned ⟨hkept.1, fun _ => hkept.2⟩⟩
  · refine iff_of_true (hplanned ⟨?_, fun hnot => by rw [he] at hnot; cases hnot⟩) ?_
    · rw [inForce_event he, hafter, h]
    · cases e <;> trivial

/-- A run with the limits that the commands should have left. -/
def limitStep (r : LimitState × Limits) (e : LimitEvent) : LimitState × Limits := (r.1.event e, r.2.after e)

/-- **Every run**: each event keeps what it owes to the limits exactly where each command is right. -/
theorem limits_run_iff (s : LimitState) (events : List LimitEvent) :
    AllSteps limitStep (fun r e => LimitKept r.1 r.2 e) (s, inForce s) events ↔
      AllSteps limitStep (fun r e => LimitOk r.1 e) (s, inForce s) events := by
  have hstep (r : LimitState × Limits) (e : LimitEvent) (h : inForce r.1 = r.2) :
      (LimitKept r.1 r.2 e ↔ LimitOk r.1 e) ∧ (LimitOk r.1 e → inForce (limitStep r e).1 = (limitStep r e).2) :=
    ⟨limitKept_iff h e, fun hok => ((limitKept_iff h e).mpr hok).force⟩
  exact allSteps_iff_of_invariant (I := fun r => inForce r.1 = r.2) hstep rfl events

/-- Limits of 500, 50 and 10 on all axes, and a ring without lines. -/
def startState : LimitState := ⟨fun _ => 100, id, fun _ => ⟨50, 500, 10⟩, Planner.init, 0, 0⟩

/-- `M203 X100` changes the feedrate and no speed, `M205 X5` no jerk, and `M204 P700` the acceleration of the X axis. -/
theorem commands_miss_limits :
    ¬ AllSteps limitStep (fun r e => LimitKept r.1 r.2 e) (startState, inForce startState)
        [.m203 ⟨none, fun | .X => some 100 | _ => none⟩] ∧
      ¬ AllSteps limitStep (fun r e => LimitKept r.1 r.2 e) (startState, inForce startState)
        [.m205 fun | .X => some 5 | _ => none] ∧
      ¬ AllSteps limitStep (fun r e => LimitKept r.1 r.2 e) (startState, inForce startState)
        [.m204 (some 700) none none] := by
  refine ⟨fun h => ?_, fun h => ?_, fun h => ?_⟩
  · have hfeedrate := (h.1.frame rfl).feedrate
    revert hfeedrate
    decide +kernel
  · have hjerk := congrFun (congrArg Limits.maxJerk h.1.force) .X
    revert hjerk
    decide +kernel
  · have haccel := (h.1.frame rfl).axis .X rfl
    revert haccel
    decide +kernel

end Steps

end Cxsw.LimitCommands
