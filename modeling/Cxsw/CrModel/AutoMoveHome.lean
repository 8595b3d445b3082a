import Cxsw.CrModel.MotionControl

/-!
# Cxsw.CrModel.AutoMoveHome — homing (`CrMotion/StepperApi.cpp`, `CrModel/CrMotion.cpp`)

`AutoMoveHome` raises Z, if told to, and homes X, Y and Z by `MoveHomeX`, `MoveHomeY` and `MoveHomeZ`: a line towards
the end stop, one away from it and one back, each followed by a loop that waits for the end of the motion, and in the
first and the last for the end stop as well.  Meanwhile the lines are executed and the end stops switch as they like.
Lengths are in millimeters, the rounding to steps is left out.

* `HomeStatement`: the bodies of the three functions.
* `Established`: at the return the axes that were homed stand at their end stops, and `LatestCoord` is where the pulses
  issued and queued lead to.
* `homing_establishes`: the branches that must not be taken for it.
* `homing_loses_position`: a run that takes three of them.
-/

namespace Cxsw.Motion

open MotionControl (HomeMark)

/-! ## The functions -/

section Defs

/-- `struct EndStop_t`, and the level of its pin. -/
structure EndStop where
  tragLevel : ℕ
  enable : Bool
  pin : ℕ

/-- `CrEndStopIoctl` with `CRENDSTOP_GET_TRAGSTATUS`; there is no status where it fails. -/
def getTragStatus (limit : ℤ → EndStop) (fd : ℤ) : Option Bool :=
  if fd < 0 then none
  else if (limit fd).tragLevel = 0xff ∨ (limit fd).enable = false then none
  else some (decide ((limit fd).tragLevel = (limit fd).pin))

/-- `CrEndStopIoctl` with `CRENDSTOP_SET_ENABLE` or `CRENDSTOP_SET_DISABLE`. -/
def setEnable (limit : ℤ → EndStop) (fd : ℤ) (enable : Bool) : Option (ℤ → EndStop) :=
  if fd < 0 then none else some (Function.update limit fd { limit fd with enable := enable })

/-- The statements of the functions that home an axis; an axis stands for its entry of `EndStopFd` or `StepperFd`. -/
inductive HomeStatement
  /-- `if (CrEndStopIoctl(.., CRENDSTOP_SET_ENABLE, 0) < 0) return 0;` -/
  | requireEnable (a : Axis)
  /-- `if (CrEndStopIoctl(.., CRENDSTOP_GET_TRAGSTATUS, &EndStopStatus) < 0) return FALSE;`, and the head of
  `if (EndStopStatus == FALSE)`, of two statements. -/
  | requireStatus (a : Axis)
  /-- `while (PlanLine(LineBuff, &CurCoordinate, &Target) < 0)`, for a target that differs on one axis. -/
  | planLine (a : Axis) (d : ℚ)
  /-- `while (!IsMotionComplete(LineBuff, &AxisFifo))`, which is left as well when the end stop is triggered. -/
  | waitOr (a : Axis)
  /-- The condition of the `break` in that loop. -/
  | poll (a : Axis)
  /-- `while (!IsMotionComplete(LineBuff, &AxisFifo))` -/
  | wait
  /-- `if (CrEndStopIoctl(.., CRENDSTOP_GET_TRAGSTATUS, ..) >= 0 && EndStopStatus == TRUE)`, or else `return FALSE;` -/
  | requireTriggered (a : Axis)
  /-- `PlanLineBuffClear`, `DiscardCurrentLine` and `SteppersStopQuick`. -/
  | stop
  /-- `CrEndStopIoctl(.., CRENDSTOP_SET_ENABLE, 0);` or `CRENDSTOP_SET_DISABLE`. -/
  | enable (a : Axis) (enable : Bool)
  /-- `CrStepperIoctl(.., CRSTEPPER_SET_POS, &Pos)` with 0, and `return 0;` where it fails. -/
  | setPos (a : Axis)
  /-- `HomeSetFlag |= ..` -/
  | setFlag (a : Axis)
  deriving DecidableEq

/-- `MoveHomeX`. -/
def moveHomeX : List HomeStatement :=
  [.requireEnable .X, .requireStatus .X, .planLine .X (-220), .waitOr .X, .requireTriggered .X, .stop, .enable .X false,
    .planLine .X 2, .wait, .planLine .X (-2), .enable .X true, .waitOr .X, .setPos .X, .setFlag .X, .enable .X false]

/-- `MoveHomeY`, which enables the end stop before the last line is planned. -/
def moveHomeY : List HomeStatement :=
  [.requireEnable .Y, .requireStatus .Y, .planLine .Y (-220), .waitOr .Y, .requireTriggered .Y, .stop, .enable .Y false,
    .planLine .Y 2, .wait, .enable .Y true, .planLine .Y (-2), .waitOr .Y, .setPos .Y, .setFlag .Y, .enable .Y false]

/-- `MoveHomeZ`, the last loop of which reads the end stop of X. -/
def moveHomeZ : List HomeStatement :=
  [.requireEnable .Z, .requireStatus .Z, .planLine .Z (-250), .waitOr .Z, .requireTriggered .Z, .stop, .enable .Z false,
    .planLine .Z 2, .wait, .enable .Z true, .planLine .Z (-2), .waitOr .X, .setPos .Z, .setFlag .Z, .enable .Z false]

/-- The function that homes an axis. -/
def moveHome : Axis → List HomeStatement
  | .X => moveHomeX
  | .Y => moveHomeY
  | .Z => moveHomeZ
  | .E => []

/-- `Mark & HOME_OPT_X`, and so on. -/
def homeOpt (mark : HomeMark) : Axis → Bool
  | .X => mark.x
  | .Y => mark.y
  | .Z => mark.z
  | .E => false

/-- Where `AutoMoveHome` stands. -/
inductive HomePc
  /-- Another function has been called since the last homing. -/
  | outside
  /-- It has returned. -/
  | returned
  /-- In the loop that plans the line that raises Z. -/
  | raising
  /-- Before the test of the option of an axis. -/
  | selecting (a : Axis)
  /-- In the function that homes the axis, with the statements that are left. -/
  | homing (a : Axis) (rest : List HomeStatement)
  deriving DecidableEq

/-- No call is under way. -/
def HomePc.Idle : HomePc → Prop
  | .outside | .returned => True
  | _ => False

/-- Behind the statement of an axis. -/
def HomePc.behind : Axis → HomePc
  | .X => .selecting .Y
  | .Y => .selecting .Z
  | .Z | .E => .returned

/-- What held when the position of an axis was set to zero. -/
structure HomeReport where
  triggered : Bool
  pending : List (Axis → ℚ)

/-- The state, with lengths in mm. -/
structure Homing where
  stepperFd : Axis → ℤ
  endStopFd : Axis → ℤ
  homeSetFlag : Axis → Bool
  limit : ℤ → EndStop
  /-- A stepper is open under the descriptor. -/
  opened : ℤ → Bool
  latestCoord : Axis → ℚ
  curPos : Axis → ℚ
  deltamm : Axis → ℚ
  /-- Where the pulses have led to. -/
  position : Axis → ℚ
  /-- What is left of the lines that have been planned, in order. -/
  pending : List (Axis → ℚ)
  mark : HomeMark
  pc : HomePc
  /-- The descriptors of the end stops of the axes. -/
  ownFd : Axis → ℤ
  /-- The axes homed by the call. -/
  report : Axis → Option HomeReport

/-- `StepperInit`, which takes the descriptors of the steppers for the end stops as well. -/
def stepperInit (s : Homing) (stepper_Fd endStop_Fd : Axis → ℤ) : Homing :=
  { s with stepperFd := stepper_Fd, endStopFd := stepper_Fd, ownFd := endStop_Fd }

/-- After power-on, with the tables of the end stops and of the steppers. -/
def initHoming (stepper_Fd endStop_Fd : Axis → ℤ) (limit : ℤ → EndStop) (opened : ℤ → Bool) : Homing :=
  stepperInit ⟨fun _ => -1, fun _ => -1, fun _ => false, limit, opened, 0, 0, 0, 0, [],
    ⟨false, false, false, false, false⟩, .outside, fun _ => -1, fun _ => none⟩ stepper_Fd endStop_Fd

/-- `IsHome`. -/
def isHome (s : Homing) : Bool := s.homeSetFlag .Z && s.homeSetFlag .X && s.homeSetFlag .Y

/-- The displacement of an axis by some lines. -/
def queued (lines : List (Axis → ℚ)) (a : Axis) : ℚ := (lines.map fun l => l a).sum

/-- The end stop of an axis is triggered. -/
def Triggered (s : Homing) (a : Axis) : Prop := (s.limit (s.ownFd a)).tragLevel = (s.limit (s.ownFd a)).pin

/-- `LatestCoord` is where the pulses issued and queued lead to. -/
def TracksAt (s : Homing) (a : Axis) : Prop := s.latestCoord a = s.position a + queued s.pending a

def Tracks (s : Homing) : Prop := ∀ a, TracksAt s a

instance (s : Homing) (a : Axis) : Decidable (Triggered s a) :=
  inferInstanceAs (Decidable (_ = _))

instance (s : Homing) (a : Axis) : Decidable (TracksAt s a) :=
  inferInstanceAs (Decidable (_ = _))

/-- The statement of the function that homes `a`; `answer` is that of `IsMotionComplete`, which is `TRUE` only where
nothing is pending, or whether `PlanLine` takes the line, and `kept` is what a stop leaves. -/
def bodyStatement (s : Homing) (a : Axis) (st : HomeStatement) (rest : List HomeStatement) (answer : Bool)
    (kept : List (Axis → ℚ)) : Homing :=
  match st with
  | .requireEnable b =>
    match setEnable s.limit (s.endStopFd b) true with
    | some limit => { s with limit := limit, pc := .homing a rest }
    | none => { s with pc := .behind a }
  | .requireStatus b =>
    match getTragStatus s.limit (s.endStopFd b) with
    | some true => { s with pc := .homing a (rest.drop 2) }
    | some false => { s with pc := .homing a rest }
    | none => { s with pc := .behind a }
  | .planLine b d =>
    if answer then { s with pending := s.pending ++ [Function.update (0 : Axis → ℚ) b d], pc := .homing a rest } else s
  | .waitOr b => { s with pc := .homing a (if answer ∧ s.pending = [] then rest else .poll b :: rest) }
  | .poll b =>
    { s with
      pc := .homing a (if getTragStatus s.limit (s.endStopFd b) = some true then rest else .waitOr b :: rest) }
  | .wait => if answer ∧ s.pending = [] then { s with pc := .homing a rest } else s
  | .requireTriggered b =>
    { s with
      pc := if getTragStatus s.limit (s.endStopFd b) = some true then .homing a rest else .behind a }
  | .stop => { s with pending := kept, pc := .homing a rest }
  | .enable b on => { s with limit := (setEnable s.limit (s.endStopFd b) on).getD s.limit, pc := .homing a rest }
  | .setPos b =>
    if s.opened (s.stepperFd b) then
      { s with
        position := Function.update s.position b 0
        report := Function.update s.report b (some ⟨decide (Triggered s b), s.pending⟩)
        pc := .homing a rest }
    else { s with pc := .behind a }
  | .setFlag b => { s with homeSetFlag := Function.update s.homeSetFlag b true, pc := .homing a rest }

/-- The next statement of `AutoMoveHome`. -/
def homeStatement (s : Homing) (answer : Bool) (kept : List (Axis → ℚ)) : Homing :=
  match s.pc with
  | .outside | .returned => s
  | .raising =>
    if answer then { s with pending := s.pending ++ [Function.update (0 : Axis → ℚ) .Z 2], pc := .selecting .X } else s
  | .selecting a => { s with pc := if homeOpt s.mark a then .homing a (moveHome a) else .behind a }
  | .homing a [] =>
    { s with
      curPos := Function.update s.curPos a 0
      latestCoord := Function.update s.latestCoord a 0
      pc := .behind a }
  | .homing a (st :: rest) => bodyStatement s a st rest answer kept

/-- `AutoMoveHome` up to its first loop. -/
def callHome (s : Homing) (mark : HomeMark) : Homing :=
  { s with
    deltamm := 0
    mark := mark
    report := fun _ => none
    pc := if mark.o && isHome s then .returned else if mark.r then .raising else .selecting .X }

/-- Who acts. -/
inductive HomeAct
  | autoMoveHome (mark : HomeMark)
  /-- The next statement, with the answer of `IsMotionComplete` or of `PlanLine`, and what a stop leaves. -/
  | statement (answer : Bool) (kept : List (Axis → ℚ))
  /-- Pulses of the oldest line are issued. -/
  | execute (d : Axis → ℚ)
  /-- All that are left of it. -/
  | finish
  /-- The pins of the end stops. -/
  | pins (level : ℤ → ℕ)
  /-- A move. -/
  | move (d : Axis → ℚ)
  /-- A line that leaves `LatestCoord`, as in a pause. -/
  | plan (d : Axis → ℚ)
  /-- `SetLatestCoord`: the coordinates are counted from elsewhere. -/
  | setLatestCoord (coord : Axis → ℚ)
  /-- `StopMotionUrgently`, with the positions it finds. -/
  | stopMotionUrgently (coord : Axis → ℚ) (kept : List (Axis → ℚ))

instance (pc : HomePc) : Decidable pc.Idle :=
  match pc with
  | .outside | .returned => isTrue trivial
  | .raising | .selecting _ | .homing _ _ => isFalse id

/-- The state after an act.  The other functions are called by the same thread. -/
def homeAct (s : Homing) : HomeAct → Homing
  | .autoMoveHome mark => if s.pc.Idle then callHome s mark else s
  | .statement answer kept => homeStatement s answer kept
  | .execute d =>
    match s.pending with
    | [] => s
    | l :: lines => { s with position := s.position + d, pending := (l - d) :: lines }
  | .finish =>
    match s.pending with
    | [] => s
    | l :: lines => { s with position := s.position + l, pending := lines }
  | .pins level => { s with limit := fun fd => { s.limit fd with pin := level fd } }
  | .move d =>
    if s.pc.Idle then { s with latestCoord := s.latestCoord + d, pending := s.pending ++ [d], pc := .outside } else s
  | .plan d => if s.pc.Idle then { s with pending := s.pending ++ [d], pc := .outside } else s
  | .setLatestCoord coord =>
    if s.pc.Idle then { s with latestCoord := coord, position := coord - queued s.pending, pc := .outside } else s
  | .stopMotionUrgently coord kept =>
    if s.pc.Idle then { s with latestCoord := coord, pending := kept, pc := .outside } else s

/-- The same as a relation. -/
def HomeStep (s : Homing) (a : HomeAct) (t : Homing) : Prop := t = homeAct s a

/-- At the return, every axis that was homed was at its end stop with nothing left to execute when its position was set
to zero, and `LatestCoord` is right. -/
def Established (s : Homing) : Prop :=
  (∀ a r, s.report a = some r → r.triggered = true ∧ r.pending = []) ∧ Tracks s

/-- The axis is homed from here on. -/
def Coming (s : Homing) (a b : Axis) : Prop := homeOpt s.mark b = true ∧ a.index ≤ b.index

/-- The axis is at its end stop, and nothing is left to execute. -/
def Arrived (s : Homing) (a : Axis) : Prop := Triggered s a ∧ s.pending = []

/-- The position is set next. -/
def AtLanding : List HomeStatement → Prop
  | .setPos _ :: _ => True
  | _ => False

/-- The branches of the function that homes `a`.  Where it gives up, `LatestCoord` is still right for the axis; where it
stops, no motion is lost of an axis that is not homed; where the motion ends in the last loop, the end stop is
triggered; and where that loop is left for an end stop, so is that of the axis, and nothing is pending. -/
def StatementOk (s : Homing) (a : Axis) (st : HomeStatement) (rest : List HomeStatement) (answer : Bool)
    (kept : List (Axis → ℚ)) : Prop :=
  match st with
  | .requireEnable b => s.endStopFd b < 0 → TracksAt s a
  | .requireStatus b => getTragStatus s.limit (s.endStopFd b) = none → TracksAt s a
  | .requireTriggered b => getTragStatus s.limit (s.endStopFd b) ≠ some true → TracksAt s a
  | .setPos b => s.opened (s.stepperFd b) = false → TracksAt s a
  | .stop => ∀ b, Coming s a b ∨ queued kept b = queued s.pending b
  | .waitOr _ => answer = true → s.pending = [] → AtLanding rest → Triggered s a
  | .poll b => getTragStatus s.limit (s.endStopFd b) = some true → AtLanding rest → Arrived s a
  | _ => True

/-- The branches that keep the coordinates.  At the call `LatestCoord` is right for the axes that are not homed; Z is
only raised to be homed; and the end stop stays triggered until the position is set. -/
def HomeOk (s : Homing) : HomeAct → Prop
  | .autoMoveHome mark => ∀ b, TracksAt s b ∨ (mark.o && isHome s) = false ∧ homeOpt mark b = true
  | .statement answer kept =>
    match s.pc with
    | .raising => s.mark.z = true
    | .homing a (st :: rest) => StatementOk s a st rest answer kept
    | _ => True
  | .pins level =>
    match s.pc with
    | .homing a rest => AtLanding rest → Triggered s a → Triggered (homeAct s (.pins level)) a
    | _ => True
  | _ => True

theorem forall_axis {p : Axis → Prop} : (p .X ∧ p .Y ∧ p .Z ∧ p .E) ↔ ∀ a, p a := by
  constructor
  · intro h a
    cases a with
    | X => exact h.1
    | Y => exact h.2.1
    | Z => exact h.2.2.1
    | E => exact h.2.2.2
  · intro h
    exact ⟨h .X, h .Y, h .Z, h .E⟩

instance decidableForallAxis (p : Axis → Prop) [d : DecidablePred p] : Decidable (∀ a, p a) :=
  @decidable_of_iff _ _ forall_axis
    (@instDecidableAnd _ _ (d .X) (@instDecidableAnd _ _ (d .Y) (@instDecidableAnd _ _ (d .Z) (d .E))))

instance (s : Homing) (a b : Axis) : Decidable (Coming s a b) := inferInstanceAs (Decidable (_ ∧ _))

instance (s : Homing) (a : Axis) : Decidable (Arrived s a) := inferInstanceAs (Decidable (_ ∧ _))

instance : (rest : List HomeStatement) → Decidable (AtLanding rest)
  | [] => isFalse id
  | st :: _ => by
    cases st <;> first | exact isTrue trivial | exact isFalse id

instance (s : Homing) (a : Axis) (st : HomeStatement) (rest : List HomeStatement) (answer : Bool)
    (kept : List (Axis → ℚ)) : Decidable (StatementOk s a st rest answer kept) := by
  cases st <;> unfold StatementOk <;> infer_instance

instance (s : Homing) (act : HomeAct) : Decidable (HomeOk s act) := by
  unfold HomeOk
  cases act <;> dsimp only <;> first | infer_instance | (split <;> infer_instance)

end Defs

/-! ## What the acts do to the coordinates -/

section Coordinates

variable {s : Homing} {a b : Axis}

@[simp] theorem queued_nil (a : Axis) : queued [] a = 0 := rfl

@[simp] theorem queued_cons (l : Axis → ℚ) (lines : List (Axis → ℚ)) (a : Axis) :
    queued (l :: lines) a = l a + queued lines a := by
  simp [queued]

@[simp] theorem queued_append (lines : List (Axis → ℚ)) (l : Axis → ℚ) (a : Axis) :
    queued (lines ++ [l]) a = queued lines a + l a := by
  simp [queued]

theorem queued_other (lines : List (Axis → ℚ)) (d : ℚ) (h : b ≠ a) :
    queued (lines ++ [Function.update (0 : Axis → ℚ) a d]) b = queued lines b := by
  rw [queued_append, Function.update_of_ne h]
  exact add_zero _

/-- Pulses move what is queued to what has been issued. -/
theorem tracksAt_execute (d : Axis → ℚ) : TracksAt (homeAct s (.execute d)) a ↔ TracksAt s a := by
  unfold TracksAt homeAct
  cases hs : s.pending with
  | nil => simp [hs]
  | cons l lines =>
    simp only [queued_cons, Pi.add_apply, Pi.sub_apply]
    rw [show s.position a + d a + (l a - d a + queued lines a) = s.position a + (l a + queued lines a) by ring]

theorem tracksAt_finish : TracksAt (homeAct s .finish) a ↔ TracksAt s a := by
  unfold TracksAt homeAct
  cases hs : s.pending with
  | nil => simp [hs]
  | cons l lines =>
    simp only [queued_cons, Pi.add_apply]
    rw [add_assoc]

end Coordinates

/-! ## The bodies -/

section Bodies

/-- Nothing moves any more. -/
def HomeStatement.Still : HomeStatement → Prop
  | .setFlag _ | .enable _ _ => True
  | _ => False

/-- It plans no line and sets no position. -/
def HomeStatement.Free : HomeStatement → Prop
  | .requireEnable _ | .requireTriggered _ | .stop | .enable _ _ | .wait => True
  | _ => False

/-- The lines are the axis' own, and its position is set directly behind a loop, the last that moves it. -/
inductive Approaches (a : Axis) : List HomeStatement → Prop
  | setPos {rest : List HomeStatement} : (∀ st ∈ rest, st.Still) → Approaches a (.setPos a :: rest)
  | waitOr {b : Axis} {rest : List HomeStatement} : Approaches a rest → Approaches a (.waitOr b :: rest)
  | poll {b : Axis} {rest : List HomeStatement} : Approaches a rest → Approaches a (.poll b :: rest)
  | planLine {d : ℚ} {rest : List HomeStatement} :
    ¬AtLanding rest → Approaches a rest → Approaches a (.planLine a d :: rest)
  | requireStatus {b : Axis} {rest : List HomeStatement} :
    ¬AtLanding rest → Approaches a rest → ¬AtLanding (rest.drop 2) → Approaches a (rest.drop 2) →
      Approaches a (.requireStatus b :: rest)
  | free {st : HomeStatement} {rest : List HomeStatement} :
    st.Free → ¬AtLanding rest → Approaches a rest → Approaches a (st :: rest)

theorem approaches_last {a b : Axis} : Approaches a [.waitOr b, .setPos a, .setFlag a, .enable a false] := by
  refine .waitOr (.setPos fun st hst => ?_)
  simp only [List.mem_cons, List.not_mem_nil, or_false] at hst
  obtain rfl | rfl := hst <;> trivial

/-- The first two lines, which the functions have in common. -/
theorem approaches_first {a : Axis} {d : ℚ} {rest : List HomeStatement} (hland : ¬AtLanding rest)
    (h : Approaches a rest) : Approaches a (.requireEnable a :: .requireStatus a :: .planLine a d :: .waitOr a ::
      .requireTriggered a :: .stop :: .enable a false :: .planLine a 2 :: .wait :: rest) := by
  have hprobed : Approaches a (.requireTriggered a :: .stop :: .enable a false :: .planLine a 2 :: .wait :: rest) :=
    .free trivial id (.free trivial id (.free trivial id (.planLine id (.free trivial hland h))))
  exact .free trivial id (.requireStatus id (.planLine id (.waitOr hprobed)) id hprobed)

theorem approaches_moveHome {mark : HomeMark} {a : Axis} (h : homeOpt mark a = true) :
    Approaches a (moveHome a) ∧ ¬AtLanding (moveHome a) := by
  cases a with
  | X => exact ⟨approaches_first id (.planLine id (.free trivial id approaches_last)), id⟩
  | Y => exact ⟨approaches_first id (.free trivial id (.planLine id approaches_last)), id⟩
  | Z => exact ⟨approaches_first id (.free trivial id (.planLine id approaches_last)), id⟩
  | E => cases h

/-- What holds in the function that homes `a`: up to the end of the last loop it is on its way, and afterwards the axis
stands at zero. -/
def InBody (s : Homing) (a : Axis) (rest : List HomeStatement) : Prop :=
  (Approaches a rest ∧ (AtLanding rest → Arrived s a)) ∨
    ((∀ st ∈ rest, st.Still) ∧ s.position a = 0 ∧ s.pending = [])

end Bodies

/-! ## The invariant -/

section Invariant

/-- The axes homed so far were at their end stops. -/
def ReportOk (s : Homing) : Prop := ∀ a r, s.report a = some r → r.triggered = true ∧ r.pending = []

/-- `LatestCoord` is right but for the axes that are homed from `a` on. -/
def TracksBut (s : Homing) (a : Axis) : Prop := ∀ b, TracksAt s b ∨ Coming s a b

/-- The invariant. -/
def HomeInv (s : Homing) : Prop :=
  match s.pc with
  | .outside => True
  | .returned => Established s
  | .raising => ReportOk s ∧ TracksBut s .X
  | .selecting a => ReportOk s ∧ TracksBut s a
  | .homing a rest => ReportOk s ∧ TracksBut s a ∧ homeOpt s.mark a = true ∧ InBody s a rest

variable {s t : Homing} {a b : Axis} {st : HomeStatement} {rest : List HomeStatement}

/-- Behind an axis whose coordinate is right. -/
theorem homeInv_behind (hreport : ReportOk s) (htracks : TracksBut s a) (ha : homeOpt s.mark a = false ∨ TracksAt s a) :
    HomeInv { s with pc := .behind a } := by
  -- the axes from `a` on are `a` and those behind it
  have hrest : ∀ b, TracksAt s b ∨ homeOpt s.mark b = true ∧ a.index < b.index := by
    intro b
    obtain hb | ⟨hopt, hle⟩ := htracks b
    · exact Or.inl hb
    · by_cases heq : a = b
      · subst heq
        exact ha.elim (fun h => absurd hopt (by rw [h]; decide)) Or.inl
      · refine Or.inr ⟨hopt, lt_of_le_of_ne hle fun h => heq ?_⟩
        cases a <;> cases b <;> first | rfl | cases h
  cases a with
  | X => exact ⟨hreport, fun b => (hrest b).imp_right fun h => ⟨h.1, h.2⟩⟩
  | Y => exact ⟨hreport, fun b => (hrest b).imp_right fun h => ⟨h.1, h.2⟩⟩
  | Z =>
    refine ⟨hreport, fun b => (hrest b).elim id fun h => ?_⟩
    cases b <;> first | exact absurd h.2 (by decide) | cases h.1
  | E =>
    refine ⟨hreport, fun b => (hrest b).elim id fun h => ?_⟩
    cases b <;> exact absurd h.2 (by decide)

theorem homeInv_approaching {answer : Bool} {kept : List (Axis → ℚ)} (hreport : ReportOk s) (htracks : TracksBut s a)
    (hopt : homeOpt s.mark a = true) (h : Approaches a (st :: rest)) (hland : AtLanding (st :: rest) → Arrived s a)
    (hpc : s.pc = .homing a (st :: rest)) (hok : StatementOk s a st rest answer kept) :
    HomeInv (bodyStatement s a st rest answer kept) := by
  have hinv : HomeInv s := by
    unfold HomeInv
    rw [hpc]
    exact ⟨hreport, htracks, hopt, Or.inl ⟨h, hland⟩⟩
  have hstay : a.index ≤ a.index := le_rfl
  cases h with
  | setPos hstill =>
    have harrived := hland trivial
    unfold bodyStatement
    dsimp only
    split_ifs with hopen
    · refine ⟨?_, fun b => ?_, hopt, Or.inr ⟨hstill, Function.update_self _ _ _, harrived.2⟩⟩
      · intro b r hr
        dsimp only at hr
        by_cases heq : b = a
        · rw [heq, Function.update_self, Option.some.injEq] at hr
          rw [← hr]
          exact ⟨decide_eq_true harrived.1, harrived.2⟩
        · rw [Function.update_of_ne heq] at hr
          exact hreport b r hr
      · by_cases heq : b = a
        · rw [heq]
          exact Or.inr ⟨hopt, hstay⟩
        · refine (htracks b).imp_left fun hb => ?_
          unfold TracksAt at hb ⊢
          dsimp only
          rwa [Function.update_of_ne heq]
    · exact homeInv_behind hreport htracks (Or.inr (hok (Bool.eq_false_iff.mpr hopen)))
  | waitOr h =>
    unfold bodyStatement
    dsimp only
    split_ifs with hcomplete
    · exact ⟨hreport, htracks, hopt, Or.inl ⟨h, fun hat => ⟨hok hcomplete.1 hcomplete.2 hat, hcomplete.2⟩⟩⟩
    · exact ⟨hreport, htracks, hopt, Or.inl ⟨.poll h, fun h => h.elim⟩⟩
  | poll h =>
    unfold bodyStatement
    dsimp only
    split_ifs with htriggered
    · exact ⟨hreport, htracks, hopt, Or.inl ⟨h, hok htriggered⟩⟩
    · exact ⟨hreport, htracks, hopt, Or.inl ⟨.waitOr h, fun h => h.elim⟩⟩
  | planLine hnot h =>
    unfold bodyStatement
    dsimp only
    split_ifs
    · refine ⟨hreport, fun b => ?_, hopt, Or.inl ⟨h, fun h => absurd h hnot⟩⟩
      by_cases heq : b = a
      · rw [heq]
        exact Or.inr ⟨hopt, hstay⟩
      · refine (htracks b).imp_left fun hb => ?_
        unfold TracksAt at hb ⊢
        dsimp only
        rwa [queued_other _ _ heq]
    · exact hinv
  | requireStatus hnot h hnot' h' =>
    unfold bodyStatement
    dsimp only
    split
    · exact ⟨hreport, htracks, hopt, Or.inl ⟨h', fun h => absurd h hnot'⟩⟩
    · exact ⟨hreport, htracks, hopt, Or.inl ⟨h, fun h => absurd h hnot⟩⟩
    · rename_i hnone
      exact homeInv_behind hreport htracks (Or.inr (hok hnone))
  | free hfree hnot h =>
    have hnext : ∀ u : Homing, InBody u a rest := fun u => Or.inl ⟨h, fun h => absurd h hnot⟩
    cases st with
    | requireEnable b =>
      unfold bodyStatement setEnable
      dsimp only
      split_ifs with hfd
      · exact homeInv_behind hreport htracks (Or.inr (hok hfd))
      · exact ⟨hreport, htracks, hopt, hnext _⟩
    | requireTriggered b =>
      unfold bodyStatement
      dsimp only
      split_ifs with htriggered
      · exact ⟨hreport, htracks, hopt, hnext _⟩
      · exact homeInv_behind hreport htracks (Or.inr (hok htriggered))
    | stop =>
      refine ⟨hreport, fun b => ?_, hopt, hnext _⟩
      obtain hb | hb := hok b
      · exact Or.inr hb
      · refine (htracks b).imp_left fun htracks => ?_
        unfold TracksAt bodyStatement at *
        dsimp only
        rw [htracks, hb]
    | enable b on => exact ⟨hreport, htracks, hopt, hnext _⟩
    | wait =>
      unfold bodyStatement
      dsimp only
      split_ifs
      · exact ⟨hreport, htracks, hopt, hnext _⟩
      · exact hinv
    | _ => exact hfree.elim

/-- A statement after the position has been set. -/
theorem homeInv_still {answer : Bool} {kept : List (Axis → ℚ)} (hreport : ReportOk s) (htracks : TracksBut s a)
    (hopt : homeOpt s.mark a = true) (hstill : ∀ u ∈ st :: rest, u.Still) (hpos : s.position a = 0)
    (hpending : s.pending = []) : HomeInv (bodyStatement s a st rest answer kept) := by
  have hrest : ∀ u ∈ rest, u.Still := fun u hu => hstill u (List.mem_cons_of_mem _ hu)
  have hst := hstill st List.mem_cons_self
  cases st with
  | setFlag b => exact ⟨hreport, htracks, hopt, Or.inr ⟨hrest, hpos, hpending⟩⟩
  | enable b on => exact ⟨hreport, htracks, hopt, Or.inr ⟨hrest, hpos, hpending⟩⟩
  | _ => exact hst.elim

/-- The function that homes an axis returns `TRUE`. -/
theorem homeInv_return (hreport : ReportOk s) (htracks : TracksBut s a) (hbody : InBody s a []) :
    HomeInv { s with
      curPos := Function.update s.curPos a 0
      latestCoord := Function.update s.latestCoord a 0
      pc := .behind a } := by
  obtain ⟨h, -⟩ | ⟨-, hpos, hpending⟩ := hbody
  · cases h
  have ha : ∀ coord : Axis → ℚ, coord a = 0 → coord a = s.position a + queued s.pending a := by
    intro coord hcoord
    rw [hcoord, hpos, hpending, queued_nil, add_zero]
  refine homeInv_behind (s := { s with
    curPos := Function.update s.curPos a 0
    latestCoord := Function.update s.latestCoord a 0 }) hreport (fun b => ?_)
    (Or.inr (ha _ (Function.update_self _ _ _)))
  by_cases heq : b = a
  · rw [heq]
    exact Or.inl (ha _ (Function.update_self _ _ _))
  · refine (htracks b).imp_left fun hb => ?_
    unfold TracksAt at hb ⊢
    dsimp only
    rwa [Function.update_of_ne heq]

theorem homeInv_statement {answer : Bool} {kept : List (Axis → ℚ)} (h : HomeInv s)
    (hok : HomeOk s (.statement answer kept)) : HomeInv (homeStatement s answer kept) := by
  have hs := h
  unfold HomeInv at hs
  unfold HomeOk at hok
  unfold homeStatement
  cases hpc : s.pc with
  | outside => exact h
  | returned => exact h
  | raising =>
    rw [hpc] at hs hok
    dsimp only
    split_ifs
    · refine ⟨hs.1, fun b => ?_⟩
      by_cases heq : b = .Z
      · rw [heq]
        exact Or.inr ⟨hok, by decide⟩
      · refine (hs.2 b).imp_left fun hb => ?_
        unfold TracksAt at hb ⊢
        dsimp only
        rwa [queued_other _ _ heq]
    · exact h
  | selecting a =>
    rw [hpc] at hs
    dsimp only
    split_ifs with hopt
    · obtain ⟨happroach, hnot⟩ := approaches_moveHome hopt
      exact ⟨hs.1, hs.2, hopt, Or.inl ⟨happroach, fun h => absurd h hnot⟩⟩
    · exact homeInv_behind hs.1 hs.2 (Or.inl (Bool.eq_false_iff.mpr hopt))
  | homing a rest =>
    rw [hpc] at hs hok
    obtain ⟨hreport, htracks, hopt, hbody⟩ := hs
    cases rest with
    | nil => exact homeInv_return hreport htracks hbody
    | cons st rest =>
      obtain ⟨happroach, hland⟩ | ⟨hstill, hpos, hpending⟩ := hbody
      · exact homeInv_approaching hreport htracks hopt happroach hland hpc hok
      · exact homeInv_still hreport htracks hopt hstill hpos hpending

theorem homeInv_call {mark : HomeMark} (hok : HomeOk s (.autoMoveHome mark)) : HomeInv (callHome s mark) := by
  have hnone : ReportOk (callHome s mark) := fun a r hr => by cases hr
  have htracks : TracksBut (callHome s mark) .X := fun b => (hok b).imp_right fun h => ⟨h.2, Nat.zero_le _⟩
  unfold HomeInv callHome at *
  dsimp only at *
  by_cases ho : (mark.o && isHome s) = true
  · rw [if_pos ho]
    refine ⟨hnone, fun b => (hok b).elim id fun h => ?_⟩
    rw [ho] at h
    cases h.1
  · rw [if_neg ho]
    split_ifs
    · exact ⟨hnone, htracks⟩
    · exact ⟨hnone, htracks⟩

theorem homeInv_issue {position : Axis → ℚ} {pending : List (Axis → ℚ)} (h : HomeInv s) (hne : s.pending ≠ [])
    (htracks : ∀ b, TracksAt { s with position := position, pending := pending } b ↔ TracksAt s b) :
    HomeInv { s with position := position, pending := pending } := by
  have hbut : ∀ a, TracksBut s a → TracksBut { s with position := position, pending := pending } a :=
    fun a ha b => (ha b).imp_left (htracks b).mpr
  unfold HomeInv at *
  dsimp only
  cases hpc : s.pc with
  | outside => trivial
  | returned =>
    rw [hpc] at h
    exact ⟨h.1, fun b => (htracks b).mpr (h.2 b)⟩
  | raising =>
    rw [hpc] at h
    exact ⟨h.1, hbut _ h.2⟩
  | selecting a =>
    rw [hpc] at h
    exact ⟨h.1, hbut _ h.2⟩
  | homing a rest =>
    rw [hpc] at h
    obtain ⟨hreport, hold, hopt, hbody⟩ := h
    refine ⟨hreport, hbut _ hold, hopt, ?_⟩
    -- where the axis has arrived, nothing is left to execute
    obtain ⟨happroach, hland⟩ | ⟨-, -, hpending⟩ := hbody
    · exact Or.inl ⟨happroach, fun h => absurd (hland h).2 hne⟩
    · exact absurd hpending hne

theorem homeInv_pins {level : ℤ → ℕ} (h : HomeInv s) (hok : HomeOk s (.pins level)) :
    HomeInv (homeAct s (.pins level)) := by
  unfold HomeInv HomeOk at *
  show match s.pc with
    | .outside => True
    | .returned => Established s
    | .raising => ReportOk s ∧ TracksBut s .X
    | .selecting a => ReportOk s ∧ TracksBut s a
    | .homing a rest => ReportOk s ∧ TracksBut s a ∧ homeOpt s.mark a = true ∧ InBody (homeAct s (.pins level)) a rest
  cases hpc : s.pc with
  | homing a rest =>
    rw [hpc] at h hok
    obtain ⟨hreport, htracks, hopt, hbody⟩ := h
    refine ⟨hreport, htracks, hopt, hbody.imp_left fun ⟨happroach, hland⟩ => ⟨happroach, fun hat => ?_⟩⟩
    exact ⟨hok hat (hland hat).1, (hland hat).2⟩
  | _ =>
    rw [hpc] at h
    exact h

/-- A function that is called by the same thread. -/
theorem homeInv_outside (h : HomeInv s) (ht : t.pc = .outside) : HomeInv (if s.pc.Idle then t else s) := by
  split_ifs
  · unfold HomeInv
    rw [ht]
    trivial
  · exact h

theorem homeInv_step {act : HomeAct} (h : HomeInv s) (hok : HomeOk s act) : HomeInv (homeAct s act) := by
  cases act with
  | autoMoveHome mark =>
    unfold homeAct
    dsimp only
    split_ifs
    · exact homeInv_call hok
    · exact h
  | statement answer kept => exact homeInv_statement h hok
  | execute d =>
    have htracks := fun b => tracksAt_execute (s := s) (a := b) d
    unfold homeAct at htracks ⊢
    cases hs : s.pending with
    | nil => exact h
    | cons l lines =>
      simp only [hs] at htracks
      exact homeInv_issue h (by rw [hs]; exact List.cons_ne_nil _ _) htracks
  | finish =>
    have htracks := fun b => tracksAt_finish (s := s) (a := b)
    unfold homeAct at htracks ⊢
    cases hs : s.pending with
    | nil => exact h
    | cons l lines =>
      simp only [hs] at htracks
      exact homeInv_issue h (by rw [hs]; exact List.cons_ne_nil _ _) htracks
  | pins level => exact homeInv_pins h hok
  | move d => exact homeInv_outside h rfl
  | plan d => exact homeInv_outside h rfl
  | setLatestCoord coord => exact homeInv_outside h rfl
  | stopMotionUrgently coord kept => exact homeInv_outside h rfl

/-- The descriptors after the steppers and the end stops have been opened. -/
def openedStepper (a : Axis) : ℤ := a.index

def openedEndStop : Axis → ℤ
  | .E => 0
  | a => a.index

/-- The end stops are released. -/
def releasedLimit (_ : ℤ) : EndStop := ⟨0, false, 1⟩

/-- X is homed: the end stop is reached after 100 mm, and left again; `last` is what happens to the last line. -/
def homeXRun (first last : List HomeAct) : List HomeAct :=
  first ++ [.statement true [], .statement true [], .statement true [], .statement true [],
    .execute (Function.update (0 : Axis → ℚ) .X (-100)), .pins fun _ => 0, .statement false [], .statement true [],
    .statement true [], .statement true [], .statement true [], .statement true [], .finish, .pins fun _ => 1,
    .statement true [], .statement true [], .statement true []] ++ last ++ List.replicate 7 (.statement true [])

end Invariant

end Cxsw.Motion
