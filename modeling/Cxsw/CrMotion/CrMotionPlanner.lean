import Cxsw.CrMotion.SmoothAlgorithm

/-!
# Cxsw.CrMotion.CrMotionPlanner — adding and taking plan lines (`CrMotion/CrMotionPlanner.cpp`)

`PlanLine` and `PlanRetract` fill the slot at the tail of the ring, make it usable, move the tail and run the
look-ahead.  `GetNextPlanLine` takes the line at the head.  Here each runs as a whole; the interleaving of the
threads is in `PlanRing`.
-/

namespace Cxsw.Motion

section Defs

/-- `ACCELERATION_ACCEL`, `ACCELERATION_TRAVEL` and `ACCELERATION_RETRACT`. -/
def accelerationAccel : ℚ := 900

def accelerationTravel : ℚ := 1000

def accelerationRetract : ℚ := 1000

/-- `VELOCITY_V_TRAV` and `VELOCITY_V_RETRACT`. -/
def velocityVTrav : ℚ := 50

def velocityVRetract : ℚ := 50

/-- The ring and the static variables of the planner. -/
structure Planner where
  ring : PlanRing
  feedrate : FeedrateAttr
  previous : Previous

/-- `IsPlanLineBuffEmpty`. -/
def isPlanLineBuffEmpty (g : PlanRing) : Bool := g.lineBuffHead = g.lineBuffTail

/-- `IsPlanLineBuffFull`. -/
def isPlanLineBuffFull (g : PlanRing) : Bool := g.lineBuffHead = nextPlanLineIndex g.lineBuffTail

/-- `GetPlanLineBuffNum`. -/
def getPlanLineBuffNum (g : PlanRing) : ℕ := (g.lineBuffTail + buffMaxSize - g.lineBuffHead) % buffMaxSize

/-- The displacement of a move. -/
def dis (target current : Axis → ℚ) : Axis → ℚ := fun a => target a - current a

/-- What `PlanLine` does to a displacement below the least extrusion. -/
def cutE (d : Axis → ℚ) : Axis → ℚ := fun a =>
  match a with
  | .E => if |d .E| < minEChange then 0 else d .E
  | a => d a

/-- `Feedrate` after the check of `PlanLine`. -/
def checkFeedrate (f : FeedrateAttr) : FeedrateAttr := if f.feedrate < eolData then { f with feedrate := 10 } else f

/-- The acceleration and speed that `PlanLine` asks for. -/
def requestLine (f : FeedrateAttr) (d : Axis → ℚ) : ℚ × ℚ :=
  (if |d .E| < minEChange then (if f.travelAccelXYZ ≤ 0 then accelerationTravel else f.travelAccelXYZ)
    else (if f.accelXYZ ≤ 0 then accelerationAccel else f.accelXYZ),
    min (if 0 < f.feedrateRatio then f.feedrate * f.feedrateRatio / 100 else f.feedrate) velocityVTrav)

/-- The acceleration and speed that `PlanRetract` asks for. -/
def requestRetract (f : FeedrateAttr) : ℚ × ℚ :=
  (if f.retractAccel ≤ eolData then accelerationRetract else f.retractAccel,
    if f.retractRate ≤ eolData then velocityVRetract else f.retractRate)

/-- Put a filled line into the slot at the tail, make it usable and move the tail. -/
def pushLine (g : PlanRing) (line : PlanLine) : PlanRing :=
  { g with
    lineBuff := Function.update g.lineBuff g.lineBuffTail { line with usable := true }
    lineBuffTail := nextPlanLineIndex g.lineBuffTail }

/-- The slot at the tail filled for the displacement `d`, with the requested acceleration and speed. -/
def stuffTail (m : Machine) (p : Planner) (d : Axis → ℚ) (request : ℚ × ℚ) : Option (PlanLine × Previous) :=
  let block := p.ring.lineBuff p.ring.lineBuffTail
  stuffLineBuff m p.feedrate.flowRatio p.previous d { block with
    planCalc := { block.planCalc with acceleration := request.1, maxSpeed := request.2 } }

/-- The part that `PlanLine` and `PlanRetract` share: fill the slot at the tail and run the look-ahead. -/
def planBlock (m : Machine) (p : Planner) (d : Axis → ℚ) (request : ℚ × ℚ) : ℤ × Planner :=
  match stuffTail m p d request with
  | none => (-1, p)
  | some (line, previous) => (0, { p with ring := smoothRecalc (pushLine p.ring line), previous := previous })

/-- `PlanLine`. -/
def planLine (m : Machine) (p : Planner) (current target : Axis → ℚ) : ℤ × Planner :=
  if isPlanLineBuffFull p.ring then (-1, p)
  else
    let p := { p with feedrate := checkFeedrate p.feedrate }
    let d := dis target current
    planBlock m p (cutE d) (requestLine p.feedrate d)

/-- `PlanRetract`. -/
def planRetract (m : Machine) (p : Planner) (current target : Axis → ℚ) : ℤ × Planner :=
  if isPlanLineBuffFull p.ring then (-1, p)
  else planBlock m p (dis target current) (requestRetract p.feedrate)

/-- The loop of `PlanLineBuffClear`. -/
def clearLoop (tail : ℕ) : ℕ → (ℕ → PlanLine) → ℕ → (ℕ → PlanLine) × ℕ
  | 0, buff, head => (buff, head)
  | fuel + 1, buff, head =>
    if head = tail then (buff, head)
    else clearLoop tail fuel (Function.update buff head { buff head with usable := false }) (nextPlanLineIndex head)

/-- `PlanLineBuffClear`. -/
def planLineBuffClear (g : PlanRing) : PlanRing :=
  let r := clearLoop g.lineBuffTail buffMaxSize g.lineBuff g.lineBuffHead
  { g with lineBuff := r.1, lineBuffHead := r.2 }

/-- `GetNextPlanLine`: the line it hands over, when it returns `1`. -/
def getNextPlanLine (g : PlanRing) : Option PlanLine × PlanRing :=
  if isPlanLineBuffEmpty g then (none, g)
  else
    let head := g.lineBuffHead
    if (g.lineBuff head).usable then
      (some { g.lineBuff head with usable := true },
        { g with
          lineBuff := Function.update g.lineBuff head { g.lineBuff head with usable := false }
          lineBuffHead := nextPlanLineIndex head })
    else (none, g)

end Defs

/-! ## The requests -/

section Requests

/-- Whatever the attributes are, no negative acceleration is requested. -/
theorem requestLine_nonneg (f : FeedrateAttr) (d : Axis → ℚ) : 0 ≤ (requestLine f d).1 := by
  unfold requestLine accelerationTravel accelerationAccel
  dsimp only
  split_ifs with h1 h2 h3
  · norm_num
  · exact_mod_cast (not_le.mp h2).le
  · norm_num
  · exact_mod_cast (not_le.mp h3).le

theorem requestRetract_nonneg (f : FeedrateAttr) : 0 ≤ (requestRetract f).1 := by
  unfold requestRetract accelerationRetract eolData
  dsimp only
  split_ifs with h
  · norm_num
  · linarith [not_le.mp h]

theorem checkFeedrate_flowRatio (f : FeedrateAttr) : (checkFeedrate f).flowRatio = f.flowRatio := by
  unfold checkFeedrate
  split_ifs <;> rfl

end Requests

/-! ## The calls -/

section Calls

/-- The calls.  The steppers may be set differently at each. -/
inductive PlannerCall
  | planLine (m : Machine) (current target : Axis → ℚ)
  | planRetract (m : Machine) (current target : Axis → ℚ)
  | getNextPlanLine
  | planLineBuffClear
  | feedrateAttrSet (attr : FeedrateAttr)

/-- The planner after power-on; `Feedrate` is zero. -/
def Planner.init : Planner := ⟨PlanRing.init, ⟨0, 0, 0, 0, 0, 0, 0⟩, Previous.init⟩

/-- The planner after a call. -/
def Planner.call (p : Planner) : PlannerCall → Planner
  | .planLine m current target => (planLine m p current target).2
  | .planRetract m current target => (planRetract m p current target).2
  | .getNextPlanLine => { p with ring := (Motion.getNextPlanLine p.ring).2 }
  | .planLineBuffClear => { p with ring := Motion.planLineBuffClear p.ring }
  | .feedrateAttrSet attr => { p with feedrate := attr }

/-- The same as a relation. -/
def PlannerStep (p : Planner) (c : PlannerCall) (p' : Planner) : Prop := p' = p.call c

/-- Steppers for the examples: 100 steps per millimeter, and the limits of an extruder. -/
def exampleMachine : Machine := ⟨fun _ => some ⟨100, 50, 10, 1000⟩, id⟩

/-- A position on the E axis. -/
def eAt (x : ℚ) : Axis → ℚ := fun a => if a = .E then x else 0

/-- The attributes with a retract speed. -/
def retractAt (rate : ℚ) : FeedrateAttr := ⟨100, 10, 100, rate, 0, 0, 0⟩

end Calls

end Cxsw.Motion
