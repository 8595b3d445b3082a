import Cxsw.CrGcode.GcodeG1Handle

/-!
# Cxsw.CrGcode.GcodeG61Handle — the saved positions (`CmdG/GcodeG60Handle.cpp`, `CmdG/GcodeG61Handle.cpp`)

`G60` is to store the position of the steppers in a slot of `StoredPos`, and `G61` to plan a move back to it.  The table
and its size are declared in `CrGlobal.h`, which `GcodeG60Handle.cpp` does not include; the part of `GcodeG60Exec` under
`#ifdef SLOT_COUNT` is not compiled.

* `gcodeG60Exec`, `gcodeG61Exec`: the executors, the first one with and without that part.
* `Restores`: `G61` plans the way back, or there is no such slot and nothing happens.
* `storedPos_zero`: no run stores a position.
* `restores_iff`: what is left of the promise.
-/

namespace Cxsw.Gcode

open Cxsw.CString Cxsw.Motion

/-! ## The parsers -/

section Parse

/-- The loop over the options. -/
def cmdOpts : ℕ → List UInt8 → Except ParseError (List (List UInt8))
  | 0, _ => .ok []
  | fuel + 1, buff =>
    if buff = [] then .ok []
    else
      match getCmdOpt buff with
      | none => .ok []
      | some opt =>
        match copied optLen opt with
        | .error e => .error e
        | .ok opt => (cmdOpts fuel (buff.drop (opt.length + 1))).map fun opts => opt :: opts

/-- The options of the command of this name. -/
def cmdParse (name cmdBuff : List UInt8) : Except ParseError (List (List UInt8)) :=
  if cmdBuff.length ≤ 1 ∨ cmdBuff.head? ≠ some (ascii 'G') then .error .rejected
  else
    match getGcodeCmd cmdBuff with
    | .error e => .error e
    | .ok cmd =>
      if cmd = name then cmdOpts cmdBuff.length (cmdBuff.drop (name.length + 1)) else .error .rejected

/-- `ArgG60_t`. -/
structure ArgG60 where
  hasS : Bool
  s : UInt8

/-- `ArgG61_t`. -/
structure ArgG61 where
  hasF : Bool
  hasS : Bool
  has : Axis → Bool
  f : ℚ
  s : ℤ

/-- An option of `G60` is stored. -/
def ArgG60.set (arg : ArgG60) : List UInt8 → ArgG60
  | [] => arg
  | c :: value =>
    if c = ascii 'S' then { arg with hasS := true, s := if value = [] then arg.s else UInt8.ofInt (atoi value) }
    else arg

/-- The letter of an axis that `G61` may name. -/
def slotAxis (c : UInt8) : Option Axis :=
  if c = ascii 'X' then some .X
  else if c = ascii 'Y' then some .Y
  else if c = ascii 'Z' then some .Z
  else none

/-- An option of `G61` is stored. -/
def ArgG61.set (atof : List UInt8 → ℚ) (arg : ArgG61) : List UInt8 → ArgG61
  | [] => arg
  | c :: value =>
    if c = ascii 'S' then { arg with hasS := true, s := if value = [] then arg.s else atoi value }
    else if c = ascii 'F' then { arg with hasF := true, f := if value = [] then arg.f else atof value }
    else
      match slotAxis c with
      | some a => { arg with has := Function.update arg.has a true }
      | none => arg

def ArgG60.zero : ArgG60 := ⟨false, 0⟩

def ArgG61.zero : ArgG61 := ⟨false, false, fun _ => false, 0, 0⟩

/-- `GcodeG60Parse`. -/
def gcodeG60Parse (cmdBuff : List UInt8) : Except ParseError ArgG60 :=
  (cmdParse (text "G60") cmdBuff).map fun opts => opts.foldl ArgG60.set .zero

/-- `GcodeG61Parse`. -/
def gcodeG61Parse (atof : List UInt8 → ℚ) (cmdBuff : List UInt8) : Except ParseError ArgG61 :=
  (cmdParse (text "G61") cmdBuff).map fun opts => opts.foldl (ArgG61.set atof) .zero

end Parse

/-! ## The executors -/

section Exec

/-- `SLOT_COUNT`. -/
def slotCount : ℕ := 2

/-- Whether `GcodeG60Handle.cpp` is compiled with `SLOT_COUNT`. -/
def g60HasSlots : Bool := false

/-- The motion, the table `StoredPos`, and `CurPosition` of the steppers. -/
structure SlotState where
  control : MotionControl
  storedPos : Fin slotCount → Axis → ℚ
  curPosition : Axis → ℤ

/-- After power-on. -/
def initSlots : SlotState := ⟨initControl, fun _ _ => 0, fun _ => 0⟩

/-- An axis of `GetCurPosition`, in millimeters.  The attributes of a stepper that does not answer are not set. -/
def getCurPosition (m : Machine) (s : SlotState) (a : Axis) : Option ℚ :=
  (m.stepper a).map fun attr => s.curPosition a / attr.stepsPerMm

/-- What an index leads to: it is refused from the count on, and not checked below zero. -/
inductive SlotRead
  | refused
  | outside
  | slot (i : Fin slotCount)

def slotRead (index : ℤ) : SlotRead :=
  if (slotCount : ℤ) ≤ index then .refused
  else if h : 0 ≤ index ∧ index.toNat < slotCount then .slot ⟨index.toNat, h.2⟩
  else .outside

def ArgG60.index (arg : ArgG60) : ℤ := if arg.hasS then (arg.s.toNat : ℤ) else 0

def ArgG61.index (arg : ArgG61) : ℤ := if arg.hasS then arg.s else 0

/-- `GcodeG60Exec`, with the part under `#ifdef SLOT_COUNT` or without. -/
def gcodeG60Exec (hasSlots : Bool) (m : Machine) (s : SlotState) (arg : ArgG60) : Option (ℤ × SlotState) :=
  if hasSlots then
    match slotRead arg.index with
    | .refused => some (1, s)
    | .outside => none
    | .slot i => do
      let posX ← getCurPosition m s .X
      let posY ← getCurPosition m s .Y
      let posZ ← getCurPosition m s .Z
      let coord : Axis → ℚ := fun
        | .X => posX
        | .Y => posY
        | .Z => posZ
        | .E => s.storedPos i .E
      some (1, { s with storedPos := Function.update s.storedPos i coord })
  else some (1, s)

/-- `Coord` of `GcodeG61Exec`. -/
def g61Target (s : SlotState) (i : Fin slotCount) (arg : ArgG61) : MotionGcode where
  retractFlag := false
  coord := fun a => if arg.has a then s.storedPos i a else s.control.motion.latestCoord a
  feedRate := 0

/-- The feed rate of `G61` is stored as it is given. -/
def g61Feedrate (s : SlotState) (arg : ArgG61) : MotionControl :=
  if arg.hasF then s.control.call (.feedrateAttrSet { s.control.motion.planner.feedrate with feedrate := arg.f })
  else s.control

/-- `GcodeG61Exec`.  The result of `PutMotionCoord` is not looked at. -/
def gcodeG61Exec (m : Machine) (s : SlotState) (arg : ArgG61) : Option (ℤ × SlotState) :=
  if ¬arg.has .X ∧ ¬arg.has .Y ∧ ¬arg.has .Z then some (0, s)
  else
    match slotRead arg.index with
    | .refused => some (1, s)
    | .outside => none
    | .slot i => some (1, { s with control := ((g61Feedrate s arg).putMotionCoord m (g61Target s i arg)).2 })

end Exec

/-! ## Runs -/

section Runs

/-- A call of a function of `CrMotion`, a movement of the steppers, and the two commands. -/
inductive SlotEvent
  | control (e : ControlEvent)
  | steppersMove (pos : Axis → ℤ)
  | g60 (m : Machine) (cmdBuff : List UInt8)
  | g61 (m : Machine) (atof : List UInt8 → ℚ) (cmdBuff : List UInt8)

/-- A command that is not parsed is not executed. -/
def execParsed {α : Type} (s : SlotState) (exec : α → Option (ℤ × SlotState)) : Except ParseError α → Option SlotState
  | .ok arg => (exec arg).map Prod.snd
  | .error .rejected => some s
  | .error .overflow => none

/-- The state after an event that returns. -/
def slotEvent (s : SlotState) : SlotEvent → Option SlotState
  | .control e => (controlEvent s.control e).map fun control => { s with control := control }
  | .steppersMove pos => some { s with curPosition := pos }
  | .g60 m cmdBuff => execParsed s (gcodeG60Exec g60HasSlots m s) (gcodeG60Parse cmdBuff)
  | .g61 m atof cmdBuff => execParsed s (gcodeG61Exec m s) (gcodeG61Parse atof cmdBuff)

/-- The same as a relation. -/
def SlotStep (s : SlotState) (e : SlotEvent) (t : SlotState) : Prop := slotEvent s e = some t

def IsSave : SlotEvent → Prop
  | .g60 .. => True
  | _ => False

/-- The index after an option: an `S` with a value replaces it. -/
def nextIndex (index : ℤ) : List UInt8 → ℤ
  | [] => index
  | c :: value => if c = ascii 'S' ∧ value ≠ [] then atoi value else index

/-- The index that the options give. -/
def givenIndex (opts : List (List UInt8)) : ℤ := opts.foldl nextIndex 0

/-- `G60` in `s`, and `G61` with the same index in `t`. -/
structure SaveThenRestore (m : Machine) (atof : List UInt8 → ℚ) (before between : List SlotEvent) (s s' t : SlotState)
    (cmd cmd' : List UInt8) (index : ℤ) (arg : ArgG61) : Prop where
  reached : Run SlotStep initSlots before s
  savedIndex : (cmdParse (text "G60") cmd).map givenIndex = .ok index
  saved : SlotStep s (.g60 m cmd) s'
  moved : Run SlotStep s' between t
  moves : ∀ e ∈ between, ¬IsSave e
  restoredIndex : (cmdParse (text "G61") cmd').map givenIndex = .ok index
  parsed : gcodeG61Parse atof cmd' = .ok arg
  named : ∃ a, arg.has a = true

def InTable (index : ℤ) : Prop := 0 ≤ index ∧ index < slotCount

/-- On the named axes the target is within a step of the position in `s`, and on the others it is the coordinate. -/
def ReturnsTo (m m' : Machine) (s t : SlotState) (arg : ArgG61) (coord : Axis → ℚ) : Prop :=
  ∀ a, if arg.has a then
      ∀ pos ∈ getCurPosition m s a, ∀ attr ∈ m'.stepper a,
        |inMm t.control.motion.motionUnit coord a - pos| * attr.stepsPerMm ≤ 1
    else coord a = t.control.motion.latestCoord a

/-- A line to such a target is planned, or there is no slot and nothing is touched. -/
def Restores (m m' : Machine) (s t : SlotState) (index : ℤ) (arg : ArgG61) : Prop :=
  (InTable index → ∃ i, slotRead arg.index = .slot i ∧
      0 ≤ ((g61Feedrate t arg).putMotionCoord m' (g61Target t i arg)).1 ∧
      ReturnsTo m m' s t arg (g61Target t i arg).coord) ∧
    (¬InTable index → (gcodeG61Exec m' t arg).map Prod.snd = some t)

/-- The index is too large; or it is in the table, the ring has room, the steppers answer, and the named axes stood at
zero when `G60` was executed. -/
def RestoreOk (m m' : Machine) (s t : SlotState) (index : ℤ) (arg : ArgG61) : Prop :=
  slotCount ≤ index ∨
    InTable index ∧ isPlanLineBuffFull t.control.motion.planner.ring = false ∧ (axisAttr m').isSome ∧
      ∀ a, arg.has a → ∀ pos ∈ getCurPosition m s a, ∀ attr ∈ m'.stepper a, |pos| * attr.stepsPerMm ≤ 1

end Runs

/-! ## Nothing is stored -/

section Stored

theorem g60Exec_eq (m : Machine) (s : SlotState) (arg : ArgG60) : gcodeG60Exec g60HasSlots m s arg = some (1, s) := rfl

/-- What `GcodeG61Exec` does to the table. -/
theorem g61Exec_storedPos {m : Machine} {s : SlotState} {arg : ArgG61} {r : ℤ × SlotState}
    (h : gcodeG61Exec m s arg = some r) : r.2.storedPos = s.storedPos := by
  unfold gcodeG61Exec at h
  split_ifs at h
  · rw [← Option.some.inj h]
  · cases hread : slotRead arg.index with
    | refused =>
      rw [hread] at h
      rw [← Option.some.inj h]
    | outside =>
      rw [hread] at h
      cases h
    | slot i =>
      rw [hread] at h
      rw [← Option.some.inj h]

/-- What holds of the state after every execution holds after a command. -/
theorem execParsed_of {α : Type} {s t : SlotState} {exec : α → Option (ℤ × SlotState)} {P : SlotState → Prop}
    {parsed : Except ParseError α} (hs : P s) (hexec : ∀ arg r, exec arg = some r → P r.2)
    (h : execParsed s exec parsed = some t) : P t := by
  rcases parsed with (_ | _) | arg
  · rw [← Option.some.inj h]
    exact hs
  · cases h
  · obtain ⟨r, hr, rfl⟩ := Option.map_eq_some_iff.mp h
    exact hexec arg r hr

theorem storedPos_step {s t : SlotState} {e : SlotEvent} (h : SlotStep s e t) : t.storedPos = s.storedPos := by
  cases e with
  | control e =>
    obtain ⟨control, -, rfl⟩ := Option.map_eq_some_iff.mp h
    rfl
  | steppersMove pos =>
    rw [← Option.some.inj h]
  | g60 m cmdBuff =>
    refine execParsed_of (P := fun u => u.storedPos = s.storedPos) rfl (fun arg r hr => ?_) h
    rw [g60Exec_eq] at hr
    rw [← Option.some.inj hr]
  | g61 m atof cmdBuff =>
    exact execParsed_of (P := fun u => u.storedPos = s.storedPos) rfl (fun _ _ => g61Exec_storedPos) h

/-- **The table in a run**: it stays as it is after power-on. -/
theorem storedPos_zero {events : List SlotEvent} {s : SlotState} (h : Run SlotStep initSlots events s) :
    s.storedPos = fun _ _ => 0 :=
  h.invariant (I := fun u => u.storedPos = fun _ _ => 0) rfl fun _ _ _ hu hstep => (storedPos_step hstep).trans hu

end Stored

/-! ## The way back -/

section Restore

/-- The index read so far is `index`. -/
def IndexRead (arg : ArgG61) (index : ℤ) : Prop := arg.s = index ∧ (arg.hasS = false → index = 0)

theorem IndexRead.index_eq {arg : ArgG61} {index : ℤ} (h : IndexRead arg index) : arg.index = index := by
  unfold ArgG61.index
  cases hhas : arg.hasS with
  | true => exact h.1
  | false => exact (h.2 hhas).symm

/-- An option that is no `S` leaves the index. -/
theorem set_other (atof : List UInt8 → ℚ) (arg : ArgG61) {c : UInt8} (hc : c ≠ ascii 'S') (value : List UInt8) :
    (arg.set atof (c :: value)).s = arg.s ∧ (arg.set atof (c :: value)).hasS = arg.hasS := by
  simp only [ArgG61.set, if_neg hc]
  by_cases hf : c = ascii 'F'
  · rw [if_pos hf]
    exact ⟨rfl, rfl⟩
  · rw [if_neg hf]
    cases slotAxis c <;> exact ⟨rfl, rfl⟩

theorem set_index (atof : List UInt8 → ℚ) {arg : ArgG61} {index : ℤ} (h : IndexRead arg index) (opt : List UInt8) :
    IndexRead (arg.set atof opt) (nextIndex index opt) := by
  cases opt with
  | nil => exact h
  | cons c value =>
    by_cases hc : c = ascii 'S'
    · subst hc
      refine ⟨?_, fun hhas => by simp [ArgG61.set] at hhas⟩
      by_cases hv : value = [] <;> simp [ArgG61.set, nextIndex, hv, h.1]
    · obtain ⟨hs, hhas⟩ := set_other atof arg hc value
      have hnext : nextIndex index (c :: value) = index := if_neg fun hv => hc hv.1
      rw [hnext]
      unfold IndexRead
      rw [hs, hhas]
      exact h

/-- The index that is stored is the index that is given. -/
theorem foldl_index (atof : List UInt8 → ℚ) (opts : List (List UInt8)) :
    ∀ {arg : ArgG61} {index : ℤ}, IndexRead arg index →
      IndexRead (opts.foldl (ArgG61.set atof) arg) (opts.foldl nextIndex index) := by
  induction opts with
  | nil => exact fun h => h
  | cons opt opts ih => exact fun h => ih (set_index atof h opt)

theorem set_named (atof : List UInt8 → ℚ) {arg : ArgG61} (h : arg.has .E = false) (opt : List UInt8) :
    (arg.set atof opt).has .E = false := by
  cases opt with
  | nil => exact h
  | cons c value =>
    simp only [ArgG61.set, slotAxis]
    split_ifs <;> exact h

theorem foldl_named (atof : List UInt8 → ℚ) (opts : List (List UInt8)) :
    ∀ {arg : ArgG61}, arg.has .E = false → (opts.foldl (ArgG61.set atof) arg).has .E = false := by
  induction opts with
  | nil => exact fun h => h
  | cons opt opts ih => exact fun h => ih (set_named atof h opt)

section Given

variable {m : Machine} {atof : List UInt8 → ℚ} {before between : List SlotEvent} {s s' t : SlotState}
  {cmd cmd' : List UInt8} {index : ℤ} {arg : ArgG61}

theorem SaveThenRestore.parse (h : SaveThenRestore m atof before between s s' t cmd cmd' index arg) :
    ∃ opts : List (List UInt8), givenIndex opts = index ∧ opts.foldl (ArgG61.set atof) .zero = arg := by
  have hindex := h.restoredIndex
  have hparsed := h.parsed
  unfold gcodeG61Parse at hparsed
  cases hopts : cmdParse (text "G61") cmd' with
  | error e =>
    rw [hopts] at hparsed
    cases hparsed
  | ok opts =>
    rw [hopts] at hindex hparsed
    exact ⟨opts, Except.ok.inj hindex, Except.ok.inj hparsed⟩

theorem SaveThenRestore.index_eq (h : SaveThenRestore m atof before between s s' t cmd cmd' index arg) :
    arg.index = index := by
  obtain ⟨opts, hindex, harg⟩ := h.parse
  rw [← harg, ← hindex]
  exact (foldl_index atof opts ⟨rfl, fun _ => rfl⟩).index_eq

theorem SaveThenRestore.some_named (h : SaveThenRestore m atof before between s s' t cmd cmd' index arg) :
    ¬(¬arg.has .X ∧ ¬arg.has .Y ∧ ¬arg.has .Z) := by
  obtain ⟨opts, -, harg⟩ := h.parse
  rintro ⟨hx, hy, hz⟩
  obtain ⟨a, ha⟩ := h.named
  cases a with
  | X => exact hx ha
  | Y => exact hy ha
  | Z => exact hz ha
  | E =>
    rw [← harg, foldl_named atof opts rfl] at ha
    cases ha

theorem SaveThenRestore.storedPos (h : SaveThenRestore m atof before between s s' t cmd cmd' index arg)
    (i : Fin slotCount) (a : Axis) : t.storedPos i a = 0 := by
  have hzero : t.storedPos = fun _ _ => 0 := by
    refine h.moved.invariant (I := fun u => u.storedPos = fun _ _ => 0) ?_ fun _ _ _ hu hstep =>
      (storedPos_step hstep).trans hu
    exact (storedPos_step h.saved).trans (storedPos_zero h.reached)
  rw [hzero]

end Given

theorem slotRead_refused {index : ℤ} (h : slotCount ≤ index) : slotRead index = .refused := if_pos h

theorem slotRead_outside {index : ℤ} (h : index < 0) : slotRead index = .outside := by
  unfold slotRead
  rw [if_neg (by omega), dif_neg (by omega)]

theorem slotRead_slot {index : ℤ} (h : InTable index) : ∃ i, slotRead index = .slot i := by
  obtain ⟨h0, hlt⟩ := h
  unfold slotRead
  rw [if_neg (by omega), dif_pos (by omega)]
  exact ⟨_, rfl⟩

/-- The moves that are accepted: the ring has room and the steppers answer. -/
theorem planMove_accepted_iff (m : Machine) (s : CrMotion) (c : MotionGcode) :
    0 ≤ (planMove m s c).1 ↔ isPlanLineBuffFull s.planner.ring = false ∧ (axisAttr m).isSome := by
  have hblock : ∀ (p : Planner) (d : Axis → ℚ) (request : ℚ × ℚ),
      0 ≤ (planBlock m p d request).1 ↔ (axisAttr m).isSome := by
    intro p d request
    unfold planBlock stuffTail stuffLineBuff
    cases axisAttr m <;> simp
  unfold planMove planRetract planLine
  dsimp only
  cases isPlanLineBuffFull s.planner.ring <;> cases c.retractFlag <;> simp [hblock]

theorem inMm_zero (unit : MotionUnitType) {coord : Axis → ℚ} {a : Axis} (h : coord a = 0) : inMm unit coord a = 0 := by
  cases unit
  · exact h
  · simp [inMm, inchToMm, h]

/-- The target of the way back, where the slot holds zeros. -/
theorem returnsTo_iff {m m' : Machine} {s t : SlotState} {arg : ArgG61} {i : Fin slotCount}
    (hzero : ∀ a, t.storedPos i a = 0) :
    ReturnsTo m m' s t arg (g61Target t i arg).coord ↔
      ∀ a, arg.has a → ∀ pos ∈ getCurPosition m s a, ∀ attr ∈ m'.stepper a, |pos| * attr.stepsPerMm ≤ 1 := by
  refine forall_congr' fun a => ?_
  unfold g61Target
  dsimp only
  cases hhas : arg.has a with
  | false => simp
  | true =>
    have hcoord : inMm t.control.motion.motionUnit
        (fun a => if arg.has a then t.storedPos i a else t.control.motion.latestCoord a) a = 0 :=
      inMm_zero _ (by rw [hhas, if_pos rfl, hzero])
    simp only [if_true, true_imp_iff, hcoord, zero_sub, abs_neg]

/-- **What `G61` after `G60` does**: it plans the way back, or touches nothing, exactly when the index is at least the
number of slots, or when it is in the table, the line is accepted, and the position to return to is zero. -/
theorem restores_iff {m m' : Machine} {atof : List UInt8 → ℚ} {before between : List SlotEvent} {s s' t : SlotState}
    {cmd cmd' : List UInt8} {index : ℤ} {arg : ArgG61}
    (h : SaveThenRestore m atof before between s s' t cmd cmd' index arg) :
    Restores m m' s t index arg ↔ RestoreOk m m' s t index arg := by
  have hindex := h.index_eq
  unfold Restores RestoreOk
  by_cases hin : InTable index
  · obtain ⟨i, hi⟩ := slotRead_slot hin
    have hlt : ¬(slotCount : ℤ) ≤ index := not_le.mpr hin.2
    have hring : (g61Feedrate t arg).motion.planner.ring = t.control.motion.planner.ring := by
      unfold g61Feedrate
      split_ifs <;> rfl
    have haccepted : 0 ≤ ((g61Feedrate t arg).putMotionCoord m' (g61Target t i arg)).1 ↔
        isPlanLineBuffFull t.control.motion.planner.ring = false ∧ (axisAttr m').isSome := by
      rw [← hring]
      exact put_accepted_iff.trans (planMove_accepted_iff ..)
    have hslot : ∀ j, slotRead arg.index = .slot j ↔ j = i := by
      intro j
      rw [hindex, hi, SlotRead.slot.injEq]
      exact eq_comm
    simp only [hin, hlt, hslot, exists_eq_left, haccepted, returnsTo_iff (h.storedPos i), true_imp_iff, true_and,
      false_or, not_true_eq_false, false_imp_iff, and_true, and_assoc]
  · simp only [hin, false_imp_iff, true_and, not_false_eq_true, true_imp_iff, false_and, or_false]
    unfold gcodeG61Exec
    rw [if_neg h.some_named, hindex]
    by_cases hcount : (slotCount : ℤ) ≤ index
    · simp [slotRead_refused hcount, hcount]
    · have hneg : index < 0 := by
        by_contra hnot
        exact hin ⟨not_lt.mp hnot, not_le.mp hcount⟩
      simp [slotRead_outside hneg, hcount]

/-- The steppers stand at 10 mm on X. -/
def atTen : SlotState := { initSlots with curPosition := fun a => if a = .X then 1000 else 0 }

/-- `G61 S1 X` as it is parsed. -/
def restoreX (index : ℤ) : ArgG61 :=
  { ArgG61.zero with hasS := true, has := Function.update (fun _ => false) .X true, s := index }

/-- At the origin nothing has to be stored. -/
theorem restores_origin : Restores (steppersOf 100) (steppersOf 100) initSlots atTen 1 (restoreX 1) := by
  have h : SaveThenRestore (steppersOf 100) (fun _ => 0) [] [.steppersMove atTen.curPosition] initSlots initSlots atTen
      (text "G60 S1") (text "G61 S1 X") 1 (restoreX 1) :=
    { reached := .nil _
      savedIndex := by decide +kernel
      saved := rfl
      moved := (Run.nil initSlots).snoc rfl
      moves := by simp [IsSave]
      restoredIndex := by decide +kernel
      parsed := rfl
      named := ⟨.X, rfl⟩ }
  refine (restores_iff h).mpr (Or.inr ⟨⟨by decide, by decide⟩, by decide, rfl, ?_⟩)
  intro a _ pos hpos attr _
  have hzero : pos = 0 := by
    rw [← Option.some.inj hpos]
    exact zero_div _
  simp [hzero]

/-- **The position is lost**: `G60 S0` at 10 mm, and `G61 S0 X` makes 0 of it. -/
theorem position_lost :
    SaveThenRestore (steppersOf 100) (fun _ => 0) [.steppersMove atTen.curPosition] [] atTen atTen atTen
        (text "G60 S0") (text "G61 S0 X") 0 (restoreX 0) ∧
      getCurPosition (steppersOf 100) atTen .X = some 10 ∧
      (∀ i, (g61Target atTen i (restoreX 0)).coord .X = 0) ∧
      ¬Restores (steppersOf 100) (steppersOf 100) atTen atTen 0 (restoreX 0) := by
  have hpos : getCurPosition (steppersOf 100) atTen .X = some 10 := by decide +kernel
  refine ⟨?_, hpos, fun _ => rfl, fun h => ?_⟩
  · exact
      { reached := (Run.nil initSlots).snoc rfl
        savedIndex := by decide +kernel
        saved := rfl
        moved := .nil _
        moves := by simp
        restoredIndex := by decide +kernel
        parsed := rfl
        named := ⟨.X, rfl⟩ }
  · obtain ⟨i, -, -, hreturns⟩ := h.1 ⟨by decide, by decide⟩
    have hnear := hreturns .X
    rw [if_pos (show (restoreX 0).has .X = true from rfl)] at hnear
    have hfar := hnear 10 hpos _ rfl
    have htarget : inMm atTen.control.motion.motionUnit (g61Target atTen i (restoreX 0)).coord .X = 0 := rfl
    rw [htarget] at hfar
    norm_num [steppersOf] at hfar

end Restore

end Cxsw.Gcode
