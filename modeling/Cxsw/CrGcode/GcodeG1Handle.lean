import Cxsw.CrModel.CrGcodehandle
import Cxsw.CrModel.MotionControl

/-!
# Cxsw.CrGcode.GcodeG1Handle — the handlers of `G0` and `G1` (`CrGcode/GcodeHandle/GcodeCmd/CmdG`)

A command is parsed into its arguments; its executor makes a target of them, by the modes and the latest coordinate, and
hands it to `PutMotionCoord`.  The two commands have a copy of each function.

* `moveParse`, `moveTarget`: what the copies share.
* `gcodeG0Exec`, `gcodeG1Exec`: they ask for different modes.
* `g0_g1_agree_iff`: when it makes no difference.
-/

namespace Cxsw.Gcode

open Cxsw.CString Cxsw.Motion Cxsw.Ack

/-! ## The parsers -/

section Parse

/-- A command that is not parsed: it is another one, or a buffer on the stack is written past its end. -/
inductive ParseError
  | rejected
  | overflow
  deriving DecidableEq

/-- `ArgG1AndG0_t`. -/
structure ArgG1AndG0 where
  has : Axis → Bool
  hasF : Bool
  coord : Axis → ℚ
  f : ℚ

/-- The arguments before the first option. -/
def ArgG1AndG0.zero : ArgG1AndG0 := ⟨fun _ => false, false, fun _ => 0, 0⟩

/-- A length in an `S16`. -/
def s16 (n : ℕ) : ℤ := Int.bmod n 65536

/-- `CMD_BUFF_LEN`, and the size of `Opt`. -/
def cmdBuffLen : ℕ := 8

def optLen : ℕ := 20

/-- A text copied into a buffer, with the zero behind it. -/
def copied (size : ℕ) (s : List UInt8) : Except ParseError (List UInt8) :=
  if s.length < size then .ok s else .error .overflow

/-- The text without a line feed at its end. -/
def chomp (s : List UInt8) : List UInt8 := if s.getLast? = some (ascii '\n') then s.dropLast else s

/-- The name `M43 T`, which has an argument in it. -/
def m43 (buff cmd : List UInt8) (count : ℕ) : List UInt8 :=
  if cmd = text "M43" ∧ buff[count + 1]? = some (ascii 'T') ∧
      (buff[count + 2]? = none ∨ buff[count + 2]? = some (ascii ' ')) then text "M43 T"
  else cmd

/-- `GetGcodeCmd`. -/
def getGcodeCmd (buff : List UInt8) : Except ParseError (List UInt8) :=
  if s16 buff.length ≤ 1 ∨ buff.head? = some (ascii ';') then .error .rejected
  else
    match strchr buff (ascii ' ') with
    | none => (copied cmdBuffLen buff).map chomp
    | some count => (copied cmdBuffLen (buff.take count)).map fun cmd => m43 buff cmd count

/-- `GetCmdOpt`. -/
def getCmdOpt (buff : List UInt8) : Option (List UInt8) :=
  if s16 buff.length ≤ 0 ∨ buff.head? = some (ascii ';') then none
  else
    match strchr buff (ascii ' ') with
    | none => some (chomp buff)
    | some count => some (buff.take count)

/-- The letter of an axis. -/
def optAxis (c : UInt8) : Option Axis :=
  if c = ascii 'E' then some .E
  else if c = ascii 'X' then some .X
  else if c = ascii 'Y' then some .Y
  else if c = ascii 'Z' then some .Z
  else none

/-- An option is stored.  One without a value leaves the value as it is. -/
def ArgG1AndG0.set (atof : List UInt8 → ℚ) (arg : ArgG1AndG0) : List UInt8 → ArgG1AndG0
  | [] => arg
  | c :: value =>
    match optAxis c with
    | some a =>
      { arg with
        has := Function.update arg.has a true
        coord := if value = [] then arg.coord else Function.update arg.coord a (atof value) }
    | none =>
      if c = ascii 'F' then { arg with hasF := true, f := if value = [] then arg.f else atof value } else arg

/-- The loop over the options.  Every pass takes a byte at least. -/
def parseOpts (atof : List UInt8 → ℚ) : ℕ → List UInt8 → ArgG1AndG0 → Except ParseError ArgG1AndG0
  | 0, _, arg => .ok arg
  | fuel + 1, buff, arg =>
    if buff = [] then .ok arg
    else
      match getCmdOpt buff with
      | none => .ok arg
      | some opt =>
        match copied optLen opt with
        | .error e => .error e
        | .ok opt => parseOpts atof fuel (buff.drop (opt.length + 1)) (arg.set atof opt)

/-- The parser of a command of this kind. -/
def moveParse (atof : List UInt8 → ℚ) (name cmdBuff : List UInt8) : Except ParseError ArgG1AndG0 :=
  if cmdBuff.length ≤ 1 ∨ cmdBuff.head? ≠ some (ascii 'G') then .error .rejected
  else
    match getGcodeCmd cmdBuff with
    | .error e => .error e
    | .ok cmd =>
      if cmd = name then parseOpts atof cmdBuff.length (cmdBuff.drop (name.length + 1)) .zero
      else .error .rejected

/-- `GcodeG0Parse`. -/
def gcodeG0Parse (atof : List UInt8 → ℚ) (cmdBuff : List UInt8) : Except ParseError ArgG1AndG0 :=
  moveParse atof (text "G0") cmdBuff

/-- `GcodeG1Parse`. -/
def gcodeG1Parse (atof : List UInt8 → ℚ) (cmdBuff : List UInt8) : Except ParseError ArgG1AndG0 :=
  moveParse atof (text "G1") cmdBuff

end Parse

/-! ## The executors -/

section Exec

/-- `RetractFlag`: no coordinate but that of E is given. -/
def ArgG1AndG0.retractFlag (arg : ArgG1AndG0) : Bool := !(arg.has .Z || arg.has .X || arg.has .Y)

/-- The target of a move, where `relative` is the mode that is asked for each axis. -/
def moveTarget (relative : Axis → Bool) (s : MotionControl) (arg : ArgG1AndG0) : MotionGcode where
  retractFlag := arg.retractFlag
  coord := fun a =>
    if arg.has a then
      if relative a then s.motion.latestCoord a + arg.coord a else arg.coord a
    else s.motion.latestCoord a
  feedRate := if arg.hasF then arg.f else s.motion.planner.feedrate.feedrate * 60

/-- The target of `GcodeG0Exec`, which asks `IsRelativeExtrudeMode` for every axis. -/
def g0Target (s : MotionControl) (arg : ArgG1AndG0) : MotionGcode := moveTarget (fun _ => s.isRelativeExtrude) s arg

/-- The target of `GcodeG1Exec`. -/
def g1Target (s : MotionControl) (arg : ArgG1AndG0) : MotionGcode :=
  moveTarget
    (fun
      | .E => s.isRelativeExtrude
      | _ => s.isRelativeMotion) s arg

/-- The target is put into the ring, or the command has to wait. -/
def execMove (m : Machine) (s : MotionControl) (target : MotionGcode) : GcodeReadAction × MotionControl :=
  let r := s.putMotionCoord m target
  (if 0 ≤ r.1 then .execOk else .execWait, r.2)

/-- `GcodeG0Exec`. -/
def gcodeG0Exec (m : Machine) (s : MotionControl) (arg : ArgG1AndG0) : GcodeReadAction × MotionControl :=
  execMove m s (g0Target s arg)

/-- `GcodeG1Exec`. -/
def gcodeG1Exec (m : Machine) (s : MotionControl) (arg : ArgG1AndG0) : GcodeReadAction × MotionControl :=
  execMove m s (g1Target s arg)

end Exec

/-! ## The two commands -/

section Agree

theorem strchr_cons_of_ne {c d : UInt8} (h : d ≠ c)
    (s : List UInt8) : strchr (d :: s) c = (strchr s c).map (· + 1) := by
  unfold strchr
  simp [List.findIdx?_cons, h]

theorem chomp_named {c : UInt8} (hfeed : c ≠ ascii '\n') (rest : List UInt8) :
    chomp (ascii 'G' :: c :: rest) = ascii 'G' :: c :: chomp rest := by
  unfold chomp
  cases rest with
  | nil => simp [hfeed]
  | cons d rest =>
    rw [List.getLast?_cons_cons, List.getLast?_cons_cons]
    split_ifs <;> rfl

theorem copied_named (c : UInt8) (rest : List UInt8) : copied cmdBuffLen (ascii 'G' :: c :: rest) =
    if rest.length + 2 < cmdBuffLen then .ok (ascii 'G' :: c :: rest) else .error .overflow := rfl

theorem m43_named {c : UInt8} (buff : List UInt8) (hc : c ≠ ascii 'M') (cmd : List UInt8) (count : ℕ) :
    m43 buff (c :: cmd) count = c :: cmd := by
  unfold m43
  rw [if_neg]
  rintro ⟨h, -⟩
  exact hc (List.head_eq_of_cons_eq h)

/-- The second byte of a command goes through `GetGcodeCmd` as it is. -/
theorem getGcodeCmd_named (rest : List UInt8) : ∃ r : Except ParseError (List UInt8),
    ∀ c, c ≠ ascii ' ' → c ≠ ascii '\n' →
      getGcodeCmd (ascii 'G' :: c :: rest) = r.map fun cmd => ascii 'G' :: c :: cmd := by
  refine ⟨if s16 (rest.length + 2) ≤ 1 then .error .rejected
    else
      match strchr rest (ascii ' ') with
      | none => if rest.length + 2 < cmdBuffLen then .ok (chomp rest) else .error .overflow
      | some j => if (rest.take j).length + 2 < cmdBuffLen then .ok (rest.take j) else .error .overflow, ?_⟩
  intro c hblank hfeed
  have hhead : ¬(ascii 'G' :: c :: rest).head? = some (ascii ';') := by
    rw [List.head?_cons]
    decide
  have hsep : strchr (ascii 'G' :: c :: rest) (ascii ' ') = (strchr rest (ascii ' ')).map (· + 2) := by
    rw [strchr_cons_of_ne (by decide), strchr_cons_of_ne hblank, Option.map_map]
    rfl
  unfold getGcodeCmd
  rw [hsep, List.length_cons, List.length_cons]
  by_cases hlen : s16 (rest.length + 2) ≤ 1
  · rw [if_pos (Or.inl hlen), if_pos hlen]
    rfl
  rw [if_neg (not_or.mpr ⟨hlen, hhead⟩), if_neg hlen]
  cases strchr rest (ascii ' ') with
  | none =>
    have hcopied := copied_named c rest
    dsimp only [Option.map_none]
    rw [hcopied]
    split_ifs
    · exact congrArg Except.ok (chomp_named hfeed rest)
    · rfl
  | some j =>
    have hcopied := copied_named c (rest.take j)
    dsimp only [Option.map_some]
    rw [List.take_succ_cons, List.take_succ_cons, hcopied]
    split_ifs
    · exact congrArg Except.ok (m43_named _ (by decide) _ _)
    · rfl

/-- Both parsers read the same arguments from the same text behind the name. -/
theorem g0_g1_parse (atof : List UInt8 → ℚ) (rest : List UInt8) :
    gcodeG0Parse atof (text "G0" ++ rest) = gcodeG1Parse atof (text "G1" ++ rest) := by
  obtain ⟨r, hr⟩ := getGcodeCmd_named rest
  have h0 := hr (ascii '0') (by decide) (by decide)
  have h1 := hr (ascii '1') (by decide) (by decide)
  have hnames : text "G0" = [ascii 'G', ascii '0'] ∧ text "G1" = [ascii 'G', ascii '1'] := by decide
  unfold gcodeG0Parse gcodeG1Parse moveParse
  rw [hnames.1, hnames.2]
  simp only [List.cons_append, List.nil_append, h0, h1]
  cases r with
  | error e => simp [Except.map]
  | ok cmd => simp [Except.map]

/-- The mode that applies to an axis. -/
def relativeMode (s : MotionControl) : Axis → Bool
  | .E => s.isRelativeExtrude
  | _ => s.isRelativeMotion

/-- A target follows the modes: the axes that are given are relative exactly where their mode is. -/
def FollowsModes (s : MotionControl) (arg : ArgG1AndG0) (target : MotionGcode) : Prop :=
  ∀ a, arg.has a = true →
    target.coord a = if relativeMode s a then s.motion.latestCoord a + arg.coord a else arg.coord a

/-- Both commands have the same target, and it follows the modes. -/
def Agree (s : MotionControl) (arg : ArgG1AndG0) : Prop :=
  g0Target s arg = g1Target s arg ∧ FollowsModes s arg (g0Target s arg) ∧ FollowsModes s arg (g1Target s arg)

/-- The modes are the same, or an axis with a coordinate that is given stands at zero, E apart. -/
def ModesAgree (s : MotionControl) (arg : ArgG1AndG0) : Prop :=
  s.isRelativeMotion = s.isRelativeExtrude ∨
    ∀ a, a ≠ .E → arg.has a = true → s.motion.latestCoord a = 0

theorem g1_followsModes (s : MotionControl) (arg : ArgG1AndG0) : FollowsModes s arg (g1Target s arg) := by
  intro a ha
  unfold g1Target moveTarget
  dsimp only
  rw [if_pos ha]
  cases a <;> rfl

theorem g0Target_eq_iff (s : MotionControl) (arg : ArgG1AndG0) :
    g0Target s arg = g1Target s arg ↔ (g0Target s arg).coord = (g1Target s arg).coord := by
  unfold g0Target g1Target moveTarget
  simp

theorem coord_eq_iff (s : MotionControl) (arg : ArgG1AndG0) (a : Axis) :
    (g0Target s arg).coord a = (g1Target s arg).coord a ↔
      s.isRelativeMotion = s.isRelativeExtrude ∨ a = .E ∨ arg.has a = false ∨ s.motion.latestCoord a = 0 := by
  unfold g0Target g1Target moveTarget
  dsimp only
  cases harg : arg.has a with
  | false => simp
  | true =>
    cases a <;> cases s.isRelativeMotion <;> cases s.isRelativeExtrude <;> simp [eq_comm]

/-- **`G0` and `G1`**: from the same text they read the same arguments; they make the same target of them, the one that
the modes say, exactly when the modes are the same or make no difference. -/
theorem g0_g1_agree_iff (atof : List UInt8 → ℚ) (rest : List UInt8) (s : MotionControl) :
    gcodeG0Parse atof (text "G0" ++ rest) = gcodeG1Parse atof (text "G1" ++ rest) ∧
      ∀ arg, Agree s arg ↔ ModesAgree s arg := by
  refine ⟨g0_g1_parse atof rest, fun arg => ?_⟩
  have hagree : Agree s arg ↔ g0Target s arg = g1Target s arg := by
    constructor
    · exact fun h => h.1
    · intro h
      refine ⟨h, ?_, g1_followsModes s arg⟩
      rw [h]
      exact g1_followsModes s arg
  rw [hagree, g0Target_eq_iff, funext_iff]
  simp only [coord_eq_iff]
  unfold ModesAgree
  constructor
  · intro h
    refine or_iff_not_imp_left.mpr fun hmodes a ha harg => ?_
    have hzero := ((h a).resolve_left hmodes).resolve_left ha
    rw [harg] at hzero
    exact hzero.resolve_left (by decide)
  · rintro (h | h) a
    · exact Or.inl h
    · refine Or.inr (or_iff_not_imp_left.mpr fun ha => ?_)
      cases harg : arg.has a with
      | false => exact Or.inl rfl
      | true => exact Or.inr (h a ha harg)

/-- The arguments of `G0 X10`. -/
def x10 : ArgG1AndG0 := ArgG1AndG0.zero.set (fun _ => 10) (text "X10")

/-- **`G0` asks for the mode of the extruder**: with `M83` and at X 10, `G0 X10` moves to X 20. -/
theorem g0_asks_extrude :
    gcodeG0Parse (fun _ => 10) (text "G0 X10") = .ok x10 ∧
      ∃ s : MotionControl,
        Run ControlStep initControl
          [.setRelativeExtrude, .putMotionCoord (steppersOf 100) (moveTo false .X 10)] s ∧
        (g0Target s x10).coord .X = 20 ∧ (g1Target s x10).coord .X = 10 ∧ ¬Agree s x10 := by
  refine ⟨rfl, _, ((Run.nil _).snoc rfl).snoc rfl, by decide +kernel, by decide +kernel, fun h => ?_⟩
  have hx := congrArg (fun target => MotionGcode.coord target .X) h.1
  exact absurd hx (by decide +kernel)

end Agree

end Cxsw.Gcode
