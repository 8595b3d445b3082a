import Mathlib.Data.BitVec
import Cxsw.Lib.CString
import Cxsw.Lib.Run

/-!
# Cxsw.CrModel.CrGcodehandle — the acknowledgements (`CrModel/CrGcode.cpp`, `CrMotion/CrMotionPlanner.cpp`)

The host sends its next command when it has read an "ok" for the last one.  `StuffLineBuff` sends one as soon as a line
is in the planner's ring and sets `StuffLineOKFlag`; `CrGcodehandle` sends one when the command has been handled, unless
the flag says that this was done.  A command that has to wait is handled again; lines are also planned by other threads.

* `handleCommand_oks`: the acknowledgements that one command causes.
* `one_ok_iff`: each command is acknowledged once exactly when every command plans at most one line that is not a
  segment, has it if its own answer is withheld, and no other thread plans one.
* `unload_acks_thrice`: unloading the filament plans three lines.
-/

namespace Cxsw.Ack

open Cxsw.CString

/-! ## The two places that acknowledge -/

section Defs

/-- `GcodeReadAction_t`. -/
inductive GcodeReadAction
  | crErr
  | execOk
  | execWait
  | execProcess
  | execFail
  | parseFail
  | replyFail
  | notFound
  | cmdError
  | notSuppor
  deriving DecidableEq, Repr

/-- The numbers of the enumeration. -/
def GcodeReadAction.code : GcodeReadAction → ℕ
  | .crErr => 0
  | .execOk => 1
  | .execWait => 2
  | .execProcess => 3
  | .execFail => 4
  | .parseFail => 5
  | .replyFail => 6
  | .notFound => 7
  | .cmdError => 8
  | .notSuppor => 9

/-- `StuffLineOKFlag`, and how often "ok" has been sent. -/
structure AckState where
  stuffLineOKFlag : ℕ
  oks : ℕ
  deriving DecidableEq, Repr

/-- What happens while a command is handled: `StuffLineBuff` is called, by the executor or by another thread, or the
functions of the command print "ok" themselves, as those of `M105` do. -/
inductive Output
  | line (full segment : Bool)
  | text
  deriving DecidableEq, Repr

/-- The head of `StuffLineBuff`. -/
def stuffLineBuff (s : AckState) (full segment : Bool) : AckState :=
  if full then s
  else if !segment then { stuffLineOKFlag := 1, oks := s.oks + 1 }
  else s

/-- One output. -/
def output (s : AckState) : Output → AckState
  | .line full segment => stuffLineBuff s full segment
  | .text => { s with oks := s.oks + 1 }

/-- An entry of `GcodeList` with what its functions return for this command; a missing one is a null pointer. -/
structure GcodeItem where
  parseFunc : Option (BitVec 32)
  execFunc : Option (BitVec 32)
  replyFunc : Option (BitVec 32 × List UInt8)

/-- `GcodeHandle`: the result, and the text left in `Reply`. -/
def gcodeHandle (buff : List UInt8) (item : Option GcodeItem) : BitVec 32 × List UInt8 :=
  if buff.length ≤ 1 then (BitVec.ofNat 32 GcodeReadAction.cmdError.code, [])
  else if buff.head? ≠ some (ascii 'G') ∧ buff.head? ≠ some (ascii 'M') ∧ buff.head? ≠ some (ascii 'T') then
    (BitVec.ofNat 32 GcodeReadAction.notSuppor.code, [])
  else
    match item with
    | none => (BitVec.ofNat 32 GcodeReadAction.notFound.code, [])
    | some item =>
      match item.parseFunc, item.execFunc with
      | some parsed, some ret =>
        if parsed = 0 then (BitVec.ofNat 32 GcodeReadAction.parseFail.code, [])
        else if ret = 0 then (BitVec.ofNat 32 GcodeReadAction.execFail.code, [])
        else
          match item.replyFunc with
          | none => (ret, [])
          | some (replied, reply) =>
            if replied ≠ 0 then (BitVec.ofNat 32 GcodeReadAction.replyFail.code, reply) else (ret, reply)
      | _, _ => (BitVec.ofNat 32 GcodeReadAction.cmdError.code, [])

/-- One call of the handler: what `GcodeFindItem` finds, and the outputs meanwhile. -/
structure Attempt where
  item : Option GcodeItem
  outputs : List Output

/-- `Res`, an `S8`. -/
def Attempt.res (buff : List UInt8) (a : Attempt) : BitVec 8 := (gcodeHandle buff a.item).1.setWidth 8

/-- `Replay`. -/
def Attempt.replay (buff : List UInt8) (a : Attempt) : List UInt8 := (gcodeHandle buff a.item).2

/-- `Res` is the given action. -/
def Attempt.Is (buff : List UInt8) (a : Attempt) (action : GcodeReadAction) : Prop :=
  a.res buff = BitVec.ofNat 8 action.code

instance (buff : List UInt8) (a : Attempt) (action : GcodeReadAction) : Decidable (a.Is buff action) :=
  inferInstanceAs (Decidable (_ = _))

/-- What `CrGcodehandle` does after the call of `GcodeHandle`. -/
def answer (buff : List UInt8) (s : AckState) (a : Attempt) : AckState :=
  if ¬ a.Is buff .cmdError ∧ ¬ a.Is buff .notSuppor ∧ strlen (a.replay buff) = 0 ∧ ¬ a.Is buff .execWait then
    if a.Is buff .execOk ∧ s.stuffLineOKFlag = 1 then { s with stuffLineOKFlag := 0 }
    else { s with oks := s.oks + 1 }
  else s

/-- `CrGcodehandle`. -/
def crGcodehandle (buff : List UInt8) (s : AckState) (a : Attempt) : AckState :=
  answer buff (a.outputs.foldl output s) a

/-- A command of the host as `Exec` handles it: it stays at the head of the ring while the result is `GCODE_EXEC_WAIT`,
and any other result takes it off.  The outputs between two attempts are counted to the later one. -/
structure Command where
  buff : List UInt8
  waits : List Attempt
  last : Attempt
  waiting : ∀ a ∈ waits, a.Is buff .execWait
  done : ¬ last.Is buff .execWait

/-- All attempts of a command. -/
def handleCommand (s : AckState) (c : Command) : AckState :=
  crGcodehandle c.buff (c.waits.foldl (crGcodehandle c.buff) s) c.last

/-- What happens in order: a command is handled, or another thread plans a line between two commands. -/
inductive Event
  | command (c : Command)
  | line (full segment : Bool)

/-- One event. -/
def step (s : AckState) : Event → AckState
  | .command c => handleCommand s c
  | .line full segment => stuffLineBuff s full segment

/-- The state after power-on. -/
def initAck : AckState := ⟨0, 0⟩

/-- The state after some events. -/
def afterEvents (es : List Event) : AckState := es.foldl step initAck

/-- The event is a command. -/
def Event.isCommand : Event → Bool
  | .command _ => true
  | .line _ _ => false

/-- The number of commands that were handled. -/
def commands (es : List Event) : ℕ := es.countP Event.isCommand

end Defs

/-! ## The outputs of a command -/

section Outputs

/-- The output sends an "ok". -/
def Output.acks : Output → Bool
  | .line full segment => !full && !segment
  | .text => true

/-- The output sets `StuffLineOKFlag`. -/
def Output.flags : Output → Bool
  | .line full segment => !full && !segment
  | .text => false

theorem output_oks (s : AckState) (o : Output) : (output s o).oks = s.oks + if o.acks then 1 else 0 := by
  cases o with
  | line full segment => cases full <;> cases segment <;> rfl
  | text => rfl

theorem output_flag (s : AckState) (o : Output) :
    (output s o).stuffLineOKFlag = if o.flags then 1 else s.stuffLineOKFlag := by
  cases o with
  | line full segment => cases full <;> cases segment <;> rfl
  | text => rfl

theorem outputs_oks (s : AckState) (os : List Output) : (os.foldl output s).oks = s.oks + os.countP Output.acks := by
  induction os generalizing s with
  | nil => rfl
  | cons o os ih =>
    show (os.foldl output (output s o)).oks = _
    rw [ih, output_oks, List.countP_cons]
    omega

theorem outputs_flag (s : AckState) (os : List Output) :
    (os.foldl output s).stuffLineOKFlag = if os.any Output.flags then 1 else s.stuffLineOKFlag := by
  induction os generalizing s with
  | nil => rfl
  | cons o os ih =>
    show (os.foldl output (output s o)).stuffLineOKFlag = _
    rw [ih, output_flag, List.any_cons]
    cases o.flags <;> simp

/-- The outputs during all attempts of a command. -/
def Command.outputs (c : Command) : List Output := c.waits.flatMap Attempt.outputs ++ c.last.outputs

theorem crGcodehandle_wait {buff : List UInt8} (s : AckState) {a : Attempt} (h : a.Is buff .execWait) :
    crGcodehandle buff s a = a.outputs.foldl output s := by
  unfold crGcodehandle answer
  rw [if_neg]
  rintro ⟨-, -, -, hw⟩
  exact hw h

theorem waits_foldl {buff : List UInt8} (s : AckState) {as : List Attempt} (h : ∀ a ∈ as, a.Is buff .execWait) :
    as.foldl (crGcodehandle buff) s = (as.flatMap Attempt.outputs).foldl output s := by
  induction as generalizing s with
  | nil => rfl
  | cons a as ih =>
    rw [List.foldl_cons, crGcodehandle_wait s (h a List.mem_cons_self),
      ih _ fun b hb => h b (List.mem_cons_of_mem a hb), List.flatMap_cons, List.foldl_append]

theorem handleCommand_eq (s : AckState) (c : Command) :
    handleCommand s c = answer c.buff (c.outputs.foldl output s) c.last := by
  unfold handleCommand crGcodehandle Command.outputs
  rw [List.foldl_append, ← waits_foldl s c.waiting]
  rfl

end Outputs

/-! ## Runs -/

section Runs

/-- `CrGcodehandle` leaves the answer out: the result is an error of the command itself, or there is a reply text. -/
def Command.Withheld (c : Command) : Prop :=
  c.last.Is c.buff .cmdError ∨ c.last.Is c.buff .notSuppor ∨ strlen (c.last.replay c.buff) ≠ 0

/-- The command was carried out, and the flag is set when it ends: a line was planned for it, or the flag was set
before. -/
def Command.Flagged (s : AckState) (c : Command) : Prop :=
  c.last.Is c.buff .execOk ∧ (c.outputs.any Output.flags ∨ s.stuffLineOKFlag = 1)

instance (c : Command) : Decidable c.Withheld := inferInstanceAs (Decidable (_ ∨ _ ∨ _))

instance (s : AckState) (c : Command) : Decidable (c.Flagged s) := inferInstanceAs (Decidable (_ ∧ _))

/-- **The condition of an event**: a command whose answer is left out, or swallowed for the flag, has one output that
acknowledges, and any other command has none; a line planned between commands is a segment, or finds no room. -/
def AckOk (s : AckState) : Event → Prop
  | .command c => c.outputs.countP Output.acks = if c.Withheld ∨ c.Flagged s then 1 else 0
  | .line full segment => full = true ∨ segment = true

/-- What the handler adds to the acknowledgements of the outputs. -/
theorem answer_oks (s : AckState) (c : Command) :
    (answer c.buff (c.outputs.foldl output s) c.last).oks =
      (c.outputs.foldl output s).oks + if c.Withheld ∨ c.Flagged s then 0 else 1 := by
  have hflag : (c.outputs.foldl output s).stuffLineOKFlag = 1 ↔
      (c.outputs.any Output.flags = true ∨ s.stuffLineOKFlag = 1) := by
    rw [outputs_flag]
    cases c.outputs.any Output.flags <;> simp
  by_cases hw : c.Withheld
  · unfold answer
    rw [if_neg, if_pos (Or.inl hw)]
    · rfl
    · rintro ⟨h1, h2, h3, -⟩
      obtain h | h | h := hw
      · exact h1 h
      · exact h2 h
      · exact h h3
  · have hw' := not_or.mp hw
    have hw'' := not_or.mp hw'.2
    unfold answer
    rw [if_pos ⟨hw'.1, hw''.1, not_not.mp hw''.2, c.done⟩]
    by_cases hf : c.Flagged s
    · rw [if_pos ⟨hf.1, hflag.mpr hf.2⟩, if_pos (Or.inr hf)]
      rfl
    · rw [if_neg fun h => hf ⟨h.1, hflag.mp h.2⟩, if_neg (not_or.mpr ⟨hw, hf⟩)]

/-- **The acknowledgements of one command.** -/
theorem handleCommand_oks (s : AckState) (c : Command) :
    (handleCommand s c).oks =
      s.oks + c.outputs.countP Output.acks + if c.Withheld ∨ c.Flagged s then 0 else 1 := by
  rw [handleCommand_eq, answer_oks, outputs_oks]

theorem afterEvents_concat (es : List Event) (e : Event) : afterEvents (es ++ [e]) = step (afterEvents es) e := by
  unfold afterEvents
  rw [List.foldl_append]
  rfl

theorem commands_concat (es : List Event) (e : Event) :
    commands (es ++ [e]) = commands es + if e.isCommand then 1 else 0 := by
  unfold commands
  rw [List.countP_append, List.countP_singleton]

/-- One event keeps the two numbers equal exactly when it meets its condition. -/
theorem step_oks_iff (s : AckState) (e : Event) :
    (step s e).oks = s.oks + (if e.isCommand then 1 else 0) ↔ AckOk s e := by
  cases e with
  | command c =>
    show (handleCommand s c).oks = s.oks + 1 ↔ c.outputs.countP Output.acks = _
    rw [handleCommand_oks]
    by_cases h : c.Withheld ∨ c.Flagged s
    · rw [if_pos h, if_pos h]
      omega
    · rw [if_neg h, if_neg h]
      omega
  | line full segment =>
    show (output s (.line full segment)).oks = s.oks + 0 ↔ _
    rw [output_oks]
    cases full <;> cases segment <;> simp [AckOk, Output.acks]

/-- **One "ok" for each command**, after any number of events, exactly when every event meets its condition. -/
theorem one_ok_iff (es : List Event) :
    (∀ pre, pre <+: es → (afterEvents pre).oks = commands pre) ↔
      ∀ pre e, pre ++ [e] <+: es → AckOk (afterEvents pre) e := by
  have h0 : (afterEvents []).oks = commands [] := rfl
  refine forall_prefix_iff
    (Q := fun pre => (afterEvents pre).oks = commands pre)
    (C := fun pre e => AckOk (afterEvents pre) e) h0 (fun pre e h => ?_) es
  rw [afterEvents_concat, commands_concat, ← h]
  exact step_oks_iff _ _

/-- `M702` above the minimal temperature and with the nozzle at its height: retract, purge and unload are three lines,
and the command is carried out. -/
def unload : Command where
  buff := text "M702"
  waits := []
  last := ⟨some ⟨some 1, some 1, some (0, [])⟩, [.line false false, .line false false, .line false false]⟩
  waiting := by simp
  done := by decide

/-- A command whose letter is none of `G`, `M` and `T`. -/
def unsupported : Command where
  buff := text "X1"
  waits := []
  last := ⟨none, []⟩
  waiting := by simp
  done := by decide

/-- **One command, three acknowledgements**; and a command that has none, for which the host waits. -/
theorem unload_acks_thrice :
    (afterEvents [.command unload]).oks = 3 ∧ commands [.command unload] = 1 ∧
      (afterEvents [.command unsupported]).oks = 0 ∧ commands [.command unsupported] = 1 ∧
      ¬ ∀ pre, pre <+: [Event.command unload] → (afterEvents pre).oks = commands pre := by
  have h3 : (afterEvents [.command unload]).oks = 3 := by decide
  have h1 : commands [.command unload] = 1 := rfl
  refine ⟨h3, h1, by decide, rfl, fun h => ?_⟩
  have hle := h [.command unload] (List.prefix_refl _)
  rw [h3, h1] at hle
  exact absurd hle (by decide)

end Runs

end Cxsw.Ack
