import Cxsw.Chelper.Vlq
import Cxsw.Chelper.MsgBlock

/-!
# Cxsw.Mcu.Command — commands and responses (`src/command.c`, `klippy/msgproto.py`, `scripts/buildcommands.py`)

The payload of a block is a row of commands: a number, and the parameters of the types that the command was declared
with. `command_dispatch` parses one after the other and calls their functions; the response to the host is encoded the
other way.  The parser's table is made by `buildcommands.py` from the same declarations as the dictionary that the host
reads.

A pointer into a block is the bytes from there on, so `msgend` is the place before the last three.  Nothing is read
behind them: such a read, and the call of a function that is not there, has no result.  In the arguments of a function
a pointer stands for the bytes that its length covers.

* `commandParsef`, `commandDispatch`, `commandEncodef`: the firmware.
* `MessageFormat`, `MessageParser`: the host in Python.
* `dispatch_inside`: whatever a block holds, nothing outside is read, and `args` is long enough.
* `dispatch_encoded`: the commands that the host encoded are called with the host's values, one after the other.
* `response_round_trip`: what is sent to the host is what it parses.
-/

namespace Cxsw.Link

/-! ## The code -/

section Defs

variable {σ : Type*}

/-- The types of parameters, by the same names on both sides. -/
inductive ParamType
  | uint32
  | int32
  | uint16
  | int16
  | byte
  | string
  | progmemBuffer
  | buffer
  deriving DecidableEq

namespace ParamType

/-- `is_dynamic_string`. -/
def isDynamicString : ParamType → Bool
  | string | progmemBuffer | buffer => true
  | _ => false

def signed : ParamType → Bool
  | int32 | int16 => true
  | _ => false

def maxLength : ParamType → ℕ
  | uint32 | int32 => 5
  | uint16 | int16 => 3
  | byte => 2
  | _ => 64

end ParamType

/-- What a function gets for its parameters. -/
inductive Arg
  | value (v : UInt32)
  | pointer (bytes : List UInt8)
  deriving DecidableEq

/-- What a function leaves, and the text of a shutdown. -/
abbrev Outcome (σ : Type*) := σ × Option String

structure CommandParser (σ : Type*) where
  numArgs : ℕ
  /-- `flags & HF_IN_SHUTDOWN`. -/
  inShutdown : Bool
  paramTypes : List ParamType
  func : Option (List Arg → σ → Outcome σ)

/-- What `command_dispatch` works with. -/
structure Board (σ : Type*) where
  commandIndex : List (CommandParser σ)
  isShutdown : σ → Bool
  reportShutdown : σ → σ
  irqPoll : σ → σ
  /-- `run_shutdown`, where `shutdown` jumps to. -/
  runShutdown : String → σ → σ

/-- A round of `command_parsef`: the arguments for one parameter and the pointer behind it, or a shutdown. -/
def parseParam (t : ParamType) (p : List UInt8) : Option (Except String (List Arg × List UInt8)) :=
  -- `p > maxend`
  if p.length < messageTrailerSize then some (.error "Command parser error")
  else
    match t with
    | .uint32 | .int32 | .uint16 | .int16 | .byte => (parseInt p).map fun r => .ok ([.value r.1], r.2)
    | .buffer =>
      match p with
      | [] => none
      | len :: p =>
        if p.length < len.toNat + messageTrailerSize then some (.error "Command parser error")
        else some (.ok ([.value len.toUInt32, .pointer (p.take len.toNat)], p.drop len.toNat))
    | .string | .progmemBuffer => some (.error "Command parser error")

/-- `command_parsef` with room for so many arguments. -/
def commandParsef : ℕ → List ParamType → List UInt8 → Option (Except String (List Arg × List UInt8))
  | _, [], p => some (.ok ([], p))
  | room, t :: paramTypes, p =>
    match parseParam t p with
    | none => none
    | some (.error reason) => some (.error reason)
    | some (.ok (args, p)) =>
      if room < args.length then none
      else (commandParsef (room - args.length) paramTypes p).map (·.map fun r => (args ++ r.1, r.2))

namespace Board

variable (board : Board σ)

/-- `command_lookup_parser`. -/
def commandLookupParser (cmdid : UInt8) : Option (CommandParser σ) :=
  if cmdid = 0 then none else board.commandIndex[cmdid.toNat]?

/-- The end of a round of `command_dispatch`, with the arguments. -/
def call (cp : CommandParser σ) (args : List Arg) (s : σ) : Option (Outcome σ) :=
  if board.isShutdown s && !cp.inShutdown then some (board.reportShutdown s, none)
  else cp.func.map fun func => func args (board.irqPoll s)

/-- A round of the loop of `command_dispatch`, with the pointer behind the command. -/
def dispatchRound (p : List UInt8) (s : σ) : Option (Outcome σ × List UInt8) :=
  match p with
  | [] => none
  | cmdid :: p =>
    match board.commandLookupParser cmdid with
    | none => some ((s, some "Invalid command"), p)
    | some cp =>
      match commandParsef cp.numArgs cp.paramTypes p with
      | none => none
      | some (.error reason) => some ((s, some reason), p)
      | some (.ok (args, p)) => (board.call cp args s).map fun outcome => (outcome, p)

/-- The loop of `command_dispatch`; every round takes a byte.  A shutdown jumps out of it. -/
def dispatchLoop : ℕ → List UInt8 → σ → Option (Outcome σ)
  | 0, _, s => some (s, none)
  | fuel + 1, p, s =>
    -- `p < msgend`
    if p.length ≤ messageTrailerSize then some (s, none)
    else
      match board.dispatchRound p s with
      | none => none
      | some ((s, some reason), _) => some (s, some reason)
      | some ((s, none), p) => dispatchLoop fuel p s

/-- `command_dispatch`. -/
def commandDispatch (block : List UInt8) (s : σ) : Option (Outcome σ) :=
  board.dispatchLoop block.length (block.drop messageHeaderSize) s

end Board

/-- A command as it is declared with `DECL_COMMAND_FLAGS`. -/
structure Declared (σ : Type*) where
  name : String
  paramNames : List (String × ParamType)
  inShutdown : Bool
  func : List Arg → σ → Outcome σ

def Declared.paramTypes (d : Declared σ) : List ParamType := d.paramNames.map Prod.snd

/-- `build_parser` for a command. -/
def Declared.buildParser (d : Declared σ) : CommandParser σ where
  numArgs := d.paramTypes.length + d.paramTypes.count .progmemBuffer + d.paramTypes.count .buffer
  inShutdown := d.inShutdown
  paramTypes := d.paramTypes
  func := some d.func

/-- `generate_commands_code`: the commands have the numbers from 1 on, the first of which is that of `identify`, as
`create_message_ids` gives them. -/
def generateCommandsCode (commands : List (Declared σ)) : List (CommandParser σ) :=
  ⟨0, false, [], none⟩ :: commands.map Declared.buildParser

structure CommandEncoder where
  msgId : UInt8
  maxSize : ℕ
  paramTypes : List ParamType
  deriving DecidableEq

/-- `build_parser` for a response. -/
def CommandEncoder.buildParser (msgId : UInt8) (paramTypes : List ParamType) : CommandEncoder where
  msgId := msgId
  maxSize := min messageMax (messageMin + 1 + (paramTypes.map ParamType.maxLength).sum)
  paramTypes := paramTypes

/-- An argument of `command_sendf`: a number, the bytes before the end of a string, or a length and a pointer. -/
inductive VaArg
  | value (v : UInt32)
  | string (s : List UInt8)
  | buffer (v : UInt32) (s : List UInt8)
  deriving DecidableEq

/-- The loop of `command_encodef` for the parameters: the bytes behind those that are written, `room` of which are
before `maxend`.  An argument of another type than the parameter, or a buffer that is shorter than its length, is
undefined. -/
def encodeParams (room : ℕ) : ℕ → List ParamType → List VaArg → Option (Except String (List UInt8))
  | _, [], _ => some (.ok [])
  | written, t :: paramTypes, args =>
    if room < written then some (.error "Message encode error")
    else
      let next (out : List UInt8) (args : List VaArg) :=
        (encodeParams room (written + out.length) paramTypes args).map (·.map fun rest => out ++ rest)
      match t, args with
      | .uint32, .value v :: args | .int32, .value v :: args | .uint16, .value v :: args | .int16, .value v :: args
      | .byte, .value v :: args => next (encodeInt v) args
      | .string, .string s :: args =>
        let cut := s.take (room - (written + 1))
        next (UInt8.ofNat cut.length :: cut) args
      | .progmemBuffer, .buffer v s :: args | .buffer, .buffer v s :: args =>
        let len := min v.toNat (room - written)
        if s.length < len then none else next (UInt8.ofNat len :: s.take len) args
      | _, _ => none

/-- `command_encodef`: what is between the header and the trailer. -/
def commandEncodef (ce : CommandEncoder) (args : List VaArg) : Option (Except String (List UInt8)) :=
  if ce.maxSize ≤ messageMin then some (.ok [])
  else (encodeParams (ce.maxSize - messageMin) 1 ce.paramTypes args).map (·.map fun out => ce.msgId :: out)

/-! ### Python -/

/-- A value of a parameter. -/
inductive Value
  | int (z : ℤ)
  | bytes (s : List UInt8)
  deriving DecidableEq

namespace ParamType

/-- `encode` of a type.  A value of the wrong type is a `TypeError`; a length that is not a byte cannot be sent. -/
def encode (t : ParamType) : Value → Option (List UInt8)
  | .int z => if t.isDynamicString then none else some (PT.encode z)
  | .bytes s => if t.isDynamicString ∧ s.length < 256 then some (UInt8.ofNat s.length :: s) else none

/-- `parse` of a type.  A slice may end before its end. -/
def parse (t : ParamType) (s : List UInt8) : Option (Value × List UInt8) :=
  if t.isDynamicString then
    match s with
    | [] => none
    | l :: s => some (.bytes (s.take l.toNat), s.drop l.toNat)
  else (PT.parse t.signed s).map fun r => (.int r.1, r.2)

end ParamType

structure MessageFormat where
  msgid : UInt8
  name : String
  paramNames : List (String × ParamType)
  deriving DecidableEq

namespace MessageFormat

/-- The loop of `encode` and `encode_by_name`. -/
def encodeAll : List (String × ParamType) → List Value → Option (List UInt8)
  | [], _ => some []
  | _ :: _, [] => none
  | param :: paramNames, v :: params =>
    match param.2.encode v, encodeAll paramNames params with
    | some out, some rest => some (out ++ rest)
    | _, _ => none

/-- `encode`. -/
def encode (mf : MessageFormat) (params : List Value) : Option (List UInt8) :=
  (encodeAll mf.paramNames params).map fun out => mf.msgid :: out

/-- The loop of `parse`; the dictionary has the last value of a name. -/
def parseAll : List (String × ParamType) → List UInt8 → Option (List (String × Value) × List UInt8)
  | [], s => some ([], s)
  | param :: paramNames, s =>
    match param.2.parse s with
    | none => none
    | some (v, s) => (parseAll paramNames s).map fun r => ((param.1, v) :: r.1, r.2)

end MessageFormat

/-- What `MessageParser.parse` returns. -/
inductive ParsedMessage
  | message (name : String) (params : List (String × Value))
  | unknown (msgid : UInt8) (msg : List UInt8)
  | error (text : String)
  deriving DecidableEq

/-- `parse` of `MessageParser` for a dictionary `messages_by_id`; a block that is too short raises an `IndexError`. -/
def MessageParser.parse (messagesById : UInt8 → Option MessageFormat) (s : List UInt8) : Option ParsedMessage :=
  match s.drop messageHeaderSize with
  | [] => none
  | msgid :: rest =>
    match messagesById msgid with
    | none => some (.unknown msgid s)
    | some mf =>
      (MessageFormat.parseAll mf.paramNames rest).map fun r =>
        if r.2.length ≠ messageTrailerSize then .error "Extra data at end of message" else .message mf.name r.1

/-- A command that the host issues: its place in the table, and its parameters. -/
structure Issued (σ : Type*) where
  place : ℕ
  command : Declared σ
  params : List Value

/-- The entry of the host's dictionary, whose number is `msgtag & 0x7f`. -/
def Issued.format (c : Issued σ) : MessageFormat :=
  ⟨UInt8.ofNat (c.place + 1), c.command.name, c.command.paramNames⟩

/-- What a value is for a function of the firmware. -/
def Value.args : Value → List Arg
  | .int z => [.value (UInt32.ofInt z)]
  | .bytes s => [.value (UInt32.ofNat s.length), .pointer s]

/-- A value that the firmware can parse: an integer with the sign or without it, or a buffer. -/
def Value.Parsable (t : ParamType) : Value → Prop
  | .int z => -2 ^ 31 ≤ z ∧ z < 2 ^ 32
  | .bytes _ => t = .buffer

/-- `msg` is the issued command, one of those that are declared. -/
structure Issued.Encoded (commands : List (Declared σ)) (c : Issued σ) (msg : List UInt8) : Prop where
  declared : commands[c.place]? = some c.command
  encode : c.format.encode c.params = some msg
  parsable : List.Forall₂ Value.Parsable c.command.paramTypes c.params

/-- The commands of a block, one after the other.  After a shutdown no other is called. -/
def Board.run (board : Board σ) : List (Issued σ) → σ → Outcome σ
  | [], s => (s, none)
  | c :: issued, s =>
    if board.isShutdown s && !c.command.inShutdown then board.run issued (board.reportShutdown s)
    else
      match c.command.func (c.params.flatMap Value.args) (board.irqPoll s) with
      | (s, some reason) => (s, some reason)
      | (s, none) => board.run issued s

end Defs

/-! ## Nothing outside of a block is read -/

section Inside

variable {σ : Type*} {board : Board σ} {commands : List (Declared σ)} {p q : List UInt8} {v : UInt32}

theorem parseInt_suffix (h : parseInt p = some (v, q)) : q <:+ p ∧ q.length < p.length := by
  rw [parseInt_eq] at h
  obtain ⟨⟨w, q'⟩, hread, heq⟩ := Option.map_eq_some_iff.mp h
  cases heq
  exact Vlq.read_suffix hread

/-- A pointer into a block: behind its end, or what is there ends with `MESSAGE_SYNC`. -/
def Within (p : List UInt8) : Prop := p ≠ [] → ∃ q, p = q ++ [messageSync]

theorem Within.of_suffix (h : Within p) (hq : q <:+ p) : Within q := by
  intro hne
  obtain ⟨t, rfl⟩ := hq
  obtain ⟨r, hr⟩ := h (List.append_ne_nil_of_right_ne_nil t hne)
  obtain ⟨a, b, rfl⟩ : ∃ a b, q = a ++ [b] := by
    rcases List.eq_nil_or_concat q with rfl | ⟨a, b, hab⟩
    · exact absurd rfl hne
    · exact ⟨a, b, by rw [hab, List.concat_eq_append]⟩
  rw [← List.append_assoc] at hr
  have hb := (List.append_inj' hr rfl).2
  exact ⟨a, by rw [List.cons.inj hb |>.1]⟩

theorem Within.parseInt (h : Within p) (hp : p ≠ []) : ∃ v q, parseInt p = some (v, q) := by
  obtain ⟨q, rfl⟩ := h hp
  obtain ⟨w, r, hread⟩ := Vlq.exists_read (s := q ++ [messageSync])
    ⟨messageSync, List.mem_append_right _ List.mem_cons_self, by decide⟩
  exact ⟨_, _, by rw [parseInt_eq, hread]; rfl⟩

/-- How many arguments a type stands for. -/
def ParamType.places : ParamType → ℕ
  | .progmemBuffer | .buffer => 2
  | _ => 1

theorem numArgs_eq (d : Declared σ) : d.buildParser.numArgs = (d.paramTypes.map ParamType.places).sum := by
  unfold Declared.buildParser
  simp only
  induction d.paramTypes with
  | nil => rfl
  | cons t types ih =>
    rw [List.map_cons, List.sum_cons, ← ih]
    cases t <;> simp [ParamType.places] <;> omega

/-- **A parameter is parsed inside of the block.** -/
theorem parseParam_within (t : ParamType) (h : Within p) :
    ∃ r, parseParam t p = some r ∧ ∀ args q, r = .ok (args, q) → q <:+ p ∧ args.length = t.places := by
  have herror : ∃ r : Except String (List Arg × List UInt8), some (.error "Command parser error") = some r ∧
      ∀ args q, r = .ok (args, q) → q <:+ p ∧ args.length = t.places := ⟨_, rfl, fun _ _ heq => nomatch heq⟩
  unfold parseParam
  by_cases hshort : p.length < messageTrailerSize
  · rw [if_pos hshort]
    exact herror
  rw [if_neg hshort]
  have hp : p ≠ [] := by
    rintro rfl
    exact hshort (by decide)
  have hint (hone : t.places = 1) : ∃ r, (parseInt p).map
    (fun r => Except.ok (ε := String) ([Arg.value r.1], r.2)) = some r ∧
      ∀ args q, r = .ok (args, q) → q <:+ p ∧ args.length = t.places := by
    obtain ⟨v, q, hv⟩ := h.parseInt hp
    refine ⟨_, by rw [hv]; rfl, fun args q' heq => ?_⟩
    cases heq
    exact ⟨(parseInt_suffix hv).1, hone.symm⟩
  cases t with
  | uint32 => exact hint rfl
  | int32 => exact hint rfl
  | uint16 => exact hint rfl
  | int16 => exact hint rfl
  | byte => exact hint rfl
  | string => exact herror
  | progmemBuffer => exact herror
  | buffer =>
    cases p with
    | nil => exact absurd rfl hp
    | cons len p =>
      simp only
      split_ifs with hlen
      · exact herror
      · refine ⟨_, rfl, fun args q heq => ?_⟩
        cases heq
        exact ⟨(List.drop_suffix _ _).trans (List.suffix_cons _ _), rfl⟩

/-- **`command_parsef` stays inside**, of the block and of `args`. -/
theorem commandParsef_within (types : List ParamType) (h : Within p) :
    ∃ r, commandParsef (types.map ParamType.places).sum types p = some r ∧ ∀ args q, r = .ok (args, q) → q <:+ p := by
  induction types generalizing p with
  | nil =>
    refine ⟨.ok ([], p), rfl, fun args q heq => ?_⟩
    cases heq
    exact List.suffix_refl _
  | cons t types ih =>
    obtain ⟨r, hr, hin⟩ := parseParam_within t h
    rw [commandParsef, hr]
    rcases r with reason | ⟨args, q⟩
    · exact ⟨_, rfl, fun _ _ heq => nomatch heq⟩
    · obtain ⟨hq, hlen⟩ := hin args q rfl
      obtain ⟨r, hr, hsuffix⟩ := ih (h.of_suffix hq)
      simp only [List.map_cons, List.sum_cons, hlen]
      rw [if_neg (by omega), Nat.add_sub_cancel_left, hr]
      refine ⟨_, rfl, fun args' q' heq => ?_⟩
      rcases r with reason | ⟨rest, q''⟩
      · cases heq
      · cases heq
        exact (hsuffix rest q'' rfl).trans hq

/-- A command is found under the number after its place. -/
theorem commandLookupParser_eq (hindex : board.commandIndex = generateCommandsCode commands) (cmdid : UInt8) :
    board.commandLookupParser cmdid =
      if cmdid = 0 then none else (commands[cmdid.toNat - 1]?).map Declared.buildParser := by
  unfold Board.commandLookupParser
  rw [hindex, generateCommandsCode]
  by_cases h0 : cmdid = 0
  · rw [if_pos h0, if_pos h0]
  · have hpos : cmdid.toNat ≠ 0 := fun h => h0 (UInt8.toNat_inj.mp h)
    obtain ⟨n, hn⟩ := Nat.exists_eq_succ_of_ne_zero hpos
    rw [if_neg h0, if_neg h0, hn, List.getElem?_cons_succ, List.getElem?_map, Nat.succ_sub_one]

theorem call_buildParser (d : Declared σ) (args : List Arg) (s : σ) :
    board.call d.buildParser args s =
      some (if board.isShutdown s && !d.inShutdown then (board.reportShutdown s,
        none) else d.func args (board.irqPoll s)) := by
  unfold Board.call Declared.buildParser
  simp only [Option.map_some]
  split_ifs <;> rfl

theorem dispatchRound_within (hindex : board.commandIndex = generateCommandsCode commands) (h : Within p) (hp : p ≠ [])
    (s : σ) : ∃ outcome q, board.dispatchRound p s = some (outcome, q) ∧ q <:+ p := by
  cases p with
  | nil => exact absurd rfl hp
  | cons cmdid p =>
    have htail : p <:+ cmdid :: p := List.suffix_cons cmdid p
    simp only [Board.dispatchRound, commandLookupParser_eq hindex]
    by_cases h0 : cmdid = 0
    · rw [if_pos h0]
      exact ⟨_, _, rfl, htail⟩
    rw [if_neg h0]
    cases commands[cmdid.toNat - 1]? with
    | none => exact ⟨_, _, rfl, htail⟩
    | some d =>
      obtain ⟨r, hr, hsuffix⟩ := commandParsef_within d.paramTypes (h.of_suffix htail)
      have hparse : commandParsef d.buildParser.numArgs d.buildParser.paramTypes p = some r := by
        rw [numArgs_eq]
        exact hr
      simp only [Option.map_some, hparse]
      rcases r with reason | ⟨args, q⟩
      · exact ⟨_, _, rfl, htail⟩
      · simp only [call_buildParser]
        exact ⟨_, _, rfl, (hsuffix args q rfl).trans htail⟩

theorem dispatchLoop_within (hindex : board.commandIndex = generateCommandsCode commands) (fuel : ℕ) (h : Within p)
    (s : σ) : ∃ r, board.dispatchLoop fuel p s = some r := by
  induction fuel generalizing p s with
  | zero => exact ⟨_, rfl⟩
  | succ fuel ih =>
    rw [Board.dispatchLoop]
    split_ifs with hend
    · exact ⟨_, rfl⟩
    have hp : p ≠ [] := by
      rintro rfl
      exact hend (Nat.zero_le _)
    obtain ⟨⟨s', reason⟩, q, hround, hq⟩ := dispatchRound_within hindex h hp s
    rw [hround]
    cases reason with
    | none => exact ih (h.of_suffix hq) s'
    | some reason => exact ⟨_, rfl⟩

theorem Within.of_valid {block : List UInt8} (h : Valid block) : Within block := by
  intro hne
  rcases List.eq_nil_or_concat block with rfl | ⟨t, c, hblock⟩
  · exact absurd rfl hne
  · rw [List.concat_eq_append] at hblock
    rw [hblock] at h
    exact ⟨t, by rw [hblock, (valid_concat_iff.mp h).2.2.2.2.1]⟩

/-- **Whatever a block holds**, `command_dispatch` reads nothing outside of it, writes nothing outside of `args` and
calls no function that is not there: as soon as the block has passed the tests, the `MESSAGE_SYNC` at its end ends
every number. -/
theorem dispatch_inside (hindex : board.commandIndex = generateCommandsCode commands) {block : List UInt8}
    (h : Valid block) (s : σ) : ∃ r, board.commandDispatch block s = some r :=
  dispatchLoop_within hindex _ ((Within.of_valid h).of_suffix (List.drop_suffix _ _)) s

end Inside

/-! ## The commands of the host -/

section Encoded

variable {σ : Type*} {board : Board σ} {commands : List (Declared σ)} {t : ParamType} {v : Value}
  {out tail : List UInt8}

theorem length_args (hv : v.Parsable t) (hout : t.encode v = some out) : v.args.length = t.places := by
  cases v with
  | int z =>
    unfold ParamType.encode at hout
    cases t <;> first | rfl | cases hout
  | bytes s =>
    cases (show t = .buffer from hv)
    rfl

/-- **A parameter is parsed as the value** that was encoded. -/
theorem parseParam_encode (hv : v.Parsable t) (hout : t.encode v = some out) (htail : 3 ≤ tail.length) :
    parseParam t (out ++ tail) = some (.ok (v.args, tail)) := by
  have h3 : messageTrailerSize = 3 := rfl
  unfold parseParam
  rw [if_neg (by rw [List.length_append]; omega)]
  cases v with
  | int z =>
    obtain ⟨h1, h2⟩ := hv
    unfold ParamType.encode at hout
    simp only at hout
    cases t with
    | string => cases hout
    | progmemBuffer => cases hout
    | buffer => cases hout
    | _ =>
      cases hout
      simp only [parseInt_encode h1 h2]
      rfl
  | bytes s =>
    cases (show t = .buffer from hv)
    unfold ParamType.encode at hout
    simp only [ParamType.isDynamicString, true_and] at hout
    split_ifs at hout with hlen
    cases hout
    have hnat : (UInt8.ofNat s.length).toNat = s.length := by
      rw [UInt8.toNat_ofNat']
      omega
    have h32 : (UInt8.ofNat s.length).toUInt32 = UInt32.ofNat s.length := by
      apply UInt32.toNat_inj.mp
      rw [UInt8.toNat_toUInt32, hnat, UInt32.toNat_ofNat']
      omega
    simp only [List.cons_append, hnat, h32]
    rw [if_neg (by rw [List.length_append]; omega), List.take_left, List.drop_left]
    rfl

theorem commandParsef_encode {names : List (String × ParamType)} {params : List Value}
    (h : List.Forall₂ Value.Parsable (names.map Prod.snd) params)
    (hout : MessageFormat.encodeAll names params = some out)
    (htail : 3 ≤ tail.length) :
    commandParsef ((names.map Prod.snd).map ParamType.places).sum (names.map Prod.snd) (out ++ tail) =
      some (.ok (params.flatMap Value.args, tail)) := by
  induction names generalizing params out with
  | nil =>
    cases h
    cases hout
    rfl
  | cons param names ih =>
    cases h with
    | @cons _ v _ params hv h =>
      rw [MessageFormat.encodeAll] at hout
      cases hfirst : param.2.encode v with
      | none => simp [hfirst] at hout
      | some first =>
        cases hrest : MessageFormat.encodeAll names params with
        | none => simp [hfirst, hrest] at hout
        | some rest =>
          rw [hfirst, hrest] at hout
          cases hout
          have hlen := length_args hv hfirst
          rw [List.map_cons, commandParsef, List.append_assoc,
            parseParam_encode hv hfirst (by rw [List.length_append]; omega)]
          simp only [List.map_cons, List.sum_cons, hlen]
          rw [if_neg (by omega), Nat.add_sub_cancel_left, ih h hrest]
          rfl

theorem encoded_cons {c : Issued σ} {msg : List UInt8} (hc : c.Encoded commands msg) :
    ∃ body, msg = UInt8.ofNat (c.place + 1) :: body ∧
      MessageFormat.encodeAll c.command.paramNames c.params = some body := by
  obtain ⟨body, hbody, rfl⟩ := Option.map_eq_some_iff.mp hc.encode
  exact ⟨body, rfl, hbody⟩

/-- A round of the loop for a command of the host. -/
theorem dispatchRound_encoded (hindex : board.commandIndex = generateCommandsCode commands)
    (hfew : commands.length < 128)
    {c : Issued σ} {msg : List UInt8} (hc : c.Encoded commands msg) (htail : 3 ≤ tail.length) (s : σ) :
    board.dispatchRound (msg ++ tail) s =
      some (if board.isShutdown s && !c.command.inShutdown then (board.reportShutdown s, none)
        else c.command.func (c.params.flatMap Value.args) (board.irqPoll s), tail) := by
  obtain ⟨body, rfl, hbody⟩ := encoded_cons hc
  have hplace := (List.getElem?_eq_some_iff.mp hc.declared).1
  have hid : (UInt8.ofNat (c.place + 1)).toNat = c.place + 1 := by
    rw [UInt8.toNat_ofNat']
    omega
  have hne : UInt8.ofNat (c.place + 1) ≠ 0 := fun h0 => by
    rw [h0] at hid
    exact absurd hid.symm (Nat.succ_ne_zero _)
  have hparse : commandParsef c.command.buildParser.numArgs c.command.buildParser.paramTypes (body ++ tail) =
      some (.ok (c.params.flatMap Value.args, tail)) := by
    rw [numArgs_eq]
    exact commandParsef_encode hc.parsable hbody htail
  simp only [List.cons_append, Board.dispatchRound, commandLookupParser_eq hindex, hid, Nat.add_sub_cancel, hc.declared,
    Option.map_some, if_neg hne, hparse, call_buildParser]

theorem dispatchLoop_encoded (hindex : board.commandIndex = generateCommandsCode commands)
    (hfew : commands.length < 128)
    {issued : List (Issued σ)} {msgs : List (List UInt8)} (hall : List.Forall₂ (Issued.Encoded commands) issued msgs)
    (htail : tail.length = 3) {fuel : ℕ} (hfuel : issued.length ≤ fuel) (s : σ) :
    board.dispatchLoop fuel (msgs.flatten ++ tail) s = some (board.run issued s) := by
  have h3 : messageTrailerSize = 3 := rfl
  induction hall generalizing fuel s with
  | nil =>
    cases fuel with
    | zero => rfl
    | succ fuel =>
      rw [Board.dispatchLoop, if_pos]
      · rfl
      · rw [List.flatten_nil, List.nil_append]
        omega
  | @cons c msg issued msgs hc hall ih =>
    rw [List.length_cons] at hfuel
    obtain ⟨fuel, rfl⟩ := Nat.exists_eq_add_of_le' (show 1 ≤ fuel by omega)
    have hlong : ¬ ((msg :: msgs).flatten ++ tail).length ≤ messageTrailerSize := by
      obtain ⟨body, rfl, -⟩ := encoded_cons hc
      simp only [List.flatten_cons, List.length_append, List.length_cons]
      omega
    rw [Board.dispatchLoop, if_neg hlong, List.flatten_cons, List.append_assoc,
      dispatchRound_encoded hindex hfew hc (by rw [List.length_append]; omega), Board.run]
    split_ifs
    · exact ih (by omega) _
    · cases c.command.func (c.params.flatMap Value.args) (board.irqPoll s) with
      | mk s' reason =>
        cases reason with
        | none => exact ih (by omega) s'
        | some reason => rfl

theorem length_issued {issued : List (Issued σ)} {msgs : List (List UInt8)}
    (hall : List.Forall₂ (Issued.Encoded commands) issued msgs) : issued.length ≤ msgs.flatten.length := by
  induction hall with
  | nil => exact le_rfl
  | @cons c msg issued msgs hc hall ih =>
    obtain ⟨body, rfl, -⟩ := encoded_cons hc
    simp only [List.flatten_cons, List.length_append, List.length_cons]
    omega

/-- **The functions get what the host gave**, one after the other: a block of commands that the host encoded, made by
either of its parts, is dispatched as these commands with these values, up to the first that shuts the firmware down. -/
theorem dispatch_encoded (hindex : board.commandIndex = generateCommandsCode commands) (hfew : commands.length < 128)
    {issued : List (Issued σ)} {msgs : List (List UInt8)} (hall : List.Forall₂ (Issued.Encoded commands) issued msgs)
    (seq : UInt8) (s : σ) : board.commandDispatch (frame seq msgs.flatten) s = some (board.run issued s) := by
  have hlen := length_issued hall
  have hdrop : (frame seq msgs.flatten).drop messageHeaderSize = msgs.flatten ++
      [(msgblockCrc16Ccitt (UInt8.ofNat (messageMin + msgs.flatten.length) :: seq :: msgs.flatten) >>> 8).toUInt8,
        (msgblockCrc16Ccitt (UInt8.ofNat (messageMin + msgs.flatten.length) :: seq :: msgs.flatten)).toUInt8,
        messageSync] := rfl
  rw [Board.commandDispatch, hdrop]
  exact dispatchLoop_encoded hindex hfew hall rfl (by rw [frame_length]; omega) s

/-- `identify`, with a function that notes its arguments. -/
def identifyNoted : Declared (List (List Arg)) :=
  ⟨"identify", [("offset", .uint32), ("count", .byte)], true, fun args calls => (calls ++ [args], none)⟩

def identifyBoard : Board (List (List Arg)) := ⟨generateCommandsCode [identifyNoted], fun _ => false, id, id,
    fun _ => id⟩

theorem dispatch_inside_concreteCase : ∃ r, identifyBoard.commandDispatch (frame 0x10 [1, 0x80]) [] = some r :=
  dispatch_inside rfl (frame_valid (by decide) (by decide)) []

end Encoded

/-! ## The responses of the firmware -/

section Responses

variable {ints more : List (String × ParamType)} {vs : List UInt32} {args : List VaArg} {tail : List UInt8} {v : UInt32}
  {t : ParamType}

/-- The numbers of a type. -/
def ParamType.Holds (t : ParamType) (v : UInt32) : Prop :=
  match t with
  | .uint32 | .int32 => True
  | .uint16 => v.toNat < 2 ^ 16
  | .int16 => -2 ^ 15 ≤ Link.int32 v ∧ Link.int32 v < 2 ^ 15
  | .byte => v.toNat < 2 ^ 8
  | .string | .progmemBuffer | .buffer => False

theorem length_encodeInt_le (h : t.Holds v) : (encodeInt v).length ≤ t.maxLength := by
  rw [length_encodeInt]
  have hv := v.toNat_lt
  have h5 := width_le (wireValue v)
  have h3 (h : -2 ^ 15 ≤ int32 v ∧ int32 v < 2 ^ 16) : width (wireValue v) + 1 ≤ 3 := by
    refine Nat.succ_le_succ (width_le_two ?_)
    have hfits : Vlq.Fits 3 (int32 v) := (fits_three _).mp (by omega)
    rw [wireValue, if_pos hfits]
    exact (fits_two _).mp (by omega)
  rcases int32_cases v with hint | hint
  · cases t with
    | uint32 => exact Nat.succ_le_succ h5
    | int32 => exact Nat.succ_le_succ h5
    | uint16 => exact h3 (by have : v.toNat < 2 ^ 16 := h; omega)
    | int16 => exact h3 (by have : _ ∧ _ := h; omega)
    | byte =>
      have hbyte : v.toNat < 2 ^ 8 := h
      have hfits : Vlq.Fits 3 (int32 v) := (fits_three _).mp (by omega)
      refine Nat.succ_le_succ (width_le_one ?_)
      rw [wireValue, if_pos hfits]
      exact (fits_one _).mp (by omega)
    | _ => exact h.elim
  · cases t with
    | uint32 => exact Nat.succ_le_succ h5
    | int32 => exact Nat.succ_le_succ h5
    | uint16 => exact absurd (show v.toNat < 2 ^ 16 from h) (by omega)
    | int16 => exact h3 (by have : _ ∧ _ := h; omega)
    | byte => exact absurd (show v.toNat < 2 ^ 8 from h) (by omega)
    | _ => exact h.elim

theorem not_isDynamicString (h : t.Holds v) : t.isDynamicString = false := by
  cases t with
  | string => exact h.elim
  | progmemBuffer => exact h.elim
  | buffer => exact h.elim
  | _ => rfl

/-- The most bytes that parameters take. -/
def sizeOfParams (params : List (String × ParamType)) : ℕ := (params.map fun p => p.2.maxLength).sum

/-- The parameters as Python gets them. -/
def receivedParams (params : List (String × ParamType)) (vs : List UInt32) : List (String × Value) :=
  List.zipWith (fun p v => (p.1, .int (PT.received p.2.signed v))) params vs

theorem length_encoded_le (h : List.Forall₂ (fun p v => p.2.Holds v) ints vs) :
    (vs.flatMap encodeInt).length ≤ sizeOfParams ints := by
  induction h with
  | nil => exact le_rfl
  | cons hp h ih =>
    have := length_encodeInt_le hp
    simp only [List.flatMap_cons, List.length_append, sizeOfParams, List.map_cons, List.sum_cons] at ih ⊢
    omega

/-- **Numbers that have room** are encoded one after the other. -/
theorem encodeParams_ints (args : List VaArg) (h : List.Forall₂ (fun p v => p.2.Holds v) ints vs) {room written : ℕ}
    (hroom : written + sizeOfParams ints ≤ room) (types : List ParamType) :
    encodeParams room written (ints.map Prod.snd ++ types) (vs.map VaArg.value ++ args) =
      (encodeParams room (written + (vs.flatMap encodeInt).length) types args).map
        (·.map fun rest => vs.flatMap encodeInt ++ rest) := by
  induction h generalizing written with
  | nil =>
    simp only [List.map_nil, List.flatMap_nil, List.nil_append, List.length_nil, Nat.add_zero]
    cases encodeParams room written types args with
    | none => rfl
    | some r => cases r <;> rfl
  | @cons p v ints vs hp h ih =>
    have hlen := length_encodeInt_le hp
    have hsize : sizeOfParams (p :: ints) = p.2.maxLength + sizeOfParams ints := rfl
    have hfirst : encodeParams room written ((p :: ints).map Prod.snd ++ types) ((v :: vs).map VaArg.value ++ args) =
        (encodeParams room (written + (encodeInt v).length) (ints.map Prod.snd ++ types)
          (vs.map VaArg.value ++ args)).map
          (·.map fun rest => encodeInt v ++ rest) := by
      simp only [List.map_cons, List.cons_append]
      rw [encodeParams.eq_def]
      simp only
      rw [if_neg (by omega)]
      cases htype : p.2 with
      | string => exact absurd (not_isDynamicString hp) (by rw [htype]; decide)
      | progmemBuffer => exact absurd (not_isDynamicString hp) (by rw [htype]; decide)
      | buffer => exact absurd (not_isDynamicString hp) (by rw [htype]; decide)
      | _ => rfl
    rw [hfirst, ih (by omega)]
    simp only [List.flatMap_cons, List.length_append, Nat.add_assoc]
    cases encodeParams room (written + ((encodeInt v).length + (vs.flatMap encodeInt).length)) types args with
    | none => rfl
    | some r => cases r <;> simp [Except.map]

/-- **Python parses the numbers** that were encoded. -/
theorem parseAll_ints (more : List (String × ParamType)) (h : List.Forall₂ (fun p v => p.2.Holds v) ints vs)
    (tail : List UInt8) :
    MessageFormat.parseAll (ints ++ more) (vs.flatMap encodeInt ++ tail) =
      (MessageFormat.parseAll more tail).map fun r => (receivedParams ints vs ++ r.1, r.2) := by
  induction h with
  | nil =>
    simp only [List.flatMap_nil, List.nil_append, receivedParams, List.zipWith_nil_left]
    cases MessageFormat.parseAll more tail <;> rfl
  | @cons p v ints vs hp h ih =>
    have hparse : p.2.parse (encodeInt v ++ (vs.flatMap encodeInt ++ tail)) =
        some (.int (PT.received p.2.signed v), vs.flatMap encodeInt ++ tail) := by
      unfold ParamType.parse
      rw [not_isDynamicString hp, if_neg (by decide), PT.parse_encodeInt]
      rfl
    rw [List.cons_append, List.flatMap_cons, List.append_assoc, MessageFormat.parseAll, hparse]
    simp only [ih]
    cases MessageFormat.parseAll more tail <;> rfl

/-- How many bytes of a string or a buffer are sent, behind `written` others. -/
def cutLength (t : ParamType) (written len : ℕ) : ℕ := min len (if t = .string then 58 - written else 59 - written)

/-- The argument for a string or a buffer. -/
def dynamicArg (t : ParamType) (data : List UInt8) : VaArg :=
  if t = .string then .string data else .buffer (UInt32.ofNat data.length) data

/-- **A string or a buffer** at the end of a response goes as far as there is room. -/
theorem encodeParams_dynamic (ht : t.isDynamicString = true) {written : ℕ} (hroom : written ≤ 58) {data : List UInt8}
    (hdata : data.length < 2 ^ 32) :
    encodeParams 59 written [t] [dynamicArg t data] =
      some (.ok (UInt8.ofNat (cutLength t written data.length) :: data.take (cutLength t written data.length))) := by
  have hbuffer (hne : t ≠ .string) (h : ∀ v s, encodeParams 59 written [t] [.buffer v s] =
      if s.length < min v.toNat (59 - written) then none
      else some (.ok (UInt8.ofNat (min v.toNat (59 - written)) :: s.take (min v.toNat (59 - written))))) :
      encodeParams 59 written [t] [dynamicArg t data] =
        some (.ok (UInt8.ofNat (cutLength t written data.length) :: data.take (cutLength t written data.length))) := by
    have hv : (UInt32.ofNat data.length).toNat = data.length := by
      rw [UInt32.toNat_ofNat']
      omega
    rw [dynamicArg, if_neg hne, h, hv, if_neg (by omega), cutLength, if_neg hne]
  have hfits : ¬ 59 < written := by omega
  cases t with
  | string =>
    have hcut : data.take (59 - (written + 1)) = data.take (cutLength .string written data.length) := by
      rw [List.take_eq_take_min, show 59 - (written + 1) = 58 - written by omega, Nat.min_comm]
      rfl
    have hlen : (data.take (cutLength .string written data.length)).length = cutLength .string written data.length := by
      rw [List.length_take]
      exact Nat.min_eq_left (Nat.min_le_left _ _)
    simp only [dynamicArg, if_true, encodeParams, if_neg hfits, Option.map_some, hcut, hlen]
    simp [Except.map]
  | progmemBuffer => exact hbuffer (by decide) fun v s => by simp [encodeParams, hfits, Except.map]
  | buffer => exact hbuffer (by decide) fun v s => by simp [encodeParams, hfits, Except.map]
  | _ => cases ht

theorem parse_frame {messagesById : UInt8 → Option MessageFormat} (mf : MessageFormat)
    (hmf : messagesById mf.msgid = some mf) {body : List UInt8} {params : List (String × Value)} (seq : UInt8)
    (h : ∀ tail, MessageFormat.parseAll mf.paramNames (body ++ tail) = some (params, tail)) :
    MessageParser.parse messagesById (frame seq (mf.msgid :: body)) = some (.message mf.name params) := by
  obtain ⟨trailer, hlen, hdrop⟩ : ∃ trailer : List UInt8, trailer.length = 3 ∧
      (frame seq (mf.msgid :: body)).drop messageHeaderSize = mf.msgid :: (body ++ trailer) := ⟨_, rfl, rfl⟩
  unfold MessageParser.parse
  rw [hdrop]
  simp only [hmf, h trailer, Option.map_some]
  rw [if_neg (by rw [hlen]; decide)]

/-- **What the firmware sends is what Python parses**, with no error on either side: every number that its type holds,
the signed ones as `PT.received` says; and a string or a buffer at the end up to what there is room for, which for a
buffer is one byte too much: only then is the message longer than `max_size`. -/
theorem response_round_trip (hints : List.Forall₂ (fun p v => p.2.Holds v) ints vs)
    (messagesById : UInt8 → Option MessageFormat) (msgid seq : UInt8) (name : String) :
    (messagesById msgid = some ⟨msgid, name, ints⟩ → sizeOfParams ints ≤ 58 →
      ∃ out, commandEncodef (.buildParser msgid (ints.map Prod.snd)) (vs.map VaArg.value) = some (.ok out) ∧
        out.length + 5 ≤ (CommandEncoder.buildParser msgid (ints.map Prod.snd)).maxSize ∧
        MessageParser.parse messagesById (frame seq out) = some (.message name (receivedParams ints vs))) ∧
    ∀ n t data, t.isDynamicString = true → data.length < 2 ^ 32 →
      messagesById msgid = some ⟨msgid, name, ints ++ [(n, t)]⟩ → sizeOfParams ints ≤ 57 →
      ∃ out k, commandEncodef (.buildParser msgid ((ints ++ [(n, t)]).map Prod.snd))
          (vs.map VaArg.value ++ [dynamicArg t data]) = some (.ok out) ∧
        k = cutLength t (1 + (vs.flatMap encodeInt).length) data.length ∧
        out.length = 2 + (vs.flatMap encodeInt).length + k ∧
        (64 < out.length + 5 ↔ t ≠ .string ∧ 58 < 1 + (vs.flatMap encodeInt).length + data.length) ∧
        MessageParser.parse messagesById (frame seq out) =
          some (.message name (receivedParams ints vs ++ [(n, .bytes (data.take k))])) := by
  have h64 : messageMax = 64 := rfl
  have h5 : messageMin = 5 := rfl
  have hlen := length_encoded_le hints
  constructor
  · intro hmf hsize
    have hmax : (CommandEncoder.buildParser msgid (ints.map Prod.snd)).maxSize = 6 + sizeOfParams ints := by
      simp only [CommandEncoder.buildParser, List.map_map]
      exact (Nat.min_eq_right (show 6 + sizeOfParams ints ≤ 64 by omega))
    have hencode := encodeParams_ints [] hints (le_refl (1 + sizeOfParams ints)) []
    rw [List.append_nil, List.append_nil, encodeParams] at hencode
    refine ⟨msgid :: vs.flatMap encodeInt, ?_, ?_, ?_⟩
    · rw [commandEncodef, if_neg (by omega), hmax, show 6 + sizeOfParams ints - messageMin =
        1 + sizeOfParams ints by omega]
      change Option.map _ (encodeParams _ 1 (ints.map Prod.snd) _) = _
      rw [hencode]
      simp [Except.map, CommandEncoder.buildParser]
    · rw [hmax, List.length_cons]
      omega
    · refine parse_frame ⟨msgid, name, ints⟩ hmf seq fun tail => ?_
      have hparse := parseAll_ints [] hints tail
      rw [List.append_nil] at hparse
      rw [hparse]
      simp [MessageFormat.parseAll]
  · intro n t data ht hdata hmf hsize
    have hmax : (CommandEncoder.buildParser msgid ((ints ++ [(n, t)]).map Prod.snd)).maxSize = 64 := by
      have htype : t.maxLength = 64 := by cases t <;> first | rfl | cases ht
      simp only [CommandEncoder.buildParser, List.map_append, List.map_cons, List.map_nil, List.sum_append,
        List.sum_cons,
        htype]
      omega
    have hencode := encodeParams_ints [dynamicArg t data] hints
      (show 1 + sizeOfParams ints ≤ 59 by omega) [t]
    rw [encodeParams_dynamic ht (by omega) hdata] at hencode
    have hk : (data.take (cutLength t (1 + (vs.flatMap encodeInt).length) data.length)).length =
        cutLength t (1 + (vs.flatMap encodeInt).length) data.length := by
      rw [List.length_take]
      exact Nat.min_eq_left (Nat.min_le_left _ _)
    have hbyte : cutLength t (1 + (vs.flatMap encodeInt).length) data.length ≤ 58 ∧
        (57 < (vs.flatMap encodeInt).length + cutLength t (1 + (vs.flatMap encodeInt).length) data.length ↔
          t ≠ .string ∧ 58 < 1 + (vs.flatMap encodeInt).length + data.length) := by
      unfold cutLength
      by_cases htype : t = .string
      · rw [if_pos htype]
        exact ⟨by omega, fun h => absurd h (by omega), fun h => absurd htype h.1⟩
      · rw [if_neg htype]
        exact ⟨by omega, fun h => ⟨htype, by omega⟩, fun h => by omega⟩
    generalize cutLength t (1 + (vs.flatMap encodeInt).length) data.length = k at hencode hk hbyte
    refine ⟨msgid :: (vs.flatMap encodeInt ++ UInt8.ofNat k :: data.take k), k, ?_, rfl, ?_, ?_, ?_⟩
    · rw [commandEncodef, if_neg (by omega), hmax]
      have htypes : (CommandEncoder.buildParser msgid ((ints ++ [(n, t)]).map Prod.snd)).paramTypes =
          ints.map Prod.snd ++ [t] := by
        simp [CommandEncoder.buildParser]
      rw [htypes, show 64 - messageMin = 59 from rfl, hencode]
      rfl
    · simp only [List.length_cons, List.length_append, hk]
      omega
    · rw [← hbyte.2]
      simp only [List.length_cons, List.length_append, hk]
      omega
    · refine parse_frame ⟨msgid, name, ints ++ [(n, t)]⟩ hmf seq fun tail => ?_
      have hnat : (UInt8.ofNat k).toNat = (data.take k).length := by
        rw [UInt8.toNat_ofNat', hk]
        omega
      rw [List.append_assoc, parseAll_ints _ hints]
      simp only [List.cons_append, MessageFormat.parseAll, ParamType.parse, ht, if_true, hnat, List.take_left,
        List.drop_left, Option.map_some]

/-- The answer to `identify`. -/
theorem response_round_trip_concreteCase :
    ∃ out k, commandEncodef (.buildParser 0 [.uint32, .progmemBuffer]) [.value 40,
      dynamicArg .progmemBuffer [1, 2, 3]] =
        some (.ok out) ∧ k = 3 ∧
      MessageParser.parse
          (fun msgid => if msgid = 0 then some ⟨0, "identify_response",
            [("offset", .uint32), ("data", .progmemBuffer)]⟩ else none)
          (frame 0x11 out) =
        some (.message "identify_response" [("offset", .int 40), ("data", .bytes [1, 2, 3])]) := by
  have hints : List.Forall₂ (fun (p : String × ParamType) v => p.2.Holds v) [("offset", .uint32)] [40] :=
    List.Forall₂.cons trivial List.Forall₂.nil
  obtain ⟨out, k, hencode, hk, -, -, hparse⟩ := (response_round_trip hints
    (fun msgid => if msgid = 0 then some ⟨0, "identify_response",
      [("offset", .uint32), ("data", .progmemBuffer)]⟩ else none)
    0 0x11 "identify_response").2 "data" .progmemBuffer [1, 2, 3] rfl (by decide) rfl (by decide)
  cases hk
  exact ⟨out, 3, hencode, rfl, hparse⟩

end Responses

end Cxsw.Link
