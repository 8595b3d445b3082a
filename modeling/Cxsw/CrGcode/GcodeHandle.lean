import Cxsw.CrGcode.GcodeWords

/-!
# Cxsw.CrGcode.GcodeHandle — which handler a line goes to (`CrGcode/GcodeHandle/GcodeHandle.c`, `GcodeList.c`)

`GcodeFindItem` looks for the command of a line in `GcodeList`.  It has a copy of `GetGcodeCmd`; the parser of the
entry calls the other one, or compares the line itself.

* `gcodeBuffToCmd_eq`: the copies agree.
* `gcodeFindItem_eq`: the entry is the one with the name.
* `dispatch_iff`: when the entry is found, in the buffers, and its parser knows the command.
-/

namespace Cxsw.Gcode

open CString Words Cxsw.Ack

/-! ## The table -/

section Table

/-- What a parser asks of a line before it reads the arguments. -/
inductive ParseHead
  /-- `Len <= 1`, the letter, `GetGcodeCmd` and `strcmp` with the names. -/
  | named (letter : Char) (names : List String)
  /-- The same with `Len < 1`. -/
  | namedOne (letter : Char) (names : List String)
  /-- The same with the length in an `S8`, which has no sign here. -/
  | namedByte (letter : Char) (names : List String)
  /-- `GetGcodeCmd` and `strcmp` alone. -/
  | bare (name : String)
  /-- `strncmp` with the command. -/
  | begins (letter : Char) (name : String)
  /-- The tools: any command with the letter. -/
  | tool
  /-- `strncmp` with the line. -/
  | line (name : String)
  deriving DecidableEq

/-- What is done with the command of a line, where `no` is for a line without one. -/
def withCmd {β : Type} (no : β) (f : List UInt8 → β) : Except ParseError (List UInt8) → Except ParseError β
  | .ok cmd => .ok (f cmd)
  | .error .rejected => .ok no
  | .error .overflow => .error .overflow

/-- `GetGcodeCmd` and a look at the command. -/
def checkCmd (p : List UInt8 → Bool) (line : List UInt8) : Except ParseError Bool :=
  withCmd false p (getGcodeCmd line)

/-- The length and the letter come first. -/
def checkLine (short : Bool) (letter : Char) (p : List UInt8 → Bool) (line : List UInt8) : Except ParseError Bool :=
  if short = true ∨ line.head? ≠ some (ascii letter) then .ok false else checkCmd p line

/-- Whether a parser goes on to the arguments. -/
def ParseHead.passes : ParseHead → List UInt8 → Except ParseError Bool
  | .named letter names, s => checkLine (s.length ≤ 1) letter (· ∈ names.map text) s
  | .namedOne letter names, s => checkLine (s.length < 1) letter (· ∈ names.map text) s
  | .namedByte letter names, s => checkLine (s.length % 256 ≤ 1) letter (· ∈ names.map text) s
  | .bare name, s => checkCmd (· = text name) s
  | .begins letter name, s => checkLine (s.length ≤ 1) letter (text name <+: ·) s
  | .tool, s => checkLine (s.length ≤ 1) 'T' (fun _ => true) s
  | .line name, s => .ok (text name <+: s)

/-- `GcodeItem_t`: the name, the start of the parser, and what the parser returns at its end. -/
structure GcodeItem where
  cmd : List UInt8
  head : ParseHead
  ended : GcodeReadAction
  deriving DecidableEq

/-- `GcodeList`.  `M126` to `M129` are left out by `PIN_EXISTS`, which asks for a `HEATER0_PIN_PIN`, and `M281` by
`EDITABLE_SERVO_ANGLES`. -/
def gcodeList : List GcodeItem :=
  [⟨text "G0", .named 'G' ["G0"], .execOk⟩,
   ⟨text "G1", .named 'G' ["G1"], .execOk⟩,
   ⟨text "G4", .named 'G' ["G4"], .execOk⟩,
   ⟨text "G27", .named 'G' ["G27"], .execOk⟩,
   ⟨text "G28", .named 'G' ["G28"], .execOk⟩,
   ⟨text "G21", .named 'G' ["G21"], .execOk⟩,
   ⟨text "G60", .named 'G' ["G60"], .execOk⟩,
   ⟨text "G20", .named 'G' ["G20"], .execOk⟩,
   ⟨text "G61", .named 'G' ["G61"], .execOk⟩,
   ⟨text "G92", .begins 'G' "G92", .execOk⟩,
   ⟨text "G90", .named 'G' ["G90"], .execOk⟩,
   ⟨text "G91", .named 'G' ["G91"], .execOk⟩,
   ⟨text "M104", .named 'M' ["M104"], .execOk⟩,
   ⟨text "M105", .named 'M' ["M105"], .execOk⟩,
   ⟨text "M106", .named 'M' ["M106"], .execOk⟩,
   ⟨text "M107", .named 'M' ["M107"], .execOk⟩,
   ⟨text "M108", .line "M108", .execOk⟩,
   ⟨text "M109", .named 'M' ["M109"], .execOk⟩,
   ⟨text "M110", .named 'M' ["M110"], .execOk⟩,
   ⟨text "M114", .named 'M' ["M114"], .execOk⟩,
   ⟨text "M115", .named 'M' ["M115"], .execOk⟩,
   ⟨text "M140", .named 'M' ["M140"], .execOk⟩,
   ⟨text "M155", .named 'M' ["M155"], .execOk⟩,
   ⟨text "M201", .named 'M' ["M201"], .execOk⟩,
   ⟨text "M203", .named 'M' ["M203"], .execOk⟩,
   ⟨text "M204", .named 'M' ["M204"], .execOk⟩,
   ⟨text "M205", .named 'M' ["M205"], .execOk⟩,
   ⟨text "M207", .namedOne 'M' ["M207"], .execOk⟩,
   ⟨text "M208", .namedOne 'M' ["M208"], .execOk⟩,
   ⟨text "M209", .namedOne 'M' ["M209"], .execOk⟩,
   ⟨text "M220", .namedByte 'M' ["M220"], .execOk⟩,
   ⟨text "M221", .namedByte 'M' ["M221"], .execOk⟩,
   ⟨text "M290", .line "M290", .execOk⟩,
   ⟨text "M300", .namedByte 'M' ["M300"], .execOk⟩,
   ⟨text "M403", .namedByte 'M' ["M403"], .execOk⟩,
   ⟨text "M410", .namedOne 'M' ["M410"], .execOk⟩,
   ⟨text "M500", .line "M500", .execOk⟩,
   ⟨text "M501", .line "M501", .execOk⟩,
   ⟨text "M503", .line "M503", .execOk⟩,
   ⟨text "M540", .namedByte 'M' ["M540"], .execOk⟩,
   ⟨text "M701", .namedByte 'M' ["M701"], .execOk⟩,
   ⟨text "M702", .namedByte 'M' ["M702"], .execOk⟩,
   ⟨text "M710", .named 'M' ["M710"], .execOk⟩,
   ⟨text "M17", .named 'M' ["M17"], .execOk⟩,
   ⟨text "M18", .named 'M' ["M18", "M84"], .execOk⟩,
   ⟨text "M84", .named 'M' ["M18", "M84"], .execOk⟩,
   ⟨text "M190", .named 'M' ["M190"], .execOk⟩,
   ⟨text "M82", .named 'M' ["M82"], .execOk⟩,
   ⟨text "M83", .named 'M' ["M83"], .execOk⟩,
   ⟨text "T", .tool, .execOk⟩,
   ⟨text "M16", .namedByte 'M' ["M16"], .execOk⟩,
   ⟨text "M20", .bare "M20", .execOk⟩,
   ⟨text "M21", .named 'M' ["M21"], .execOk⟩,
   ⟨text "M22", .named 'M' ["M22"], .execOk⟩,
   ⟨text "M23", .bare "M23", .execOk⟩,
   ⟨text "M24", .named 'M' ["M24"], .execOk⟩,
   ⟨text "M25", .named 'M' ["M25"], .execOk⟩,
   ⟨text "M27", .namedByte 'M' ["M27"], .execOk⟩,
   ⟨text "M31", .line "M31", .execOk⟩,
   ⟨text "M28", .bare "M28", .execOk⟩,
   ⟨text "M29", .bare "M29", .execOk⟩,
   ⟨text "M524", .line "M524", .execOk⟩,
   ⟨text "M380", .line "M380", .execOk⟩,
   ⟨text "M381", .line "M381", .execOk⟩,
   ⟨text "M85", .line "M85", .execOk⟩,
   ⟨text "M163", .named 'M' ["M163"], .execOk⟩,
   ⟨text "M164", .line "M164", .execOk⟩,
   ⟨text "M280", .line "M280", .execOk⟩,
   ⟨text "M355", .line "M355", .execOk⟩,
   ⟨text "M401", .line "M401", .execOk⟩,
   ⟨text "M402", .line "M402", .execOk⟩,
   ⟨text "M420", .line "CMD_M420", .execOk⟩,
   ⟨text "M421", .line "M421", .execOk⟩,
   ⟨text "M422", .line "M422", .execOk⟩,
   ⟨text "G32", .line "G32", .execOk⟩,
   ⟨text "G38", .line "G38", .execOk⟩,
   ⟨text "M999", .named 'M' ["M999"], .execOk⟩,
   ⟨text "M860", .named 'M' ["M860"], .execOk⟩,
   ⟨text "M861", .named 'M' ["M861"], .execOk⟩,
   ⟨text "M862", .line "M862", .crErr⟩,
   ⟨text "M863", .line "M863", .crErr⟩,
   ⟨text "M864", .line "M864", .crErr⟩,
   ⟨text "M865", .line "M865", .crErr⟩,
   ⟨text "M866", .line "M866", .execOk⟩,
   ⟨text "M867", .line "M867", .execOk⟩,
   ⟨text "M868", .named 'M' ["M868"], .execOk⟩,
   ⟨text "M869", .line "M869", .execOk⟩,
   ⟨text "M261", .named 'M' ["M261"], .execOk⟩,
   ⟨text "M192", .named 'M' ["M192"], .execOk⟩,
   ⟨text "M605", .line "M605", .execOk⟩,
   ⟨text "M672", .line "M672", .execOk⟩,
   ⟨text "M7", .line "M7", .execOk⟩,
   ⟨text "M8", .line "M8", .execOk⟩,
   ⟨text "M9", .line "M9", .execOk⟩]

/-- `GcodeBuffToCmd`. -/
def gcodeBuffToCmd (buff : List UInt8) : Except ParseError (List UInt8) :=
  if s16 buff.length ≤ 1 ∨ buff.head? = some (ascii ';') then .error .rejected
  else
    match strchr buff (ascii ' ') with
    | none => (copied cmdBuffLen buff).map chomp
    | some count => (copied cmdBuffLen (buff.take count)).map fun cmd => m43 buff cmd count

/-- `GcodeFindItem`. -/
def gcodeFindItem (buff : List UInt8) : Except ParseError (Option GcodeItem) :=
  withCmd none (fun cmd => gcodeList.find? (·.cmd = cmd)) (gcodeBuffToCmd buff)

end Table

/-! ## What is asked for -/

section Spec

/-- The name of a line: what stands before the first space, without a line feed, or `M43 T`. -/
def lineName (line : List UInt8) : List UInt8 :=
  let name := (chomp line).takeWhile (· ≠ ascii ' ')
  if name = text "M43" ∧ (chomp line = text "M43 T" ∨ text "M43 T " <+: chomp line) then text "M43 T" else name

/-- The entry with the name of the line is found, or none if there is none; the parser's copy of the tokenizer finds
the same command; and the parser of the entry knows it and does not refuse every line.  Which arguments the parsers of
`G20`, `G21`, `G32`, `M280`, `M380` and `M381` refuse is left out. -/
structure Dispatches (line : List UInt8) : Prop where
  found : ∃ r, gcodeFindItem line = .ok r ∧ ∀ item, r = some item ↔ item ∈ gcodeList ∧ item.cmd = lineName line
  agrees : gcodeBuffToCmd line = getGcodeCmd line
  accepted : ∀ item, gcodeFindItem line = .ok (some item) →
    item.head.passes line = .ok true ∧ item.ended ≠ .crErr

/-- The entries whose parsers refuse every line: `CMD_M420` is the text `CMD_M420`, the others end in `return 0`. -/
def refusing : List (List UInt8) := ["M420", "M862", "M863", "M864", "M865"].map text

/-- The entries whose parsers have the length in an `S8`. -/
def byteLength : List (List UInt8) :=
  ["M220", "M221", "M300", "M403", "M540", "M701", "M702", "M16", "M27"].map text

/-- The name has room in its buffer, and where the table has it the length fits and the parser works. -/
def DispatchFits (line : List UInt8) : Prop :=
  (1 < s16 line.length → line.head? ≠ some (ascii ';') →
      (line.takeWhile (· ≠ ascii ' ')).length < cmdBuffLen) ∧
    (lineName line ∈ gcodeList.map GcodeItem.cmd →
      1 < s16 line.length ∧ lineName line ∉ refusing ∧ (lineName line ∈ byteLength → 1 < line.length % 256))

end Spec

/-! ## The command of a line -/

section Command

variable {line cmd : List UInt8}

/-- The copies of the tokenizer agree. -/
theorem gcodeBuffToCmd_eq (line : List UInt8) : gcodeBuffToCmd line = getGcodeCmd line := by
  unfold gcodeBuffToCmd getGcodeCmd
  rfl

theorem le_of_s16 {n : ℕ} (h : 1 < s16 n) : 1 < n := by
  unfold s16 at h
  rw [Int.bmod_def] at h
  split_ifs at h <;> omega

/-- A line without the length or with the sign of a comment is no command. -/
theorem getGcodeCmd_rejected (h : s16 line.length ≤ 1 ∨ line.head? = some (ascii ';')) :
    getGcodeCmd line = .error .rejected := by
  unfold getGcodeCmd
  rw [if_pos h]

theorem takeWhile_chomp (line : List UInt8) :
    (chomp line).takeWhile (· ≠ ascii ' ') = match strchr line (ascii ' ') with
      | none => chomp line
      | some count => line.take count := by
  by_cases hmem : ascii ' ' ∈ line
  · obtain ⟨name, rest, rfl, hno⟩ := List.eq_append_cons_of_mem hmem
    have htake : (name ++ ascii ' ' :: chomp rest).takeWhile (· ≠ ascii ' ') = name := by
      rw [takeWhile_strchr, strchr_sep hno]
      exact List.take_left
    rw [strchr_sep hno, chomp_append_cons _ _ (by decide), htake]
    exact List.take_left.symm
  · have hstrchr : strchr line (ascii ' ') = none :=
      Option.not_isSome_iff_eq_none.mp fun h => hmem (strchr_isSome.mp h)
    rw [hstrchr]
    refine List.takeWhile_eq_self_iff.mpr fun b hb => decide_eq_true ?_
    rintro rfl
    exact hmem ((chomp_isPrefix line).subset hb)

/-- What the tokenizer finds is the text before the first space, or `M43 T`. -/
theorem getGcodeCmd_base (hcmd : getGcodeCmd line = .ok cmd) :
    1 < line.length ∧ (cmd = (chomp line).takeWhile (· ≠ ascii ' ') ∨
      (chomp line).takeWhile (· ≠ ascii ' ') = text "M43" ∧ cmd = text "M43 T") := by
  by_cases hpass : s16 line.length ≤ 1 ∨ line.head? = some (ascii ';')
  · rw [getGcodeCmd_rejected hpass] at hcmd
    exact nomatch hcmd
  refine ⟨le_of_s16 (not_le.mp (not_or.mp hpass).1), ?_⟩
  rw [getGcodeCmd_eq hpass] at hcmd
  split_ifs at hcmd
  obtain rfl := Except.ok.inj hcmd
  rw [takeWhile_chomp]
  cases strchr line (ascii ' ') with
  | none => exact Or.inl rfl
  | some count =>
    dsimp only
    unfold m43
    split_ifs with h43
    · exact Or.inr ⟨h43.1, rfl⟩
    · exact Or.inl rfl

theorem lineName_base (line : List UInt8) :
    lineName line = (chomp line).takeWhile (· ≠ ascii ' ') ∨
      (chomp line).takeWhile (· ≠ ascii ' ') = text "M43" ∧ lineName line = text "M43 T" := by
  unfold lineName
  dsimp only
  split_ifs with h43
  · exact Or.inr ⟨h43.1, rfl⟩
  · exact Or.inl rfl

/-- The tokenizer finds the name of the line, `M43` and `M43 T` apart. -/
theorem getGcodeCmd_name (hcmd : getGcodeCmd line = .ok cmd) {name : List UInt8} (h43 : name ≠ text "M43")
    (h43T : name ≠ text "M43 T") : cmd = name ↔ lineName line = name := by
  have hsame {s : List UInt8} (h : s = (chomp line).takeWhile (· ≠ ascii ' ') ∨
      (chomp line).takeWhile (· ≠ ascii ' ') = text "M43" ∧ s = text "M43 T") :
      s = name ↔ (chomp line).takeWhile (· ≠ ascii ' ') = name := by
    rcases h with h | ⟨hbase, hs⟩
    · rw [h]
    · rw [hbase, hs]
      exact iff_of_false h43T.symm h43.symm
  rw [hsame (getGcodeCmd_base hcmd).2, hsame (lineName_base line)]

theorem getGcodeCmd_prefix (hcmd : getGcodeCmd line = .ok cmd) (h43T : cmd ≠ text "M43 T") : cmd <+: line := by
  rcases (getGcodeCmd_base hcmd).2 with hbase | ⟨-, hT⟩
  · rw [hbase]
    exact (List.takeWhile_prefix _).trans (chomp_isPrefix line)
  · exact absurd hT h43T

theorem head_lineName (h : line.head? = some (ascii ';')) : (lineName line).head? = some (ascii ';') := by
  have hchomp := (head_chomp (s := line) (c := ascii ';') (by decide)).mpr h
  obtain ⟨rest, hrest⟩ := List.head?_eq_some_iff.mp hchomp
  have hbase : ((chomp line).takeWhile (· ≠ ascii ' ')).head? = some (ascii ';') := by
    rw [hrest]
    rfl
  rcases lineName_base line with hname | ⟨h43, -⟩
  · rw [hname]
    exact hbase
  · rw [h43] at hbase
    exact absurd hbase (by decide)

end Command

/-! ## The parser of an entry -/

section Entry

variable {line cmd : List UInt8}

/-- The head of a parser knows a command. -/
def ParseHead.knows (cmd : List UInt8) : ParseHead → Bool
  | .named letter names | .namedOne letter names | .namedByte letter names =>
    cmd.head? = some (ascii letter) ∧ cmd ∈ names.map text
  | .bare name => cmd = text name
  | .begins letter name => cmd.head? = some (ascii letter) ∧ text name <+: cmd
  | .tool => cmd.head? = some (ascii 'T')
  | .line name => text name <+: cmd

/-- The length is in an `S8`. -/
def ParseHead.byteLen : ParseHead → Bool
  | .namedByte _ _ => true
  | _ => false

theorem checkCmd_eq (hcmd : getGcodeCmd line = .ok cmd) (p : List UInt8 → Bool) : checkCmd p line = .ok (p cmd) := by
  unfold checkCmd
  rw [hcmd, withCmd]

theorem checkLine_eq (hcmd : getGcodeCmd line = .ok cmd) {letter : Char} (hhead : line.head? = some (ascii letter))
    {short : Bool} (hshort : short = false) (p : List UInt8 → Bool) : checkLine short letter p line = .ok (p cmd) := by
  unfold checkLine
  rw [if_neg (by simp [hhead, hshort]), checkCmd_eq hcmd]

/-- A parser that knows the command goes on, unless its `S8` is too short. -/
theorem passes_of_knows (hcmd : getGcodeCmd line = .ok cmd) (hpre : cmd <+: line) (hne : cmd ≠ [])
    (hlong : 1 < line.length) {head : ParseHead} (hknows : head.knows cmd = true) :
    head.passes line = .ok (!head.byteLen || decide (1 < line.length % 256)) := by
  have hstart : line.head? = cmd.head? := by
    obtain ⟨rest, rfl⟩ := hpre
    exact List.head?_append_of_ne_nil cmd hne
  cases head with
  | named letter names =>
    obtain ⟨hhead, hmem⟩ := of_decide_eq_true hknows
    rw [ParseHead.passes, checkLine_eq hcmd (hstart.trans hhead) (decide_eq_false (by omega)), decide_eq_true hmem]
    rfl
  | namedOne letter names =>
    obtain ⟨hhead, hmem⟩ := of_decide_eq_true hknows
    rw [ParseHead.passes, checkLine_eq hcmd (hstart.trans hhead) (decide_eq_false (by omega)), decide_eq_true hmem]
    rfl
  | namedByte letter names =>
    obtain ⟨hhead, hmem⟩ := of_decide_eq_true hknows
    by_cases hbyte : 1 < line.length % 256
    · rw [ParseHead.passes, checkLine_eq hcmd (hstart.trans hhead) (decide_eq_false (by omega)), decide_eq_true hmem,
        decide_eq_true hbyte]
      rfl
    · rw [ParseHead.passes, checkLine, if_pos (Or.inl (decide_eq_true (by omega))), decide_eq_false hbyte]
      rfl
  | bare name =>
    have hname : decide (cmd = text name) = true := hknows
    rw [ParseHead.passes, checkCmd_eq hcmd, hname]
    rfl
  | begins letter name =>
    obtain ⟨hhead, hname⟩ := of_decide_eq_true hknows
    rw [ParseHead.passes, checkLine_eq hcmd (hstart.trans hhead) (decide_eq_false (by omega)), decide_eq_true hname]
    rfl
  | tool =>
    rw [ParseHead.passes, checkLine_eq hcmd (hstart.trans (of_decide_eq_true hknows)) (decide_eq_false (by omega))]
    rfl
  | line name =>
    rw [ParseHead.passes, decide_eq_true ((of_decide_eq_true hknows : text name <+: cmd).trans hpre)]
    rfl

end Entry

/-! ## The table -/

section Find

theorem find?_eq_some_of_nodup {β κ : Type*} [DecidableEq κ] {f : β → κ} {l : List β} (h : (l.map f).Nodup) (x : κ)
    (b : β) : l.find? (f · = x) = some b ↔ b ∈ l ∧ f b = x := by
  induction l with
  | nil => simp
  | cons a l ih =>
    rw [List.map_cons, List.nodup_cons] at h
    by_cases ha : f a = x
    · have hfind : (a :: l).find? (f · = x) = some a := List.find?_cons_of_pos (decide_eq_true ha)
      rw [hfind, Option.some.injEq, List.mem_cons]
      constructor
      · rintro rfl
        exact ⟨Or.inl rfl, ha⟩
      · rintro ⟨rfl | hb, hfb⟩
        · rfl
        · refine absurd ?_ h.1
          rw [ha, ← hfb]
          exact List.mem_map_of_mem hb
    · have hfind : (a :: l).find? (f · = x) = l.find? (f · = x) :=
        List.find?_cons_of_neg fun h => ha (of_decide_eq_true h)
      rw [hfind, ih h.2, List.mem_cons]
      refine and_congr_left fun hfb => (or_iff_right ?_).symm
      rintro rfl
      exact ha hfb

/-- The bytes of a name as digits, which tell names apart in one comparison. -/
def nameNumber (name : List UInt8) : ℕ := name.foldl (fun n b => n * 256 + b.toNat) 0

theorem gcodeList_nodup : (gcodeList.map GcodeItem.cmd).Nodup := by
  have hnumbers : ((gcodeList.map GcodeItem.cmd).map nameNumber).Nodup := by decide +kernel
  exact hnumbers.of_map _

/-- Every entry but those that refuse everything has a parser that knows the name. -/
theorem gcodeList_entries : ∀ item ∈ gcodeList,
    (item.cmd ∉ refusing → item.head.knows item.cmd = true ∧ item.ended ≠ .crErr) ∧
    (item.cmd ∈ refusing → item.ended = .crErr ∨ item.head = .line "CMD_M420") ∧
    (item.head.byteLen = true ↔ item.cmd ∈ byteLength) ∧
    item.cmd ≠ text "M43" ∧ item.cmd ≠ text "M43 T" ∧ item.cmd ≠ [] ∧ item.cmd.head? ≠ some (ascii ';') := by
  decide +kernel

/-- The parser of an entry goes on with a line that has its command. -/
theorem accepted_iff {line : List UInt8} {item : GcodeItem} (hmem : item ∈ gcodeList)
    (hcmd : getGcodeCmd line = .ok item.cmd) :
    item.head.passes line = .ok true ∧ item.ended ≠ .crErr ↔
      item.cmd ∉ refusing ∧ (item.cmd ∈ byteLength → 1 < line.length % 256) := by
  obtain ⟨hplain, hrefused, hbyteLen, -, h43T, hne, -⟩ := gcodeList_entries item hmem
  have hpre := getGcodeCmd_prefix hcmd h43T
  by_cases hrefusing : item.cmd ∈ refusing
  · refine iff_of_false ?_ fun h => h.1 hrefusing
    rintro ⟨hpasses, hended⟩
    have hline := (hrefused hrefusing).resolve_left hended
    rw [hline, ParseHead.passes, Except.ok.injEq, decide_eq_true_iff] at hpasses
    have hM : ∀ cmd ∈ refusing, ¬(text "CMD_M420" <+: cmd ∨ cmd <+: text "CMD_M420") := by decide
    exact hM _ hrefusing (List.prefix_or_prefix_of_prefix hpasses hpre)
  · obtain ⟨hknows, hended⟩ := hplain hrefusing
    rw [passes_of_knows hcmd hpre hne (getGcodeCmd_base hcmd).1 hknows, Except.ok.injEq, Bool.or_eq_true,
      Bool.not_eq_true', decide_eq_true_iff, and_iff_left hended, and_iff_right hrefusing,
      ← hbyteLen, ← Bool.not_eq_true, ← imp_iff_not_or]

theorem find_name {line cmd : List UInt8} (hcmd : getGcodeCmd line = .ok cmd) (item : GcodeItem) :
    gcodeList.find? (·.cmd = cmd) = some item ↔ item ∈ gcodeList ∧ item.cmd = lineName line := by
  rw [find?_eq_some_of_nodup gcodeList_nodup]
  refine and_congr_right fun hmem => ?_
  obtain ⟨-, -, -, h43, h43T, -, -⟩ := gcodeList_entries item hmem
  rw [eq_comm, getGcodeCmd_name hcmd h43 h43T, eq_comm]

/-- **The dispatch** of a line finds its entry, in the buffers, with a parser that knows the command, exactly if the
line fits. -/
theorem dispatch_iff (line : List UInt8) : Dispatches line ↔ DispatchFits line := by
  have hagrees := gcodeBuffToCmd_eq line
  by_cases hpass : s16 line.length ≤ 1 ∨ line.head? = some (ascii ';')
  · have hfind : gcodeFindItem line = .ok none := by
      rw [gcodeFindItem, hagrees, getGcodeCmd_rejected hpass, withCmd]
    constructor
    · intro h
      refine ⟨fun hlong hhead => absurd hpass (not_or.mpr ⟨not_le.mpr hlong, hhead⟩), fun hname => ?_⟩
      obtain ⟨item, hitem, hcmd⟩ := List.mem_map.mp hname
      obtain ⟨r, hr, hall⟩ := h.found
      have hsome := (hall item).mpr ⟨hitem, hcmd⟩
      rw [hsome, hfind] at hr
      exact nomatch hr
    · intro h
      have hno : lineName line ∉ gcodeList.map GcodeItem.cmd := by
        intro hname
        rcases hpass with hshort | hhead
        · exact absurd (h.2 hname).1 (not_lt.mpr hshort)
        · obtain ⟨item, hmem, hcmd⟩ := List.mem_map.mp hname
          obtain ⟨-, -, -, -, -, -, hnone⟩ := gcodeList_entries item hmem
          exact hnone (hcmd ▸ head_lineName hhead)
      refine ⟨⟨none, hfind, fun item => iff_of_false nofun fun hitem => hno ?_⟩, hagrees, fun item hitem => ?_⟩
      · rw [← hitem.2]
        exact List.mem_map_of_mem hitem.1
      · rw [hfind] at hitem
        exact nomatch hitem
  have hlong := not_le.mp (not_or.mp hpass).1
  by_cases hname : (line.takeWhile (· ≠ ascii ' ')).length < cmdBuffLen
  · obtain ⟨cmd, hget⟩ : ∃ cmd, getGcodeCmd line = .ok cmd :=
      ⟨_, (getGcodeCmd_eq hpass).trans (if_pos hname)⟩
    have hfind : gcodeFindItem line = .ok (gcodeList.find? (·.cmd = cmd)) := by
      rw [gcodeFindItem, hagrees, hget, withCmd]
    have haccepted {item : GcodeItem} (hitem : gcodeList.find? (·.cmd = cmd) = some item) :
        item.head.passes line = .ok true ∧ item.ended ≠ .crErr ↔
          lineName line ∉ refusing ∧ (lineName line ∈ byteLength → 1 < line.length % 256) := by
      obtain ⟨hmem, hcmd⟩ := (find?_eq_some_of_nodup gcodeList_nodup cmd item).mp hitem
      rw [← ((find_name hget item).mp hitem).2]
      refine accepted_iff hmem ?_
      rw [hget, hcmd]
    constructor
    · intro h
      refine ⟨fun _ _ => hname, fun hmem => ⟨hlong, ?_⟩⟩
      obtain ⟨item, hitem, hcmd⟩ := List.mem_map.mp hmem
      have hsome := (find_name hget item).mpr ⟨hitem, hcmd⟩
      exact (haccepted hsome).mp (h.accepted item (by rw [hfind, hsome]))
    · intro h
      refine ⟨⟨_, hfind, find_name hget⟩, hagrees, fun item hitem => ?_⟩
      have hsome := Except.ok.inj (hfind.symm.trans hitem)
      obtain ⟨hmem, hcmd⟩ := (find_name hget item).mp hsome
      refine (haccepted hsome).mpr (h.2 ?_).2
      rw [← hcmd]
      exact List.mem_map_of_mem hmem
  · have hfind : gcodeFindItem line = .error .overflow := by
      rw [gcodeFindItem, hagrees, getGcodeCmd_eq hpass, if_neg hname, withCmd]
    refine iff_of_false (fun h => ?_) fun h => hname (h.1 hlong (not_or.mp hpass).2)
    obtain ⟨r, hr, -⟩ := h.found
    rw [hfind] at hr
    exact nomatch hr

/-- `M420` is found, but its parser looks for another text; `G1X10Y20` goes to 8 bytes with its NUL. -/
theorem not_dispatches : ¬Dispatches (text "M420 S1") ∧ ¬Dispatches (text "G1X10Y20") := by
  constructor
  · intro h
    have hfind : gcodeFindItem (text "M420 S1") = .ok (some ⟨text "M420", .line "CMD_M420", .execOk⟩) := by
      decide +kernel
    exact absurd (h.accepted _ hfind).1 (by decide)
  · intro h
    obtain ⟨r, hr, -⟩ := h.found
    have hfind : gcodeFindItem (text "G1X10Y20") = .error .overflow := by decide +kernel
    rw [hfind] at hr
    exact nomatch hr

end Find

end Cxsw.Gcode
