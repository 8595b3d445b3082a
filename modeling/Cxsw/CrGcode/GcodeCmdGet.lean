import Mathlib.Data.Fin.VecNotation
import Mathlib.Data.Fintype.Basic
import Cxsw.Lib.CString
import Cxsw.Lib.Run

/-!
# Cxsw.CrGcode.GcodeCmdGet — open G-code files (`CrGcode/GcodeCmdGet/GcodeCmdGet.cpp`)

`GcodeFileOpen` hands out a slot of the table `FileInfo`, `GcodeFileGetCmd` parses the next command of a slot's file in
chunks of `READ_BYTE_COUNT_ONCE` bytes, and `GcodeFileClose` frees the slot.  The comment flag of the parser is shared,
and the parser is given the first slot of the table to advance, whichever file it reads.

The operating system's descriptors are numbers that refer to the content of an open file; `open` returns one that is
not in use.

* `parseLoop_stream`: on descriptor 0 a call parses what is left of the file, and returns.
* `sessions_independent`: in every run that reads no other descriptor, each file is read as if it were alone, and the
  slots that are handed out are unused.
* `secondFile_stuck`: two open files, and the second one is read.
-/

namespace Cxsw.SdFile

open CString

/-! ## The parser -/

section Parser

/-- `READ_BYTE_COUNT_ONCE`. -/
def readByteCountOnce : ℕ := 50

/-- The static `Flag` of `GetRealCmd`, the caller's `ResultBuf`, and whether a byte outside it was written. -/
structure Parser where
  flag : Bool
  buf : List UInt8
  outside : Bool
  deriving DecidableEq

/-- `ResultBuf[i] = byte`. -/
def Parser.write (p : Parser) (i : ℤ) (byte : UInt8) : Parser :=
  if 0 ≤ i ∧ i < p.buf.length then { p with buf := p.buf.set i.toNat byte } else { p with outside := true }

/-- What `GetRealCmd` leaves: `Res` packs `Count` and `CmdComplete`, and `parsed` is what it added to
`ParseByteCount`. -/
structure Pass where
  parser : Parser
  parsed : ℕ
  count : ℕ
  cmdComplete : Bool

/-- The loop of `GetRealCmd`. -/
def getRealCmdLoop (count parsed : ℕ) (p : Parser) : List UInt8 → Pass
  | [] => ⟨p, parsed, count, false⟩
  | byte :: temp =>
    if byte = ascii ';' then getRealCmdLoop count (parsed + 1) { p with flag := false } temp
    else if p.flag = false then
      if byte = ascii '\n' then ⟨{ p with flag := true }, parsed + 1, count, decide (2 ≤ strlen p.buf)⟩
      else getRealCmdLoop count (parsed + 1) p temp
    else if byte = ascii '\n' then
      let q := (p.write count byte).write ((count : ℤ) - 1) 0
      ⟨q, parsed + 1, count, decide (2 ≤ strlen q.buf)⟩
    else getRealCmdLoop (count + 1) (parsed + 1) (p.write count byte) temp

/-- `GetRealCmd`. -/
def getRealCmd (p : Parser) (temp : List UInt8) : Pass := getRealCmdLoop 0 0 p temp

/-- `Buf[strlen(Buf)] = '\0'`; behind a buffer without a zero there is one. -/
def Parser.terminate (p : Parser) : Parser := p.write (strlen p.buf) 0

end Parser

/-! ## The table of files -/

section Files

/-- `MAX_FILE_OPEN`. -/
abbrev maxFileOpen : ℕ := 5

/-- `MAX_FILE_NAME`. -/
def maxFileName : ℕ := 60

/-- An entry of the table; `fileName` is the string in its field of that name. -/
structure FileInfo where
  fileName : List UInt8
  fd : ℤ
  parseByteCount : ℕ

/-- The table `FileInfo`, the static `Flag`, and what the descriptors of the operating system refer to. -/
structure Files where
  info : Fin maxFileOpen → FileInfo
  flag : Bool
  os : ℤ → Option (List UInt8)

/-- The table at start-up. -/
def initFiles : Files := ⟨fun _ => ⟨[], 0, 0⟩, true, fun _ => none⟩

/-- `close`. -/
def closeFd (s : Files) (fd : ℤ) : Files := { s with os := Function.update s.os fd none }

/-- The loop of `GcodeFileOpen` over the slots: `FreeFlag`, and `Find`. -/
def findSlot (info : Fin maxFileOpen → FileInfo) (name : List UInt8) :
    Option (Fin maxFileOpen) → List (Fin maxFileOpen) → Option (Fin maxFileOpen) × Bool
  | freeFlag, [] => (freeFlag, false)
  | freeFlag, i :: is =>
    let freeFlag := if freeFlag.isNone ∧ (info i).fileName = [] then some i else freeFlag
    if (info i).fileName = name then if (info i).fd ≥ 0 then (freeFlag, true) else (some i, false)
    else findSlot info name freeFlag is

/-- `GcodeFileOpen`, where `open` has returned `fd` for a file with this content.  The second component is the
descriptor handed out, `none` for -1. -/
def gcodeFileOpen (s : Files) (name : List UInt8) (fd : ℤ) (content : List UInt8) : Files × Option (Fin maxFileOpen) :=
  let s := { s with os := Function.update s.os fd (some content) }
  match findSlot s.info name none (List.finRange maxFileOpen) with
  | (some i, false) =>
    ({ s with info := Function.update s.info i { s.info i with fd := fd, fileName := name.take (maxFileName - 1) } },
      some i)
  | _ => (closeFd s fd, none)

/-- `GcodeFileClose`; its `memset` clears the head of the name, so that the string in it is empty. -/
def gcodeFileClose (s : Files) (d : Fin maxFileOpen) : Files :=
  { closeFd s (s.info d).fd with info := Function.update s.info d ⟨[], -1, 0⟩ }

/-- `ParseByteCount` of `FileInfo[Count]`, which a pass over `n` bytes advances; `Count` is 0 throughout. -/
def addParsed (s : Files) (n : ℕ) : Files :=
  { s with info := Function.update s.info 0 { s.info 0 with parseByteCount := (s.info 0).parseByteCount + n } }

/-- The loop of `SdGcodeParseFunc`, with chunks of `once` bytes, as far as `fuel` passes.  It reads at the position of
its own slot, but advances and closes `FileInfo[Count]`. -/
def sdGcodeParseLoop (once : ℕ) (d : Fin maxFileOpen) : ℕ → Files → Parser → ℕ → Option (Files × Parser × ℤ)
  | 0, _, _, _ => none
  | fuel + 1, s, p, offset =>
    match s.os (s.info d).fd with
    | none => some (closeFd s (s.info 0).fd, p, -1)
    | some content =>
      let temp := (content.drop (s.info d).parseByteCount).take once
      if temp = [] then some (closeFd s (s.info 0).fd, p, 0)
      else
        let res := getRealCmd p temp
        let s := addParsed s res.parsed
        let offset := offset + res.count
        if res.cmdComplete ∧ offset ≠ 0 then some (s, res.parser.terminate, offset)
        else sdGcodeParseLoop once d fuel s res.parser.terminate offset

/-- **`GcodeFileGetCmd`** returns: the state it leaves, the buffer, and the value. -/
def GcodeFileGetCmd (once : ℕ) (s : Files) (d : Fin maxFileOpen) (buf : List UInt8) (r : Files × Parser × ℤ) : Prop :=
  ∃ fuel s', sdGcodeParseLoop once d fuel s ⟨s.flag, buf, false⟩ 0 = some (s', r.2) ∧
    r.1 = { s' with flag := r.2.1.flag }

end Files

/-! ## One file -/

section Stream

theorem getRealCmdLoop_parsed (count parsed : ℕ) (p : Parser) (temp : List UInt8) :
    parsed ≤ (getRealCmdLoop count parsed p temp).parsed ∧
      (temp ≠ [] → parsed < (getRealCmdLoop count parsed p temp).parsed) := by
  induction temp generalizing count parsed p with
  | nil => exact ⟨le_rfl, fun h => absurd rfl h⟩
  | cons byte temp ih =>
    have hnext : ∀ (count : ℕ) (p : Parser), parsed <
        (getRealCmdLoop count (parsed + 1) p temp).parsed := fun count p =>
      Nat.lt_of_lt_of_le (Nat.lt_succ_self parsed) (ih count (parsed + 1) p).1
    suffices h : parsed < (getRealCmdLoop count parsed p (byte :: temp)).parsed from ⟨h.le, fun _ => h⟩
    unfold getRealCmdLoop
    split_ifs
    · exact hnext _ _
    · exact Nat.lt_succ_self parsed
    · exact hnext _ _
    · exact Nat.lt_succ_self parsed
    · exact hnext _ _

theorem getRealCmd_parsed_pos (p : Parser) {temp : List UInt8} (h : temp ≠ []) : 0 < (getRealCmd p temp).parsed :=
  (getRealCmdLoop_parsed 0 0 p temp).2 h

/-- What a call does on a file: the parser it leaves, the bytes it takes, and the value it returns. -/
structure ReadResult where
  parser : Parser
  parsed : ℕ
  ret : ℕ
  deriving DecidableEq

theorem drop_parsed_lt {once : ℕ} {rest : List UInt8} (p : Parser) (h : rest.take once ≠ []) :
    (rest.drop (getRealCmd p (rest.take once)).parsed).length < rest.length := by
  have hne : rest ≠ [] := by
    rintro rfl
    exact h List.take_nil
  have hpos := getRealCmd_parsed_pos p h
  have hlen := List.length_pos_of_ne_nil hne
  rw [List.length_drop]
  omega

/-- A call on the unread part `rest` of a file, alone. -/
def streamRead (once : ℕ) (p : Parser) (offset : ℕ) (rest : List UInt8) : ReadResult :=
  if h : rest.take once = [] then ⟨p, 0, 0⟩
  else
    have := drop_parsed_lt p h
    let res := getRealCmd p (rest.take once)
    if res.cmdComplete ∧ offset + res.count ≠ 0 then ⟨res.parser.terminate, res.parsed, offset + res.count⟩
    else
      let r := streamRead once res.parser.terminate (offset + res.count) (rest.drop res.parsed)
      ⟨r.parser, res.parsed + r.parsed, r.ret⟩
termination_by rest.length
decreasing_by exact this

theorem streamRead_end {once : ℕ} {rest : List UInt8} (h : rest.take once = []) (p : Parser) (offset : ℕ) :
    streamRead once p offset rest = ⟨p, 0, 0⟩ := by
  rw [streamRead, dif_pos h]

theorem streamRead_pass {once : ℕ} {rest : List UInt8} (h : rest.take once ≠ []) (p : Parser) (offset : ℕ) :
    streamRead once p offset rest =
      let res := getRealCmd p (rest.take once)
      if res.cmdComplete ∧ offset + res.count ≠ 0 then ⟨res.parser.terminate, res.parsed, offset + res.count⟩
      else
        let r := streamRead once res.parser.terminate (offset + res.count) (rest.drop res.parsed)
        ⟨r.parser, res.parsed + r.parsed, r.ret⟩ := by
  rw [streamRead, dif_neg h]

theorem streamRead_done {once offset : ℕ} {p : Parser} {rest : List UInt8} (h : rest.take once ≠ [])
    (hdone : (getRealCmd p (rest.take once)).cmdComplete = true ∧
      offset + (getRealCmd p (rest.take once)).count ≠ 0) :
    streamRead once p offset rest =
      ⟨(getRealCmd p (rest.take once)).parser.terminate, (getRealCmd p (rest.take once)).parsed,
        offset + (getRealCmd p (rest.take once)).count⟩ := by
  rw [streamRead_pass h]
  exact if_pos hdone

/-- The table after a call on descriptor 0. -/
def afterRead (s : Files) (r : ReadResult) : Files :=
  if r.ret = 0 then closeFd (addParsed s r.parsed) (s.info 0).fd else addParsed s r.parsed

@[simp] theorem addParsed_os (s : Files) (n : ℕ) : (addParsed s n).os = s.os := rfl

@[simp] theorem addParsed_fd (s : Files) (n : ℕ) : ((addParsed s n).info 0).fd = (s.info 0).fd := by
  simp [addParsed]

@[simp] theorem addParsed_parseByteCount (s : Files) (n : ℕ) :
    ((addParsed s n).info 0).parseByteCount = (s.info 0).parseByteCount + n := by
  simp [addParsed]

theorem addParsed_add (s : Files) (m n : ℕ) : addParsed (addParsed s m) n = addParsed s (m + n) := by
  simp [addParsed, Nat.add_assoc]

theorem addParsed_zero (s : Files) : addParsed s 0 = s := by
  simp [addParsed]

/-- **Descriptor 0 is read like a file alone**: whatever the loop returns is what the stream gives, and it returns. -/
theorem parseLoop_stream {once fuel : ℕ} {s : Files} {content : List UInt8}
    (h : s.os (s.info 0).fd = some content) (p : Parser) (offset : ℕ) :
    (∀ r, sdGcodeParseLoop once 0 fuel s p offset = some r →
        r = (afterRead s (streamRead once p offset (content.drop (s.info 0).parseByteCount)),
          (streamRead once p offset (content.drop (s.info 0).parseByteCount)).parser,
          ((streamRead once p offset (content.drop (s.info 0).parseByteCount)).ret : ℤ))) ∧
      ((content.drop (s.info 0).parseByteCount).length < fuel → sdGcodeParseLoop once 0 fuel s p offset ≠ none) := by
  induction fuel generalizing s p offset with
  | zero => exact ⟨fun r hr => by simp [sdGcodeParseLoop] at hr, fun hlt => absurd hlt (Nat.not_lt_zero _)⟩
  | succ fuel ih =>
    unfold sdGcodeParseLoop
    rw [h]
    dsimp only
    by_cases htemp : (content.drop (s.info 0).parseByteCount).take once = []
    · rw [if_pos htemp, streamRead_end htemp]
      refine ⟨fun r hr => ?_, fun _ => by simp⟩
      rw [← Option.some.inj hr]
      simp [afterRead, addParsed_zero]
    · rw [if_neg htemp, streamRead_pass htemp]
      dsimp only
      have hshort := drop_parsed_lt p htemp
      generalize hres : getRealCmd p ((content.drop (s.info 0).parseByteCount).take once) = res
      rw [hres] at hshort
      by_cases hdone : res.cmdComplete ∧ offset + res.count ≠ 0
      · rw [if_pos hdone, if_pos hdone]
        refine ⟨fun r hr => ?_, fun _ => by simp⟩
        rw [← Option.some.inj hr]
        unfold afterRead
        rw [if_neg hdone.2]
      · rw [if_neg hdone, if_neg hdone]
        -- the next pass begins where this one has advanced the first slot to
        obtain ⟨hfst, hsnd⟩ := ih (s := addParsed s res.parsed) (by simpa using h) res.parser.terminate
          (offset + res.count)
        rw [addParsed_parseByteCount, ← List.drop_drop] at hfst hsnd
        refine ⟨fun r hr => ?_, fun hlt => hsnd (by omega)⟩
        rw [hfst r hr]
        simp [afterRead, addParsed_add]

/-- **A call on descriptor 0 returns**, with what the stream gives. -/
theorem gcodeFileGetCmd_iff {once : ℕ} {s : Files} {content : List UInt8} (h : s.os (s.info 0).fd = some content)
    (buf : List UInt8) (r : Files × Parser × ℤ) :
    GcodeFileGetCmd once s 0 buf r ↔
      let c := streamRead once ⟨s.flag, buf, false⟩ 0 (content.drop (s.info 0).parseByteCount)
      r = ({ afterRead s c with flag := c.parser.flag }, c.parser, (c.ret : ℤ)) := by
  have hloop := fun fuel => @parseLoop_stream once fuel s content h ⟨s.flag, buf, false⟩ 0
  constructor
  · rintro ⟨fuel, s', hr, hflag⟩
    obtain ⟨hs, hp⟩ := Prod.mk.inj ((hloop fuel).1 _ hr)
    rw [hs, hp] at hflag
    exact Prod.ext hflag hp
  · intro hr
    obtain ⟨q, hq⟩ := Option.ne_none_iff_exists'.mp ((hloop ((content.drop (s.info 0).parseByteCount).length + 1)).2
      (Nat.lt_succ_self _))
    rw [(hloop _).1 _ hq] at hq
    rw [hr]
    exact ⟨_, _, hq, rfl⟩

/-- A call on a closed descriptor of the operating system fails. -/
theorem gcodeFileGetCmd_closed {once : ℕ} {s : Files} {d : Fin maxFileOpen} (h : s.os (s.info d).fd = none)
    (buf : List UInt8) (r : Files × Parser × ℤ) :
    GcodeFileGetCmd once s d buf r ↔ r = (closeFd s (s.info 0).fd, ⟨s.flag, buf, false⟩, -1) := by
  constructor
  · rintro ⟨fuel, s', hr, hflag⟩
    cases fuel with
    | zero => simp [sdGcodeParseLoop] at hr
    | succ fuel =>
      unfold sdGcodeParseLoop at hr
      rw [h] at hr
      obtain ⟨hs, hp⟩ := Prod.mk.inj (Option.some.inj hr)
      rw [← hs, ← hp] at hflag
      exact Prod.ext hflag hp.symm
  · rintro rfl
    refine ⟨1, closeFd s (s.info 0).fd, ?_, rfl⟩
    unfold sdGcodeParseLoop
    rw [h]

end Stream

/-! ## Runs over the table -/

section Runs

/-- The use of a slot since it was handed out: the content of its file, the buffers passed to its calls, and what these
returned. -/
structure Session where
  content : List UInt8
  calls : List (List UInt8)
  outs : List (ℤ × List UInt8)

/-- The table, and the sessions of the slots in use. -/
structure World where
  files : Files
  session : Fin maxFileOpen → Option Session

/-- Nothing is open. -/
def initWorld : World := ⟨initFiles, fun _ => none⟩

/-- The calls; an `open` that succeeds gives `fd` for a file with this content. -/
inductive Event
  | open (name : List UInt8) (fd : ℤ) (content : List UInt8)
  | getCmd (d : Fin maxFileOpen) (buf : List UInt8)
  | close (d : Fin maxFileOpen)

/-- A session begins where a slot was handed out. -/
def World.opened (w : World) (content : List UInt8) (r : Files × Option (Fin maxFileOpen)) : World :=
  match r.2 with
  | some d => ⟨r.1, Function.update w.session d (some ⟨content, [], []⟩)⟩
  | none => ⟨r.1, w.session⟩

/-- A caller uses the descriptors it was handed, until it closes them. -/
inductive Step : World → Event → World → Prop
  | open {w : World} {name : List UInt8} {fd : ℤ} {content : List UInt8} (hname : name ≠ []) (hfd : 0 ≤ fd)
      (hfree : w.files.os fd = none) :
      Step w (.open name fd content) (w.opened content (gcodeFileOpen w.files name fd content))
  | getCmd {w : World} {d : Fin maxFileOpen} {buf : List UInt8} {ss : Session} {r : Files × Parser × ℤ}
      (hss : w.session d = some ss) (hr : GcodeFileGetCmd readByteCountOnce w.files d buf r) :
      Step w (.getCmd d buf)
        ⟨r.1, Function.update w.session d
          (some ⟨ss.content, ss.calls ++ [buf], ss.outs ++ [(r.2.2, r.2.1.buf)]⟩)⟩
  | close {w : World} {d : Fin maxFileOpen} (hss : w.session d ≠ none) :
      Step w (.close d) ⟨gcodeFileClose w.files d, Function.update w.session d none⟩

/-- **The condition of a call**: commands are read from descriptor 0 only; and an `open` gets no number that a slot in
use still holds, and finds the comment flag clear if slot 0 is free. -/
def CallOk (w : World) : Event → Prop
  | .open _ fd _ => (∀ d, w.session d ≠ none → (w.files.info d).fd ≠ fd) ∧ (w.session 0 = none → w.files.flag = true)
  | .getCmd d _ => d = 0
  | .close _ => True

/-- A file that is read alone: its unread part, the comment flag, and whether its end has been met. -/
structure Solo where
  rest : List UInt8
  flag : Bool
  live : Bool

/-- A call on it, with its output. -/
def soloStep (f : Solo) (buf : List UInt8) : Solo × (ℤ × List UInt8) :=
  if f.live then
    let r := streamRead readByteCountOnce ⟨f.flag, buf, false⟩ 0 f.rest
    (⟨f.rest.drop r.parsed, r.parser.flag, decide (r.ret ≠ 0)⟩, (r.ret, r.parser.buf))
  else (f, (-1, buf))

/-- The outputs of the calls on a file with this content. -/
def readAlone (content : List UInt8) (calls : List (List UInt8)) : List (ℤ × List UInt8) :=
  (mealy soloStep ⟨content, true, true⟩ calls).2

/-- **What the sessions see**: the outputs of every session are those of its file and its calls alone; a slot not in use
has no name and position 0, and an `open` hands out such a slot, and does so if there is one and the name is not
open. -/
structure Independent (w : World) : Prop where
  outs : ∀ d ss, w.session d = some ss → ss.outs = readAlone ss.content ss.calls
  unused : ∀ d, w.session d = none → (w.files.info d).fileName = [] ∧ (w.files.info d).parseByteCount = 0
  fresh : ∀ name fd content d, (gcodeFileOpen w.files name fd content).2 = some d → w.session d = none
  usable : ∀ name fd content, (∀ d, (w.files.info d).fileName ≠ name) → (∃ d, w.session d = none) →
    (gcodeFileOpen w.files name fd content).2 ≠ none

/-- The state of the file alone after its calls. -/
def soloAfter (content : List UInt8) (calls : List (List UInt8)) : Solo :=
  (mealy soloStep ⟨content, true, true⟩ calls).1

theorem soloAfter_concat (content : List UInt8) (calls : List (List UInt8)) (buf : List UInt8) :
    soloAfter content (calls ++ [buf]) = (soloStep (soloAfter content calls) buf).1 := by
  unfold soloAfter
  rw [mealy_append]
  rfl

theorem readAlone_concat (content : List UInt8) (calls : List (List UInt8)) (buf : List UInt8) :
    readAlone content (calls ++ [buf]) = readAlone content calls ++ [(soloStep (soloAfter content calls) buf).2] := by
  unfold readAlone soloAfter
  rw [mealy_append]
  rfl

/-- The session of slot 0 has gone as its file alone. -/
structure Follows (s : Files) (ss : Session) : Prop where
  outs : ss.outs = readAlone ss.content ss.calls
  flag : (soloAfter ss.content ss.calls).flag = s.flag
  live : (soloAfter ss.content ss.calls).live = true →
    s.os (s.info 0).fd = some ss.content ∧
      (soloAfter ss.content ss.calls).rest = ss.content.drop (s.info 0).parseByteCount
  ended : (soloAfter ss.content ss.calls).live = false → s.os (s.info 0).fd = none

/-- The invariant of the runs whose calls meet the condition. -/
structure Inv (w : World) : Prop where
  unused : ∀ d, w.session d = none → (w.files.info d).fileName = [] ∧ (w.files.info d).parseByteCount = 0
  named : ∀ d, w.session d ≠ none → (w.files.info d).fileName ≠ [] ∧ 0 ≤ (w.files.info d).fd
  distinct : ∀ d e, d ≠ e → w.session d ≠ none → w.session e ≠ none → (w.files.info d).fd ≠ (w.files.info e).fd
  idle : ∀ d ss, d ≠ 0 → w.session d = some ss → ss.calls = [] ∧ ss.outs = []
  first : ∀ ss, w.session 0 = some ss → Follows w.files ss

theorem inv_init : Inv initWorld where
  unused := fun _ _ => ⟨rfl, rfl⟩
  named := fun _ h => absurd rfl h
  distinct := fun _ _ _ h => absurd rfl h
  idle := fun _ _ _ h => by cases h
  first := fun _ h => by cases h

/-- The slot that the loop of `GcodeFileOpen` chooses has no name, or that of the file and no descriptor. -/
theorem findSlot_free {info : Fin maxFileOpen → FileInfo} {name : List UInt8} {freeFlag : Option (Fin maxFileOpen)}
    {is : List (Fin maxFileOpen)} {i : Fin maxFileOpen} (h : findSlot info name freeFlag is = (some i, false)) :
    freeFlag = some i ∨ (info i).fileName = [] ∨ ((info i).fileName = name ∧ (info i).fd < 0) := by
  induction is generalizing freeFlag with
  | nil =>
    rw [findSlot] at h
    exact Or.inl (Prod.mk.inj h).1
  | cons j is ih =>
    unfold findSlot at h
    dsimp only at h
    by_cases hname : (info j).fileName = name
    · rw [if_pos hname] at h
      by_cases hfd : (info j).fd ≥ 0
      · rw [if_pos hfd] at h
        exact absurd (Prod.mk.inj h).2 (by decide)
      · rw [if_neg hfd] at h
        obtain rfl := Option.some.inj (Prod.mk.inj h).1
        exact Or.inr (Or.inr ⟨hname, not_le.mp hfd⟩)
    · rw [if_neg hname] at h
      obtain hj | hj := ih h
      · by_cases hfree : freeFlag.isNone ∧ (info j).fileName = []
        · rw [if_pos hfree] at hj
          rw [← Option.some.inj hj]
          exact Or.inr (Or.inl hfree.2)
        · rw [if_neg hfree] at hj
          exact Or.inl hj
      · exact Or.inr hj

/-- With a slot without a name, and the name not open, it chooses one. -/
theorem findSlot_some {info : Fin maxFileOpen → FileInfo} {name : List UInt8} {freeFlag : Option (Fin maxFileOpen)}
    {is : List (Fin maxFileOpen)} (hname : ∀ i ∈ is, (info i).fileName ≠ name)
    (h : freeFlag ≠ none ∨ ∃ i ∈ is, (info i).fileName = []) :
    ∃ i, findSlot info name freeFlag is = (some i, false) := by
  induction is generalizing freeFlag with
  | nil =>
    obtain h | ⟨i, hi, -⟩ := h
    · obtain ⟨i, rfl⟩ := Option.ne_none_iff_exists'.mp h
      exact ⟨i, rfl⟩
    · simp at hi
  | cons j is ih =>
    unfold findSlot
    dsimp only
    rw [if_neg (hname j List.mem_cons_self)]
    refine ih (fun i hi => hname i (List.mem_cons_of_mem j hi)) ?_
    by_cases hj : freeFlag.isNone ∧ (info j).fileName = []
    · rw [if_pos hj]
      exact Or.inl (by simp)
    · rw [if_neg hj]
      obtain h | ⟨i, hi, hempty⟩ := h
      · exact Or.inl h
      · obtain rfl | hi := List.mem_cons.mp hi
        · refine Or.inl fun hnone => hj ⟨by simp [hnone], hempty⟩
        · exact Or.inr ⟨i, hi, hempty⟩

/-- The descriptor handed out is the slot chosen. -/
theorem gcodeFileOpen_slot {s : Files} {name : List UInt8} {fd : ℤ} {content : List UInt8} {d : Fin maxFileOpen} :
    (gcodeFileOpen s name fd content).2 = some d ↔
      findSlot s.info name none (List.finRange maxFileOpen) = (some d, false) := by
  unfold gcodeFileOpen
  dsimp only
  generalize findSlot s.info name none (List.finRange maxFileOpen) = f
  obtain ⟨free, find⟩ := f
  cases free with
  | none => simp
  | some i => cases find <;> simp

/-- What `GcodeFileOpen` does: a slot is filled, or nothing is changed. -/
theorem gcodeFileOpen_cases {s : Files} {name : List UInt8} {fd : ℤ} {content : List UInt8} (hfree : s.os fd = none) :
    (∃ i, findSlot s.info name none (List.finRange maxFileOpen) = (some i, false) ∧
        gcodeFileOpen s name fd content =
          ({ s with
              os := Function.update s.os fd (some content)
              info := Function.update s.info i
                { s.info i with fd := fd, fileName := name.take (maxFileName - 1) } }, some i)) ∨
      gcodeFileOpen s name fd content = (s, none) := by
  unfold gcodeFileOpen
  dsimp only
  have hclose : closeFd { s with os := Function.update s.os fd (some content) } fd = s := by
    unfold closeFd
    simp [← hfree]
  generalize hf : findSlot s.info name none (List.finRange maxFileOpen) = f
  obtain ⟨free, find⟩ := f
  cases free with
  | none => exact Or.inr (by rw [hclose])
  | some i =>
    cases find with
    | false => exact Or.inl ⟨i, rfl, rfl⟩
    | true => exact Or.inr (by rw [hclose])

theorem Inv.fresh {w : World} (h : Inv w) {name : List UInt8} {d : Fin maxFileOpen}
    (hd : findSlot w.files.info name none (List.finRange maxFileOpen) = (some d, false)) : w.session d = none := by
  by_contra hne
  obtain ⟨hnamed, hfd⟩ := h.named d hne
  obtain hfree | hfree | hfree := findSlot_free hd
  · cases hfree
  · exact hnamed hfree
  · exact absurd hfree.2 (not_lt.mpr hfd)

theorem Inv.opened {w : World} (h : Inv w) {name : List UInt8} {fd : ℤ} {content : List UInt8} (hname : name ≠ [])
    (hfd : 0 ≤ fd) (hfree : w.files.os fd = none) (hok : CallOk w (.open name fd content)) :
    Inv (w.opened content (gcodeFileOpen w.files name fd content)) := by
  obtain ⟨i, hslot, hopen⟩ | hopen := @gcodeFileOpen_cases w.files name fd content hfree
  · have hnew := h.fresh hslot
    obtain ⟨hheld, hclear⟩ := hok
    rw [hopen]
    refine ⟨fun d hd => ?_, fun d hd => ?_, fun d e hde hd he => ?_, fun d ss hd0 hd => ?_, fun ss hs => ?_⟩
    · obtain rfl | hdi := eq_or_ne d i
      · simp [World.opened] at hd
      · simp only [World.opened, Function.update_of_ne hdi] at hd ⊢
        exact h.unused d hd
    · obtain rfl | hdi := eq_or_ne d i
      · simp [World.opened, hfd, hname, maxFileName]
      · simp only [World.opened, Function.update_of_ne hdi] at hd ⊢
        exact h.named d hd
    · obtain rfl | hdi := eq_or_ne d i
      · simp only [World.opened, Function.update_of_ne hde.symm, Function.update_self] at he ⊢
        exact (hheld e he).symm
      · obtain rfl | hei := eq_or_ne e i
        · simp only [World.opened, Function.update_of_ne hdi, Function.update_self] at hd ⊢
          exact hheld d hd
        · simp only [World.opened, Function.update_of_ne hdi, Function.update_of_ne hei] at hd he ⊢
          exact h.distinct d e hde hd he
    · obtain rfl | hdi := eq_or_ne d i
      · simp only [World.opened, Function.update_self, Option.some.injEq] at hd
        rw [← hd]
        exact ⟨rfl, rfl⟩
      · simp only [World.opened, Function.update_of_ne hdi] at hd
        exact h.idle d ss hd0 hd
    · obtain hi | hi := eq_or_ne 0 i
      · -- the new session is that of slot 0, which starts at position 0 with the flag clear
        rw [← hi] at hnew hs ⊢
        simp only [World.opened, Function.update_self, Option.some.injEq] at hs
        rw [← hs]
        refine ⟨rfl, (hclear hnew).symm, fun _ => ?_, fun hlive => absurd hlive.symm Bool.false_ne_true⟩
        simp [World.opened, soloAfter, mealy, (h.unused 0 hnew).2]
      · simp only [World.opened, Function.update_of_ne hi] at hs ⊢
        obtain ⟨houts, hflag, hlive, hended⟩ := h.first ss hs
        have hne : (w.files.info 0).fd ≠ fd := hheld 0 (by rw [hs]; simp)
        refine ⟨houts, hflag, fun hl => ?_, fun hl => ?_⟩
        · simp only [Function.update_of_ne hi, Function.update_of_ne hne]
          exact hlive hl
        · simp only [Function.update_of_ne hi, Function.update_of_ne hne]
          exact hended hl
  · rw [hopen]
    exact h

/-- A call on descriptor 0 changes nothing about the slots but its own position. -/
theorem afterRead_info (s : Files) (r : ReadResult) (d : Fin maxFileOpen) :
    ((afterRead s r).info d).fileName = (s.info d).fileName ∧ ((afterRead s r).info d).fd = (s.info d).fd ∧
      (d ≠ 0 → (afterRead s r).info d = s.info d) := by
  have hinfo : (afterRead s r).info = (addParsed s r.parsed).info := by
    unfold afterRead
    split_ifs <;> rfl
  rw [hinfo]
  unfold addParsed
  obtain rfl | hd := eq_or_ne d 0
  · simp
  · simp [Function.update_of_ne hd]

/-- A call on slot 0 goes as the call on its file alone. -/
theorem Follows.getCmd {s : Files} {ss : Session} (h : Follows s ss) {buf : List UInt8} {r : Files × Parser × ℤ}
    (hr : GcodeFileGetCmd readByteCountOnce s 0 buf r) :
    Follows r.1 ⟨ss.content, ss.calls ++ [buf], ss.outs ++ [(r.2.2, r.2.1.buf)]⟩ ∧
      ∀ d, (r.1.info d).fileName = (s.info d).fileName ∧ (r.1.info d).fd = (s.info d).fd ∧
        (d ≠ 0 → r.1.info d = s.info d) := by
  obtain ⟨houts, hflag, hlive, hended⟩ := h
  generalize hf : soloAfter ss.content ss.calls = f at hflag hlive hended
  by_cases hl : f.live = true
  · obtain ⟨hos, hrest⟩ := hlive hl
    rw [gcodeFileGetCmd_iff hos, ← hflag, ← hrest] at hr
    dsimp only at hr
    generalize hc : streamRead readByteCountOnce ⟨f.flag, buf, false⟩ 0 f.rest = c at hr
    have hsolo : soloStep f buf =
        (⟨f.rest.drop c.parsed, c.parser.flag, decide (c.ret ≠ 0)⟩, ((c.ret : ℤ), c.parser.buf)) := by
      unfold soloStep
      rw [if_pos hl, hc]
    rw [hr]
    refine ⟨⟨?_, ?_, fun hlive' => ?_, fun hend' => ?_⟩, afterRead_info s c⟩
    · show ss.outs ++ _ = readAlone ss.content (ss.calls ++ [buf])
      rw [readAlone_concat, hf, hsolo, houts]
    · show (soloAfter ss.content (ss.calls ++ [buf])).flag = c.parser.flag
      rw [soloAfter_concat, hf, hsolo]
    · dsimp only at hlive' ⊢
      rw [soloAfter_concat, hf, hsolo] at hlive' ⊢
      have hret : c.ret ≠ 0 := of_decide_eq_true hlive'
      unfold afterRead
      rw [if_neg hret]
      dsimp only
      rw [addParsed_fd, addParsed_parseByteCount, addParsed_os, hrest, List.drop_drop]
      exact ⟨hos, rfl⟩
    · dsimp only at hend' ⊢
      rw [soloAfter_concat, hf, hsolo] at hend'
      have hret : c.ret = 0 := by simpa using hend'
      unfold afterRead
      rw [if_pos hret]
      simp [closeFd]
  · have hend : f.live = false := by simpa using hl
    rw [gcodeFileGetCmd_closed (hended hend)] at hr
    have hsolo : soloStep f buf = (f, (-1, buf)) := by
      unfold soloStep
      rw [if_neg hl]
    rw [hr]
    refine ⟨⟨?_, ?_, fun hlive' => ?_, fun _ => ?_⟩, fun d => ⟨rfl, rfl, fun _ => rfl⟩⟩
    · show ss.outs ++ _ = readAlone ss.content (ss.calls ++ [buf])
      rw [readAlone_concat, hf, hsolo, houts]
    · show (soloAfter ss.content (ss.calls ++ [buf])).flag = s.flag
      rw [soloAfter_concat, hf, hsolo, hflag]
    · dsimp only at hlive'
      rw [soloAfter_concat, hf, hsolo] at hlive'
      exact absurd hlive' hl
    · simp [closeFd]

/-- A call on descriptor 0 keeps the invariant. -/
theorem Inv.getCmd {w : World} (h : Inv w) {buf : List UInt8} {ss : Session} {r : Files × Parser × ℤ}
    (hss : w.session 0 = some ss) (hr : GcodeFileGetCmd readByteCountOnce w.files 0 buf r) :
    Inv ⟨r.1, Function.update w.session 0
      (some ⟨ss.content, ss.calls ++ [buf], ss.outs ++ [(r.2.2, r.2.1.buf)]⟩)⟩ := by
  obtain ⟨hfollows, hinfo⟩ := (h.first ss hss).getCmd hr
  have hused : ∀ d, Function.update w.session 0
      (some ⟨ss.content, ss.calls ++ [buf], ss.outs ++ [(r.2.2, r.2.1.buf)]⟩) d ≠ none → w.session d ≠ none := by
    intro d hd
    obtain rfl | hd0 := eq_or_ne d 0
    · rw [hss]
      simp
    · rwa [Function.update_of_ne hd0] at hd
  refine ⟨fun d hd => ?_, fun d hd => ?_, fun d e hde hd he => ?_, fun d ss' hd0 hd => ?_, fun ss' hs => ?_⟩
  · obtain rfl | hd0 := eq_or_ne d 0
    · simp at hd
    · dsimp only at hd ⊢
      rw [Function.update_of_ne hd0] at hd
      rw [(hinfo d).2.2 hd0]
      exact h.unused d hd
  · dsimp only at hd ⊢
    rw [(hinfo d).1, (hinfo d).2.1]
    exact h.named d (hused d hd)
  · dsimp only at hd he ⊢
    rw [(hinfo d).2.1, (hinfo e).2.1]
    exact h.distinct d e hde (hused d hd) (hused e he)
  · dsimp only at hd
    rw [Function.update_of_ne hd0] at hd
    exact h.idle d ss' hd0 hd
  · dsimp only at hs
    rw [Function.update_self] at hs
    rw [← Option.some.inj hs]
    exact hfollows

theorem Inv.close {w : World} (h : Inv w) {d : Fin maxFileOpen} (hss : w.session d ≠ none) :
    Inv ⟨gcodeFileClose w.files d, Function.update w.session d none⟩ := by
  have hused : ∀ e, Function.update w.session d none e ≠ none → e ≠ d ∧ w.session e ≠ none := by
    intro e he
    obtain rfl | hed := eq_or_ne e d
    · simp at he
    · rw [Function.update_of_ne hed] at he
      exact ⟨hed, he⟩
  have hinfo : ∀ e, e ≠ d → (gcodeFileClose w.files d).info e = w.files.info e := fun e hed =>
    Function.update_of_ne hed _ _
  refine ⟨fun e he => ?_, fun e he => ?_, fun e e' hne he he' => ?_, fun e ss' he0 he => ?_, fun ss' hs => ?_⟩
  · dsimp only at he ⊢
    obtain rfl | hed := eq_or_ne e d
    · simp [gcodeFileClose]
    · rw [Function.update_of_ne hed] at he
      rw [hinfo e hed]
      exact h.unused e he
  · dsimp only at he ⊢
    obtain ⟨hed, he⟩ := hused e he
    rw [hinfo e hed]
    exact h.named e he
  · dsimp only at he he' ⊢
    obtain ⟨hed, he⟩ := hused e he
    obtain ⟨hed', he'⟩ := hused e' he'
    rw [hinfo e hed, hinfo e' hed']
    exact h.distinct e e' hne he he'
  · dsimp only at he
    obtain ⟨hed, -⟩ := hused e (by rw [he]; simp)
    rw [Function.update_of_ne hed] at he
    exact h.idle e ss' he0 he
  · dsimp only at hs ⊢
    obtain ⟨h0d, h0⟩ := hused 0 (by rw [hs]; simp)
    rw [Function.update_of_ne h0d] at hs
    obtain ⟨houts, hflag, hlive, hended⟩ := h.first ss' hs
    -- another slot's number is closed, not that of slot 0
    have hos : (gcodeFileClose w.files d).os (w.files.info 0).fd = w.files.os (w.files.info 0).fd :=
      Function.update_of_ne (h.distinct 0 d h0d h0 hss) _ _
    refine ⟨houts, hflag, fun hl => ?_, fun hl => ?_⟩
    · rw [hinfo 0 h0d, hos]
      exact hlive hl
    · rw [hinfo 0 h0d, hos]
      exact hended hl

/-- **Step lemma**: a call that meets its condition keeps the invariant. -/
theorem inv_step {w w' : World} {e : Event} (h : Inv w) (hs : Guarded Step CallOk w e w') : Inv w' := by
  obtain ⟨hstep, hok⟩ := hs
  cases hstep with
  | «open» hname hfd hfree => exact h.opened hname hfd hfree hok
  | getCmd hss hr =>
    obtain rfl : _ = (0 : Fin maxFileOpen) := hok
    exact h.getCmd hss hr
  | close hss => exact h.close hss

/-- The invariant gives what the claim about the sessions says. -/
theorem Inv.independent {w : World} (h : Inv w) : Independent w where
  outs := by
    intro d ss hd
    obtain rfl | hd0 := eq_or_ne d 0
    · exact (h.first ss hd).outs
    · obtain ⟨hcalls, houts⟩ := h.idle d ss hd0 hd
      rw [houts, hcalls]
      rfl
  unused := h.unused
  fresh := by
    intro name fd content d hd
    exact h.fresh (gcodeFileOpen_slot.mp hd)
  usable := by
    intro name fd content hname hex
    obtain ⟨d, hd⟩ := hex
    obtain ⟨i, hi⟩ := @findSlot_some w.files.info name none (List.finRange maxFileOpen)
      (fun i _ => hname i) (Or.inr ⟨d, List.mem_finRange d, (h.unused d hd).1⟩)
    rw [gcodeFileOpen_slot.mpr hi]
    simp

/-- **The sessions are independent** in every run whose calls meet the condition. -/
theorem sessions_independent {w : World} {es : List Event} (h : Run (Guarded Step CallOk) initWorld es w) :
    Independent w :=
  (h.invariant inv_init fun _ _ _ => inv_step).independent

theorem gcodeFileGetCmd_of_isSome {once : ℕ} {s : Files} {d : Fin maxFileOpen} {buf : List UInt8}
    (h : (sdGcodeParseLoop once d 1 s ⟨s.flag, buf, false⟩ 0).isSome) :
    GcodeFileGetCmd once s d buf
      ({ ((sdGcodeParseLoop once d 1 s ⟨s.flag, buf, false⟩ 0).get h).1 with
          flag := ((sdGcodeParseLoop once d 1 s ⟨s.flag, buf, false⟩ 0).get h).2.1.flag },
        ((sdGcodeParseLoop once d 1 s ⟨s.flag, buf, false⟩ 0).get h).2) :=
  ⟨1, _, (Option.some_get h).symm, rfl⟩

/-- A buffer of the print thread, of `QUEUE_MSG_SIZE` bytes. -/
def zeros : List UInt8 := List.replicate 50 0

/-- The contents of two files. -/
def fileA : List UInt8 := text "G28\r\n"

/-- The second has two commands. -/
def fileB : List UInt8 := text "M105\r\nM106\r\n"

/-- Both files are opened, and two commands read from the second. -/
def secondFile : List Event :=
  [.open (text "/a") 3 fileA, .open (text "/b") 4 fileB, .getCmd 1 zeros, .getCmd 1 zeros]

/-- The strings that calls have left in the buffer. -/
def strings (outs : List (ℤ × List UInt8)) : List (List UInt8) := outs.map fun o => str o.2

theorem readAlone_fileB : strings (readAlone fileB [zeros, zeros]) = [text "M105", text "M106"] := by
  have h1 : streamRead readByteCountOnce ⟨true, zeros, false⟩ 0 fileB =
      ⟨⟨true, text "M105" ++ 0 :: ascii '\n' :: List.replicate 44 0, false⟩, 6, 5⟩ := by
    rw [streamRead_done (by decide) (by decide)]
    decide
  have h2 : streamRead readByteCountOnce ⟨true, zeros, false⟩ 0 (fileB.drop 6) =
      ⟨⟨true, text "M106" ++ 0 :: ascii '\n' :: List.replicate 44 0, false⟩, 6, 5⟩ := by
    rw [streamRead_done (by decide) (by decide)]
    decide
  have hsolo : readAlone fileB [zeros, zeros] =
      [((5 : ℤ), text "M105" ++ 0 :: ascii '\n' :: List.replicate 44 0),
        ((5 : ℤ), text "M106" ++ 0 :: ascii '\n' :: List.replicate 44 0)] := by
    simp [readAlone, mealy, soloStep, h1, h2]
  rw [hsolo]
  decide

/-- The first file is open. -/
def openA : World := initWorld.opened fileA (gcodeFileOpen initWorld.files (text "/a") 3 fileA)

/-- Both are. -/
def openAB : World := openA.opened fileB (gcodeFileOpen openA.files (text "/b") 4 fileB)

theorem step_openA : Step initWorld (.open (text "/a") 3 fileA) openA := .open (by decide) (by decide) rfl

theorem step_openAB : Step openA (.open (text "/b") 4 fileB) openAB := .open (by decide) (by decide) rfl

/-- **The second file** gives its first command again and again, since the first slot is advanced in its place. -/
theorem secondFile_stuck : ∃ w ss, Run Step initWorld secondFile w ∧ w.session 1 = some ss ∧
    strings ss.outs = [text "M105", text "M105"] ∧ (w.files.info 0).parseByteCount = 12 ∧ ¬ Independent w := by
  refine ⟨_, _, (((Run.nil _).snoc step_openA).snoc step_openAB).snoc (.getCmd rfl (gcodeFileGetCmd_of_isSome rfl))
    |>.snoc (.getCmd rfl (gcodeFileGetCmd_of_isSome rfl)), rfl, ?_, ?_, fun h => ?_⟩
  · decide
  · decide
  · have houts : _ = strings (readAlone fileB [zeros, zeros]) := congrArg strings (h.outs 1 _ rfl)
    rw [readAlone_fileB] at houts
    exact absurd houts (by decide)

/-- A run whose calls meet the condition: both files are opened, and the first is read and closed. -/
theorem sessions_independent_firstFile : ∃ w, Run (Guarded Step CallOk) initWorld
    [.open (text "/a") 3 fileA, .open (text "/b") 4 fileB, .getCmd 0 zeros, .close 0] w ∧ Independent w := by
  have hA : CallOk initWorld (.open (text "/a") 3 fileA) := ⟨fun _ hd => absurd rfl hd, fun _ => rfl⟩
  have hB : CallOk openA (.open (text "/b") 4 fileB) := ⟨by decide, fun h => by cases h⟩
  have hget : ∀ w buf, CallOk w (.getCmd 0 buf) := fun _ _ => rfl
  have hclose : ∀ w d, CallOk w (.close d) := fun _ _ => trivial
  have hrun : Run (Guarded Step CallOk) initWorld [.open (text "/a") 3 fileA, .open (text "/b") 4 fileB] openAB :=
    ((Run.nil initWorld).snoc ⟨step_openA, hA⟩).snoc ⟨step_openAB, hB⟩
  have hread : ∃ w, Run (Guarded Step CallOk) initWorld
      [.open (text "/a") 3 fileA, .open (text "/b") 4 fileB, .getCmd 0 zeros, .close 0] w :=
    ⟨_, (hrun.snoc ⟨.getCmd rfl (gcodeFileGetCmd_of_isSome rfl), hget _ zeros⟩).snoc ⟨.close (by decide), hclose _ 0⟩⟩
  obtain ⟨w, hw⟩ := hread
  exact ⟨w, hw, sessions_independent hw⟩

end Runs

end Cxsw.SdFile
