import Cxsw.Lib.Buffer
import Cxsw.CrModel.GcodeSource
import Cxsw.CrModel.VerifyCmd

/-!
# Cxsw.CrModel.SerialBuffers — the buffers of the serial port (`CrModel/GcodeSource.cpp`, `CrModel/CrPrinter.cpp`)

`GetCmd` collects bytes in `SerialDate[64]`, keeps what it cannot complete in `Buff[64]` and copies a complete line to
the 50 bytes of its caller, whose size it is given and does not look at.  The print thread then checks the line and
copies what is to be executed to 50 bytes more.  Here every write has its place; one past the end of a buffer has no
result.

* `getCmdMem_eq`, `pollMem_eq`: with room for everything the functions do what `getCmd`, `verifyCmd` and
  `getVerifiedGcodeCmd` say.
* `serial_buffers_iff`: when a run stays inside the buffers.
-/

namespace Cxsw.Gcode

open CString Buffer Lines

/-! ## The functions on memory -/

section Defs

/-- `sizeof(UartCmdArr)`, and of `UartCmd`. -/
def uartCmdLen : ℕ := 50

/-- The end of `GetCmd`, where the port is empty: `Count` bytes of `SerialDate` go behind the string in `Buff`. -/
def stashMem (buff serialDate : List UInt8) (count : ℕ) : Option (List UInt8) :=
  if count = 0 then some buff
  else do
    let kept ← load buff
    let buff ← store buff kept.length (serialDate.take count)
    let kept ← load buff
    store buff (kept.length + 1) [0]

/-- The line terminator in `GetCmd`: the string in `Buff` and `Count` bytes of `SerialDate` go to the caller's buffer.
`Len` is an `S8`. -/
def completeMem (buff cmdBuff serialDate : List UInt8) (count : ℕ) :
    Option (ℕ × List UInt8 × List UInt8) := do
  let kept ← load buff
  let len := kept.length % 256
  if len ≠ 0 then
    let cmdBuff ← store cmdBuff 0 (buff.take len)
    let cmdBuff ← store cmdBuff len (serialDate.take count)
    return (count + len, cmdBuff, zeros maxStringLength)
  else
    let cmdBuff ← store cmdBuff len (serialDate.take count)
    return (count + len, cmdBuff, buff)

/-- The loop of `GetCmd`: the value returned, the caller's buffer and the object. -/
def getCmdMemLoop (buff cmdBuff : List UInt8) :
    List UInt8 → ℕ → List UInt8 → Option (ℕ × List UInt8 × GcodeUart)
  | serialDate, count, [] => (stashMem buff serialDate count).map fun buff => (0, cmdBuff, ⟨[], buff⟩)
  | serialDate, count, char :: rx =>
    if isEnd char then
      (completeMem buff cmdBuff serialDate count).map fun r => (r.1, r.2.1, ⟨rx, r.2.2⟩)
    else
      match store serialDate count [char] with
      | none => none
      | some serialDate => getCmdMemLoop buff cmdBuff serialDate (count + 1) rx

/-- `GetCmd`.  `SerialDate` starts with a `'0'` and zeros. -/
def getCmdMem (u : GcodeUart) (cmdBuff : List UInt8) : Option (ℕ × List UInt8 × GcodeUart) :=
  getCmdMemLoop u.buff cmdBuff (ascii '0' :: zeros (maxStringLength - 1)) 0 u.rx

/-- `GetVerifiedGcodeCmd`: the value returned and `CmdBuff`.  The `*` in the line is overwritten. -/
def getVerifiedMem (verifiedCmd cmdBuff : List UInt8) : Option (Bool × List UInt8) := do
  let line ← load verifiedCmd
  let spaces := line.length - (skipSpaces line).length
  if Numbered line then
    match strrchr (skipSpaces line) (ascii '*') with
    | none => return (false, cmdBuff)
    | some apos =>
      let verifiedCmd ← store verifiedCmd (spaces + apos) [0]
      let command ← load (verifiedCmd.drop spaces)
      match strchr command (ascii ' ') with
      | none => return (false, cmdBuff)
      | some apos => return (true, ← strcpy cmdBuff (command.drop (apos + 1)))
  else return (true, ← strcpy cmdBuff line)

/-- The port and `LastCmdNumber`. -/
structure SerialState where
  uart : GcodeUart
  lastCmdNumber : ℤ
  deriving DecidableEq

/-- What the print thread does with a line: `LastCmdNumber` afterwards, and the text it puts into the queue of
commands. -/
def handleMem (lastCmdNumber : ℤ) (uartCmdArr : List UInt8) : Option (ℤ × Option (List UInt8)) := do
  let line ← load uartCmdArr
  let verified := verifyCmd lastCmdNumber line
  if verified.1 then
    let (ok, uartCmd) ← getVerifiedMem uartCmdArr (zeros uartCmdLen)
    if ok then return (verified.2, some (← load uartCmd)) else return (verified.2, none)
  else return (verified.2, none)

/-- One pass of the print thread over the port. -/
def pollMem (s : SerialState) : Option (SerialState × Option (List UInt8)) := do
  let (n, uartCmdArr, uart) ← getCmdMem s.uart (zeros uartCmdLen)
  if n = 0 then return (⟨uart, s.lastCmdNumber⟩, none)
  else
    let (lastCmdNumber, cmd) ← handleMem s.lastCmdNumber uartCmdArr
    return (⟨uart, lastCmdNumber⟩, cmd)

/-- What happens at the port; `GcodeM110Exec` sets the counter. -/
inductive PortEvent
  | arrive (bytes : List UInt8)
  | poll
  | m110Exec (n : ℤ)
  deriving DecidableEq

/-- One event. -/
def portStep (s : SerialState) : PortEvent → Option SerialState
  | .arrive bytes => some { s with uart := (uartStep s.uart (.arrive bytes)).1 }
  | .poll => (pollMem s).map Prod.fst
  | .m110Exec n => some { s with lastCmdNumber := n }

/-- The state after the constructor. -/
def initSerial : SerialState := ⟨initUart, 0⟩

end Defs

/-! ## What has to fit -/

section Fits

/-- The bytes that a call takes for its line. -/
def taken (rx : List UInt8) : List UInt8 := rx.takeWhile (!isEnd ·)

/-- A line that a call completes has less than 50 bytes, or 50 with a zero among them. -/
def LineFits (buff s : List UInt8) : Prop :=
  strlen buff + s.length < uartCmdLen ∨ strlen buff + s.length = uartCmdLen ∧ 0 ∈ s

/-- A part of a line that a call keeps fits behind the string in `Buff`, and the string there is then shorter than the
buffer by two. -/
def PartFits (buff s : List UInt8) : Prop :=
  s = [] ∨ strlen buff + s.length ≤ maxStringLength ∧ strlen (Ring.splice buff (strlen buff) s) + 1 < maxStringLength

/-- A call of `GetCmd` in this state fits. -/
def PollFits (u : GcodeUart) : Prop :=
  if u.rx.any isEnd then LineFits u.buff (taken u.rx) else PartFits u.buff u.rx

instance (buff s : List UInt8) : Decidable (LineFits buff s) := inferInstanceAs (Decidable (_ ∨ _))

instance (buff s : List UInt8) : Decidable (PartFits buff s) := inferInstanceAs (Decidable (_ ∨ _))

instance (u : GcodeUart) : Decidable (PollFits u) := inferInstanceAs (Decidable (ite _ _ _))

end Fits

/-! ## One call of `GetCmd` -/

section Call

variable {buff cmdBuff serialDate s : List UInt8}

theorem stashMem_eq (hbuff : buff.length = maxStringLength) (hzero : 0 ∈ buff)
    (hs : serialDate.take s.length = s) :
    stashMem buff serialDate s.length = if PartFits buff s then some (stash buff s) else none := by
  by_cases hnil : s = []
  · simp [stashMem, PartFits, stash, hnil]
  have hlen : s.length ≠ 0 := fun h => hnil (List.eq_nil_of_length_eq_zero h)
  have hparts : PartFits buff s ↔ strlen buff + s.length ≤ buff.length ∧
      strlen (Ring.splice buff (strlen buff) s) + 1 < buff.length := by
    rw [PartFits, or_iff_right hnil, hbuff]
  simp only [stashMem, stash, if_neg hlen, if_neg hnil, load_of_mem hzero, Option.bind_eq_bind, Option.bind_some,
    length_str, hs, hparts]
  by_cases hfit : strlen buff + s.length ≤ buff.length
  · have hspliced := Ring.splice_length hfit
    rw [store_of_le hfit, Option.bind_some]
    by_cases hend : strlen (Ring.splice buff (strlen buff) s) + 1 < buff.length
    · have hmem := strlen_lt_iff.mp (by rw [hspliced]; omega)
      rw [if_pos ⟨hfit, hend⟩, load_of_mem hmem, Option.bind_some, length_str,
        store_of_le (by rw [hspliced]; exact hend), splice_singleton (by rw [hspliced]; exact hend)]
    · rw [if_neg fun h => hend h.2]
      by_cases hmem : 0 ∈ Ring.splice buff (strlen buff) s
      · rw [load_of_mem hmem, Option.bind_some, length_str, store, if_neg]
        rw [hspliced, List.length_singleton]
        exact hend
      · rw [load, if_neg hmem, Option.bind_none]
  · rw [if_neg fun h => hfit h.1, store, if_neg hfit, Option.bind_none]

theorem completeMem_eq (hbuff : buff.length = maxStringLength) (hzero : 0 ∈ buff)
    (hs : serialDate.take s.length = s) :
    completeMem buff cmdBuff serialDate s.length =
      if strlen buff + s.length ≤ cmdBuff.length then
        some ((str buff ++ s).length, Ring.splice cmdBuff 0 (str buff ++ s),
          if strlen buff ≠ 0 then zeros maxStringLength else buff)
      else none := by
  have hsmall : strlen buff % 256 = strlen buff := by
    have := strlen_lt_iff.mpr hzero
    rw [hbuff] at this
    exact Nat.mod_eq_of_lt (this.trans (by decide))
  simp only [completeMem, load_of_mem hzero, Option.bind_eq_bind, Option.bind_some, length_str, hsmall, hs,
    take_strlen]
  by_cases hkept : strlen buff = 0
  · have hstr : str buff = [] := List.eq_nil_of_length_eq_zero hkept
    simp only [hkept, hstr, ne_eq, not_true_eq_false, if_false, Nat.zero_add, Nat.add_zero, List.nil_append, store]
    split_ifs <;> rfl
  · simp only [ne_eq, hkept, not_false_eq_true, if_true]
    by_cases hfit : strlen buff + s.length ≤ cmdBuff.length
    · have hfirst : 0 + (str buff).length ≤ cmdBuff.length := by
        rw [length_str]
        omega
      have hroom : strlen buff + s.length ≤ (Ring.splice cmdBuff 0 (str buff)).length := by
        rw [Ring.splice_length hfirst]
        exact hfit
      have hjoin := splice_splice (t := s) hfirst
      rw [length_str, Nat.zero_add] at hjoin
      rw [if_pos hfit, store_of_le hfirst, Option.bind_some, store_of_le hroom, Option.bind_some, hjoin,
        List.length_append, length_str, Nat.add_comm s.length]
      rfl
    · rw [if_neg hfit]
      by_cases hfirst : 0 + (str buff).length ≤ cmdBuff.length
      · rw [store_of_le hfirst, Option.bind_some, store, if_neg, Option.bind_none]
        rw [Ring.splice_length hfirst]
        exact hfit
      · rw [store, if_neg hfirst, Option.bind_none]

/-- What the loop needs, with `s` in `SerialDate` and `rx` at the port. -/
def LoopFits (buff cmdBuff s rx : List UInt8) : Prop :=
  if rx.any isEnd then strlen buff + (s ++ taken rx).length ≤ cmdBuff.length else PartFits buff (s ++ rx)

instance : Decidable (LoopFits buff cmdBuff s rx) := inferInstanceAs (Decidable (ite _ _ _))

theorem getCmdMemLoop_eq (hbuff : buff.length = maxStringLength) (hzero : 0 ∈ buff)
    (hcmd : cmdBuff.length ≤ maxStringLength) (rx : List UInt8) :
    ∀ (serialDate s : List UInt8), serialDate.length = maxStringLength → serialDate.take s.length = s →
      getCmdMemLoop buff cmdBuff serialDate s.length rx =
        if LoopFits buff cmdBuff s rx then
          some ((getCmdLoop buff s rx).1.length, Ring.splice cmdBuff 0 (getCmdLoop buff s rx).1,
            (getCmdLoop buff s rx).2)
        else none := by
  induction rx with
  | nil =>
    intro serialDate s _ hs
    rw [getCmdMemLoop, stashMem_eq hbuff hzero hs]
    simp only [LoopFits, List.any_nil, Bool.false_eq_true, if_false, List.append_nil, getCmdLoop, List.length_nil,
      Ring.splice_nil]
    split_ifs <;> rfl
  | cons char rx ih =>
    intro serialDate s hdate hs
    unfold getCmdMemLoop getCmdLoop
    by_cases hend : isEnd char = true
    · have htaken : taken (char :: rx) = [] := by simp [taken, hend]
      have hline : (if strlen buff ≠ 0 then
            (buff.take (strlen buff) ++ s, (⟨rx, List.replicate maxStringLength 0⟩ : GcodeUart))
          else (s, ⟨rx, buff⟩)) =
          (str buff ++ s, ⟨rx, if strlen buff ≠ 0 then zeros maxStringLength else buff⟩) := by
        split_ifs with hkept
        · rw [take_strlen]
          rfl
        · have hstr : str buff = [] := List.eq_nil_of_length_eq_zero (not_not.mp hkept)
          rw [hstr, List.nil_append]
      rw [if_pos hend, if_pos hend, hline, completeMem_eq hbuff hzero hs]
      simp only [LoopFits, List.any_cons, hend, Bool.true_or, if_true, htaken, List.append_nil]
      split_ifs <;> rfl
    · have htaken : s ++ taken (char :: rx) = s ++ [char] ++ taken rx := by simp [taken, hend]
      have hfits : LoopFits buff cmdBuff s (char :: rx) ↔ LoopFits buff cmdBuff (s ++ [char]) rx := by
        simp [LoopFits, htaken, hend]
      rw [if_neg hend, if_neg hend]
      by_cases hroom : s.length + [char].length ≤ serialDate.length
      · have hnext : (Ring.splice serialDate s.length [char]).take (s ++ [char]).length = s ++ [char] := by
          unfold Ring.splice
          rw [hs, List.take_left]
        have hlen : (s ++ [char]).length = s.length + 1 := List.length_append
        rw [store_of_le hroom, ← hlen]
        dsimp only
        rw [ih _ _ (by rw [Ring.splice_length hroom, hdate]) hnext]
        simp only [hfits]
      · rw [store, if_neg hroom, if_neg]
        rw [hdate, List.length_singleton] at hroom
        rw [hfits]
        unfold LoopFits PartFits
        simp only [List.length_append, List.length_singleton]
        split_ifs
        · omega
        · rintro (h | h)
          · simp at h
          · omega

/-- **One call** of `GetCmd` does what `getCmd` says exactly where there is room. -/
theorem getCmdMem_eq {u : GcodeUart} (hbuff : u.buff.length = maxStringLength) (hzero : 0 ∈ u.buff)
    (hcmd : cmdBuff.length ≤ maxStringLength) :
    getCmdMem u cmdBuff =
      if LoopFits u.buff cmdBuff [] u.rx then
        some ((getCmd u).1.length, Ring.splice cmdBuff 0 (getCmd u).1, (getCmd u).2)
      else none :=
  getCmdMemLoop_eq hbuff hzero hcmd u.rx _ [] rfl rfl

end Call

/-! ## One pass of the print thread -/

section Poll

theorem getVerifiedMem_eq {arr : List UInt8} {size : ℕ} (hzero : 0 ∈ arr) (hsize : arr.length ≤ size) :
    getVerifiedMem arr (zeros size) = some (match getVerifiedGcodeCmd (str arr) with
      | some payload => (true, Ring.splice (zeros size) 0 (payload ++ [0]))
      | none => (false, zeros size)) := by
  have hline : (str arr).length < arr.length := strlen_lt_iff.mpr hzero
  have hskip := skipSpaces_length (str arr)
  have hcopy {payload : List UInt8} (h : payload.length ≤ (str arr).length) :
      strcpy (zeros size) payload = some (Ring.splice (zeros size) 0 (payload ++ [0])) :=
    strcpy_eq_some_iff.mpr ⟨by rw [length_zeros]; omega, rfl⟩
  simp only [getVerifiedMem, getVerifiedGcodeCmd, load_of_mem hzero, Option.bind_eq_bind, Option.bind_some]
  split_ifs with hn
  · cases hstar : strrchr (skipSpaces (str arr)) (ascii '*') with
    | none => rfl
    | some apos =>
      have hapos := strrchr_lt hstar
      have hspaces : (str arr).drop ((str arr).length - (skipSpaces (str arr)).length) = skipSpaces (str arr) :=
        (List.suffix_iff_eq_drop.mp (List.dropWhile_suffix _)).symm
      have hroom : (str arr).length - (skipSpaces (str arr)).length + apos + [(0 : UInt8)].length ≤ arr.length := by
        rw [List.length_singleton]
        omega
      -- the string from the first letter on now ends where the `*` was
      have hcut : str (Ring.splice arr ((str arr).length - (skipSpaces (str arr)).length + apos) [0]) =
          (str arr).take ((str arr).length - (skipSpaces (str arr)).length + apos) := by
        refine str_splice_zero ?_
        rw [← length_str]
        omega
      have hlen : strlen (Ring.splice arr ((str arr).length - (skipSpaces (str arr)).length + apos) [0]) =
          (str arr).length - (skipSpaces (str arr)).length + apos := by
        rw [← length_str, hcut, List.length_take_of_le (by omega)]
      have hcommand : str ((Ring.splice arr ((str arr).length - (skipSpaces (str arr)).length + apos) [0]).drop
          ((str arr).length - (skipSpaces (str arr)).length)) = (skipSpaces (str arr)).take apos := by
        rw [str_drop (by rw [hlen]; omega), hcut, ← List.take_drop, hspaces]
      have hmem : 0 ∈ (Ring.splice arr ((str arr).length - (skipSpaces (str arr)).length + apos) [0]).drop
          ((str arr).length - (skipSpaces (str arr)).length) := by
        refine strlen_lt_iff.mp ?_
        rw [← length_str, hcommand, List.length_take_of_le hapos.le, List.length_drop, Ring.splice_length hroom]
        omega
      dsimp only
      rw [store_of_le hroom, Option.bind_some, load_of_mem hmem, Option.bind_some, hcommand]
      cases hblank : strchr ((skipSpaces (str arr)).take apos) (ascii ' ') with
      | none => rfl
      | some space =>
        dsimp only
        rw [hcopy, Option.bind_some]
        · rfl
        · rw [List.length_drop, List.length_take]
          omega
  · rw [hcopy le_rfl]
    rfl

theorem mem_of_getVerified {line payload : List UInt8} (h : getVerifiedGcodeCmd line = some payload) {b : UInt8}
    (hb : b ∈ payload) : b ∈ line := by
  unfold getVerifiedGcodeCmd at h
  dsimp only at h
  split_ifs at h with hn
  · cases hstar : strrchr (skipSpaces line) (ascii '*') with
    | none => simp [hstar] at h
    | some apos =>
      cases hblank : strchr ((skipSpaces line).take apos) (ascii ' ') with
      | none => simp [hstar, hblank] at h
      | some space =>
        simp only [hstar, hblank, Option.some.injEq] at h
        rw [← h] at hb
        exact (List.dropWhile_suffix _).subset (List.mem_of_mem_take (List.mem_of_mem_drop hb))
  · obtain rfl := Option.some.inj h
    exact hb

/-- What happens to a line, as a text. -/
def handleText (lastCmdNumber : ℤ) (line : List UInt8) : ℤ × Option (List UInt8) :=
  let verified := verifyCmd lastCmdNumber line
  (verified.2, if verified.1 then getVerifiedGcodeCmd line else none)

/-- A line in a buffer is handled as a text exactly where it ends in the buffer. -/
theorem handleMem_eq (lastCmdNumber : ℤ) {arr : List UInt8} (hsize : arr.length ≤ uartCmdLen) :
    handleMem lastCmdNumber arr = if 0 ∈ arr then some (handleText lastCmdNumber (str arr)) else none := by
  unfold handleMem handleText
  split_ifs with hzero
  · rw [load_of_mem hzero, Option.bind_eq_bind, Option.bind_some]
    dsimp only
    cases hverified : (verifyCmd lastCmdNumber (str arr)).1 with
    | false => rfl
    | true =>
      rw [if_pos rfl, if_pos rfl, getVerifiedMem_eq hzero hsize]
      cases hpayload : getVerifiedGcodeCmd (str arr) with
      | none => rfl
      | some payload =>
        have hno : (0 : UInt8) ∉ payload := fun h => zero_not_mem_str arr (mem_of_getVerified hpayload h)
        have hmem : 0 ∈ Ring.splice (zeros uartCmdLen) 0 (payload ++ [0]) := by
          rw [splice_zeros]
          simp
        rw [Option.bind_eq_bind, Option.bind_some]
        dsimp only
        rw [if_pos rfl, load_of_mem hmem, str_splice_str hno]
        rfl
  · rw [load, if_neg hzero]
    rfl

/-- A pass on texts. -/
def pollText (s : SerialState) : SerialState × Option (List UInt8) :=
  let (line, uart) := getCmd s.uart
  if line = [] then (⟨uart, s.lastCmdNumber⟩, none)
  else
    let (lastCmdNumber, cmd) := handleText s.lastCmdNumber (str line)
    (⟨uart, lastCmdNumber⟩, cmd)

theorem getCmd_fst (u : GcodeUart) :
    (getCmd u).1 = if u.rx.any isEnd then str u.buff ++ taken u.rx else [] := by
  have hloop (rx : List UInt8) : ∀ s, (getCmdLoop u.buff s rx).1 =
      if rx.any isEnd then str u.buff ++ (s ++ taken rx) else [] := by
    induction rx with
    | nil => exact fun s => rfl
    | cons char rx ih =>
      intro s
      unfold getCmdLoop
      by_cases hend : isEnd char = true
      · rw [if_pos hend]
        simp only [List.any_cons, hend, Bool.true_or, if_true, taken, Bool.not_true, Bool.false_eq_true,
          not_false_eq_true, List.takeWhile_cons_of_neg, List.append_nil]
        split_ifs with hkept
        · rw [take_strlen]
        · have hstr : str u.buff = [] := List.eq_nil_of_length_eq_zero (not_not.mp hkept)
          rw [hstr, List.nil_append]
      · rw [if_neg hend, ih]
        simp [taken, hend]
  exact hloop u.rx []

theorem length_getCmd_le {u : GcodeUart} (h : LoopFits u.buff (zeros uartCmdLen) [] u.rx) :
    (getCmd u).1.length ≤ uartCmdLen := by
  rw [getCmd_fst]
  split_ifs with hend
  · rw [LoopFits, if_pos hend, length_zeros, List.nil_append] at h
    rw [List.length_append, length_str]
    exact h
  · exact Nat.zero_le _

/-- There is room for a pass exactly where there is for the call, and the line it completes ends in its buffer. -/
theorem pollFits_iff (u : GcodeUart) :
    PollFits u ↔ LoopFits u.buff (zeros uartCmdLen) [] u.rx ∧
      0 ∈ Ring.splice (zeros uartCmdLen) 0 (getCmd u).1 := by
  have hno := zero_not_mem_str u.buff
  rw [getCmd_fst, splice_zeros, List.mem_append]
  unfold PollFits LoopFits LineFits
  by_cases hend : u.rx.any isEnd = true
  · have hzeros : (0 : UInt8) ∈ zeros (uartCmdLen - (strlen u.buff + (taken u.rx).length)) ↔
        strlen u.buff + (taken u.rx).length < uartCmdLen := by
      simp only [zeros, List.mem_replicate, and_true]
      omega
    rw [if_pos hend, if_pos hend, if_pos hend, length_zeros, List.nil_append, List.mem_append, List.length_append,
      length_str, hzeros, or_iff_right hno]
    constructor
    · rintro (h | ⟨heq, h⟩)
      · exact ⟨h.le, Or.inr h⟩
      · exact ⟨heq.le, Or.inl h⟩
    · rintro ⟨hle, h | h⟩
      · exact hle.lt_or_eq.imp_right fun heq => ⟨heq, h⟩
      · exact Or.inl h
  · rw [if_neg hend, if_neg hend, if_neg hend, List.nil_append]
    refine (and_iff_left (Or.inr ?_)).symm
    decide

/-- **One pass** has room exactly where `PollFits`, and then does what `pollText` says. -/
theorem pollMem_eq {s : SerialState} (hbuff : s.uart.buff.length = maxStringLength) (hzero : 0 ∈ s.uart.buff) :
    pollMem s = if PollFits s.uart then some (pollText s) else none := by
  unfold pollMem pollText
  rw [getCmdMem_eq hbuff hzero (by decide)]
  by_cases hroom : LoopFits s.uart.buff (zeros uartCmdLen) [] s.uart.rx
  · have hsize : (Ring.splice (zeros uartCmdLen) 0 (getCmd s.uart).1).length ≤ uartCmdLen :=
      (Ring.splice_length (by rw [Nat.zero_add, length_zeros]; exact length_getCmd_le hroom)).le
    rw [if_pos hroom, Option.bind_eq_bind, Option.bind_some]
    dsimp only
    by_cases hnil : (getCmd s.uart).1 = []
    · have hfits : PollFits s.uart := (pollFits_iff _).mpr ⟨hroom, by rw [hnil]; decide⟩
      rw [if_pos hfits, if_pos hnil, if_pos (by rw [hnil]; rfl)]
      rfl
    · rw [if_neg hnil, if_neg fun h => hnil (List.eq_nil_of_length_eq_zero h), handleMem_eq _ hsize]
      simp only [pollFits_iff, hroom, true_and]
      split_ifs with hmem
      · rw [splice_zeros, str_padded]
        rfl
      · rfl
  · rw [if_neg hroom, if_neg fun h => hroom ((pollFits_iff _).mp h).1]
    rfl

end Poll

/-! ## Runs -/

section Runs

/-- The port alone. -/
def PortEvent.uart (u : GcodeUart) : PortEvent → GcodeUart
  | .arrive bytes => (uartStep u (.arrive bytes)).1
  | .poll => (uartStep u .poll).1
  | .m110Exec _ => u

/-- There is room for an event. -/
def EventFits (u : GcodeUart) (e : PortEvent) : Prop := e = .poll → PollFits u

/-- What `Buff` is between two calls. -/
def BuffOk (u : GcodeUart) : Prop := u.buff.length = maxStringLength ∧ 0 ∈ u.buff

theorem pollText_uart (s : SerialState) : (pollText s).1.uart = (getCmd s.uart).2 := by
  unfold pollText
  dsimp only
  split_ifs <;> rfl

theorem buffOk_getCmd {u : GcodeUart} (h : BuffOk u) (hfits : PollFits u) : BuffOk (getCmd u).2 := by
  obtain ⟨hbuff, hzero⟩ := h
  have hroom := ((pollFits_iff u).mp hfits).1
  have hloop (rx : List UInt8) : ∀ s, (rx.any isEnd = false → PartFits u.buff (s ++ rx)) →
      BuffOk (getCmdLoop u.buff s rx).2 := by
    induction rx with
    | nil =>
      intro s hpart
      have hs := hpart rfl
      rw [List.append_nil] at hs
      unfold getCmdLoop stash
      dsimp only
      split_ifs with hnil
      · exact ⟨hbuff, hzero⟩
      · obtain ⟨hfit, hend⟩ := hs.resolve_left hnil
        have hlen : (Ring.splice u.buff (strlen u.buff) s).length = maxStringLength := by
          rw [Ring.splice_length (by rw [hbuff]; exact hfit), hbuff]
        refine ⟨by rw [List.length_set, hlen], ?_⟩
        exact List.mem_set (by rw [hlen]; exact hend) 0
    | cons char rx ih =>
      intro s hpart
      unfold getCmdLoop
      split_ifs with hend hkept
      · exact ⟨rfl, List.mem_replicate.mpr ⟨by decide, rfl⟩⟩
      · exact ⟨hbuff, hzero⟩
      · refine ih (s ++ [char]) fun hany => ?_
        rw [List.append_assoc, List.singleton_append]
        exact hpart (by simpa [hend] using hany)
  refine hloop u.rx [] fun hany => ?_
  rw [LoopFits, if_neg (by rw [hany]; exact Bool.false_ne_true)] at hroom
  exact hroom

theorem isSome_foldlM_portStep (es : List PortEvent) : ∀ s : SerialState, BuffOk s.uart →
    ((es.foldlM portStep s).isSome ↔ AllSteps PortEvent.uart EventFits s.uart es) := by
  induction es with
  | nil => exact fun _ _ => iff_of_true rfl trivial
  | cons e es ih =>
    intro s hs
    rw [List.foldlM_cons]
    cases e with
    | arrive bytes =>
      have hfits : EventFits s.uart (.arrive bytes) := nofun
      have htail := ih { s with uart := (uartStep s.uart (.arrive bytes)).1 } hs
      exact htail.trans (and_iff_right hfits).symm
    | m110Exec n =>
      have hfits : EventFits s.uart (.m110Exec n) := nofun
      have htail := ih { s with lastCmdNumber := n } hs
      exact htail.trans (and_iff_right hfits).symm
    | poll =>
      have hstep : portStep s .poll = if PollFits s.uart then some (pollText s).1 else none := by
        rw [portStep, pollMem_eq hs.1 hs.2]
        split_ifs <;> rfl
      rw [hstep]
      by_cases hfits : PollFits s.uart
      · rw [if_pos hfits]
        have hnext : BuffOk (pollText s).1.uart := by
          rw [pollText_uart]
          exact buffOk_getCmd hs hfits
        have htail := ih (pollText s).1 hnext
        rw [pollText_uart] at htail
        exact htail.trans (and_iff_right fun _ => hfits).symm
      · rw [if_neg hfits]
        refine iff_of_false (by simp) fun h => hfits (h.1 rfl)

theorem buffOk_init : BuffOk initUart := ⟨rfl, by decide⟩

/-- **The buffers of the serial port** are kept in every pass of a run exactly if each pass finds them with enough
room. -/
theorem serial_buffers_iff (es : List PortEvent) :
    (es.foldlM portStep initSerial).isSome ↔ AllSteps PortEvent.uart EventFits initUart es :=
  isSome_foldlM_portStep es initSerial buffOk_init

/-- A line of 60 letters is stored in `UartCmdArr`, which has 50 bytes. -/
theorem not_serial_buffers :
    ¬ ∀ es : List PortEvent, (es.foldlM portStep initSerial).isSome := by
  intro h
  exact absurd (h [.arrive (List.replicate 60 (ascii 'G') ++ [ascii '\n']), .poll]) (by decide +kernel)

end Runs

end Cxsw.Gcode
