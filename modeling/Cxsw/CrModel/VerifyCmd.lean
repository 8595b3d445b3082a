import Mathlib.Data.List.Range
import Cxsw.Lib.CString
import Cxsw.Lib.Run

/-!
# Cxsw.CrModel.VerifyCmd — line numbers and checksums (`CrModel/GcodeSource.cpp`)

The thread that polls the port calls `VerifyCmd` and, when that returns the line, `GetVerifiedGcodeCmd`, and passes
what the second one extracts on to the interpreter (`CrPrinter.cpp`).  Both share `GcodeUart::LastCmdNumber`, which
`GcodeM110Exec` sets too, from the thread that executes commands.

* `verifyCmd`, `getVerifiedGcodeCmd`, `serialStep`: the code.
* `verifyCmd_accept`, `verifyCmd_reject`: when a numbered line is accepted.
* `acceptedNumbers_consecutive`: the numbers accepted while nothing resets the counter.
* `numberedPayload`, `LineOk`, `LineNumberProtocol`: the payload of a line, and what the protocol asks for.
* `serial_protocol_iff`: the protocol holds of a run exactly when every line that moves the counter has its first
  space right behind its number.
* `serial_drops_payload`: a line without one moves the counter and is never delivered.
-/

namespace Cxsw.Gcode

open CString

/-! ## The code -/

section Defs

/-- The text in `UartCmdArr[50]`. -/
abbrev CmdArr : Type := { line : List UInt8 // line.length < 50 ∧ ∀ b ∈ line, b ≠ 0 }

/-- Skip leading spaces. -/
def skipSpaces (verifiedCmd : List UInt8) : List UInt8 := verifiedCmd.dropWhile (· = ascii ' ')

/-- The line starts with an `N` parameter. -/
def Numbered (line : List UInt8) : Prop := (skipSpaces line).head? = some (ascii 'N')

instance (line : List UInt8) : Decidable (Numbered line) := inferInstanceAs (Decidable (_ = _))

/-- `strstr(command, "M110") != NULL`. -/
def isM110 (line : List UInt8) : Bool := strstr (skipSpaces line) (text "M110")

/-- The position of the `N` whose number counts: the second one of an `M110` line, when it has one. -/
def npos (line : List UInt8) : ℕ :=
  if isM110 line then
    match strchr ((skipSpaces line).drop 4) (ascii 'N') with
    | some n2pos => n2pos + 4
    | none => 0
  else 0

/-- The number of a numbered line. -/
def gcodeNum (line : List UInt8) : ℤ := atoi ((skipSpaces line).drop (npos line + 1))

/-- `while (count) checksum ^= command[--count];` -/
def checksumLoop (command : List UInt8) : ℕ → UInt8 → UInt8
  | 0, checksum => checksum
  | count + 1, checksum => checksumLoop command count (checksum ^^^ command.getD count 0)

/-- `VerifyCmd`: whether the line is returned, and `LastCmdNumber` after the call. -/
def verifyCmd (lastCmdNumber : ℤ) (verifiedCmd : List UInt8) : Bool × ℤ :=
  let command := skipSpaces verifiedCmd
  if Numbered verifiedCmd then
    if gcodeNum verifiedCmd ≠ lastCmdNumber + 1 ∧ ¬ isM110 verifiedCmd then (false, lastCmdNumber)
    else
      match strrchr command (ascii '*') with
      | some apos =>
        -- `count` is a `uint8_t`
        if strtol (command.drop (apos + 1)) ≠ ((checksumLoop command (apos % 256) 0).toNat : ℤ) then
          (false, lastCmdNumber)
        else (true, gcodeNum verifiedCmd)
      | none => (false, lastCmdNumber)
  else (true, lastCmdNumber)

/-- `GetVerifiedGcodeCmd`: what `CmdBuff` receives when it returns true. -/
def getVerifiedGcodeCmd (verifiedCmd : List UInt8) : Option (List UInt8) :=
  let command := skipSpaces verifiedCmd
  if Numbered verifiedCmd then
    match strrchr command (ascii '*') with
    | none => none
    | some apos =>
      match strchr (command.take apos) (ascii ' ') with
      | none => none
      | some space => some ((command.take apos).drop (space + 1))
  else some verifiedCmd

/-- What happens to the shared counter. -/
inductive SerialEvent
  /-- The polling thread handles a received line. -/
  | line (cmd : CmdArr)
  /-- `GcodeM110Exec` runs with an `N` argument. -/
  | m110Exec (n : ℤ)

/-- What the polling thread did with a line. -/
structure Handled where
  verified : Bool
  putGcodeCmd : Option (List UInt8)

/-- One event on `LastCmdNumber`. -/
def serialStep (lastCmdNumber : ℤ) : SerialEvent → ℤ × Handled
  | .line cmd =>
    let verified := verifyCmd lastCmdNumber cmd.1
    (verified.2, ⟨verified.1, if verified.1 then getVerifiedGcodeCmd cmd.1 else none⟩)
  | .m110Exec n => (n, ⟨false, none⟩)

/-- `LastCmdNumber` after a run from its initial value. -/
def lastAfter (es : List SerialEvent) : ℤ := (mealy serialStep 0 es).1

end Defs

/-! ## The protocol -/

section Spec

/-- XOR of all bytes. -/
def xorAll (bytes : List UInt8) : UInt8 := bytes.foldl (· ^^^ ·) 0

/-- The line carries the XOR of the bytes before its last `*`. -/
def ChecksumOk (line : List UInt8) : Prop :=
  ∃ apos, strrchr (skipSpaces line) (ascii '*') = some apos ∧
    strtol ((skipSpaces line).drop (apos + 1)) = ((xorAll ((skipSpaces line).take apos)).toNat : ℤ)

/-- A numbered line between its `N` and its last `*`. -/
def numberedText (line : List UInt8) : List UInt8 :=
  match strrchr (skipSpaces line) (ascii '*') with
  | some apos => ((skipSpaces line).take apos).tail
  | none => (skipSpaces line).tail

/-- The payload of a numbered line: what stands behind its number, up to the last `*`. -/
def numberedPayload (line : List UInt8) : List UInt8 := (numberedText line).drop (numberLength (numberedText line))

/-- What the protocol asks of one received line: a numbered line is accepted iff its checksum and its number are
right, a rejected line leaves the counter alone, an accepted one moves it to its own number, and the counter moves
only with a line whose payload is delivered, up to leading spaces. -/
structure LineOk (lastCmdNumber : ℤ) (cmd : CmdArr) : Prop where
  accepted : Numbered cmd.1 → ((serialStep lastCmdNumber (.line cmd)).2.verified = true ↔
    ChecksumOk cmd.1 ∧ (gcodeNum cmd.1 = lastCmdNumber + 1 ∨ isM110 cmd.1 = true))
  rejected : (serialStep lastCmdNumber (.line cmd)).2.verified = false →
    (serialStep lastCmdNumber (.line cmd)).1 = lastCmdNumber
  numbered : Numbered cmd.1 → (serialStep lastCmdNumber (.line cmd)).2.verified = true →
    (serialStep lastCmdNumber (.line cmd)).1 = gcodeNum cmd.1
  delivered : (serialStep lastCmdNumber (.line cmd)).1 ≠ lastCmdNumber →
    (serialStep lastCmdNumber (.line cmd)).2.putGcodeCmd.map skipSpaces = some (skipSpaces (numberedPayload cmd.1))

/-- The event may set the counter to any number. -/
def Resets : SerialEvent → Prop
  | .line cmd => Numbered cmd.1 ∧ isM110 cmd.1 = true
  | .m110Exec _ => True

/-- The numbers of the numbered lines accepted in a run, in order. -/
def acceptedNumbers : ℤ → List SerialEvent → List ℤ
  | _, [] => []
  | last, e :: es =>
    (match e with
      | .line cmd => if Numbered cmd.1 ∧ (serialStep last e).2.verified = true then [gcodeNum cmd.1] else []
      | .m110Exec _ => []) ++ acceptedNumbers (serialStep last e).1 es

/-- The protocol over a run: every line is handled as it asks, and between two resets the accepted numbers are
consecutive. -/
structure LineNumberProtocol (es : List SerialEvent) : Prop where
  line : ∀ pre cmd post, es = pre ++ .line cmd :: post → LineOk (lastAfter pre) cmd
  consecutive : ∀ pre mid post, es = pre ++ mid ++ post → (∀ e ∈ mid, ¬ Resets e) →
    acceptedNumbers (lastAfter pre) mid =
      (List.range (acceptedNumbers (lastAfter pre) mid).length).map
        (fun (i : ℕ) => lastAfter pre + 1 + (i : ℤ))

/-- The first space of the line stands right behind its number. -/
def SpaceBehindNumber (line : List UInt8) : Prop :=
  strchr (numberedText line) (ascii ' ') = some (numberLength (numberedText line))

instance (line : List UInt8) : Decidable (SpaceBehindNumber line) := inferInstanceAs (Decidable (_ = _))

/-- The line is one the protocol accepts, and its number is not the last accepted one. -/
def Moves (lastCmdNumber : ℤ) (line : List UInt8) : Prop :=
  Numbered line ∧ ChecksumOk line ∧ gcodeNum line ≠ lastCmdNumber ∧
    (gcodeNum line = lastCmdNumber + 1 ∨ isM110 line = true)

end Spec

/-! ## One line -/

section Line

theorem xorAll_concat (bytes : List UInt8) (b : UInt8) : xorAll (bytes ++ [b]) = xorAll bytes ^^^ b := by
  simp [xorAll]

theorem checksumLoop_eq (command : List UInt8) (n : ℕ) (hn : n ≤ command.length) (c : UInt8) :
    checksumLoop command n c = c ^^^ xorAll (command.take n) := by
  induction n generalizing c with
  | zero => simp [checksumLoop, xorAll]
  | succ n ih =>
    have hget : command.take (n + 1) = command.take n ++ [command.getD n 0] := by
      rw [List.take_add_one, List.getD_eq_getElem?_getD, List.getElem?_eq_getElem (by omega)]
      rfl
    rw [checksumLoop, ih (by omega), hget, xorAll_concat, UInt8.xor_assoc, UInt8.xor_comm (command.getD n 0)]

theorem skipSpaces_length (line : List UInt8) : (skipSpaces line).length ≤ line.length :=
  (List.dropWhile_suffix _).length_le

theorem verifyCmd_due {last : ℤ} {cmd : CmdArr} (hn : Numbered cmd.1)
    (hnum : gcodeNum cmd.1 = last + 1 ∨ isM110 cmd.1 = true) :
    (ChecksumOk cmd.1 ∧ verifyCmd last cmd.1 = (true, gcodeNum cmd.1)) ∨
      (¬ ChecksumOk cmd.1 ∧ verifyCmd last cmd.1 = (false, last)) := by
  unfold verifyCmd
  simp only [if_pos hn]
  rw [if_neg (by rcases hnum with h | h <;> simp [h])]
  cases hr : strrchr (skipSpaces cmd.1) (ascii '*') with
  | none =>
    refine Or.inr ⟨?_, rfl⟩
    rintro ⟨apos, h, -⟩
    rw [hr] at h
    cases h
  | some apos =>
    have hlt := strrchr_lt hr
    have hlen := skipSpaces_length cmd.1
    have h50 := cmd.2.1
    have hsum : checksumLoop (skipSpaces cmd.1) (apos % 256) 0 = xorAll ((skipSpaces cmd.1).take apos) := by
      rw [Nat.mod_eq_of_lt (by omega), checksumLoop_eq _ _ (by omega), UInt8.zero_xor]
    simp only [hsum]
    split_ifs with hne
    · refine Or.inr ⟨?_, rfl⟩
      rintro ⟨a, h, he⟩
      rw [hr] at h
      cases h
      exact hne he
    · exact Or.inl ⟨⟨apos, hr, not_not.mp hne⟩, rfl⟩

/-- **Acceptance.**  A numbered line with the right checksum and number passes and moves the counter. -/
theorem verifyCmd_accept {last : ℤ} {cmd : CmdArr} (hn : Numbered cmd.1)
    (h : ChecksumOk cmd.1 ∧ (gcodeNum cmd.1 = last + 1 ∨ isM110 cmd.1 = true)) :
    verifyCmd last cmd.1 = (true, gcodeNum cmd.1) := by
  rcases verifyCmd_due hn h.2 with ⟨-, hv⟩ | ⟨hno, -⟩
  · exact hv
  · exact absurd h.1 hno

/-- Every other numbered line is rejected and leaves the counter alone. -/
theorem verifyCmd_reject {last : ℤ} {cmd : CmdArr} (hn : Numbered cmd.1)
    (h : ¬ (ChecksumOk cmd.1 ∧ (gcodeNum cmd.1 = last + 1 ∨ isM110 cmd.1 = true))) :
    verifyCmd last cmd.1 = (false, last) := by
  by_cases hnum : gcodeNum cmd.1 = last + 1 ∨ isM110 cmd.1 = true
  · rcases verifyCmd_due hn hnum with ⟨hc, -⟩ | ⟨-, hv⟩
    · exact absurd ⟨hc, hnum⟩ h
    · exact hv
  · rw [not_or] at hnum
    simp only [verifyCmd, if_pos hn, if_pos (show gcodeNum cmd.1 ≠ last + 1 ∧ ¬ isM110 cmd.1 = true from hnum)]

theorem verifyCmd_unnumbered (last : ℤ) (line : List UInt8) (hn : ¬ Numbered line) :
    verifyCmd last line = (true, last) := by
  simp only [verifyCmd, if_neg hn]

theorem skipSpaces_length_of_ne {s : List UInt8} {i : ℕ} {c : UInt8} (hc : s[i]? = some c) (hne : c ≠ ascii ' ') :
    s.length ≤ (skipSpaces s).length + i := by
  unfold skipSpaces
  induction s generalizing i with
  | nil => simp at hc
  | cons d s ih =>
    by_cases hd : d = ascii ' '
    · rw [List.dropWhile_cons_of_pos (by simpa using hd)]
      cases i with
      | zero =>
        rw [List.getElem?_cons_zero, Option.some.injEq] at hc
        exact absurd (hc.symm.trans hd) hne
      | succ i =>
        have := ih (by simpa using hc)
        rw [List.length_cons]
        omega
    · rw [List.dropWhile_cons_of_neg (by simpa using hd)]
      omega

theorem skipSpaces_drop_iff {s : List UInt8} {k : ℕ} (h : strchr s (ascii ' ') = some k) :
    skipSpaces (s.drop (k + 1)) = skipSpaces (s.drop (numberLength s)) ↔ k = numberLength s := by
  obtain ⟨hk, hbefore⟩ := strchr_eq_some h
  obtain ⟨hlt, hget⟩ := List.getElem?_eq_some_iff.mp hk
  have hspace : skipSpaces (s.drop k) = skipSpaces (s.drop (k + 1)) := by
    rw [List.drop_eq_getElem_cons hlt, hget]
    exact List.dropWhile_cons_of_pos (by simp)
  refine ⟨fun he => ?_, fun he => by rw [← he, hspace]⟩
  have hlen := congrArg List.length he
  rcases lt_trichotomy k (numberLength s) with hin | heq | hbehind
  · -- the last digit stands behind the space
    obtain ⟨n, hn⟩ : ∃ n, numberLength s = n + 1 := ⟨numberLength s - 1, by omega⟩
    obtain ⟨c, hc, hdigit⟩ := isdigit_of_numberLength hn
    have hne : c ≠ ascii ' ' := by
      rintro rfl
      exact absurd hdigit (by decide)
    have hkn : k ≠ n := by
      rintro rfl
      exact hne (Option.some.inj (hc.symm.trans hk))
    have hlong := skipSpaces_length_of_ne (s := s.drop (k + 1)) (i := n - (k + 1))
      (by rw [List.getElem?_drop, show k + 1 + (n - (k + 1)) = n by omega]; exact hc) hne
    have hshort := skipSpaces_length (s.drop (numberLength s))
    have hn' := (List.getElem?_eq_some_iff.mp hc).1
    rw [List.length_drop] at hlong hshort
    omega
  · exact heq
  · -- the byte behind the number is no space
    have hat : s[numberLength s]? = some (s.get ⟨numberLength s, by omega⟩) := by simp
    have hlong := skipSpaces_length_of_ne (s := s.drop (numberLength s)) (i := 0) (by simp)
      (fun hc => hbefore _ hbehind (hat.trans (congrArg some hc)))
    have hshort := skipSpaces_length (s.drop (k + 1))
    rw [List.length_drop] at hlong hshort
    omega

/-- **The payload** of a numbered line with a checksum is extracted iff the first space is right behind the number. -/
theorem getVerifiedGcodeCmd_payload {line : List UInt8} (hn : Numbered line) (hc : ChecksumOk line) :
    (getVerifiedGcodeCmd line).map skipSpaces = some (skipSpaces (numberedPayload line)) ↔ SpaceBehindNumber line := by
  obtain ⟨apos, hr, -⟩ := hc
  obtain ⟨rest, hline⟩ : ∃ rest, skipSpaces line = ascii 'N' :: rest := by
    unfold Numbered at hn
    cases hl : skipSpaces line with
    | nil => simp [hl] at hn
    | cons c rest =>
      rw [hl, List.head?_cons, Option.some.injEq] at hn
      exact ⟨rest, by rw [hn]⟩
  obtain ⟨n, rfl⟩ : ∃ n, apos = n + 1 := by
    -- the `*` is not the `N`
    refine Nat.exists_eq_succ_of_ne_zero ?_
    rintro rfl
    have hstar := getElem?_of_strrchr hr
    rw [hline, List.getElem?_cons_zero] at hstar
    exact absurd hstar (by decide)
  have htext : numberedText line = ((skipSpaces line).take (n + 1)).tail := by simp only [numberedText, hr]
  have hbody : (skipSpaces line).take (n + 1) = ascii 'N' :: numberedText line := by
    rw [htext, hline, List.take_succ_cons, List.tail_cons]
  have hchr : strchr ((skipSpaces line).take (n + 1)) (ascii ' ') =
      (strchr (numberedText line) (ascii ' ')).map (· + 1) := by
    rw [hbody]
    simp [strchr, List.findIdx?_cons, ascii]
  unfold SpaceBehindNumber numberedPayload
  simp only [getVerifiedGcodeCmd, if_pos hn, hr, hchr]
  cases hk : strchr (numberedText line) (ascii ' ') with
  | none => simp
  | some k =>
    have := skipSpaces_drop_iff hk
    simpa [hbody] using this

/-- **One line**: it is handled as the protocol asks iff, where it moves the counter, a space is right behind its
number. -/
theorem lineOk_iff (last : ℤ) (cmd : CmdArr) :
    LineOk last cmd ↔ (Moves last cmd.1 → SpaceBehindNumber cmd.1) := by
  by_cases hn : Numbered cmd.1
  · by_cases hacc : ChecksumOk cmd.1 ∧ (gcodeNum cmd.1 = last + 1 ∨ isM110 cmd.1 = true)
    · have hv := verifyCmd_accept hn hacc
      have hs : serialStep last (.line cmd) = (gcodeNum cmd.1, ⟨true, getVerifiedGcodeCmd cmd.1⟩) := by
        simp [serialStep, hv]
      have hpay := getVerifiedGcodeCmd_payload hn hacc.1
      constructor
      · intro h hm
        have hd := h.delivered
        rw [hs] at hd
        exact hpay.mp (hd hm.2.2.1)
      · intro h
        refine ⟨fun _ => by simp [hs, hacc], fun hf => by simp [hs] at hf, fun _ _ => by rw [hs], ?_⟩
        intro hne
        rw [hs] at hne ⊢
        exact hpay.mpr (h ⟨hn, hacc.1, hne, hacc.2⟩)
    · have hv := verifyCmd_reject hn hacc
      have hs : serialStep last (.line cmd) = (last, ⟨false, none⟩) := by simp [serialStep, hv]
      refine ⟨fun _ hm => absurd ⟨hm.2.1, hm.2.2.2⟩ hacc, fun _ => ?_⟩
      exact ⟨fun _ => by simp [hs, hacc], fun _ => by rw [hs], fun _ ht => by simp [hs] at ht,
        fun hne => absurd (by rw [hs]) hne⟩
  · have hs : serialStep last (.line cmd) = (last, ⟨true, getVerifiedGcodeCmd cmd.1⟩) := by
      simp [serialStep, verifyCmd_unnumbered last cmd.1 hn]
    refine ⟨fun _ hm => absurd hm.1 hn, fun _ => ?_⟩
    exact ⟨fun h => absurd h hn, fun _ => by rw [hs], fun h => absurd h hn, fun hne => absurd (by rw [hs]) hne⟩

end Line

/-! ## Runs -/

section Runs

/-- **Consecutive numbers**: while nothing resets the counter, the accepted numbers count up from it. -/
theorem acceptedNumbers_consecutive (mid : List SerialEvent) :
    ∀ last : ℤ, (∀ e ∈ mid, ¬ Resets e) →
      acceptedNumbers last mid =
        (List.range (acceptedNumbers last mid).length).map (fun (i : ℕ) => last + 1 + (i : ℤ)) := by
  induction mid with
  | nil => simp [acceptedNumbers]
  | cons e es ih =>
    intro last h
    have hes : ∀ e ∈ es, ¬ Resets e := fun e he => h e (List.mem_cons_of_mem _ he)
    have he := h e List.mem_cons_self
    cases e with
    | m110Exec n => exact absurd trivial he
    | line cmd =>
      by_cases hn : Numbered cmd.1
      · have hm : isM110 cmd.1 = false := by
          by_contra hm
          exact he ⟨hn, by simpa using hm⟩
        by_cases hacc : ChecksumOk cmd.1 ∧ (gcodeNum cmd.1 = last + 1 ∨ isM110 cmd.1 = true)
        · -- the line is accepted: it has the next number
          have hv := verifyCmd_accept hn hacc
          have hnum : gcodeNum cmd.1 = last + 1 := by simpa [hm] using hacc.2
          have hcons : acceptedNumbers last (.line cmd :: es) = (last + 1) :: acceptedNumbers (last + 1) es := by
            simp [acceptedNumbers, serialStep, hv, hn, hnum]
          rw [hcons, List.length_cons, List.range_succ_eq_map, List.map_cons, List.map_map]
          conv_lhs => rw [ih (last + 1) hes]
          congr 1
          · simp
          · refine List.map_congr_left fun i _ => ?_
            simp only [Function.comp_apply]
            omega
        · have hv := verifyCmd_reject hn hacc
          have hskip : acceptedNumbers last (.line cmd :: es) = acceptedNumbers last es := by
            simp [acceptedNumbers, serialStep, hv]
          rw [hskip]
          exact ih last hes
      · have hskip : acceptedNumbers last (.line cmd :: es) = acceptedNumbers last es := by
          simp [acceptedNumbers, serialStep, verifyCmd_unnumbered last cmd.1 hn, hn]
        rw [hskip]
        exact ih last hes

/-- **The line-number protocol** holds of a run exactly when every line that moves the counter has its first space right
behind its number. -/
theorem serial_protocol_iff (es : List SerialEvent) :
    LineNumberProtocol es ↔
      ∀ pre cmd post, es = pre ++ .line cmd :: post → Moves (lastAfter pre) cmd.1 → SpaceBehindNumber cmd.1 := by
  constructor
  · intro h pre cmd post he
    exact (lineOk_iff _ _).mp (h.line pre cmd post he)
  · intro h
    exact ⟨fun pre cmd post he => (lineOk_iff _ _).mpr (h pre cmd post he),
      fun pre mid _ _ hm => acceptedNumbers_consecutive mid (lastAfter pre) hm⟩

/-- The line `N1G28*50`: right number, right checksum, no space. -/
def n1g28 : CmdArr := ⟨text "N1G28*50", by decide +kernel⟩

/-- `N1G28*50` moves the counter from `0` to `1` and nothing is delivered. -/
theorem serial_drops_payload :
    lastAfter [.line n1g28] = 1 ∧ (serialStep 0 (.line n1g28)).2.putGcodeCmd = none ∧
      ¬ LineNumberProtocol [.line n1g28] := by
  have hs : serialStep 0 (.line n1g28) = (1, ⟨true, none⟩) := by
    have hv : verifyCmd 0 n1g28.1 = (true, 1) := by decide
    have hg : getVerifiedGcodeCmd n1g28.1 = none := by decide
    simp [serialStep, hv, hg]
  refine ⟨?_, by rw [hs], fun h => ?_⟩
  · simp [lastAfter, mealy, hs]
  · have hd := (h.line [] n1g28 [] rfl).delivered
    have h0 : lastAfter [] = 0 := rfl
    rw [h0, hs] at hd
    simpa using hd (by decide)

-- a space further on is no better: `N1G28 X0*122` delivers `X0`
example : getVerifiedGcodeCmd (text "N1G28 X0*122") = some (text "X0") ∧ ¬ SpaceBehindNumber (text "N1G28 X0*122") := by
  decide

end Runs

end Cxsw.Gcode
