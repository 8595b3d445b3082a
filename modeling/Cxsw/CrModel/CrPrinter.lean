import Cxsw.Lib.CString

/-!
# Cxsw.CrModel.CrPrinter — commands from the print file (`CrModel/CrPrinter.cpp`)

The print thread calls `ReadCmdFromFile` until it returns 0, which it takes for the end of the print.  A call reads the
open file byte by byte; every byte but those of comments counts against the length of the caller's buffer, blank lines
too.

* `Token`: the file as characters, terminators and comments, which both its lines and the conditions are read from.
* `Delivered`: the commands are the lines in order, and a line shorter than the buffer is one command.
* `readCmd_delivers_iff`: the condition of one call.
* `print_delivers_iff`: the commands of a whole print are the lines of the file exactly when every call meets it.
* `lastLine_lost`: a file whose last line has no terminator.
-/

namespace Cxsw.Print

open CString

/-! ## The reader -/

section Defs

/-- `QUEUE_MSG_SIZE`, the length of the print thread's buffer. -/
def queueMsgSize : ℕ := 50

/-- A line terminator. -/
def isEnd (byte : UInt8) : Bool := byte = ascii '\n' ∨ byte = ascii '\r'

/-- The start of a comment. -/
def isNote (byte : UInt8) : Bool := byte = ascii ';' ∨ byte = ascii '#'

/-- The loops of `ReadCmdFromFile`: `comment` tells that the inner one runs, `maxLen` is the rest of the budget, with
the `MaxLen ++` after a comment already made, and `cmd` the `i` bytes of `Cmd` filled so far.  The first component is
what `Cmd` holds, and its length the value returned; the second is what is left of the file, which is closed when its
end is met. -/
def readLoop : Bool → ℕ → List UInt8 → List UInt8 → List UInt8 × List UInt8
  | false, 0, cmd, file => (cmd, file)
  | false, _ + 1, _, [] => ([], [])
  | false, maxLen + 1, cmd, byte :: file =>
    if isEnd byte then
      if cmd.length < 1 then readLoop false maxLen cmd file else (cmd, file)
    else if isNote byte then readLoop true (maxLen + 1) cmd file
    else readLoop false maxLen (cmd ++ [byte]) file
  -- the comment runs into the end of the file, which the outer loop then meets
  | true, _, _, [] => ([], [])
  | true, maxLen, cmd, byte :: file =>
    if byte = ascii '\n' then
      if cmd.length ≥ 2 then (cmd, file) else readLoop false maxLen cmd file
    else readLoop true maxLen cmd file

/-- `ReadCmdFromFile` on what is left of the open file. -/
def readCmdFromFile (maxLen : ℕ) (file : List UInt8) : List UInt8 × List UInt8 := readLoop false maxLen [] file

/-- The inner loop needs a positive budget, as it has: what is left is shorter by what `Cmd` gained. -/
theorem readLoop_length (comment : Bool) (maxLen : ℕ) (cmd file : List UInt8) :
    (readLoop comment maxLen cmd file).2.length + (readLoop comment maxLen cmd file).1.length ≤
      file.length + cmd.length := by
  induction file generalizing comment maxLen cmd with
  | nil =>
    cases comment with
    | true => simp [readLoop]
    | false => cases maxLen <;> simp [readLoop]
  | cons byte file ih =>
    cases comment with
    | true =>
      unfold readLoop
      split_ifs
      · simp
      · exact (ih false maxLen cmd).trans (by simp)
      · exact (ih true maxLen cmd).trans (by simp)
    | false =>
      cases maxLen with
      | zero => simp [readLoop, Nat.add_comm]
      | succ maxLen =>
        unfold readLoop
        split_ifs
        · exact (ih false maxLen cmd).trans (by simp)
        · simp
        · exact (ih true (maxLen + 1) cmd).trans (by simp)
        · refine (ih false maxLen (cmd ++ [byte])).trans ?_
          simp only [List.length_append, List.length_cons, List.length_nil]
          omega

theorem readCmdFromFile_lt {maxLen : ℕ} {file : List UInt8} (h : (readCmdFromFile maxLen file).1 ≠ []) :
    (readCmdFromFile maxLen file).2.length < file.length := by
  have hlen := readLoop_length false maxLen [] file
  have hpos := List.length_pos_of_ne_nil h
  unfold readCmdFromFile at *
  simp only [List.length_nil] at hlen
  omega

/-- The print: the commands up to the first return of 0, and what is left of the file then. -/
def print (maxLen : ℕ) (file : List UInt8) : List (List UInt8) × List UInt8 :=
  if h : (readCmdFromFile maxLen file).1 = [] then ([], (readCmdFromFile maxLen file).2)
  else
    have := readCmdFromFile_lt h
    let p := print maxLen (readCmdFromFile maxLen file).2
    ((readCmdFromFile maxLen file).1 :: p.1, p.2)
termination_by file.length

theorem print_of_nil {maxLen : ℕ} {file : List UInt8} (h : (readCmdFromFile maxLen file).1 = []) :
    print maxLen file = ([], (readCmdFromFile maxLen file).2) := by
  rw [print, dif_pos h]

theorem print_of_ne {maxLen : ℕ} {file : List UInt8} (h : (readCmdFromFile maxLen file).1 ≠ []) :
    print maxLen file =
      ((readCmdFromFile maxLen file).1 :: (print maxLen (readCmdFromFile maxLen file).2).1,
        (print maxLen (readCmdFromFile maxLen file).2).2) := by
  rw [print, dif_neg h]

/-- What is left of the file before each call of a print. -/
inductive Reached (maxLen : ℕ) (file : List UInt8) : List UInt8 → Prop
  | first : Reached maxLen file file
  | next {rest : List UInt8} : Reached maxLen file rest → (readCmdFromFile maxLen rest).1 ≠ [] →
      Reached maxLen file (readCmdFromFile maxLen rest).2

end Defs

/-! ## The lines of a file -/

section Lines

/-- The file without its comments; a comment ends before its newline. -/
def strip : Bool → List UInt8 → List UInt8
  | _, [] => []
  | false, byte :: file => if isNote byte then strip true file else byte :: strip false file
  | true, byte :: file => if byte = ascii '\n' then byte :: strip false file else strip true file

/-- **The non-empty lines of a file**, with their comments stripped. -/
def fileLines (file : List UInt8) : List (List UInt8) := ((strip false file).splitOnP isEnd).filter (· ≠ [])

/-- The commands `os` are the lines `ls` in order.  A line shorter than the buffer is one command; a longer one may be
delivered in pieces. -/
inductive Delivered (maxLen : ℕ) : List (List UInt8) → List (List UInt8) → Prop
  | nil : Delivered maxLen [] []
  | line {l : List UInt8} {ls os : List (List UInt8)} : l ≠ [] → Delivered maxLen ls os →
      Delivered maxLen (l :: ls) (l :: os)
  | piece {o l r : List UInt8} {ls os : List (List UInt8)} : l = o ++ r → o ≠ [] → r ≠ [] → maxLen ≤ l.length →
      Delivered maxLen (r :: ls) os → Delivered maxLen (l :: ls) (o :: os)

/-- Without long lines the commands are the lines. -/
theorem delivered_iff_eq {maxLen : ℕ} {ls os : List (List UInt8)} (h : ∀ l ∈ ls, l ≠ [] ∧ l.length < maxLen) :
    Delivered maxLen ls os ↔ os = ls := by
  constructor
  · intro hd
    induction hd with
    | nil => rfl
    | line _ _ ih => rw [ih fun l hl => h l (List.mem_cons_of_mem _ hl)]
    | piece _ _ _ hlen _ _ => exact absurd hlen (not_le.mpr (h _ List.mem_cons_self).2)
  · rintro rfl
    induction os with
    | nil => exact .nil
    | cons o os ih => exact .line (h o List.mem_cons_self).1 (ih fun l hl => h l (List.mem_cons_of_mem _ hl))

theorem delivered_nil_iff {maxLen : ℕ} {ls : List (List UInt8)} : Delivered maxLen ls [] ↔ ls = [] := by
  constructor
  · rintro ⟨⟩
    rfl
  · rintro rfl
    exact .nil

theorem delivered_cons_iff {maxLen : ℕ} {l o : List UInt8} {ls os : List (List UInt8)} (ho : o ≠ []) :
    Delivered maxLen (l :: ls) (o :: os) ↔
      (o = l ∧ Delivered maxLen ls os) ∨
        ∃ r, l = o ++ r ∧ r ≠ [] ∧ maxLen ≤ l.length ∧ Delivered maxLen (r :: ls) os := by
  constructor
  · intro h
    cases h with
    | line _ h => exact Or.inl ⟨rfl, h⟩
    | piece hl _ hr hlen h => exact Or.inr ⟨_, hl, hr, hlen, h⟩
  · rintro (⟨rfl, h⟩ | ⟨r, hl, hr, hlen, h⟩)
    · exact .line ho h
    · exact .piece hl ho hr hlen h

end Lines

/-! ## Tokens -/

section Tokens

/-- A file as the reader sees it: a character, a terminator, or a comment, which the end of the file may leave open. -/
inductive Token
  | char (byte : UInt8)
  | stop
  | note (closed : Bool)
  deriving DecidableEq

/-- The tokens of a file. -/
def scan : Bool → List UInt8 → List Token
  | false, [] => []
  | true, [] => [.note false]
  | false, byte :: file =>
    if isEnd byte then .stop :: scan false file
    else if isNote byte then scan true file
    else .char byte :: scan false file
  | true, byte :: file => if byte = ascii '\n' then .note true :: scan false file else scan true file

/-- The reader on tokens. -/
def readTok : ℕ → List UInt8 → List Token → List UInt8 × List Token
  | 0, cmd, ts => (cmd, ts)
  | _ + 1, _, [] => ([], [])
  | n + 1, cmd, .char byte :: ts => readTok n (cmd ++ [byte]) ts
  | n + 1, cmd, .stop :: ts => if cmd = [] then readTok n cmd ts else (cmd, ts)
  | n + 1, cmd, .note closed :: ts =>
    if closed = true ∧ 2 ≤ cmd.length then (cmd, ts) else readTok (n + 1) cmd ts

/-- The lines of the tokens, after the bytes `acc` of the first line. -/
def tokLines : List UInt8 → List Token → List (List UInt8)
  | acc, [] => if acc = [] then [] else [acc]
  | acc, .char byte :: ts => tokLines (acc ++ [byte]) ts
  | acc, _ :: ts => if acc = [] then tokLines [] ts else acc :: tokLines [] ts

theorem scan_false_eq_nil {file : List UInt8} : scan false file = [] ↔ file = [] := by
  have hne : ∀ file, scan true file ≠ [] := by
    intro file
    induction file with
    | nil => simp [scan]
    | cons byte file ih =>
      unfold scan
      split_ifs
      · simp
      · exact ih
  cases file with
  | nil => simp [scan]
  | cons byte file =>
    unfold scan
    split_ifs
    · simp
    · simpa using hne file
    · simp

theorem scan_true_cons (byte : UInt8) (file : List UInt8) :
    scan true (byte :: file) = if byte = ascii '\n' then .note true :: scan false file else scan true file := rfl

theorem scan_false_cons (byte : UInt8) (file : List UInt8) :
    scan false (byte :: file) =
      if isEnd byte then .stop :: scan false file
      else if isNote byte then scan true file
      else .char byte :: scan false file := rfl

theorem readLoop_true_cons (maxLen : ℕ) (cmd : List UInt8) (byte : UInt8) (file : List UInt8) :
    readLoop true maxLen cmd (byte :: file) =
      if byte = ascii '\n' then if cmd.length ≥ 2 then (cmd, file) else readLoop false maxLen cmd file
      else readLoop true maxLen cmd file := rfl

theorem readLoop_false_cons (maxLen : ℕ) (cmd : List UInt8) (byte : UInt8) (file : List UInt8) :
    readLoop false (maxLen + 1) cmd (byte :: file) =
      if isEnd byte then if cmd.length < 1 then readLoop false maxLen cmd file else (cmd, file)
      else if isNote byte then readLoop true (maxLen + 1) cmd file
      else readLoop false maxLen (cmd ++ [byte]) file := rfl

/-- **The reader reads tokens.** -/
theorem readLoop_scan (comment : Bool) (maxLen : ℕ) (cmd file : List UInt8) (h : comment = true → 0 < maxLen) :
    readTok maxLen cmd (scan comment file) =
      ((readLoop comment maxLen cmd file).1, scan false (readLoop comment maxLen cmd file).2) := by
  induction file generalizing comment maxLen cmd with
  | nil =>
    cases comment with
    | true =>
      obtain ⟨n, rfl⟩ := Nat.exists_eq_succ_of_ne_zero (h rfl).ne'
      simp [scan, readLoop, readTok]
    | false => cases maxLen <;> simp [scan, readLoop, readTok]
  | cons byte file ih =>
    cases comment with
    | true =>
      obtain ⟨n, rfl⟩ := Nat.exists_eq_succ_of_ne_zero (h rfl).ne'
      rw [scan_true_cons, readLoop_true_cons]
      by_cases hb : byte = ascii '\n'
      · rw [if_pos hb, if_pos hb]
        show (if true = true ∧ 2 ≤ cmd.length then (cmd, scan false file) else readTok (n + 1) cmd
          (scan false file)) = _
        by_cases hc : cmd.length ≥ 2
        · rw [if_pos ⟨rfl, hc⟩, if_pos hc]
        · rw [if_neg fun hh => hc hh.2, if_neg hc]
          exact ih false (n + 1) cmd (by simp)
      · rw [if_neg hb, if_neg hb]
        exact ih true (n + 1) cmd fun _ => n.succ_pos
    | false =>
      cases maxLen with
      | zero => simp [readTok, readLoop]
      | succ n =>
        rw [scan_false_cons, readLoop_false_cons]
        by_cases he : isEnd byte = true
        · rw [if_pos he, if_pos he]
          cases cmd with
          | nil => exact ih false n [] (by simp)
          | cons c cmd => simp [readTok]
        · rw [if_neg he, if_neg he]
          by_cases hn : isNote byte = true
          · rw [if_pos hn, if_pos hn]
            exact ih true (n + 1) cmd fun _ => n.succ_pos
          · rw [if_neg hn, if_neg hn]
            exact ih false n (cmd ++ [byte]) (by simp)

/-- The bytes `acc` are a part of one line. -/
def NoEnd (acc : List UInt8) : Prop := ∀ b ∈ acc, ¬ isEnd b = true

theorem NoEnd.splitOnP {acc : List UInt8} (h : NoEnd acc) : acc.splitOnP isEnd = [acc] :=
  List.splitOnP_eq_singleton (by simpa [NoEnd] using h)

theorem NoEnd.lines_open {acc : List UInt8} (h : NoEnd acc) :
    (acc.splitOnP isEnd).filter (· ≠ []) = if acc = [] then [] else [acc] := by
  rw [h.splitOnP]
  by_cases ha : acc = [] <;> simp [ha]

/-- A terminator ends the line, unless it is empty. -/
theorem NoEnd.lines_end {acc : List UInt8} (h : NoEnd acc) {byte : UInt8} (hb : isEnd byte = true) (s : List UInt8) :
    ((acc ++ byte :: s).splitOnP isEnd).filter (· ≠ []) =
      if acc = [] then (s.splitOnP isEnd).filter (· ≠ []) else acc :: (s.splitOnP isEnd).filter (· ≠ []) := by
  rw [List.splitOnP_append_cons acc s hb, h.splitOnP, List.filter_append]
  by_cases ha : acc = [] <;> simp [ha]

theorem not_isNote_of_isEnd {byte : UInt8} (h : isEnd byte = true) : ¬ isNote byte = true := by
  intro hn
  simp only [isEnd, isNote, decide_eq_true_eq] at h hn
  rcases h with rfl | rfl
  · exact absurd hn (by decide)
  · exact absurd hn (by decide)

/-- The lines of a file are those of its tokens. -/
theorem strip_scan (comment : Bool) (acc file : List UInt8) (h : NoEnd acc) :
    ((acc ++ strip comment file).splitOnP isEnd).filter (· ≠ []) = tokLines acc (scan comment file) := by
  induction file generalizing comment acc with
  | nil =>
    rw [strip, List.append_nil, h.lines_open]
    cases comment <;> rfl
  | cons byte file ih =>
    have hempty := ih false [] (by simp [NoEnd])
    cases comment with
    | true =>
      rw [scan_true_cons, strip]
      by_cases hb : byte = ascii '\n'
      · rw [if_pos hb, if_pos hb, h.lines_end (by simp [isEnd, hb]), ← List.nil_append (strip false file), hempty]
        rfl
      · rw [if_neg hb, if_neg hb]
        exact ih true acc h
    | false =>
      rw [scan_false_cons, strip]
      by_cases he : isEnd byte = true
      · rw [if_neg (not_isNote_of_isEnd he), if_pos he, h.lines_end he, ← List.nil_append (strip false file), hempty]
        rfl
      · rw [if_neg he]
        by_cases hn : isNote byte = true
        · rw [if_pos hn, if_pos hn]
          exact ih true acc h
        · rw [if_neg hn, if_neg hn]
          have hacc : NoEnd (acc ++ [byte]) := by
            intro b hb
            rcases List.mem_append.mp hb with hb | hb
            · exact h b hb
            · rwa [List.mem_singleton.mp hb]
          have hs := ih false (acc ++ [byte]) hacc
          rw [List.append_assoc] at hs
          exact hs

theorem fileLines_scan (file : List UInt8) : fileLines file = tokLines [] (scan false file) :=
  strip_scan false [] file (by simp [NoEnd])

end Tokens

/-! ## One call -/

section Call

variable {ts : List Token}

/-- The terminators before the next line. -/
def blanks : List Token → ℕ
  | .stop :: ts => blanks ts + 1
  | .note _ :: ts => blanks ts
  | _ => 0

/-- The tokens from the next line on. -/
def fromLine : List Token → List Token
  | .stop :: ts => fromLine ts
  | .note _ :: ts => fromLine ts
  | ts => ts

/-- The line that the tokens begin with. -/
def lineOf : List Token → List UInt8
  | .char byte :: ts => byte :: lineOf ts
  | _ => []

/-- The tokens behind it. -/
def afterLine : List Token → List Token
  | .char _ :: ts => afterLine ts
  | ts => ts

/-- What follows a line of `n` bytes ends it for the reader: a comment does so only behind two bytes. -/
def Ended (n : ℕ) : List Token → Prop
  | .stop :: _ => True
  | .note closed :: ts => (closed = true ∧ 2 ≤ n) ∨ Ended n ts
  | _ => False

/-- **The condition of a call** in a file with these tokens left.  Where a line is left, fewer blank lines than the
buffer has bytes precede it, and it ends within the buffer, all of these counted, unless it is too long for any buffer
of this size; and if it does not fill the buffer, it is ended.  Where none is left, the terminators do not use the
budget up before the end of the file. -/
def CallOk (maxLen : ℕ) (ts : List Token) : Prop :=
  let l := lineOf (fromLine ts)
  if l = [] then blanks ts < maxLen ∨ blanks ts = maxLen ∧ (ts = [] ∨ ts.getLast? = some .stop)
  else
    blanks ts < maxLen ∧ (blanks ts + l.length ≤ maxLen ∨ maxLen ≤ l.length) ∧
      (blanks ts + l.length < maxLen → Ended l.length (afterLine (fromLine ts)))

theorem readTok_zero (cmd : List UInt8) (ts : List Token) : readTok 0 cmd ts = (cmd, ts) := by simp [readTok]

/-- The blank lines within the budget are skipped. -/
theorem readTok_fromLine {n : ℕ} (h : blanks ts < n) :
    readTok n [] ts = readTok (n - blanks ts) [] (fromLine ts) := by
  induction ts generalizing n with
  | nil => rfl
  | cons t ts ih =>
    obtain ⟨m, rfl⟩ := Nat.exists_eq_succ_of_ne_zero (Nat.ne_zero_of_lt h)
    cases t with
    | char byte => rfl
    | stop =>
      have hm : blanks ts + 1 < m + 1 := h
      show readTok m [] ts = readTok (m + 1 - (blanks ts + 1)) [] (fromLine ts)
      rw [ih (by omega), Nat.add_sub_add_right]
    | note closed =>
      show (if closed = true ∧ 2 ≤ 0 then _ else readTok (m + 1) [] ts) = readTok (m + 1 - blanks ts) [] (fromLine ts)
      rw [if_neg (by simp)]
      exact ih h

/-- Too many of them end the call with nothing. -/
theorem readTok_blanks {n : ℕ} (h : n ≤ blanks ts) : (readTok n [] ts).1 = [] := by
  induction ts generalizing n with
  | nil => cases n <;> rfl
  | cons t ts ih =>
    cases n with
    | zero => rw [readTok_zero]
    | succ n =>
      cases t with
      | char byte => exact absurd h (Nat.not_succ_le_zero n)
      | stop => exact ih (Nat.le_of_succ_le_succ h)
      | note closed =>
        show (if closed = true ∧ 2 ≤ 0 then _ else readTok (n + 1) [] ts).1 = []
        rw [if_neg (by simp)]
        exact ih h

theorem readTok_line {n : ℕ} (cmd : List UInt8) (h : (lineOf ts).length ≤ n) :
    readTok n cmd ts = readTok (n - (lineOf ts).length) (cmd ++ lineOf ts) (afterLine ts) := by
  induction ts generalizing n cmd with
  | nil => simp [lineOf, afterLine]
  | cons t ts ih =>
    cases t with
    | char byte =>
      have hn : (lineOf ts).length + 1 ≤ n := h
      obtain ⟨m, rfl⟩ := Nat.exists_eq_succ_of_ne_zero (Nat.ne_zero_of_lt hn)
      show readTok m (cmd ++ [byte]) ts =
        readTok (m + 1 - ((lineOf ts).length + 1)) (cmd ++ byte :: lineOf ts) (afterLine ts)
      rw [ih (cmd ++ [byte]) (by omega), List.append_assoc, Nat.add_sub_add_right]
      rfl
    | stop => simp [lineOf, afterLine]
    | note closed => simp [lineOf, afterLine]

theorem readTok_cut {n : ℕ} (cmd : List UInt8) (h : n < (lineOf ts).length) :
    readTok n cmd ts = (cmd ++ (lineOf ts).take n, ts.drop n) := by
  induction ts generalizing n cmd with
  | nil => exact absurd h (Nat.not_lt_zero n)
  | cons t ts ih =>
    cases t with
    | char byte =>
      cases n with
      | zero => simp [readTok_zero]
      | succ n =>
        show readTok n (cmd ++ [byte]) ts = _
        rw [ih (cmd ++ [byte]) (Nat.lt_of_succ_lt_succ h)]
        simp [lineOf]
    | stop => exact absurd h (Nat.not_lt_zero n)
    | note closed => exact absurd h (Nat.not_lt_zero n)

/-- Without the end of the file, what was read is a part of what is returned. -/
theorem readTok_prefix (n : ℕ) (cmd : List UInt8) (ts : List Token) :
    (readTok n cmd ts).1 = [] ∨ cmd <+: (readTok n cmd ts).1 := by
  induction ts generalizing n cmd with
  | nil =>
    cases n with
    | zero => exact Or.inr (by simp [readTok_zero])
    | succ n => exact Or.inl rfl
  | cons t ts ih =>
    cases n with
    | zero => exact Or.inr (by simp [readTok_zero])
    | succ n =>
      cases t with
      | char byte =>
        obtain h | h := ih n (cmd ++ [byte])
        · exact Or.inl h
        · exact Or.inr ((List.prefix_append cmd [byte]).trans h)
      | stop =>
        show (if cmd = [] then readTok n cmd ts else (cmd, ts)).1 = [] ∨
          cmd <+: (if cmd = [] then readTok n cmd ts else (cmd, ts)).1
        split_ifs
        · exact ih n cmd
        · exact Or.inr (List.prefix_refl cmd)
      | note closed =>
        show (if closed = true ∧ 2 ≤ cmd.length then (cmd, ts) else readTok (n + 1) cmd ts).1 = [] ∨
          cmd <+: (if closed = true ∧ 2 ≤ cmd.length then (cmd, ts) else readTok (n + 1) cmd ts).1
        split_ifs
        · exact Or.inr (List.prefix_refl cmd)
        · exact ih (n + 1) cmd

/-- A line that is ended is returned, with all lines behind it left. -/
theorem readTok_ended {n : ℕ} {cmd : List UInt8} (hc : cmd ≠ []) (h : Ended cmd.length ts) :
    (readTok (n + 1) cmd ts).1 = cmd ∧ tokLines [] (readTok (n + 1) cmd ts).2 = tokLines [] ts := by
  induction ts with
  | nil => exact h.elim
  | cons t ts ih =>
    cases t with
    | char byte => exact h.elim
    | stop =>
      show (if cmd = [] then readTok n cmd ts else (cmd, ts)).1 = cmd ∧
        tokLines [] (if cmd = [] then readTok n cmd ts else (cmd, ts)).2 = tokLines [] ts
      rw [if_neg hc]
      exact ⟨rfl, rfl⟩
    | note closed =>
      show (if closed = true ∧ 2 ≤ cmd.length then (cmd, ts) else readTok (n + 1) cmd ts).1 = cmd ∧
        tokLines [] (if closed = true ∧ 2 ≤ cmd.length then (cmd, ts) else readTok (n + 1) cmd ts).2 = tokLines [] ts
      by_cases hclosed : closed = true ∧ 2 ≤ cmd.length
      · rw [if_pos hclosed]
        exact ⟨rfl, rfl⟩
      · rw [if_neg hclosed]
        exact ih (h.resolve_left hclosed)

/-- One that is not is lost, or the next line is put behind it. -/
theorem readTok_not_ended {n : ℕ} {cmd : List UInt8} (h : ¬ Ended cmd.length ts) :
    (readTok (n + 1) cmd ts).1 = [] ∨ cmd.length < (readTok (n + 1) cmd ts).1.length := by
  induction ts with
  | nil => exact Or.inl rfl
  | cons t ts ih =>
    cases t with
    | char byte =>
      obtain hp | hp := readTok_prefix n (cmd ++ [byte]) ts
      · exact Or.inl hp
      · exact Or.inr (Nat.lt_of_lt_of_le (by simp) hp.length_le)
    | stop => exact absurd trivial h
    | note closed =>
      show (if closed = true ∧ 2 ≤ cmd.length then (cmd, ts) else readTok (n + 1) cmd ts).1 = [] ∨
        cmd.length < (if closed = true ∧ 2 ≤ cmd.length then (cmd, ts) else readTok (n + 1) cmd ts).1.length
      rw [if_neg fun hclosed => h (Or.inl hclosed)]
      exact ih fun he => h (Or.inr he)

theorem lineOf_afterLine (ts : List Token) : lineOf (afterLine ts) = [] := by
  induction ts with
  | nil => rfl
  | cons t ts ih =>
    cases t with
    | char byte => exact ih
    | stop => rfl
    | note closed => rfl

theorem fromLine_eq_nil (h : lineOf (fromLine ts) = []) : fromLine ts = [] := by
  induction ts with
  | nil => rfl
  | cons t ts ih =>
    cases t with
    | char byte => simp [fromLine, lineOf] at h
    | stop => exact ih h
    | note closed => exact ih h

theorem tokLines_fromLine (ts : List Token) : tokLines [] ts = tokLines [] (fromLine ts) := by
  induction ts with
  | nil => rfl
  | cons t ts ih =>
    cases t with
    | char byte => rfl
    | stop => exact ih
    | note closed => exact ih

theorem tokLines_line (h : lineOf ts ≠ []) :
    tokLines [] ts = lineOf ts :: tokLines [] (afterLine ts) := by
  have hchars : ∀ (acc : List UInt8) (ts : List Token),
      tokLines acc ts = tokLines (acc ++ lineOf ts) (afterLine ts) := by
    intro acc ts
    induction ts generalizing acc with
    | nil => simp [lineOf, afterLine]
    | cons t ts ih =>
      cases t with
      | char byte =>
        show tokLines (acc ++ [byte]) ts = tokLines (acc ++ byte :: lineOf ts) (afterLine ts)
        rw [ih (acc ++ [byte]), List.append_assoc]
        rfl
      | stop => simp [lineOf, afterLine]
      | note closed => simp [lineOf, afterLine]
  have hend : ∀ (acc : List UInt8) (ts : List Token), acc ≠ [] → lineOf ts = [] →
      tokLines acc ts = acc :: tokLines [] ts := by
    intro acc ts hacc hts
    cases ts with
    | nil => simp [tokLines, hacc]
    | cons t ts =>
      cases t with
      | char byte => simp [lineOf] at hts
      | stop => simp [tokLines, hacc]
      | note closed => simp [tokLines, hacc]
  rw [hchars [] ts, List.nil_append, hend _ _ h (lineOf_afterLine ts)]

theorem lineOf_drop {n : ℕ} (h : n < (lineOf ts).length) :
    lineOf (ts.drop n) = (lineOf ts).drop n ∧ afterLine (ts.drop n) = afterLine ts := by
  induction ts generalizing n with
  | nil => exact absurd h (Nat.not_lt_zero n)
  | cons t ts ih =>
    cases n with
    | zero => exact ⟨rfl, rfl⟩
    | succ n =>
      cases t with
      | char byte => exact ih (Nat.lt_of_succ_lt_succ h)
      | stop => exact absurd h (Nat.not_lt_zero _)
      | note closed => exact absurd h (Nat.not_lt_zero _)

theorem blanks_pos (h : fromLine ts = []) (hs : Token.stop ∈ ts) : 0 < blanks ts := by
  induction ts with
  | nil => simp at hs
  | cons t ts ih =>
    cases t with
    | char byte => simp [fromLine] at h
    | stop => exact Nat.succ_pos _
    | note closed => exact ih h (by simpa using hs)

theorem getLast?_cons_stop (t : Token) (ts : List Token) :
    (t :: ts).getLast? = some .stop ↔ (ts = [] ∧ t = .stop) ∨ ts.getLast? = some .stop := by
  cases ts with
  | nil => simp
  | cons u ts => simp [List.getLast?_cons_cons]

/-- Without a line left, a call reads to the end of the file exactly under its condition. -/
theorem readTok_noLine {n : ℕ} (h : fromLine ts = []) :
    (readTok n [] ts).2 = [] ↔ blanks ts < n ∨ blanks ts = n ∧ (ts = [] ∨ ts.getLast? = some .stop) := by
  induction ts generalizing n with
  | nil => cases n <;> simp [readTok, blanks]
  | cons t ts ih =>
    cases n with
    | zero =>
      have hpos : (t :: ts).getLast? = some .stop → 0 < blanks (t :: ts) := fun hl =>
        blanks_pos h (List.mem_of_getLast? hl)
      rw [readTok_zero]
      simp only [reduceCtorEq, Nat.not_lt_zero, false_or, false_iff, not_and]
      exact fun h0 hl => absurd (hpos hl) (by omega)
    | succ n =>
      cases t with
      | char byte => simp [fromLine] at h
      | stop =>
        show (readTok n [] ts).2 = [] ↔ blanks ts + 1 < n + 1 ∨ blanks ts + 1 = n + 1 ∧ _
        rw [ih h, getLast?_cons_stop]
        simp
      | note closed =>
        show (if closed = true ∧ 2 ≤ 0 then _ else readTok (n + 1) [] ts).2 = [] ↔
          blanks ts < n + 1 ∨ blanks ts = n + 1 ∧ _
        rw [if_neg (by simp), ih h, getLast?_cons_stop]
        refine or_congr_right (and_congr_right fun hb => ?_)
        have hne : ts ≠ [] := by
          rintro rfl
          simp [blanks] at hb
        simp [hne]

/-- **A call under its condition**, with a line left, returns it, or a piece of one that is too long. -/
theorem readTok_ok {n : ℕ} (hl : lineOf (fromLine ts) ≠ []) (h : CallOk n ts) :
    (readTok n [] ts).1 ≠ [] ∧
      (((readTok n [] ts).1 = lineOf (fromLine ts) ∧
          tokLines [] (readTok n [] ts).2 = tokLines [] (afterLine (fromLine ts))) ∨
        ∃ r, lineOf (fromLine ts) = (readTok n [] ts).1 ++ r ∧ r ≠ [] ∧ n ≤ (lineOf (fromLine ts)).length ∧
          tokLines [] (readTok n [] ts).2 = r :: tokLines [] (afterLine (fromLine ts))) := by
  unfold CallOk at h
  rw [if_neg hl] at h
  obtain ⟨hb, hlen, hend⟩ := h
  rw [readTok_fromLine hb]
  by_cases hfit : blanks ts + (lineOf (fromLine ts)).length ≤ n
  · rw [readTok_line [] (by omega), List.nil_append]
    obtain hfull | hmore := Nat.eq_zero_or_pos (n - blanks ts - (lineOf (fromLine ts)).length)
    · rw [hfull, readTok_zero]
      exact ⟨hl, Or.inl ⟨rfl, rfl⟩⟩
    · obtain ⟨m, hm⟩ := Nat.exists_eq_succ_of_ne_zero hmore.ne'
      have he := readTok_ended (n := m) hl (hend (by omega))
      rw [hm]
      exact ⟨by rw [he.1]; exact hl, Or.inl he⟩
  · have hcut : n - blanks ts < (lineOf (fromLine ts)).length := by omega
    obtain ⟨hd, ha⟩ := lineOf_drop hcut
    have hr : (lineOf (fromLine ts)).drop (n - blanks ts) ≠ [] := by
      rw [ne_eq, List.drop_eq_nil_iff]
      omega
    rw [readTok_cut [] hcut, List.nil_append]
    refine ⟨?_, Or.inr ⟨_, (List.take_append_drop _ _).symm, hr, by omega, ?_⟩⟩
    · rw [ne_eq, List.take_eq_nil_iff, not_or]
      exact ⟨by omega, hl⟩
    · rw [tokLines_line (by rw [hd]; exact hr), hd, ha]

/-- Outside it, the call returns 0, or what is neither the line nor a piece of a long one. -/
theorem readTok_not_ok {n : ℕ} (hl : lineOf (fromLine ts) ≠ []) (h : ¬ CallOk n ts) :
    (readTok n [] ts).1 = [] ∨ ((readTok n [] ts).1 ≠ lineOf (fromLine ts) ∧
      ∀ r, lineOf (fromLine ts) = (readTok n [] ts).1 ++ r → (lineOf (fromLine ts)).length < n) := by
  unfold CallOk at h
  rw [if_neg hl] at h
  by_cases hb : blanks ts < n
  · rw [readTok_fromLine hb]
    by_cases hfit : blanks ts + (lineOf (fromLine ts)).length ≤ n
    · have hend : blanks ts + (lineOf (fromLine ts)).length < n ∧
          ¬ Ended (lineOf (fromLine ts)).length (afterLine (fromLine ts)) := by
        by_contra hc
        exact h ⟨hb, Or.inl hfit, fun hlt => by_contra fun hne => hc ⟨hlt, hne⟩⟩
      obtain ⟨m, hm⟩ := Nat.exists_eq_succ_of_ne_zero
        (show n - blanks ts - (lineOf (fromLine ts)).length ≠ 0 by omega)
      rw [readTok_line [] (by omega), List.nil_append, hm]
      -- the line is lost, or what is returned is longer than it
      obtain h0 | hlong := readTok_not_ended (n := m) hend.2
      · exact Or.inl h0
      · refine Or.inr ⟨fun heq => ?_, fun r hr => ?_⟩
        · rw [heq] at hlong
          exact absurd hlong (lt_irrefl _)
        · have := congrArg List.length hr
          rw [List.length_append] at this
          omega
    · have hshort : (lineOf (fromLine ts)).length < n := by
        by_contra hc
        exact h ⟨hb, Or.inr (not_lt.mp hc), fun hlt => absurd hlt.le hfit⟩
      rw [readTok_cut [] (by omega), List.nil_append]
      refine Or.inr ⟨fun heq => ?_, fun _ _ => hshort⟩
      have := congrArg List.length heq
      rw [List.length_take] at this
      omega
  · exact Or.inl (readTok_blanks (not_lt.mp hb))

end Call

/-! ## Runs -/

section Runs

/-- The condition of a call that finds `file` unread. -/
def ReadOk (maxLen : ℕ) (file : List UInt8) : Prop := CallOk maxLen (scan false file)

theorem readCmd_scan (maxLen : ℕ) (file : List UInt8) :
    readTok maxLen [] (scan false file) =
      ((readCmdFromFile maxLen file).1, scan false (readCmdFromFile maxLen file).2) :=
  readLoop_scan false maxLen [] file (by simp)

/-- **One call that returns a command** delivers the first line, or a piece of it, exactly under its condition. -/
theorem readCmd_delivers_iff {maxLen : ℕ} {file : List UInt8} (h : (readCmdFromFile maxLen file).1 ≠ [])
    (os : List (List UInt8)) :
    Delivered maxLen (fileLines file) ((readCmdFromFile maxLen file).1 :: os) ↔
      ReadOk maxLen file ∧ Delivered maxLen (fileLines (readCmdFromFile maxLen file).2) os := by
  have hscan := readCmd_scan maxLen file
  have ho : (readTok maxLen [] (scan false file)).1 = (readCmdFromFile maxLen file).1 := by rw [hscan]
  have hr : tokLines [] (readTok maxLen [] (scan false file)).2 = fileLines (readCmdFromFile maxLen file).2 := by
    rw [hscan, fileLines_scan]
  unfold ReadOk
  rw [fileLines_scan file, ← hr, ← ho]
  rw [← ho] at h
  by_cases hl : lineOf (fromLine (scan false file)) = []
  · -- no line is left, so no call returns a command
    have hfrom := fromLine_eq_nil hl
    refine absurd ?_ h
    by_cases hb : blanks (scan false file) < maxLen
    · obtain ⟨m, hm⟩ := Nat.exists_eq_succ_of_ne_zero (Nat.sub_ne_zero_of_lt hb)
      rw [readTok_fromLine hb, hfrom, hm]
      rfl
    · exact readTok_blanks (not_lt.mp hb)
  · rw [tokLines_fromLine, tokLines_line hl, delivered_cons_iff h]
    by_cases hok : CallOk maxLen (scan false file)
    · obtain ⟨-, ⟨h1, h2⟩ | ⟨r, h1, h2, h3, h4⟩⟩ := readTok_ok hl hok
      · rw [h2]
        constructor
        · rintro (⟨-, hd⟩ | ⟨r, hr', hne, -, -⟩)
          · exact ⟨hok, hd⟩
          · rw [h1] at hr'
            exact absurd (List.self_eq_append_right.mp hr') hne
        · rintro ⟨-, hd⟩
          exact Or.inl ⟨h1, hd⟩
      · rw [h4]
        constructor
        · rintro (⟨heq, -⟩ | ⟨r', hr', -, -, hd⟩)
          · rw [heq] at h1
            exact absurd (List.self_eq_append_right.mp h1) h2
          · rw [List.append_cancel_left (h1.symm.trans hr')]
            exact ⟨hok, hd⟩
        · rintro ⟨-, hd⟩
          exact Or.inr ⟨r, h1, h2, h3, hd⟩
    · obtain hnot | ⟨hne, hlong⟩ := readTok_not_ok hl hok
      · exact absurd hnot h
      · constructor
        · rintro (⟨heq, -⟩ | ⟨r, hr', -, hlen, -⟩)
          · exact absurd heq hne
          · exact absurd (hlong r hr') (not_lt.mpr hlen)
        · rintro ⟨hok', -⟩
          exact absurd hok' hok

/-- **One call that returns 0** has left no line and nothing of the file exactly under its condition. -/
theorem readCmd_ends_iff {maxLen : ℕ} {file : List UInt8} (h : (readCmdFromFile maxLen file).1 = []) :
    Delivered maxLen (fileLines file) [] ∧ (readCmdFromFile maxLen file).2 = [] ↔ ReadOk maxLen file := by
  have hscan := readCmd_scan maxLen file
  have ho : (readTok maxLen [] (scan false file)).1 = [] := by rw [hscan]; exact h
  have hr : (readTok maxLen [] (scan false file)).2 = scan false (readCmdFromFile maxLen file).2 := by rw [hscan]
  unfold ReadOk
  rw [delivered_nil_iff, fileLines_scan, ← @scan_false_eq_nil (readCmdFromFile maxLen file).2, ← hr]
  by_cases hl : lineOf (fromLine (scan false file)) = []
  · rw [readTok_noLine (fromLine_eq_nil hl), tokLines_fromLine, fromLine_eq_nil hl]
    unfold CallOk
    rw [if_pos hl]
    simp [tokLines]
  · rw [tokLines_fromLine, tokLines_line hl]
    constructor
    · rintro ⟨hnil, -⟩
      simp at hnil
    · intro hok
      exact absurd ho (readTok_ok hl hok).1

theorem reached_iff {maxLen : ℕ} {file : List UInt8} (h : (readCmdFromFile maxLen file).1 ≠ []) (rest : List UInt8) :
    Reached maxLen file rest ↔ rest = file ∨ Reached maxLen (readCmdFromFile maxLen file).2 rest := by
  constructor
  · intro hr
    induction hr with
    | first => exact Or.inl rfl
    | next _ hne ih =>
      obtain rfl | ih := ih
      · exact Or.inr .first
      · exact Or.inr (.next ih hne)
  · rintro (rfl | hr)
    · exact .first
    · induction hr with
      | first => exact .next .first h
      | next _ hne ih => exact .next ih hne

theorem reached_of_eq_nil {maxLen : ℕ} {file rest : List UInt8} (h : (readCmdFromFile maxLen file).1 = [])
    (hr : Reached maxLen file rest) : rest = file := by
  induction hr with
  | first => rfl
  | next _ hne ih =>
    rw [ih] at hne
    exact absurd h hne

/-- **A print delivers the lines of the file**, and ends at the end of the file, exactly when each of its calls meets
the condition. -/
theorem print_delivers_iff (maxLen : ℕ) (file : List UInt8) :
    Delivered maxLen (fileLines file) (print maxLen file).1 ∧ (print maxLen file).2 = [] ↔
      ∀ rest, Reached maxLen file rest → ReadOk maxLen rest := by
  induction hn : file.length using Nat.strong_induction_on generalizing file with
  | _ n ih =>
    by_cases h : (readCmdFromFile maxLen file).1 = []
    · rw [print_of_nil h, readCmd_ends_iff h]
      constructor
      · intro hok rest hr
        rw [reached_of_eq_nil h hr]
        exact hok
      · exact fun hall => hall file .first
    · rw [print_of_ne h]
      have ih' := ih _ (hn ▸ readCmdFromFile_lt h) (readCmdFromFile maxLen file).2 rfl
      rw [readCmd_delivers_iff h, and_assoc, ih']
      constructor
      · rintro ⟨hok, hall⟩ rest hr
        obtain rfl | hr := (reached_iff h rest).mp hr
        · exact hok
        · exact hall rest hr
      · intro hall
        exact ⟨hall file .first, fun rest hr => hall rest ((reached_iff h rest).mpr (Or.inr hr))⟩

/-- A print of a file of short lines delivers exactly its lines under the same condition. -/
theorem print_eq_iff {maxLen : ℕ} {file : List UInt8} (h : ∀ l ∈ fileLines file, l.length < maxLen) :
    print maxLen file = (fileLines file, []) ↔ ∀ rest, Reached maxLen file rest → ReadOk maxLen rest := by
  rw [← print_delivers_iff, delivered_iff_eq, Prod.ext_iff]
  intro l hl
  have hne : l ≠ [] := by simpa using List.of_mem_filter hl
  exact ⟨hne, h l hl⟩

/-- **A last line without a terminator is lost**; fifty blank lines end the print; and a comment behind one character
puts the next line behind it. -/
theorem lastLine_lost :
    print queueMsgSize (text "G28") = ([], []) ∧ fileLines (text "G28") = [text "G28"] ∧
      print queueMsgSize (List.replicate 50 (ascii '\n') ++ text "G28\n") = ([], text "G28\n") ∧
      (print queueMsgSize (text " ;home\nG28\n")).1 = [text " G28"] ∧
      ¬ (Delivered queueMsgSize (fileLines (text "G28")) (print queueMsgSize (text "G28")).1 ∧
        (print queueMsgSize (text "G28")).2 = []) := by
  have h1 : print queueMsgSize (text "G28") = ([], []) := by
    rw [print_of_nil (by decide)]
    decide
  have h2 : fileLines (text "G28") = [text "G28"] := by decide
  refine ⟨h1, h2, ?_, ?_, ?_⟩
  · rw [print_of_nil (by decide)]
    decide
  · have hend : print queueMsgSize [] = ([], []) := print_of_nil rfl
    have hcall : readCmdFromFile queueMsgSize (text " ;home\nG28\n") = (text " G28", []) := by decide
    rw [print_of_ne (by rw [hcall]; simp [text]), hcall, hend]
  · rintro ⟨hd, -⟩
    rw [h1, h2, delivered_nil_iff] at hd
    simp at hd

end Runs

end Cxsw.Print
