import Cxsw.Viewer.Worker

/-!
# Cxsw.Viewer.GcodeText — how the lines of a G-code text are read (`3d-lib/toolbar/thirdjs/worker.js`)

A text is made of lines with a command G0, G1, G90, G91 or G92, its words set apart by blanks, and a comment, each of
which can be left out.

* `readLayers_textOf`: comments and line ends are taken off, and the lines are read one after the other.
* `readTokens_line`: what is read of a line with a command.
-/

namespace Cxsw.Worker

open Js

/-! ## Texts -/

section Texts

inductive Command where
  | g0
  | g1
  | g90
  | g91
  | g92
  deriving DecidableEq

def Command.name : Command → List Char
  | g0 => "G0".toList
  | g1 => "G1".toList
  | g90 => "G90".toList
  | g91 => "G91".toList
  | g92 => "G92".toList

/-- A word: the blanks before it, less one, its letter and its number. -/
structure Word where
  blanks : ℕ
  letter : Char
  number : Decimal
  alpha : letter.isAlpha = true

def Word.text (w : Word) : List Char := List.replicate (w.blanks + 1) ' ' ++ w.letter :: w.number.text

/-- A command, in lower or upper case, with its words. -/
structure Code where
  lower : Bool
  command : Command
  words : List Word

/-- The command as it is written. -/
def Code.first (c : Code) : List Char := if c.lower then c.command.name.map Char.toLower else c.command.name

def Code.text (c : Code) : List Char := c.first ++ c.words.flatMap Word.text

/-- A line: a command, blanks, a comment and a carriage return, as far as they are there. -/
structure TextLine where
  code : Option Code
  blanks : ℕ
  comment : Option (List Char)
  carriageReturn : Bool
  comment_ok : ∀ c ∈ comment.getD [], isLineTerminator c = false

def TextLine.ending (l : TextLine) : List Char := if l.carriageReturn then ['\r'] else []

/-- The command of a line and the blanks after it. -/
def TextLine.codeText (l : TextLine) : List Char := l.code.elim [] Code.text ++ List.replicate l.blanks ' '

def TextLine.text (l : TextLine) : List Char := l.codeText ++ (l.comment.elim [] (';' :: ·) ++ l.ending)

def textOf (lines : List TextLine) : List Char := ['\n'].intercalate (lines.map TextLine.text)

/-- What is left of a comment and the line end: a semicolon with nothing after it is kept. -/
def TextLine.residue (l : TextLine) : List Char := (if l.comment = some [] then [';'] else []) ++ l.ending

/-- The line without its comment. -/
def TextLine.stripped (l : TextLine) : List Char := l.codeText ++ l.residue

end Texts

/-! ## Comments -/

section Comments

theorem stripComments_append {a : List Char} (ha : ';' ∉ a) (b : List Char) :
    stripComments false (a ++ b) = a ++ stripComments false b := by
  induction a with
  | nil => rfl
  | cons c a ih =>
    rw [List.mem_cons, not_or] at ha
    rw [List.cons_append, stripComments, if_neg (fun h => ha.1 h.1.symm), ih ha.2, List.cons_append]

/-- A comment goes on to the end of its line. -/
theorem stripComments_comment {comment rest : List Char} (hcomment : ∀ c ∈ comment, isLineTerminator c = false)
    (hrest : ∀ c ∈ rest.head?, isLineTerminator c = true) :
    stripComments true (comment ++ rest) = stripComments false rest := by
  induction comment with
  | nil =>
    cases rest with
    | nil => rfl
    | cons c rest =>
      have hc := hrest c rfl
      have hsemicolon : c ≠ ';' := by
        rintro rfl
        cases hc
      rw [List.nil_append, stripComments, if_pos hc, stripComments, if_neg (fun h => hsemicolon h.1)]
  | cons c comment ih =>
    have hc := hcomment c List.mem_cons_self
    rw [List.cons_append, stripComments, if_neg (by simp [hc]),
      ih fun c' hc' => hcomment c' (List.mem_cons_of_mem c hc')]

theorem TextLine.head_ending {l : TextLine} {rest : List Char} (hrest : ∀ c ∈ rest.head?, isLineTerminator c = true) :
    ∀ c ∈ (l.ending ++ rest).head?, isLineTerminator c = true := by
  rw [ending]
  split
  · rintro c hc
    obtain rfl : '\r' = c := by simpa using hc
    rfl
  · exact hrest

/-- Letters, digits, signs and points. -/
def isCodeChar (c : Char) : Bool := c.isAlphanum || c ∈ ['-', '+', '.']

theorem decimal_codeChars (d : Decimal) : ∀ c ∈ d.text, isCodeChar c = true := by
  intro c hc
  rcases Decimal.mem_text hc with hdigit | hmem
  · simp [isCodeChar, Char.isAlphanum, hdigit]
  · simp [isCodeChar, hmem]

theorem Code.chars (c : Code) : ∀ a ∈ c.text, isCodeChar a = true ∨ a = ' ' := by
  intro a ha
  have hfirst : c.first.all isCodeChar = true := by
    rw [Code.first]
    cases c.lower <;> cases c.command <;> decide
  rw [Code.text, List.mem_append, List.mem_flatMap] at ha
  rcases ha with ha | ⟨w, -, ha⟩
  · exact Or.inl (List.all_eq_true.mp hfirst a ha)
  · rw [Word.text, List.mem_append, List.mem_cons] at ha
    rcases ha with ha | rfl | ha
    · exact Or.inr (List.eq_of_mem_replicate ha)
    · exact Or.inl (by simp [isCodeChar, Char.isAlphanum, w.alpha])
    · exact Or.inl (decimal_codeChars w.number a ha)

theorem TextLine.codeText_chars (l : TextLine) : ∀ a ∈ l.codeText, isCodeChar a = true ∨ a = ' ' := by
  intro a ha
  rw [codeText, List.mem_append] at ha
  rcases ha with ha | ha
  · cases hcode : l.code with
    | none => simp [hcode] at ha
    | some c => exact c.chars a (by simpa [hcode] using ha)
  · exact Or.inr (List.eq_of_mem_replicate ha)

theorem TextLine.not_mem_codeText (l : TextLine) {a : Char} (ha : isCodeChar a = false) (hblank : a ≠ ' ') :
    a ∉ l.codeText := by
  intro hmem
  rcases l.codeText_chars a hmem with h | h
  · rw [ha] at h
    cases h
  · exact hblank h

theorem TextLine.mem_residue {l : TextLine} {a : Char} (ha : a ∈ l.residue) : a = ';' ∨ a = '\r' := by
  rw [residue, ending, List.mem_append] at ha
  rcases ha with ha | ha <;> split at ha <;> simp_all

/-- A line is stripped of its comment. -/
theorem stripComments_line (l : TextLine) (rest : List Char) (hrest : ∀ c ∈ rest.head?, isLineTerminator c = true) :
    stripComments false (l.text ++ rest) = l.stripped ++ stripComments false rest := by
  have hending : ';' ∉ l.ending := by
    rw [TextLine.ending]
    split <;> simp
  have hcomment := l.comment_ok
  have hhead := l.head_ending hrest
  rw [TextLine.text, TextLine.stripped, TextLine.residue, List.append_assoc, List.append_assoc,
    stripComments_append (l.not_mem_codeText rfl (by decide)), List.append_assoc, List.append_cancel_left_eq]
  cases hc : l.comment with
  | none => simp [stripComments_append hending]
  | some comment =>
    rw [hc, Option.getD_some] at hcomment
    cases comment with
    | nil =>
      have hkept : ¬ (';' = ';' ∧ (l.ending ++ rest).head?.any (!isLineTerminator ·) = true) := by
        rintro ⟨-, hany⟩
        obtain ⟨c, hc, hc'⟩ := (Option.any_eq_true _ _).mp hany
        simp [hhead c hc] at hc'
      simp only [Option.elim_some, List.cons_append, List.nil_append, if_true]
      rw [stripComments, if_neg hkept, stripComments_append hending]
    | cons c comment =>
      have hfirst := hcomment c (by simp)
      simp only [Option.elim_some, List.cons_append]
      rw [stripComments, if_pos (by simp [hfirst]), ← List.cons_append,
        stripComments_comment hcomment hhead, stripComments_append hending]
      simp

theorem stripComments_textOf (lines : List TextLine) :
    stripComments false (textOf lines) = ['\n'].intercalate (lines.map TextLine.stripped) := by
  induction lines with
  | nil => rfl
  | cons l lines ih =>
    cases lines with
    | nil =>
      have hline := stripComments_line l [] (by simp)
      simpa [textOf, stripComments] using hline
    | cons l' lines =>
      have hline := stripComments_line l ('\n' :: textOf (l' :: lines)) (by simp [isLineTerminator])
      rw [textOf, List.map_cons, List.map_cons, List.intercalate_cons_cons, ← List.map_cons, ← textOf,
        List.append_assoc,
        List.singleton_append, hline, stripComments, if_neg (by simp), ih]
      simp

/-- The lines are read one after the other. -/
theorem readLayers_textOf (round : ℚ → Number) (lines : List TextLine) :
    readLayers round (textOf lines) =
      lines.foldl (fun r l => r.readLine round l.stripped) Reader.start := by
  have hnewline : ∀ l ∈ lines.map TextLine.stripped, '\n' ∉ l := by
    rintro _ hl hmem
    obtain ⟨l, -, rfl⟩ := List.mem_map.mp hl
    rw [TextLine.stripped, List.mem_append] at hmem
    rcases hmem with hmem | hmem
    · exact l.not_mem_codeText rfl (by decide) hmem
    · rcases TextLine.mem_residue hmem with h | h <;> cases h
  rw [readLayers, stripComments_textOf]
  cases lines with
  | nil => rfl
  | cons l lines =>
    rw [List.splitOn_intercalate '\n' hnewline (by simp), List.foldl_map]

end Comments

/-! ## Tokens -/

section Tokens

/-- The value that the words give a coordinate; the last one counts. -/
def given (words : List Word) (axis : Char) : Option ℚ :=
  words.foldl (fun value w => if w.letter.toLower = axis then some w.number.value else value) none

/-- What a token that is no word begins with. -/
def EndsWord (rest : List Char) : Prop :=
  EndsDecimal rest ∧ ' ' ∉ rest ∧ ∀ c ∈ rest.head?, c.toLower.isAlpha = false

theorem endsWord_nil : EndsWord [] := ⟨by simp [EndsDecimal], by simp, by simp⟩

theorem TextLine.endsWord_residue (l : TextLine) : EndsWord l.residue := by
  have hhead (c : Char) (hc : c ∈ l.residue.head?) : c = ';' ∨ c = '\r' :=
    TextLine.mem_residue (List.mem_of_mem_head? hc)
  refine ⟨fun c hc => ?_, fun hmem => ?_, fun c hc => ?_⟩
  · rcases hhead c hc with rfl | rfl <;> decide
  · rcases TextLine.mem_residue hmem with h | h <;> cases h
  · rcases hhead c hc with rfl | rfl <;> decide

/-- The arguments of the words. -/
def wordArgs (round : ℚ → Number) (words : List Word) (args : Args) : Args :=
  words.foldl (fun args w => Function.update args w.letter.toLower (some (round w.number.value))) args

theorem wordArgs_given (round : ℚ → Number) (words : List Word) (axis : Char) :
    wordArgs round words (fun _ => none) axis = (given words axis).map round := by
  induction words using List.reverseRecOn with
  | nil => rfl
  | append_singleton words w ih =>
    rw [wordArgs, given, List.foldl_append, List.foldl_append] at *
    by_cases haxis : w.letter.toLower = axis
    · simp [haxis]
    · simpa [haxis, Function.update_apply, Ne.symm haxis] using ih

theorem splitOn_blanks (n : ℕ) (b : List Char) :
    (List.replicate n ' ' ++ b).splitOn ' ' = List.replicate n [] ++ b.splitOn ' ' := by
  induction n with
  | zero => rfl
  | succ n ih =>
    have hsplit := List.splitOn_append_cons_self_of_not_mem (show ' ' ∉ [] by simp) (List.replicate n ' ' ++ b)
    rw [List.nil_append] at hsplit
    rw [List.replicate_succ, List.cons_append, hsplit, ih, List.replicate_succ, List.cons_append]

theorem foldl_blanks (round : ℚ → Number) (n : ℕ) (tokens : List (List Char)) (args : Args) :
    (List.replicate n [] ++ tokens).foldl (readArg round) args = tokens.foldl (readArg round) args := by
  induction n with
  | zero => rfl
  | succ n ih => exact ih

/-- The letters have the same values. -/
def SameLetters (f g : Args) : Prop := ∀ c, c.isAlpha = true → f c = g c

/-- A residue gives no letter a value. -/
theorem readArg_residue (round : ℚ → Number) {residue : List Char} (hresidue : EndsWord residue) {args args' : Args}
    (h : SameLetters args args') : SameLetters (readArg round args residue) args' := by
  cases hres : residue with
  | nil => exact h
  | cons a rest =>
    intro c hc
    have hkey : c ≠ a.toLower := by
      rintro rfl
      have halpha := hresidue.2.2 a (by simp [hres])
      rw [hc] at halpha
      cases halpha
    simpa [readArg, Function.update_apply, hkey] using h c hc

/-- A word gives its letter the value of its number. -/
theorem readArg_word (round : ℚ → Number) (w : Word) {rest : List Char} (hrest : EndsDecimal rest) {args args' : Args}
    (h : SameLetters args args') :
    SameLetters (readArg round args (w.letter :: w.number.text ++ rest))
      (Function.update args' w.letter.toLower (some (round w.number.value))) := by
  intro c hc
  rw [List.cons_append, readArg, parseFloat_decimal round w.number hrest]
  by_cases hkey : c = w.letter.toLower
  · simp [hkey]
  · simpa [Function.update_apply, hkey] using h c hc

theorem Word.blank_not_mem (w : Word) : ' ' ∉ w.letter :: w.number.text := by
  rw [List.mem_cons, not_or]
  constructor
  · intro h
    have halpha := w.alpha
    rw [← h] at halpha
    cases halpha
  · intro h
    have hchar := decimal_codeChars w.number ' ' h
    cases hchar

/-- The tokens after the first: the words, and what gives no letter a value. -/
theorem splitOn_words (round : ℚ → Number) {residue : List Char} (hresidue : EndsWord residue) (blanks : ℕ)
    (words : List Word) {first : List Char} (hfirst : ' ' ∉ first) :
    ∃ rest tokens, (first ++ (words.flatMap Word.text ++ (List.replicate blanks ' ' ++ residue))).splitOn ' ' =
        (first ++ rest) :: tokens ∧
      (rest = [] ∨ rest = residue ∧ words = []) ∧
      ∀ args args', SameLetters args args' →
        SameLetters (tokens.foldl (readArg round) args) (wordArgs round words args') := by
  induction words generalizing first with
  | nil =>
    cases blanks with
    | zero =>
      refine ⟨residue, [], ?_, Or.inr ⟨rfl, rfl⟩, fun args args' h => h⟩
      exact List.splitOn_eq_singleton (by simpa using ⟨hfirst, hresidue.2.1⟩)
    | succ n =>
      refine ⟨[], List.replicate n [] ++ [residue], ?_, Or.inl rfl, fun args args' h => ?_⟩
      · have hsplit := List.splitOn_append_cons_self_of_not_mem hfirst (List.replicate n ' ' ++ residue)
        rw [splitOn_blanks, List.splitOn_eq_singleton hresidue.2.1] at hsplit
        simpa [List.replicate_succ] using hsplit
      · rw [foldl_blanks]
        exact readArg_residue round hresidue h
  | cons w words ih =>
    obtain ⟨rest, tokens, hsplit, hrest, htokens⟩ := ih w.blank_not_mem
    have hends : EndsDecimal rest := by
      rcases hrest with rfl | ⟨rfl, -⟩
      · exact endsWord_nil.1
      · exact hresidue.1
    refine ⟨[], List.replicate w.blanks [] ++ (w.letter :: w.number.text ++ rest) :: tokens, ?_, Or.inl rfl, ?_⟩
    · have hfirst' := List.splitOn_append_cons_self_of_not_mem hfirst (List.replicate w.blanks ' ' ++
        (w.letter :: w.number.text ++ (words.flatMap Word.text ++ (List.replicate blanks ' ' ++ residue))))
      rw [splitOn_blanks, hsplit] at hfirst'
      simpa [Word.text, List.replicate_succ] using hfirst'
    · intro args args' h
      rw [foldl_blanks, wordArgs, List.foldl_cons, List.foldl_cons, ← wordArgs]
      exact htokens _ _ (readArg_word round w hends h)

theorem Code.first_spec (c : Code) : ' ' ∉ c.first ∧ c.first.map Char.toUpper = c.command.name := by
  rw [first]
  cases c.lower <;> cases c.command <;> decide

/-- What is read of a line with a command; a command without words is read with the residue after it. -/
theorem readTokens_line (round : ℚ → Number) {l : TextLine} {c : Code} (hcode : l.code = some c) :
    ∃ rest, (readTokens round l.stripped).1 = c.command.name ++ rest ∧
      (rest = [] ∨ rest = l.residue ∧ c.words = []) ∧
      SameLetters (readTokens round l.stripped).2 fun axis => (given c.words axis).map round := by
  obtain ⟨hfirst, hupper⟩ := c.first_spec
  have htext : l.stripped = c.first ++ (c.words.flatMap Word.text ++ (List.replicate l.blanks ' ' ++ l.residue)) := by
    simp [TextLine.stripped, TextLine.codeText, hcode, Code.text]
  obtain ⟨rest, tokens, hsplit, hrest, htokens⟩ := splitOn_words round l.endsWord_residue l.blanks c.words hfirst
  have hrest' : rest.map Char.toUpper = rest := by
    rcases hrest with rfl | ⟨rfl, -⟩
    · rfl
    · refine (List.map_congr_left fun a ha => ?_).trans (List.map_id _)
      rcases TextLine.mem_residue ha with rfl | rfl <;> rfl
  refine ⟨rest, ?_, hrest, ?_⟩
  · rw [readTokens, htext, hsplit]
    simp [hupper, hrest']
  · intro axis haxis
    have hargs := htokens (fun _ => none) (fun _ => none) (fun _ _ => rfl) axis haxis
    rw [wordArgs_given] at hargs
    rw [readTokens, htext, hsplit]
    exact hargs

/-- No command's name has a semicolon or a carriage return. -/
theorem Command.name_ne (c : Command) (rest : List Char) (hrest : ∃ a ∈ rest, a = ';' ∨ a = '\r') : rest ≠ c.name := by
  obtain ⟨a, ha, hchar⟩ := hrest
  rintro rfl
  rcases hchar with rfl | rfl <;> cases c <;> revert ha <;> decide

theorem readLine_other (round : ℚ → Number) (r : Reader) {text : List Char}
    (h : ∀ c : Command, (readTokens round text).1 ≠ c.name) : r.readLine round text = r := by
  have hg0 := h .g0
  have hg1 := h .g1
  have hg90 := h .g90
  have hg91 := h .g91
  have hg92 := h .g92
  simp only [Command.name] at hg0 hg1 hg90 hg91 hg92
  rw [Reader.readLine]
  simp only [hg0, hg1, hg90, hg91, hg92, or_self, if_false]

/-- A line without a command changes nothing. -/
theorem readLine_comment (round : ℚ → Number) (r : Reader) {l : TextLine} (hcode : l.code = none) :
    r.readLine round l.stripped = r := by
  refine readLine_other round r fun c => ?_
  have htext : l.stripped = List.replicate l.blanks ' ' ++ l.residue := by
    simp [TextLine.stripped, TextLine.codeText, hcode]
  have hempty : ([] : List Char) ≠ c.name := by cases c <;> decide
  rw [readTokens, htext, splitOn_blanks, List.splitOn_eq_singleton l.endsWord_residue.2.1]
  cases l.blanks with
  | succ n => exact hempty
  | zero =>
    cases hresidue : l.residue with
    | nil => exact hempty
    | cons a rest =>
      have ha : a = ';' ∨ a = '\r' := TextLine.mem_residue (l := l) (by simp [hresidue])
      have hupper : a.toUpper = a := by rcases ha with rfl | rfl <;> rfl
      exact c.name_ne ((a :: rest).map Char.toUpper) ⟨a, by simp [hupper], ha⟩

/-- What a command does to the reader. -/
def Reader.exec (round : ℚ → Number) (r : Reader) (command : Command) (text : List Char) (args : Args) : Reader :=
  match command with
  | .g0 | .g1 => r.move round text args
  | .g90 | .g91 => { r with state := { r.state with relative := false } }
  | .g92 => { r with state := r.state.setPosition args }

theorem readLine_name (round : ℚ → Number) (r : Reader) {text : List Char} {c : Command}
    (h : (readTokens round text).1 = c.name) :
    r.readLine round text = r.exec round c text (readTokens round text).2 := by
  rw [Reader.readLine]
  simp only [h]
  cases c <;> rfl

/-- **A line with a command**: it is carried out with the values of its words; one without words may be passed over. -/
theorem readLine_code (round : ℚ → Number) (r : Reader) {l : TextLine} {c : Code} (hcode : l.code = some c) :
    (c.words = [] ∧ r.readLine round l.stripped = r) ∨
      ∃ args, SameLetters args (fun axis => (given c.words axis).map round) ∧
        r.readLine round l.stripped = r.exec round c.command l.stripped args := by
  obtain ⟨rest, hname, hrest, hargs⟩ := readTokens_line round hcode
  cases hempty : rest with
  | nil =>
    rw [hempty, List.append_nil] at hname
    exact Or.inr ⟨_, hargs, readLine_name round r hname⟩
  | cons a rest' =>
    rcases hrest with hnil | ⟨hresidue, hwords⟩
    · rw [hempty] at hnil
      cases hnil
    · refine Or.inl ⟨hwords, readLine_other round r fun c' => ?_⟩
      rw [hname]
      refine c'.name_ne _ ⟨a, by simp [hempty], TextLine.mem_residue (l := l) ?_⟩
      rw [← hresidue, hempty]
      exact List.mem_cons_self

end Tokens

end Cxsw.Worker
