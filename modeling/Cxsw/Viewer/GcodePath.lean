import Cxsw.Lib.Run
import Cxsw.Viewer.GcodeText

/-!
# Cxsw.Viewer.GcodePath — the path of a G-code text and the layers of its preview (`3d-lib/toolbar/thirdjs/worker.js`)

`Machine` is what the commands mean: G0 and G1 move, G91 makes coordinates relative until G90, G92 redefines the
position.  The reader of `parse` is compared with it, in exact arithmetic.

* `Agrees.readLine_iff`: what a line must be so that the reader follows the machine.
* `preview_path_iff`: when the layers hold the machine's path.
-/

namespace Cxsw.Worker

open Js

/-! ## The machine -/

section Machine

/-- A position. -/
structure Point where
  x : ℚ
  y : ℚ
  z : ℚ
  e : ℚ
  deriving DecidableEq

/-- The point with the given coordinates in place of its own. -/
def Point.set (p : Point) (words : List Word) : Point where
  x := (given words 'x').getD p.x
  y := (given words 'y').getD p.y
  z := (given words 'z').getD p.z
  e := (given words 'e').getD p.e

/-- The point moved by the given coordinates. -/
def Point.shift (p : Point) (words : List Word) : Point where
  x := p.x + (given words 'x').getD 0
  y := p.y + (given words 'y').getD 0
  z := p.z + (given words 'z').getD 0
  e := p.e + (given words 'e').getD 0

/-- The machine, with the extruding moves it has made. -/
structure Machine where
  pos : Point
  relative : Bool
  path : List (Point × Point)

def Machine.start : Machine := ⟨⟨0, 0, 0, 0⟩, false, []⟩

/-- The end of a move. -/
def Machine.target (m : Machine) (words : List Word) : Point :=
  if m.relative then m.pos.shift words else m.pos.set words

def Machine.moveTo (m : Machine) (p : Point) : Machine :=
  { m with pos := p, path := if m.pos.e < p.e then m.path ++ [(m.pos, p)] else m.path }

/-- One line. -/
def Machine.exec (m : Machine) (l : TextLine) : Machine :=
  match l.code with
  | none => m
  | some c =>
    match c.command with
    | .g0 | .g1 => m.moveTo (m.target c.words)
    | .g90 => { m with relative := false }
    | .g91 => { m with relative := true }
    | .g92 => { m with pos := m.pos.set c.words }

def machineAfter (lines : List TextLine) : Machine := lines.foldl Machine.exec Machine.start

end Machine

/-! ## The preview -/

section Preview

/-- The coordinates of an extruding move. -/
def coords (s : Point × Point) : List Number :=
  [.finite s.1.x, .finite s.1.y, .finite s.1.z, .finite s.2.x, .finite s.2.y, .finite s.2.z]

def AtPoint (s : State) (p : Point) : Prop :=
  s.x = .finite p.x ∧ s.y = .finite p.y ∧ s.z = .finite p.z ∧ s.e = .finite p.e

/-- Every segment of a layer ends at the layer's height. -/
def OwnHeights (layers : List Layer) : Prop :=
  ∀ layer ∈ layers, ∀ k v, layer.vertex[6 * k + 5]? = some v → v = layer.z

/-- The reader is where the machine is, the layers hold the machine's extruding moves in order, and each move is in the
layer of its end height. -/
structure Agrees (r : Reader) (m : Machine) : Prop where
  position : AtPoint r.state m.pos
  path : r.layers.flatMap Layer.vertex = m.path.flatMap coords
  heights : OwnHeights r.layers

/-- The preview of a text is right. -/
def Right (lines : List TextLine) : Prop := Agrees (readLayers .finite (textOf lines)) (machineAfter lines)

/-- The line moves the machine as it moves the reader. -/
def LineOk (m : Machine) (l : TextLine) : Prop :=
  match l.code with
  | none => True
  | some c =>
    c.command = .g0 ∨ c.command = .g1 →
      if "X10.".toList <:+: c.text then m.target c.words = m.pos
      else m.relative = true →
        ∀ p ∈ [('x', m.pos.x), ('y', m.pos.y), ('z', m.pos.z), ('e', m.pos.e)], given c.words p.1 ≠ none → p.2 = 0

end Preview

/-! ## One line -/

section OneLine

variable {r : Reader} {m : Machine} {s : State} {p q : Point} {words : List Word} {args : Args}

theorem AtPoint.unique (hp : AtPoint s p) (hq : AtPoint s q) : p = q := by
  obtain ⟨hx, hy, hz, he⟩ := hp
  obtain ⟨hx', hy', hz', he'⟩ := hq
  rw [hx, Number.finite.injEq] at hx'
  rw [hy, Number.finite.injEq] at hy'
  rw [hz, Number.finite.injEq] at hz'
  rw [he, Number.finite.injEq] at he'
  cases p
  simp_all

theorem shift_eq_set_iff (p : Point) (words : List Word) :
    p.shift words = p.set words ↔
      ∀ q ∈ [('x', p.x), ('y', p.y), ('z', p.z), ('e', p.e)], given words q.1 ≠ none → q.2 = 0 := by
  have hone (a : ℚ) (v : Option ℚ) : a + v.getD 0 = v.getD a ↔ (v ≠ none → a = 0) := by
    cases v <;> simp
  simp [Point.shift, Point.set, hone]

theorem target_eq_set_iff (m : Machine) (words : List Word) :
    m.target words = m.pos.set words ↔ (m.relative = true → m.pos.shift words = m.pos.set words) := by
  rw [Machine.target]
  split <;> simp_all

/-- The reader takes all coordinates as absolute. -/
theorem AtPoint.line (h : AtPoint s p) (hrelative : s.relative = false)
    (hargs : SameLetters args fun axis => (given words axis).map Number.finite) :
    AtPoint (s.line .finite args) (p.set words) := by
  have hone (v : Option ℚ) (a : Number) (b : ℚ) (hab : a = .finite b) :
      (v.map Number.finite).elim a (s.absolute .finite a) = .finite (v.getD b) := by
    cases v <;> simp [State.absolute, hrelative, hab]
  obtain ⟨hx, hy, hz, he⟩ := h
  have hargx := hargs 'x' rfl
  have hargy := hargs 'y' rfl
  have hargz := hargs 'z' rfl
  have harge := hargs 'e' rfl
  simp only [State.line, AtPoint, Point.set, hargx, hargy, hargz, harge]
  exact ⟨hone _ _ _ hx, hone _ _ _ hy, hone _ _ _ hz, hone _ _ _ he⟩

theorem AtPoint.setPosition (h : AtPoint s p)
    (hargs : SameLetters args fun axis => (given words axis).map Number.finite) :
    AtPoint (s.setPosition args) (p.set words) := by
  have hone (v : Option ℚ) (a : Number) (b : ℚ) (hab : a = .finite b) :
      (v.map Number.finite).getD a = .finite (v.getD b) := by
    cases v <;> simp [hab]
  obtain ⟨hx, hy, hz, he⟩ := h
  have hargx := hargs 'x' rfl
  have hargy := hargs 'y' rfl
  have hargz := hargs 'z' rfl
  have harge := hargs 'e' rfl
  simp only [State.setPosition, AtPoint, Point.set, hargx, hargy, hargz, harge]
  exact ⟨hone _ _ _ hx, hone _ _ _ hy, hone _ _ _ hz, hone _ _ _ he⟩

theorem AtPoint.extrudes (h : AtPoint s p) (hrelative : s.relative = false) {line : State} (hline : AtPoint line q) :
    s.extrudes .finite line = decide (p.e < q.e) := by
  simp [State.extrudes, State.delta, hrelative, h.2.2.2, hline.2.2.2]

theorem contains_append_iff {α : Type*} {q a b : List α} {x : α} (hx : x ∉ b) :
    q ++ [x] <:+: a ++ b ↔ q ++ [x] <:+: a := by
  constructor
  · rintro ⟨front, back, h⟩
    rcases List.append_eq_append_iff.mp h with ⟨a', ha, -⟩ | ⟨b', ha, hb⟩
    · exact ⟨front, a', ha.symm⟩
    · rcases List.eq_nil_or_concat b' with rfl | ⟨b', y, rfl⟩
      · exact ⟨front, [], by simpa using ha⟩
      · -- the last element would be one of `b`
        rw [List.concat_eq_append, ← List.append_assoc, ← List.append_assoc] at ha
        obtain ⟨-, hy⟩ := List.append_inj' ha rfl
        obtain rfl : x = y := by simpa using hy
        simp [hb] at hx
  · exact fun h => h.trans (List.infix_append' [] a b)

/-- What comes after the words does not complete the text of the filter. -/
theorem filtered_iff {l : TextLine} {c : Code} (hcode : l.code = some c) :
    "X10.".toList <:+: l.stripped ↔ "X10.".toList <:+: c.text := by
  have htext : l.stripped = c.text ++ (List.replicate l.blanks ' ' ++ l.residue) := by
    simp [TextLine.stripped, TextLine.codeText, hcode]
  have hpoint : '.' ∉ List.replicate l.blanks ' ' ++ l.residue := by
    rw [List.mem_append, not_or]
    constructor
    · intro h
      cases List.eq_of_mem_replicate h
    · intro h
      rcases TextLine.mem_residue h with h | h <;> cases h
  rw [htext]
  exact contains_append_iff (q := "X10".toList) hpoint

theorem moveTo_pos (m : Machine) : m.moveTo m.pos = m := by simp [Machine.moveTo]

theorem segment_eq_coords {s' : State} (hp : AtPoint s p) (hq : AtPoint s' q) : segment s s' = coords (p, q) := by
  obtain ⟨hx, hy, hz, -⟩ := hp
  obtain ⟨hx', hy', hz', -⟩ := hq
  rw [segment, coords, hx, hy, hz, hx', hy', hz']

/-- A segment is put into a layer of its end height. -/
theorem OwnHeights.push {done : List Layer} {layer : Layer} {p1 p2 : State} (hdone : OwnHeights done)
    (hlayer : ∀ k v, layer.vertex[6 * k + 5]? = some v → v = layer.z) (hz : layer.z = p2.z) :
    OwnHeights (done ++ [layer.push p1 p2]) := by
  intro l hl k v hv
  rw [List.mem_append, List.mem_singleton] at hl
  rcases hl with hl | rfl
  · exact hdone l hl k v hv
  · obtain ⟨n, hn⟩ := layer.six
    change (layer.vertex ++ segment p1 p2)[6 * k + 5]? = some v at hv
    change v = layer.z
    rw [List.getElem?_append] at hv
    split at hv
    · exact hlayer k v hv
    · -- the last coordinate of the segment
      have hlast : 6 * k + 5 - layer.vertex.length = 5 := by
        have hlt := (List.getElem?_eq_some_iff.mp hv).1
        rw [segment] at hlt
        simp at hlt
        omega
      rw [hlast, segment] at hv
      obtain rfl : p2.z = v := by simpa using hv
      exact hz.symm

theorem Agrees.move_idle (h : Agrees r m) {text : List Char} (htext : ¬ "X10.".toList <:+: text)
    (hline : AtPoint (r.state.line .finite args) q)
    (hidle : r.state.extrudes .finite (r.state.line .finite args) = false)
    (he : ¬ m.pos.e < q.e) : Agrees (r.move .finite text args) (m.moveTo q) := by
  obtain ⟨-, hlayers⟩ := r.move_idle .finite htext hidle
  rw [Machine.moveTo, if_neg he]
  refine ⟨?_, ?_, ?_⟩
  · rwa [r.move_state .finite args htext]
  · rw [← h.path]
    rcases hlayers with hlayers | ⟨hnil, hlayers⟩
    · rw [hlayers]
    · simp [hnil, hlayers]
  · rcases hlayers with hlayers | ⟨-, hlayers⟩
    · rw [hlayers]
      exact h.heights
    · simp [hlayers, OwnHeights]

theorem Agrees.move_extrudes (h : Agrees r m) {text : List Char} (htext : ¬ "X10.".toList <:+: text)
    (hline : AtPoint (r.state.line .finite args) q)
    (hextrudes : r.state.extrudes .finite (r.state.line .finite args) = true) (he : m.pos.e < q.e) :
    Agrees (r.move .finite text args) (m.moveTo q) := by
  obtain ⟨-, done, layer, hlayers, hz, hold⟩ := r.move_extrudes .finite htext hextrudes
  have hpath : done.flatMap Layer.vertex ++ layer.vertex = m.path.flatMap coords := by
    rw [← h.path]
    rcases hold with hold | ⟨hold, hempty⟩
    · simp [hold]
    · simp [hold, hempty]
  have hdone : OwnHeights done := by
    intro l hl
    rcases hold with hold | ⟨hold, -⟩
    · exact h.heights l (by simp [hold, hl])
    · exact h.heights l (by simp [hold, hl])
  have hlayer : ∀ k v, layer.vertex[6 * k + 5]? = some v → v = layer.z := by
    rcases hold with hold | ⟨-, hempty⟩
    · exact h.heights layer (by simp [hold])
    · simp [hempty]
  rw [Machine.moveTo, if_pos he]
  refine ⟨?_, ?_, ?_⟩
  · rwa [r.move_state .finite args htext]
  · rw [hlayers]
    simp only [List.flatMap_append, List.flatMap_singleton, Layer.push, ← hpath, segment_eq_coords h.position hline,
      List.append_assoc]
  · rw [hlayers]
    exact hdone.push hlayer hz

/-- A move: the reader follows the machine when the line is not left out and goes where it would go under G90, or goes
nowhere. -/
theorem Agrees.move_iff (h : Agrees r m) (hrelative : r.state.relative = false)
    (hargs : SameLetters args fun axis => (given words axis).map Number.finite) (text : List Char) :
    Agrees (r.move .finite text args) (m.moveTo (m.target words)) ↔
      if "X10.".toList <:+: text then m.target words = m.pos
      else m.relative = true → m.pos.shift words = m.pos.set words := by
  by_cases htext : "X10.".toList <:+: text
  · rw [if_pos htext, Reader.move, if_pos htext]
    constructor
    · intro h'
      exact h'.position.unique h.position
    · intro htarget
      rwa [htarget, moveTo_pos]
  · rw [if_neg htext, ← target_eq_set_iff]
    have hline := h.position.line hrelative hargs
    have hextrudes := h.position.extrudes hrelative hline
    constructor
    · intro h'
      have hposition := h'.position
      rw [r.move_state .finite args htext] at hposition
      exact hposition.unique hline
    · intro htarget
      rw [htarget]
      by_cases he : m.pos.e < (m.pos.set words).e
      · exact h.move_extrudes htext hline (hextrudes.trans (decide_eq_true he)) he
      · exact h.move_idle htext hline (hextrudes.trans (decide_eq_false he)) he

/-- A command without words goes nowhere. -/
theorem Agrees.passed_over (h : Agrees r m) {l : TextLine} {c : Code} (hcode : l.code = some c)
    (hwords : c.words = []) :
    Agrees r (m.exec l) ∧ LineOk m l := by
  have hset : m.pos.set [] = m.pos := rfl
  have hshift : m.pos.shift [] = m.pos := by simp [Point.shift, given]
  have htarget : m.target [] = m.pos := by rw [Machine.target, hset, hshift, ite_self]
  rw [Machine.exec, LineOk, hcode]
  simp only [hwords, htarget, hset, moveTo_pos]
  constructor
  · cases c.command
    · exact h
    · exact h
    · exact ⟨h.position, h.path, h.heights⟩
    · exact ⟨h.position, h.path, h.heights⟩
    · exact h
  · simp [given]

/-- **One line**: the reader goes on to follow the machine exactly when the line is of the kind described. -/
theorem Agrees.readLine_iff (h : Agrees r m) (hrelative : r.state.relative = false) (l : TextLine) :
    Agrees (r.readLine .finite l.stripped) (m.exec l) ↔ LineOk m l := by
  cases hcode : l.code with
  | none =>
    rw [readLine_comment .finite r hcode, Machine.exec, LineOk, hcode]
    exact iff_of_true h trivial
  | some c =>
    rcases readLine_code .finite r hcode with ⟨hwords, hsame⟩ | ⟨args, hargs, hexec⟩
    · obtain ⟨hagrees, hok⟩ := h.passed_over hcode hwords
      rw [hsame]
      exact iff_of_true hagrees hok
    · have hmove := h.move_iff hrelative hargs l.stripped
      have hmode (b : Bool) : Agrees { r with state := { r.state with relative := false } } { m with relative := b } :=
        ⟨h.position, h.path, h.heights⟩
      have hset : Agrees { r with state := r.state.setPosition args } { m with pos := m.pos.set c.words } :=
        ⟨h.position.setPosition hargs, h.path, h.heights⟩
      simp only [filtered_iff hcode, shift_eq_set_iff] at hmove
      rw [hexec, Machine.exec, LineOk, hcode]
      cases hcommand : c.command with
      | g0 => simpa [Reader.exec, hcommand] using hmove
      | g1 => simpa [Reader.exec, hcommand] using hmove
      | g90 => simpa [Reader.exec, hcommand] using hmode false
      | g91 => simpa [Reader.exec, hcommand] using hmode true
      | g92 => simpa [Reader.exec, hcommand] using hset

end OneLine

/-! ## The path of a text -/

section Path

/-- The mode never becomes relative. -/
theorem readLine_relative (round : ℚ → Number) {r : Reader} (h : r.state.relative = false) (text : List Char) :
    (r.readLine round text).state.relative = false := by
  rw [Reader.readLine]
  dsimp only
  split_ifs
  · rw [Reader.move]
    split_ifs
    · exact h
    · rfl
  all_goals first | rfl | exact h

theorem readLayers_relative (round : ℚ → Number) (data : List Char) :
    (readLayers round data).state.relative = false := by
  rw [readLayers]
  generalize (stripComments false data).splitOn '\n' = lines
  induction lines using List.reverseRecOn with
  | nil => rfl
  | append_singleton lines line ih =>
    rw [List.foldl_append]
    exact readLine_relative round ih line

theorem right_nil : Right [] := by
  refine ⟨⟨rfl, rfl, rfl, rfl⟩, rfl, ?_⟩
  intro layer hlayer
  cases hlayer

theorem right_concat_iff {pre : List TextLine} (h : Right pre) (l : TextLine) :
    Right (pre ++ [l]) ↔ LineOk (machineAfter pre) l := by
  have hline := Agrees.readLine_iff h (readLayers_relative .finite (textOf pre)) l
  have htext : readLayers .finite (textOf (pre ++ [l])) =
      (readLayers .finite (textOf pre)).readLine .finite l.stripped := by
    rw [readLayers_textOf, readLayers_textOf, List.foldl_append]
    rfl
  have hmachine : machineAfter (pre ++ [l]) = (machineAfter pre).exec l := by
    rw [machineAfter, List.foldl_append]
    rfl
  rw [Right, htext, hmachine]
  exact hline

/-- **The preview of a text**: it is right after every line exactly when every line is of the kind described. -/
theorem preview_path_iff (lines : List TextLine) :
    (∀ pre, pre <+: lines → Right pre) ↔ ∀ pre l, pre ++ [l] <+: lines → LineOk (machineAfter pre) l :=
  forall_prefix_iff right_nil (fun _ l h => right_concat_iff h l) lines

/-- A line with a command and nothing else. -/
def TextLine.of (command : Command) (words : List Word) : TextLine :=
  ⟨some ⟨false, command, words⟩, 0, none, false, by simp⟩

def decimal1 : Decimal := ⟨none, ['1'], none, by simp, by simp⟩

def decimal10_5 : Decimal := ⟨none, ['1', '0'], some ['5'], by simp, by simp⟩

/-- Two relative moves of one unit each. -/
def relativeMoves : List TextLine :=
  let words : List Word := [⟨0, 'X', decimal1, by decide⟩, ⟨0, 'E', decimal1, by decide⟩]
  [.of .g91 [], .of .g1 words, .of .g1 words]

/-- A move to 10.5. -/
def moveTo10_5 : List TextLine := [.of .g1 [⟨0, 'X', decimal10_5, by decide⟩, ⟨0, 'E', decimal1, by decide⟩]]

/-- The second of two relative moves is lost, and so is a move to 10.5. -/
theorem relative_and_filtered_moves_lost :
    textOf relativeMoves = "G91\nG1 X1 E1\nG1 X1 E1".toList ∧
      (readLayers .finite (textOf relativeMoves)).layers.flatMap Layer.vertex ≠
        (machineAfter relativeMoves).path.flatMap coords ∧
      textOf moveTo10_5 = "G1 X10.5 E1".toList ∧
      (readLayers .finite (textOf moveTo10_5)).layers.flatMap Layer.vertex ≠
        (machineAfter moveTo10_5).path.flatMap coords := by
  refine ⟨?_, ?_, ?_, ?_⟩
  all_goals decide +kernel

end Path

end Cxsw.Worker
