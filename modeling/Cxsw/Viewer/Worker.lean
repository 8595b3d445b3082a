import Mathlib.Data.List.Basic
import Mathlib.Data.List.Infix
import Mathlib.Tactic.Common
import Cxsw.Lib.JsNumber

/-!
# Cxsw.Viewer.Worker — the layers of a G-code text and their buffers (`3d-lib/toolbar/thirdjs/worker.js`)

`parse` first reads the lines of the text and collects the extruding moves in layers, a new one at each new height;
then it thins the layers out by the size of the file and writes the vertices that are kept, their colours and their
alphas one after the other, with an index of the ranges by height.

* `readLayers_collected`: the layers hold the extruding moves, and only the first can be empty.
-/

namespace Cxsw.Worker

open Js

/-! ## The reader -/

section Reader

/-- `state`; its `extruding` is not read. -/
structure State where
  x : Number
  y : Number
  z : Number
  e : Number
  f : Number
  relative : Bool

def State.start : State where
  x := .finite 0
  y := .finite 0
  z := .finite 0
  e := .finite 0
  f := .finite 0
  relative := false

/-- A layer, with six coordinates for each segment. -/
structure Layer where
  vertex : List Number
  z : Number
  six : 6 ∣ vertex.length

/-- The variables of the first loop.  `built` are the layers that are done and `currentLayer`; there is none before the
first move. -/
structure Reader where
  state : State
  built : Option (List Layer × Layer)
  teLayer : List Number

/-- `layers`. -/
def Reader.layers (r : Reader) : List Layer := r.built.elim [] fun (done, currentLayer) => done ++ [currentLayer]

def Reader.start : Reader := ⟨State.start, none, []⟩

/-- The coordinates of a segment. -/
def segment (p1 p2 : State) : List Number := [p1.x, p1.y, p1.z, p2.x, p2.y, p2.z]

def Layer.push (l : Layer) (p1 p2 : State) : Layer where
  vertex := l.vertex ++ segment p1 p2
  z := l.z
  six := by
    rw [List.length_append]
    exact Nat.dvd_add l.six (Nat.dvd_refl 6)

def Reader.newLayer (r : Reader) (line : State) : Reader :=
  { r with built := some (r.layers, ⟨[], line.z, Nat.dvd_zero 6⟩) }

def Reader.addSegment (r : Reader) (extruding : Bool) (p1 p2 : State) : Reader :=
  let r := if r.built.isNone then r.newLayer p1 else r
  if extruding then
    { r with
      teLayer := r.teLayer ++ segment p1 p2
      built := r.built.map fun (done, currentLayer) => (done, currentLayer.push p1 p2) }
  else r

/-- `args`: the value of each key, in lower case. -/
abbrev Args := Char → Option Number

variable (round : ℚ → Number)

def State.delta (s : State) (v1 v2 : Number) : Number := if s.relative then v2 else v2.sub round v1

def State.absolute (s : State) (v1 v2 : Number) : Number := if s.relative then v1.add round v2 else v2

/-- The `line` of a move; it has no field `relative`. -/
def State.line (s : State) (args : Args) : State where
  x := (args 'x').elim s.x (s.absolute round s.x)
  y := (args 'y').elim s.y (s.absolute round s.y)
  z := (args 'z').elim s.z (s.absolute round s.z)
  e := (args 'e').elim s.e (s.absolute round s.e)
  f := (args 'f').elim s.f (s.absolute round s.f)
  relative := false

/-- `line.extruding`. -/
def State.extrudes (s line : State) : Bool := (Number.finite 0).lt (s.delta round s.e line.e)

/-- G0 and G1. -/
def Reader.move (r : Reader) (text : List Char) (args : Args) : Reader :=
  if "X10.".toList <:+: text then r
  else
    let line := r.state.line round args
    let extruding := r.state.extrudes round line
    let sameLayer := r.built.any fun (_, currentLayer) => line.z.eq currentLayer.z
    let r' := if extruding && !sameLayer then r.newLayer line else r
    { r'.addSegment extruding r.state line with state := line }

/-- G92. -/
def State.setPosition (s : State) (args : Args) : State where
  x := (args 'x').getD s.x
  y := (args 'y').getD s.y
  z := (args 'z').getD s.z
  e := (args 'e').getD s.e
  f := s.f
  relative := s.relative

/-- One token of the arguments. -/
def readArg (args : Args) : List Char → Args
  | [] => args
  | c :: value => Function.update args c.toLower (some (parseFloat round value))

/-- The command and the arguments of a line. -/
def readTokens (text : List Char) : List Char × Args :=
  let tokens := text.splitOn ' '
  ((tokens.headD []).map Char.toUpper, tokens.tail.foldl (readArg round) fun _ => none)

/-- One line. -/
def Reader.readLine (r : Reader) (text : List Char) : Reader :=
  let (cmd, args) := readTokens round text
  if cmd = "G0".toList ∨ cmd = "G1".toList then r.move round text args
  else if cmd = "G90".toList then { r with state := { r.state with relative := false } }
  else if cmd = "G91".toList then { r with state := { r.state with relative := false } }
  else if cmd = "G92".toList then { r with state := r.state.setPosition args }
  else r

/-- The characters that `.` does not match. -/
def isLineTerminator (c : Char) : Bool := c ∈ ['\n', '\r', '\u2028', '\u2029']

/-- `data.replace(/;.+/g, '')`; the flag says that a comment has begun. -/
def stripComments : Bool → List Char → List Char
  | _, [] => []
  | true, c :: data => if isLineTerminator c then c :: stripComments false data else stripComments true data
  | false, c :: data =>
    if c = ';' ∧ data.head?.any (!isLineTerminator ·) then stripComments true data else c :: stripComments false data

/-- The first loop of `parse`. -/
def readLayers (data : List Char) : Reader :=
  ((stripComments false data).splitOn '\n').foldl (Reader.readLine round) Reader.start

end Reader

/-! ## The layers -/

section Layers

variable (round : ℚ → Number)

theorem Reader.move_state (r : Reader) {text : List Char} (args : Args) (htext : ¬ "X10.".toList <:+: text) :
    (r.move round text args).state = r.state.line round args := by
  rw [move, if_neg htext]

/-- A move that does not extrude begins the first layer, which stays empty. -/
theorem Reader.move_idle (r : Reader) {text : List Char} {args : Args} (htext : ¬ "X10.".toList <:+: text)
    (hidle : r.state.extrudes round (r.state.line round args) = false) :
    (r.move round text args).teLayer = r.teLayer ∧
      ((r.move round text args).layers = r.layers ∨
        r.layers = [] ∧ (r.move round text args).layers = [⟨[], r.state.z, Nat.dvd_zero 6⟩]) := by
  rw [move, if_neg htext]
  simp only [hidle, Bool.false_and, Bool.false_eq_true, if_false, addSegment]
  cases hbuilt : r.built with
  | none => simp [newLayer, layers, hbuilt]
  | some b => simp [layers, hbuilt]

/-- A move that extrudes puts its segment into a layer of its own end height: the current one or a new one. -/
theorem Reader.move_extrudes (r : Reader) {text : List Char} {args : Args} (htext : ¬ "X10.".toList <:+: text)
    (hextrudes : r.state.extrudes round (r.state.line round args) = true) :
    (r.move round text args).teLayer = r.teLayer ++ segment r.state (r.state.line round args) ∧
      ∃ done layer, (r.move round text args).layers = done ++ [layer.push r.state (r.state.line round args)] ∧
        layer.z = (r.state.line round args).z ∧ (r.layers = done ++ [layer] ∨ r.layers = done ∧ layer.vertex = []) := by
  rw [move, if_neg htext]
  simp only [hextrudes, Bool.true_and, addSegment]
  cases hbuilt : r.built with
  | none =>
    refine ⟨by simp [newLayer], [], ⟨[], _, Nat.dvd_zero 6⟩, ?_, rfl, Or.inr ⟨?_, rfl⟩⟩
    · simp [newLayer, layers, hbuilt]
    · simp [layers, hbuilt]
  | some b =>
    obtain ⟨done, layer⟩ := b
    cases hsame : (r.state.line round args).z.eq layer.z with
    | false =>
      refine ⟨by simp [hsame, newLayer], r.layers, ⟨[], _, Nat.dvd_zero 6⟩, ?_, rfl, Or.inr ⟨rfl, rfl⟩⟩
      simp [hsame, newLayer, layers]
    | true =>
      have hz : (r.state.line round args).z = layer.z := (Number.eq_iff.mp hsame).2
      refine ⟨by simp [hsame, hbuilt], done, layer, ?_, hz.symm, Or.inl ?_⟩
      · simp [hsame, layers, hbuilt]
      · simp [layers, hbuilt]

/-- The layers hold the extruding moves, and only the first can be empty. -/
structure Collected (r : Reader) : Prop where
  vertices : r.layers.flatMap Layer.vertex = r.teLayer
  tail : ∀ layer ∈ r.layers.tail, layer.vertex ≠ []

theorem mem_tail_concat {α : Type*} {l : List α} {a b : α} : b ∈ (l ++ [a]).tail ↔ b ∈ l.tail ∨ l ≠ [] ∧ b = a := by
  cases l <;> simp

theorem Layer.push_ne_nil (l : Layer) (p1 p2 : State) : (l.push p1 p2).vertex ≠ [] := by
  simp [push, segment]

theorem Collected.move {r : Reader} (h : Collected r) (text : List Char) (args : Args) :
    Collected (r.move round text args) := by
  by_cases htext : "X10.".toList <:+: text
  · rw [Reader.move, if_pos htext]
    exact h
  · cases hextrudes : r.state.extrudes round (r.state.line round args) with
    | false =>
      obtain ⟨hte, hlayers | ⟨hnil, hlayers⟩⟩ := r.move_idle round htext hextrudes
      · exact ⟨by rw [hlayers, hte, h.vertices], by rw [hlayers]; exact h.tail⟩
      · have hvertices := h.vertices
        rw [hnil] at hvertices
        exact ⟨by rw [hlayers, hte, ← hvertices]; rfl, by simp [hlayers]⟩
    | true =>
      obtain ⟨hte, done, layer, hlayers, -, hold⟩ := r.move_extrudes round htext hextrudes
      have hvertices : done.flatMap Layer.vertex ++ layer.vertex = r.teLayer := by
        rcases hold with hold | ⟨hold, hempty⟩
        · simp [← h.vertices, hold]
        · simp [← h.vertices, hold, hempty]
      have htail : ∀ l ∈ done.tail, l.vertex ≠ [] := by
        intro l hl
        refine h.tail l ?_
        rcases hold with hold | ⟨hold, -⟩
        · rw [hold, mem_tail_concat]
          exact Or.inl hl
        · rwa [hold]
      refine ⟨?_, ?_⟩
      · rw [hlayers, hte, ← hvertices]
        simp [Layer.push]
      · intro l hl
        rw [hlayers, mem_tail_concat] at hl
        rcases hl with hl | ⟨-, rfl⟩
        · exact htail l hl
        · exact layer.push_ne_nil _ _

theorem Collected.readLine {r : Reader} (h : Collected r) (text : List Char) : Collected (r.readLine round text) := by
  rw [Reader.readLine]
  dsimp only
  split_ifs
  · exact h.move round text _
  all_goals exact ⟨h.vertices, h.tail⟩

theorem readLayers_collected (data : List Char) : Collected (readLayers round data) := by
  rw [readLayers]
  generalize (stripComments false data).splitOn '\n' = lines
  induction lines using List.reverseRecOn with
  | nil => exact ⟨rfl, by simp [Reader.start, Reader.layers]⟩
  | append_singleton lines line ih =>
    rw [List.foldl_append]
    exact ih.readLine round line

end Layers

/-! ## The buffers -/

section Buffers

/-- `tModelSize`, for the length of `teLayer`. -/
def tModelSize (modelSize : Option Number) (teLength : ℕ) : ℕ :=
  match modelSize with
  | none => if 100000 < teLength then 5 else 1
  | some m =>
    let between (a b : ℚ) : Bool := (Number.finite a).lt m && m.le (.finite b)
    if between 0 10 then if 100000 < teLength then 5 else 1
    else if between 10 50 then 10
    else if between 50 100 then 15
    else if between 100 200 then 20
    else if between 200 300 then 25
    else if between 300 500 then 30
    else if (Number.finite 500).lt m then 40
    else 1

/-- `flagTag` after `k` comparisons; `none` where a layer that is not there is looked at, which throws. -/
def flagTag : (k : ℕ) → List Layer → Option ℕ
  | 0, _ => some 0
  | k + 1, a :: b :: layers => if a.z.lt b.z then flagTag k (b :: layers) else some 2
  | _ + 1, _ => none

/-- `_tempDate` with its key. -/
structure Range where
  key : Option Number
  start : ℕ
  stop : ℕ

/-- The variables of the second loop.  `owner` is not in the source: the place in `layers` of the layer that each vertex
is taken from. -/
@[ext]
structure Buffers where
  vertexs : List Number
  colors : List ℚ
  alphs : List ℚ
  owner : List ℕ
  z : Option Number
  indexGcodeData : List Range
  startIndex : ℕ
  endIndex : ℕ

def Buffers.start : Buffers := ⟨[], [], [], [], none, [], 0, 0⟩

/-- The body of the loops over `layerVertex`. -/
def Buffers.pushCoordinate (b : Buffers) (v : Number × ℕ) : Buffers :=
  { b with
    vertexs := b.vertexs ++ [v.1]
    colors := b.colors ++ [0.48]
    alphs := if v.2 % 6 = 0 then b.alphs ++ [1.0] else b.alphs }

/-- One of the three branches that write a layer. -/
def Buffers.pushLayer (b : Buffers) (layer : Layer) (i : ℕ) : Buffers :=
  { layer.vertex.zipIdx.foldl Buffers.pushCoordinate b with
    z := some layer.z
    owner := b.owner ++ List.replicate (layer.vertex.length / 3) i }

/-- The end of the body: the range of the vertices, entered where the height has none. -/
def Buffers.enter (b : Buffers) (layerVertex : List Number) : Buffers :=
  let endIndex := b.endIndex + layerVertex.length / 3
  let tempDate : Range := ⟨b.z, b.startIndex, endIndex⟩
  let findIndex := b.indexGcodeData.any fun r => r.key = b.z
  { b with
    indexGcodeData := if findIndex then b.indexGcodeData else b.indexGcodeData ++ [tempDate]
    startIndex := endIndex
    endIndex }

/-- The body of the second loop, for the layer at `i`. -/
def Buffers.step (count flagTag tModelSize : ℕ) (b : Buffers) (p : Layer × ℕ) : Buffers :=
  let (layer, i) := p
  let kept : Bool := i = flagTag ∨ i % tModelSize = 0
  let last : Bool := i + 1 = count
  let b := if kept then b.pushLayer layer i else b
  let b := if last then b.pushLayer layer i else b
  b.enter (if kept || last then layer.vertex else [])

/-- The second loop of `parse`. -/
def fillBuffers (layers : List Layer) (flagTag tModelSize : ℕ) : Buffers :=
  (layers.zipIdx.drop flagTag).foldl (Buffers.step layers.length flagTag tModelSize) Buffers.start

/-- `parse`; `none` where it throws. -/
def parse (round : ℚ → Number) (data : List Char) (modelSize : Option Number) : Option Buffers :=
  let r := readLayers round data
  (flagTag 5 r.layers).map fun flag => fillBuffers r.layers flag (tModelSize modelSize r.teLayer.length)

end Buffers

end Cxsw.Worker
