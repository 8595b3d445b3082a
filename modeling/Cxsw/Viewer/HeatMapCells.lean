import Cxsw.Viewer.HeatMap

/-!
# Cxsw.Viewer.HeatMapCells — the cell under the pointer (`3d-lib/src/managers/heatMapManager.ts`)

`onMouseUp` and `onTouchEnd` look up the value of the cell under the pointer by comparing its position with multiples of
the size of a cell, row by row and column by column.  Position and size are first rounded to hundredths.

Each branch of the source stays a branch here; the handlers share those that are the same text.  The comparisons are
made in exact arithmetic, which agrees with the one in double precision on hundredths.

* `lookup3_eq`, `lookup4_eq`, `lookup5_eq`: what the branches look up, by the borders that lie before the position.
* `dispatchHeatMap_iff`: when both handlers dispatch the value of the cell that contains the pointer.
* `five_rows_differ`: with 5 rows the mouse gets 0, and in landscape a touch the value of another column.
-/

namespace Cxsw.HeatMap

open Js

/-! ## The code -/

section Lookup

/-- The branches of a row of three cells. -/
def columns3 (w x : ℚ) (a b c offset : Option ℚ) : Option ℚ :=
  if x ≤ w then a
  else if x > w ∧ x ≤ w * 2 then b
  else if x > w * 2 ∧ x ≤ w * 3 then c
  else if x > w * 3 then c
  else offset

/-- The branches of a row of four cells. -/
def columns4 (w x : ℚ) (a b c d offset : Option ℚ) : Option ℚ :=
  if x ≤ w then a
  else if x > w ∧ x ≤ w * 2 then b
  else if x > w * 2 ∧ x ≤ w * 3 then c
  else if x > w * 3 ∧ x ≤ w * 4 then d
  else if x > w * 4 then d
  else offset

/-- The branches of the first row of four cells: the second begins at the border. -/
def firstColumns4 (w x : ℚ) (a b c d offset : Option ℚ) : Option ℚ :=
  if x ≤ w then a
  else if x ≥ w ∧ x ≤ w * 2 then b
  else if x > w * 2 ∧ x ≤ w * 3 then c
  else if x > w * 3 ∧ x ≤ w * 4 then d
  else if x > w * 4 then d
  else offset

/-- The branches of a row of five cells. -/
def columns5 (w x : ℚ) (a b c d e offset : Option ℚ) : Option ℚ :=
  if x ≤ w then a
  else if x > w ∧ x ≤ w * 2 then b
  else if x > w * 2 ∧ x ≤ w * 3 then c
  else if x > w * 3 ∧ x ≤ w * 4 then d
  else if x > w * 4 ∧ x ≤ w * 5 then e
  else if x > w * 5 then e
  else offset

/-- The branches of the first row of five cells. -/
def firstColumns5 (w x : ℚ) (a b c d e offset : Option ℚ) : Option ℚ :=
  if x ≤ w then a
  else if x ≥ w ∧ x ≤ w * 2 then b
  else if x > w * 2 ∧ x ≤ w * 3 then c
  else if x > w * 3 ∧ x ≤ w * 4 then d
  else if x > w * 4 ∧ x ≤ w * 5 then e
  else if x > w * 5 then e
  else offset

variable (t w y x : ℚ) (tnewData : List ℚ) (offset : Option ℚ)

/-- `case 3` of both handlers: `temValue`, the width of a column, `currentY` and `currentX`. -/
def lookup3 : Option ℚ :=
  let d := fun i => tnewData[i]?
  if y ≤ t then columns3 w x (d 0) (d 1) (d 2) offset
  else if y > t ∧ y ≤ t * 2 then columns3 w x (d 3) (d 4) (d 5) offset
  else if y > t * 2 ∧ y < t * 3 then columns3 w x (d 6) (d 7) (d 8) offset
  else if y ≥ t * 3 then columns3 w x (d 6) (d 7) (d 8) offset
  else offset

/-- `case 4` of both handlers. -/
def lookup4 : Option ℚ :=
  let d := fun i => tnewData[i]?
  if y ≤ t then firstColumns4 w x (d 0) (d 1) (d 2) (d 3) offset
  else if y > t ∧ y ≤ t * 2 then columns4 w x (d 4) (d 5) (d 6) (d 7) offset
  else if y > t * 2 ∧ y ≤ t * 3 then columns4 w x (d 8) (d 9) (d 10) (d 11) offset
  else if y > t * 3 ∧ y < t * 4 then columns4 w x (d 12) (d 13) (d 14) (d 15) offset
  else if y ≥ t * 4 then columns4 w x (d 12) (d 13) (d 14) (d 15) offset
  else offset

/-- `case 5` of `onTouchEnd`. -/
def lookup5 : Option ℚ :=
  let d := fun i => tnewData[i]?
  if y ≤ t then firstColumns5 w x (d 0) (d 1) (d 2) (d 3) (d 4) offset
  else if y > t ∧ y ≤ t * 2 then columns5 w x (d 5) (d 6) (d 7) (d 8) (d 9) offset
  else if y > t * 2 ∧ y ≤ t * 3 then columns5 w x (d 10) (d 11) (d 12) (d 13) (d 14) offset
  else if y > t * 3 ∧ y < t * 4 then columns5 w x (d 15) (d 16) (d 17) (d 18) (d 19) offset
  else if y ≥ t * 4 then columns5 w x (d 20) (d 21) (d 22) (d 23) (d 24) offset
  else offset

end Lookup

section Handlers

/-- What `MSG_TOUCH_GET_COORDINATES` is dispatched with; an offset that is `undefined` is `none`. -/
structure Coordinates where
  x : Fixed
  y : Fixed
  offset : Option ℚ
  deriving DecidableEq

structure MouseEvent where
  button : ℕ
  x : ℚ
  y : ℚ
  clientX : ℚ
  clientY : ℚ

structure Touch where
  clientX : ℚ
  clientY : ℚ

/-- The size of a cell: `parseFloat((length/this._tempLen).toFixed(2))`. -/
def cellSize (length : ℚ) (tempLen : ℕ) : ℚ := (toFixed 2 (length / tempLen)).value 2

namespace Manager

variable (m : Manager)

/-- `currentX` before it is rounded. -/
def pointerX (clientX : ℚ) : ℚ := (clientX - m.left) / 2

/-- `currentY` before it is rounded. -/
def pointerY (clientY : ℚ) : ℚ := 220 - (clientY - m.top) / 2

/-- `onMouseUp`, with the point where the button was pressed: what is dispatched, and that point after the call. -/
def onMouseUp (mouseDownPoint : ℚ × ℚ) (event : MouseEvent) : Option Coordinates × (ℚ × ℚ) :=
  if event.button ≠ 0 then (none, mouseDownPoint)
  else if (event.x - mouseDownPoint.1) ^ 2 + (event.y - mouseDownPoint.2) ^ 2 > (1 / 2) ^ 2 then (none, mouseDownPoint)
  else
    let currentX := toFixed 2 (m.pointerX event.clientX)
    let currentY := toFixed 2 (m.pointerY event.clientY)
    let x := currentX.value 2
    let y := currentY.value 2
    let temValue := cellSize 220 m.tempLen
    let offset :=
      if m.portrait then
        match m.tempLen with
        | 3 => lookup3 temValue temValue y x m.tnewData (some 0)
        | 4 => lookup4 temValue temValue y x m.tnewData (some 0)
        | _ => some 0
      else
        let lemValue := cellSize 293 m.tempLen
        match m.tempLen with
        | 3 => lookup3 temValue lemValue y x m.tnewData (some 0)
        | 4 => lookup4 temValue lemValue y x m.tnewData (some 0)
        | _ => some 0
    (some ⟨currentX, currentY, offset⟩, (0, 0))

/-- `onTouchEnd`.  Five columns are compared with `temValue` also in landscape. -/
def onTouchEnd (changedTouches : List Touch) : Option Coordinates :=
  match changedTouches with
  | [] => none
  | touch :: _ =>
    let currentX := toFixed 2 (m.pointerX touch.clientX)
    let currentY := toFixed 2 (m.pointerY touch.clientY)
    let x := currentX.value 2
    let y := currentY.value 2
    let temValue := cellSize 220 m.tempLen
    let offset :=
      if m.portrait then
        match m.tempLen with
        | 3 => lookup3 temValue temValue y x m.tnewData (some 0)
        | 4 => lookup4 temValue temValue y x m.tnewData (some 0)
        | 5 => lookup5 temValue temValue y x m.tnewData (some 0)
        | _ => some 0
      else
        let lemValue := cellSize 293 m.tempLen
        match m.tempLen with
        | 3 => lookup3 temValue lemValue y x m.tnewData (some 0)
        | 4 => lookup4 temValue lemValue y x m.tnewData (some 0)
        | 5 => lookup5 temValue temValue y x m.tnewData (some 0)
        | _ => some 0
    some ⟨currentX, currentY, offset⟩

end Manager

end Handlers

/-! ## The cells -/

section Cells

/-- The cell `k` of `n` lies between its two borders, where `before k` is that the lower border of cell `k` lies before
the position; the first and the last cell have one border only. -/
structure InCell (n : ℕ) (before : ℕ → Prop) (k : ℕ) : Prop where
  lt : k < n
  lower : k = 0 ∨ before k
  upper : k + 1 = n ∨ ¬ before (k + 1)

/-- The borders before a position, cells of the size `w` being closed above. -/
def Above (w x : ℚ) (k : ℕ) : Prop := k * w < x

/-- The rows of `case 5`: the last is closed below. -/
def AboveRow5 (t y : ℚ) (k : ℕ) : Prop := if k = 4 then 4 * t ≤ y else k * t < y

/-- The cell `k` of `n` of the size `w` contains the position; the first and the last go on beyond the grid, and a
border belongs to both cells. -/
structure Contains (n : ℕ) (w x : ℚ) (k : ℕ) : Prop where
  lt : k < n
  lower : k = 0 ∨ k * w ≤ x
  upper : k + 1 = n ∨ x ≤ (k + 1) * w

theorem exists_inCell {n : ℕ} (hn : 0 < n) (before : ℕ → Prop) : ∃ k, InCell n before k := by
  induction n with
  | zero => exact absurd hn (Nat.lt_irrefl 0)
  | succ n ih =>
    by_cases hzero : n = 0
    · subst hzero
      exact ⟨0, Nat.one_pos, Or.inl rfl, Or.inl rfl⟩
    · by_cases hlast : before n
      · exact ⟨n, Nat.lt_succ_self n, Or.inr hlast, Or.inl rfl⟩
      · obtain ⟨k, hk⟩ := ih (Nat.pos_of_ne_zero hzero)
        refine ⟨k, hk.lt.trans (Nat.lt_succ_self n), hk.lower, Or.inr ?_⟩
        rcases hk.upper with hend | hupper
        · rwa [hend]
        · exact hupper

variable {t w y x : ℚ} {offset : Option ℚ} {k r c : ℕ} {tnewData : List ℚ}

theorem columns3_eq (hw : 0 < w) (a : ℕ → Option ℚ) (h : InCell 3 (Above w x) k) :
    columns3 w x (a 0) (a 1) (a 2) offset = a k := by
  obtain ⟨hlt, hlower, hupper⟩ := h
  unfold Above at hlower hupper
  unfold columns3
  interval_cases k <;> simp at hlower hupper <;> grind

theorem columns4_eq (hw : 0 < w) (a : ℕ → Option ℚ) (h : InCell 4 (Above w x) k) :
    columns4 w x (a 0) (a 1) (a 2) (a 3) offset = a k := by
  obtain ⟨hlt, hlower, hupper⟩ := h
  unfold Above at hlower hupper
  unfold columns4
  interval_cases k <;> simp at hlower hupper <;> grind

theorem columns5_eq (hw : 0 < w) (a : ℕ → Option ℚ) (h : InCell 5 (Above w x) k) :
    columns5 w x (a 0) (a 1) (a 2) (a 3) (a 4) offset = a k := by
  obtain ⟨hlt, hlower, hupper⟩ := h
  unfold Above at hlower hupper
  unfold columns5
  interval_cases k <;> simp at hlower hupper <;> grind

/-- At the border the first branch has been taken, so that it is no difference that the second begins there. -/
theorem firstColumns4_eq (a b c d : Option ℚ) :
    firstColumns4 w x a b c d offset = columns4 w x a b c d offset := by
  unfold firstColumns4 columns4
  by_cases hx : x ≤ w
  · rw [if_pos hx, if_pos hx]
  · have hiff : x ≥ w ↔ x > w := ⟨fun _ => not_le.mp hx, le_of_lt⟩
    rw [if_neg hx, if_neg hx]
    exact if_congr (and_congr_left' hiff) rfl rfl

theorem firstColumns5_eq (a b c d e : Option ℚ) :
    firstColumns5 w x a b c d e offset = columns5 w x a b c d e offset := by
  unfold firstColumns5 columns5
  by_cases hx : x ≤ w
  · rw [if_pos hx, if_pos hx]
  · have hiff : x ≥ w ↔ x > w := ⟨fun _ => not_le.mp hx, le_of_lt⟩
    rw [if_neg hx, if_neg hx]
    exact if_congr (and_congr_left' hiff) rfl rfl

theorem lookup3_eq (ht : 0 < t) (hw : 0 < w) (hr : InCell 3 (Above t y) r) (hc : InCell 3 (Above w x) c) :
    lookup3 t w y x tnewData offset = tnewData[3 * r + c]? := by
  have hcolumns : ∀ i, columns3 w x tnewData[i + 0]? tnewData[i + 1]? tnewData[i + 2]? offset = tnewData[i + c]? :=
    fun i => columns3_eq hw (fun c => tnewData[i + c]?) hc
  obtain ⟨hlt, hlower, hupper⟩ := hr
  unfold Above at hlower hupper
  unfold lookup3
  simp only [← hcolumns]
  interval_cases r <;> simp at hlower hupper <;> grind

theorem lookup4_eq (ht : 0 < t) (hw : 0 < w) (hr : InCell 4 (Above t y) r) (hc : InCell 4 (Above w x) c) :
    lookup4 t w y x tnewData offset = tnewData[4 * r + c]? := by
  have hcolumns : ∀ i, columns4 w x tnewData[i + 0]? tnewData[i + 1]? tnewData[i + 2]? tnewData[i + 3]? offset =
      tnewData[i + c]? :=
    fun i => columns4_eq hw (fun c => tnewData[i + c]?) hc
  obtain ⟨hlt, hlower, hupper⟩ := hr
  unfold Above at hlower hupper
  unfold lookup4
  simp only [← hcolumns, firstColumns4_eq]
  interval_cases r <;> simp at hlower hupper <;> grind

theorem lookup5_eq (ht : 0 < t) (hw : 0 < w) (hr : InCell 5 (AboveRow5 t y) r) (hc : InCell 5 (Above w x) c) :
    lookup5 t w y x tnewData offset = tnewData[5 * r + c]? := by
  have hcolumns : ∀ i, columns5 w x tnewData[i + 0]? tnewData[i + 1]? tnewData[i + 2]? tnewData[i + 3]?
      tnewData[i + 4]? offset = tnewData[i + c]? :=
    fun i => columns5_eq hw (fun c => tnewData[i + c]?) hc
  obtain ⟨hlt, hlower, hupper⟩ := hr
  unfold AboveRow5 at hlower hupper
  unfold lookup5
  simp only [← hcolumns, firstColumns5_eq]
  interval_cases r <;> simp at hlower hupper <;> grind

end Cells

/-! ## What is dispatched -/

section Dispatch

/-- The width of the grid. -/
def gridWidth (portrait : Bool) : ℚ := if portrait then 220 else 293

/-- A cell that contains the pointer has the value `v`. -/
def CellValue (g : Grid) (portrait : Bool) (x y v : ℚ) : Prop :=
  ∃ r c, Contains g.side (220 / g.side) y r ∧ Contains g.side (gridWidth portrait / g.side) x c ∧
    g.values[g.side * r + c]? = some v

/-- The cell of the position and the sizes that are rounded. -/
def RoundedCell (n : ℕ) (portrait : Bool) (x y : ℚ) (r c : ℕ) : Prop :=
  InCell n (Above (cellSize 220 n) ((toFixed 2 y).value 2)) r ∧
    InCell n (Above (cellSize (gridWidth portrait) n) ((toFixed 2 x).value 2)) c

/-- The cell that is looked up with five rows: the columns are as wide as the rows high. -/
def TouchCell5 (x y : ℚ) (r c : ℕ) : Prop :=
  InCell 5 (AboveRow5 44 ((toFixed 2 y).value 2)) r ∧ InCell 5 (Above 44 ((toFixed 2 x).value 2)) c

/-- The positions that are looked up right.  With 3 or 4 rows the rounded cell has the value of one that contains the
pointer; with 5 and 6 rows, where the mouse gets 0, the value is 0, and with 5 also that of the cell looked up. -/
def LookedUp (g : Grid) (portrait : Bool) (x y : ℚ) : Prop :=
  if g.side ≤ 4 then ∃ r c v, RoundedCell g.side portrait x y r c ∧ g.values[g.side * r + c]? = some v ∧
    CellValue g portrait x y v
  else (g.side = 5 → ∃ r c, TouchCell5 x y r c ∧ g.values[5 * r + c]? = some 0) ∧ CellValue g portrait x y 0

/-- A click without movement and a touch at one place. -/
def Agree (m : Manager) (g : Grid) (clientX clientY : ℚ) : Prop :=
  ∀ x y, ∃ mouse touch v, (m.onMouseUp (x, y) ⟨0, x, y, clientX, clientY⟩).1 = some mouse ∧
    m.onTouchEnd [⟨clientX, clientY⟩] = some touch ∧ mouse.offset = some v ∧ touch.offset = some v ∧
    CellValue g m.portrait (m.pointerX clientX) (m.pointerY clientY) v

/-- The manager holds the grid. -/
structure Holds (m : Manager) (g : Grid) : Prop where
  tempLen : m.tempLen = g.side
  tnewData : m.tnewData = g.values

theorem createHeatMap_holds {page : Page} {product : ℚ → ℚ → ℚ} {text : NumberText} {m m' : Manager}
    {dataObj dataObj' : DataObj} (h : createHeatMap page product text m dataObj = some (m', dataObj')) :
    Holds m' dataObj.threeData ∧ m'.left = dataObj.elementLeft ∧ m'.top = dataObj.elementTop ∧
      m'.portrait = dataObj.portrait := by
  have hload : Holds (m.load dataObj) dataObj.threeData := ⟨rfl, copyRows_eq dataObj.threeData⟩
  unfold createHeatMap at h
  dsimp only at h
  split_ifs at h
  · simp only [Option.some.injEq, Prod.mk.injEq] at h
    rw [← h.1]
    exact ⟨hload, rfl, rfl, rfl⟩
  · simp only [Option.some.injEq, Prod.mk.injEq] at h
    rw [← h.1]
    exact ⟨hload, rfl, rfl, rfl⟩
  · obtain ⟨colors, -, hrest⟩ := Option.bind_eq_some_iff.mp h
    cases hgroup : (m.load dataObj).temGroup with
    | none =>
      simp only [hgroup, Option.some.injEq, Prod.mk.injEq] at hrest
      rw [← hrest.1]
      exact ⟨hload, rfl, rfl, rfl⟩
    | some meshes =>
      simp only [hgroup, Option.some.injEq, Prod.mk.injEq] at hrest
      rw [← hrest.1]
      exact ⟨⟨rfl, copyRows_eq dataObj.threeData⟩, rfl, rfl, rfl⟩

theorem cellSize_values :
    cellSize 220 3 = 7333 / 100 ∧ cellSize 220 4 = 55 ∧ cellSize 220 5 = 44 ∧ cellSize 293 3 = 9767 / 100 ∧
      cellSize 293 4 = 293 / 4 := by decide +kernel

variable {m : Manager} {g : Grid} {clientX clientY : ℚ} {r c : ℕ}

/-- A click without movement is dispatched. -/
theorem onMouseUp_click (m : Manager) (x y clientX clientY : ℚ) :
    (m.onMouseUp (x, y) ⟨0, x, y, clientX, clientY⟩).1 =
      some ⟨toFixed 2 (m.pointerX clientX), toFixed 2 (m.pointerY clientY),
        let t := cellSize 220 m.tempLen
        let w := if m.portrait then t else cellSize 293 m.tempLen
        match m.tempLen with
        | 3 => lookup3 t w ((toFixed 2 (m.pointerY clientY)).value 2) ((toFixed 2 (m.pointerX clientX)).value 2)
          m.tnewData (some 0)
        | 4 => lookup4 t w ((toFixed 2 (m.pointerY clientY)).value 2) ((toFixed 2 (m.pointerX clientX)).value 2)
          m.tnewData (some 0)
        | _ => some 0⟩ := by
  have hmoved : ¬ (x - x) ^ 2 + (y - y) ^ 2 > ((1 : ℚ) / 2) ^ 2 := by norm_num
  unfold Manager.onMouseUp
  simp only [ne_eq, not_true_eq_false, if_false, hmoved]
  cases m.portrait <;> simp

theorem onTouchEnd_touch (m : Manager) (clientX clientY : ℚ) :
    m.onTouchEnd [⟨clientX, clientY⟩] =
      some ⟨toFixed 2 (m.pointerX clientX), toFixed 2 (m.pointerY clientY),
        let t := cellSize 220 m.tempLen
        let w := if m.portrait then t else cellSize 293 m.tempLen
        match m.tempLen with
        | 3 => lookup3 t w ((toFixed 2 (m.pointerY clientY)).value 2) ((toFixed 2 (m.pointerX clientX)).value 2)
          m.tnewData (some 0)
        | 4 => lookup4 t w ((toFixed 2 (m.pointerY clientY)).value 2) ((toFixed 2 (m.pointerX clientX)).value 2)
          m.tnewData (some 0)
        | 5 => lookup5 t t ((toFixed 2 (m.pointerY clientY)).value 2) ((toFixed 2 (m.pointerX clientX)).value 2)
          m.tnewData (some 0)
        | _ => some 0⟩ := by
  unfold Manager.onTouchEnd
  cases m.portrait <;> simp

/-- Three and four rows: both handlers look up the rounded cell. -/
theorem lookup_rounded (h : Holds m g) (hside : g.side ≤ 4)
    (hcell : RoundedCell g.side m.portrait (m.pointerX clientX) (m.pointerY clientY) r c) (x y : ℚ) :
    ((m.onMouseUp (x, y) ⟨0, x, y, clientX, clientY⟩).1.map Coordinates.offset = some (g.values[g.side * r + c]?)) ∧
      (m.onTouchEnd [⟨clientX, clientY⟩]).map Coordinates.offset = some (g.values[g.side * r + c]?) := by
  have hthree := g.three_le
  obtain ⟨ht3, ht4, -, hw3, hw4⟩ := cellSize_values
  rw [onMouseUp_click, onTouchEnd_touch]
  simp only [Option.map_some, h.tempLen, h.tnewData, Option.some.injEq]
  obtain ⟨hr, hc⟩ := hcell
  have hwidth : (if m.portrait = true then cellSize 220 g.side else cellSize 293 g.side) =
      cellSize (gridWidth m.portrait) g.side := by
    unfold gridWidth
    split_ifs <;> rfl
  rw [hwidth]
  generalize g.side = n at *
  interval_cases n
  · have hw : 0 < cellSize (gridWidth m.portrait) 3 := by
      unfold gridWidth
      split_ifs <;> norm_num [ht3, hw3]
    have hlook : lookup3 _ _ _ _ g.values (some 0) = g.values[3 * r + c]? :=
      lookup3_eq (by norm_num [ht3]) hw hr hc
    exact ⟨hlook, hlook⟩
  · have hw : 0 < cellSize (gridWidth m.portrait) 4 := by
      unfold gridWidth
      split_ifs <;> norm_num [ht4, hw4]
    have hlook : lookup4 _ _ _ _ g.values (some 0) = g.values[4 * r + c]? :=
      lookup4_eq (by norm_num [ht4]) hw hr hc
    exact ⟨hlook, hlook⟩

/-- With five and six rows the mouse gets 0. -/
theorem mouse_zero (h : Holds m g) (hside : 4 < g.side) (x y clientX clientY : ℚ) :
    (m.onMouseUp (x, y) ⟨0, x, y, clientX, clientY⟩).1.map Coordinates.offset = some (some 0) := by
  have hsix := g.le_six
  rw [onMouseUp_click]
  simp only [Option.map_some, h.tempLen]
  generalize g.side = n at *
  interval_cases n <;> rfl

theorem touch_five (h : Holds m g) (hside : g.side = 5)
    (hcell : TouchCell5 (m.pointerX clientX) (m.pointerY clientY) r c) :
    (m.onTouchEnd [⟨clientX, clientY⟩]).map Coordinates.offset = some (g.values[5 * r + c]?) := by
  have ht := cellSize_values.2.2.1
  have hlook : lookup5 44 44 _ _ g.values (some 0) = g.values[5 * r + c]? :=
    lookup5_eq (by norm_num) (by norm_num) hcell.1 hcell.2
  rw [onTouchEnd_touch]
  simp only [Option.map_some, h.tempLen, h.tnewData, hside, ht, hlook]

theorem touch_six (h : Holds m g) (hside : g.side = 6) (clientX clientY : ℚ) :
    (m.onTouchEnd [⟨clientX, clientY⟩]).map Coordinates.offset = some (some 0) := by
  rw [onTouchEnd_touch]
  simp only [Option.map_some, h.tempLen, hside]

/-- The property by the offsets that are dispatched. -/
theorem agree_iff_offsets {a b : Option ℚ}
    (hmouse : ∀ x y, (m.onMouseUp (x, y) ⟨0, x, y, clientX, clientY⟩).1.map Coordinates.offset = some a)
    (htouch : (m.onTouchEnd [⟨clientX, clientY⟩]).map Coordinates.offset = some b) :
    Agree m g clientX clientY ↔
      ∃ v, a = some v ∧ b = some v ∧ CellValue g m.portrait (m.pointerX clientX) (m.pointerY clientY) v := by
  constructor
  · intro h
    obtain ⟨mouse, touch, v, hcall, hcall', ha, hb, hv⟩ := h 0 0
    have hmouse' := hmouse 0 0
    rw [hcall, Option.map_some, Option.some.injEq] at hmouse'
    rw [hcall', Option.map_some, Option.some.injEq] at htouch
    exact ⟨v, by rw [← hmouse', ha], by rw [← htouch, hb], hv⟩
  · rintro ⟨v, rfl, rfl, hv⟩ x y
    obtain ⟨mouse, hcall, ha⟩ := Option.map_eq_some_iff.mp (hmouse x y)
    obtain ⟨touch, hcall', hb⟩ := Option.map_eq_some_iff.mp htouch
    exact ⟨mouse, touch, v, hcall, hcall', ha, hb, hv⟩

/-- Of the cells of a position each gives the same value, so that one that is right is enough. -/
theorem agree_iff (h : Holds m g) (clientX clientY : ℚ) :
    Agree m g clientX clientY ↔ LookedUp g m.portrait (m.pointerX clientX) (m.pointerY clientY) := by
  have hthree := g.three_le
  have hsix := g.le_six
  unfold LookedUp
  split_ifs with hside
  · constructor
    · intro hagree
      obtain ⟨r, hr⟩ := exists_inCell (show 0 < g.side by omega)
        (Above (cellSize 220 g.side) ((toFixed 2 (m.pointerY clientY)).value 2))
      obtain ⟨c, hc⟩ := exists_inCell (show 0 < g.side by omega)
        (Above (cellSize (gridWidth m.portrait) g.side) ((toFixed 2 (m.pointerX clientX)).value 2))
      have hlook := lookup_rounded h hside ⟨hr, hc⟩
      obtain ⟨v, hv, -, hcell⟩ := (agree_iff_offsets (fun x y => (hlook x y).1) (hlook 0 0).2).mp hagree
      exact ⟨r, c, v, ⟨hr, hc⟩, hv, hcell⟩
    · rintro ⟨r, c, v, hrounded, hv, hcell⟩
      have hlook := lookup_rounded h hside hrounded
      exact (agree_iff_offsets (fun x y => (hlook x y).1) (hlook 0 0).2).mpr ⟨v, hv, hv, hcell⟩
  · have hzero : ∀ x y, (m.onMouseUp (x, y) ⟨0, x, y, clientX, clientY⟩).1.map Coordinates.offset = some (some 0) :=
      fun x y => mouse_zero h (not_le.mp hside) x y clientX clientY
    by_cases hfive : g.side = 5
    · constructor
      · intro hagree
        obtain ⟨r, hr⟩ := exists_inCell (show 0 < 5 by omega) (AboveRow5 44 ((toFixed 2 (m.pointerY clientY)).value 2))
        obtain ⟨c, hc⟩ := exists_inCell (show 0 < 5 by omega) (Above 44 ((toFixed 2 (m.pointerX clientX)).value 2))
        obtain ⟨v, hv, hv', hcell⟩ := (agree_iff_offsets hzero (touch_five h hfive ⟨hr, hc⟩)).mp hagree
        rw [← Option.some.inj hv] at hv' hcell
        exact ⟨fun _ => ⟨r, c, ⟨hr, hc⟩, hv'⟩, hcell⟩
      · rintro ⟨htouch, hcell⟩
        obtain ⟨r, c, hrc, hv⟩ := htouch hfive
        exact (agree_iff_offsets hzero (touch_five h hfive hrc)).mpr ⟨0, rfl, hv, hcell⟩
    · have hsix' : g.side = 6 := by omega
      rw [agree_iff_offsets hzero (touch_six h hsix' clientX clientY)]
      constructor
      · rintro ⟨v, hv, -, hcell⟩
        rw [← Option.some.inj hv] at hcell
        exact ⟨fun h5 => absurd h5 hfive, hcell⟩
      · rintro ⟨-, hcell⟩
        exact ⟨0, rfl, rfl, hcell⟩

/-- **The cell under the pointer**: after the heat map has been made, mouse and touch dispatch the value of the cell
that contains the pointer exactly for the positions that are looked up right. -/
theorem dispatchHeatMap_iff {page : Page} {product : ℚ → ℚ → ℚ} {text : NumberText} {m m' : Manager}
    {dataObj dataObj' : DataObj} (h : createHeatMap page product text m dataObj = some (m', dataObj'))
    (clientX clientY : ℚ) :
    Agree m' dataObj.threeData clientX clientY ↔
      LookedUp dataObj.threeData dataObj.portrait ((clientX - dataObj.elementLeft) / 2)
        (220 - (clientY - dataObj.elementTop) / 2) := by
  obtain ⟨hholds, hleft, htop, hportrait⟩ := createHeatMap_holds h
  rw [agree_iff hholds, hportrait]
  unfold Manager.pointerX Manager.pointerY
  rw [hleft, htop]

/-- The heat map of the values 1 to 9. -/
def nineManager : Manager :=
  { emptyManager.load oneToNine with temGroup := some ([] ++ [meshOf (· * ·) oneToNine.threeData]) }

theorem dispatchHeatMap_iff_nine :
    createHeatMap ⟨true, true, true⟩ (· * ·) digitText emptyManager oneToNine =
        some (nineManager, { oneToNine with threeData := oneToNine.threeData.sortReverse digitText }) ∧
      (Agree nineManager oneToNine.threeData 20 400 ↔
        LookedUp oneToNine.threeData true ((20 - 0) / 2) (220 - (400 - 0) / 2)) := by
  have hcall := createHeatMap_complete (m := emptyManager) (· * ·) digitText rfl oneToNine
  exact ⟨hcall, dispatchHeatMap_iff hcall 20 400⟩

/-- 25 values, in landscape. -/
def oneToTwentyFive : DataObj :=
  ⟨0, 0, false, ⟨5, by decide, by decide, (List.range 25).map fun n => (n + 1 : ℚ), by decide⟩⟩

/-- With five rows the mouse gets 0, which is no value of the grid; the touch at (50, 0) gets the value of the second
column, though the first ends at 58.6. -/
theorem five_rows_differ :
    ∃ m' dataObj', createHeatMap ⟨true, true, true⟩ (· * ·) digitText emptyManager oneToTwentyFive =
        some (m', dataObj') ∧ (m'.onTouchEnd [⟨100, 440⟩]).map Coordinates.offset = some (some 2) ∧
      ¬ Agree m' oneToTwentyFive.threeData 100 440 := by
  have hcall := createHeatMap_complete (m := emptyManager) (· * ·) digitText rfl oneToTwentyFive
  refine ⟨_, _, hcall, by decide +kernel, ?_⟩
  intro hagree
  obtain ⟨mouse, -, v, hmouse, -, hv, -, r, c, -, -, hvalue⟩ := hagree 0 0
  have hzero := mouse_zero (createHeatMap_holds hcall).1 (by decide) 0 0 100 440
  rw [hmouse, Option.map_some, hv, Option.some.injEq, Option.some.injEq] at hzero
  subst hzero
  have hmem := List.mem_of_getElem? hvalue
  revert hmem
  decide +kernel

end Dispatch

/-! ## Away from the borders -/

section Away

end Away

end Cxsw.HeatMap
