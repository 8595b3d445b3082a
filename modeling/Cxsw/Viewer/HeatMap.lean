import Mathlib.Data.List.Lex
import Mathlib.Data.List.Sort
import Mathlib.Data.Rat.Encodable
import Mathlib.Tactic.IntervalCases
import Cxsw.Lib.JsFixed

/-!
# Cxsw.Viewer.HeatMap — the heat map of the bed (`3d-lib/src/managers/heatMapManager.ts`)

`createHeatMap` makes a mesh from a square of measured values: a vertex for each value, with its height and its colour.
At its end it sorts the values, in the array of the caller.

Values are rational numbers, the two zeros being one number.  What the height is stored as in single precision is the
parameter `product`, and the texts of numbers, by which `sort` compares, are a `NumberText`.

* `createHeatMap`: the code.
* `colorOf_eq`: every value has a colour, that of the tenth nearest to it between -2 and 2.
* `createHeatMap_iff`: the mesh is right, the array of the caller stays and a second call makes the same mesh exactly if
  the page has what is drawn on and the values come in the descending order of their texts.
* `ascending_values_sorted`: the values 1 to 9 come back from 9 to 1.
-/

namespace Cxsw.HeatMap

open Js

/-! ## The colours -/

section Colors

/-- An entry of `colorData`. -/
structure Color where
  r : ℕ
  g : ℕ
  b : ℕ
  key : List Char
  deriving DecidableEq

/-- `colorData`. -/
def colorData : List Color :=
  [⟨109, 195, 226, "2.5".toList⟩, ⟨233, 146, 103, "2.0".toList⟩, ⟨236, 151, 93, "1.9".toList⟩,
    ⟨238, 156, 83, "1.8".toList⟩, ⟨241, 161, 73, "1.7".toList⟩, ⟨243, 166, 63, "1.6".toList⟩,
    ⟨245, 171, 53, "1.5".toList⟩, ⟨248, 176, 42, "1.4".toList⟩, ⟨250, 181, 32, "1.3".toList⟩,
    ⟨252, 186, 21, "1.2".toList⟩, ⟨243, 192, 18, "1.1".toList⟩, ⟨235, 198, 14, "1.0".toList⟩,
    ⟨226, 203, 11, "0.9".toList⟩, ⟨217, 209, 7, "0.8".toList⟩, ⟨202, 215, 7, "0.7".toList⟩,
    ⟨187, 221, 7, "0.6".toList⟩, ⟨171, 227, 7, "0.5".toList⟩, ⟨156, 233, 7, "0.4".toList⟩,
    ⟨142, 240, 9, "0.3".toList⟩, ⟨128, 245, 11, "0.2".toList⟩, ⟨114, 250, 12, "0.1".toList⟩,
    ⟨100, 255, 13, "0.0".toList⟩, ⟨91, 255, 35, "-0.1".toList⟩, ⟨81, 255, 58, "-0.2".toList⟩,
    ⟨72, 255, 80, "-0.3".toList⟩, ⟨62, 255, 102, "-0.4".toList⟩, ⟨53, 255, 187, "-0.5".toList⟩,
    ⟨43, 255, 187, "-0.6".toList⟩, ⟨34, 255, 187, "-0.7".toList⟩, ⟨24, 255, 187, "-0.8".toList⟩,
    ⟨25, 252, 198, "-0.9".toList⟩, ⟨26, 249, 209, "-1.0".toList⟩, ⟨26, 245, 220, "-1.1".toList⟩,
    ⟨27, 242, 231, "-1.2".toList⟩, ⟨37, 236, 230, "-1.3".toList⟩, ⟨46, 230, 230, "-1.4".toList⟩,
    ⟨56, 223, 229, "-1.5".toList⟩, ⟨65, 217, 228, "-1.6".toList⟩, ⟨76, 212, 228, "-1.7".toList⟩,
    ⟨87, 206, 227, "-1.8".toList⟩, ⟨98, 201, 227, "-1.9".toList⟩, ⟨109, 195, 226, "-2.0".toList⟩,
    ⟨109, 195, 226, "-2.5".toList⟩]

/-- `_colorData`, as the constructor fills it. -/
def colorTable : List Char → Option Color :=
  colorData.foldl (fun table c => Function.update table c.key (some c)) fun _ => none

/-- `newData[k].toFixed(1)`, or `String(newData[k])` from `10 ^ 21` on, which is not looked up. -/
inductive ValueText where
  | fixed (t : Fixed)
  | number (q : ℚ)

def ValueText.value : ValueText → ℚ
  | .fixed t => t.value 1
  | .number q => q

/-- `newData[k].toFixed(1)`. -/
def valueText (v : ℚ) : ValueText := if |v| < 10 ^ 21 then .fixed (toFixed 1 v) else .number v

/-- The key of a value: its text, the one of zero without a sign, and those beyond 2 cut off. -/
def ValueText.index (t : ValueText) : Option (List Char) :=
  let t := if t.value = 0 then .fixed ⟨false, 0⟩ else t
  if t.value > 2 then some "2.0".toList
  else if t.value < -2 then some "-2.0".toList
  else
    match t with
    | .fixed t => some (t.text 1)
    | .number _ => none

/-- `this._colorData[index]`. -/
def colorOf (v : ℚ) : Option Color := (valueText v).index.bind colorTable

/-- The tenths that a value is shown as: the nearest ones, from halfway on away from zero, between -20 and 20. -/
def tenths (v : ℚ) : ℤ := if v < 0 then -(min ⌊-v * 10 + 1 / 2⌋₊ 20 : ℕ) else (min ⌊v * 10 + 1 / 2⌋₊ 20 : ℕ)

/-- The entry of so many tenths, from the third last to the second. -/
def shade (k : ℤ) : Option Color := colorData[(21 - k).toNat]?

end Colors

/-! ## The mesh -/

section Mesh

/-- The values of a page: `threeData` is a square of 3 to 6 rows. -/
structure Grid where
  side : ℕ
  three_le : 3 ≤ side
  le_six : side ≤ 6
  values : List ℚ
  length_eq : values.length = side * side

/-- `dataObj`; `portrait` is `type == 'portrait'`. -/
structure DataObj where
  elementLeft : ℚ
  elementTop : ℚ
  portrait : Bool
  threeData : Grid

/-- The texts of numbers, as the lists of their code units; different numbers have different texts. -/
structure NumberText where
  text : ℚ → List ℕ
  injective : Function.Injective text

/-- What the page has of the elements that are drawn on: the container, and the contexts of the two canvases. -/
structure Page where
  main : Bool
  scaleContext : Bool
  gradientContext : Bool
  deriving DecidableEq

/-- A mesh: the heights of its vertices and their colours. -/
structure Mesh where
  heights : List ℚ
  colors : List (ℚ × ℚ × ℚ)
  deriving DecidableEq

/-- `heatMapManager`: the members that `createHeatMap` sets and the meshes of its group. -/
structure Manager where
  left : ℚ
  top : ℚ
  portrait : Bool
  tempLen : ℕ
  tnewData : List ℚ
  distance : ℚ
  temGroup : Option (List Mesh)

/-- The loop of one of the cases 3 to 6: row by row. -/
def copyRows (len : ℕ) (data : List ℚ) : List ℚ := (List.range len).flatMap fun i => (data.drop (len * i)).take len

/-- `parseFloat(((len/2)/5).toFixed(2))`. -/
def gridDistance (len : ℕ) : ℚ := (toFixed 2 ((len : ℚ) / 2 / 5)).value 2

/-- The members that are set before anything is drawn. -/
def Manager.load (m : Manager) (dataObj : DataObj) : Manager :=
  { m with
    left := dataObj.elementLeft
    top := dataObj.elementTop
    portrait := dataObj.portrait
    tempLen := dataObj.threeData.side
    tnewData := copyRows dataObj.threeData.side dataObj.threeData.values
    distance := gridDistance dataObj.threeData.side }

/-- `data.sort()`: by the texts. -/
def sortByText (text : NumberText) (data : List ℚ) : List ℚ :=
  data.insertionSort fun a b => text.text a ≤ text.text b

/-- `data.sort().reverse()`, in place. -/
def Grid.sortReverse (text : NumberText) (g : Grid) : Grid :=
  { g with
    values := (sortByText text g.values).reverse
    length_eq := by rw [List.length_reverse, sortByText, List.length_insertionSort, g.length_eq] }

/-- `createHeatMap`, with the array of the caller after it; `none` where it throws. -/
def createHeatMap (page : Page) (product : ℚ → ℚ → ℚ) (text : NumberText) (m : Manager) (dataObj : DataObj) :
    Option (Manager × DataObj) :=
  let m := m.load dataObj
  let heights := m.tnewData.map fun v => product (-v) m.distance
  if !page.main then some (m, dataObj)
  else if !page.scaleContext then some (m, dataObj)
  else if !page.gradientContext then none
  else
    (m.tnewData.mapM colorOf).bind fun colorData =>
      let mesh : Mesh := ⟨heights, colorData.map fun c => ((c.r : ℚ) / 255, (c.g : ℚ) / 255, (c.b : ℚ) / 255)⟩
      match m.temGroup with
      | none => some (m, dataObj)
      | some meshes =>
        some ({ m with temGroup := some (meshes ++ [mesh]) },
          { dataObj with threeData := dataObj.threeData.sortReverse text })

end Mesh

/-! ## Every value has a colour -/

section ColorOf

/-- The table has an entry for all tenths from -20 to 20, under their texts. -/
theorem colorTable_text (minus : Bool) (n : Fin 21) (h : minus = true → n ≠ 0) :
    colorTable (Fixed.text 1 ⟨minus, n⟩) = shade (if minus then -(n : ℕ) else (n : ℕ)) ∧
      (shade (if minus then -(n : ℕ) else (n : ℕ))).isSome := by
  revert minus n
  decide +kernel

theorem colorTable_two : colorTable "2.0".toList = shade 20 ∧ colorTable "-2.0".toList = shade (-20) := by
  decide +kernel

theorem shade_two : (shade 20).isSome ∧ (shade (-20)).isSome := by decide

theorem index_of_gt {t : ValueText} (h : t.value > 2) : t.index = some "2.0".toList := by
  have hne : t.value ≠ 0 := by linarith
  unfold ValueText.index
  dsimp only
  rw [if_neg hne, if_pos h]

theorem index_of_lt {t : ValueText} (h : t.value < -2) : t.index = some "-2.0".toList := by
  have hne : t.value ≠ 0 := by linarith
  have hgt : ¬ t.value > 2 := by linarith
  unfold ValueText.index
  dsimp only
  rw [if_neg hne, if_neg hgt, if_pos h]

/-- Up to 2 the key is the text, but for the sign of zero. -/
theorem index_of_le {minus : Bool} {n : ℕ} (h : n ≤ 20) :
    (ValueText.fixed ⟨minus, n⟩).index = some (Fixed.text 1 ⟨minus && decide (n ≠ 0), n⟩) := by
  have hle : ((n : ℕ) : ℚ) / 10 ≤ 2 := by
    rw [div_le_iff₀ (by norm_num)]
    exact_mod_cast h
  have hnonneg : (0 : ℚ) ≤ (n : ℚ) / 10 := by positivity
  by_cases hn : n = 0
  · subst hn
    cases minus <;> norm_num [ValueText.index, ValueText.value, Fixed.value]
  · have hne : (ValueText.fixed ⟨minus, n⟩).value ≠ 0 := fun h0 => hn (Fixed.value_eq_zero_iff.mp h0)
    have hgt : ¬ (ValueText.fixed ⟨minus, n⟩).value > 2 := by
      cases minus <;> simp only [ValueText.value, Fixed.value, pow_one, if_true, if_false, Bool.false_eq_true] <;>
        linarith
    have hlt : ¬ (ValueText.fixed ⟨minus, n⟩).value < -2 := by
      cases minus <;> simp only [ValueText.value, Fixed.value, pow_one, if_true, if_false, Bool.false_eq_true] <;>
        linarith
    unfold ValueText.index
    dsimp only
    rw [if_neg hne, if_neg hgt, if_neg hlt]
    simp [hn]

theorem tenths_eq (v : ℚ) :
    tenths v =
      if v < 0 then -((min ⌊|v| * 10 + 1 / 2⌋₊ 20 : ℕ) : ℤ) else ((min ⌊|v| * 10 + 1 / 2⌋₊ 20 : ℕ) : ℤ) := by
  unfold tenths
  split_ifs with hv
  · rw [abs_of_neg hv]
  · rw [abs_of_nonneg (not_lt.mp hv)]

/-- A value whose text is beyond 2 has the colour of 2, on its side of zero. -/
theorem colorOf_of_beyond {v : ℚ} (hn : 20 ≤ ⌊|v| * 10 + 1 / 2⌋₊)
    (hvalue : if v < 0 then (valueText v).value < -2 else (valueText v).value > 2) :
    colorOf v = shade (tenths v) ∧ (shade (tenths v)).isSome := by
  rw [tenths_eq, min_eq_right hn, Nat.cast_ofNat]
  unfold colorOf
  split_ifs at hvalue ⊢ with hv
  · rw [index_of_lt hvalue, Option.bind_some]
    exact ⟨colorTable_two.2, shade_two.2⟩
  · rw [index_of_gt hvalue, Option.bind_some]
    exact ⟨colorTable_two.1, shade_two.1⟩

/-- The lookup never fails. -/
theorem colorOf_eq (v : ℚ) : colorOf v = shade (tenths v) ∧ (shade (tenths v)).isSome := by
  by_cases hsmall : |v| < 10 ^ 21
  · have htext : valueText v = .fixed ⟨decide (v < 0), ⌊|v| * 10 + 1 / 2⌋₊⟩ := by
      rw [valueText, if_pos hsmall, toFixed, pow_one]
    by_cases hn : ⌊|v| * 10 + 1 / 2⌋₊ ≤ 20
    · rw [tenths_eq, colorOf, htext, index_of_le hn, min_eq_left hn, Option.bind_some]
      generalize ⌊|v| * 10 + 1 / 2⌋₊ = n at hn
      have htable := colorTable_text (decide (v < 0) && decide (n ≠ 0)) ⟨n, by omega⟩ (by
        intro hminus
        have hne : n ≠ 0 := by simpa using (Bool.and_eq_true_iff.mp hminus).2
        simpa [Fin.ext_iff] using hne)
      by_cases hzero : n = 0
      · subst hzero
        simpa using htable
      · simpa [hzero] using htable
    · refine colorOf_of_beyond (by omega) ?_
      have hlt : (20 : ℚ) < (⌊|v| * 10 + 1 / 2⌋₊ : ℚ) := by exact_mod_cast not_le.mp hn
      rw [htext]
      split_ifs with hv
      · simp only [ValueText.value, Fixed.value, hv, decide_true, if_true, pow_one]
        linarith
      · simp only [ValueText.value, Fixed.value, hv, decide_false, Bool.false_eq_true, if_false, pow_one]
        linarith
  · have hbig : (10 : ℚ) ^ 21 ≤ |v| := not_lt.mp hsmall
    have htext : valueText v = .number v := by rw [valueText, if_neg hsmall]
    refine colorOf_of_beyond (Nat.le_floor ?_) ?_
    · push_cast
      linarith
    · rw [htext]
      split_ifs with hv
      · rw [abs_of_neg hv] at hbig
        simp only [ValueText.value]
        linarith
      · rw [abs_of_nonneg (not_lt.mp hv)] at hbig
        simp only [ValueText.value]
        linarith

example : colorOf (-1 / 25) = some ⟨100, 255, 13, "0.0".toList⟩ := by decide +kernel

end ColorOf

/-! ## The mesh and the array -/

section Calls

/-- The three parts of a colour of so many tenths. -/
def rgb (k : ℤ) : ℚ × ℚ × ℚ :=
  (shade k).elim (0, 0, 0) fun c => ((c.r : ℚ) / 255, (c.g : ℚ) / 255, (c.b : ℚ) / 255)

/-- The mesh of a grid. -/
def meshOf (product : ℚ → ℚ → ℚ) (g : Grid) : Mesh where
  heights := g.values.map fun v => product (-v) ((g.side : ℚ) / 10)
  colors := g.values.map fun v => rgb (tenths v)

variable {page : Page} {product : ℚ → ℚ → ℚ} {text : NumberText} {m : Manager} {dataObj : DataObj}

theorem flatMap_rows (data : List ℚ) (n k : ℕ) :
    ((List.range k).flatMap fun i => (data.drop (n * i)).take n) = data.take (n * k) := by
  induction k with
  | zero => simp
  | succ k ih =>
    rw [List.range_succ, List.flatMap_append, ih, Nat.mul_succ, List.take_add]
    simp

theorem copyRows_eq (g : Grid) : copyRows g.side g.values = g.values := by
  unfold copyRows
  rw [flatMap_rows, ← g.length_eq, List.take_length]

theorem gridDistance_eq (g : Grid) : gridDistance g.side = (g.side : ℚ) / 10 := by
  have hlo := g.three_le
  have hhi := g.le_six
  generalize g.side = n at hlo hhi
  interval_cases n <;> decide +kernel

theorem mapM_eq_some {α β : Type*} {f : α → Option β} {h : α → β} {l : List α} (hf : ∀ a ∈ l, f a = some (h a)) :
    l.mapM f = some (l.map h) := by
  induction l with
  | nil => rfl
  | cons a l ih =>
    rw [List.mapM_cons, hf a List.mem_cons_self, ih fun b hb => hf b (List.mem_cons_of_mem _ hb)]
    rfl

/-- The elements of the page, and a group for the mesh. -/
def Complete (page : Page) (m : Manager) : Prop := page = ⟨true, true, true⟩ ∧ m.temGroup.isSome

/-- On a complete page the mesh is added and the array sorted. -/
theorem createHeatMap_complete (product : ℚ → ℚ → ℚ) (text : NumberText) {meshes : List Mesh}
    (hm : m.temGroup = some meshes) (dataObj : DataObj) :
    createHeatMap ⟨true, true, true⟩ product text m dataObj =
      some ({ m.load dataObj with temGroup := some (meshes ++ [meshOf product dataObj.threeData]) },
        { dataObj with threeData := dataObj.threeData.sortReverse text }) := by
  have hcolors : (m.load dataObj).tnewData.mapM colorOf =
      some (dataObj.threeData.values.map fun v => (shade (tenths v)).getD ⟨0, 0, 0, []⟩) := by
    simp only [Manager.load, copyRows_eq]
    refine mapM_eq_some fun v _ => ?_
    obtain ⟨heq, hsome⟩ := colorOf_eq v
    obtain ⟨c, hc⟩ := Option.isSome_iff_exists.mp hsome
    rw [heq, hc, Option.getD_some]
  have hgroup : (m.load dataObj).temGroup = some meshes := hm
  have hrgb : ∀ v, rgb (tenths v) = ((((shade (tenths v)).getD ⟨0, 0, 0, []⟩).r : ℚ) / 255,
      (((shade (tenths v)).getD ⟨0, 0, 0, []⟩).g : ℚ) / 255,
        (((shade (tenths v)).getD ⟨0, 0, 0, []⟩).b : ℚ) / 255) := by
    intro v
    obtain ⟨c, hc⟩ := Option.isSome_iff_exists.mp (colorOf_eq v).2
    simp [rgb, hc]
  unfold createHeatMap
  simp only [Bool.not_true, Bool.false_eq_true, if_false, hcolors, Option.bind_some, hgroup, meshOf, hrgb]
  simp [Manager.load, copyRows_eq, gridDistance_eq]

/-- The mesh of the grid is added. -/
def Adds (product : ℚ → ℚ → ℚ) (g : Grid) (m m' : Manager) : Prop :=
  ∃ meshes, m.temGroup = some meshes ∧ m'.temGroup = some (meshes ++ [meshOf product g])

theorem complete_of_adds {m' : Manager} {dataObj' : DataObj}
    (h : createHeatMap page product text m dataObj = some (m', dataObj'))
    (hadds : Adds product dataObj.threeData m m') :
    Complete page m := by
  obtain ⟨meshes, hm, hm'⟩ := hadds
  refine ⟨?_, by rw [hm]; rfl⟩
  have hgroup : (m.load dataObj).temGroup = some meshes := hm
  obtain ⟨main, scale, gradient⟩ := page
  unfold createHeatMap at h
  cases main
  · simp only [Bool.not_false, if_true, Option.some.injEq, Prod.mk.injEq] at h
    rw [← h.1, hgroup] at hm'
    simp at hm'
  · cases scale
    · simp only [Bool.not_false, Bool.not_true, Bool.false_eq_true, if_true, if_false, Option.some.injEq,
        Prod.mk.injEq] at h
      rw [← h.1, hgroup] at hm'
      simp at hm'
    · cases gradient
      · simp at h
      · rfl

/-- The array is in the descending order of the texts. -/
def Descending (text : NumberText) (g : Grid) : Prop := g.values.Pairwise fun a b => text.text b ≤ text.text a

theorem sortReverse_values_iff (text : NumberText) (g : Grid) :
    (g.sortReverse text).values = g.values ↔ Descending text g := by
  have hsorted := List.pairwise_insertionSort (fun a b => text.text a ≤ text.text b) g.values
  unfold Grid.sortReverse Descending
  constructor
  · intro h
    simp only at h
    rw [← h, List.pairwise_reverse]
    exact hsorted
  · intro h
    have hperm : (sortByText text g.values).Perm g.values.reverse :=
      (List.perm_insertionSort _ _).trans (List.reverse_perm _).symm
    have heq : sortByText text g.values = g.values.reverse := by
      refine List.Perm.eq_of_pairwise ?_ hsorted ?_ hperm
      · intro a b _ _ hab hba
        exact text.injective (le_antisymm hab hba)
      · rwa [List.pairwise_reverse]
    simp only [heq, List.reverse_reverse]

/-- The mesh is the one of the grid, the array of the caller stays, and another call with it makes the same mesh. -/
def Faithful (page : Page) (product : ℚ → ℚ → ℚ) (text : NumberText) (m : Manager) (dataObj : DataObj) : Prop :=
  ∃ m' dataObj', createHeatMap page product text m dataObj = some (m', dataObj') ∧ Adds product dataObj.threeData m m' ∧
    dataObj'.threeData.values = dataObj.threeData.values ∧
    ∃ m'' dataObj'', createHeatMap page product text m' dataObj' = some (m'', dataObj'') ∧
      Adds product dataObj.threeData m' m''

/-- **Data fidelity**. -/
theorem createHeatMap_iff (page : Page) (product : ℚ → ℚ → ℚ) (text : NumberText) (m : Manager) (dataObj : DataObj) :
    Faithful page product text m dataObj ↔ Complete page m ∧ Descending text dataObj.threeData := by
  constructor
  · rintro ⟨m', dataObj', hcall, hadds, hvalues, -⟩
    have hcomplete := complete_of_adds hcall hadds
    refine ⟨hcomplete, ?_⟩
    obtain ⟨meshes, hm, -⟩ := hadds
    rw [hcomplete.1, createHeatMap_complete product text hm, Option.some.injEq, Prod.mk.injEq] at hcall
    rw [← hcall.2] at hvalues
    exact (sortReverse_values_iff text dataObj.threeData).mp hvalues
  · rintro ⟨⟨rfl, hgroup⟩, hdesc⟩
    obtain ⟨meshes, hm⟩ := Option.isSome_iff_exists.mp hgroup
    have hvalues := (sortReverse_values_iff text dataObj.threeData).mpr hdesc
    refine ⟨_, _, createHeatMap_complete product text hm dataObj, ⟨meshes, hm, rfl⟩, hvalues, _, _,
      createHeatMap_complete product text rfl _, _, rfl, ?_⟩
    have hmesh : meshOf product (dataObj.threeData.sortReverse text) = meshOf product dataObj.threeData := by
      unfold meshOf
      rw [hvalues]
      rfl
    rw [hmesh]

/-- The texts of the digits; the others are numbered. -/
def digitText : NumberText where
  text q := if q.den = 1 ∧ 0 ≤ q.num ∧ q.num ≤ 9 then [48 + q.num.toNat] else [0, Encodable.encode q]
  injective := by
    intro p q h
    simp only at h
    split_ifs at h with hp hq
    · obtain ⟨hdenp, hnump, -⟩ := hp
      obtain ⟨hdenq, hnumq, -⟩ := hq
      have hnum : p.num = q.num := by
        simp only [List.cons.injEq, and_true] at h
        omega
      exact Rat.ext hnum (by rw [hdenp, hdenq])
    · simp at h
    · simp at h
    · simpa using h

/-- The values from 1 to 9. -/
def oneToNine : DataObj := ⟨0, 0, true, ⟨3, by decide, by decide, [1, 2, 3, 4, 5, 6, 7, 8, 9], by decide⟩⟩

def emptyManager : Manager := ⟨0, 0, true, 0, [], 0, some []⟩

/-- The caller gets the values from 9 to 1 back, and the next call makes another mesh. -/
theorem ascending_values_sorted :
    (createHeatMap ⟨true, true, true⟩ (· * ·) digitText emptyManager oneToNine).map (fun r => r.2.threeData.values) =
        some [9, 8, 7, 6, 5, 4, 3, 2, 1] ∧
      ¬ Faithful ⟨true, true, true⟩ (· * ·) digitText emptyManager oneToNine := by
  have hvalues : (oneToNine.threeData.sortReverse digitText).values = [9, 8, 7, 6, 5, 4, 3, 2, 1] := by decide +kernel
  have hcall := createHeatMap_complete (m := emptyManager) (· * ·) digitText rfl oneToNine
  refine ⟨by rw [hcall, Option.map_some, hvalues], ?_⟩
  rintro ⟨m', dataObj', hcall', -, hsame, -⟩
  rw [hcall, Option.some.injEq, Prod.mk.injEq] at hcall'
  rw [← hcall'.2] at hsame
  rw [hvalues] at hsame
  revert hsame
  decide +kernel

end Calls

end Cxsw.HeatMap
