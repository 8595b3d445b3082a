import Mathlib.Algebra.Order.Ring.Rat
import Mathlib.Data.List.Basic
import Mathlib.Tactic.Common
import Cxsw.Lib.Run

/-!
# Cxsw.Viewer.ModelColorManager — the highlighted layer (`3d-lib/src/managers/ModelColorManager.ts`)

The colours of the line segments of a gcode model are in one array, which `instanceColorStart` and `instanceColorEnd`
share, with one colour for each vertex; `instanceAlphStart` has one alpha for each segment, that is, for two vertices.
`setModelAlph` and `setIndexModelAlph` paint the range of a layer and record it, and `clearPrinterLayerColor` paints
over what was recorded.

* `Shown`: after a call that selects a layer, its vertices and no others are highlighted, the others have one colour,
  and what comes before the end of the layer is opaque.
* `shown_run_iff`: the runs of calls after each of which this holds.
-/

namespace Cxsw.ModelColor

/-! ## The two arrays -/

section Arrays

/-- The colours that are written: `(0, .87, 1)`, and the grey of level .48 or .84. -/
inductive Color where
  | highlight
  | grey48
  | grey84
  deriving DecidableEq

/-- An entry of the index of layers: the vertices from `start` to `stop` of `count`, two for each segment. -/
structure Range (count : ℕ) where
  start : ℕ
  stop : ℕ
  start_le : start ≤ stop
  stop_le : stop ≤ count
  start_even : 2 ∣ start
  stop_even : 2 ∣ stop
  deriving DecidableEq

/-- `k` goes over the range. -/
def Range.Mem {count : ℕ} (r : Range count) (k : ℕ) : Prop := r.start ≤ k ∧ k < r.stop

instance {count : ℕ} (r : Range count) (k : ℕ) : Decidable (r.Mem k) := inferInstanceAs (Decidable (_ ∧ _))

/-- The vertices from `lo` to `hi` are in the range. -/
def Range.Covers {count : ℕ} (r : Range count) (lo hi : ℕ) : Prop := hi ≤ lo ∨ r.start ≤ lo ∧ hi ≤ r.stop

theorem Range.covers_iff {count : ℕ} (r : Range count) (lo hi : ℕ) :
    r.Covers lo hi ↔ ∀ k, lo ≤ k → k < hi → r.Mem k := by
  unfold Covers Mem
  constructor
  · rintro (h | ⟨hlo, hhi⟩) k hk hk'
    · omega
    · omega
  · intro h
    by_cases hle : hi ≤ lo
    · exact Or.inl hle
    · have hfirst := h lo le_rfl (by omega)
      have hlast := h (hi - 1) (by omega) (by omega)
      exact Or.inr ⟨hfirst.1, by omega⟩

/-- The colours, the alphas and `_printerColorData`, whose entries are kept without the names: a name always stands for
one range.  No code reads the rest: the alpha that all segments were set to last, the vertex up to which the segments
are opaque since, and the vertex up to which ranges have been cleared. -/
structure View (count : ℕ) where
  colors : ℕ → Color
  alphas : ℕ → ℚ
  printerColorData : List (Range count)
  alph : ℚ
  opaqueUpTo : ℕ
  cleared : ℕ

/-- The model as it is loaded. -/
def View.start (count : ℕ) : View count where
  colors := fun _ => .grey48
  alphas := fun _ => 1
  printerColorData := []
  alph := 1
  opaqueUpTo := 0
  cleared := 0

variable {count : ℕ}

/-- All segments get one alpha. -/
def View.fill (v : View count) (alph : ℚ) : View count :=
  { v with alphas := fun _ => alph, alph, opaqueUpTo := 0 }

/-- The segments up to the end of a range get alpha 1. -/
def View.showTo (v : View count) (r : Range count) : View count :=
  { v with
    alphas := fun n => if 2 * n < r.stop then 1 else v.alphas n
    opaqueUpTo := max v.opaqueUpTo r.stop }

/-- The segments of a range get alpha 1. -/
def View.showOnly (v : View count) (r : Range count) : View count :=
  { v with
    alphas := fun n => if r.start ≤ 2 * n ∧ 2 * n < r.stop then 1 else v.alphas n
    opaqueUpTo := max v.opaqueUpTo r.stop }

/-- The vertices of a range are highlighted and the range recorded; start and end colours are written to one place. -/
def View.paint (v : View count) (r : Range count) : View count :=
  { v with
    colors := fun k => if r.Mem k then .highlight else v.colors k
    printerColorData := v.printerColorData ++ [r] }

/-- A round of `clearPrinterLayerColor`: the second write to a vertex, .84, stays. -/
def View.clear (v : View count) (r : Range count) : View count :=
  { v with
    colors := fun k => if k < r.stop then .grey84 else v.colors k
    alphas := fun n => if 2 * n < r.stop then 1 else v.alphas n
    opaqueUpTo := max v.opaqueUpTo r.stop
    cleared := max v.cleared r.stop }

/-- `clearPrinterLayerColor`. -/
def View.clearPrinterLayerColor (v : View count) : View count :=
  { v.printerColorData.foldl View.clear v with printerColorData := [] }

end Arrays

/-! ## The calls -/

section Calls

variable {K : Type*} {count : ℕ}

/-- The argument of a call: the text `finished`, another text with what `parseFloat` makes of it, or a number; `none` is
`NaN`. -/
inductive ZData (K : Type*) where
  | undefined
  | finished
  | text (key : Option K)
  | number (key : Option K)

/-- `parseFloat(zData)`. -/
def ZData.parseFloat : ZData K → Option K
  | .undefined | .finished => none
  | .text key | .number key => key

inductive Call (K : Type*) where
  | setModelAlph (alph : Option ℚ) (key : ZData K)
  | setIndexModelAlph (zData : ZData K)

variable [LinearOrder K] [Zero K] (indexData : List (K × Range count))

/-- `indexData[key]`. -/
def layerAt (key : Option K) : Option (Range count) := key.bind fun key => indexData.lookup key

/-- The layer that `setModelAlph` selects: the one at the height, or the first one from the height on, in the order of
the index; the height 0 only if the index starts with it. -/
def modelLayer (key : ZData K) : Option (Range count) :=
  match key.parseFloat with
  | none => none
  | some keyData =>
    if keyData = 0 ∧ indexData.head?.any (·.1 ≠ 0) then none
    else
      match layerAt indexData (some keyData) with
      | some r => some r
      | none => (indexData.find? fun entry => keyData ≤ entry.1).map Prod.snd

/-- The layer that `setIndexModelAlph` selects: the one at the height.  `zData == ""` holds of the number 0. -/
def indexLayer (zData : ZData K) : Option (Range count) :=
  match zData with
  | .undefined | .finished => none
  | .text key => layerAt indexData key
  | .number key => if key = some 0 then none else layerAt indexData key

/-- `setModelAlph`; `small` is `mmaxLen <= 30`. -/
def setModelAlph (small : Bool) (v : View count) (alph : Option ℚ) (key : ZData K) : View count :=
  let alph := if small then some (1 / 5) else alph
  match key with
  | .finished => v
  | _ =>
    let v := match alph with
      | some alph => v.fill alph
      | none => v
    match modelLayer indexData key with
    | none => v
    | some r => (v.showTo r).paint r

/-- `setIndexModelAlph` of a gcode model. -/
def setIndexModelAlph (v : View count) (zData : ZData K) : View count :=
  match zData with
  | .finished => v.clearPrinterLayerColor
  | _ =>
    match indexLayer indexData zData with
    | none => v
    | some r => (v.clearPrinterLayerColor.showOnly r).paint r

def step (small : Bool) (v : View count) (c : Call K) : View count :=
  match c with
  | .setModelAlph alph key => setModelAlph indexData small v alph key
  | .setIndexModelAlph zData => setIndexModelAlph indexData v zData

end Calls

/-! ## What is shown -/

section Shown

variable {K : Type*} {count : ℕ}

/-- A layer is shown: its vertices and no others are highlighted, the others have one colour, and the segments before
its end are opaque. -/
structure Shown (v : View count) (r : Range count) : Prop where
  highlight : ∀ k < count, v.colors k = .highlight ↔ r.Mem k
  base : ∃ base, base ≠ .highlight ∧ ∀ k < count, ¬ r.Mem k → v.colors k = base
  alphas : ∀ n, 2 * n < r.stop → v.alphas n = 1

/-- After a call that selects a layer the layer is shown, and after `finished` nothing is highlighted. -/
def ShownAfter [LinearOrder K] [Zero K] (indexData : List (K × Range count)) (small : Bool) (v : View count)
    (c : Call K) : Prop :=
  match c with
  | .setModelAlph _ key => ∀ r ∈ modelLayer indexData key, Shown (step indexData small v c) r
  | .setIndexModelAlph .finished => ∀ k < count, (step indexData small v c).colors k ≠ .highlight
  | .setIndexModelAlph zData => ∀ r ∈ indexLayer indexData zData, Shown (step indexData small v c) r

/-- The furthest end of the ranges recorded, from a vertex on. -/
def View.furthest (v : View count) (k : ℕ) : ℕ := v.printerColorData.foldl (fun m r => max m r.stop) k

/-- The calls that go right.  A layer that `setModelAlph` selects holds all ranges recorded, as it does not clear them.
The layer that a call selects holds all vertices up to the furthest that has been cleared, or all from there on.  And
`setIndexModelAlph` selects a layer that starts in the opaque part, unless all is opaque. -/
def StepOk [LinearOrder K] [Zero K] (indexData : List (K × Range count)) (v : View count) (c : Call K) : Prop :=
  match c with
  | .setModelAlph _ key => ∀ r ∈ modelLayer indexData key,
    (∀ p ∈ v.printerColorData, r.Covers p.start p.stop) ∧ (r.Covers 0 v.cleared ∨ r.Covers v.cleared count)
  | .setIndexModelAlph zData => ∀ r ∈ indexLayer indexData zData,
    (r.Covers 0 (v.furthest v.cleared) ∨ r.Covers (v.furthest v.cleared) count) ∧
      (v.alph = 1 ∨ r.start ≤ v.furthest v.opaqueUpTo)

/-- The picture by the history of calls. -/
structure Inv (v : View count) : Prop where
  painted : ∀ k, (∃ r ∈ v.printerColorData, r.Mem k) → v.colors k = .highlight
  unpainted : ∀ k, (¬ ∃ r ∈ v.printerColorData, r.Mem k) → v.colors k = if k < v.cleared then .grey84 else .grey48
  alphas : ∀ n, v.alphas n = if 2 * n < v.opaqueUpTo then 1 else v.alph
  even : 2 ∣ v.opaqueUpTo
  cleared_le : v.cleared ≤ count

theorem inv_start : Inv (View.start count) :=
  ⟨fun _ => by simp [View.start], fun _ _ => by simp [View.start], fun _ => by simp [View.start], by simp [View.start],
    Nat.zero_le _⟩

variable {v : View count} {r : Range count}

theorem max_even {m n : ℕ} (hm : 2 ∣ m) (hn : 2 ∣ n) : 2 ∣ max m n := by
  rcases Nat.le_total m n with h | h
  · rwa [Nat.max_eq_right h]
  · rwa [Nat.max_eq_left h]

theorem foldl_clear (rs : List (Range count)) (v : View count) :
    (∀ k, (rs.foldl View.clear v).colors k = if ∃ r ∈ rs, k < r.stop then .grey84 else v.colors k) ∧
      (∀ n, (rs.foldl View.clear v).alphas n = if ∃ r ∈ rs, 2 * n < r.stop then 1 else v.alphas n) ∧
      (rs.foldl View.clear v).opaqueUpTo = rs.foldl (fun m r => max m r.stop) v.opaqueUpTo ∧
      (rs.foldl View.clear v).cleared = rs.foldl (fun m r => max m r.stop) v.cleared ∧
      (rs.foldl View.clear v).alph = v.alph := by
  induction rs generalizing v with
  | nil => simp
  | cons r rs ih =>
    obtain ⟨hcolors, halphas, hupTo, hcleared, halph⟩ := ih (v.clear r)
    refine ⟨fun k => ?_, fun n => ?_, hupTo, hcleared, halph⟩
    · rw [List.foldl_cons, hcolors]
      by_cases hrs : ∃ r ∈ rs, k < r.stop
      · have hall : ∃ r' ∈ r :: rs, k < r'.stop := List.exists_mem_cons_iff _ _ _ |>.mpr (Or.inr hrs)
        rw [if_pos hrs, if_pos hall]
      · simp only [hrs, if_false, View.clear, List.exists_mem_cons_iff, or_false]
    · rw [List.foldl_cons, halphas]
      by_cases hrs : ∃ r ∈ rs, 2 * n < r.stop
      · have hall : ∃ r' ∈ r :: rs, 2 * n < r'.stop := List.exists_mem_cons_iff _ _ _ |>.mpr (Or.inr hrs)
        rw [if_pos hrs, if_pos hall]
      · simp only [hrs, if_false, View.clear, List.exists_mem_cons_iff, or_false]

theorem lt_foldl_max (rs : List (Range count)) (m k : ℕ) :
    k < rs.foldl (fun m r => max m r.stop) m ↔ k < m ∨ ∃ r ∈ rs, k < r.stop := by
  induction rs generalizing m with
  | nil => simp
  | cons r rs ih => simp only [List.foldl_cons, ih, lt_max_iff, List.exists_mem_cons_iff, or_assoc]

theorem foldl_max_even (rs : List (Range count)) {m : ℕ} (hm : 2 ∣ m) : 2 ∣ rs.foldl (fun m r => max m r.stop) m := by
  induction rs generalizing m with
  | nil => exact hm
  | cons r rs ih => exact ih (max_even hm r.stop_even)

theorem foldl_max_le (rs : List (Range count)) {m : ℕ} (hm : m ≤ count) :
    rs.foldl (fun m r => max m r.stop) m ≤ count := by
  induction rs generalizing m with
  | nil => exact hm
  | cons r rs ih => exact ih (max_le hm r.stop_le)

/-- Clearing. -/
theorem Inv.clearPrinterLayerColor (h : Inv v) : Inv v.clearPrinterLayerColor := by
  obtain ⟨hcolors, halphas, hupTo, hcleared, halph⟩ := foldl_clear v.printerColorData v
  refine ⟨fun k hk => ?_, fun k _ => ?_, fun n => ?_, ?_, ?_⟩
  · simp [View.clearPrinterLayerColor] at hk
  · simp only [View.clearPrinterLayerColor, hcolors, hcleared, lt_foldl_max]
    by_cases hk : ∃ r ∈ v.printerColorData, k < r.stop
    · simp only [hk, if_true, or_true]
    · have hnot : ¬ ∃ r ∈ v.printerColorData, r.Mem k := fun ⟨r, hr, hmem⟩ => hk ⟨r, hr, hmem.2⟩
      simp only [hk, if_false, or_false, h.unpainted k hnot]
  · simp only [View.clearPrinterLayerColor, halphas, hupTo, lt_foldl_max, halph, h.alphas]
    by_cases hn : ∃ r ∈ v.printerColorData, 2 * n < r.stop
    · simp only [hn, if_true, or_true]
    · simp only [hn, if_false, or_false]
  · simp only [View.clearPrinterLayerColor, hupTo]
    exact foldl_max_even _ h.even
  · simp only [View.clearPrinterLayerColor, hcleared]
    exact foldl_max_le _ h.cleared_le

theorem cleared_clearPrinterLayerColor (v : View count) :
    v.clearPrinterLayerColor.cleared = v.furthest v.cleared ∧
      v.clearPrinterLayerColor.opaqueUpTo = v.furthest v.opaqueUpTo ∧ v.clearPrinterLayerColor.alph = v.alph := by
  obtain ⟨-, -, hupTo, hcleared, halph⟩ := foldl_clear v.printerColorData v
  exact ⟨hcleared, hupTo, halph⟩

theorem Inv.fill (h : Inv v) (alph : ℚ) : Inv (v.fill alph) :=
  ⟨h.painted, h.unpainted, fun n => by simp [View.fill], by simp [View.fill], h.cleared_le⟩

theorem Inv.showTo (h : Inv v) (r : Range count) : Inv (v.showTo r) := by
  refine ⟨h.painted, h.unpainted, fun n => ?_, max_even h.even r.stop_even, h.cleared_le⟩
  simp only [View.showTo, h.alphas, lt_max_iff]
  by_cases hn : 2 * n < r.stop
  · simp only [hn, if_true, or_true]
  · simp only [hn, if_false, or_false]

/-- The segments before the end of the layer are opaque exactly if the layer starts in the opaque part. -/
theorem showOnly_alphas_iff (h : Inv v) (r : Range count) :
    (∀ n, 2 * n < r.stop → (v.showOnly r).alphas n = 1) ↔ v.alph = 1 ∨ r.start ≤ v.opaqueUpTo := by
  simp only [View.showOnly, h.alphas]
  constructor
  · intro hall
    by_contra hnot
    obtain ⟨halph, hstart⟩ := not_or.mp hnot
    obtain ⟨m, hm⟩ := h.even
    have hle := r.start_le
    have hfirst := hall m (by omega)
    rw [if_neg (by omega), if_neg (by omega)] at hfirst
    exact halph hfirst
  · rintro (halph | hstart) n hn
    · simp [halph]
    · by_cases hr : r.start ≤ 2 * n
      · rw [if_pos ⟨hr, hn⟩]
      · rw [if_neg fun hboth => hr hboth.1, if_pos (by omega)]

theorem Inv.showOnly (h : Inv v) (hok : v.alph = 1 ∨ r.start ≤ v.opaqueUpTo) : Inv (v.showOnly r) := by
  refine ⟨h.painted, h.unpainted, fun n => ?_, max_even h.even r.stop_even, h.cleared_le⟩
  simp only [View.showOnly, h.alphas, lt_max_iff]
  rcases hok with halph | hstart
  · simp [halph]
  · by_cases hn : 2 * n < v.opaqueUpTo
    · simp only [hn, if_true, true_or]
      split <;> rfl
    · by_cases hr : 2 * n < r.stop
      · rw [if_pos ⟨by omega, hr⟩, if_pos (Or.inr hr)]
      · rw [if_neg fun hboth => hr hboth.2, if_neg hn, if_neg (by simp [hn, hr])]

theorem Inv.paint (h : Inv v) (r : Range count) : Inv (v.paint r) := by
  have hpaint (k : ℕ) : (v.paint r).colors k = if r.Mem k then .highlight else v.colors k := rfl
  have hdata : (v.paint r).printerColorData = v.printerColorData ++ [r] := rfl
  refine ⟨fun k hk => ?_, fun k hk => ?_, h.alphas, h.even, h.cleared_le⟩
  · rw [hpaint]
    by_cases hr : r.Mem k
    · rw [if_pos hr]
    · obtain ⟨p, hp, hmem⟩ := hk
      rw [hdata, List.mem_append, List.mem_singleton] at hp
      rcases hp with hp | rfl
      · rw [if_neg hr, h.painted k ⟨p, hp, hmem⟩]
      · exact absurd hmem hr
  · have hr : ¬ r.Mem k := fun hr => hk ⟨r, by simp [hdata], hr⟩
    rw [hpaint, if_neg hr]
    exact h.unpainted k fun ⟨p, hp, hmem⟩ => hk ⟨p, by simp [hdata, hp], hmem⟩

/-- **The colours** of a layer that is painted are as they should be exactly if it holds what was painted before, and
the vertices outside it were all cleared or none. -/
theorem paint_colors_iff (h : Inv v) (r : Range count) :
    ((∀ k < count, (v.paint r).colors k = .highlight ↔ r.Mem k) ∧
        ∃ base, base ≠ Color.highlight ∧ ∀ k < count, ¬ r.Mem k → (v.paint r).colors k = base) ↔
      (∀ p ∈ v.printerColorData, r.Covers p.start p.stop) ∧ (r.Covers 0 v.cleared ∨ r.Covers v.cleared count) := by
  have hpaint (k : ℕ) : (v.paint r).colors k = if r.Mem k then .highlight else v.colors k := rfl
  simp only [hpaint, Range.covers_iff]
  constructor
  · rintro ⟨hexact, base, -, hbase⟩
    have hcovers : ∀ p ∈ v.printerColorData, ∀ k, p.start ≤ k → k < p.stop → r.Mem k := by
      intro p hp k hstart hstop
      have hmem : ∃ p ∈ v.printerColorData, p.Mem k := ⟨p, hp, hstart, hstop⟩
      refine (hexact k (hstop.trans_le p.stop_le)).mp ?_
      rw [h.painted k hmem, ite_self]
    refine ⟨hcovers, ?_⟩
    -- a vertex outside the layer has the colour of its side
    have hside : ∀ k < count, ¬ r.Mem k → base = if k < v.cleared then .grey84 else .grey48 := by
      intro k hk hr
      have hnone : ¬ ∃ p ∈ v.printerColorData, p.Mem k := fun ⟨p, hp, hmem⟩ => hr (hcovers p hp k hmem.1 hmem.2)
      have hcolor := hbase k hk hr
      rw [if_neg hr, h.unpainted k hnone] at hcolor
      exact hcolor.symm
    by_contra hnot
    obtain ⟨hbelow, habove⟩ := not_or.mp hnot
    push Not at hbelow habove
    obtain ⟨i, -, hi, hiout⟩ := hbelow
    obtain ⟨j, hj, hjcount, hjout⟩ := habove
    have hgrey := (hside i (hi.trans_le h.cleared_le) hiout).symm.trans (hside j hjcount hjout)
    rw [if_pos hi, if_neg (by omega)] at hgrey
    cases hgrey
  · rintro ⟨hcovers, hside⟩
    have hnone : ∀ k, ¬ r.Mem k → ¬ ∃ p ∈ v.printerColorData, p.Mem k :=
      fun k hr ⟨p, hp, hmem⟩ => hr (hcovers p hp k hmem.1 hmem.2)
    constructor
    · intro k _
      by_cases hr : r.Mem k
      · simp [hr]
      · rw [if_neg hr, h.unpainted k (hnone k hr)]
        simp only [hr, iff_false]
        split <;> decide
    · rcases hside with hbelow | habove
      · refine ⟨.grey48, by decide, fun k _ hr => ?_⟩
        rw [if_neg hr, h.unpainted k (hnone k hr), if_neg fun hk => hr (hbelow k (Nat.zero_le k) hk)]
      · refine ⟨.grey84, by decide, fun k hk hr => ?_⟩
        rw [if_neg hr, h.unpainted k (hnone k hr), if_pos (Nat.lt_of_not_le fun hle => hr (habove k hle hk))]

variable [LinearOrder K] [Zero K] {indexData : List (K × Range count)} {small : Bool}

/-- A call of `setModelAlph`. -/
theorem Inv.setModelAlph (h : Inv v) (alph : Option ℚ) (key : ZData K) :
    (ShownAfter indexData small v (.setModelAlph alph key) ↔ StepOk indexData v (.setModelAlph alph key)) ∧
      Inv (step indexData small v (.setModelAlph alph key)) := by
  -- the view when the layer is looked up: other alphas, the same colours and ranges
  obtain ⟨w, hw, hdata, hcleared, hstep⟩ : ∃ w, Inv w ∧ w.printerColorData = v.printerColorData ∧
      w.cleared = v.cleared ∧ (key = .finished ∧ step indexData small v (.setModelAlph alph key) = w ∨
        step indexData small v (.setModelAlph alph key) = match modelLayer indexData key with
          | none => w
          | some r => (w.showTo r).paint r) := by
    cases key with
    | finished => exact ⟨v, h, rfl, rfl, Or.inl ⟨rfl, rfl⟩⟩
    | undefined | text key | number key =>
      cases halph : if small then some (1 / 5) else alph with
      | none => exact ⟨v, h, rfl, rfl, Or.inr (by simp only [step, ModelColor.setModelAlph, halph])⟩
      | some a => exact ⟨v.fill a, h.fill a, rfl, rfl, Or.inr (by simp only [step, ModelColor.setModelAlph, halph])⟩
  cases hlayer : modelLayer indexData key with
  | none =>
    simp only [ShownAfter, StepOk, hlayer, Option.mem_def, reduceCtorEq, false_implies, implies_true, true_and]
    rcases hstep with ⟨-, hstep⟩ | hstep
    · rwa [hstep]
    · rw [hstep, hlayer]
      exact hw
  | some r =>
    rcases hstep with ⟨rfl, -⟩ | hstep
    · cases hlayer
    rw [hlayer] at hstep
    have hshow := hw.showTo r
    have hiff := paint_colors_iff hshow r
    simp only [ShownAfter, StepOk, hlayer, Option.mem_some_iff, forall_eq', hstep]
    have hranges : (w.showTo r).printerColorData = v.printerColorData := hdata
    have hclear : (w.showTo r).cleared = v.cleared := hcleared
    rw [hranges, hclear] at hiff
    refine ⟨?_, hshow.paint r⟩
    rw [← hiff]
    constructor
    · exact fun hshown => ⟨hshown.highlight, hshown.base⟩
    · rintro ⟨hexact, hbase⟩
      exact ⟨hexact, hbase, fun n hn => if_pos hn⟩

/-- A call of `setIndexModelAlph`. -/
theorem Inv.setIndexModelAlph (h : Inv v) (zData : ZData K) :
    (ShownAfter indexData small v (.setIndexModelAlph zData) ↔ StepOk indexData v (.setIndexModelAlph zData)) ∧
      (StepOk indexData v (.setIndexModelAlph zData) → Inv (step indexData small v (.setIndexModelAlph zData))) := by
  have hclear := h.clearPrinterLayerColor
  obtain ⟨hcleared, hupTo, halph⟩ := cleared_clearPrinterLayerColor v
  have hnone : v.clearPrinterLayerColor.printerColorData = [] := rfl
  by_cases hfinished : zData = .finished
  · subst hfinished
    have hok : StepOk indexData v (.setIndexModelAlph .finished) := by simp [StepOk, indexLayer]
    refine ⟨iff_of_true (fun k _ => ?_) hok, fun _ => hclear⟩
    have hcolor := hclear.unpainted k (by simp [hnone])
    change v.clearPrinterLayerColor.colors k ≠ .highlight
    rw [hcolor]
    split <;> decide
  have hstep : step indexData small v (.setIndexModelAlph zData) = match indexLayer indexData zData with
      | none => v
      | some r => (v.clearPrinterLayerColor.showOnly r).paint r := by
    cases zData with
    | finished => exact absurd rfl hfinished
    | undefined | text key | number key => rfl
  have hafter : ShownAfter indexData small v (.setIndexModelAlph zData) ↔
      ∀ r ∈ indexLayer indexData zData, Shown (step indexData small v (.setIndexModelAlph zData)) r := by
    cases zData with
    | finished => exact absurd rfl hfinished
    | undefined | text key | number key => exact Iff.rfl
  rw [hafter]
  cases hlayer : indexLayer indexData zData with
  | none =>
    rw [hlayer] at hstep
    simp only [StepOk, hlayer, Option.mem_def, reduceCtorEq, false_implies, implies_true, true_and, hstep, true_implies]
    exact h
  | some r =>
    rw [hlayer] at hstep
    simp only [StepOk, hlayer, Option.mem_some_iff, forall_eq', hstep]
    -- clearing leaves no range, so the colours depend on what has been cleared alone
    have hcolors := paint_colors_iff hclear r
    rw [hnone, hcleared] at hcolors
    simp only [List.not_mem_nil, false_implies, implies_true, true_and] at hcolors
    have halphas := showOnly_alphas_iff hclear r
    rw [halph, hupTo] at halphas
    rw [← hcolors, ← halphas]
    refine ⟨⟨fun hshown => ⟨⟨hshown.highlight, hshown.base⟩, hshown.alphas⟩, ?_⟩, fun hok => ?_⟩
    · rintro ⟨⟨hexact, hbase⟩, hall⟩
      exact ⟨hexact, hbase, hall⟩
    · refine (hclear.showOnly ?_).paint r
      rw [halph, hupTo]
      exact halphas.mp hok.2

/-- **The highlighted layer**: after every call of a run the layer selected is shown, and nothing is highlighted after
`finished`, exactly if every call is one of those above. -/
theorem shown_run_iff (indexData : List (K × Range count)) (small : Bool) (calls : List (Call K)) :
    AllSteps (step indexData small) (ShownAfter indexData small) (View.start count) calls ↔
      AllSteps (step indexData small) (StepOk indexData) (View.start count) calls :=
  allSteps_iff_of_invariant (fun v c hI => by
    cases c with
    | setModelAlph alph key => exact ⟨(hI.setModelAlph alph key).1, fun _ => (hI.setModelAlph alph key).2⟩
    | setIndexModelAlph zData => exact hI.setIndexModelAlph zData) inv_start calls

/-- Three layers of one segment each. -/
def threeLayers : List (ℚ × Range 6) :=
  [(1, ⟨0, 2, by decide, by decide, by decide, by decide⟩), (2, ⟨2, 4, by decide, by decide, by decide, by decide⟩),
    (3, ⟨4, 6, by decide, by decide, by decide, by decide⟩)]

/-- The print goes on to the second layer: the first layer is of another grey than the third. -/
theorem second_layer_two_greys :
    ¬ AllSteps (step threeLayers false) (ShownAfter threeLayers false) (View.start 6)
      [.setIndexModelAlph (.number (some 1)), .setIndexModelAlph (.number (some 2))] := by
  rintro ⟨-, hsecond, -⟩
  obtain ⟨base, -, hbase⟩ := (hsecond ⟨2, 4, by decide, by decide, by decide, by decide⟩ (by decide)).base
  have hfirst := hbase 0 (by decide) (by decide)
  have hthird := hbase 4 (by decide) (by decide)
  revert hthird
  rw [← hfirst]
  decide

end Shown

end Cxsw.ModelColor
