import Mathlib.Tactic.NormNum
import Cxsw.Lib.JsArray
import Cxsw.Viewer.LayerIndex
import Cxsw.Viewer.ModelColorManager

/-!
# Cxsw.Viewer.LayerSelect — the layer of a height (`managers/ModelColorManager.ts`, `toolbar/thirdjs/worker.js`)

`parse` enters the range of each layer under its height, as a property of an object; `setModelAlph` looks for a height
among the names of the properties.  `for ... in` goes through the heights that are array indices first, in ascending
order, and then through the others as they were inserted.

A name is the height that it is the text of: the text of a number is read back as the number.

* `ttData`, `selectLayer`: the search of `setModelAlph`.
* `modelLayer_eq_selectLayer`: the search in an index that is already in order is the same.
* `parse_selectLayer`: each layer of a text is selected by its own height.
* `selectLayer_iff`: the heights asked for at which the layer selected is the lowest one from the height on.
* `three_tenths_selects_one`: 1 is found before 0.4.
-/

namespace Cxsw.Worker

open Js

/-! ## The search -/

section Defs

/-- A height as the name of a property: `undefined` or a number. -/
abbrev Name := Option Number

/-- `parseFloat` of a name. -/
def Name.value (name : Name) : Number := name.getD .nan

/-- An array index is a whole number below `2 ^ 32 - 1`. -/
def Name.arrayIndex : Name → Option ℕ
  | some (.finite q) => if q.den = 1 ∧ 0 ≤ q.num ∧ q.num < 4294967295 then some q.num.toNat else none
  | _ => none

/-- `ttData`, for the names in the order of their insertion and the height asked for.  The loop for the height 0 ends in
its first round: it returns unless the first name is 0. -/
def ttData (names : List Name) (keyData : Number) : Option Name :=
  let indexData := ownKeys Name.arrayIndex names
  if keyData.eq (.finite 0) && indexData.head?.any (fun dkey => !(Name.value dkey).eq keyData) then none
  else if some keyData ∈ names then some (some keyData)
  else indexData.find? fun key => keyData.le (Name.value key)

/-- `indexData[ttData]`. -/
def selectLayer {α : Type*} (name : α → Name) (index : List α) (keyData : Number) : Option α :=
  (ttData (index.map name) keyData).bind fun ttData => lookup name index ttData

end Defs

/-! ## The property -/

section Property

/-- A height of the index. -/
def IsHeight (names : List Name) (h : Number) : Prop := some h ∈ names ∧ h ≠ .nan

/-- The height asked for lies between two heights of the index. -/
def InRange (names : List Name) (z : Number) : Prop :=
  (∃ lo, IsHeight names lo ∧ lo.le z = true) ∧ ∃ hi, IsHeight names hi ∧ z.le hi = true

/-- The smallest height from `z` on. -/
structure Smallest (names : List Name) (z h : Number) : Prop where
  height : IsHeight names h
  le : z.le h = true
  least : ∀ h', IsHeight names h' → z.le h' = true → h.le h' = true

/-- The heights from `z` on whose order leads to the smallest: it is an array index, or none of them is one and it was
inserted first of them. -/
def SmallestFirst (names : List Name) (z : Number) : Prop :=
  ∃ h, Smallest names z h ∧
    ((Name.arrayIndex (some h)).isSome ∨
      (∀ h', IsHeight names h' → z.le h' = true → Name.arrayIndex (some h') = none) ∧
        names.find? (fun name => z.le (Name.value name)) = some (some h))

/-- The heights that are looked up right: the heights of the index, and, but for 0, those from which on the smallest
comes first. -/
def LookedUp (names : List Name) (z : Number) : Prop :=
  IsHeight names z ∨ z ≠ .finite 0 ∧ SmallestFirst names z

end Property

/-! ## The search is right -/

section Search

variable {names : List Name} {z h h' : Number}

theorem eq_of_arrayIndex {name : Name} {n : ℕ} (hn : name.arrayIndex = some n) : name = some (.finite n) := by
  unfold Name.arrayIndex at hn
  split at hn
  · rename_i q
    split_ifs at hn with hq
    obtain ⟨hden, hnum, -⟩ := hq
    have hcast : (q.num.toNat : ℤ) = q.num := Int.toNat_of_nonneg hnum
    rw [Option.some.injEq] at hn
    rw [← Rat.coe_int_num_of_den_eq_one hden, ← hcast, hn]
    norm_cast
  · cases hn

theorem arrayIndex_zero : Name.arrayIndex (some (.finite 0)) = some 0 := by decide

theorem isHeight_of_le {name : Name} (hmem : name ∈ names) (hle : z.le (Name.value name) = true) :
    ∃ h, name = some h ∧ IsHeight names h ∧ z.le h = true := by
  cases name with
  | none => exact absurd rfl (Number.ne_nan_of_le hle).2
  | some h => exact ⟨h, rfl, ⟨hmem, (Number.ne_nan_of_le hle).2⟩, hle⟩

/-- The search from a height on finds the smallest exactly where that one comes first. -/
theorem find_smallest_iff :
    (∃ h, (ownKeys Name.arrayIndex names).find? (fun key => z.le (Name.value key)) = some (some h) ∧
        Smallest names z h) ↔ SmallestFirst names z := by
  constructor
  · rintro ⟨h, hfind, hsmall⟩
    refine ⟨h, hsmall, ?_⟩
    obtain ⟨-, -, ⟨n, hn, -⟩ | ⟨hnone, hfirst⟩⟩ := find?_ownKeys_eq_some hfind
    · exact Or.inl (by rw [hn]; rfl)
    · exact Or.inr ⟨fun h' hh' hle => hnone (some h') hh'.1 hle, hfirst⟩
  · rintro ⟨h, hsmall, hfirst⟩
    refine ⟨h, ?_, hsmall⟩
    cases hfind : (ownKeys Name.arrayIndex names).find? (fun key => z.le (Name.value key)) with
    | none =>
      have hno := find?_ownKeys_eq_none.mp hfind (some h) hsmall.height.1
      rw [show Name.value (some h) = h from rfl, hsmall.le] at hno
      cases hno
    | some key =>
      obtain ⟨hmem, hle, hcases⟩ := find?_ownKeys_eq_some hfind
      obtain ⟨h', rfl, hheight, hle'⟩ := isHeight_of_le hmem hle
      congr 2
      rcases hfirst with hindex | ⟨hnone, hfirst⟩
      · obtain ⟨m, hm⟩ := Option.isSome_iff_exists.mp hindex
        rcases hcases with ⟨n, hn, hleast⟩ | ⟨hnone, -⟩
        · -- both are natural numbers, each at most the other
          have hnm : n ≤ m := hleast (some h) hsmall.height.1 hsmall.le m hm
          have hh := Option.some.inj (eq_of_arrayIndex hm)
          have hh' := Option.some.inj (eq_of_arrayIndex hn)
          refine Number.le_antisymm ?_ (hsmall.least h' hheight hle')
          rw [hh, hh', Number.le_finite, decide_eq_true_eq]
          exact_mod_cast hnm
        · have := hnone (some h) hsmall.height.1 hsmall.le
          rw [hm] at this
          cases this
      · rcases hcases with ⟨n, hn, -⟩ | ⟨-, hfirst'⟩
        · have := hnone h' hheight hle'
          rw [hn] at this
          cases this
        · rw [hfirst'] at hfirst
          exact Option.some.inj (Option.some.inj hfirst)

theorem head_zero (hzero : some (.finite 0) ∈ names) :
    (ownKeys Name.arrayIndex names).head? = some (some (.finite 0)) := by
  have hhead : (ownKeys Name.arrayIndex names).head? = (ownKeys Name.arrayIndex names).find? fun _ => true := by
    cases ownKeys Name.arrayIndex names <;> rfl
  rw [hhead]
  cases hfind : (ownKeys Name.arrayIndex names).find? fun _ => true with
  | none => exact absurd (find?_ownKeys_eq_none.mp hfind _ hzero) (by decide)
  | some key =>
    obtain ⟨-, -, ⟨n, hn, hleast⟩ | ⟨hnone, -⟩⟩ := find?_ownKeys_eq_some hfind
    · have hle := hleast _ hzero rfl 0 arrayIndex_zero
      rw [eq_of_arrayIndex hn, Nat.le_zero.mp hle]
      rfl
    · have := hnone _ hzero rfl
      rw [arrayIndex_zero] at this
      cases this

/-- The first round of the loop for the height 0 goes on exactly if 0 is a height. -/
theorem returns_iff (hz : ∃ hi, IsHeight names hi ∧ z.le hi = true) :
    (z.eq (.finite 0) && (ownKeys Name.arrayIndex names).head?.any fun dkey => !(Name.value dkey).eq z) = true ↔
      z = .finite 0 ∧ ¬ IsHeight names z := by
  rw [Bool.and_eq_true, Number.eq_iff]
  obtain ⟨hi, hheight, -⟩ := hz
  constructor
  · rintro ⟨⟨-, rfl⟩, hany⟩
    refine ⟨rfl, fun hzero => ?_⟩
    rw [head_zero hzero.1] at hany
    simp [Name.value] at hany
  · rintro ⟨rfl, hno⟩
    refine ⟨⟨by simp, rfl⟩, ?_⟩
    cases hhead : (ownKeys Name.arrayIndex names).head? with
    | none =>
      rw [List.head?_eq_none_iff] at hhead
      have hmem : some hi ∈ ownKeys Name.arrayIndex names := mem_ownKeys.mpr hheight.1
      rw [hhead] at hmem
      cases hmem
    | some key =>
      have hmem : key ∈ names := mem_ownKeys.mp (List.mem_of_mem_head? hhead)
      rw [Option.any_some, Bool.not_eq_true', Bool.eq_false_iff]
      intro heq
      obtain ⟨hne, hvalue⟩ := Number.eq_iff.mp heq
      cases key with
      | none => exact hne rfl
      | some h =>
        have hh : h = .finite 0 := hvalue
        rw [hh] at hmem
        exact hno ⟨hmem, by simp⟩

theorem ttData_height (hheight : IsHeight names z) : ttData names z = some (some z) := by
  have hreturns := returns_iff ⟨z, hheight, Number.le_refl hheight.2⟩
  unfold ttData
  dsimp only
  rw [if_neg (fun h => (hreturns.mp h).2 hheight), if_pos hheight.1]

theorem ttData_iff (hz : ∃ hi, IsHeight names hi ∧ z.le hi = true) :
    (∃ h, ttData names z = some (some h) ∧ Smallest names z h) ↔ LookedUp names z := by
  have hreturns := returns_iff hz
  have hne : z ≠ .nan := by
    obtain ⟨hi, -, hle⟩ := hz
    exact (Number.ne_nan_of_le hle).1
  unfold LookedUp
  by_cases hheight : IsHeight names z
  · have httData := ttData_height hheight
    refine ⟨fun _ => Or.inl hheight, fun _ => ⟨z, httData, hheight, Number.le_refl hne, fun h' _ hle => hle⟩⟩
  · have hno : some z ∉ names := fun hmem => hheight ⟨hmem, hne⟩
    by_cases hzero : z = .finite 0
    · have httData : ttData names z = none := by
        unfold ttData
        dsimp only
        rw [if_pos (hreturns.mpr ⟨hzero, hheight⟩)]
      subst hzero
      simp [httData, hheight]
    · have httData : ttData names z =
          (ownKeys Name.arrayIndex names).find? fun key => z.le (Name.value key) := by
        unfold ttData
        dsimp only
        rw [if_neg (fun h => hzero (hreturns.mp h).1), if_neg hno]
      rw [httData, find_smallest_iff]
      simp [hheight, hzero]

end Search

/-! ## The layers -/

section Select

variable {α : Type*} {name : α → Name} {index : List α} {z : Number}

theorem ttData_mem {names : List Name} {key : Name} (h : ttData names z = some key) : key ∈ names := by
  unfold ttData at h
  dsimp only at h
  split_ifs at h with hzero hmem
  · rwa [← Option.some.inj h]
  · exact mem_ownKeys.mp (List.mem_of_find?_eq_some h)

/-- The layer selected is one with the name found. -/
theorem selectLayer_eq_some {layer : α} (h : selectLayer name index z = some layer) :
    layer ∈ index ∧ ttData (index.map name) z = some (name layer) := by
  obtain ⟨key, hkey, hlookup⟩ := Option.bind_eq_some_iff.mp h
  have hname : name layer = key := by simpa using List.find?_some hlookup
  exact ⟨lookup_mem name hlookup, by rw [hname]; exact hkey⟩

theorem exists_selectLayer {key : Name} (h : ttData (index.map name) z = some key) :
    ∃ layer, selectLayer name index z = some layer ∧ name layer = key := by
  obtain ⟨a, ha, hkey⟩ := List.mem_map.mp (ttData_mem h)
  cases hlookup : lookup name index key with
  | none => exact absurd hkey ((lookup_eq_none name).mp hlookup a ha)
  | some layer =>
    refine ⟨layer, ?_, by simpa using List.find?_some hlookup⟩
    rw [selectLayer, h]
    exact hlookup

/-- The layer of the smallest height from `z` on is selected. -/
def Selects (name : α → Name) (index : List α) (z : Number) : Prop :=
  ∃ layer h, selectLayer name index z = some layer ∧ name layer = some h ∧ Smallest (index.map name) z h

/-- **The layer of a height**: for an index of any heights in any order and a height in their range, the layer of the
smallest height from it on is selected exactly if the height is looked up right. -/
theorem selectLayer_iff (name : α → Name) (index : List α) {z : Number} (hz : InRange (index.map name) z) :
    Selects name index z ↔ LookedUp (index.map name) z := by
  rw [← ttData_iff hz.2]
  constructor
  · rintro ⟨layer, h, hselect, hname, hsmall⟩
    exact ⟨h, by rw [(selectLayer_eq_some hselect).2, hname], hsmall⟩
  · rintro ⟨h, httData, hsmall⟩
    obtain ⟨layer, hselect, hname⟩ := exists_selectLayer httData
    exact ⟨layer, h, hselect, hname, hsmall⟩

/-- A range is entered only under a height that has none. -/
theorem enter_nodup {b : Buffers} (h : (b.indexGcodeData.map Range.key).Nodup) (layerVertex : List Number) :
    ((b.enter layerVertex).indexGcodeData.map Range.key).Nodup := by
  unfold Buffers.enter
  dsimp only
  split_ifs with hfound
  · exact h
  · rw [List.map_append, List.nodup_append']
    refine ⟨h, List.nodup_singleton _, ?_⟩
    intro key hkey hlast
    obtain ⟨r, hr, hrkey⟩ := List.mem_map.mp hkey
    refine hfound (List.any_eq_true.mpr ⟨r, hr, ?_⟩)
    simpa [hrkey] using hlast

theorem step_nodup {b : Buffers} (h : (b.indexGcodeData.map Range.key).Nodup) (count flag t : ℕ) (p : Layer × ℕ) :
    ((Buffers.step count flag t b p).indexGcodeData.map Range.key).Nodup := by
  obtain ⟨layer, i⟩ := p
  refine enter_nodup ?_ _
  split_ifs <;> simpa only [pushLayer_eq] using h

theorem parse_nodup {round : ℚ → Number} {data : List Char} {modelSize : Option Number} {b : Buffers}
    (hb : parse round data modelSize = some b) : (b.indexGcodeData.map Range.key).Nodup := by
  obtain ⟨flag, -, rfl⟩ := Option.map_eq_some_iff.mp hb
  unfold fillBuffers
  generalize (readLayers round data).layers.zipIdx.drop flag = kept
  induction kept using List.reverseRecOn with
  | nil => exact List.nodup_nil
  | append_singleton kept p ih =>
    rw [List.foldl_append]
    exact step_nodup ih _ _ _ p

/-- Each layer in the index of a text is selected by its own height. -/
theorem parse_selectLayer {round : ℚ → Number} {data : List Char} {modelSize : Option Number} {b : Buffers}
    (hb : parse round data modelSize = some b) {layer : Range} (hlayer : layer ∈ b.indexGcodeData) {h : Number}
    (hkey : layer.key = some h) (hne : h ≠ .nan) : selectLayer Range.key b.indexGcodeData h = some layer := by
  have hheight : IsHeight (b.indexGcodeData.map Range.key) h := ⟨List.mem_map.mpr ⟨layer, hlayer, hkey⟩, hne⟩
  rw [selectLayer, ttData_height hheight, Option.bind_some, ← hkey]
  exact lookup_of_mem Range.key (parse_nodup hb) hlayer

/-- Six layers, one of them at a whole height. -/
def layersToOne : List Char :=
  "G1 X1 Z0.2 E1\nG1 X2 Z0.4 E2\nG1 X3 Z0.6 E3\nG1 X4 Z0.8 E4\nG1 X5 Z1 E5\nG1 X6 Z1.2 E6".toList

/-- Its heights, as they are inserted. -/
def namesToOne : List Name := [1 / 5, 2 / 5, 3 / 5, 4 / 5, 1, 6 / 5].map fun h => some (.finite h)

theorem inRange_namesToOne {z : ℚ} (hlo : 1 / 5 ≤ z) (hhi : z ≤ 6 / 5) : InRange namesToOne (.finite z) :=
  ⟨⟨.finite (1 / 5), ⟨by decide +kernel, by decide⟩, by simpa using hlo⟩,
    ⟨.finite (6 / 5), ⟨by decide +kernel, by decide⟩, by simpa using hhi⟩⟩

theorem selectLayer_iff_toOne : InRange (namesToOne.map id) (.finite (9 / 10)) ∧
    (Selects id namesToOne (.finite (9 / 10)) ↔ LookedUp (namesToOne.map id) (.finite (9 / 10))) := by
  have hz : InRange (namesToOne.map id) (.finite (9 / 10)) := by
    rw [List.map_id]
    exact inRange_namesToOne (by norm_num) (by norm_num)
  exact ⟨hz, selectLayer_iff id namesToOne hz⟩

/-- In the index of this text the layer at 1 is selected for the height 0.3, not the one at 0.4. -/
theorem three_tenths_selects_one :
    ∃ b layer, parse .finite layersToOne none = some b ∧ InRange (b.indexGcodeData.map Range.key) (.finite (3 / 10)) ∧
      selectLayer Range.key b.indexGcodeData (.finite (3 / 10)) = some layer ∧ layer.key = some (.finite 1) ∧
      ¬ Selects Range.key b.indexGcodeData (.finite (3 / 10)) := by
  have hparse : (parse .finite layersToOne none).map (fun b => b.indexGcodeData.map Range.key) = some namesToOne := by
    decide +kernel
  obtain ⟨b, hb, hnames⟩ := Option.map_eq_some_iff.mp hparse
  have httData : ttData (b.indexGcodeData.map Range.key) (.finite (3 / 10)) = some (some (.finite 1)) := by
    rw [hnames]
    decide +kernel
  obtain ⟨layer, hselect, hname⟩ := exists_selectLayer httData
  refine ⟨b, layer, hb, ?_, hselect, hname, ?_⟩
  · rw [hnames]
    exact inRange_namesToOne (by norm_num) (by norm_num)
  · rintro ⟨layer', h, hselect', hname', hsmall⟩
    rw [hselect] at hselect'
    cases hselect'
    rw [hname] at hname'
    cases hname'
    rw [hnames] at hsmall
    have hlower := hsmall.least (.finite (2 / 5)) ⟨by decide +kernel, by decide⟩ (by decide +kernel)
    rw [Number.le_finite] at hlower
    norm_num at hlower

end Select

/-! ## The index in order -/

section InOrder

open ModelColor

variable {count : ℕ}

/-- The height of an entry as a name. -/
def entryName (entry : ℚ × ModelColor.Range count) : Name := some (.finite entry.1)

theorem lookup_eq_map_lookup (index : List (ℚ × ModelColor.Range count)) (z : ℚ) :
    index.lookup z = (lookup Prod.fst index z).map Prod.snd := by
  induction index with
  | nil => rfl
  | cons e index ih =>
    obtain ⟨k, r⟩ := e
    by_cases hz : z = k
    · subst hz
      simp [lookup]
    · have hz' : ¬ k = z := fun h => hz h.symm
      have hne : (z == k) = false := by simpa using hz
      rw [List.lookup_cons, hne]
      simp only [ih, lookup, List.find?_cons, decide_eq_false hz']

/-- In the order of the properties the search of `modelLayer` is that of `selectLayer`. -/
theorem modelLayer_eq_selectLayer (index : List (ℚ × ModelColor.Range count)) (hkeys : (index.map entryName).Nodup)
    (z : ℚ) :
    modelLayer (ownKeys (fun e => (entryName e).arrayIndex) index) (.number (some z)) =
      (selectLayer entryName index (.finite z)).map Prod.snd := by
  have hperm : (ownKeys (fun e => (entryName e).arrayIndex) index).Perm index := ownKeys_perm
  have horder : ownKeys Name.arrayIndex (index.map entryName) =
      (ownKeys (fun e => (entryName e).arrayIndex) index).map entryName := ownKeys_map entryName index
  generalize ownKeys (fun e => (entryName e).arrayIndex) index = ordered at hperm horder
  have hfst : (ordered.map Prod.fst).Nodup := by
    have hnames : (ordered.map entryName).Nodup := (hperm.map entryName).nodup_iff.mpr hkeys
    have hcomp : ordered.map entryName = (ordered.map Prod.fst).map fun q => some (Number.finite q) := by
      rw [List.map_map]
      rfl
    rw [hcomp] at hnames
    exact hnames.of_map
  unfold selectLayer ttData
  rw [horder]
  simp only [modelLayer, ZData.parseFloat, List.head?_map, Option.any_map]
  by_cases hzero : z = 0 ∧ ordered.head?.any fun e => e.1 ≠ 0
  · obtain ⟨rfl, hhead⟩ := hzero
    have hhead' : (ordered.head?.any fun e => !(Name.value (entryName e)).eq (.finite 0)) = true := by
      simpa [entryName, Name.value] using hhead
    rw [if_pos ⟨rfl, hhead⟩, if_pos (by simp [hhead'])]
    rfl
  · have hhead' : ¬ ((Number.finite z).eq (.finite 0) &&
        ordered.head?.any fun e => !(Name.value (entryName e)).eq (.finite z)) = true := by
      simp only [Number.eq_finite, Bool.and_eq_true, decide_eq_true_eq]
      rintro ⟨rfl, hhead⟩
      exact hzero ⟨rfl, by simpa [entryName, Name.value] using hhead⟩
    rw [if_neg hzero, if_neg hhead', layerAt, Option.bind_some, lookup_eq_map_lookup]
    by_cases hmem : some (Number.finite z) ∈ index.map entryName
    · obtain ⟨e, he, hname⟩ := List.mem_map.mp hmem
      have hz : e.1 = z := by simpa [entryName] using hname
      have hin : lookup Prod.fst ordered e.1 = some e := lookup_of_mem Prod.fst hfst (hperm.mem_iff.mpr he)
      have hout : lookup entryName index (entryName e) = some e := lookup_of_mem entryName hkeys he
      rw [if_pos hmem, ← hz, hin, Option.bind_some]
      rw [hz, ← hname, hout]
      rfl
    · have hnone : lookup Prod.fst ordered z = none := by
        refine (lookup_eq_none Prod.fst).mpr fun e he hz => hmem ?_
        refine List.mem_map.mpr ⟨e, hperm.mem_iff.mp he, ?_⟩
        rw [entryName, hz]
      rw [if_neg hmem, hnone, List.find?_map]
      simp only [Option.map_none]
      have hpred : ((fun key => (Number.finite z).le (Name.value key)) ∘ entryName : ℚ × ModelColor.Range count →
        Bool) =
          fun e => decide (z ≤ e.1) := by
        funext e
        exact Number.le_finite z e.1
      rw [hpred]
      cases hfind : ordered.find? fun e => decide (z ≤ e.1) with
      | none => rfl
      | some e =>
        have he : e ∈ index := hperm.mem_iff.mp (List.mem_of_find?_eq_some hfind)
        rw [Option.map_some, Option.map_some, Option.bind_some, lookup_of_mem entryName hkeys he]
        rfl

end InOrder

end Cxsw.Worker
