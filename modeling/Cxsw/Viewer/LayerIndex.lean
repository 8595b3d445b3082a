import Mathlib.Data.List.Chain
import Cxsw.Viewer.Worker

/-!
# Cxsw.Viewer.LayerIndex — the index of the buffers of a G-code text (`3d-lib/toolbar/thirdjs/worker.js`)

The second loop of `parse` writes the layers that are kept one after the other and enters the range of each under its
height.

* `Filled.write`, `foldl_filled`: what the buffers hold after the layers before the last.
* `fillBuffers_indexOk_iff`: when the index matches the buffers, for a list of layers.
* `parse_indexOk_iff`: the same for a text.
-/

namespace Cxsw.Worker

open Js

/-! ## The order of the heights -/

section FlagTag

/-- The heights of the first six layers ascend. -/
def Ascending (layers : List Layer) : Prop := (layers.take 6).IsChain fun a b => a.z.lt b.z = true

instance (layers : List Layer) : Decidable (Ascending layers) :=
  inferInstanceAs (Decidable ((layers.take 6).IsChain fun a b => a.z.lt b.z = true))

/-- The place of the first layer that is written. -/
def firstKept (layers : List Layer) : ℕ := if Ascending layers then 0 else 2

theorem flagTag_cons (k : ℕ) (a : Layer) (layers : List Layer) :
    flagTag k (a :: layers) =
      if ((a :: layers).take (k + 1)).IsChain fun a b => a.z.lt b.z = true then
        if k ≤ layers.length then some 0 else none
      else some 2 := by
  induction k generalizing a layers with
  | zero => simp [flagTag]
  | succ k ih =>
    cases layers with
    | nil => simp [flagTag]
    | cons b layers =>
      rw [flagTag, ih]
      by_cases hlt : a.z.lt b.z = true
      · rw [if_pos hlt]
        exact if_congr (by simp [hlt]) (by simp) rfl
      · rw [if_neg hlt, if_neg (by simp [hlt])]

/-- Only ascending heights of fewer than six layers make the comparison throw. -/
theorem flagTag_spec (layers : List Layer) :
    flagTag 5 layers = if Ascending layers ∧ layers.length < 6 then none else some (firstKept layers) := by
  cases layers with
  | nil => simp [flagTag, Ascending]
  | cons a layers =>
    have hcompare := flagTag_cons 5 a layers
    change _ = if Ascending (a :: layers) then _ else _ at hcompare
    rw [hcompare]
    by_cases hchain : Ascending (a :: layers)
    · rw [if_pos hchain, firstKept, if_pos hchain]
      by_cases hlength : 5 ≤ layers.length
      · rw [if_pos hlength, if_neg]
        rintro ⟨-, hlt⟩
        rw [List.length_cons] at hlt
        omega
      · rw [if_neg hlength, if_pos]
        rw [List.length_cons]
        exact ⟨hchain, by omega⟩
    · rw [if_neg hchain, firstKept, if_neg hchain, if_neg]
      exact fun h => hchain h.1

end FlagTag

/-! ## The index and the buffers -/

section Index

/-- The vertex `v` lies in the range. -/
def Range.Mem (r : Range) (v : ℕ) : Prop := r.start ≤ v ∧ v < r.stop

/-- The index matches the buffers. -/
structure IndexOk (layers : List Layer) (b : Buffers) : Prop where
  colors : b.colors.length = b.vertexs.length
  alphs : 6 * b.alphs.length = b.vertexs.length
  ordered : b.indexGcodeData.Pairwise fun r r' => r.stop ≤ r'.start
  inside : ∀ r ∈ b.indexGcodeData, r.start ≤ r.stop ∧ 3 * r.stop ≤ b.vertexs.length
  keyed : ∀ v < b.vertexs.length / 3, ∃ i layer, b.owner[v]? = some i ∧ layers[i]? = some layer ∧
    ∃ r ∈ b.indexGcodeData, r.Mem v ∧ r.key = some layer.z ∧ ∀ r' ∈ b.indexGcodeData, r'.Mem v → r' = r
  once : ∀ i layer, layers[i]? = some layer → 3 * b.owner.count i ≤ layer.vertex.length

/-- The first layer that is written, and every `t`-th. -/
def regular (flag t : ℕ) (p : Layer × ℕ) : Bool := p.2 = flag ∨ p.2 % t = 0

/-- The layers that are written, with their places; the last is always one of them. -/
def keptLayers (layers : List Layer) (flag t : ℕ) : List (Layer × ℕ) :=
  (layers.zipIdx.drop flag).filter fun p => regular flag t p || p.2 + 1 = layers.length

/-- No two layers have the same height. -/
def Distinct (ks : List (Layer × ℕ)) : Prop := ks.Pairwise fun p q => p.1.z ≠ q.1.z

instance (ks : List (Layer × ℕ)) : Decidable (Distinct ks) :=
  inferInstanceAs (Decidable (ks.Pairwise fun p q => p.1.z ≠ q.1.z))

/-- The layers and the thinning step for which the index matches the buffers. -/
structure LayersOk (layers : List Layer) (t : ℕ) : Prop where
  compared : Ascending layers → 6 ≤ layers.length
  lastOnce : layers.length ≤ firstKept layers ∨ layers.length ≠ firstKept layers + 1 ∧ (layers.length - 1) % t ≠ 0
  heights : Distinct (keptLayers layers (firstKept layers) t)

end Index

/-! ## Writing a layer -/

section Write

variable {b : Buffers} {ks : List (Layer × ℕ)}

theorem foldl_pushCoordinate (b : Buffers) (vertex : List Number) :
    vertex.zipIdx.foldl Buffers.pushCoordinate b =
      { b with
        vertexs := b.vertexs ++ vertex
        colors := b.colors ++ List.replicate vertex.length 0.48
        alphs := b.alphs ++ List.replicate ((vertex.length + 5) / 6) 1.0 } := by
  induction vertex using List.reverseRecOn with
  | nil => simp
  | append_singleton vertex v ih =>
    rw [List.zipIdx_append, List.foldl_append, ih]
    by_cases hsix : vertex.length % 6 = 0
    · have hlength : (vertex.length + 1 + 5) / 6 = (vertex.length + 5) / 6 + 1 := by omega
      simp [Buffers.pushCoordinate, hsix, hlength, List.replicate_succ']
    · have hlength : (vertex.length + 1 + 5) / 6 = (vertex.length + 5) / 6 := by omega
      simp [Buffers.pushCoordinate, hsix, hlength, List.replicate_succ']

theorem pushLayer_eq (b : Buffers) (layer : Layer) (i : ℕ) :
    b.pushLayer layer i =
      { b with
        vertexs := b.vertexs ++ layer.vertex
        colors := b.colors ++ List.replicate layer.vertex.length 0.48
        alphs := b.alphs ++ List.replicate (layer.vertex.length / 6) 1.0
        owner := b.owner ++ List.replicate (layer.vertex.length / 3) i
        z := some layer.z } := by
  have hlength : (layer.vertex.length + 5) / 6 = layer.vertex.length / 6 := by
    have h := layer.six
    omega
  rw [Buffers.pushLayer, foldl_pushCoordinate, hlength]

/-- The arrays when the layers `ks` have been written, each once. -/
structure Written (b : Buffers) (ks : List (Layer × ℕ)) : Prop where
  colors : b.colors.length = b.vertexs.length
  alphs : 6 * b.alphs.length = b.vertexs.length
  owner : b.owner = ks.flatMap fun p => List.replicate (p.1.vertex.length / 3) p.2
  owners : 3 * b.owner.length = b.vertexs.length
  startIndex : b.startIndex = b.owner.length
  endIndex : b.endIndex = b.owner.length
  z : ks ≠ [] → ∃ p ∈ ks, b.z = some p.1.z

/-- The arrays and the index.  Where all heights differ every vertex is in the range of its height; else there is one
that is in no range. -/
structure Filled (b : Buffers) (ks : List (Layer × ℕ)) : Prop extends Written b ks where
  keys : ∀ z, (∃ r ∈ b.indexGcodeData, r.key = some z) ↔ ∃ p ∈ ks, p.1.z = z
  ordered : b.indexGcodeData.Pairwise fun r r' => r.stop ≤ r'.start
  inside : ∀ r ∈ b.indexGcodeData, r.start ≤ r.stop ∧ r.stop ≤ b.owner.length
  indexed : Distinct ks → ∀ v i, b.owner[v]? = some i →
    ∃ p ∈ ks, p.2 = i ∧ ∃ r ∈ b.indexGcodeData, r.key = some p.1.z ∧ r.Mem v
  missed : ¬ Distinct ks → ∃ v < b.owner.length, ∀ r ∈ b.indexGcodeData, ¬ r.Mem v

theorem filled_start : Filled Buffers.start [] where
  colors := rfl
  alphs := rfl
  owner := rfl
  owners := rfl
  startIndex := rfl
  endIndex := rfl
  z := by simp
  keys := by simp [Buffers.start]
  ordered := List.Pairwise.nil
  inside := by simp [Buffers.start]
  indexed := by simp [Buffers.start]
  missed := fun h => absurd List.Pairwise.nil h

theorem distinct_concat {p : Layer × ℕ} : Distinct (ks ++ [p]) ↔ Distinct ks ∧ ∀ q ∈ ks, q.1.z ≠ p.1.z := by
  simp [Distinct, List.pairwise_append]

theorem Filled.enter_nil (h : Filled b ks) (hks : ks ≠ []) : b.enter [] = b := by
  obtain ⟨p, hp, hz⟩ := h.z hks
  obtain ⟨r, hr, hkey⟩ := (h.keys p.1.z).mpr ⟨p, hp, rfl⟩
  have hfind : (b.indexGcodeData.any fun r => r.key = b.z) = true :=
    List.any_eq_true.mpr ⟨r, hr, by simp [hkey, hz]⟩
  have hstart : b.endIndex = b.startIndex := h.endIndex.trans h.startIndex.symm
  ext1 <;> simp [Buffers.enter, hfind, hstart]

/-- A layer that is written once. -/
def Buffers.write (b : Buffers) (layer : Layer) (i : ℕ) : Buffers := (b.pushLayer layer i).enter layer.vertex

theorem owner_write (b : Buffers) (layer : Layer) (i : ℕ) :
    (b.write layer i).owner = b.owner ++ List.replicate (layer.vertex.length / 3) i := by
  simp [Buffers.write, Buffers.enter, pushLayer_eq]

theorem Written.write (h : Written b ks) (layer : Layer) (i : ℕ) :
    Written (b.write layer i) (ks ++ [(layer, i)]) := by
  have hsix := layer.six
  have hcolors := h.colors
  have halphs := h.alphs
  have howners := h.owners
  rw [Buffers.write, pushLayer_eq, Buffers.enter]
  constructor
  · simp [hcolors]
  · simp only [List.length_append, List.length_replicate]
    omega
  · simp [h.owner]
  · simp only [List.length_append, List.length_replicate]
    omega
  · simp [h.endIndex]
  · simp [h.endIndex]
  · intro _
    exact ⟨(layer, i), by simp, rfl⟩

theorem index_write_known {layer : Layer} (i : ℕ) (hknown : ∃ r ∈ b.indexGcodeData, r.key = some layer.z) :
    (b.write layer i).indexGcodeData = b.indexGcodeData := by
  obtain ⟨r, hr, hkey⟩ := hknown
  have hfind : (b.indexGcodeData.any fun r => r.key = some layer.z) = true :=
    List.any_eq_true.mpr ⟨r, hr, by simp [hkey]⟩
  rw [Buffers.write, pushLayer_eq, Buffers.enter]
  exact if_pos hfind

theorem Written.index_write_new (h : Written b ks) {layer : Layer} (i : ℕ)
    (hnew : ¬ ∃ r ∈ b.indexGcodeData, r.key = some layer.z) :
    (b.write layer i).indexGcodeData =
      b.indexGcodeData ++ [⟨some layer.z, b.owner.length, b.owner.length + layer.vertex.length / 3⟩] := by
  have hfind : ¬ (b.indexGcodeData.any fun r => r.key = some layer.z) = true := by
    rw [List.any_eq_true]
    rintro ⟨r, hr, hkey⟩
    exact hnew ⟨r, hr, by simpa using hkey⟩
  rw [Buffers.write, pushLayer_eq, Buffers.enter, ← h.startIndex]
  dsimp only
  rw [if_neg hfind, h.startIndex, h.endIndex]

/-- A layer with a height that is in the index: its vertices are in no range. -/
theorem Filled.write_known (h : Filled b ks) {layer : Layer} (i : ℕ) (hknown : ∃ p ∈ ks, p.1.z = layer.z)
    (hne : layer.vertex ≠ []) : Filled (b.write layer i) (ks ++ [(layer, i)]) := by
  have hindex := index_write_known i ((h.keys layer.z).mpr hknown)
  have howner := owner_write b layer i
  have hlength : 6 ≤ layer.vertex.length := Nat.le_of_dvd (List.length_pos_of_ne_nil hne) layer.six
  obtain ⟨p, hp, hz⟩ := hknown
  refine { h.toWritten.write layer i with keys := ?_, ordered := ?_, inside := ?_, indexed := ?_, missed := ?_ }
  · intro z
    rw [hindex, h.keys]
    constructor
    · rintro ⟨q, hq, hqz⟩
      exact ⟨q, List.mem_append_left _ hq, hqz⟩
    · rintro ⟨q, hq, hqz⟩
      rw [List.mem_append, List.mem_singleton] at hq
      rcases hq with hq | rfl
      · exact ⟨q, hq, hqz⟩
      · exact ⟨p, hp, hz.trans hqz⟩
  · rw [hindex]
    exact h.ordered
  · intro r hr
    rw [hindex] at hr
    obtain ⟨hle, hstop⟩ := h.inside r hr
    rw [howner, List.length_append]
    exact ⟨hle, by omega⟩
  · intro hdistinct
    exact absurd hz ((distinct_concat.mp hdistinct).2 p hp)
  · intro _
    -- the first vertex of the layer
    refine ⟨b.owner.length, ?_, fun r hr hmem => ?_⟩
    · rw [howner, List.length_append, List.length_replicate]
      omega
    · rw [hindex] at hr
      have hstop := (h.inside r hr).2
      have hlt := hmem.2
      omega

/-- A layer with a new height: its vertices are in the range that is entered. -/
theorem Filled.write_new (h : Filled b ks) {layer : Layer} (i : ℕ) (hnew : ¬ ∃ p ∈ ks, p.1.z = layer.z) :
    Filled (b.write layer i) (ks ++ [(layer, i)]) := by
  have hindex := h.toWritten.index_write_new i (mt (h.keys layer.z).mp hnew)
  have howner := owner_write b layer i
  have hdistinct : Distinct (ks ++ [(layer, i)]) ↔ Distinct ks := by
    rw [distinct_concat]
    exact and_iff_left fun q hq hz => hnew ⟨q, hq, hz⟩
  refine { h.toWritten.write layer i with keys := ?_, ordered := ?_, inside := ?_, indexed := ?_, missed := ?_ }
  · intro z
    rw [hindex]
    simp only [List.mem_append, List.mem_singleton, or_and_right, exists_or, exists_eq_left, Option.some.injEq, h.keys]
  · rw [hindex, List.pairwise_append]
    refine ⟨h.ordered, List.pairwise_singleton _ _, ?_⟩
    intro r hr r' hr'
    obtain rfl := List.mem_singleton.mp hr'
    exact (h.inside r hr).2
  · intro r hr
    rw [hindex, List.mem_append, List.mem_singleton] at hr
    rw [howner, List.length_append, List.length_replicate]
    rcases hr with hr | rfl
    · obtain ⟨hle, hstop⟩ := h.inside r hr
      exact ⟨hle, by omega⟩
    · exact ⟨Nat.le_add_right _ _, Nat.le_refl _⟩
  · intro hall v j hv
    rw [howner, List.getElem?_append] at hv
    rw [hindex]
    split at hv
    · obtain ⟨p, hp, hpi, r, hr, hkey, hmem⟩ := h.indexed (hdistinct.mp hall) v j hv
      exact ⟨p, List.mem_append_left _ hp, hpi, r, List.mem_append_left _ hr, hkey, hmem⟩
    · next hlo =>
      obtain ⟨hlt, rfl⟩ : v - b.owner.length < layer.vertex.length / 3 ∧ i = j := by
        simpa [List.getElem?_replicate] using hv
      exact ⟨(layer, i), by simp, rfl, _, List.mem_append_right _ (List.mem_singleton_self _), rfl,
        Nat.le_of_not_lt hlo, show v < b.owner.length + layer.vertex.length / 3 by omega⟩
  · intro hall
    obtain ⟨v, hv, hnone⟩ := h.missed (mt hdistinct.mpr hall)
    refine ⟨v, ?_, fun r hr => ?_⟩
    · rw [howner, List.length_append]
      omega
    · rw [hindex, List.mem_append, List.mem_singleton] at hr
      rcases hr with hr | rfl
      · exact hnone r hr
      · exact fun hmem => Nat.not_le_of_lt hv hmem.1

/-- A layer written once, after layers of which only the first can be empty. -/
theorem Filled.write (h : Filled b ks) (layer : Layer) (i : ℕ) (hne : ks ≠ [] → layer.vertex ≠ []) :
    Filled (b.write layer i) (ks ++ [(layer, i)]) := by
  by_cases hknown : ∃ p ∈ ks, p.1.z = layer.z
  · obtain ⟨p, hp, hz⟩ := hknown
    exact h.write_known i ⟨p, hp, hz⟩ (hne (List.ne_nil_of_mem hp))
  · exact h.write_new i hknown

theorem step_regular {count flag t : ℕ} {p : Layer × ℕ} (b : Buffers) (hlast : p.2 + 1 ≠ count)
    (hregular : regular flag t p = true) : b.step count flag t p = b.write p.1 p.2 := by
  rw [regular] at hregular
  simp [Buffers.step, Buffers.write, hlast, hregular]

theorem step_left_out {count flag t : ℕ} {p : Layer × ℕ} (b : Buffers) (hlast : p.2 + 1 ≠ count)
    (hregular : regular flag t p = false) : b.step count flag t p = b.enter [] := by
  rw [regular] at hregular
  simp [Buffers.step, hlast, hregular]

theorem step_last {count flag t : ℕ} {p : Layer × ℕ} (b : Buffers) (hlast : p.2 + 1 = count)
    (hregular : regular flag t p = false) : b.step count flag t p = b.write p.1 p.2 := by
  rw [regular] at hregular
  simp [Buffers.step, Buffers.write, hlast, hregular]

/-- The last layer is written twice when it is a regular one. -/
theorem step_last_regular {count flag t : ℕ} {p : Layer × ℕ} (b : Buffers) (hlast : p.2 + 1 = count)
    (hregular : regular flag t p = true) :
    b.step count flag t p = ((b.pushLayer p.1 p.2).pushLayer p.1 p.2).enter p.1.vertex := by
  rw [regular] at hregular
  simp [Buffers.step, hlast, hregular]

/-- The layers before the last. -/
theorem foldl_filled {count flag t : ℕ} {l : List (Layer × ℕ)} (hfirst : ∀ p ∈ l.head?, p.2 = flag)
    (hlast : ∀ p ∈ l, p.2 + 1 ≠ count) (hne : ∀ p ∈ l.tail, p.1.vertex ≠ []) :
    Filled (l.foldl (Buffers.step count flag t) Buffers.start) (l.filter (regular flag t)) ∧
      (l ≠ [] → l.filter (regular flag t) ≠ []) := by
  induction l using List.reverseRecOn with
  | nil => exact ⟨filled_start, fun h => absurd rfl h⟩
  | append_singleton l p ih =>
    have hfirst' : ∀ q ∈ l.head?, q.2 = flag := by
      intro q hq
      apply hfirst q
      cases l with
      | nil => cases hq
      | cons a l => exact hq
    obtain ⟨hfilled, hsome⟩ := ih hfirst' (fun q hq => hlast q (List.mem_append_left _ hq))
      fun q hq => hne q (mem_tail_concat.mpr (Or.inl hq))
    have hlastp := hlast p (by simp)
    rw [List.foldl_append, List.filter_append, List.foldl_cons, List.foldl_nil]
    cases hregular : regular flag t p with
    | true =>
      have hnonempty : l.filter (regular flag t) ≠ [] → p.1.vertex ≠ [] := by
        intro hks
        refine hne p (mem_tail_concat.mpr (Or.inr ⟨?_, rfl⟩))
        rintro rfl
        exact hks rfl
      rw [step_regular _ hlastp hregular, List.filter_cons_of_pos hregular]
      exact ⟨hfilled.write p.1 p.2 hnonempty, fun _ => by simp⟩
    | false =>
      -- the first of the layers is a regular one
      have hl : l ≠ [] := by
        rintro rfl
        simp [regular, hfirst p rfl] at hregular
      rw [step_left_out _ hlastp hregular, List.filter_cons_of_neg (by simp [hregular]), hfilled.enter_nil (hsome hl)]
      rw [List.filter_nil, List.append_nil]
      exact ⟨hfilled, fun _ => hsome hl⟩

end Write

/-! ## When the index matches -/

section Matches

variable {b : Buffers} {ks : List (Layer × ℕ)}

theorem count_owner {i : ℕ} {layer : Layer} (hnodup : (ks.map Prod.snd).Nodup) (hks : ∀ p ∈ ks, p.2 = i → p.1 = layer) :
    3 * (ks.flatMap fun p => List.replicate (p.1.vertex.length / 3) p.2).count i ≤ layer.vertex.length := by
  induction ks with
  | nil => simp
  | cons p ks ih =>
    rw [List.map_cons, List.nodup_cons] at hnodup
    rw [List.flatMap_cons, List.count_append]
    by_cases hi : p.2 = i
    · have hrest : (ks.flatMap fun p => List.replicate (p.1.vertex.length / 3) p.2).count i = 0 := by
        rw [List.count_eq_zero, List.mem_flatMap]
        rintro ⟨q, hq, hmem⟩
        have hqi := List.eq_of_mem_replicate hmem
        exact hnodup.1 (List.mem_map.mpr ⟨q, hq, (hi.trans hqi).symm⟩)
      have hlayer := hks p List.mem_cons_self hi
      rw [hrest, hi, List.count_replicate_self, hlayer]
      omega
    · have hrest := ih hnodup.2 fun q hq => hks q (List.mem_cons_of_mem p hq)
      have hzero : (List.replicate (p.1.vertex.length / 3) p.2).count i = 0 :=
        List.count_eq_zero.mpr fun hmem => hi (List.eq_of_mem_replicate hmem).symm
      omega

theorem Range.eq_of_mem {index : List Range} (hordered : index.Pairwise fun r r' => r.stop ≤ r'.start) {r r' : Range}
    {v : ℕ} (hr : r ∈ index) (hr' : r' ∈ index) (hmem : r.Mem v) (hmem' : r'.Mem v) : r' = r := by
  induction hordered with
  | nil => cases hr
  | cons hhead _ ih =>
    have hlo := hmem.1
    have hhi := hmem.2
    have hlo' := hmem'.1
    have hhi' := hmem'.2
    rw [List.mem_cons] at hr hr'
    rcases hr with rfl | hr <;> rcases hr' with rfl | hr'
    · rfl
    · have hle := hhead r' hr'
      omega
    · have hle := hhead r hr
      omega
    · exact ih hr hr'

/-- Layers written once: the index matches when their heights are distinct. -/
theorem Filled.indexOk_iff (h : Filled b ks) {layers : List Layer} (hlayers : ∀ p ∈ ks, layers[p.2]? = some p.1)
    (hnodup : (ks.map Prod.snd).Nodup) : IndexOk layers b ↔ Distinct ks := by
  have howners := h.owners
  constructor
  · intro hok
    by_contra hdistinct
    obtain ⟨v, hv, hnone⟩ := h.missed hdistinct
    obtain ⟨_, _, -, -, r, hr, hmem, -⟩ := hok.keyed v (by omega)
    exact hnone r hr hmem
  · intro hdistinct
    refine ⟨h.colors, h.alphs, h.ordered, fun r hr => ⟨(h.inside r hr).1, ?_⟩, fun v hv => ?_, fun i layer hi => ?_⟩
    · have hstop := (h.inside r hr).2
      omega
    · have hv' : v < b.owner.length := by omega
      obtain ⟨p, hp, hpi, r, hr, hkey, hmem⟩ := h.indexed hdistinct v _ (List.getElem?_eq_getElem hv')
      exact ⟨_, p.1, List.getElem?_eq_getElem hv', hpi ▸ hlayers p hp, r, hr, hmem, hkey,
        fun r' hr' hmem' => Range.eq_of_mem h.ordered hr hr' hmem hmem'⟩
    · rw [h.owner]
      refine count_owner hnodup fun p hp hpi => ?_
      have hp' := hlayers p hp
      rw [hpi, hi] at hp'
      exact (Option.some.inj hp').symm

/-- A layer written twice has vertices that are in no range. -/
theorem Filled.not_indexOk_twice (h : Filled b ks) (layers : List Layer) (layer : Layer) (i : ℕ)
    (hne : layer.vertex ≠ []) : ¬ IndexOk layers (((b.pushLayer layer i).pushLayer layer i).enter layer.vertex) := by
  intro hok
  have hfilled := h.write layer i fun _ => hne
  have hlength : 6 ≤ layer.vertex.length := Nat.le_of_dvd (List.length_pos_of_ne_nil hne) layer.six
  have hindex : (((b.pushLayer layer i).pushLayer layer i).enter layer.vertex).indexGcodeData =
      (b.write layer i).indexGcodeData := by
    simp [Buffers.write, pushLayer_eq, Buffers.enter]
  have hvertexs : (((b.pushLayer layer i).pushLayer layer i).enter layer.vertex).vertexs =
      (b.write layer i).vertexs ++ layer.vertex := by
    simp [Buffers.write, pushLayer_eq, Buffers.enter]
  have howners := hfilled.owners
  obtain ⟨_, _, -, -, r, hr, hmem, -⟩ := hok.keyed (b.write layer i).owner.length (by
    rw [hvertexs, List.length_append]
    omega)
  rw [hindex] at hr
  have hstop := (hfilled.inside r hr).2
  have hlt := hmem.2
  omega

theorem zipIdx_drop_spec {layers : List Layer} {flag : ℕ} (hflag : flag < layers.length)
    (htail : ∀ layer ∈ layers.tail, layer.vertex ≠ []) :
    (∀ p ∈ layers.zipIdx.drop flag, layers[p.2]? = some p.1) ∧ ((layers.zipIdx.drop flag).map Prod.snd).Nodup ∧
      (∀ p ∈ (layers.zipIdx.drop flag).head?, p.2 = flag) ∧
      (∀ p ∈ (layers.zipIdx.drop flag).tail, p.1.vertex ≠ []) ∧
      ∃ init p, layers.zipIdx.drop flag = init ++ [p] ∧ p.2 + 1 = layers.length := by
  refine ⟨?_, ?_, ?_, ?_, ?_⟩
  · intro p hp
    exact List.mem_zipIdx_iff_getElem?.mp (List.mem_of_mem_drop hp)
  · rw [List.map_drop, List.zipIdx_map_snd]
    exact (List.drop_sublist flag _).nodup (List.nodup_range' 1)
  · intro p hp
    rw [List.head?_drop, List.getElem?_zipIdx] at hp
    obtain ⟨layer, -, rfl⟩ := Option.map_eq_some_iff.mp hp
    simp
  · intro p hp
    refine htail p.1 ?_
    have hmem : p ∈ layers.zipIdx.tail := by
      rw [← List.drop_one]
      rw [List.tail_drop, ← Nat.add_comm 1, ← List.drop_drop] at hp
      exact List.mem_of_mem_drop hp
    have hfst := List.mem_map_of_mem (f := Prod.fst) hmem
    rwa [List.map_tail, List.zipIdx_map_fst] at hfst
  · rcases List.eq_nil_or_concat (layers.zipIdx.drop flag) with hnil | ⟨init, p, hl⟩
    · have hlength := congrArg List.length hnil
      simp at hlength
      omega
    · rw [List.concat_eq_append] at hl
      refine ⟨init, p, hl, ?_⟩
      have hp : (layers.zipIdx.drop flag)[init.length]? = some p := by simp [hl]
      have hlength := congrArg List.length hl
      rw [List.getElem?_drop, List.getElem?_zipIdx] at hp
      obtain ⟨layer, -, rfl⟩ := Option.map_eq_some_iff.mp hp
      simp at hlength ⊢
      omega

/-- When the index matches the buffers, for layers of which only the first can be empty. -/
theorem fillBuffers_indexOk_iff (flag t : ℕ) {layers : List Layer} (htail : ∀ layer ∈ layers.tail, layer.vertex ≠ [])
    (hlast : ∀ layer ∈ layers.getLast?, layer.vertex ≠ []) :
    IndexOk layers (fillBuffers layers flag t) ↔
      (layers.length ≤ flag ∨ layers.length ≠ flag + 1 ∧ (layers.length - 1) % t ≠ 0) ∧
        Distinct (keptLayers layers flag t) := by
  rw [fillBuffers, keptLayers]
  by_cases hflag : layers.length ≤ flag
  · rw [List.drop_of_length_le (by simpa using hflag)]
    have hstart : IndexOk layers Buffers.start ↔ Distinct [] := filled_start.indexOk_iff (by simp) (by simp)
    simpa [hflag] using hstart
  · obtain ⟨hget, hnodup, hhead, hne, init, p, hl, hp⟩ := zipIdx_drop_spec (Nat.lt_of_not_le hflag) htail
    rw [hl] at hget hnodup hhead hne ⊢
    rw [List.map_append, List.nodup_append] at hnodup
    have hinit : ∀ q ∈ init, q.2 + 1 ≠ layers.length := by
      intro q hq heq
      exact hnodup.2.2 q.2 (List.mem_map_of_mem hq) p.2 (by simp) (by omega)
    have hhead' : ∀ q ∈ init.head?, q.2 = flag := by
      intro q hq
      apply hhead q
      cases init with
      | nil => cases hq
      | cons a init => exact hq
    have hfilled := (foldl_filled (t := t) hhead' hinit fun q hq => hne q (mem_tail_concat.mpr (Or.inl hq))).1
    have hlastp : p.1.vertex ≠ [] := by
      refine hlast p.1 ?_
      rw [Option.mem_def, List.getLast?_eq_getElem?, ← hget p (by simp)]
      congr 1
      omega
    have hregular : regular flag t p = true ↔ ¬ (layers.length ≠ flag + 1 ∧ (layers.length - 1) % t ≠ 0) := by
      have hp' : p.2 = layers.length - 1 := by omega
      rw [regular, decide_eq_true_eq, hp']
      omega
    rw [List.foldl_append, List.foldl_cons, List.foldl_nil, List.filter_append]
    cases hreg : regular flag t p with
    | true =>
      rw [step_last_regular _ hp hreg]
      have hno := hfilled.not_indexOk_twice layers p.1 p.2 hlastp
      simp only [hno, hflag, hregular.mp hreg, false_or, false_and]
    | false =>
      have hkept : init.filter (fun q => regular flag t q || q.2 + 1 = layers.length) =
          init.filter (regular flag t) := by
        refine List.filter_congr fun q hq => ?_
        simp [hinit q hq]
      have hwritten := hfilled.write p.1 p.2 fun _ => hlastp
      rw [step_last _ hp hreg, hkept, List.filter_cons_of_pos (by simp [hp]), List.filter_nil]
      have hok := hwritten.indexOk_iff
        (fun q hq => hget q (List.mem_append.mpr ((List.mem_append.mp hq).imp_left List.mem_of_mem_filter))) (by
          rw [List.map_append, List.nodup_append]
          refine ⟨hnodup.1.sublist (List.filter_sublist.map _), by simp, fun a ha b hb => hnodup.2.2 a ?_ b hb⟩
          exact (List.filter_sublist.map _).subset ha)
      have hnot := (not_congr hregular).mp (by simp [hreg])
      rw [hok]
      exact (and_iff_right (Or.inr (not_not.mp hnot))).symm

/-- **The index of a text**: with at least one extruding move, `parse` returns an index that matches its buffers exactly
when the layers are of the kind described. -/
theorem parse_indexOk_iff (round : ℚ → Number) (data : List Char) (modelSize : Option Number)
    (hextruding : (readLayers round data).teLayer ≠ []) :
    (∃ b, parse round data modelSize = some b ∧ IndexOk (readLayers round data).layers b) ↔
      LayersOk (readLayers round data).layers (tModelSize modelSize (readLayers round data).teLayer.length) := by
  obtain ⟨hvertices, htail⟩ := readLayers_collected round data
  rw [parse]
  generalize (readLayers round data).teLayer = teLayer at *
  generalize (readLayers round data).layers = layers at *
  have hlast : ∀ layer ∈ layers.getLast?, layer.vertex ≠ [] := by
    intro layer hlayer hempty
    cases layers with
    | nil => cases hlayer
    | cons a layers =>
      cases layers with
      | nil =>
        obtain rfl : a = layer := by simpa using hlayer
        simp [hempty] at hvertices
        exact hextruding hvertices
      | cons c layers => exact htail layer (List.mem_of_mem_getLast? (by simpa using hlayer)) hempty
  rw [flagTag_spec]
  split_ifs with hthrows
  · constructor
    · rintro ⟨b, hb, -⟩
      cases hb
    · intro h
      have hsix := h.compared hthrows.1
      omega
  · have hcompared : Ascending layers → 6 ≤ layers.length := fun h => Nat.le_of_not_lt fun hlt => hthrows ⟨h, hlt⟩
    have hok := fillBuffers_indexOk_iff (firstKept layers) (tModelSize modelSize teLayer.length) htail hlast
    constructor
    · rintro ⟨b, hb, hindex⟩
      obtain rfl := Option.some.inj hb
      obtain ⟨honce, hheights⟩ := hok.mp hindex
      exact ⟨hcompared, honce, hheights⟩
    · intro h
      exact ⟨_, rfl, hok.mpr ⟨h.lastOnce, h.heights⟩⟩

/-- Six layers with ascending heights. -/
def sixLayers : List Char := "G1 X1 E1\nG1 Z1 E2\nG1 Z2 E3\nG1 Z3 E4\nG1 Z4 E5\nG1 Z5 E6".toList

theorem sixLayers_thinned :
    ∃ b, parse .finite sixLayers (some (.finite 20)) = some b ∧ IndexOk (readLayers .finite sixLayers).layers b :=
  (parse_indexOk_iff .finite sixLayers (some (.finite 20)) (by decide +kernel)).mpr
    ⟨fun _ => by decide +kernel, by decide +kernel, by decide +kernel⟩

def oneLayer : List Char := "G1 X1 E1".toList

/-- One layer throws; of six layers that are all kept the last is written twice. -/
theorem one_throws_last_twice :
    (readLayers .finite oneLayer).teLayer ≠ [] ∧ parse .finite oneLayer none = none ∧
      (readLayers .finite sixLayers).teLayer ≠ [] ∧
      ¬ ∃ b, parse .finite sixLayers none = some b ∧ IndexOk (readLayers .finite sixLayers).layers b := by
  refine ⟨by decide +kernel, by decide +kernel, by decide +kernel, ?_⟩
  rintro ⟨b, hb, hok⟩
  have hcount : (parse .finite sixLayers none).map (fun b => b.owner.count 5) = some 4 := by decide +kernel
  have hlayer : (readLayers .finite sixLayers).layers[5]?.map (fun l => l.vertex.length) = some 6 := by decide +kernel
  rw [hb, Option.map_some, Option.some.injEq] at hcount
  obtain ⟨layer, hget, hlength⟩ := Option.map_eq_some_iff.mp hlayer
  have honce := hok.once 5 layer hget
  omega

end Matches

end Cxsw.Worker
