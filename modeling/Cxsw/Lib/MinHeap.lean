import Mathlib

/-!
# Cxsw.Lib.MinHeap — the least element of a list is replaced

A heap is a list where no element is less than the one above it, at `(i - 1) / 2`.  `siftDown` lets a hole sink from
the root until the new element is at its place there; a place behind the end of the list counts as `top`.

* `IsHeap`, `IsHeap.root_le`: the root is the least.
* `Hole`: the heap around the hole; `siftDown_spec`.
* `replaceRoot_spec`: the result is a heap of the same elements, with the new one for the root.
-/

namespace Cxsw.MinHeap

variable {α : Type*} [LinearOrder α] {l l' : List α} {top x : α} {i pos : ℕ}

def IsHeap (l : List α) : Prop := ∀ i, (hi : i < l.length) → 0 < i → l[(i - 1) / 2] ≤ l[i]

/-- **The root is the least.** -/
theorem IsHeap.root_le (h : IsHeap l) (hi : i < l.length) : l[0] ≤ l[i] := by
  induction i using Nat.strongRecOn with
  | ind i ih =>
    rcases Nat.eq_zero_or_pos i with rfl | hpos
    · exact le_rfl
    · exact (ih ((i - 1) / 2) (by omega) (by omega)).trans (h i hi hpos)

/-- The element `x` is to be put where the hole is, or below. -/
def siftDown (top x : α) : ℕ → ℕ → List α → List α
  | 0, _, l => l
  | fuel + 1, pos, l =>
    let child1 := l.getD (2 * pos + 1) top
    let child2 := l.getD (2 * pos + 2) top
    if x ≤ child1 ∧ x ≤ child2 then l.set pos x
    else if child1 < child2 then siftDown top x fuel (2 * pos + 1) (l.set pos child1)
    else siftDown top x fuel (2 * pos + 2) (l.set pos child2)

def replaceRoot (top x : α) (l : List α) : List α := siftDown top x l.length 0 l

/-- A heap with a hole at `pos`, where `x` is not less than what is above it. -/
structure Hole (x : α) (pos : ℕ) (l : List α) : Prop where
  lt : pos < l.length
  except : ∀ i, (hi : i < l.length) → 0 < i → i ≠ pos → (i - 1) / 2 ≠ pos → l[(i - 1) / 2] ≤ l[i]
  grand : 0 < pos → ∀ i, (hi : i < l.length) → 0 < i → (i - 1) / 2 = pos → l[(pos - 1) / 2] ≤ l[i]
  above : 0 < pos → l[(pos - 1) / 2] ≤ x

theorem IsHeap.hole (h : IsHeap l) (hne : 0 < l.length) (x : α) : Hole x 0 l :=
  ⟨hne, fun i hi hpos _ _ => h i hi hpos, fun h0 => absurd h0 (lt_irrefl 0), fun h0 => absurd h0 (lt_irrefl 0)⟩

theorem Hole.fill (h : Hole x pos l) (hbelow : ∀ i, (hi : i < l.length) → 0 < i → (i - 1) / 2 = pos → x ≤ l[i]) :
    IsHeap (l.set pos x) := by
  intro i hi hpos
  rw [List.length_set] at hi
  simp only [List.getElem_set]
  by_cases hip : pos = i
  · subst hip
    rw [if_pos rfl, if_neg (by omega)]
    exact h.above hpos
  · rw [if_neg hip]
    by_cases hpar : pos = (i - 1) / 2
    · rw [if_pos hpar]
      exact hbelow i hi hpos hpar.symm
    · rw [if_neg hpar]
      exact h.except i hi hpos (Ne.symm hip) (Ne.symm hpar)

theorem Hole.sink (h : Hole x pos l) {j : ℕ} (hj : j < l.length) (hpar : (j - 1) / 2 = pos) (hjpos : 0 < j)
    (hlt : l[j] < x)
    (hmin : ∀ i, (hi : i < l.length) → 0 < i → (i - 1) / 2 = pos → l[j] ≤ l[i]) : Hole x j (l.set pos l[j]) := by
  have hpj : pos < j := by omega
  refine ⟨by rw [List.length_set]; exact hj, fun i hi hipos hij hparj => ?_, fun _ i hi hipos hparj => ?_, fun _ => ?_⟩
  · rw [List.length_set] at hi
    simp only [List.getElem_set]
    by_cases hip : pos = i
    · subst hip
      rw [if_pos rfl, if_neg (by omega)]
      exact h.grand hipos j hj hjpos hpar
    · rw [if_neg hip]
      by_cases hparp : pos = (i - 1) / 2
      · rw [if_pos hparp]
        exact hmin i hi hipos hparp.symm
      · rw [if_neg hparp]
        exact h.except i hi hipos (Ne.symm hip) (Ne.symm hparp)
  · rw [List.length_set] at hi
    have hlt : j < i := by omega
    simp only [List.getElem_set, hpar, if_true]
    rw [if_neg (by omega)]
    have hle := h.except i hi hipos (by omega) (by omega)
    simp only [hparj] at hle
    exact hle
  · simp only [List.getElem_set, hpar, if_true]
    exact hlt.le

omit [LinearOrder α] in
theorem perm_sink {j : ℕ} (hpos : pos < l.length) (hj : j < l.length) (hne : pos ≠ j) :
    ((l.set pos l[j]).set j x).Perm (l.set pos x) := by
  have h := @List.set_set_perm _ (l.set pos x) pos j (by rw [List.length_set]; exact hpos)
    (by rw [List.length_set]; exact hj)
  simpa [List.getElem_set, hne, List.set_set] using h

/-- **The hole sinks to its place.** -/
theorem siftDown_spec {fuel : ℕ} (h : Hole x pos l) (hx : x ≤ top) (hfuel : l.length ≤ pos + fuel) :
    IsHeap (siftDown top x fuel pos l) ∧ (siftDown top x fuel pos l).Perm (l.set pos x) := by
  induction fuel generalizing pos l with
  | zero => exact absurd h.lt (by omega)
  | succ fuel ih =>
    have hchild : ∀ i, (hi : i < l.length) → l.getD i top = l[i] := fun i hi => List.getD_eq_getElem _ _ hi
    have hcases : ∀ i, 0 < i → (i - 1) / 2 = pos → i = 2 * pos + 1 ∨ i = 2 * pos + 2 := fun i _ _ => by omega
    -- a place behind the end is not below `x`
    have hin : ∀ i, l.getD i top < x → i < l.length := by
      intro i hlt
      by_contra hout
      rw [List.getD_eq_default _ _ (not_lt.mp hout)] at hlt
      exact absurd hlt (not_lt.mpr hx)
    rw [siftDown]
    by_cases hstop : x ≤ l.getD (2 * pos + 1) top ∧ x ≤ l.getD (2 * pos + 2) top
    · simp only [if_pos hstop]
      refine ⟨h.fill fun i hi hipos hpar => ?_, List.Perm.refl _⟩
      rcases hcases i hipos hpar with rfl | rfl
      · rw [← hchild _ hi]
        exact hstop.1
      · rw [← hchild _ hi]
        exact hstop.2
    · simp only [if_neg hstop]
      by_cases hlt : l.getD (2 * pos + 1) top < l.getD (2 * pos + 2) top
      · simp only [if_pos hlt]
        have h1 : l.getD (2 * pos + 1) top < x := by
          by_contra hge
          exact hstop ⟨not_lt.mp hge, (not_lt.mp hge).trans hlt.le⟩
        have hj := hin _ h1
        rw [hchild _ hj] at h1 hlt ⊢
        have hsink := h.sink hj (by omega) (by omega) h1 fun i hi hipos hpar => by
          rcases hcases i hipos hpar with rfl | rfl
          · exact le_rfl
          · rw [← hchild _ hi]
            exact hlt.le
        obtain ⟨hheap, hperm⟩ := ih hsink (by rw [List.length_set]; omega)
        exact ⟨hheap, hperm.trans (perm_sink h.lt hj (by omega))⟩
      · simp only [if_neg hlt]
        have h2 : l.getD (2 * pos + 2) top < x := by
          by_contra hge
          exact hstop ⟨(not_lt.mp hge).trans (not_lt.mp hlt), not_lt.mp hge⟩
        have hj := hin _ h2
        rw [hchild _ hj] at h2 hlt ⊢
        have hsink := h.sink hj (by omega) (by omega) h2 fun i hi hipos hpar => by
          rcases hcases i hipos hpar with rfl | rfl
          · rw [← hchild _ hi]
            exact not_lt.mp hlt
          · exact le_rfl
        obtain ⟨hheap, hperm⟩ := ih hsink (by rw [List.length_set]; omega)
        exact ⟨hheap, hperm.trans (perm_sink h.lt hj (by omega))⟩

/-- **The root is replaced.** -/
theorem replaceRoot_spec (h : IsHeap (x :: l)) {y : α} (hy : y ≤ top) :
    IsHeap (replaceRoot top y (x :: l)) ∧ (replaceRoot top y (x :: l)).Perm (y :: l) :=
  siftDown_spec (h.hole (Nat.succ_pos _) y) hy (Nat.zero_add _).ge

end Cxsw.MinHeap
