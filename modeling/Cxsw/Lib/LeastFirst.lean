import Mathlib.Data.List.Count
import Mathlib.Data.List.Nodup

/-!
# Cxsw.Lib.LeastFirst — taking away one after the other

`dropPicked pick k l` is what is left of `l` when `k` times the element that `pick` chooses is taken away; `picks` are
the elements taken, each with what it was taken from.

* `mem_dropPicked_or_picks`: every element is left or taken; `not_mem_dropPicked`: not both.
* `mem_dropPicked_iff`: where each pick comes before all others, the elements left are those that `k` others come
  before.
-/

namespace Cxsw

section LeastFirst

variable {α : Type*} [DecidableEq α] {pick : List α → Option α} {k : ℕ} {l : List α} {a w : α}

/-- What is left after `k` picks. -/
def dropPicked (pick : List α → Option α) : ℕ → List α → List α
  | 0, l => l
  | k + 1, l =>
    match pick l with
    | none => l
    | some a => dropPicked pick k (l.erase a)

/-- The picks, and what each was picked from. -/
def picks (pick : List α → Option α) : ℕ → List α → List (α × List α)
  | 0, _ => []
  | k + 1, l =>
    match pick l with
    | none => []
    | some a => (a, l) :: picks pick k (l.erase a)

/-- A pick is an element, and there is one where there are elements. -/
structure Picks (pick : List α → Option α) : Prop where
  mem : ∀ {l a}, pick l = some a → a ∈ l
  exists_some : ∀ {l}, l ≠ [] → ∃ a, pick l = some a

theorem dropPicked_none (h : pick l = none) : dropPicked pick (k + 1) l = l := by
  rw [dropPicked, h]

theorem dropPicked_some (h : pick l = some a) : dropPicked pick (k + 1) l = dropPicked pick k (l.erase a) := by
  rw [dropPicked, h]

theorem picks_none (h : pick l = none) : picks pick (k + 1) l = [] := by
  rw [picks, h]

theorem picks_some (h : pick l = some a) : picks pick (k + 1) l = (a, l) :: picks pick k (l.erase a) := by
  rw [picks, h]

theorem dropPicked_sublist : ∀ (k : ℕ) (l : List α), (dropPicked pick k l).Sublist l
  | 0, l => List.Sublist.refl l
  | k + 1, l => by
    cases h : pick l with
    | none => rw [dropPicked_none h]
    | some a =>
      rw [dropPicked_some h]
      exact (dropPicked_sublist k (l.erase a)).trans List.erase_sublist

theorem length_dropPicked (hpick : Picks pick) : ∀ {k : ℕ} {l : List α}, k ≤ l.length →
    (dropPicked pick k l).length = l.length - k
  | 0, l, _ => rfl
  | k + 1, l, h => by
    obtain ⟨a, ha⟩ := hpick.exists_some (List.ne_nil_of_length_pos (by omega : 0 < l.length))
    have hlen := List.length_erase_of_mem (hpick.mem ha)
    rw [dropPicked_some ha, length_dropPicked hpick (by omega), hlen]
    omega

theorem mem_of_mem_picks (hpick : Picks pick) : ∀ {k : ℕ} {l : List α} {p : α × List α}, p ∈ picks pick k l → p.1 ∈ l
  | 0, l, p, h => absurd h List.not_mem_nil
  | k + 1, l, p, h => by
    cases hp : pick l with
    | none =>
      rw [picks_none hp] at h
      exact absurd h List.not_mem_nil
    | some a =>
      rw [picks_some hp] at h
      rcases List.mem_cons.mp h with rfl | hrest
      · exact hpick.mem hp
      · exact List.mem_of_mem_erase (mem_of_mem_picks hpick hrest)

/-- An element is left or taken. -/
theorem mem_dropPicked_or_picks : ∀ {k : ℕ} {l : List α} {w : α}, w ∈ l →
    w ∈ dropPicked pick k l ∨ ∃ p ∈ picks pick k l, p.1 = w
  | 0, l, w, h => Or.inl h
  | k + 1, l, w, h => by
    cases hp : pick l with
    | none =>
      rw [dropPicked_none hp]
      exact Or.inl h
    | some a =>
      rw [dropPicked_some hp, picks_some hp]
      by_cases hw : w = a
      · exact Or.inr ⟨(a, l), List.mem_cons_self, hw.symm⟩
      · rcases mem_dropPicked_or_picks ((List.mem_erase_of_ne hw).mpr h) with hleft | ⟨p, hmem, hp1⟩
        · exact Or.inl hleft
        · exact Or.inr ⟨p, List.mem_cons_of_mem _ hmem, hp1⟩

/-- What is taken is not left. -/
theorem not_mem_dropPicked (hpick : Picks pick) : ∀ {k : ℕ} {l : List α} {p : α × List α}, l.Nodup →
    p ∈ picks pick k l → p.1 ∉ dropPicked pick k l
  | 0, l, p, _, h => absurd h List.not_mem_nil
  | k + 1, l, p, hnodup, h => by
    cases hp : pick l with
    | none =>
      rw [picks_none hp] at h
      exact absurd h List.not_mem_nil
    | some a =>
      rw [picks_some hp] at h
      rw [dropPicked_some hp]
      rcases List.mem_cons.mp h with rfl | hrest
      · exact fun hleft => hnodup.not_mem_erase ((dropPicked_sublist k _).subset hleft)
      · exact not_mem_dropPicked hpick (hnodup.erase a) hrest

/-- **What is left**: if under `I` each pick comes before all others, then an element is left by `k` picks exactly if at
least `k` elements come before it. -/
theorem mem_dropPicked_iff {before : α → α → Prop} [DecidableRel before] {I : ℕ → List α → Prop}
    (hstep : ∀ k l, I (k + 1) l → ∃ a ∈ l, pick l = some a ∧ (∀ b ∈ l, b ≠ a → before a b) ∧ I k (l.erase a))
    (hasymm : ∀ a b, before a b → ¬before b a) : ∀ {k : ℕ} {l : List α} {w : α}, I k l → l.Nodup → w ∈ l →
      (w ∈ dropPicked pick k l ↔ k ≤ l.countP fun f => decide (before f w))
  | 0, l, w, _, _, hw => by
    rw [dropPicked]
    exact ⟨fun _ => Nat.zero_le _, fun _ => hw⟩
  | k + 1, l, w, hI, hnodup, hw => by
    obtain ⟨a, ha, hsome, hleast, hrest⟩ := hstep k l hI
    rw [dropPicked_some hsome]
    by_cases hwa : w = a
    · subst hwa
      have hcount : l.countP (fun f => decide (before f w)) = 0 := by
        rw [List.countP_eq_zero]
        intro b hb hbefore
        rw [decide_eq_true_eq] at hbefore
        by_cases hbw : b = w
        · subst hbw
          exact hasymm b b hbefore hbefore
        · exact hasymm b w hbefore (hleast b hb hbw)
      rw [hcount]
      constructor
      · exact fun hleft => absurd ((dropPicked_sublist k _).subset hleft) hnodup.not_mem_erase
      · exact fun h => absurd h (by omega)
    · have hw' : w ∈ l.erase a := (List.mem_erase_of_ne hwa).mpr hw
      have hcount : (l.erase a).countP (fun f => decide (before f w)) =
          l.countP (fun f => decide (before f w)) - 1 := by
        rw [List.countP_erase, if_pos ⟨ha, decide_eq_true (hleast w hw hwa)⟩]
      have hpos : 0 < l.countP fun f => decide (before f w) :=
        List.countP_pos_iff.mpr ⟨a, ha, decide_eq_true (hleast w hw hwa)⟩
      rw [mem_dropPicked_iff hstep hasymm hrest (hnodup.erase a) hw', hcount]
      omega

end LeastFirst

end Cxsw
