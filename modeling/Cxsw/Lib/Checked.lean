import Mathlib.Algebra.Order.Field.Basic
import Cxsw.Lib.Run

/-!
# Cxsw.Lib.Checked — arithmetic whose divisions are checked

`divChecked` has no result for a zero divisor.  A computation written with it has a result exactly where no divisor it
comes to is zero, and then it is that of the unchecked one: `foldlM_eq_some` says so for a loop whose rounds have a
result, and `foldlM_eq_some_iff` for a machine, in terms of the condition of its steps.
-/

namespace Cxsw

section Div

variable {K : Type*} [Field K] [DecidableEq K]

/-- Division by a number other than zero. -/
def divChecked (x y : K) : Option K := if y = 0 then none else some (x / y)

theorem divChecked_of_ne (x : K) {y : K} (h : y ≠ 0) : divChecked x y = some (x / y) := if_neg h

theorem divChecked_of_eq (x : K) {y : K} (h : y = 0) : divChecked x y = none := if_pos h

end Div

section Guard

variable {K σ : Type*} [Field K] [LinearOrder K]

theorem divChecked_of_lt {limit change : K} (h : 0 ≤ limit) (f : K → σ) (x : σ) (y : K) :
    (if limit < change then (divChecked y change).map f else some x) =
      some (if limit < change then f (y / change) else x) := by
  split_ifs with hover
  · rw [divChecked_of_ne y (h.trans_lt hover).ne']
    rfl
  · rfl

end Guard

section Loops

variable {σ ι : Type*}

/-- A loop all of whose rounds have a result. -/
theorem foldlM_eq_some {f : σ → ι → Option σ} {g : σ → ι → σ} (h : ∀ s i, f s i = some (g s i)) (s : σ) (is : List ι) :
    is.foldlM f s = some (is.foldl g s) := by
  induction is generalizing s with
  | nil => rfl
  | cons i is ih =>
    rw [List.foldlM_cons, h]
    exact ih (g s i)

/-- **The exact condition of a run** of a machine whose steps may have no result: under an invariant, a step has one
where `ok` holds and none elsewhere. -/
theorem foldlM_eq_some_iff {f : σ → ι → Option σ} {g : σ → ι → σ} {ok : σ → ι → Prop} {I : σ → Prop} {P : ι → Prop}
    (hyes : ∀ s i, I s → P i → ok s i → f s i = some (g s i) ∧ I (g s i))
    (hno : ∀ s i, I s → P i → ¬ ok s i → f s i = none) {is : List ι} (hP : ∀ i ∈ is, P i) {s t : σ} (h0 : I s) :
    is.foldlM f s = some t ↔ AllSteps g ok s is ∧ is.foldl g s = t := by
  induction is generalizing s with
  | nil => exact ⟨fun h => ⟨trivial, Option.some.inj h⟩, fun h => congrArg some h.2⟩
  | cons i is ih =>
    obtain ⟨hi, his⟩ := List.forall_mem_cons.mp hP
    rw [List.foldlM_cons]
    by_cases hok : ok s i
    · obtain ⟨heq, hinv⟩ := hyes s i h0 hi hok
      rw [heq]
      refine (ih his hinv).trans ?_
      rw [AllSteps, List.foldl_cons, and_assoc]
      exact (and_iff_right hok).symm
    · rw [hno s i h0 hi hok]
      constructor
      · intro h
        cases h
      · rintro ⟨h, -⟩
        exact absurd h.1 hok

end Loops

end Cxsw
