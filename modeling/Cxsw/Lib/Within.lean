import Mathlib.Algebra.Order.Field.Basic
import Mathlib.Tactic.Linarith

/-!
# Cxsw.Lib.Within — scaling changes down to their limits

`factor` goes through changes one after the other and reduces a common factor where a change, scaled by the factor so
far, is beyond its limit.  `le_factor_iff` says that this gives the largest factor, of at most one, with which every
change is within its limit, so that the order does not matter.  `foldl_eq_factor` is for a loop that keeps the factor
times a value and remembers whether it has reduced it.
-/

namespace Cxsw.Within

variable {ι K : Type*} [Field K] [LinearOrder K] [IsStrictOrderedRing K] {limit change : ι → K} {is : List ι} {f : K}

/-- The factor after one change. -/
def reduce (limit change : ι → K) (f : K) (i : ι) : K := if limit i < f * change i then limit i / change i else f

/-- The factor after all changes. -/
def factor (limit change : ι → K) (is : List ι) : K := is.foldl (reduce limit change) 1

theorem le_reduce_iff {i : ι} (hlimit : 0 ≤ limit i) (hchange : 0 ≤ change i) {x : K} :
    f ≤ reduce limit change x i ↔ f ≤ x ∧ f * change i ≤ limit i := by
  unfold reduce
  split_ifs with hover
  · have hpos : 0 < change i := by
      rcases hchange.lt_or_eq with hlt | heq
      · exact hlt
      · rw [← heq, mul_zero] at hover
        exact absurd hover hlimit.not_gt
    rw [le_div_iff₀ hpos]
    refine ⟨fun h => ⟨?_, h⟩, fun h => h.2⟩
    have hlt : f * change i < x * change i := lt_of_le_of_lt h hover
    exact (lt_of_mul_lt_mul_right hlt hchange).le
  · refine ⟨fun h => ⟨h, ?_⟩, fun h => h.1⟩
    exact (mul_le_mul_of_nonneg_right h hchange).trans (not_lt.mp hover)

theorem reduce_le {i : ι} (hlimit : 0 ≤ limit i) (hchange : 0 ≤ change i) : reduce limit change f i ≤ f :=
  ((le_reduce_iff hlimit hchange).mp le_rfl).1

/-- **The largest factor** of at most one that keeps every change within its limit. -/
theorem le_factor_iff (hlimit : ∀ i, 0 ≤ limit i) (hchange : ∀ i, 0 ≤ change i) :
    f ≤ factor limit change is ↔ f ≤ 1 ∧ ∀ i ∈ is, f * change i ≤ limit i := by
  unfold factor
  generalize (1 : K) = x
  induction is generalizing x with
  | nil => simp
  | cons i is ih =>
    rw [List.foldl_cons, ih, le_reduce_iff (hlimit i) (hchange i), List.forall_mem_cons, and_assoc]

theorem reduce_nonneg {i : ι} (hlimit : 0 ≤ limit i) (hchange : 0 ≤ change i) (hf : 0 ≤ f) :
    0 ≤ reduce limit change f i := by
  unfold reduce
  split_ifs
  · exact div_nonneg hlimit hchange
  · exact hf

theorem factor_nonneg (hlimit : ∀ i, 0 ≤ limit i) (hchange : ∀ i, 0 ≤ change i) : 0 ≤ factor limit change is :=
  (le_factor_iff hlimit hchange).mpr ⟨zero_le_one, fun i _ => by rw [zero_mul]; exact hlimit i⟩

theorem reduce_of_le {i : ι} (hchange : 0 ≤ change i) (hle : change i ≤ limit i) (hf : f ≤ 1) :
    reduce limit change f i = f :=
  if_neg (not_lt.mpr ((mul_le_of_le_one_left hchange hf).trans hle))

/-- Below one, the smaller of the factor and the ratio is the reduced factor. -/
theorem min_div_eq_reduce {i : ι} (hlimit : 0 ≤ limit i) (hchange : 0 ≤ change i) (hf : f ≤ 1) :
    (if limit i < change i then min f (limit i / change i) else f) = reduce limit change f i := by
  by_cases hover : limit i < change i
  · have hpos : 0 < change i := hlimit.trans_lt hover
    rw [if_pos hover, reduce]
    split_ifs with hmore
    · exact min_eq_right ((div_le_iff₀ hpos).mpr hmore.le)
    · exact min_eq_left ((le_div_iff₀ hpos).mpr (not_lt.mp hmore))
  · rw [if_neg hover, reduce_of_le hchange (not_lt.mp hover) hf]

theorem foldl_min_eq_factor (hlimit : ∀ i, 0 ≤ limit i) (hchange : ∀ i, 0 ≤ change i) (is : List ι) :
    is.foldl (fun f i => if limit i < change i then min f (limit i / change i) else f) 1 = factor limit change is := by
  unfold factor
  have hrun : ∀ (is : List ι) (f : K), f ≤ 1 →
      is.foldl (fun f i => if limit i < change i then min f (limit i / change i) else f) f =
        is.foldl (reduce limit change) f := by
    intro is
    induction is with
    | nil => exact fun f _ => rfl
    | cons i is ih =>
      intro f hle
      rw [List.foldl_cons, List.foldl_cons, min_div_eq_reduce (hlimit i) (hchange i) hle]
      exact ih _ ((reduce_le (hlimit i) (hchange i)).trans hle)
  exact hrun is 1 le_rfl

omit [Field K] [IsStrictOrderedRing K] in
/-- A loop that only lowers a value: what each round establishes, and what a lower value has as well, holds at the
end. -/
theorem foldl_lower {step : K → ι → K} {P : ι → K → Prop} (hle : ∀ x i, step x i ≤ x) (hstep : ∀ x i, P i (step x i))
    (hlower : ∀ i x y, y ≤ x → P i x → P i y) (is : List ι) (x : K) :
    is.foldl step x ≤ x ∧ ∀ i ∈ is, P i (is.foldl step x) := by
  induction is generalizing x with
  | nil => exact ⟨le_rfl, fun i hi => absurd hi List.not_mem_nil⟩
  | cons i is ih =>
    obtain ⟨hless, hrest⟩ := ih (step x i)
    rw [List.foldl_cons, List.forall_mem_cons]
    exact ⟨hless.trans (hle x i), hlower i _ _ hless (hstep x i), hrest⟩

/-- A loop each of whose rounds reduces the factor. -/
theorem foldl_eq_factor (hlimit : ∀ i, 0 ≤ limit i) (hchange : ∀ i, 0 ≤ change i) {step : K × Bool → ι → K × Bool}
    {value : K}
    (hstep : ∀ f limited i, 0 ≤ f → f ≤ 1 → (limited = false → f = 1) → ∃ limited',
      step (value * f, limited) i = (value * reduce limit change f i, limited') ∧
        (limited' = false → reduce limit change f i = 1)) (is : List ι) :
    ∃ limited, is.foldl step (value, false) = (value * factor limit change is, limited) ∧
      (limited = false → factor limit change is = 1) := by
  unfold factor
  have hrun : ∀ (is : List ι) (f : K) (limited : Bool), 0 ≤ f → f ≤ 1 → (limited = false → f = 1) → ∃ limited',
      is.foldl step (value * f, limited) = (value * is.foldl (reduce limit change) f, limited') ∧
        (limited' = false → is.foldl (reduce limit change) f = 1) := by
    intro is
    induction is with
    | nil => exact fun f limited _ _ hfree => ⟨limited, rfl, hfree⟩
    | cons i is ih =>
      intro f limited hf hle hfree
      obtain ⟨limited', hi, hfree'⟩ := hstep f limited i hf hle hfree
      have hless := reduce_le (f := f) (hlimit i) (hchange i)
      rw [List.foldl_cons, List.foldl_cons, hi]
      exact ih _ limited' (reduce_nonneg (hlimit i) (hchange i) hf) (hless.trans hle) hfree'
  have hall := hrun is 1 false zero_le_one le_rfl fun _ => rfl
  rwa [mul_one] at hall

end Cxsw.Within
