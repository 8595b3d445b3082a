import Mathlib.Data.List.Basic
import Mathlib.Logic.Function.Basic
import Mathlib.Tactic.Common

/-!
# Cxsw.Lib.Checksum — a checksum register of two cells

A cell of data is mixed into the low cell of the register; what comes out makes a new high cell, and is mixed into the
old high cell, which becomes the low one.  Cyclic redundancy checks of twice the width of a cell are of this kind.

* `run_left_injective`, `run_pair_injective`: the register remembers where it started, and the last two cells.
* `codeword_pair_iff`: a text and its checksum behind it, with two adjacent cells changed, are a text and its checksum
  again in one place only, where the last cell of the text and the first cell of the checksum meet.
-/

namespace Cxsw.Checksum

open Function

/-- The functions of a register. -/
structure Register (β : Type*) where
  mix : β → β → β
  high : β → β
  low : β → β
  mix_injective : ∀ a, Injective (mix a)
  mix_left_injective : ∀ b, Injective fun a => mix a b
  high_injective : Injective high

namespace Register

variable {β : Type*} (R : Register β)

/-- One cell of data. -/
def step (r : β × β) (b : β) : β × β := (R.high (R.mix r.2 b), R.mix r.1 (R.low (R.mix r.2 b)))

/-- The cells of a text. -/
def run (r : β × β) (text : List β) : β × β := text.foldl R.step r

/-- A text with its checksum behind it. -/
def Codeword (r : β × β) (w : List β) : Prop := ∃ text, w = text ++ [(R.run r text).1, (R.run r text).2]

variable {R} {r r' : β × β} {a b a' b' : β} {p q text : List β}

theorem run_append (r : β × β) (p q : List β) : R.run r (p ++ q) = R.run (R.run r p) q := List.foldl_append

/-! ## What the register remembers -/

theorem step_left_injective (h : R.step r b = R.step r' b) : r = r' := by
  obtain ⟨h1, h2⟩ := Prod.mk.inj h
  have hi : R.mix r.2 b = R.mix r'.2 b := R.high_injective h1
  rw [hi] at h2
  exact Prod.ext (R.mix_left_injective _ h2) (R.mix_left_injective _ hi)

/-- **The register remembers where it started.** -/
theorem run_left_injective (text : List β) (h : R.run r text = R.run r' text) : r = r' := by
  induction text generalizing r r' with
  | nil => exact h
  | cons b text ih => exact step_left_injective (ih h)

/-- **It remembers the last two cells.** -/
theorem run_pair_injective (h : R.run r [a, b] = R.run r [a', b']) : a = a' ∧ b = b' := by
  change R.step (R.step r a) b = R.step (R.step r a') b' at h
  obtain ⟨h1, h2⟩ := Prod.mk.inj h
  -- the high cell tells what went into the last step, and so the high cell before it
  have hi : R.mix (R.step r a).2 b = R.mix (R.step r a').2 b' := R.high_injective h1
  rw [hi] at h2
  have hhigh : (R.step r a).1 = (R.step r a').1 := R.mix_left_injective _ h2
  have ha : a = a' := R.mix_injective _ (R.high_injective hhigh)
  subst ha
  exact ⟨rfl, R.mix_injective _ hi⟩

/-! ## Damage to a text with its checksum -/

theorem codeword_iff (h : 2 ≤ p.length) :
    R.Codeword r p ↔ p.drop (p.length - 2) = [(R.run r (p.take (p.length - 2))).1,
      (R.run r (p.take (p.length - 2))).2] := by
  constructor
  · rintro ⟨text, rfl⟩
    have hlen : (text ++ [(R.run r text).1, (R.run r text).2]).length - 2 = text.length := by simp
    rw [hlen, List.drop_left, List.take_left]
  · intro hd
    exact ⟨p.take (p.length - 2), by rw [← hd, List.take_append_drop]⟩

theorem codeword_pair (p : List β) (a b : β) : R.Codeword r (p ++ [a, b]) ↔ R.run r p = (a, b) := by
  rw [codeword_iff (by simp)]
  have hlen : (p ++ [a, b]).length - 2 = p.length := by simp
  rw [hlen, List.drop_left, List.take_left]
  constructor
  · intro h
    simp only [List.cons.injEq, and_true] at h
    exact Prod.ext h.1.symm h.2.symm
  · intro h
    rw [h]

/-- **Damage to two adjacent cells**: it is not seen only where it is none, or at the last cell of the text and the
first one of the checksum, where the low cell must not change. -/
theorem codeword_pair_iff (h : R.Codeword r (p ++ [a, b] ++ q)) :
    R.Codeword r (p ++ [a', b'] ++ q) ↔
      (a' = a ∧ b' = b) ∨ (q.length = 1 ∧ R.low (R.mix (R.run r p).2 a') = R.low (R.mix (R.run r p).2 a) ∧
        b' = R.high (R.mix (R.run r p).2 a')) := by
  rcases List.eq_nil_or_concat q with rfl | ⟨q, y, rfl⟩
  · -- the checksum itself
    rw [List.append_nil] at h ⊢
    rw [codeword_pair] at h ⊢
    rw [h]
    simp [eq_comm]
  rcases List.eq_nil_or_concat q with rfl | ⟨q, x, rfl⟩
  · -- the last cell of the text and the first one of the checksum
    have hshape : ∀ c d : β, p ++ [c, d] ++ [y] = p ++ [c] ++ [d, y] := by simp
    rw [List.concat_eq_append, List.nil_append, hshape] at h ⊢
    rw [codeword_pair, run_append] at h ⊢
    obtain ⟨h1, h2⟩ := Prod.mk.inj h
    have hrun : R.run (R.run r p) [a'] = (b', y) ↔
        R.high (R.mix (R.run r p).2 a') = b' ∧ R.mix (R.run r p).1 (R.low (R.mix (R.run r p).2 a')) = y :=
      Iff.of_eq (Prod.mk.injEq _ _ _ _)
    rw [hrun, ← h2]
    constructor
    · rintro ⟨hb, hy⟩
      exact Or.inr ⟨rfl, R.mix_injective _ hy, hb.symm⟩
    · rintro (⟨rfl, rfl⟩ | ⟨-, hlow, hb⟩)
      · exact ⟨h1, rfl⟩
      · exact ⟨hb.symm, by rw [hlow]⟩
  · -- two cells of the text
    have hshape : ∀ c d : β, p ++ [c, d] ++ (q ++ [x] ++ [y]) = p ++ [c, d] ++ q ++ [x, y] := by simp
    rw [List.concat_eq_append, List.concat_eq_append, hshape] at h ⊢
    rw [codeword_pair, run_append, run_append] at h ⊢
    constructor
    · intro h'
      obtain ⟨ha, hb⟩ := run_pair_injective (run_left_injective q (h'.trans h.symm))
      exact Or.inl ⟨ha, hb⟩
    · rintro (⟨rfl, rfl⟩ | ⟨hq, -⟩)
      · exact h
      · simp at hq

end Register

end Cxsw.Checksum
