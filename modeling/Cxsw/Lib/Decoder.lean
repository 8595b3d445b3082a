import Mathlib.Data.List.Basic
import Mathlib.Tactic.Common

/-!
# Cxsw.Lib.Decoder — decoders that are fed piece by piece

A decoder looks at the input that it has and takes the front of it, with or without a result, or waits for more; what it
decides stays right when more comes.

* `run_append`: what comes later does not change what was made of the input so far.
* `Follows`, `outputs_of_follows`: a program that handles its input in calls, and is never behind with a result, has the
  results of the decoder, however the input is cut into calls.
* `run_map`: a decoder that forgets a part of the state and of the results of another one.
-/

namespace Cxsw

/-- A decoder with states `σ`, input `β` and results `ο`: the next state, how much it takes, and what it makes of
that. -/
structure Decoder (σ β ο : Type*) where
  next : σ → List β → Option (σ × ℕ × Option ο)
  progress : ∀ {s xs s' n o}, next s xs = some (s', n, o) → 0 < n ∧ n ≤ xs.length
  stable : ∀ {s xs r}, next s xs = some r → ∀ ys, next s (xs ++ ys) = some r

/-- The state, the input that is left, and the results. -/
structure Decoded (σ β ο : Type*) where
  state : σ
  rest : List β
  outputs : List ο

namespace Decoder

variable {σ σ' β ο ο' τ : Type*} (D : Decoder σ β ο)

/-- As far as the input goes. -/
def run (s : σ) (xs : List β) : Decoded σ β ο :=
  match _h : D.next s xs with
  | none => ⟨s, xs, []⟩
  | some (s', n, o) =>
    let r := run s' (xs.drop n)
    { r with outputs := o.toList ++ r.outputs }
termination_by xs.length
decreasing_by
  have := D.progress _h
  rw [List.length_drop]
  omega

variable {D} {s s' : σ} {xs ys : List β} {n : ℕ} {o : Option ο}

theorem run_of_none (h : D.next s xs = none) : D.run s xs = ⟨s, xs, []⟩ := by
  rw [run]
  split
  · rfl
  · rename_i h'
    rw [h] at h'
    cases h'

theorem run_of_some (h : D.next s xs = some (s', n, o)) :
    D.run s xs = { D.run s' (xs.drop n) with outputs := o.toList ++ (D.run s' (xs.drop n)).outputs } := by
  rw [run]
  split
  · rename_i h'
    rw [h] at h'
    cases h'
  · rename_i s'' n' o' h'
    rw [h] at h'
    cases h'
    rfl

theorem run_of_skip (h : D.next s xs = some (s', n, none)) : D.run s xs = D.run s' (xs.drop n) := by
  rw [run_of_some h]
  rfl

/-- **What comes later** is decoded from where the decoder waits. -/
theorem run_append (s : σ) (xs ys : List β) :
    D.run s (xs ++ ys) =
      { D.run (D.run s xs).state ((D.run s xs).rest ++ ys) with
        outputs := (D.run s xs).outputs ++ (D.run (D.run s xs).state ((D.run s xs).rest ++ ys)).outputs } := by
  induction hlen : xs.length using Nat.strongRecOn generalizing s xs with
  | ind m ih =>
    cases h : D.next s xs with
    | none => rw [run_of_none h, List.nil_append]
    | some r =>
      obtain ⟨s', n, o⟩ := r
      have hn := D.progress h
      have hdrop : (xs ++ ys).drop n = xs.drop n ++ ys := List.drop_append_of_le_length hn.2
      rw [run_of_some (D.stable h ys), run_of_some h, hdrop,
        ih (xs.drop n).length (by rw [List.length_drop]; omega) s' (xs.drop n) rfl]
      simp only [List.append_assoc]

/-! ## Programs that are called with their input -/

section Calls

variable (D) (call : τ → List β → τ × List ο) (held : τ → σ × List β)

/-- What a program holds has no result for the decoder. -/
def Settled (t : τ) : Prop := (D.run (held t).1 (held t).2).outputs = []

/-- A call that is given a part of the input does what the decoder does with what was held and that part, and leaves
nothing that has a result. -/
def Follows : Prop :=
  ∀ t part, D.Settled held t → D.Settled held (call t part).1 ∧
    D.run (held t).1 ((held t).2 ++ part) =
      { D.run (held (call t part).1).1 (held (call t part).1).2 with outputs := (call t part).2 }

/-- The results of calls one after the other. -/
def outputsOf : τ → List (List β) → List ο
  | _, [] => []
  | t, part :: parts => (call t part).2 ++ outputsOf (call t part).1 parts

variable {D call held}

/-- **However the input is cut into calls**, the results are those of the decoder on the whole of it. -/
theorem outputs_of_follows (hf : D.Follows call held) {t : τ} (ht : D.Settled held t) (parts : List (List β)) :
    outputsOf call t parts = (D.run (held t).1 ((held t).2 ++ parts.flatten)).outputs := by
  induction parts generalizing t with
  | nil =>
    rw [outputsOf, List.flatten_nil, List.append_nil]
    exact ht.symm
  | cons part parts ih =>
    obtain ⟨hset, hrun⟩ := hf t part ht
    -- the decoder on the whole input, from where it stands behind the first part
    have hwhole := run_append (D := D) (held t).1 ((held t).2 ++ part) parts.flatten
    have hheld := run_append (D := D) (held (call t part).1).1 (held (call t part).1).2 parts.flatten
    rw [hrun] at hwhole
    unfold Settled at hset
    rw [hset, List.nil_append] at hheld
    rw [outputsOf, ih hset, List.flatten_cons, ← List.append_assoc, hwhole, hheld]

end Calls

/-! ## Forgetting -/

section Map

variable {E : Decoder σ' β ο'} {π : σ' → σ} {ω : ο' → Option ο}

/-- **A decoder that forgets** a part of the states and of the results of another one. -/
theorem run_map (h : ∀ s xs, D.next (π s) xs = (E.next s xs).map fun r => (π r.1, r.2.1, r.2.2.bind ω)) (s : σ')
    (xs : List β) :
    D.run (π s) xs = ⟨π (E.run s xs).state, (E.run s xs).rest, (E.run s xs).outputs.filterMap ω⟩ := by
  induction hlen : xs.length using Nat.strongRecOn generalizing s xs with
  | ind m ih =>
    cases he : E.next s xs with
    | none =>
      rw [run_of_none he, run_of_none (by rw [h, he]; rfl)]
      rfl
    | some r =>
      obtain ⟨s', n, o⟩ := r
      have hn := E.progress he
      have hd : D.next (π s) xs = some (π s', n, o.bind ω) := by
        rw [h, he]
        rfl
      rw [run_of_some he, run_of_some hd, ih (xs.drop n).length (by rw [List.length_drop]; omega) s' (xs.drop n) rfl]
      cases o with
      | none => rfl
      | some o => cases hω : ω o <;> simp [hω]

end Map

end Decoder

end Cxsw
