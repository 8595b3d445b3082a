import Mathlib.Data.List.Basic

/-!
# Cxsw.Lib.Lines — cutting a stream at its terminators

`completeLines p s` are the non-empty pieces of `s` that a terminator ends, in order, and `openLine p s` is what
follows the last terminator.  Both are read off `List.splitOnP`.  The lemmas say how they grow with the stream.
-/

namespace Cxsw.Lines

variable {α : Type*} {p : α → Bool}

/-- The non-empty lines of `s` that are complete. -/
def completeLines [DecidableEq α] (p : α → Bool) (s : List α) : List (List α) :=
  (s.splitOnP p).dropLast.filter (· ≠ [])

/-- The line of `s` that no terminator has ended yet. -/
def openLine (p : α → Bool) (s : List α) : List α := (s.splitOnP p).getLast (List.splitOnP_ne_nil p s)

theorem splitOnP_eq_concat (s : List α) : s.splitOnP p = (s.splitOnP p).dropLast ++ [openLine p s] :=
  (List.dropLast_concat_getLast (List.splitOnP_ne_nil p s)).symm

theorem openLine_mem (s : List α) : openLine p s ∈ s.splitOnP p := List.getLast_mem _

/-- What is not a terminator is added to the open line. -/
theorem splitOnP_concat {c : α} (hc : p c = false) (s : List α) :
    (s ++ [c]).splitOnP p = (s.splitOnP p).dropLast ++ [openLine p s ++ [c]] := by
  induction s with
  | nil => simp [List.splitOnP_cons_eq_if_modifyHead, hc, openLine]
  | cons x xs ih =>
    have hne := List.splitOnP_ne_nil p xs
    rw [List.cons_append, List.splitOnP_cons_eq_if_modifyHead, ih]
    unfold openLine
    simp only [List.splitOnP_cons_eq_if_modifyHead]
    obtain ⟨y, ys, hy⟩ := List.exists_cons_of_ne_nil hne
    by_cases hx : p x = true
    · simp [hx, hy]
    · cases ys with
      | nil => simp [hx, hy]
      | cons z zs => simp [hx, hy]

@[simp] theorem openLine_nil : openLine p [] = [] := by simp [openLine]

theorem openLine_concat {c : α} (hc : p c = false) (s : List α) :
    openLine p (s ++ [c]) = openLine p s ++ [c] := by
  have h := splitOnP_eq_concat (p := p) (s ++ [c])
  rw [splitOnP_concat hc] at h
  exact (List.singleton_inj.mp (List.append_inj_right' h rfl)).symm

theorem openLine_concat_end {c : α} (hc : p c = true) (s : List α) : openLine p (s ++ [c]) = [] := by
  unfold openLine
  simp [List.splitOnP_append_cons s [] hc]

variable [DecidableEq α]

@[simp] theorem completeLines_nil : completeLines p [] = [] := by simp [completeLines]

theorem completeLines_concat {c : α} (hc : p c = false) (s : List α) :
    completeLines p (s ++ [c]) = completeLines p s := by
  unfold completeLines
  rw [splitOnP_concat hc, List.dropLast_concat]

/-- A terminator completes the open line; an empty one is dropped. -/
theorem completeLines_concat_end {c : α} (hc : p c = true) (s : List α) :
    completeLines p (s ++ [c]) = completeLines p s ++ if openLine p s = [] then [] else [openLine p s] := by
  have h : (s ++ [c]).splitOnP p = s.splitOnP p ++ [[]] := by
    rw [List.splitOnP_append_cons s [] hc, List.splitOnP_nil]
  unfold completeLines
  rw [h, List.dropLast_concat]
  conv_lhs => rw [splitOnP_eq_concat s, List.filter_append]
  split_ifs with ho <;> simp [ho]

omit [DecidableEq α] in
/-- The open line of a part of the stream is the start of a line of the whole. -/
theorem openLine_prefix (s t : List α) : ∃ l ∈ (s ++ t).splitOnP p, openLine p s <+: l := by
  induction t generalizing s with
  | nil => exact ⟨_, by simpa using openLine_mem s, List.prefix_rfl⟩
  | cons c t ih =>
    by_cases hc : p c = true
    · refine ⟨_, ?_, List.prefix_rfl⟩
      rw [List.splitOnP_append_cons s t hc]
      exact List.mem_append_left _ (openLine_mem s)
    · obtain ⟨l, hl, hpre⟩ := ih (s ++ [c])
      rw [openLine_concat (by simpa using hc)] at hpre
      exact ⟨l, by simpa using hl, (List.prefix_append _ _).trans hpre⟩

end Cxsw.Lines
