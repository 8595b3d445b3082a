import Mathlib.Data.List.TakeWhile
import Mathlib.Data.List.Induction

/-!
# Cxsw.Lib.Words — words of a line, and its comment

A line is cut into words at a separator; a sign `stop` starts a comment.  `plainWords` are the words of the text before
the first such sign, wherever it stands.  `codeWords` is what a reader finds who looks for the sign at the start of a
word only: the two differ in the word that the sign is in, and in those behind it.

* `take_codeWords`: how they differ up to the comment.
* `valuesOf`: the words that start with a letter, without it.
-/

namespace Cxsw.Words

variable {α : Type*} [DecidableEq α] {sep stop : α}

/-- The words before the comment. -/
def plainWords (sep stop : α) (s : List α) : List (List α) := (s.takeWhile (· ≠ stop)).splitOn sep

/-- The words before the first one that starts with the sign. -/
def codeWords (sep stop : α) (s : List α) : List (List α) :=
  (s.splitOn sep).takeWhile (·.head? ≠ some stop)

/-- What stands behind the letter in the words that start with it. -/
def valuesOf (letter : α) (words : List (List α)) : List (List α) :=
  words.filterMap fun word => if word.head? = some letter then some word.tail else none

/-- The last of some texts, or the empty one. -/
def lastOf (texts : List (List α)) : List α := texts.getLast?.getD []

theorem splitOn_eq_head_cons (sep : α) (s : List α) : ∃ word words, s.splitOn sep = word :: words :=
  List.exists_cons_of_ne_nil (List.splitOn_ne_nil sep s)

/-- Where two texts meet, the last word of one and the first of the other are one word. -/
theorem splitOn_append (sep : α) (s t : List α) : ∃ words last first rest, s.splitOn sep = words ++ [last] ∧
    t.splitOn sep = first :: rest ∧ (s ++ t).splitOn sep = words ++ (last ++ first) :: rest := by
  obtain ⟨first, rest, ht⟩ := splitOn_eq_head_cons sep t
  suffices h : ∃ words last, s.splitOn sep = words ++ [last] ∧
      (s ++ t).splitOn sep = words ++ (last ++ first) :: rest by
    obtain ⟨words, last, hs, hst⟩ := h
    exact ⟨words, last, first, rest, hs, ht, hst⟩
  induction s with
  | nil => exact ⟨[], [], rfl, ht⟩
  | cons c s ih =>
    obtain ⟨words, last, hs, hst⟩ := ih
    rw [List.cons_append, List.splitOn_cons_eq_if_modifyHead, List.splitOn_cons_eq_if_modifyHead, hs, hst]
    split_ifs
    · exact ⟨[] :: words, last, rfl, rfl⟩
    · cases words with
      | nil => exact ⟨[], c :: last, rfl, rfl⟩
      | cons word words => exact ⟨(c :: word) :: words, last, rfl, rfl⟩

/-- A word has the letters of the text. -/
theorem mem_of_mem_splitOn {s word : List α} (h : word ∈ s.splitOn sep) {c : α} (hc : c ∈ word) : c ∈ s := by
  induction s generalizing word with
  | nil =>
    rw [List.splitOn_nil, List.mem_singleton] at h
    rw [h] at hc
    exact absurd hc List.not_mem_nil
  | cons d s ih =>
    rw [List.splitOn_cons_eq_if_modifyHead] at h
    obtain ⟨first, rest, hs⟩ := splitOn_eq_head_cons sep s
    rw [hs] at h ih
    split_ifs at h
    · rcases List.mem_cons.mp h with rfl | h
      · exact absurd hc List.not_mem_nil
      · exact List.mem_cons_of_mem _ (ih h hc)
    · rcases List.mem_cons.mp h with rfl | h
      · rcases List.mem_cons.mp hc with rfl | hc
        · exact List.mem_cons_self
        · exact List.mem_cons_of_mem _ (ih List.mem_cons_self hc)
      · exact List.mem_cons_of_mem _ (ih (List.mem_cons_of_mem _ h) hc)

theorem takeWhile_stop {word : List α} (h : word.head? = some stop) (words : List (List α)) :
    (word :: words).takeWhile (·.head? ≠ some stop) = [] :=
  List.takeWhile_cons_of_neg fun hne => (of_decide_eq_true hne : _ ≠ _) h

theorem takeWhile_code {word : List α} (h : word.head? ≠ some stop) (words : List (List α)) :
    (word :: words).takeWhile (·.head? ≠ some stop) = word :: words.takeWhile (·.head? ≠ some stop) :=
  List.takeWhile_cons_of_pos (decide_eq_true h)

/-- No word before the comment starts with the sign. -/
theorem head_plainWords {s word : List α} (h : word ∈ plainWords sep stop s) : word.head? ≠ some stop := by
  intro hhead
  have hmem := mem_of_mem_splitOn h (List.mem_of_head? hhead)
  simpa using List.mem_takeWhile_imp hmem

/-- **Up to the comment** both find the same words, except that the one with the sign in it goes on with the sign. -/
theorem take_codeWords (hsep : sep ≠ stop) (s : List α) :
    ∃ words last tail, plainWords sep stop s = words ++ [last] ∧ (tail = [] ∨ tail.head? = some stop) ∧
      ((codeWords sep stop s).take (plainWords sep stop s).length = words ++ [last ++ tail] ∨
        last = [] ∧ (codeWords sep stop s).take (plainWords sep stop s).length = words) := by
  obtain ⟨words, last, first, rest, hplain, hfirst, hwhole⟩ :=
    splitOn_append sep (s.takeWhile (· ≠ stop)) (s.dropWhile (· ≠ stop))
  rw [List.takeWhile_append_dropWhile] at hwhole
  have hwords : ∀ word ∈ words, (decide (word.head? ≠ some stop)) = true := by
    intro word hword
    have hmem : word ∈ plainWords sep stop s := by
      rw [plainWords, hplain]
      exact List.mem_append_left _ hword
    exact decide_eq_true (head_plainWords hmem)
  have hlast : last.head? ≠ some stop := by
    have hmem : last ∈ plainWords sep stop s := by
      rw [plainWords, hplain]
      exact List.mem_append_right _ List.mem_cons_self
    exact head_plainWords hmem
  have hcode : codeWords sep stop s =
      words ++ ((last ++ first) :: rest).takeWhile (·.head? ≠ some stop) := by
    rw [codeWords, hwhole, List.takeWhile_append_of_pos hwords]
  have hlen : (words ++ [last]).length = words.length + 1 := List.length_append
  refine ⟨words, last, first, hplain, ?_, ?_⟩
  · cases hrest : s.dropWhile (· ≠ stop) with
    | nil =>
      rw [hrest, List.splitOn_nil, List.cons.injEq] at hfirst
      exact Or.inl hfirst.1.symm
    | cons c t =>
      right
      have hc : c = stop := by
        have hhead := List.head?_dropWhile_not (· ≠ stop) s
        rw [hrest, List.head?_cons] at hhead
        simpa using hhead
      obtain ⟨word, tail, ht⟩ := splitOn_eq_head_cons sep t
      rw [hrest, List.splitOn_cons_eq_if_modifyHead, hc, ht, if_neg (by simpa using hsep.symm),
        List.modifyHead_cons, List.cons.injEq] at hfirst
      rw [← hfirst.1]
      rfl
  · rw [plainWords, hplain, hcode, hlen]
    by_cases hstop : (last ++ first).head? = some stop
    · right
      have hnil : last = [] := by
        cases last with
        | nil => rfl
        | cons c last => exact absurd hstop hlast
      rw [takeWhile_stop hstop, List.append_nil, List.take_of_length_le (by omega)]
      exact ⟨hnil, rfl⟩
    · left
      rw [takeWhile_code hstop, List.take_length_add_append, List.take_succ_cons, List.take_zero]

/-! ## Values -/

variable {letter : α} {words : List (List α)}

theorem valuesOf_append (words' : List (List α)) :
    valuesOf letter (words ++ words') = valuesOf letter words ++ valuesOf letter words' := List.filterMap_append

theorem valuesOf_ne_nil : valuesOf letter words ≠ [] ↔ ∃ word ∈ words, word.head? = some letter := by
  simp [valuesOf, List.filterMap_eq_nil_iff]

theorem valuesOf_singleton (word : List α) :
    valuesOf letter [word] = if word.head? = some letter then [word.tail] else [] := by
  unfold valuesOf
  split_ifs with h
  · simp [h]
  · simp [h]

/-- A sign behind a word stands in its value, if it has one. -/
theorem valuesOf_append_stop (hletter : letter ≠ stop) {tail : List α} (htail : tail = [] ∨ tail.head? = some stop)
    (last : List α) :
    valuesOf letter [last ++ tail] = [] ∧ valuesOf letter [last] = [] ∨
      ∃ value, valuesOf letter [last ++ tail] = [value ++ tail] ∧ valuesOf letter [last] = [value] := by
  rw [valuesOf_singleton, valuesOf_singleton]
  cases last with
  | nil =>
    left
    have hhead : tail.head? ≠ some letter := by
      rcases htail with rfl | htail
      · exact nofun
      · rw [htail]
        exact fun h => hletter (Option.some.inj h).symm
    exact ⟨if_neg hhead, if_neg nofun⟩
  | cons c last =>
    by_cases hc : (c :: last).head? = some letter
    · right
      exact ⟨last, if_pos hc, if_pos hc⟩
    · left
      exact ⟨if_neg hc, if_neg hc⟩

section LastOf

variable {β : Type*} {texts texts' : List (List β)}

@[simp] theorem lastOf_nil : lastOf ([] : List (List β)) = [] := rfl

@[simp] theorem lastOf_concat (s : List β) : lastOf (texts ++ [s]) = s := by
  simp [lastOf]

theorem lastOf_append (h : texts' ≠ []) : lastOf (texts ++ texts') = lastOf texts' := by
  rw [lastOf, List.getLast?_append, List.getLast?_eq_some_getLast h, Option.some_or, lastOf,
    List.getLast?_eq_some_getLast h]

theorem getLast?_eq_lastOf (h : texts ≠ []) : texts.getLast? = some (lastOf texts) := by
  rw [lastOf, List.getLast?_eq_some_getLast h]
  rfl

/-- The last text is also the last one that is not empty, unless it is empty. -/
theorem lastOf_filter [DecidableEq β] (h : lastOf texts ≠ []) : lastOf (texts.filter (· ≠ [])) = lastOf texts := by
  induction texts using List.reverseRecOn with
  | nil => exact absurd rfl h
  | append_singleton texts s _ =>
    rw [lastOf_concat] at h
    have hkept : [s].filter (· ≠ []) = [s] := List.filter_cons_of_pos (decide_eq_true h)
    rw [List.filter_append, hkept, lastOf_concat, lastOf_concat]

end LastOf

end Cxsw.Words
