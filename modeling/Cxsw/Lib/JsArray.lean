import Mathlib.Data.Int.Basic
import Mathlib.Data.List.Find
import Mathlib.Data.List.Nodup
import Mathlib.Data.List.Sort
import Mathlib.Tactic.Common

/-!
# Cxsw.Lib.JsArray — arrays of JavaScript

An array is the list of its elements, and an index is an integer: beyond the array it reads `undefined`, that is `none`.
`findIndex` is the loop that looks for the first element with a property and leaves its place in a variable; `lookup` is
the array as a finite map, where the first element with a key counts.  `ownKeys` is the order in which `for ... in` goes
through the names of an object.
-/

namespace Cxsw.Js

variable {α κ : Type*}

/-- `array[i]`. -/
def at? (array : List α) (i : ℤ) : Option α := if i < 0 then none else array[i.toNat]?

/-- `array.splice(start, deleteCount)`: what is taken out, and what is left. -/
def splice (array : List α) (start deleteCount : ℤ) : List α × List α :=
  let start := if start < 0 then (array.length + start).toNat else start.toNat
  let rest := array.drop start
  (rest.take deleteCount.toNat, array.take start ++ rest.drop deleteCount.toNat)

/-- The loop `for (let i = 0; i < array.length; ++i)` that leaves the place of the first element with `p` in the
variable `findIndex`, and that variable as it is if there is none. -/
def findIndex (p : α → Bool) (array : List α) (findIndex : ℤ) : ℤ := (array.findIdx? p).elim findIndex (↑·)

/-- The element at the place the loop leaves, with -1 for none. -/
def find (p : α → Bool) (array : List α) (start : ℤ) : Option α :=
  if findIndex p array start = -1 then none else at? array (findIndex p array start)

/-- Where there is no such element, the array is read at the start. -/
theorem find_start (p : α → Bool) (array : List α) (start : ℤ) :
    find p array start = (array.find? p).or (at? array start) := by
  unfold find findIndex
  cases hfind : array.findIdx? p with
  | none =>
    have hnone : array.find? p = none := by
      rw [List.find?_eq_none]
      exact fun a ha => by simpa using List.findIdx?_eq_none_iff.mp hfind a ha
    rw [Option.elim_none, hnone, Option.none_or]
    split
    · next hstart => simp [hstart, at?]
    · rfl
  | some i =>
    obtain ⟨hi, hp, hlt⟩ := List.findIdx?_eq_some_iff_getElem.mp hfind
    have hsome : array.find? p = some array[i] :=
      List.find?_eq_some_iff_getElem.mpr ⟨hp, i, hi, rfl, by simpa using hlt⟩
    rw [Option.elim_some, if_neg (by omega), hsome, Option.some_or]
    unfold at?
    rw [if_neg (by omega), Int.toNat_natCast, List.getElem?_eq_getElem hi]

/-- Without a start of its own the loop finds the first element. -/
theorem find_eq (p : α → Bool) (array : List α) : find p array (-1) = array.find? p := by
  rw [find_start]
  exact Option.or_none

section Lookup

variable [DecidableEq κ] (key : α → κ)

/-- The array as a map. -/
def lookup (array : List α) (k : κ) : Option α := array.find? fun a => key a = k

@[simp] theorem lookup_nil (k : κ) : lookup key [] k = none := rfl

theorem lookup_append (array : List α) (a : α) (k : κ) :
    lookup key (array ++ [a]) k = (lookup key array k).or (if key a = k then some a else none) := by
  unfold lookup
  rw [List.find?_append, List.find?_singleton]
  simp

theorem lookup_eq_none {array : List α} {k : κ} : lookup key array k = none ↔ ∀ a ∈ array, key a ≠ k := by
  simp [lookup, List.find?_eq_none]

theorem lookup_mem {array : List α} {k : κ} {a : α} (h : lookup key array k = some a) : a ∈ array :=
  List.mem_of_find?_eq_some h

/-- Of elements with different keys each is found under its own. -/
theorem lookup_of_mem {array : List α} (hkeys : (array.map key).Nodup) {a : α} (ha : a ∈ array) :
    lookup key array (key a) = some a := by
  induction array with
  | nil => cases ha
  | cons b array ih =>
    obtain ⟨hb, hrest⟩ := List.nodup_cons.mp hkeys
    rcases List.mem_cons.mp ha with rfl | ha
    · simp [lookup]
    · have hne : key b ≠ key a := by
        intro h
        exact hb (by rw [h]; exact List.mem_map_of_mem ha)
      have hcons : lookup key (b :: array) (key a) = lookup key array (key a) := by simp [lookup, hne]
      rw [hcons, ih hrest ha]

end Lookup

/-! ## The order of the names of an object -/

section OwnKeys

variable {β : Type*} (arrayIndex : α → Option ℕ)

/-- The names of an object in order: those that are an array index ascend, the others follow as they were inserted. -/
def ownKeys (names : List α) : List α :=
  ((names.filter fun a => (arrayIndex a).isSome).insertionSort
      fun a b => (arrayIndex a).getD 0 ≤ (arrayIndex b).getD 0) ++
    names.filter fun a => (arrayIndex a).isNone

variable {arrayIndex} {names : List α} {p : α → Bool} {a : α}

theorem ownKeys_perm : (ownKeys arrayIndex names).Perm names := by
  have hnone : (names.filter fun a => (arrayIndex a).isNone) = names.filter fun a => !(arrayIndex a).isSome := by
    simp
  unfold ownKeys
  rw [hnone]
  exact ((List.perm_insertionSort _ _).append_right _).trans (List.filter_append_perm _ _)

@[simp] theorem mem_ownKeys : a ∈ ownKeys arrayIndex names ↔ a ∈ names := ownKeys_perm.mem_iff

theorem find?_ownKeys_eq_none : (ownKeys arrayIndex names).find? p = none ↔ ∀ a ∈ names, p a = false := by
  simp [List.find?_eq_none]

/-- The first element with `p`: the one with the smallest array index, or, where no array index has `p`, the first one
inserted. -/
theorem find?_ownKeys_eq_some (h : (ownKeys arrayIndex names).find? p = some a) :
    a ∈ names ∧ p a = true ∧
      ((∃ n, arrayIndex a = some n ∧ ∀ b ∈ names, p b = true → ∀ m, arrayIndex b = some m → n ≤ m) ∨
        (∀ b ∈ names, p b = true → arrayIndex b = none) ∧ names.find? p = some a) := by
  have hmem : a ∈ names := mem_ownKeys.mp (List.mem_of_find?_eq_some h)
  refine ⟨hmem, List.find?_some h, ?_⟩
  unfold ownKeys at h
  rw [List.find?_append] at h
  cases hfirst : ((names.filter fun a => (arrayIndex a).isSome).insertionSort
      fun a b => (arrayIndex a).getD 0 ≤ (arrayIndex b).getD 0).find? p with
  | some c =>
    left
    rw [hfirst, Option.some_or, Option.some.injEq] at h
    subst h
    obtain ⟨hc, as, bs, hsplit, has⟩ := List.find?_eq_some_iff_append.mp hfirst
    have hsorted := List.pairwise_insertionSort (fun a b => (arrayIndex a).getD 0 ≤ (arrayIndex b).getD 0)
      (names.filter fun a => (arrayIndex a).isSome)
    have hin : c ∈ names.filter fun a => (arrayIndex a).isSome := by
      rw [← List.mem_insertionSort (r := fun a b => (arrayIndex a).getD 0 ≤ (arrayIndex b).getD 0), hsplit]
      simp
    obtain ⟨n, hn⟩ := Option.isSome_iff_exists.mp (List.mem_filter.mp hin).2
    refine ⟨n, hn, fun b hb hp m hm => ?_⟩
    have hb' : b ∈ as ++ c :: bs := by
      rw [← hsplit, List.mem_insertionSort]
      exact List.mem_filter.mpr ⟨hb, by rw [hm]; rfl⟩
    rw [hsplit, List.pairwise_append] at hsorted
    rcases List.mem_append.mp hb' with hb' | hb'
    · have := has b hb'
      simp [hp] at this
    · rcases List.mem_cons.mp hb' with rfl | hb'
      · rw [hn, Option.some.injEq] at hm
        exact hm.le
      · have hle := (List.pairwise_cons.mp hsorted.2.1).1 b hb'
        simpa [hn, hm] using hle
  | none =>
    right
    rw [hfirst, Option.none_or, List.find?_filter] at h
    have hnone : ∀ b ∈ names, p b = true → arrayIndex b = none := by
      intro b hb hp
      by_contra hne
      refine absurd hp (List.find?_eq_none.mp hfirst b ?_)
      rw [List.mem_insertionSort]
      exact List.mem_filter.mpr ⟨hb, Option.ne_none_iff_isSome.mp hne⟩
    refine ⟨hnone, ?_⟩
    rw [← h]
    refine List.find?_congr ?_
    intro b hb
    by_cases hp : p b = true
    · simp [hp, hnone b hb hp]
    · simp [hp]

theorem ownKeys_map (f : β → α) (names : List β) :
    ownKeys arrayIndex (names.map f) = (ownKeys (fun b => arrayIndex (f b)) names).map f := by
  unfold ownKeys
  rw [List.filter_map, List.filter_map, List.map_append]
  congr 1
  exact (List.map_insertionSort _ _ f _ fun a _ b _ => Iff.rfl).symm

end OwnKeys

end Cxsw.Js
