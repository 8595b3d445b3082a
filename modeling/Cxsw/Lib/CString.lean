import Mathlib.Data.List.Infix
import Mathlib.Data.List.TakeWhile
import Mathlib.Data.Int.Order.Basic

/-!
# Cxsw.Lib.CString — C strings and the string functions of the C library

A string is the list of its bytes without the terminating zero; a pointer into it is a position.  `strlen` is also
used on whole buffers, where it finds the first zero.
-/

namespace Cxsw.CString

/-- Texts are compared byte by byte. -/
instance lawfulBEqText : LawfulBEq (List UInt8) := inferInstance

/-- For what is to be tried on all bytes. -/
theorem forall_uint8 {P : UInt8 → Prop} (h : ∀ i : Fin 256, P (UInt8.ofFin i)) (b : UInt8) : P b := h b.toFin

/-- The byte of an ASCII character. -/
def ascii (c : Char) : UInt8 := c.toNat.toUInt8

/-- The bytes of an ASCII text. -/
def text (s : String) : List UInt8 := s.toList.map ascii

/-- `strlen` of a buffer. -/
def strlen (buff : List UInt8) : ℕ := (buff.takeWhile (· ≠ 0)).length

/-- The string that a buffer holds. -/
def str (buff : List UInt8) : List UInt8 := buff.takeWhile (· ≠ 0)

/-- `strchr`: the position of the first `c`. -/
def strchr (s : List UInt8) (c : UInt8) : Option ℕ := s.findIdx? (· = c)

/-- `strrchr`: the position of the last `c`. -/
def strrchr : List UInt8 → UInt8 → Option ℕ
  | [], _ => none
  | x :: xs, c =>
    match strrchr xs c with
    | some i => some (i + 1)
    | none => if x = c then some 0 else none

/-- `strstr`, as a truth value. -/
def strstr (s t : List UInt8) : Bool := decide (t <:+: s)

/-- `isspace` in the C locale. -/
def isspace (c : UInt8) : Bool := c = 32 ∨ (9 ≤ c ∧ c ≤ 13)

/-- `isdigit`. -/
def isdigit (c : UInt8) : Bool := 48 ≤ c ∧ c ≤ 57

/-- The value of the leading decimal digits. -/
def digits (s : List UInt8) : ℤ :=
  (s.takeWhile isdigit).foldl (fun (n : ℤ) (c : UInt8) => 10 * n + ((c.toNat : ℤ) - 48)) 0

/-- Clamp to the range of a 32-bit `long`. -/
def clampLong (n : ℤ) : ℤ := max (-2147483648) (min 2147483647 n)

/-- `strtol(s, NULL, 10)`. -/
def strtol (s : List UInt8) : ℤ :=
  let t := s.dropWhile isspace
  if t.head? = some (ascii '-') then clampLong (-digits t.tail)
  else if t.head? = some (ascii '+') then clampLong (digits t.tail)
  else clampLong (digits t)

/-- `atoi`. -/
def atoi (s : List UInt8) : ℤ := strtol s

/-- A sign at the head of a text. -/
def signLength (s : List UInt8) : ℕ := if s.head? = some (ascii '-') ∨ s.head? = some (ascii '+') then 1 else 0

/-- How many bytes `strtol` reads: blanks, a sign and the digits; none where there is no digit. -/
def numberLength (s : List UInt8) : ℕ :=
  let signed := (s.takeWhile isspace).length + signLength (s.dropWhile isspace)
  let count := ((s.drop signed).takeWhile isdigit).length
  if count = 0 then 0 else signed + count

section Stop

variable {c : UInt8}

theorem takeWhile_append_stop {p : UInt8 → Bool} (hc : p c = false) (s t : List UInt8) :
    (s ++ c :: t).takeWhile p = s.takeWhile p := by
  induction s with
  | nil => simp [hc]
  | cons d s ih => simp [List.takeWhile_cons, ih]

theorem dropWhile_append_stop {p : UInt8 → Bool} (hc : p c = false) (s t : List UInt8) :
    (s ++ c :: t).dropWhile p = s.dropWhile p ++ c :: t := by
  induction s with
  | nil => simp [hc]
  | cons d s ih =>
    rw [List.cons_append, List.dropWhile_cons, List.dropWhile_cons, ih]
    split_ifs <;> rfl

theorem digits_append_stop (hc : isdigit c = false) (s t : List UInt8) : digits (s ++ c :: t) = digits s := by
  unfold digits
  rw [takeWhile_append_stop hc]

/-- A byte that is no part of a number ends it. -/
theorem atoi_append_stop (hc : isspace c = false ∧ isdigit c = false ∧ c ≠ ascii '-' ∧ c ≠ ascii '+')
    (s t : List UInt8) : atoi (s ++ c :: t) = atoi s := by
  obtain ⟨hspace, hdigit, hminus, hplus⟩ := hc
  unfold atoi strtol
  rw [dropWhile_append_stop hspace]
  cases s.dropWhile isspace with
  | nil =>
    have hnone : digits (c :: t) = digits [] := digits_append_stop hdigit [] t
    simp [hminus, hplus, hnone]
  | cons d rest =>
    have hall := digits_append_stop hdigit (d :: rest) t
    have htail := digits_append_stop hdigit rest t
    simp only [List.cons_append, List.head?_cons, List.tail_cons] at hall ⊢
    rw [hall, htail]
    rfl

end Stop

section Number

variable {s : List UInt8}

theorem isdigit_of_numberLength {n : ℕ} (h : numberLength s = n + 1) : ∃ c, s[n]? = some c ∧ isdigit c = true := by
  unfold numberLength at h
  dsimp only at h
  generalize (s.takeWhile isspace).length + signLength (s.dropWhile isspace) = k at h
  split_ifs at h with h0
  have hlt : n - k < ((s.drop k).takeWhile isdigit).length := by omega
  have hmem := List.mem_takeWhile_imp (List.getElem_mem hlt)
  refine ⟨_, ?_, hmem⟩
  have hpre := (List.takeWhile_prefix (l := s.drop k) isdigit).getElem hlt
  rw [hpre, List.getElem_drop]
  have : k + (n - k) = n := by omega
  simp [this]

theorem digits_take (t : List UInt8) : digits (t.take (t.takeWhile isdigit).length) = digits t := by
  have hpre : t.take (t.takeWhile isdigit).length = t.takeWhile isdigit :=
    (List.prefix_iff_eq_take.mp (List.takeWhile_prefix _)).symm
  unfold digits
  rw [hpre, List.takeWhile_takeWhile]
  simp

/-- `strtol` reads those bytes and no others. -/
theorem strtol_take_numberLength (s : List UInt8) : strtol (s.take (numberLength s)) = strtol s := by
  have hs : s.takeWhile isspace ++ s.dropWhile isspace = s := List.takeWhile_append_dropWhile
  have hblank : ∀ c ∈ s.takeWhile isspace, isspace c = true := fun c hc => List.mem_takeWhile_imp hc
  have hstop : ∀ c t, s.dropWhile isspace = c :: t → isspace c = false := fun c t h => by
    have := List.dropWhile_get_zero_not isspace s (by rw [h]; simp)
    simpa [h] using this
  unfold numberLength
  generalize s.takeWhile isspace = blanks at hs hblank ⊢
  generalize s.dropWhile isspace = t at hs hstop ⊢
  subst hs
  have hread : ∀ u : List UInt8, strtol (blanks ++ u) = strtol u := fun u => by
    unfold strtol
    rw [List.dropWhile_append_of_pos hblank]
  dsimp only
  rw [← List.drop_drop, List.drop_left, hread]
  cases t with
  | nil => simp [signLength, strtol, digits]
  | cons c t =>
    have hc : isspace c = false := hstop c t rfl
    have hcons : ∀ u : List UInt8, strtol (c :: u) =
        if c = ascii '-' then clampLong (-digits u) else if c = ascii '+' then clampLong (digits u)
        else clampLong (digits (c :: u)) := fun u => by
      unfold strtol
      rw [List.dropWhile_cons_of_neg (by simp [hc])]
      simp
    have hnone : ∀ u : List UInt8, (u.takeWhile isdigit).length = 0 → digits u = 0 := fun u h => by
      unfold digits
      rw [List.eq_nil_of_length_eq_zero h]
      rfl
    by_cases hsign : c = ascii '-' ∨ c = ascii '+'
    · have hone : signLength (c :: t) = 1 := by simp [signLength, hsign]
      rw [hone, List.drop_one, List.tail_cons]
      split_ifs with h0
      · rw [List.take_zero, hcons, hnone t h0]
        rcases hsign with rfl | rfl <;> rfl
      · rw [Nat.add_assoc, List.take_length_add_append, Nat.add_comm 1, List.take_succ_cons, hread, hcons, hcons,
          digits_take]
        rcases hsign with rfl | rfl <;> simp
    · have hzero : signLength (c :: t) = 0 := by simp [signLength, hsign]
      rw [not_or] at hsign
      rw [hzero, List.drop_zero]
      split_ifs with h0
      · rw [List.take_zero, hcons, if_neg hsign.1, if_neg hsign.2, hnone _ h0]
        simp [strtol, digits]
      · obtain ⟨n, hn⟩ := Nat.exists_eq_succ_of_ne_zero h0
        have htake := digits_take (c :: t)
        rw [hn, Nat.succ_eq_add_one, List.take_succ_cons] at htake
        rw [hn, Nat.add_zero, List.take_length_add_append, Nat.succ_eq_add_one, List.take_succ_cons, hread, hcons,
          hcons,
          if_neg hsign.1, if_neg hsign.2, if_neg hsign.1, if_neg hsign.2, htake]
end Number

theorem length_str (buff : List UInt8) : (str buff).length = strlen buff := rfl

theorem zero_not_mem_str (buff : List UInt8) : (0 : UInt8) ∉ str buff := by
  intro h
  simpa using List.mem_takeWhile_imp h

theorem str_drop {buff : List UInt8} {k : ℕ} (h : k ≤ strlen buff) : str (buff.drop k) = (str buff).drop k := by
  induction k generalizing buff with
  | zero => rfl
  | succ k ih =>
    cases buff with
    | nil => rfl
    | cons b buff =>
      by_cases hb : b = 0
      · simp [strlen, hb] at h
      · have htake : str (b :: buff) = b :: str buff := List.takeWhile_cons_of_pos (decide_eq_true hb)
        rw [htake, List.drop_succ_cons, List.drop_succ_cons]
        refine ih ?_
        rw [← length_str, htake, List.length_cons] at h
        exact Nat.le_of_succ_le_succ h

theorem str_eq_self {s : List UInt8} (h : (0 : UInt8) ∉ s) : str s = s := by
  refine List.takeWhile_eq_self_iff.mpr fun b hb => decide_eq_true ?_
  rintro rfl
  exact h hb

/-- Nonzero bytes in front of a zero are the string. -/
theorem str_append_zero {s : List UInt8} (h : (0 : UInt8) ∉ s) (t : List UInt8) : str (s ++ 0 :: t) = s := by
  unfold str
  have hpos : ∀ b ∈ s, decide (b ≠ 0) = true := by
    intro b hb
    refine decide_eq_true ?_
    rintro rfl
    exact h hb
  rw [List.takeWhile_append_of_pos hpos]
  simp

theorem str_append_zeros {s : List UInt8} (h : (0 : UInt8) ∉ s) (n : ℕ) : str (s ++ List.replicate n 0) = s := by
  cases n with
  | zero => rw [List.replicate_zero, List.append_nil, str_eq_self h]
  | succ n => rw [List.replicate_succ, str_append_zero h]

/-- A buffer that holds a text of nonzero bytes and zeros behind it has the length of the text. -/
theorem strlen_append_zeros {s : List UInt8} (h : ∀ b ∈ s, b ≠ 0) (n : ℕ) :
    strlen (s ++ List.replicate n 0) = s.length := by
  unfold strlen
  rw [List.takeWhile_append_of_pos (by simpa using h)]
  cases n <;> simp [List.replicate_succ]

theorem getElem?_of_strrchr {s : List UInt8} {c : UInt8} {i : ℕ} (h : strrchr s c = some i) : s[i]? = some c := by
  induction s generalizing i with
  | nil => simp [strrchr] at h
  | cons x xs ih =>
    unfold strrchr at h
    cases hr : strrchr xs c with
    | some j =>
      rw [hr] at h
      obtain rfl : j + 1 = i := Option.some.inj h
      rw [List.getElem?_cons_succ]
      exact ih hr
    | none =>
      rw [hr] at h
      dsimp only at h
      split_ifs at h with hx
      obtain rfl : 0 = i := Option.some.inj h
      rw [List.getElem?_cons_zero, hx]

theorem strrchr_lt {s : List UInt8} {c : UInt8} {i : ℕ} (h : strrchr s c = some i) : i < s.length :=
  (List.getElem?_eq_some_iff.mp (getElem?_of_strrchr h)).1

/-- The byte that `strchr` finds, and none before it. -/
theorem strchr_eq_some {s : List UInt8} {c : UInt8} {k : ℕ} (h : strchr s c = some k) :
    s[k]? = some c ∧ ∀ i < k, s[i]? ≠ some c := by
  obtain ⟨hlt, hget, hbefore⟩ := List.findIdx?_eq_some_iff_getElem.mp h
  refine ⟨by rw [List.getElem?_eq_getElem hlt]; simpa using hget, fun i hi hc => ?_⟩
  rw [List.getElem?_eq_getElem (by omega), Option.some.injEq] at hc
  exact absurd hc (by simpa using hbefore i hi)

/-- `strchr` fails exactly on texts without the byte. -/
theorem strchr_isSome {s : List UInt8} {c : UInt8} : (strchr s c).isSome ↔ c ∈ s := by
  simp [strchr]

/-! ## The text behind the last separator -/

section Separators

variable {α : Type*} {sep : α → Bool} {s u v : List α} {c : α}

/-- The text behind the last separator; all of it where there is none. -/
def afterLast (sep : α → Bool) (s : List α) : List α := (s.reverse.takeWhile fun a => !sep a).reverse

theorem afterLast_of_none (h : ∀ a ∈ s, sep a = false) : afterLast sep s = s := by
  have hall : s.reverse.takeWhile (fun a => !sep a) = s.reverse := by
    refine List.takeWhile_eq_self_iff.mpr ?_
    intro a ha
    simp [h a (List.mem_reverse.mp ha)]
  rw [afterLast, hall, List.reverse_reverse]

theorem afterLast_congr {sep' : α → Bool} (h : ∀ a ∈ s, sep a = sep' a) : afterLast sep s = afterLast sep' s := by
  have hrev : ∀ a ∈ s.reverse, sep a = sep' a := fun a ha => h a (List.mem_reverse.mp ha)
  unfold afterLast
  congr 1
  generalize s.reverse = w at hrev
  induction w with
  | nil => rfl
  | cons a w ih =>
    rw [List.takeWhile_cons, List.takeWhile_cons, hrev a List.mem_cons_self,
      ih fun b hb => hrev b (List.mem_cons_of_mem _ hb)]

/-- What stands in front of a separator does not matter. -/
theorem afterLast_append_cons (hc : sep c = true) : afterLast sep (u ++ c :: v) = afterLast sep v := by
  have hrev : (u ++ c :: v).reverse = v.reverse ++ c :: u.reverse := by simp
  unfold afterLast
  rw [hrev]
  congr 1
  induction v.reverse with
  | nil => simp [hc]
  | cons a w ih =>
    rw [List.cons_append, List.takeWhile_cons, List.takeWhile_cons, ih]

/-- A text with a separator is cut at the last one. -/
theorem exists_split_afterLast (h : ∃ a ∈ s, sep a = true) :
    ∃ w a, s = w ++ a :: afterLast sep s ∧ sep a = true ∧ ∀ b ∈ afterLast sep s, sep b = false := by
  have hmem : ∀ b ∈ afterLast sep s, sep b = false := by
    intro b hb
    simpa using List.mem_takeWhile_imp (List.mem_reverse.mp hb)
  have hcut := List.takeWhile_append_dropWhile (p := fun a => !sep a) (l := s.reverse)
  cases hd : s.reverse.dropWhile (fun a => !sep a) with
  | nil =>
    obtain ⟨a, ha, hsep⟩ := h
    have := List.dropWhile_eq_nil_iff.mp hd a (List.mem_reverse.mpr ha)
    simp [hsep] at this
  | cons a w =>
    have ha : sep a = true := by
      have := List.head?_dropWhile_not (fun a => !sep a) s.reverse
      simpa [hd] using this
    refine ⟨w.reverse, a, ?_, ha, hmem⟩
    have hs := congrArg List.reverse hcut
    rw [hd, List.reverse_append, List.reverse_reverse, List.reverse_cons, List.append_assoc] at hs
    exact hs.symm

/-- The first `n` elements of a text stand behind its last separator exactly where there is none or where they are
repeated there. -/
theorem take_eq_take_afterLast_iff {n : ℕ} :
    s.take n = (afterLast sep s).take n ↔
      (∀ a ∈ s, sep a = false) ∨
        ∃ w a, s = w ++ a :: afterLast sep s ∧ sep a = true ∧ n ≤ w.length ∧ w.take n = (afterLast sep s).take n := by
  constructor
  · intro h
    by_cases hex : ∃ a ∈ s, sep a = true
    · obtain ⟨w, a, hs, ha, hnone⟩ := exists_split_afterLast hex
      have hlen : n ≤ w.length := by
        by_contra hlt
        -- the separator would be one of the elements behind it
        have hmem : a ∈ s.take n := by
          rw [hs, List.take_append, List.mem_append]
          right
          obtain ⟨k, hk⟩ : ∃ k, n - w.length = k + 1 := ⟨n - w.length - 1, by omega⟩
          rw [hk, List.take_succ_cons]
          exact List.mem_cons_self
        rw [h] at hmem
        have := hnone a (List.mem_of_mem_take hmem)
        simp [ha] at this
      refine Or.inr ⟨w, a, hs, ha, hlen, ?_⟩
      rw [← h]
      conv_rhs => rw [hs]
      rw [List.take_append_of_le_length hlen]
    · left
      intro a ha
      by_contra hsep
      exact hex ⟨a, ha, by simpa using hsep⟩
  · rintro (hnone | ⟨w, a, hs, -, hlen, hrep⟩)
    · rw [afterLast_of_none hnone]
    · rw [← hrep]
      conv_lhs => rw [hs]
      rw [List.take_append_of_le_length hlen]

end Separators

end Cxsw.CString
