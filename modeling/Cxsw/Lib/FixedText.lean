import Mathlib.Data.Char
import Mathlib.Data.List.Lex
import Cxsw.Lib.JsNumber

/-!
# Cxsw.Lib.FixedText — numbers with a fixed number of decimals

`fixedText` is what `sprintf` writes with `"%c%d.%0Nd"`: a sign, the whole part, and the decimals filled up with zeros.

* `readFixed_fixedText`: the text names its number.
* `lt_of_ofDigitChars_lt`: texts of digits of equal width are in the order of their numbers.
* `length_fixedText_le_iff`: the whole parts with which it is short enough.
-/

namespace Cxsw

section FixedText

/-- The text of a sign, a whole part and `width` decimals. -/
def fixedText (minus : Bool) (whole width sub : ℕ) : List Char :=
  (if minus then '-' else ' ') :: (Nat.toDigits 10 whole ++ '.' :: (Nat.toDigits 10 sub).leftpad width '0')

/-- The number that a text names. -/
def readFixed : List Char → ℚ
  | [] => 0
  | sign :: text =>
    let whole := text.takeWhile Char.isDigit
    let decimals := (text.dropWhile Char.isDigit).drop 1
    (if sign = '-' then -1 else 1) * (Nat.ofDigitChars 10 whole 0 + Nat.ofDigitChars 10 decimals 0 / 10 ^
      decimals.length)

variable {minus : Bool} {whole width sub : ℕ}

theorem ofDigitChars_leftpad (width n : ℕ) : Nat.ofDigitChars 10 ((Nat.toDigits 10 n).leftpad width '0') 0 = n := by
  rw [List.leftpad, Nat.ofDigitChars_append, Nat.ofDigitChars_replicate_zero, mul_zero, Nat.ofDigitChars_ten_toDigits]

theorem length_decimals (hwidth : 0 < width) (h : sub < 10 ^ width) :
    ((Nat.toDigits 10 sub).leftpad width '0').length = width := by
  rw [List.length_leftpad]
  exact max_eq_left ((Nat.length_toDigits_le_iff (by omega) hwidth).mpr h)

theorem isDigit_of_mem_leftpad {width n : ℕ} : ∀ c ∈ (Nat.toDigits 10 n).leftpad width '0', c.isDigit = true := by
  intro c hc
  rcases List.mem_append.mp hc with hpad | hdigits
  · rw [List.eq_of_mem_replicate hpad]
    rfl
  · exact Nat.isDigit_of_mem_toDigits (by omega) (by omega) hdigits

theorem isDigit_toNat {c : Char} (hc : c.isDigit = true) : '0'.toNat ≤ c.toNat ∧ c.toNat ≤ '0'.toNat + 9 := by
  simp only [Char.isDigit, Bool.and_eq_true, decide_eq_true_eq] at hc
  obtain ⟨hlo, hhi⟩ := hc
  exact ⟨hlo, hhi⟩

theorem ofDigitChars_lt : ∀ {xs : List Char}, (∀ c ∈ xs, c.isDigit = true) → Nat.ofDigitChars 10 xs 0 < 10 ^ xs.length
  | [], _ => by simp
  | c :: xs, h => by
    have hc := isDigit_toNat (h c List.mem_cons_self)
    have ih := ofDigitChars_lt fun d hd => h d (List.mem_cons_of_mem _ hd)
    rw [Nat.ofDigitChars_cons, Nat.ofDigitChars_eq_ofDigitChars_zero, List.length_cons, pow_succ]
    have hdigit : 10 * 0 + (c.toNat - '0'.toNat) ≤ 9 := by omega
    have hmul := Nat.mul_le_mul_left (10 ^ xs.length) hdigit
    omega

/-- Of texts of equal width the one of the smaller number comes first, whatever follows. -/
theorem lt_of_ofDigitChars_lt : ∀ {xs ys : List Char}, xs.length = ys.length → (∀ c ∈ xs, c.isDigit = true) →
    (∀ c ∈ ys, c.isDigit = true) → Nat.ofDigitChars 10 xs 0 < Nat.ofDigitChars 10 ys 0 →
    ∀ s t : List Char, List.Lex (· < ·) (xs ++ s) (ys ++ t)
  | [], [], _, _, _, h => absurd h (lt_irrefl _)
  | x :: xs, y :: ys, hlen, hx, hy, h => by
    intro s t
    have hlen' : xs.length = ys.length := by simpa using hlen
    have hx' : ∀ c ∈ xs, c.isDigit = true := fun c hc => hx c (List.mem_cons_of_mem _ hc)
    have hy' : ∀ c ∈ ys, c.isDigit = true := fun c hc => hy c (List.mem_cons_of_mem _ hc)
    have hxd := isDigit_toNat (hx x List.mem_cons_self)
    have hyd := isDigit_toNat (hy y List.mem_cons_self)
    rw [Nat.ofDigitChars_cons, Nat.ofDigitChars_cons, Nat.ofDigitChars_eq_ofDigitChars_zero,
      @Nat.ofDigitChars_eq_ofDigitChars_zero ys, hlen'] at h
    rcases lt_trichotomy x y with hlt | heq | hgt
    · exact List.Lex.rel hlt
    · subst heq
      refine List.Lex.cons (lt_of_ofDigitChars_lt hlen' hx' hy' ?_ s t)
      omega
    · -- a greater first digit outweighs the others
      have hvalue := ofDigitChars_lt hy'
      have hnat : y.toNat < x.toNat := hgt
      have hle : 10 * 0 + (y.toNat - '0'.toNat) + 1 ≤ 10 * 0 + (x.toNat - '0'.toNat) := by omega
      have hmul := Nat.mul_le_mul_left (10 ^ ys.length) hle
      rw [Nat.mul_add, Nat.mul_one] at hmul
      omega

/-- **The text names its number.** -/
theorem readFixed_fixedText (hwidth : 0 < width) (h : sub < 10 ^ width) :
    readFixed (fixedText minus whole width sub) = (if minus then -1 else 1) * (whole + sub / 10 ^ width) := by
  have hdigits : ∀ c ∈ Nat.toDigits 10 whole, c.isDigit = true :=
    fun c hc => Nat.isDigit_of_mem_toDigits (by omega) (by omega) hc
  obtain ⟨htake, hdrop⟩ := Js.takeWhile_digits (Nat.toDigits 10 whole)
    ('.' :: (Nat.toDigits 10 sub).leftpad width '0') hdigits (by simp)
  have hsign : ((if minus then '-' else ' ') = '-') ↔ minus = true := by cases minus <;> decide
  unfold fixedText readFixed
  simp only [htake, hdrop, hsign, List.drop_succ_cons, List.drop_zero, ofDigitChars_leftpad, length_decimals hwidth h,
    Nat.ofDigitChars_ten_toDigits]

/-- With `width` decimals, the text of `k` digits of whole part has `k + width + 2` characters. -/
theorem length_fixedText_le_iff {k : ℕ} (hk : 0 < k) (hwidth : 0 < width) (h : sub < 10 ^ width) :
    (fixedText minus whole width sub).length ≤ k + width + 2 ↔ whole < 10 ^ k := by
  rw [← Nat.length_toDigits_le_iff (b := 10) (by omega) hk]
  unfold fixedText
  rw [List.length_cons, List.length_append, List.length_cons, length_decimals hwidth h]
  omega

end FixedText

end Cxsw
