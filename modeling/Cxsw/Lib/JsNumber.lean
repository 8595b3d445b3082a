import Mathlib.Algebra.Order.Field.Rat
import Mathlib.Data.List.TakeWhile
import Mathlib.Tactic.Common

/-!
# Cxsw.Lib.JsNumber — the numbers of JavaScript and `parseFloat`

A number is `NaN`, an infinity or a rational number; the two zeros are one number.  What an exact result is rounded to
is the parameter `round`; `Number.finite` in its place is exact arithmetic.

* `parseFloat` reads the longest decimal literal at the head of a text.
* `parseFloat_decimal`: a decimal without an exponent is read as its value, whatever comes after it.
-/

namespace Cxsw.Js

/-! ## Numbers -/

section Numbers

/-- A number, up to the sign of zero. -/
inductive Number where
  | nan
  | negInf
  | finite (q : ℚ)
  | posInf
  deriving DecidableEq

namespace Number

/-- `a < b`. -/
def lt : Number → Number → Bool
  | finite p, finite q => p < q
  | negInf, finite _ | negInf, posInf | finite _, posInf => true
  | _, _ => false

/-- `a == b`. -/
def eq (a b : Number) : Bool := a ≠ nan ∧ a = b

/-- `a <= b`. -/
def le (a b : Number) : Bool := a.lt b || a.eq b

/-- `-a`. -/
def neg : Number → Number
  | nan => nan
  | negInf => posInf
  | finite q => finite (-q)
  | posInf => negInf

/-- `a + b`. -/
def add (round : ℚ → Number) : Number → Number → Number
  | finite p, finite q => round (p + q)
  | posInf, finite _ | finite _, posInf | posInf, posInf => posInf
  | negInf, finite _ | finite _, negInf | negInf, negInf => negInf
  | _, _ => nan

/-- `a - b`. -/
def sub (round : ℚ → Number) (a b : Number) : Number := a.add round b.neg

@[simp] theorem lt_finite (p q : ℚ) : (finite p).lt (finite q) = decide (p < q) := rfl

theorem eq_iff {a b : Number} : a.eq b = true ↔ a ≠ nan ∧ a = b := by simp [eq]

@[simp] theorem eq_finite (p q : ℚ) : (finite p).eq (finite q) = decide (p = q) := by simp [eq]

@[simp] theorem le_finite (p q : ℚ) : (finite p).le (finite q) = decide (p ≤ q) := by
  simp [le, le_iff_lt_or_eq]

theorem le_refl {a : Number} (ha : a ≠ nan) : a.le a = true := by simp [le, eq, ha]

theorem ne_nan_of_le {a b : Number} (h : a.le b = true) : a ≠ nan ∧ b ≠ nan := by
  cases a <;> cases b <;> simp_all [le, lt, eq]

theorem le_antisymm {a b : Number} (hab : a.le b = true) (hba : b.le a = true) : a = b := by
  cases a <;> cases b <;> simp_all [le, lt, eq]
  rename_i p q
  rcases hab with h | h
  · rcases hba with h' | h'
    · exact absurd h' h.not_gt
    · exact h'.symm
  · exact h

@[simp] theorem add_finite (round : ℚ → Number) (p q : ℚ) : (finite p).add round (finite q) = round (p + q) := rfl

@[simp] theorem sub_finite (round : ℚ → Number) (p q : ℚ) : (finite p).sub round (finite q) = round (p - q) := by
  rw [sub, neg, add_finite, sub_eq_add_neg]

end Number

end Numbers

/-! ## Reading a number -/

section ParseFloat

/-- White space and line terminators. -/
def isWhiteSpace (c : Char) : Bool :=
  c ∈ ['\t', '\n', '\x0b', '\x0c', '\r', ' ', '\u00a0', '\u1680', '\u2028', '\u2029', '\u202f', '\u205f', '\u3000',
    '\ufeff'] ∨ (0x2000 ≤ c.toNat ∧ c.toNat ≤ 0x200a)

/-- A sign at the head of a text: whether it is a minus, and the rest. -/
def readSign : List Char → Bool × List Char
  | '-' :: rest => (true, rest)
  | '+' :: rest => (false, rest)
  | text => (false, text)

/-- The digits after a point at the head of a text, and the rest. -/
def readFraction : List Char → List Char × List Char
  | '.' :: rest => (rest.takeWhile Char.isDigit, rest.dropWhile Char.isDigit)
  | text => ([], text)

/-- The exponent at the head of a text, 0 where there is none. -/
def readExponent : List Char → ℤ
  | c :: rest =>
    if c = 'e' ∨ c = 'E' then
      let (negative, rest) := readSign rest
      let exponent : ℤ := Nat.ofDigitChars 10 (rest.takeWhile Char.isDigit) 0
      if negative then -exponent else exponent
    else 0
  | [] => 0

/-- The number at the head of a text after its sign. -/
def readUnsigned (round : ℚ → Number) (negative : Bool) (text : List Char) : Number :=
  if "Infinity".toList <+: text then
    if negative then .negInf else .posInf
  else
    let whole := text.takeWhile Char.isDigit
    let (fraction, rest) := readFraction (text.dropWhile Char.isDigit)
    if whole ++ fraction = [] then .nan
    else
      let value : ℚ := Nat.ofDigitChars 10 (whole ++ fraction) 0 * 10 ^ (readExponent rest - fraction.length)
      round (if negative then -value else value)

/-- `parseFloat(text)`. -/
def parseFloat (round : ℚ → Number) (text : List Char) : Number :=
  let (negative, text) := readSign (text.dropWhile isWhiteSpace)
  readUnsigned round negative text

end ParseFloat

/-! ## Decimals without an exponent -/

section Decimals

/-- A decimal: its sign, if any, the digits before the point, and the point with the digits after it, if any. -/
structure Decimal where
  minus : Option Bool
  whole : List Char
  fraction : Option (List Char)
  digits : ∀ c ∈ whole ++ fraction.getD [], c.isDigit = true
  ne_nil : whole ++ fraction.getD [] ≠ []

/-- The text of a sign. -/
def signText : Option Bool → List Char
  | none => []
  | some minus => [if minus then '-' else '+']

/-- The text after the sign. -/
def Decimal.unsigned (d : Decimal) : List Char := d.whole ++ d.fraction.elim [] ('.' :: ·)

def Decimal.text (d : Decimal) : List Char := signText d.minus ++ d.unsigned

def Decimal.value (d : Decimal) : ℚ :=
  let value : ℚ := Nat.ofDigitChars 10 (d.whole ++ d.fraction.getD []) 0 / 10 ^ (d.fraction.getD []).length
  if d.minus = some true then -value else value

/-- The characters of a decimal. -/
theorem Decimal.mem_text {d : Decimal} {c : Char} (hc : c ∈ d.text) : c.isDigit = true ∨ c ∈ ['-', '+', '.'] := by
  rw [Decimal.text, Decimal.unsigned, List.mem_append, List.mem_append] at hc
  rcases hc with hc | hc | hc
  · cases hminus : d.minus with
    | none => simp [hminus, signText] at hc
    | some minus => cases minus <;> simp_all [signText]
  · exact Or.inl (d.digits c (List.mem_append_left _ hc))
  · cases hfraction : d.fraction with
    | none => simp [hfraction] at hc
    | some digits =>
      have hdigits := d.digits c
      simp only [hfraction, Option.elim_some, Option.getD_some, List.mem_cons, List.mem_append] at hc hdigits
      rcases hc with rfl | hc
      · exact Or.inr (by simp)
      · exact Or.inl (hdigits (Or.inr hc))

/-- No decimal goes on with this text. -/
def EndsDecimal (rest : List Char) : Prop :=
  ∀ c ∈ rest.head?, c.isDigit = false ∧ c ≠ '.' ∧ c ≠ 'e' ∧ c ≠ 'E'

theorem takeWhile_digits (digits rest : List Char) (hdigits : ∀ c ∈ digits, c.isDigit = true)
    (hrest : ∀ c ∈ rest.head?, c.isDigit = false) :
    (digits ++ rest).takeWhile Char.isDigit = digits ∧ (digits ++ rest).dropWhile Char.isDigit = rest := by
  have hnone : rest.takeWhile Char.isDigit = [] ∧ rest.dropWhile Char.isDigit = rest := by
    cases rest with
    | nil => simp
    | cons c rest =>
      have hc := hrest c (by simp)
      simp [hc]
  rw [List.takeWhile_append_of_pos hdigits, List.dropWhile_append_of_pos hdigits, hnone.1, hnone.2]
  simp

theorem readFraction_spec (fraction : Option (List Char)) {rest : List Char} (hrest : EndsDecimal rest)
    (hdigits : ∀ c ∈ fraction.getD [], c.isDigit = true) :
    readFraction (fraction.elim [] ('.' :: ·) ++ rest) = (fraction.getD [], rest) := by
  cases fraction with
  | none =>
    cases rest with
    | nil => rfl
    | cons c rest =>
      have hc := (hrest c (by simp)).2.1
      simp only [Option.elim_none, List.nil_append, Option.getD_none]
      rw [readFraction.eq_2]
      intro rest' he
      exact hc (List.cons_eq_cons.mp he).1
  | some digits =>
    rw [Option.getD_some] at hdigits
    obtain ⟨htake, hdrop⟩ := takeWhile_digits digits rest hdigits fun c hc => (hrest c hc).1
    simp only [Option.elim_some, List.cons_append, readFraction, htake, hdrop, Option.getD_some]

theorem readExponent_none {rest : List Char} (hrest : EndsDecimal rest) : readExponent rest = 0 := by
  cases rest with
  | nil => rfl
  | cons c rest =>
    have hc := hrest c (by simp)
    rw [readExponent, if_neg (by simp [hc])]

/-- What a decimal begins with after its sign. -/
theorem Decimal.head_unsigned (d : Decimal) : ∃ c text, d.unsigned = c :: text ∧ (c.isDigit = true ∨ c = '.') := by
  have hdigits := d.digits
  have hne := d.ne_nil
  rw [unsigned]
  cases hwhole : d.whole with
  | cons c whole =>
    rw [hwhole] at hdigits
    exact ⟨c, _, rfl, Or.inl (hdigits c (by simp))⟩
  | nil =>
    cases hfraction : d.fraction with
    | none => simp [hwhole, hfraction] at hne
    | some digits => exact ⟨'.', digits, rfl, Or.inr rfl⟩

theorem not_whiteSpace {c : Char} (h : 33 ≤ c.toNat ∧ c.toNat < 128) : isWhiteSpace c = false := by
  rw [isWhiteSpace, decide_eq_false_iff_not]
  rintro (hmem | hrange)
  · have hlist : ['\t', '\n', '\x0b', '\x0c', '\r', ' ', '\u00a0', '\u1680', '\u2028', '\u2029', '\u202f', '\u205f',
        '\u3000', '\ufeff'].all (fun w => ¬ (33 ≤ w.toNat ∧ w.toNat < 128)) = true := by decide
    simpa [h] using List.all_eq_true.mp hlist c hmem
  · omega

/-- The sign of a decimal is read. -/
theorem readSign_signText (minus : Option Bool) {c : Char} (hc : c.isDigit = true ∨ c = '.') (text : List Char) :
    readSign ((signText minus ++ c :: text).dropWhile isWhiteSpace) = (minus == some true, c :: text) := by
  have hrange : 33 ≤ c.toNat ∧ c.toNat < 128 := by
    rcases hc with hdigit | rfl
    · obtain ⟨hlo, hhi⟩ := Char.isDigit_iff_toNat.mp hdigit
      have hzero : '0'.toNat = 48 := rfl
      have hnine : '9'.toNat = 57 := rfl
      omega
    · decide
  have hc' : c ≠ '-' ∧ c ≠ '+' := by
    constructor <;> rintro rfl <;> revert hc <;> decide
  cases minus with
  | none =>
    simp only [signText, List.nil_append, List.dropWhile_cons, not_whiteSpace hrange]
    rw [if_neg (by simp), readSign.eq_3]
    · rfl
    · rintro rest he
      exact hc'.1 (List.cons_eq_cons.mp he).1
    · rintro rest he
      exact hc'.2 (List.cons_eq_cons.mp he).1
  | some minus => cases minus <;> rfl

/-- A decimal is read as its value, whatever comes after it. -/
theorem parseFloat_decimal (round : ℚ → Number) (d : Decimal) {rest : List Char} (hrest : EndsDecimal rest) :
    parseFloat round (d.text ++ rest) = round d.value := by
  obtain ⟨c, text, hunsigned, hc⟩ := d.head_unsigned
  have hdigits := d.digits
  have hfraction := readFraction_spec d.fraction hrest fun c hmem => hdigits c (List.mem_append_right _ hmem)
  obtain ⟨htake, hdrop⟩ := takeWhile_digits d.whole (d.fraction.elim [] ('.' :: ·) ++ rest)
    (fun c hmem => hdigits c (List.mem_append_left _ hmem)) (by
      intro c' hmem
      cases hf : d.fraction with
      | none => exact (hrest c' (by simpa [hf] using hmem)).1
      | some digits =>
        obtain rfl : c' = '.' := by simpa [hf, eq_comm] using hmem
        rfl)
  have hinfinity : ¬ "Infinity".toList <+: d.unsigned ++ rest := by
    rw [hunsigned, List.cons_append]
    intro h
    obtain ⟨rfl, -⟩ := List.cons_prefix_cons.mp (show 'I' :: "nfinity".toList <+: _ from h)
    revert hc
    decide
  rw [parseFloat, Decimal.text, hunsigned, List.append_assoc, List.cons_append, readSign_signText _ hc]
  simp only
  rw [← List.cons_append, ← hunsigned, readUnsigned, if_neg hinfinity, Decimal.unsigned, List.append_assoc, htake,
    hdrop,
    hfraction]
  simp only
  rw [if_neg d.ne_nil, readExponent_none hrest, zero_sub, zpow_neg, zpow_natCast, ← div_eq_mul_inv, Decimal.value]
  simp

end Decimals

end Cxsw.Js
