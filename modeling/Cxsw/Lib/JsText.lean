import Mathlib.Data.List.Basic
import Mathlib.Data.List.Induction
import Mathlib.Tactic.Ring

/-!
# Cxsw.Lib.JsText — texts and numbers of JavaScript

A text is the list of its characters.  `splitCrLf` is `text.split('\r\n')`; for one character as separator it is
`List.splitOn`.  `toNumber` is the unary plus on a text, where the number is a natural number or `NaN` (`none`), and
`hexValue` is `parseInt(text, 16)` on hexadecimal digits.
-/

namespace Cxsw.Js

/-- `text.split('\r\n')`. -/
def splitCrLf : List Char → List (List Char)
  | [] => [[]]
  | [c] => [[c]]
  | c :: c' :: l =>
    if c = '\r' ∧ c' = '\n' then [] :: splitCrLf l else (splitCrLf (c' :: l)).modifyHead (c :: ·)

theorem splitCrLf_line {line : List Char} (h : '\r' ∉ line) (rest : List Char) :
    splitCrLf (line ++ '\r' :: '\n' :: rest) = line :: splitCrLf rest := by
  induction line with
  | nil => simp [splitCrLf]
  | cons c line ih =>
    have hc : c ≠ '\r' := fun he => h (he ▸ List.mem_cons_self)
    have hrest := ih fun hmem => h (List.mem_cons_of_mem c hmem)
    cases line with
    | nil => simp [splitCrLf, hc]
    | cons c' line =>
      rw [List.cons_append] at hrest
      simp [splitCrLf, hc, hrest]

/-- `+text` for a text of decimal digits, and `NaN` for any other; the empty text is 0. -/
def toNumber (text : List Char) : Option ℕ :=
  if text.all Char.isDigit then some (Nat.ofDigitChars 10 text 0) else none

@[simp] theorem toNumber_toDigits (n : ℕ) : toNumber (Nat.toDigits 10 n) = some n := by
  have hdigits : (Nat.toDigits 10 n).all Char.isDigit = true :=
    List.all_eq_true.mpr fun c hc => Nat.isDigit_of_mem_toDigits (by omega) (by omega) hc
  rw [toNumber, if_pos hdigits, Nat.ofDigitChars_ten_toDigits]

theorem not_mem_toDigits {c : Char} (hc : c.isDigit = false) (n : ℕ) : c ∉ Nat.toDigits 10 n := by
  intro hmem
  have hdigit := Nat.isDigit_of_mem_toDigits (by omega) (by omega) hmem
  rw [hc] at hdigit
  cases hdigit

/-- The value of a hexadecimal digit. -/
def hexDigit (c : Char) : ℕ :=
  if c.isDigit then c.toNat - '0'.toNat else c.toNat - 'a'.toNat + 10

/-- `parseInt(text, 16)`. -/
def hexValue (text : List Char) : ℕ := text.foldl (fun n c => 16 * n + hexDigit c) 0

theorem hexValue_append (s t : List Char) : hexValue (s ++ t) = hexValue s * 16 ^ t.length + hexValue t := by
  induction t using List.reverseRecOn with
  | nil => simp [hexValue]
  | append_singleton t c ih =>
    have hsnoc (s : List Char) : hexValue (s ++ [c]) = 16 * hexValue s + hexDigit c := by simp [hexValue]
    rw [← List.append_assoc, hsnoc, hsnoc, ih, List.length_append, List.length_singleton, Nat.pow_succ]
    ring

end Cxsw.Js
