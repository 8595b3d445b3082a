import Mathlib.Algebra.Order.Ring.Int
import Mathlib.Tactic.Linarith
import Mathlib.Tactic.Ring
import Mathlib.Tactic.Positivity

/-!
# Cxsw.Lib.Vlq — integers in groups of seven bits

An integer is written as its low groups of seven bits, the highest first; every byte but the last has the mark 128.  The
highest group is read with a sign: from 96 on it stands for a negative number.

* `read_write`: what is written in enough groups is read back, whatever follows.
* `write_congr`: `k + 1` groups are those of the number modulo `128 ^ (k + 1)`.
* `exists_read`: a text with a byte without the mark has a number at its head; `read_suffix`: it takes bytes.
-/

namespace Cxsw.Vlq

/-! ## Writing and reading -/

section Defs

/-- The group of seven bits at place `i`. -/
def group (i : ℕ) (z : ℤ) : ℕ := (z / 128 ^ i % 128).toNat

/-- The `k + 1` low groups. -/
def write : ℕ → ℤ → List UInt8
  | 0, z => [UInt8.ofNat (group 0 z)]
  | k + 1, z => UInt8.ofNat (group (k + 1) z + 128) :: write k z

/-- The value of the first group. -/
def signed (c : UInt8) : ℤ := if 96 ≤ c.toNat % 128 then c.toNat % 128 - 128 else c.toNat % 128

/-- The groups behind a number `v`, and the bytes behind them. -/
def readOn : ℤ → List UInt8 → Option (ℤ × List UInt8)
  | _, [] => none
  | v, c :: p =>
    let v' := v * 128 + c.toNat % 128
    if 128 ≤ c.toNat then readOn v' p else some (v', p)

/-- The number at the head of a text, and the bytes behind it. -/
def read : List UInt8 → Option (ℤ × List UInt8)
  | [] => none
  | c :: p => if 128 ≤ c.toNat then readOn (signed c) p else some (signed c, p)

/-- The numbers for which `k + 1` groups are enough. -/
def Fits (k : ℕ) (z : ℤ) : Prop := -(32 * 128 ^ k) ≤ z ∧ z < 96 * 128 ^ k

instance (k : ℕ) (z : ℤ) : Decidable (Fits k z) := inferInstanceAs (Decidable (_ ∧ _))

end Defs

/-! ## Groups -/

section Groups

variable {k : ℕ} {z z' v : ℤ} {rest : List UInt8}

theorem group_lt (i : ℕ) (z : ℤ) : group i z < 128 := by
  unfold group
  have := Int.emod_lt_of_pos (z / 128 ^ i) (show (0 : ℤ) < 128 by norm_num)
  omega

theorem group_cast (i : ℕ) (z : ℤ) : (group i z : ℤ) = z / 128 ^ i % 128 :=
  Int.toNat_of_nonneg (Int.emod_nonneg _ (by norm_num))

theorem toNat_ofNat_group (i : ℕ) (z : ℤ) : (UInt8.ofNat (group i z)).toNat = group i z := by
  have := group_lt i z
  rw [UInt8.toNat_ofNat']
  omega

theorem toNat_marked (i : ℕ) (z : ℤ) : (UInt8.ofNat (group i z + 128)).toNat = group i z + 128 := by
  have := group_lt i z
  rw [UInt8.toNat_ofNat']
  omega

theorem length_write (k : ℕ) (z : ℤ) : (write k z).length = k + 1 := by
  induction k with
  | zero => rfl
  | succ k ih => rw [write, List.length_cons, ih]

/-- The groups do not see what is beyond them. -/
theorem group_add {i : ℕ} (hi : i ≤ k) (z d : ℤ) : group i (z + d * 128 ^ (k + 1)) = group i z := by
  have hpow : d * 128 ^ (k + 1) = d * 128 ^ (k - i) * 128 * 128 ^ i := by
    rw [mul_assoc d, ← pow_succ, mul_assoc, ← pow_add]
    congr 2
    omega
  unfold group
  rw [hpow, Int.add_mul_ediv_right _ _ (by positivity), Int.add_mul_emod_self_right]

theorem write_add (k j : ℕ) (hj : j ≤ k) (z d : ℤ) : write j (z + d * 128 ^ (k + 1)) = write j z := by
  induction j with
  | zero => rw [write, write, group_add hj]
  | succ j ih => rw [write, write, group_add hj, ih (by omega)]

/-- **The bytes are those of the remainder.** -/
theorem write_congr (h : z % 128 ^ (k + 1) = z' % 128 ^ (k + 1)) : write k z = write k z' := by
  rw [← Int.emod_add_mul_ediv z (128 ^ (k + 1)), ← Int.emod_add_mul_ediv z' (128 ^ (k + 1)), h, mul_comm,
    mul_comm (128 ^ (k + 1)), write_add k k le_rfl, write_add k k le_rfl]

/-- The groups up to `k + 1` are the group there and those below. -/
theorem emod_pow_succ (k : ℕ) (z : ℤ) : z % 128 ^ (k + 1) = group k z * 128 ^ k + z % 128 ^ k := by
  rw [group_cast, pow_succ]
  have hk : (0 : ℤ) < 128 ^ k := by positivity
  have h1 := Int.emod_add_mul_ediv z (128 ^ k)
  have h2 := Int.emod_add_mul_ediv (z / 128 ^ k) 128
  rw [Int.emod_def z (128 ^ k * 128), ← Int.ediv_ediv_of_nonneg hk.le]
  calc z - 128 ^ k * 128 * (z / 128 ^ k / 128)
      = z % 128 ^ k + 128 ^ k * (z / 128 ^ k) - 128 ^ k * 128 * (z / 128 ^ k / 128) := by rw [h1]
    _ = 128 ^ k * (z / 128 ^ k - 128 * (z / 128 ^ k / 128)) + z % 128 ^ k := by ring
    _ = z / 128 ^ k % 128 * 128 ^ k + z % 128 ^ k := by rw [← Int.emod_def, mul_comm]

end Groups

/-! ## What is written is read back -/

section RoundTrip

variable {k : ℕ} {z v : ℤ} {rest p : List UInt8}

theorem readOn_write (k : ℕ) (z v : ℤ) (rest : List UInt8) :
    readOn v (write k z ++ rest) = some (v * 128 ^ (k + 1) + z % 128 ^ (k + 1), rest) := by
  induction k generalizing v with
  | zero =>
    have hlt := group_lt 0 z
    have hz := group_cast 0 z
    simp only [write, List.cons_append, List.nil_append, readOn, toNat_ofNat_group]
    rw [if_neg (by omega), emod_pow_succ]
    have hmod : (group 0 z : ℤ) % 128 = group 0 z := Int.emod_eq_of_lt (by omega) (by omega)
    rw [hmod]
    simp
  | succ k ih =>
    have hlt := group_lt (k + 1) z
    have hmod : ((group (k + 1) z + 128 : ℕ) : ℤ) % 128 = group (k + 1) z := by omega
    simp only [write, List.cons_append, readOn, toNat_marked]
    rw [if_pos (by omega), hmod, ih, emod_pow_succ (k + 1) z]
    congr 2
    ring

/-- **What is written in enough groups is read back.** -/
theorem read_write (h : Fits k z) (rest : List UInt8) : read (write k z ++ rest) = some (z, rest) := by
  obtain ⟨hlo, hhi⟩ := h
  have hpos : (0 : ℤ) < 128 ^ k := by positivity
  -- the highest group holds the quotient, which is a signed group
  have hq1 : -32 ≤ z / 128 ^ k := by
    rw [Int.le_ediv_iff_mul_le hpos]
    linarith
  have hq2 : z / 128 ^ k < 96 := by
    rw [Int.ediv_lt_iff_lt_mul hpos]
    linarith
  have hlt := group_lt k z
  have hg := group_cast k z
  have hsigned : (if 96 ≤ group k z then (group k z : ℤ) - 128 else group k z) = z / 128 ^ k := by
    split_ifs <;> omega
  cases k with
  | zero =>
    simp only [write, List.cons_append, List.nil_append, read, signed, toNat_ofNat_group]
    rw [if_neg (by omega), Nat.mod_eq_of_lt hlt, Int.emod_eq_of_lt (by omega) (by omega), hsigned]
    simp
  | succ k =>
    have hnat : (group (k + 1) z + 128) % 128 = group (k + 1) z := by omega
    have hint : ((group (k + 1) z + 128 : ℕ) : ℤ) % 128 = group (k + 1) z := by omega
    simp only [write, List.cons_append, read, signed, toNat_marked]
    rw [if_pos (by omega), hnat, hint, hsigned, readOn_write]
    congr 2
    rw [mul_comm]
    exact Int.mul_ediv_add_emod z _

end RoundTrip

/-! ## Where a number ends -/

section Ends

variable {v : ℤ} {s p : List UInt8}

theorem exists_readOn (h : ∃ c ∈ s, c.toNat < 128) (v : ℤ) : ∃ w p, readOn v s = some (w, p) := by
  induction s generalizing v with
  | nil => simp at h
  | cons c s ih =>
    rw [readOn]
    by_cases hc : 128 ≤ c.toNat
    · rw [if_pos hc]
      obtain ⟨d, hd, hlt⟩ := h
      rcases List.mem_cons.mp hd with rfl | hd
      · omega
      · exact ih ⟨d, hd, hlt⟩ _
    · exact ⟨_, s, if_neg hc⟩

/-- **A byte without the mark ends a number.** -/
theorem exists_read (h : ∃ c ∈ s, c.toNat < 128) : ∃ w p, read s = some (w, p) := by
  cases s with
  | nil => simp at h
  | cons c s =>
    rw [read]
    by_cases hc : 128 ≤ c.toNat
    · rw [if_pos hc]
      obtain ⟨d, hd, hlt⟩ := h
      rcases List.mem_cons.mp hd with rfl | hd
      · omega
      · exact exists_readOn ⟨d, hd, hlt⟩ _
    · exact ⟨_, s, if_neg hc⟩

theorem readOn_suffix {w : ℤ} (h : readOn v s = some (w, p)) : p <:+ s ∧ p.length < s.length := by
  induction s generalizing v with
  | nil => cases h
  | cons c s ih =>
    rw [readOn] at h
    by_cases hc : 128 ≤ c.toNat
    · rw [if_pos hc] at h
      obtain ⟨hsuffix, hlt⟩ := ih h
      exact ⟨hsuffix.trans (List.suffix_cons c s), Nat.lt_succ_of_lt hlt⟩
    · rw [if_neg hc] at h
      cases h
      exact ⟨List.suffix_cons c _, Nat.lt_succ_self _⟩

/-- **A number takes bytes from the head.** -/
theorem read_suffix {w : ℤ} (h : read s = some (w, p)) : p <:+ s ∧ p.length < s.length := by
  cases s with
  | nil => cases h
  | cons c s =>
    rw [read] at h
    by_cases hc : 128 ≤ c.toNat
    · rw [if_pos hc] at h
      obtain ⟨hsuffix, hlt⟩ := readOn_suffix h
      exact ⟨hsuffix.trans (List.suffix_cons c s), Nat.lt_succ_of_lt hlt⟩
    · rw [if_neg hc] at h
      cases h
      exact ⟨List.suffix_cons c _, Nat.lt_succ_self _⟩

end Ends

end Cxsw.Vlq
