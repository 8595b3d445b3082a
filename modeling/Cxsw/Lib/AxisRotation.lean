import Mathlib.Analysis.SpecialFunctions.Trigonometric.Basic
import Mathlib.LinearAlgebra.Matrix.NonsingularInverse
import Mathlib.LinearAlgebra.Matrix.Notation
import Mathlib.Tactic.FinCases
import Mathlib.Tactic.Linarith

/-!
# Cxsw.Lib.AxisRotation — rotations about the axes, and the exchange of two of them

Matrices over ℝ that act on columns.  `colLength_mul_diagonal` reads the scale off a rotation times a scale; an
`Exchange` of the y and z axes takes a rotation about one axis to a rotation about another one (`conj_rotX`,
`conj_rotY`, `conj_rotZ`).
-/

namespace Cxsw.AxisRotation

open Matrix

abbrev Mat3 := Matrix (Fin 3) (Fin 3) ℝ

noncomputable section

/-- The rotation about the x axis, from y to z. -/
def rotX (a : ℝ) : Mat3 := !![1, 0, 0; 0, Real.cos a, -Real.sin a; 0, Real.sin a, Real.cos a]

/-- The rotation about the y axis, from z to x. -/
def rotY (a : ℝ) : Mat3 := !![Real.cos a, 0, Real.sin a; 0, 1, 0; -Real.sin a, 0, Real.cos a]

/-- The rotation about the z axis, from x to y. -/
def rotZ (a : ℝ) : Mat3 := !![Real.cos a, -Real.sin a, 0; Real.sin a, Real.cos a, 0; 0, 0, 1]

@[simp] theorem rotX_zero : rotX 0 = 1 := by
  ext i j
  fin_cases i <;> fin_cases j <;> simp [rotX]

@[simp] theorem rotY_zero : rotY 0 = 1 := by
  ext i j
  fin_cases i <;> fin_cases j <;> simp [rotY]

@[simp] theorem rotZ_zero : rotZ 0 = 1 := by
  ext i j
  fin_cases i <;> fin_cases j <;> simp [rotZ]

theorem rotX_transpose (a : ℝ) : (rotX a)ᵀ = rotX (-a) := by
  ext i j
  fin_cases i <;> fin_cases j <;> simp [rotX]

theorem rotY_transpose (a : ℝ) : (rotY a)ᵀ = rotY (-a) := by
  ext i j
  fin_cases i <;> fin_cases j <;> simp [rotY]

theorem rotZ_transpose (a : ℝ) : (rotZ a)ᵀ = rotZ (-a) := by
  ext i j
  fin_cases i <;> fin_cases j <;> simp [rotZ]

theorem rotX_orthogonal (a : ℝ) : (rotX a)ᵀ * rotX a = 1 := by
  have h := Real.cos_sq_add_sin_sq a
  ext i j
  fin_cases i <;> fin_cases j <;> simp [rotX, Matrix.mul_apply, Fin.sum_univ_three] <;> nlinarith [h]

theorem rotY_orthogonal (a : ℝ) : (rotY a)ᵀ * rotY a = 1 := by
  have h := Real.cos_sq_add_sin_sq a
  ext i j
  fin_cases i <;> fin_cases j <;> simp [rotY, Matrix.mul_apply, Fin.sum_univ_three] <;> nlinarith [h]

theorem rotZ_orthogonal (a : ℝ) : (rotZ a)ᵀ * rotZ a = 1 := by
  have h := Real.cos_sq_add_sin_sq a
  ext i j
  fin_cases i <;> fin_cases j <;> simp [rotZ, Matrix.mul_apply, Fin.sum_univ_three] <;> nlinarith [h]

theorem orthogonal_mul {A B : Mat3} (hA : Aᵀ * A = 1) (hB : Bᵀ * B = 1) : (A * B)ᵀ * (A * B) = 1 := by
  rw [transpose_mul, Matrix.mul_assoc, ← Matrix.mul_assoc Aᵀ, hA, Matrix.one_mul, hB]

/-- The length of a column. -/
def colLength (A : Mat3) (j : Fin 3) : ℝ := √(∑ i, A i j ^ 2)

theorem colLength_smul (e : ℝ) (A : Mat3) (j : Fin 3) : colLength (e • A) j = |e| * colLength A j := by
  unfold colLength
  have hsum : ∑ i, (e • A) i j ^ 2 = e ^ 2 * ∑ i, A i j ^ 2 := by
    rw [Finset.mul_sum]
    exact Finset.sum_congr rfl fun i _ => by rw [Matrix.smul_apply, smul_eq_mul, mul_pow]
  rw [hsum, Real.sqrt_mul (sq_nonneg e), Real.sqrt_sq_eq_abs]

/-- A rotation does not change the lengths of the columns of a scale. -/
theorem colLength_mul_diagonal {R : Mat3} (hR : Rᵀ * R = 1) (s : Fin 3 → ℝ) (j : Fin 3) :
    colLength (R * diagonal s) j = |s j| := by
  have hcol : ∑ i, R i j ^ 2 = 1 := by
    have h := congrFun (congrFun hR j) j
    rw [Matrix.mul_apply, Matrix.one_apply_eq] at h
    rw [← h]
    exact Finset.sum_congr rfl fun i _ => by rw [Matrix.transpose_apply, sq]
  have hsum : ∑ i, (R * diagonal s) i j ^ 2 = s j ^ 2 := by
    calc ∑ i, (R * diagonal s) i j ^ 2 = ∑ i, R i j ^ 2 * s j ^ 2 :=
          Finset.sum_congr rfl fun i _ => by rw [Matrix.mul_diagonal, mul_pow]
      _ = s j ^ 2 := by rw [← Finset.sum_mul, hcol, one_mul]
  unfold colLength
  rw [hsum, Real.sqrt_sq_eq_abs]

/-- An exchange of the y and z axes, with the sign that each of them gets. -/
structure Exchange where
  y : ℝ
  z : ℝ
  y_sign : y = 1 ∨ y = -1
  z_sign : z = 1 ∨ z = -1

namespace Exchange

variable (P : Exchange)

/-- The y axis goes to `z` times the z axis, and the z axis to `y` times the y axis. -/
def matrix : Mat3 := !![1, 0, 0; 0, 0, P.y; 0, P.z, 0]

theorem y_mul_y : P.y * P.y = 1 := by
  rcases P.y_sign with h | h <;> rw [h] <;> norm_num

theorem z_mul_z : P.z * P.z = 1 := by
  rcases P.z_sign with h | h <;> rw [h] <;> norm_num

theorem matrix_mul_transpose : P.matrix * P.matrixᵀ = 1 := by
  ext i j
  fin_cases i <;> fin_cases j <;> simp [matrix, Matrix.mul_apply, Fin.sum_univ_three, y_mul_y, z_mul_z]

theorem matrix_inv : P.matrix⁻¹ = P.matrixᵀ := Matrix.inv_eq_right_inv P.matrix_mul_transpose

/-- What a transformation is after the exchange. -/
def conj (A : Mat3) : Mat3 := P.matrix * A * P.matrix⁻¹

@[simp] theorem conj_one : P.conj 1 = 1 := by rw [conj, Matrix.mul_one, matrix_inv, matrix_mul_transpose]

theorem conj_mul (A B : Mat3) : P.conj (A * B) = P.conj A * P.conj B := by
  have hinv : P.matrix⁻¹ * P.matrix = 1 := by
    rw [matrix_inv]
    exact mul_eq_one_comm.mp P.matrix_mul_transpose
  calc P.conj (A * B) = P.matrix * A * (1 * (B * P.matrix⁻¹)) := by
        rw [conj, Matrix.one_mul, Matrix.mul_assoc, Matrix.mul_assoc, Matrix.mul_assoc]
    _ = P.conj A * P.conj B := by
        rw [← hinv, conj, conj]
        simp only [Matrix.mul_assoc]

theorem conj_rotX (a : ℝ) : P.conj (rotX a) = rotX (-(P.y * P.z * a)) := by
  rw [conj, matrix_inv]
  rcases P.y_sign with hy | hy <;> rcases P.z_sign with hz | hz <;>
    · ext i j
      fin_cases i <;> fin_cases j <;> simp [matrix, rotX, hy, hz, Matrix.mul_apply, Fin.sum_univ_three]

theorem conj_rotY (a : ℝ) : P.conj (rotY a) = rotZ (-(P.y * a)) := by
  rw [conj, matrix_inv]
  rcases P.y_sign with hy | hy <;> rcases P.z_sign with hz | hz <;>
    · ext i j
      fin_cases i <;> fin_cases j <;> simp [matrix, rotY, rotZ, hy, hz, Matrix.mul_apply, Fin.sum_univ_three]

theorem conj_rotZ (a : ℝ) : P.conj (rotZ a) = rotY (-(P.z * a)) := by
  rw [conj, matrix_inv]
  rcases P.y_sign with hy | hy <;> rcases P.z_sign with hz | hz <;>
    · ext i j
      fin_cases i <;> fin_cases j <;> simp [matrix, rotY, rotZ, hy, hz, Matrix.mul_apply, Fin.sum_univ_three]

theorem conj_diagonal (x y z : ℝ) : P.conj (diagonal ![x, y, z]) = diagonal ![x, z, y] := by
  rw [conj, matrix_inv]
  rcases P.y_sign with hy | hy <;> rcases P.z_sign with hz | hz <;>
    · ext i j
      fin_cases i <;> fin_cases j <;>
        simp [matrix, hy, hz, Matrix.vecMul_diagonal, Matrix.mul_apply, Fin.sum_univ_three]

end Exchange

/-- A rotation about the x axis leaves equal scales of the other axes alone. -/
theorem rotX_mul_diagonal (a x y : ℝ) : rotX a * diagonal ![x, y, y] = diagonal ![x, y, y] * rotX a := by
  ext i j
  fin_cases i <;> fin_cases j <;> simp [rotX, Matrix.mul_diagonal, Matrix.diagonal_mul, mul_comm]

theorem mul_diagonal_uniform (A : Mat3) (x : ℝ) : A * diagonal ![x, x, x] = diagonal ![x, x, x] * A := by
  ext i j
  fin_cases j <;> fin_cases i <;> simp [Matrix.mul_diagonal, Matrix.diagonal_mul, mul_comm]

end

end Cxsw.AxisRotation
