import Mathlib.Data.Int.Init
import Mathlib.Tactic.Linarith
import Mathlib.Tactic.NormNum

/-! # C integers as `ℤ`

Arithmetic of `long` stays in `ℤ`; a value stored into a 32-bit `int` is narrowed by `toInt32`, and
C's division is `Int.tdiv`, which truncates towards zero. -/

namespace CInt

/-- The largest value of a 32-bit `int`. -/
def intMax : ℤ := 2 ^ 31 - 1

/-- The smallest value of a 32-bit `int`. -/
def intMin : ℤ := -2 ^ 31

/-- Narrowing to a 32-bit `int`, in two's complement. -/
def toInt32 (x : ℤ) : ℤ := x.bmod (2 ^ 32)

/-- `toInt32` by cases on the residue, in the form `omega` reads. -/
theorem toInt32_eq (x : ℤ) :
    toInt32 x = if x % 4294967296 < 2147483648 then x % 4294967296
      else x % 4294967296 - 4294967296 := by
  simp [toInt32, Int.bmod_def]

/-- A value that fits is unchanged. -/
theorem toInt32_of_fits {x : ℤ} (hlow : intMin ≤ x) (hhigh : x ≤ intMax) : toInt32 x = x := by
  rw [toInt32_eq]
  norm_num [intMin, intMax] at hlow hhigh
  split <;> omega

/-- A small natural number is unchanged. -/
theorem toInt32_natCast {n : ℕ} (h : n < 2 ^ 31) : toInt32 n = n :=
  toInt32_of_fits (by unfold intMin; omega) (by unfold intMax; omega)

/-- A narrowed value fits. -/
theorem toInt32_fits (x : ℤ) : intMin ≤ toInt32 x ∧ toInt32 x ≤ intMax := by
  rw [toInt32_eq]
  norm_num [intMin, intMax]
  constructor <;> split <;> omega

/-- A value that is not below the range is not raised. -/
theorem toInt32_le {x : ℤ} (h : intMin ≤ x) : toInt32 x ≤ x := by
  rw [toInt32_eq]
  norm_num [intMin] at h
  split <;> omega

/-- Narrowing changes a value by a multiple of `2 ^ 32`. -/
theorem toInt32_emod (x : ℤ) : toInt32 x % 2 ^ 32 = x % 2 ^ 32 := by
  rw [toInt32_eq]
  split <;> omega

/-- Narrowing before an addition is undone by narrowing the sum. -/
theorem toInt32_toInt32_add (x y : ℤ) : toInt32 (toInt32 x + y) = toInt32 (x + y) :=
  Int.bmod_add_bmod

/-- The sign of a narrowed value: it is non-negative exactly when the value lies in the lower half
of some period of `2 ^ 32`. -/
theorem toInt32_nonneg_iff (x : ℤ) :
    0 ≤ toInt32 x ↔ ∃ k : ℤ, 2 ^ 32 * k ≤ x ∧ x < 2 ^ 32 * k + 2 ^ 31 := by
  rw [toInt32_eq]
  constructor
  · intro h
    refine ⟨x / 4294967296, ?_, ?_⟩ <;> split at h <;> omega
  · rintro ⟨k, hlow, hhigh⟩
    have hk : x / 4294967296 = k := by omega
    split <;> omega

/-- Truncated division of a non-negative value rounds down. -/
theorem tdiv_of_nonneg {a d : ℤ} (ha : 0 ≤ a) : a.tdiv d = a / d :=
  Int.tdiv_eq_ediv_of_nonneg ha

/-- Truncated division of a negative value rounds up. -/
theorem tdiv_of_neg {a d : ℤ} (ha : a < 0) : a.tdiv d = -(-a / d) := by
  rw [← Int.tdiv_eq_ediv_of_nonneg (by omega : 0 ≤ -a), Int.neg_tdiv, neg_neg]

end CInt
