import Mathlib.Algebra.Order.Floor.Ring
import Mathlib.Algebra.Order.AbsoluteValue.Basic
import Mathlib.Data.Int.Log
import Mathlib.Tactic.FieldSimp
import Mathlib.Tactic.GCongr
import Mathlib.Tactic.Linarith
import Mathlib.Tactic.Ring

/-! # Rounding to the nearest integer

The nearest integer with ties to the even one, and the significand that rounding at a power of a
base leaves: its bounds, its error and when it is a given number. -/

namespace Rounding

section Nearest

variable {K : Type*} [Field K] [LinearOrder K] [FloorRing K]

/-- The nearest integer, ties to the even one. -/
def nearestEven (x : K) : ℤ :=
  if Int.fract x < 1 / 2 ∨ (Int.fract x = 1 / 2 ∧ ⌊x⌋ % 2 = 0) then ⌊x⌋ else ⌊x⌋ + 1

/-- Rounding stays above an integer bound. -/
theorem le_nearestEven {x : K} {n : ℤ} (h : (n : K) ≤ x) : n ≤ nearestEven x := by
  have hfloor : n ≤ ⌊x⌋ := Int.le_floor.mpr h
  rw [nearestEven]
  split <;> omega

variable [IsStrictOrderedRing K]

/-- The nearest integer is at most one half away. -/
theorem abs_sub_nearestEven_le (x : K) : |x - nearestEven x| ≤ 1 / 2 := by
  have hsum := Int.self_sub_floor x
  have hlow := Int.fract_nonneg x
  have hhigh := Int.fract_lt_one x
  rw [nearestEven, abs_le]
  split
  · rename_i h
    have hhalf : Int.fract x ≤ 1 / 2 := by
      rcases h with h | h
      · exact h.le
      · exact h.1.le
    constructor <;> linarith
  · rename_i h
    have hhalf : 1 / 2 ≤ Int.fract x := not_lt.mp fun hlt => h (Or.inl hlt)
    push_cast
    constructor <;> linarith

/-- An integer less than one half away is the nearest one. -/
theorem nearestEven_eq_of_abs_lt {x : K} {n : ℤ} (h : |x - n| < 1 / 2) : nearestEven x = n := by
  have hnear := abs_sub_nearestEven_le x
  have hdist : |((nearestEven x - n : ℤ) : K)| < 1 := by
    have htri := abs_sub_le (nearestEven x : K) x n
    rw [abs_sub_comm (nearestEven x : K) x] at htri
    push_cast
    linarith
  rw [← Int.cast_abs] at hdist
  have hone : |nearestEven x - n| < 1 := by exact_mod_cast hdist
  rw [Int.abs_lt_one_iff] at hone
  omega

/-- An integer is its own nearest one. -/
@[simp] theorem nearestEven_intCast (n : ℤ) : nearestEven (n : K) = n :=
  nearestEven_eq_of_abs_lt (by simp)

/-- Rounding stays below an integer bound. -/
theorem nearestEven_le {x : K} {n : ℤ} (h : x ≤ n) : nearestEven x ≤ n := by
  have hnear := (abs_le.mp (abs_sub_nearestEven_le x)).1
  have hlt : (nearestEven x : K) < n + 1 := by linarith
  have : nearestEven x < n + 1 := by exact_mod_cast hlt
  omega

end Nearest

section Significands

variable {K : Type*} [Field K] [LinearOrder K] [FloorRing K] {b : ℕ} {x : K} {k : ℤ}

/-- The multiple of `b ^ k` nearest to `x`, by its factor. -/
def significand (b : ℕ) (k : ℤ) (x : K) : ℕ := (nearestEven (x / (b : K) ^ k)).toNat

variable [IsStrictOrderedRing K]

/-- The factor of a number that is not negative is the nearest integer itself. -/
theorem significand_cast (hb : 0 < b) (hx : 0 ≤ x) :
    ((significand b k x : ℕ) : ℤ) = nearestEven (x / (b : K) ^ k) := by
  have hpos : (0 : K) < (b : K) ^ k := zpow_pos (by exact_mod_cast hb) k
  have hquot : ((0 : ℤ) : K) ≤ x / (b : K) ^ k := by
    rw [Int.cast_zero]
    exact div_nonneg hx hpos.le
  exact Int.toNat_of_nonneg (le_nearestEven hquot)

/-- Rounding at `b ^ k` errs by at most half of it. -/
theorem abs_sub_significand_le (hb : 0 < b) (hx : 0 ≤ x) :
    |x - (significand b k x : K) * (b : K) ^ k| ≤ (b : K) ^ k / 2 := by
  have hpos : (0 : K) < (b : K) ^ k := zpow_pos (by exact_mod_cast hb) k
  have hcast : ((significand b k x : ℕ) : K) = (nearestEven (x / (b : K) ^ k) : K) := by
    rw [← significand_cast hb hx, Int.cast_natCast]
  have hnear := abs_sub_nearestEven_le (x / (b : K) ^ k)
  have hscale : x - (significand b k x : K) * (b : K) ^ k =
      (x / (b : K) ^ k - nearestEven (x / (b : K) ^ k)) * (b : K) ^ k := by
    rw [hcast, sub_mul, div_mul_cancel₀ _ hpos.ne']
  rw [hscale, abs_mul, abs_of_pos hpos]
  calc _ ≤ 1 / 2 * (b : K) ^ k := by gcongr
    _ = (b : K) ^ k / 2 := by ring

/-- A multiple of `b ^ k` less than half of it away is the one that rounding finds. -/
theorem significand_eq_of_abs_lt (hb : 0 < b) {m : ℕ}
    (h : |x - m * (b : K) ^ k| < (b : K) ^ k / 2) : significand b k x = m := by
  have hpos : (0 : K) < (b : K) ^ k := zpow_pos (by exact_mod_cast hb) k
  have hquot : |x / (b : K) ^ k - ((m : ℤ) : K)| < 1 / 2 := by
    have hscale : x / (b : K) ^ k - ((m : ℤ) : K) = (x - m * (b : K) ^ k) / (b : K) ^ k := by
      rw [sub_div, mul_div_cancel_right₀ _ hpos.ne', Int.cast_natCast]
    rw [hscale, abs_div, abs_of_pos hpos, div_lt_iff₀ hpos]
    linarith
  rw [significand, nearestEven_eq_of_abs_lt hquot, Int.toNat_natCast]

/-- Between two powers of the base, the significand is between their factors. -/
theorem significand_mem (hb : 0 < b) {low high : ℕ} (hlow : (low : K) * (b : K) ^ k ≤ x)
    (hhigh : x ≤ high * (b : K) ^ k) :
    low ≤ significand b k x ∧ significand b k x ≤ high := by
  have hpos : (0 : K) < (b : K) ^ k := zpow_pos (by exact_mod_cast hb) k
  have hge : (low : ℤ) ≤ nearestEven (x / (b : K) ^ k) :=
    le_nearestEven (by rw [Int.cast_natCast, le_div_iff₀ hpos]; exact hlow)
  have hle : nearestEven (x / (b : K) ^ k) ≤ (high : ℤ) :=
    nearestEven_le (by rw [Int.cast_natCast, div_le_iff₀ hpos]; exact hhigh)
  rw [significand]
  omega

/-- The exponent `k` of the last of `p` digits of `x`: `x` has `p` digits before `b ^ k`. -/
theorem mem_of_log (hb : 1 < b) (hx : 0 < x) {p : ℕ} (hp : 0 < p)
    (hk : k = Int.log b x - (p - 1 : ℤ)) :
    ((b ^ (p - 1) : ℕ) : K) * (b : K) ^ k ≤ x ∧ x < ((b ^ p : ℕ) : K) * (b : K) ^ k := by
  have hpos : (0 : K) < b := by exact_mod_cast (Nat.zero_lt_one.trans hb)
  have hpow : ∀ n : ℕ, ((b ^ n : ℕ) : K) * (b : K) ^ k = (b : K) ^ ((n : ℤ) + k) := by
    intro n
    rw [zpow_add₀ hpos.ne', zpow_natCast, Nat.cast_pow]
  have hlow := Int.zpow_log_le_self hb hx
  have hhigh := Int.lt_zpow_succ_log_self hb x
  rw [hpow, hpow, hk]
  have hfirst : ((p - 1 : ℕ) : ℤ) + (Int.log b x - (p - 1 : ℤ)) = Int.log b x := by omega
  have hsecond : (p : ℤ) + (Int.log b x - (p - 1 : ℤ)) = Int.log b x + 1 := by ring
  rw [hfirst, hsecond]
  exact ⟨hlow, hhigh⟩

end Significands

end Rounding
