import Mathlib.Data.Rat.Floor
import OcgeoFdw.Foundation.Rounding

/-! # Binary floating-point numbers

The doubles other than NaN, by their canonical fields, and the rounding of a magnitude to the
nearest of them with ties to the even significand. `ofMagnitude_of_near` bounds the distance at which
rounding returns to a given double. -/

/-- A finite double: the value `± significand * 2 ^ exponent`, by its canonical fields. -/
structure FiniteDouble where
  negative : Bool
  significand : ℕ
  exponent : ℤ
  significand_lt : significand < 2 ^ 53
  exponent_ge : -1074 ≤ exponent
  exponent_le : exponent ≤ 971
  normal : 2 ^ 52 ≤ significand ∨ exponent = -1074
  deriving DecidableEq

/-- A double other than a NaN. -/
inductive CDouble
  | finite (number : FiniteDouble)
  | infinite (negative : Bool)
  deriving DecidableEq

namespace FiniteDouble

/-- The absolute value. -/
def magnitude (d : FiniteDouble) : ℚ := d.significand * 2 ^ d.exponent

/-- The number a finite double denotes; both zeros denote zero. -/
def value (d : FiniteDouble) : ℚ := if d.negative then -d.magnitude else d.magnitude

/-- Zero with a sign. -/
def zero (negative : Bool) : FiniteDouble :=
  ⟨negative, 0, -1074, by decide, le_rfl, by decide, Or.inr rfl⟩

/-- A natural number that has 53 binary digits with `k` zeros behind it. -/
def ofNat (n k : ℕ) (hk : k ≤ 1074) (hlow : 2 ^ 52 ≤ n * 2 ^ k) (hhigh : n * 2 ^ k < 2 ^ 53) :
    FiniteDouble :=
  ⟨false, n * 2 ^ k, -k, hhigh, by omega, by omega, Or.inl hlow⟩

/-- It is the number. -/
theorem magnitude_ofNat {n k : ℕ} (hk : k ≤ 1074) (hlow : 2 ^ 52 ≤ n * 2 ^ k)
    (hhigh : n * 2 ^ k < 2 ^ 53) : (ofNat n k hk hlow hhigh).magnitude = n := by
  rw [magnitude, ofNat]
  simp

/-- A magnitude is not negative. -/
theorem magnitude_nonneg (d : FiniteDouble) : 0 ≤ d.magnitude :=
  mul_nonneg (Nat.cast_nonneg _) (zpow_pos (by norm_num) _).le

/-- A magnitude is zero exactly if the significand is. -/
theorem magnitude_eq_zero_iff (d : FiniteDouble) : d.magnitude = 0 ↔ d.significand = 0 := by
  rw [magnitude, mul_eq_zero, or_iff_left (zpow_pos (by norm_num) _).ne', Nat.cast_eq_zero]

/-- A significand other than zero has a positive magnitude. -/
theorem magnitude_pos (d : FiniteDouble) (h : d.significand ≠ 0) : 0 < d.magnitude :=
  lt_of_le_of_ne d.magnitude_nonneg (Ne.symm (mt d.magnitude_eq_zero_iff.mp h))

/-- The absolute value of the value is the magnitude. -/
theorem abs_value (d : FiniteDouble) : |d.value| = d.magnitude := by
  have hnonneg := d.magnitude_nonneg
  rw [value]
  split
  · rw [abs_neg, abs_of_nonneg hnonneg]
  · exact abs_of_nonneg hnonneg

end FiniteDouble

namespace CDouble

open Rounding

/-- The double with the given fields, infinite if the exponent is too large. -/
def pack (negative : Bool) (m : ℕ) (k : ℤ) : CDouble :=
  if h : m < 2 ^ 53 ∧ -1074 ≤ k ∧ k ≤ 971 ∧ (2 ^ 52 ≤ m ∨ k = -1074) then
    .finite ⟨negative, m, k, h.1, h.2.1, h.2.2.1, h.2.2.2⟩
  else .infinite negative

/-- The exponent of the last binary digit that a double near `x` has. -/
def lastExponent (x : ℚ) : ℤ := max (Int.log 2 x - 52) (-1074)

/-- The double nearest to a magnitude, ties to the even significand, with a sign. A significand that
rounding carries to `2 ^ 53` is `2 ^ 52` at the next exponent. -/
def ofMagnitude (negative : Bool) (x : ℚ) : CDouble :=
  if x ≤ 0 then .finite (FiniteDouble.zero negative)
  else
    let k := lastExponent x
    let m := Rounding.significand 2 k x
    if m < 2 ^ 53 then pack negative m k else pack negative (2 ^ 52) (k + 1)

/-- Packing the fields of a double returns it. -/
theorem pack_fields (d : FiniteDouble) :
    pack d.negative d.significand d.exponent = .finite d := by
  rw [pack, dif_pos ⟨d.significand_lt, d.exponent_ge, d.exponent_le, d.normal⟩]

/-- Rounding at the exponent of a double, less than half a unit away from it, returns it. -/
theorem ofMagnitude_of_exponent {d : FiniteDouble} {x : ℚ} (hx : 0 < x)
    (hk : lastExponent x = d.exponent)
    (hnear : |x - d.magnitude| < 2 ^ d.exponent / 2) : ofMagnitude d.negative x = .finite d := by
  have hsig : Rounding.significand 2 d.exponent x = d.significand :=
    significand_eq_of_abs_lt (by norm_num) (by exact_mod_cast hnear)
  rw [ofMagnitude, if_neg (not_le.mpr hx)]
  simp only [hk, hsig]
  rw [if_pos d.significand_lt, pack_fields]

/-- The last exponent of a number between two powers of two. -/
theorem lastExponent_eq {x : ℚ} {k : ℤ} (hx : 0 < x) (hk : -1074 ≤ k)
    (hlow : (2 : ℚ) ^ (52 + k) ≤ x ∨ k = -1074) (hhigh : x < (2 : ℚ) ^ (53 + k)) :
    lastExponent x = k := by
  have hlog : Int.log 2 x < 53 + k := by
    have h := (Int.lt_zpow_iff_log_lt (b := 2) (by norm_num) hx).mp (by exact_mod_cast hhigh)
    exact h
  rw [lastExponent]
  rcases hlow with hlow | hlow
  · have hge : 52 + k ≤ Int.log 2 x :=
      (Int.zpow_le_iff_le_log (b := 2) (by norm_num) hx).mp (by exact_mod_cast hlow)
    omega
  · omega

/-- **A number within `2 ^ -54` of a finite double, relative to it, rounds to it.** -/
theorem ofMagnitude_of_near {d : FiniteDouble} {x : ℚ}
    (hnear : |x - d.magnitude| * 2 ^ 54 < d.magnitude) : ofMagnitude d.negative x = .finite d := by
  have hmag : 0 < d.magnitude := lt_of_le_of_lt (by positivity) hnear
  have hunit : (0 : ℚ) < 2 ^ d.exponent := zpow_pos (by norm_num) _
  have hpow : ∀ n : ℕ, (2 : ℚ) ^ ((n : ℤ) + d.exponent) = 2 ^ n * 2 ^ d.exponent := by
    intro n
    rw [zpow_add₀ (by norm_num), zpow_natCast]
  have hdef : d.magnitude = d.significand * 2 ^ d.exponent := rfl
  obtain ⟨hbelow, habove⟩ := abs_lt.mp ((lt_div_iff₀ (by positivity)).mpr hnear)
  have hpos : 0 < x := by linarith
  have hsig : (d.significand : ℚ) ≤ 2 ^ 53 - 1 := by
    have h : d.significand + 1 ≤ 2 ^ 53 := d.significand_lt
    have h' : ((d.significand + 1 : ℕ) : ℚ) ≤ 2 ^ 53 := by exact_mod_cast h
    push_cast at h'
    linarith
  have hle : d.magnitude ≤ (2 ^ 53 - 1) * 2 ^ d.exponent := by
    rw [hdef]
    exact mul_le_mul_of_nonneg_right hsig hunit.le
  have hhalf : |x - d.magnitude| < 2 ^ d.exponent / 2 := by
    rw [abs_lt]
    constructor <;> linarith
  have hhigh : x < (2 : ℚ) ^ (53 + d.exponent) := by
    have h := hpow 53
    push_cast at h
    rw [h]
    linarith [abs_lt.mp hhalf]
  by_cases hlow : (2 : ℚ) ^ (52 + d.exponent) ≤ x ∨ d.exponent = -1074
  · exact ofMagnitude_of_exponent hpos (lastExponent_eq hpos d.exponent_ge hlow hhigh) hhalf
  -- `x` is below the smallest significand of the exponent: rounding at the exponent below carries
  · rw [not_or, not_le] at hlow
    obtain ⟨hlow, hexp⟩ := hlow
    have hnormal : 2 ^ 52 ≤ d.significand := d.normal.resolve_right hexp
    have hexp' : -1074 ≤ d.exponent - 1 := by have := d.exponent_ge; omega
    have h52 := hpow 52
    push_cast at h52
    have hsmall : d.significand = 2 ^ 52 := by
      by_contra hne
      have hmore : ((2 ^ 52 + 1 : ℕ) : ℚ) ≤ d.significand := by
        exact_mod_cast Nat.lt_of_le_of_ne hnormal (Ne.symm hne)
      have := mul_le_mul_of_nonneg_right hmore hunit.le
      push_cast at this
      linarith [abs_lt.mp hhalf]
    have hhalfunit : (2 : ℚ) ^ d.exponent = 2 * 2 ^ (d.exponent - 1) := by
      rw [zpow_sub_one₀ (by norm_num)]
      ring
    have hunit' : (0 : ℚ) < 2 ^ (d.exponent - 1) := zpow_pos (by norm_num) _
    have hmag' : d.magnitude = 2 ^ 53 * 2 ^ (d.exponent - 1) := by
      rw [hdef, hsmall, hhalfunit]
      push_cast
      ring
    have hk : lastExponent x = d.exponent - 1 := by
      refine lastExponent_eq hpos hexp' (Or.inl ?_) ?_
      · have h : (2 : ℚ) ^ (52 + (d.exponent - 1)) = 2 ^ 52 * 2 ^ (d.exponent - 1) := by
          rw [zpow_add₀ (by norm_num)]
          norm_num
        rw [h]
        linarith
      · have h : (53 : ℤ) + (d.exponent - 1) = 52 + d.exponent := by ring
        rw [h]
        exact hlow
    have hcarry : Rounding.significand 2 (d.exponent - 1) x = 2 ^ 53 := by
      refine significand_eq_of_abs_lt (by norm_num) ?_
      rw [Nat.cast_pow, Nat.cast_ofNat, ← hmag', abs_lt]
      constructor <;> linarith
    rw [ofMagnitude, if_neg (not_le.mpr hpos)]
    simp only [hk, hcarry]
    rw [if_neg (by norm_num), ← hsmall, sub_add_cancel, pack_fields]

/-- A zero rounds to the zero of its sign. -/
theorem ofMagnitude_zero {d : FiniteDouble} (h : d.magnitude = 0) :
    ofMagnitude d.negative 0 = .finite d := by
  have hsig := d.magnitude_eq_zero_iff.mp h
  have hexp : d.exponent = -1074 := d.normal.resolve_left (by rw [hsig]; norm_num)
  rw [ofMagnitude, if_pos le_rfl, FiniteDouble.zero]
  congr 1
  cases d
  simp_all

/-- **A finite double is its own rounding.** -/
@[simp] theorem ofMagnitude_magnitude (d : FiniteDouble) :
    ofMagnitude d.negative d.magnitude = .finite d := by
  rcases d.magnitude_nonneg.eq_or_lt with h | h
  · rw [← h]
    exact ofMagnitude_zero h.symm
  · exact ofMagnitude_of_near (by simpa using h)

/-- A finite double is determined by its sign and its magnitude. -/
theorem finite_inj {d e : FiniteDouble} (hsign : d.negative = e.negative)
    (hmag : d.magnitude = e.magnitude) : d = e := by
  have h : finite d = finite e := by
    rw [← ofMagnitude_magnitude d, ← ofMagnitude_magnitude e, hsign, hmag]
  exact finite.inj h

/-- Rounding keeps the sign. -/
theorem negative_of_ofMagnitude {negative : Bool} {x : ℚ} {d : FiniteDouble}
    (h : ofMagnitude negative x = .finite d) : d.negative = negative := by
  have hpack : ∀ {m : ℕ} {k : ℤ}, pack negative m k = .finite d → d.negative = negative := by
    intro m k hd
    rw [pack] at hd
    split at hd
    · rw [← finite.inj hd]
    · exact CDouble.noConfusion hd
  rw [ofMagnitude] at h
  split at h
  · rw [← finite.inj h]
    rfl
  · simp only at h
    split at h
    · exact hpack h
    · exact hpack h

end CDouble
