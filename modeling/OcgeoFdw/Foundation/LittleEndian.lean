import Mathlib.Data.Nat.Digits.Defs
import Mathlib.Data.UInt

/-! # Integers in memory

An unsigned integer in a number of bytes, the least significant first. Storing one keeps it modulo
`256 ^ width`. -/

namespace LittleEndian

/-- The lowest `width` bytes of a number. -/
def bytes : ℕ → ℕ → List UInt8
  | 0, _ => []
  | width + 1, n => UInt8.ofNat n :: bytes width (n / 256)

/-- The number that bytes spell. -/
def value (l : List UInt8) : ℕ := Nat.ofDigits 256 (l.map UInt8.toNat)

@[simp] theorem length_bytes (width n : ℕ) : (bytes width n).length = width := by
  induction width generalizing n with
  | zero => rfl
  | succ width ih => rw [bytes, List.length_cons, ih]

/-- **What is stored is read back modulo the width.** -/
theorem value_bytes (width n : ℕ) : value (bytes width n) = n % 256 ^ width := by
  induction width generalizing n with
  | zero => exact (Nat.mod_one n).symm
  | succ width ih =>
      have hrest : Nat.ofDigits 256 ((bytes width (n / 256)).map UInt8.toNat) =
          n / 256 % 256 ^ width := ih (n / 256)
      rw [value, bytes, List.map_cons, Nat.ofDigits_cons, hrest, UInt8.toNat_ofNat']
      show n % 256 + 256 * (n / 256 % 256 ^ width) = n % 256 ^ (width + 1)
      rw [pow_succ', Nat.mod_mul]

/-- Bytes spell a number that fits into them. -/
theorem value_lt (l : List UInt8) : value l < 256 ^ l.length := by
  have h := Nat.ofDigits_lt_base_pow_length (b := 256) (l := l.map UInt8.toNat) (by norm_num)
    fun x hx => by
      obtain ⟨c, -, rfl⟩ := List.mem_map.mp hx
      exact c.toNat_lt
  rwa [List.length_map] at h

/-- The bytes of the number that bytes spell are these bytes. -/
theorem bytes_value (l : List UInt8) : bytes l.length (value l) = l := by
  induction l with
  | nil => rfl
  | cons c l ih =>
      have hc : c.toNat < 256 := c.toNat_lt
      have hvalue : value (c :: l) = c.toNat + 256 * value l := Nat.ofDigits_cons
      have hrest : value (c :: l) / 256 = value l := by omega
      have hfirst : UInt8.ofNat (value (c :: l)) = c := by
        apply UInt8.toNat.inj
        rw [UInt8.toNat_ofNat', hvalue]
        omega
      rw [List.length_cons, bytes, hrest, ih, hfirst]

/-- A number that fits is read back. -/
theorem value_bytes_of_lt {width n : ℕ} (h : n < 256 ^ width) : value (bytes width n) = n := by
  rw [value_bytes, Nat.mod_eq_of_lt h]

end LittleEndian
