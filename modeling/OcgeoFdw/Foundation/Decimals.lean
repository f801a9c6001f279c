import OcgeoFdw.Foundation.Strtol

/-! # Decimal texts

The text that `%d` prints, as a C string: its characters, and that `atoi` reads the number back. -/

namespace CString

open CInt

/-- The text of a natural number is its digits. -/
theorem ofAscii_toString_nat (n : ℕ) :
    ofAscii (toString n) = (Nat.toDigits 10 n).map fun c => c.toNat.toUInt8 := by
  rw [ofAscii, Nat.toString_eq_repr, Nat.toList_repr]

/-- The text of an integer has a minus sign if it is negative. -/
theorem ofAscii_toString_int (n : ℤ) :
    ofAscii (toString n) =
      if 0 ≤ n then ofAscii (toString n.toNat) else 45 :: ofAscii (toString (-n).toNat) := by
  rw [Int.toString_eq_repr, Int.repr_eq_if]
  split
  · rfl
  · rw [ofAscii, String.toList_append, List.map_append]
    rfl

/-- The byte of a decimal character. -/
theorem toNat_of_isDigit {c : Char} (h : c.isDigit = true) :
    c.toNat.toUInt8.toNat = c.toNat ∧ 48 ≤ c.toNat ∧ c.toNat ≤ 57 := by
  obtain ⟨hlow, hhigh⟩ := Char.isDigit_iff_toNat.mp h
  have hlow' : 48 ≤ c.toNat := hlow
  have hhigh' : c.toNat ≤ 57 := hhigh
  exact ⟨by simp; omega, hlow', hhigh'⟩

/-- The text of a natural number consists of decimal characters. -/
theorem of_mem_toString_nat {n : ℕ} {c : UInt8} (h : c ∈ ofAscii (toString n)) :
    48 ≤ c.toNat ∧ c.toNat ≤ 57 := by
  rw [ofAscii_toString_nat] at h
  obtain ⟨d, hd, rfl⟩ := List.mem_map.mp h
  obtain ⟨hbyte, hrange⟩ :=
    toNat_of_isDigit (Nat.isDigit_of_mem_toDigits (by norm_num) (by norm_num) hd)
  rw [hbyte]
  exact hrange

/-- Decimal characters are read whole. -/
theorem spanDigits_of_isDigit {l : List Char} (h : ∀ c ∈ l, c.isDigit = true) :
    spanDigits 10 (l.map fun c => c.toNat.toUInt8) = (l.map fun c => c.toNat - 48, []) := by
  induction l with
  | nil => rfl
  | cons c l ih =>
      obtain ⟨hbyte, hlow, hhigh⟩ := toNat_of_isDigit (h c List.mem_cons_self)
      have hdigit : digitValue c.toNat.toUInt8 = some (c.toNat - 48) := by
        rw [digitValue, hbyte, if_pos ⟨hlow, hhigh⟩]
      rw [List.map_cons, spanDigits, hdigit, ih fun d hd => h d (List.mem_cons_of_mem c hd)]
      simp only [List.map_cons]
      rw [if_pos (by omega)]

/-- The magnitude of decimal characters is the number they spell. -/
theorem magnitude_ofDigitChars (l : List Char) :
    magnitude 10 (l.map fun c => c.toNat - 48) = Nat.ofDigitChars 10 l 0 := by
  rw [magnitude]
  induction l using List.reverseRecOn with
  | nil => rfl
  | append_singleton l c ih =>
      rw [List.map_append, List.reverse_append, Nat.ofDigitChars_append, ← ih]
      simp [Nat.ofDigits_cons, Nat.ofDigitChars_cons]
      omega

/-- A character that is no space and no sign stays where it is. -/
theorem takeSign_of_isDigit {c : UInt8} (h : 48 ≤ c.toNat ∧ c.toNat ≤ 57) (s : CString) :
    takeSign ((c :: s).dropWhile isSpace) = (false, c :: s) := by
  have hspace : isSpace c = false := by
    have hne : c ≠ 32 := by
      rintro rfl
      simp at h
    simp [isSpace, hne]
    omega
  have hminus : c ≠ 45 := by
    rintro rfl
    simp at h
  have hplus : c ≠ 43 := by
    rintro rfl
    simp at h
  rw [List.dropWhile_cons_of_neg (by simp [hspace]), takeSign, if_neg hminus, if_neg hplus]

/-- **`atoi` reads back what `%d` prints.** -/
theorem atoi_toString {n : ℤ} (hlow : intMin ≤ n) (hhigh : n ≤ intMax) :
    atoi (ofAscii (toString n)) = n := by
  have hfits : toInt32 n = n := toInt32_of_fits hlow hhigh
  norm_num [intMin, intMax] at hlow hhigh
  have hspan : ∀ m : ℕ, spanDigits 10 (ofAscii (toString m)) =
      ((Nat.toDigits 10 m).map fun c => c.toNat - 48, []) := by
    intro m
    rw [ofAscii_toString_nat]
    exact spanDigits_of_isDigit fun c hc =>
      Nat.isDigit_of_mem_toDigits (by norm_num) (by norm_num) hc
  have hvalue : ∀ (negative : Bool) (m : ℕ), Numeral.value ⟨negative, 10,
      (Nat.toDigits 10 m).map fun c => c.toNat - 48⟩ =
        saturateLong (if negative then -(m : ℤ) else m) := by
    intro negative m
    rw [Numeral.value, magnitude_ofDigitChars, Nat.ofDigitChars_ten_toDigits]
  rw [atoi_eq, ofAscii_toString_int]
  split
  · rename_i hn
    obtain ⟨c, s, hcs⟩ : ∃ c s, ofAscii (toString n.toNat) = c :: s := by
      rw [ofAscii_toString_nat]
      exact List.exists_cons_of_ne_nil (by simp)
    have hc := of_mem_toString_nat (hcs ▸ List.mem_cons_self : c ∈ ofAscii (toString n.toNat))
    rw [hcs, takeSign_of_isDigit hc, ← hcs, hspan, hvalue, if_neg (by simp), Int.toNat_of_nonneg hn,
      saturateLong_of_fits (by omega) (by omega), hfits]
  · rename_i hn
    have hsign : takeSign ((45 :: ofAscii (toString (-n).toNat)).dropWhile isSpace) =
        (true, ofAscii (toString (-n).toNat)) := rfl
    rw [hsign, hspan, hvalue, if_pos rfl, Int.toNat_of_nonneg (by omega), neg_neg,
      saturateLong_of_fits (by omega) (by omega), hfits]

end CString
