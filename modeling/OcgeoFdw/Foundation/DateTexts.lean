import OcgeoFdw.Foundation.Calendar
import OcgeoFdw.Foundation.Decimals

/-! # Date-time texts

Numbers that are printed with leading zeros, and the texts `year-month-day hour:minute:secondZ`.
`readDateTime_eq_some` states that such a text is read back as it was printed, whatever the widths
of its fields. -/

namespace CString

open Calendar CInt

/-- `%0*d`: at least `width` characters, with zeros behind the sign. -/
def showPadded (width : ℕ) (n : ℤ) : CString :=
  let digits := ofAscii (toString n.natAbs)
  if 0 ≤ n then List.replicate (width - digits.length) 48 ++ digits
  else 45 :: (List.replicate (width - 1 - digits.length) 48 ++ digits)

/-- Read a number: decimal digits, at least one, and the text behind them. -/
def readNat (s : CString) : Option (ℕ × CString) :=
  if (spanDigits 10 s).1 = [] then none
  else some (magnitude 10 (spanDigits 10 s).1, (spanDigits 10 s).2)

/-- Read one character. -/
def readByte (c : UInt8) : CString → Option CString
  | [] => none
  | d :: s => if d = c then some s else none

/-- Read `year-month-day hour:minute:secondZ`. -/
def readDateTime (s : CString) : Option DateTime := do
  let (year, s) ← readNat s
  let s ← readByte 45 s
  let (month, s) ← readNat s
  let s ← readByte 45 s
  let (day, s) ← readNat s
  let s ← readByte 32 s
  let (hour, s) ← readNat s
  let s ← readByte 58 s
  let (minute, s) ← readNat s
  let s ← readByte 58 s
  let (second, s) ← readNat s
  let s ← readByte 90 s
  if s = [] then some ⟨year, month, day, hour, minute, second⟩ else none

/-! ## Printing -/

/-- `snprintf`: the characters that fit into a buffer of that size, before the terminator. -/
def snprintf (size : ℕ) (text : CString) : CString := text.take (size - 1)

/-- A text that fits is printed whole. -/
theorem snprintf_of_length_lt {size : ℕ} {text : CString} (h : text.length < size) :
    snprintf size text = text :=
  List.take_of_length_le (by omega)

/-- The length of a printed number with at most `k` digits. -/
theorem length_showPadded_le (width : ℕ) {n k : ℕ} (hk : 0 < k) (hn : n < 10 ^ k) :
    (showPadded width n).length ≤ max width k := by
  have hlength : (ofAscii (toString n)).length ≤ k := by
    rw [ofAscii_toString_nat, List.length_map]
    exact Nat.toDigits_length 10 n k hk hn
  rw [showPadded]
  rw [if_pos (Int.natCast_nonneg n), Int.natAbs_natCast, List.length_append, List.length_replicate]
  omega

/-- The length of a printed `int`. -/
theorem length_toString_int_le {n : ℤ} (hlow : intMin ≤ n) (hhigh : n ≤ intMax) :
    (ofAscii (toString n)).length ≤ 11 := by
  have hdigits : ∀ m : ℕ, m < 10 ^ 10 → (ofAscii (toString m)).length ≤ 10 := by
    intro m hm
    rw [ofAscii_toString_nat, List.length_map]
    exact Nat.toDigits_length 10 m 10 (by norm_num) hm
  norm_num [intMin, intMax] at hlow hhigh
  rw [ofAscii_toString_int]
  split
  · have := hdigits n.toNat (by omega)
    omega
  · have := hdigits (-n).toNat (by omega)
    rw [List.length_cons]
    omega

/-! ## Reading -/

/-- The text starts with no decimal digit. -/
def NoDigitFirst (s : CString) : Prop := spanDigits 10 s = ([], s)

/-- Digits are read up to a text that starts with none. -/
theorem spanDigits_append {s rest : CString} (hs : (spanDigits 10 s).2 = [])
    (hrest : NoDigitFirst rest) : spanDigits 10 (s ++ rest) = ((spanDigits 10 s).1, rest) := by
  induction s with
  | nil => exact hrest
  | cons c s ih =>
      rw [List.cons_append]
      unfold spanDigits at hs ⊢
      cases hdigit : digitValue c with
      | none => simp [hdigit] at hs
      | some d =>
          simp only [hdigit] at hs ⊢
          by_cases hd : d < 10
          · rw [if_pos hd] at hs ⊢
            rw [ih hs, if_pos hd]
          · rw [if_neg hd] at hs
            cases hs

/-- Leading zeros are digits. -/
theorem spanDigits_replicate_append (k : ℕ) (s : CString) :
    spanDigits 10 (List.replicate k 48 ++ s) =
      (List.replicate k 0 ++ (spanDigits 10 s).1, (spanDigits 10 s).2) := by
  induction k with
  | zero => rfl
  | succ k ih =>
      rw [List.replicate_succ, List.cons_append, spanDigits, ih]
      rfl

/-- Leading zeros do not change the number. -/
theorem magnitude_replicate_append (k : ℕ) (digits : List ℕ) :
    magnitude 10 (List.replicate k 0 ++ digits) = magnitude 10 digits := by
  unfold magnitude
  rw [List.reverse_append, List.reverse_replicate, Nat.ofDigits_append_replicate_zero]

/-- A printed number is read back. -/
theorem readNat_showPadded (width n : ℕ) {rest : CString} (hrest : NoDigitFirst rest) :
    readNat (showPadded width n ++ rest) = some (n, rest) := by
  have hdigits : spanDigits 10 (ofAscii (toString n)) =
      ((Nat.toDigits 10 n).map fun c => c.toNat - 48, []) := by
    rw [ofAscii_toString_nat]
    exact spanDigits_of_isDigit fun c hc =>
      Nat.isDigit_of_mem_toDigits (by norm_num) (by norm_num) hc
  have hshow : spanDigits 10 (showPadded width n) =
      (List.replicate (width - (ofAscii (toString n)).length) 0 ++
        (Nat.toDigits 10 n).map (fun c => c.toNat - 48), []) := by
    rw [showPadded]
    rw [if_pos (Int.natCast_nonneg n), Int.natAbs_natCast, spanDigits_replicate_append, hdigits]
  rw [readNat]
  rw [spanDigits_append (by rw [hshow]) hrest, hshow, if_neg (by simp), magnitude_replicate_append,
    magnitude_ofDigitChars, Nat.ofDigitChars_ten_toDigits]

/-- A character that is no digit in base ten ends a number. -/
theorem noDigitFirst_cons {c : UInt8} (h : (digitValue c).all (fun d => decide (10 ≤ d)) = true)
    (s : CString) : NoDigitFirst (c :: s) := by
  rw [NoDigitFirst, spanDigits]
  cases hdigit : digitValue c with
  | none => rfl
  | some d =>
      rw [hdigit] at h
      have hd : 10 ≤ d := by simpa using h
      simp only
      rw [if_neg (by omega)]

/-- The character is read. -/
@[simp] theorem readByte_cons (c : UInt8) (s : CString) : readByte c (c :: s) = some s := by
  rw [readByte, if_pos rfl]

/-- A field is read: a printed number and the character behind it. -/
theorem bind_readNat_eq_some {β : Type} {w n : ℕ} {c : UInt8} {rest : CString} {b : β}
    {read : ℕ × CString → Option β} {next : CString → Option β}
    (hc : (digitValue c).all (fun d => decide (10 ≤ d)) = true)
    (hread : read (n, c :: rest) = (readByte c (c :: rest)).bind next) (hnext : next rest = some b) :
    (readNat (showPadded w n ++ c :: rest)).bind read = some b := by
  rw [readNat_showPadded w n (noDigitFirst_cons hc rest), Option.bind_some, hread, readByte_cons,
    Option.bind_some, hnext]

/-- **The text of a date-time is read back.** -/
theorem readDateTime_eq_some (w₁ w₂ w₃ w₄ w₅ w₆ year month day hour minute second : ℕ) :
    readDateTime (showPadded w₁ year ++ 45 :: (showPadded w₂ month ++ 45 ::
      (showPadded w₃ day ++ 32 :: (showPadded w₄ hour ++ 58 ::
        (showPadded w₅ minute ++ 58 :: (showPadded w₆ second ++ [90])))))) =
      some ⟨year, month, day, hour, minute, second⟩ := by
  rw [readDateTime]
  apply bind_readNat_eq_some rfl rfl
  apply bind_readNat_eq_some rfl rfl
  apply bind_readNat_eq_some rfl rfl
  apply bind_readNat_eq_some rfl rfl
  apply bind_readNat_eq_some rfl rfl
  apply bind_readNat_eq_some rfl rfl
  exact if_pos rfl

end CString
