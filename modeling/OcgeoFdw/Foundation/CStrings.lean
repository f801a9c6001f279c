import Mathlib.Data.List.TakeWhile
import Mathlib.Data.UInt

/-! # C strings

A NUL-terminated string is the list of its bytes before the terminator, so `strcmp` answering `0`
is equality of lists. -/

/-- The bytes of a C string, without the terminating NUL. -/
abbrev CString := List UInt8

namespace CString

/-- The C string of an ASCII literal. -/
def ofAscii (s : String) : CString := s.toList.map fun c => c.toNat.toUInt8

/-- The bytes of a C string, up to its first NUL. -/
def untilNul (s : CString) : CString := s.takeWhile (· ≠ 0)

/-- Cutting a string at its first NUL twice is cutting it once. -/
@[simp] theorem untilNul_untilNul (s : CString) : untilNul (untilNul s) = untilNul s :=
  List.takeWhile_idem

/-- A C string without NULs is seen whole. -/
theorem untilNul_eq_self {s : CString} (h : ∀ c ∈ s, c ≠ 0) : untilNul s = s :=
  List.takeWhile_eq_self_iff.mpr fun c hc => decide_eq_true (h c hc)

/-- Nothing behind a NUL is part of a C string. -/
theorem untilNul_append_nul (s rest : CString) : untilNul (s ++ 0 :: rest) = untilNul s := by
  induction s with
  | nil => rfl
  | cons c s ih =>
      show (c :: (s ++ 0 :: rest)).takeWhile _ = (c :: s).takeWhile _
      by_cases hc : c = 0
      · rw [List.takeWhile_cons_of_neg (by simp [hc]), List.takeWhile_cons_of_neg (by simp [hc])]
      · rw [List.takeWhile_cons_of_pos (by simp [hc]), List.takeWhile_cons_of_pos (by simp [hc])]
        exact congrArg (c :: ·) ih

/-- `tolower` in the C locale: the ASCII capitals are moved up by 32. -/
def toLower (c : UInt8) : UInt8 := if 65 ≤ c.toNat ∧ c.toNat ≤ 90 then c + 32 else c

/-- `isspace` in the C locale: space, `\t`, `\n`, `\v`, `\f`, `\r`. -/
def isSpace (c : UInt8) : Bool := c = 32 || (9 ≤ c.toNat && c.toNat ≤ 13)

/-- Two strings that differ only in the case of ASCII letters. -/
def EqIgnoringCase (s t : CString) : Prop := s.map toLower = t.map toLower

instance (s t : CString) : Decidable (EqIgnoringCase s t) := inferInstanceAs (Decidable (_ = _))

end CString
