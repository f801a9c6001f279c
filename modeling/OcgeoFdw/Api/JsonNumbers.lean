import OcgeoFdw.Api.JsonItems
import OcgeoFdw.Foundation.GeneralFormat

/-! # Numbers in JSON texts

`parse_number` and `print_number`. A finite double is printed with fifteen significant digits if they
are enough to read it back, else with seventeen; either way it is read back exactly. -/

namespace OcgeoFdw

open CString

/-! ## The code -/

/-- The characters that `parse_number` copies into its buffer. -/
def isNumberChar (c : UInt8) : Bool :=
  (48 ≤ c.toNat && c.toNat ≤ 57) || c = 43 || c = 45 || c = 101 || c = 69 || c = 46

/-- `parse_number`: at most 63 characters are converted by `strtod`, and the input goes on behind the
last one it used. -/
def parseNumber (input : CString) : Option (CJsonItem × CString) :=
  let number_c_string := (input.take 63).takeWhile isNumberChar
  let number := strtod number_c_string
  if number.2.length = number_c_string.length then none
  else some (.number number.1, input.drop (number_c_string.length - number.2.length))

/-- The comparison `==` of doubles. -/
def sameDouble : CDouble → CDouble → Bool
  | .finite d, .finite e => d.value = e.value
  | .infinite s, .infinite t => s = t
  | _, _ => false

/-- What `print_number` writes into `number_buffer`. -/
def numberBuffer : CDouble → CString
  | .infinite _ => ofAscii "null"
  | .finite d =>
      if sameDouble (strtod (showGeneral 15 d)).1 (.finite d) then showGeneral 15 d
      else showGeneral 17 d

/-- `print_number`, up to the copy into the output: it fails if the text does not fit into
`number_buffer`, an array of 26 bytes. -/
def printNumber (valuedouble : CDouble) : Option CString :=
  if 25 < (numberBuffer valuedouble).length then none else some (numberBuffer valuedouble)

/-! ## Numerals in the input -/

/-- The characters that are copied are those of numerals. -/
theorem isNumberChar_iff (c : UInt8) : isNumberChar c = true ↔ IsNumeralByte c := by
  simp only [isNumberChar, IsNumeralByte, Bool.or_eq_true, Bool.and_eq_true, decide_eq_true_eq,
    or_assoc]

/-- A text that does not go on with a number character. -/
def EndsNumber (rest : CString) : Prop := ∀ c ∈ rest.head?, isNumberChar c = false

/-- The number characters in front of such a text are taken whole. -/
theorem takeWhile_take_append {text rest : CString} (htext : ∀ c ∈ text, isNumberChar c = true)
    (hlen : text.length ≤ 63) (hrest : EndsNumber rest) :
    ((text ++ rest).take 63).takeWhile isNumberChar = text := by
  rw [List.take_append, List.take_of_length_le hlen, List.takeWhile_append_of_pos htext]
  cases hk : rest.take (63 - text.length) with
  | nil => rw [List.takeWhile_nil, List.append_nil]
  | cons c tail =>
      have hhead : c ∈ rest.head? := by
        cases rest with
        | nil => simp at hk
        | cons b rest =>
            cases h : 63 - text.length with
            | zero => simp [h] at hk
            | succ n =>
                rw [h, List.take_succ_cons] at hk
                exact congrArg some (List.cons.inj hk).1
      rw [List.takeWhile_cons_of_neg (by rw [hrest c hhead]; decide), List.append_nil]

/-- **A numeral of at most 63 characters is read as the nearest double**, in front of a text that
does not go on with a number character. -/
theorem parseNumber_of_isNumeral {text rest : CString} {n : DecimalNumeral} (h : IsNumeral text n)
    (hlen : text.length ≤ 63) (hrest : EndsNumber rest) :
    parseNumber (text ++ rest) =
      some (.number (CDouble.ofMagnitude n.negative n.magnitude), rest) := by
  obtain ⟨hne, hbytes⟩ := h.isNumeralByte
  have hpos : 0 < text.length := List.length_pos_iff.mpr hne
  have hread := strtod_of_isNumeral h endsNumeral_nil
  rw [List.append_nil] at hread
  rw [parseNumber, takeWhile_take_append (fun c hc => (isNumberChar_iff c).mpr (hbytes c hc)) hlen
    hrest, hread]
  simp only [List.length_nil, Nat.sub_zero]
  rw [if_neg hpos.ne, List.drop_left]

/-- **What is read as a number is a numeral** of at most 63 characters at the start of the input. -/
theorem isNumeral_of_parseNumber {input rest : CString} {item : CJsonItem}
    (h : parseNumber input = some (item, rest)) :
    ∃ text n, IsNumeral text n ∧ text.length ≤ 63 ∧ input = text ++ rest ∧
      item = .number (CDouble.ofMagnitude n.negative n.magnitude) := by
  set copied := (input.take 63).takeWhile isNumberChar with hcopied
  have hspace : copied.dropWhile isSpace = copied := by
    cases hc : copied with
    | nil => rfl
    | cons c cs =>
        have hmem : c ∈ (input.take 63).takeWhile isNumberChar := by
          rw [← hcopied, hc]
          exact List.mem_cons_self
        have hchar := List.all_eq_true.mp List.all_takeWhile c hmem
        refine List.dropWhile_cons_of_neg ?_
        rcases (isNumberChar_iff c).mp hchar with hdigit | rfl | rfl | rfl | rfl | rfl
        · have hne : c ≠ 32 := by
            rintro rfl
            simp at hdigit
          simp [isSpace, hne]
          omega
        all_goals decide
  have hprefix : ∃ tail, input = copied ++ tail := by
    have h1 : copied <+: input.take 63 := List.takeWhile_prefix _
    obtain ⟨tail, htail⟩ := h1.trans (List.take_prefix 63 input)
    exact ⟨tail, htail.symm⟩
  have hcopiedlen : copied.length ≤ 63 :=
    (List.takeWhile_prefix _).length_le.trans (List.length_take_le 63 input)
  rw [parseNumber, ← hcopied] at h
  split at h
  · cases h
  · rename_i hused
    obtain ⟨rfl, rfl⟩ := Prod.mk.inj (Option.some.inj h)
    cases hread : readDecimal copied with
    | mk n behind =>
        have hdigits : n.digits ≠ [] := by
          intro hnil
          rw [strtod, hread] at hused
          simp [hnil] at hused
        obtain ⟨text, hnumeral, htext⟩ := isNumeral_of_readDecimal hspace hread hdigits
        have hstrtod : strtod copied = (CDouble.ofMagnitude n.negative n.magnitude, behind) := by
          rw [strtod, hread]
          simp only [if_neg hdigits]
        obtain ⟨tail, htail⟩ := hprefix
        refine ⟨text, n, hnumeral, ?_, ?_, ?_⟩
        · rw [htext, List.length_append] at hcopiedlen
          omega
        · rw [hstrtod, htail, htext]
          simp only [List.length_append, List.append_assoc, Nat.add_sub_cancel_right,
            List.drop_left]
        · rw [hstrtod]

/-! ## Printing and reading back -/

/-- What is written into `number_buffer` for a finite double: `%g` with fifteen or with seventeen
digits, and `strtod` reads it back. -/
theorem numberBuffer_finite (d : FiniteDouble) :
    ∃ P, 0 < P ∧ P ≤ 17 ∧ numberBuffer (.finite d) = showGeneral P d ∧
      strtod (showGeneral P d) = (.finite d, []) := by
  rw [numberBuffer]
  split
  · rename_i hsame
    refine ⟨15, by norm_num, by norm_num, rfl, ?_⟩
    have hread := strtod_showGeneral (P := 15) (by norm_num) d endsNumeral_nil
    rw [List.append_nil] at hread
    rw [hread] at hsame ⊢
    congr 1
    -- the double that is read has the value of `d`, and its sign
    cases he : CDouble.ofMagnitude d.negative
        (digitsValue (printedDigits 15 d).1 (printedDigits 15 d).2) with
    | infinite s =>
        rw [he] at hsame
        exact Bool.noConfusion hsame
    | finite e =>
        rw [he] at hsame
        have hvalue : e.value = d.value := of_decide_eq_true hsame
        have hmag : e.magnitude = d.magnitude := by
          rw [← e.abs_value, ← d.abs_value, hvalue]
        rw [CDouble.finite_inj (CDouble.negative_of_ofMagnitude he) hmag]
  · refine ⟨17, by norm_num, le_rfl, rfl, ?_⟩
    have hread := strtod_showGeneral_eq (P := 17) le_rfl d endsNumeral_nil
    rwa [List.append_nil] at hread

/-- `number_buffer` is large enough. -/
theorem length_numberBuffer_le (valuedouble : CDouble) : (numberBuffer valuedouble).length ≤ 25 := by
  cases valuedouble with
  | infinite s => exact (by decide : (4 : ℕ) ≤ 25)
  | finite d =>
      obtain ⟨P, hP, hle, htext, -⟩ := numberBuffer_finite d
      rw [htext]
      exact (length_showGeneral_le hP d).trans (by omega)

/-- Printing a number does not fail. -/
theorem printNumber_eq (valuedouble : CDouble) :
    printNumber valuedouble = some (numberBuffer valuedouble) :=
  if_neg (not_lt.mpr (length_numberBuffer_le valuedouble))

/-- **A finite double is printed as a numeral that denotes it**, with at most 63 characters. -/
theorem isNumeral_numberBuffer (d : FiniteDouble) :
    ∃ n, IsNumeral (numberBuffer (.finite d)) n ∧ (numberBuffer (.finite d)).length ≤ 63 ∧
      CDouble.ofMagnitude n.negative n.magnitude = .finite d := by
  obtain ⟨P, hP, hle, htext, hread⟩ := numberBuffer_finite d
  obtain ⟨n, hnumeral, -, -⟩ := isNumeral_showGeneral hP d
  have hstrtod := strtod_of_isNumeral hnumeral endsNumeral_nil
  rw [List.append_nil, hread] at hstrtod
  refine ⟨n, ?_, (length_numberBuffer_le _).trans (by norm_num), ?_⟩
  · rwa [htext]
  · exact (Prod.mk.inj hstrtod).1.symm

/-- **A double is read back exactly from its printed text**, whatever the text goes on with but a
number character. The text fits into `number_buffer`. -/
theorem parseNumber_printNumber (d : FiniteDouble) {rest : CString} (hrest : EndsNumber rest) :
    ∃ text, printNumber (.finite d) = some text ∧ text.length ≤ 25 ∧
      parseNumber (text ++ rest) = some (.number (.finite d), rest) := by
  obtain ⟨n, hnumeral, hlen, hvalue⟩ := isNumeral_numberBuffer d
  refine ⟨_, printNumber_eq (.finite d), length_numberBuffer_le (.finite d), ?_⟩
  rw [parseNumber_of_isNumeral hnumeral hlen hrest, hvalue]

/-- The negative zero, in front of a comma, keeps its sign. -/
theorem parseNumber_printNumber_negativeZero :
    ∃ text, printNumber (.finite (FiniteDouble.zero true)) = some text ∧ text.length ≤ 25 ∧
      parseNumber (text ++ ofAscii ",") =
        some (.number (.finite (FiniteDouble.zero true)), ofAscii ",") :=
  parseNumber_printNumber (FiniteDouble.zero true) fun c hc => by
    rw [← Option.some.inj hc]
    rfl

/-- It starts with a minus or a digit. -/
theorem numberBuffer_starts (d : FiniteDouble) :
    ∀ c ∈ (numberBuffer (.finite d)).head?, c = 45 ∨ (48 ≤ c.toNat ∧ c.toNat ≤ 57) := by
  obtain ⟨P, hP, hle, htext, -⟩ := numberBuffer_finite d
  obtain ⟨e, tail, hshow, he⟩ := showGeneral_starts hP d
  rw [htext, hshow]
  intro c hc
  rw [← Option.some.inj hc]
  exact he

end OcgeoFdw
