import Mathlib.Data.Char
import Mathlib.Data.Nat.Digits.Defs
import OcgeoFdw.Foundation.CStrings

/-! # The `\u` escapes of JSON strings

`parse_hex4` and `utf16_literal_to_utf8`: one or two UTF-16 code units in hexadecimal are turned into
the UTF-8 bytes of the character they stand for. Four characters that are not all hexadecimal digits
read as the code unit `0`. -/

namespace OcgeoFdw

/-! ## The code -/

/-- The value of a hexadecimal digit in either case. -/
def hexDigitValue (c : UInt8) : Option ℕ :=
  if 48 ≤ c.toNat ∧ c.toNat ≤ 57 then some (c.toNat - 48)
  else if 65 ≤ c.toNat ∧ c.toNat ≤ 70 then some (10 + c.toNat - 65)
  else if 97 ≤ c.toNat ∧ c.toNat ≤ 102 then some (10 + c.toNat - 97)
  else none

/-- The loop of `parse_hex4` over the next digits, with `h` read so far. -/
def hexLoop : ℕ → ℕ → CString → Option ℕ
  | 0, h, _ => some h
  | _ + 1, _, [] => none
  | i + 1, h, c :: input =>
      match hexDigitValue c with
      | none => none
      | some digit => hexLoop i (h * 16 + digit) input

/-- `parse_hex4`: the value of four hexadecimal digits, and `0` if one of them is none. -/
def parseHex4 (input : CString) : ℕ := (hexLoop 4 0 input).getD 0

/-- The continuation bytes of a code point, from the last one on, and the bits that are left. -/
def utf8Continuation : ℕ → ℕ → ℕ × CString
  | 0, codepoint => (codepoint, [])
  | n + 1, codepoint =>
      let before := utf8Continuation n (codepoint >>> 6)
      (before.1, before.2 ++ [((codepoint ||| 0x80) &&& 0xBF).toUInt8])

/-- A UTF-8 sequence with a marked first byte. -/
def utf8Sequence (utf8_length first_byte_mark codepoint : ℕ) : CString :=
  let bytes := utf8Continuation (utf8_length - 1) codepoint
  ((bytes.1 ||| first_byte_mark) &&& 0xFF).toUInt8 :: bytes.2

/-- The UTF-8 bytes of a code point, unless it is too large. -/
def utf8OfCodepoint (codepoint : ℕ) : Option CString :=
  if codepoint < 0x80 then some [(codepoint &&& 0x7F).toUInt8]
  else if codepoint < 0x800 then some (utf8Sequence 2 0xC0 codepoint)
  else if codepoint < 0x10000 then some (utf8Sequence 3 0xE0 codepoint)
  else if codepoint ≤ 0x10FFFF then some (utf8Sequence 4 0xF0 codepoint)
  else none

/-- `utf16_literal_to_utf8`: the number of characters of the literal at the start of the input, and
the UTF-8 bytes it stands for. There are `left` characters until the end of the string. -/
def utf16LiteralToUtf8 (input : CString) (left : ℕ) : Option (ℕ × CString) :=
  if left < 6 then none
  else
    let first_code := parseHex4 (input.drop 2)
    -- a pair does not start with its low surrogate
    if 0xDC00 ≤ first_code ∧ first_code ≤ 0xDFFF then none
    else if 0xD800 ≤ first_code ∧ first_code ≤ 0xDBFF then
      let second_sequence := input.drop 6
      if left - 6 < 6 then none
      else if second_sequence.take 2 ≠ [92, 117] then none
      else
        let second_code := parseHex4 (second_sequence.drop 2)
        if second_code < 0xDC00 ∨ 0xDFFF < second_code then none
        else
          (utf8OfCodepoint (0x10000 +
            (((first_code &&& 0x3FF) <<< 10) ||| (second_code &&& 0x3FF)))).map fun bytes =>
              (12, bytes)
    else (utf8OfCodepoint first_code).map fun bytes => (6, bytes)

/-- The code point of a surrogate pair. -/
theorem surrogate_codepoint {high low : ℕ} (hhigh : 0xD800 ≤ high ∧ high ≤ 0xDBFF)
    (hlow : 0xDC00 ≤ low ∧ low ≤ 0xDFFF) :
    0x10000 + (((high &&& 0x3FF) <<< 10) ||| (low &&& 0x3FF)) =
      0x10000 + (high - 0xD800) * 0x400 + (low - 0xDC00) := by
  have hh : high &&& 0x3FF = high % 1024 := Nat.and_two_pow_sub_one_eq_mod high 10
  have hl : low &&& 0x3FF = low % 1024 := Nat.and_two_pow_sub_one_eq_mod low 10
  have hlt : low % 1024 < 2 ^ 10 := by omega
  rw [hh, hl, Nat.shiftLeft_eq, Nat.mul_comm, ← Nat.two_pow_add_eq_or_of_lt hlt]
  omega

/-- **What a literal is converted to**: a code unit that is no surrogate, or a pair of surrogates. -/
theorem utf16LiteralToUtf8_cases {input bytes : CString} {left length : ℕ}
    (h : utf16LiteralToUtf8 input left = some (length, bytes)) :
    (length = 6 ∧ 6 ≤ left ∧
        ¬ (0xD800 ≤ parseHex4 (input.drop 2) ∧ parseHex4 (input.drop 2) ≤ 0xDFFF) ∧
        utf8OfCodepoint (parseHex4 (input.drop 2)) = some bytes) ∨
      ∃ high low, length = 12 ∧ 12 ≤ left ∧ parseHex4 (input.drop 2) = high ∧
        (input.drop 6).take 2 = [92, 117] ∧ parseHex4 ((input.drop 6).drop 2) = low ∧
        (0xD800 ≤ high ∧ high ≤ 0xDBFF) ∧ (0xDC00 ≤ low ∧ low ≤ 0xDFFF) ∧
        utf8OfCodepoint (0x10000 + (high - 0xD800) * 0x400 + (low - 0xDC00)) = some bytes := by
  rw [utf16LiteralToUtf8] at h
  simp only at h
  split_ifs at h with hleft hlow hhigh hleft' hmark hrange
  · obtain ⟨bytes', hbytes, heq⟩ := Option.map_eq_some_iff.mp h
    obtain ⟨rfl, rfl⟩ := Prod.mk.inj heq
    have hlow' : 0xDC00 ≤ parseHex4 ((input.drop 6).drop 2) ∧
        parseHex4 ((input.drop 6).drop 2) ≤ 0xDFFF := by omega
    rw [surrogate_codepoint hhigh hlow'] at hbytes
    exact .inr ⟨_, _, rfl, by omega, rfl, not_not.mp hmark, rfl, hhigh, hlow', hbytes⟩
  · obtain ⟨bytes', hbytes, heq⟩ := Option.map_eq_some_iff.mp h
    obtain ⟨rfl, rfl⟩ := Prod.mk.inj heq
    exact .inl ⟨rfl, by omega, by omega, hbytes⟩

/-- A literal that is converted has six or twelve characters, all of them before the end. -/
theorem utf16LiteralToUtf8_length {input bytes : CString} {left length : ℕ}
    (h : utf16LiteralToUtf8 input left = some (length, bytes)) : 6 ≤ length ∧ length ≤ left := by
  rcases utf16LiteralToUtf8_cases h with ⟨rfl, hleft, -⟩ | ⟨_, _, rfl, hleft, -⟩
  · exact ⟨le_rfl, hleft⟩
  · exact ⟨by omega, hleft⟩

/-! ## UTF-8 -/

/-- A continuation byte holds the six lowest bits. -/
theorem continuation_byte (n : ℕ) : (n ||| 0x80) &&& 0xBF = n % 64 + 0x80 := by
  have hmask : (0xBF : ℕ) = 0x80 ||| 0x3F := by decide
  have hlow : (0x80 : ℕ) &&& 0x3F = 0 := by decide
  have hmod : n &&& 0x3F = n % 64 := Nat.and_two_pow_sub_one_eq_mod n 6
  have hhigh : (n ||| 0x80) &&& 0x80 = 0x80 := by
    refine Nat.eq_of_testBit_eq fun i => ?_
    rw [Nat.testBit_and, Nat.testBit_or]
    cases Nat.testBit 0x80 i with
    | true => simp
    | false => simp
  have hlt : n % 64 < 2 ^ 7 := by omega
  have hsum : 0x80 ||| n % 64 = 0x80 + n % 64 := (Nat.two_pow_add_eq_or_of_lt hlt 1).symm
  rw [hmask, Nat.and_or_distrib_left, hhigh, Nat.and_or_distrib_right, hlow, Nat.or_zero, hmod,
    hsum, Nat.add_comm]

/-- The marked first byte when the bits that are left fit under the mark. -/
theorem first_byte {r mark k : ℕ} (hr : r < 2 ^ k) (hmark : mark = 2 ^ k * (mark / 2 ^ k))
    (hbyte : r + mark < 256) : (r ||| mark) &&& 0xFF = r + mark := by
  have hor : r ||| mark = r + mark := by
    rw [hmark, Nat.or_comm, ← Nat.two_pow_add_eq_or_of_lt hr, Nat.add_comm]
  have hand : (r + mark) &&& 0xFF = (r + mark) % 256 := Nat.and_two_pow_sub_one_eq_mod (r + mark) 8
  rw [hor, hand, Nat.mod_eq_of_lt hbyte]

/-- **The bytes of a code point are the UTF-8 encoding of its character.** -/
theorem utf8OfCodepoint_toNat (c : Char) :
    utf8OfCodepoint c.toNat = some (String.utf8EncodeChar c) := by
  have hmax : c.toNat ≤ 0x10FFFF := by
    rcases c.valid with h | h
    · exact h.le.trans (by decide)
    · exact Nat.lt_succ_iff.mp h.2
  have hval : c.val.toNat = c.toNat := rfl
  have hshift : ∀ n : ℕ, n >>> 6 = n / 64 := fun n => Nat.shiftRight_eq_div_pow n 6
  rw [utf8OfCodepoint, String.utf8EncodeChar]
  simp only [hval]
  by_cases h1 : c.toNat < 0x80
  · have hand : c.toNat &&& 0x7F = c.toNat % 128 := Nat.and_two_pow_sub_one_eq_mod c.toNat 7
    rw [if_pos h1, if_pos (by omega : c.toNat ≤ 0x7f), hand, Nat.mod_eq_of_lt h1]
  rw [if_neg h1, if_neg (by omega : ¬c.toNat ≤ 0x7f)]
  by_cases h2 : c.toNat < 0x800
  · rw [if_pos h2, if_pos (by omega : c.toNat ≤ 0x7ff), utf8Sequence]
    simp only [utf8Continuation, hshift, continuation_byte]
    rw [first_byte (k := 6) (by omega) (by decide) (by omega),
      Nat.mod_eq_of_lt (a := c.toNat / 64) (by omega)]
    rfl
  rw [if_neg h2, if_neg (by omega : ¬c.toNat ≤ 0x7ff)]
  by_cases h3 : c.toNat < 0x10000
  · have hdiv : c.toNat / 64 / 64 = c.toNat / 4096 := by omega
    rw [if_pos h3, if_pos (by omega : c.toNat ≤ 0xffff), utf8Sequence]
    simp only [utf8Continuation, hshift, continuation_byte]
    rw [hdiv, first_byte (k := 5) (by omega) (by decide) (by omega),
      Nat.mod_eq_of_lt (a := c.toNat / 4096) (by omega)]
    rfl
  · have hdiv : c.toNat / 64 / 64 = c.toNat / 4096 := by omega
    have hdiv' : c.toNat / 4096 / 64 = c.toNat / 262144 := by omega
    rw [if_neg h3, if_neg (by omega : ¬c.toNat ≤ 0xffff), if_pos hmax, utf8Sequence]
    simp only [utf8Continuation, hshift, continuation_byte]
    rw [hdiv, hdiv', first_byte (k := 4) (by omega) (by decide) (by omega),
      Nat.mod_eq_of_lt (a := c.toNat / 262144) (by omega)]
    rfl

/-! ## Hexadecimal digits -/

/-- A hexadecimal digit is below 16. -/
theorem hexDigitValue_lt {c : UInt8} {n : ℕ} (h : hexDigitValue c = some n) : n < 16 := by
  rw [hexDigitValue] at h
  split_ifs at h with h1 h2 h3
  · have := Option.some.inj h
    omega
  · have := Option.some.inj h
    omega
  · have := Option.some.inj h
    omega

/-- Quotes and backslashes are no hexadecimal digits. -/
theorem ne_of_hexDigitValue {c : UInt8} {n : ℕ} (h : hexDigitValue c = some n) :
    c ≠ 34 ∧ c ≠ 92 := by
  have hquote : hexDigitValue 34 = none := rfl
  have hbackslash : hexDigitValue 92 = none := rfl
  constructor
  · rintro rfl
    rw [hquote] at h
    cases h
  · rintro rfl
    rw [hbackslash] at h
    cases h

/-- A hexadecimal digit, in either case, and its value: its place among the digits. -/
def IsHexDigit (c : UInt8) (digit : ℕ) : Prop :=
  (CString.ofAscii "0123456789abcdef")[digit]? = some c ∨
    (CString.ofAscii "0123456789ABCDEF")[digit]? = some c

/-- The four digits `text` have the value `n`, with the most significant one first. -/
def IsHex4 (text : CString) (n : ℕ) : Prop :=
  text.length = 4 ∧ ∃ digits, List.Forall₂ IsHexDigit text digits ∧ n = Nat.ofDigits 16 digits.reverse

/-- The code reads exactly the hexadecimal digits. -/
theorem hexDigitValue_eq_some_iff {c : UInt8} {digit : ℕ} :
    hexDigitValue c = some digit ↔ IsHexDigit c digit := by
  constructor
  · intro h
    have hbyte : ∀ {base : ℕ}, base + digit = c.toNat → UInt8.ofNat (base + digit) = c := by
      intro base hbase
      rw [hbase, UInt8.ofNat_toNat]
    have hdecimal : ∀ d < 10, (CString.ofAscii "0123456789abcdef")[d]? =
        some (UInt8.ofNat (48 + d)) := by decide
    have hupper : ∀ d < 6, (CString.ofAscii "0123456789ABCDEF")[10 + d]? =
        some (UInt8.ofNat (55 + (10 + d))) := by decide
    have hlower : ∀ d < 6, (CString.ofAscii "0123456789abcdef")[10 + d]? =
        some (UInt8.ofNat (87 + (10 + d))) := by decide
    rw [hexDigitValue] at h
    split_ifs at h with h1 h2 h3
    · obtain rfl := Option.some.inj h
      exact .inl ((hdecimal _ (by omega)).trans (congrArg some (hbyte (by omega))))
    · obtain ⟨d, rfl⟩ : ∃ d, digit = 10 + d := ⟨c.toNat - 65, by have := Option.some.inj h; omega⟩
      have hd := Option.some.inj h
      exact .inr ((hupper d (by omega)).trans (congrArg some (hbyte (by omega))))
    · obtain ⟨d, rfl⟩ : ∃ d, digit = 10 + d := ⟨c.toNat - 97, by have := Option.some.inj h; omega⟩
      have hd := Option.some.inj h
      exact .inl ((hlower d (by omega)).trans (congrArg some (hbyte (by omega))))
  · have hplace : ∀ {table : CString}, (∀ d < table.length, table[d]?.bind hexDigitValue = some d) →
        table[digit]? = some c → hexDigitValue c = some digit := by
      intro table htable hget
      obtain ⟨hlt, -⟩ := List.getElem?_eq_some_iff.mp hget
      have hdigit := htable digit hlt
      rwa [hget, Option.bind_some] at hdigit
    rintro (h | h)
    · exact hplace (by decide) h
    · exact hplace (by decide) h

/-- The loop over a text reads its digits behind the value so far. -/
theorem hexLoop_eq_some_iff {text : CString} {h n : ℕ} :
    hexLoop text.length h text = some n ↔ ∃ digits, List.Forall₂ IsHexDigit text digits ∧
      n = h * 16 ^ text.length + Nat.ofDigits 16 digits.reverse := by
  induction text generalizing h with
  | nil => simp [hexLoop, eq_comm]
  | cons c text ih =>
      -- the first digit counts sixteen to the number of the others
      have hvalue : ∀ (digit : ℕ) (digits : List ℕ), List.Forall₂ IsHexDigit text digits →
          (h * 16 + digit) * 16 ^ text.length + Nat.ofDigits 16 digits.reverse =
            h * 16 ^ (text.length + 1) + Nat.ofDigits 16 (digit :: digits).reverse := by
        intro digit digits hdigits
        rw [List.reverse_cons, Nat.ofDigits_append, List.length_reverse, ← hdigits.length_eq,
          Nat.ofDigits_singleton]
        ring
      rw [List.length_cons, hexLoop]
      constructor
      · intro hloop
        cases hdigit : hexDigitValue c with
        | none =>
            rw [hdigit] at hloop
            cases hloop
        | some digit =>
            rw [hdigit] at hloop
            obtain ⟨digits, hdigits, rfl⟩ := ih.mp hloop
            exact ⟨digit :: digits, .cons (hexDigitValue_eq_some_iff.mp hdigit) hdigits,
              hvalue digit digits hdigits⟩
      · rintro ⟨_, hall, rfl⟩
        cases hall with
        | @cons _ digit _ digits hdigit hdigits =>
            rw [hexDigitValue_eq_some_iff.mpr hdigit]
            exact ih.mpr ⟨digits, hdigits, (hvalue digit digits hdigits).symm⟩

/-- Four digits are those that the loop reads. -/
theorem isHex4_iff {text : CString} {n : ℕ} :
    IsHex4 text n ↔ text.length = 4 ∧ hexLoop 4 0 text = some n := by
  rw [IsHex4]
  refine and_congr_right fun hlength => ?_
  rw [← hlength, hexLoop_eq_some_iff]
  simp only [zero_mul, zero_add]

/-- The loop looks at as many characters as it counts. -/
theorem hexLoop_append (text rest : CString) (h : ℕ) :
    hexLoop text.length h (text ++ rest) = hexLoop text.length h text := by
  induction text generalizing h with
  | nil => rfl
  | cons c text ih =>
      rw [List.length_cons, List.cons_append, hexLoop, hexLoop]
      cases hexDigitValue c with
      | none => rfl
      | some digit => exact ih _

/-- What the loop accepts, it accepts in front of more text. -/
theorem hexLoop_append_some {i h n : ℕ} {input : CString} (hn : hexLoop i h input = some n)
    (rest : CString) : hexLoop i h (input ++ rest) = some n := by
  induction i generalizing h input with
  | zero => exact hn
  | succ i ih =>
      cases input with
      | nil => cases hn
      | cons c input =>
          rw [hexLoop] at hn
          rw [List.cons_append, hexLoop]
          cases hd : hexDigitValue c with
          | none => rw [hd] at hn; cases hn
          | some digit =>
              rw [hd] at hn
              exact ih hn

/-- What the loop accepts consists of hexadecimal digits, and its value has that many. -/
theorem hexLoop_some {i h n : ℕ} {input : CString} (hn : hexLoop i h input = some n) :
    i ≤ input.length ∧ (∀ c ∈ input.take i, ∃ digit, hexDigitValue c = some digit) ∧
      n < (h + 1) * 16 ^ i := by
  induction i generalizing h input with
  | zero =>
      rw [hexLoop] at hn
      obtain rfl := Option.some.inj hn
      exact ⟨Nat.zero_le _, fun c hc => absurd hc List.not_mem_nil, by omega⟩
  | succ i ih =>
      cases input with
      | nil => cases hn
      | cons c input =>
          rw [hexLoop] at hn
          cases hd : hexDigitValue c with
          | none => rw [hd] at hn; cases hn
          | some digit =>
              rw [hd] at hn
              obtain ⟨hlen, hall, hlt⟩ := ih hn
              have hdigit := hexDigitValue_lt hd
              refine ⟨Nat.succ_le_succ hlen, List.forall_mem_cons.mpr ⟨⟨digit, hd⟩, hall⟩, ?_⟩
              calc n < (h * 16 + digit + 1) * 16 ^ i := hlt
                _ ≤ ((h + 1) * 16) * 16 ^ i := Nat.mul_le_mul_right _ (by omega)
                _ = (h + 1) * 16 ^ (i + 1) := by rw [Nat.mul_assoc, pow_succ']

/-- Four digits at the start of a text are read. -/
theorem IsHex4.parseHex4_append {text : CString} {n : ℕ} (h : IsHex4 text n) (rest : CString) :
    parseHex4 (text ++ rest) = n := by
  have hloop := hexLoop_append text rest 0
  rw [h.1, (isHex4_iff.mp h).2] at hloop
  rw [parseHex4, hloop, Option.getD_some]

/-- Four digits have a value of sixteen bits. -/
theorem IsHex4.lt {text : CString} {n : ℕ} (h : IsHex4 text n) : n < 0x10000 := by
  have := (hexLoop_some (isHex4_iff.mp h).2).2.2
  omega

/-- No digit is a quote or a backslash. -/
theorem IsHex4.ne {text : CString} {n : ℕ} (h : IsHex4 text n) : ∀ c ∈ text, c ≠ 34 ∧ c ≠ 92 := by
  intro c hc
  have hall := (hexLoop_some (isHex4_iff.mp h).2).2.1
  rw [← h.1, List.take_length] at hall
  obtain ⟨digit, hdigit⟩ := hall c hc
  exact ne_of_hexDigitValue hdigit

/-- A code unit other than zero that is read stands at the start of the text. -/
theorem isHex4_of_parseHex4 {input : CString} (h : hexLoop 4 0 input ≠ none) :
    ∃ text rest, IsHex4 text (parseHex4 input) ∧ input = text ++ rest := by
  obtain ⟨n, hn⟩ := Option.ne_none_iff_exists'.mp h
  have hlen := (hexLoop_some hn).1
  have htake : (input.take 4).length = 4 := List.length_take_of_le hlen
  refine ⟨input.take 4, input.drop 4, isHex4_iff.mpr ⟨htake, ?_⟩,
    (List.take_append_drop 4 input).symm⟩
  have hloop := hexLoop_append (input.take 4) (input.drop 4) 0
  rw [htake, List.take_append_drop, hn] at hloop
  rw [parseHex4, hn, Option.getD_some, ← hloop]

/-! ## Escapes -/

/-- The text of a `\u` escape for a character: one code unit, or two that form a surrogate pair. -/
inductive IsUnicodeEscape : CString → Char → Prop
  | unit {digits : CString} {c : Char} (hdigits : IsHex4 digits c.toNat) :
      IsUnicodeEscape (92 :: 117 :: digits) c
  | pair {first second : CString} {high low : ℕ} {c : Char} (hfirst : IsHex4 first high)
      (hsecond : IsHex4 second low) (hhigh : 0xD800 ≤ high ∧ high ≤ 0xDBFF)
      (hlow : 0xDC00 ≤ low ∧ low ≤ 0xDFFF)
      (hc : c.toNat = 0x10000 + (high - 0xD800) * 0x400 + (low - 0xDC00)) :
      IsUnicodeEscape (92 :: 117 :: (first ++ 92 :: 117 :: second)) c

/-- A character is not a surrogate. -/
theorem toNat_not_surrogate (c : Char) : ¬(0xD800 ≤ c.toNat ∧ c.toNat ≤ 0xDFFF) := by
  have hval : c.val.toNat = c.toNat := rfl
  rcases c.valid with h | h
  · rw [hval] at h
    omega
  · rw [hval] at h
    omega

/-- A valid code point is that of its character. -/
theorem toNat_ofNat {n : ℕ} (h : n.isValidChar) : (Char.ofNat n).toNat = n := by
  rw [Char.ofNat, dif_pos h]
  rfl

/-- **An escape for a character is turned into its UTF-8 encoding.** -/
theorem utf16LiteralToUtf8_of_escape {text : CString} {c : Char} (h : IsUnicodeEscape text c)
    {left : ℕ} (hleft : text.length ≤ left) (rest : CString) :
    utf16LiteralToUtf8 (text ++ rest) left = some (text.length, String.utf8EncodeChar c) := by
  have hc := toNat_not_surrogate c
  cases h with
  | @unit digits c hdigits =>
      have hlen : (92 :: 117 :: digits : CString).length = 6 := by
        rw [List.length_cons, List.length_cons, hdigits.1]
      have hcode : parseHex4 (((92 :: 117 :: digits : CString) ++ rest).drop 2) = c.toNat :=
        hdigits.parseHex4_append rest
      rw [utf16LiteralToUtf8, if_neg (by omega)]
      simp only [hcode]
      rw [if_neg (by omega), if_neg (by omega), utf8OfCodepoint_toNat, hlen]
      rfl
  | @pair first second high low c hfirst hsecond hhigh hlow hcode =>
      have hlen : (92 :: 117 :: (first ++ 92 :: 117 :: second) : CString).length = 12 := by
        rw [List.length_cons, List.length_cons, List.length_append, List.length_cons,
          List.length_cons, hfirst.1, hsecond.1]
      have htext : (92 :: 117 :: (first ++ 92 :: 117 :: second) : CString) ++ rest =
          92 :: 117 :: (first ++ (92 :: 117 :: (second ++ rest))) := by
        simp
      have hdrop : ((92 :: 117 :: (first ++ 92 :: 117 :: second) : CString) ++ rest).drop 6 =
          92 :: 117 :: (second ++ rest) := by
        rw [htext]
        change (first ++ (92 :: 117 :: (second ++ rest))).drop 4 = _
        rw [← hfirst.1, List.drop_left]
      have hhigh' : parseHex4 (((92 :: 117 :: (first ++ 92 :: 117 :: second) : CString) ++
          rest).drop 2) = high := by
        rw [htext]
        exact hfirst.parseHex4_append _
      have hlow' : parseHex4 ((92 :: 117 :: (second ++ rest) : CString).drop 2) = low :=
        hsecond.parseHex4_append rest
      rw [utf16LiteralToUtf8, if_neg (by omega)]
      simp only [hdrop, hhigh', hlow']
      rw [if_neg (by omega), if_pos hhigh, if_neg (by omega), if_neg (by simp), if_neg (by omega),
        surrogate_codepoint hhigh hlow, ← hcode, utf8OfCodepoint_toNat, hlen]
      rfl

/-- **What is converted is an escape for a character, or it has no four hexadecimal digits** and is
taken for the character `0`. -/
theorem escape_of_utf16LiteralToUtf8 {input : CString} {left length : ℕ} {bytes : CString}
    (h : utf16LiteralToUtf8 (92 :: 117 :: input) left = some (length, bytes)) :
    (∃ text rest c, IsUnicodeEscape text c ∧ 92 :: 117 :: input = text ++ rest ∧
      length = text.length ∧ bytes = String.utf8EncodeChar c ∧ text.length ≤ left) ∨
    (hexLoop 4 0 input = none ∧ length = 6 ∧ bytes = [0] ∧ 6 ≤ left) := by
  by_cases hhex : hexLoop 4 0 input = none
  · right
    have hzero : parseHex4 input = 0 := by rw [parseHex4, hhex, Option.getD_none]
    rcases utf16LiteralToUtf8_cases h with ⟨rfl, hleft, -, hbytes⟩ |
      ⟨high, -, -, -, hhigh, -, -, hrange, -⟩
    · change utf8OfCodepoint (parseHex4 input) = some bytes at hbytes
      rw [hzero] at hbytes
      exact ⟨hhex, rfl, (Option.some.inj hbytes).symm, hleft⟩
    · change parseHex4 input = high at hhigh
      omega
  left
  obtain ⟨digits, rest, hdigits, hinput⟩ := isHex4_of_parseHex4 hhex
  have hlt := hdigits.lt
  have hdrop : (92 :: 117 :: input : CString).drop 6 = rest := by
    change input.drop 4 = rest
    rw [hinput, ← hdigits.1, List.drop_left]
  rcases utf16LiteralToUtf8_cases h with ⟨rfl, hleft, hunit, hbytes⟩ |
    ⟨high, low, rfl, hleft, hfirst, hmark, hsecond, hhigh, hlow, hbytes⟩
  · change ¬ (0xD800 ≤ parseHex4 input ∧ parseHex4 input ≤ 0xDFFF) at hunit
    change utf8OfCodepoint (parseHex4 input) = some bytes at hbytes
    have hvalid : (parseHex4 input).isValidChar := by
      rcases lt_or_ge (parseHex4 input) 0xD800 with hsmall | hlarge
      · exact Or.inl hsmall
      · exact Or.inr ⟨by omega, by omega⟩
    have hchar : (Char.ofNat (parseHex4 input)).toNat = parseHex4 input :=
      toNat_ofNat hvalid
    rw [← hchar, utf8OfCodepoint_toNat] at hbytes
    obtain rfl := Option.some.inj hbytes
    rw [← hchar] at hdigits
    have hlength : (92 :: 117 :: digits : CString).length = 6 := by
      rw [List.length_cons, List.length_cons, hdigits.1]
    refine ⟨_, rest, _, .unit hdigits, ?_, hlength.symm, rfl, by omega⟩
    rw [hinput]
    rfl
  · change parseHex4 input = high at hfirst
    rw [hdrop] at hmark hsecond
    have hrest : rest = 92 :: 117 :: rest.drop 2 := by
      have hsplit := List.take_append_drop 2 rest
      rw [hmark] at hsplit
      exact hsplit.symm
    -- without four digits the second code would be 0, which is no low surrogate
    have hhex' : hexLoop 4 0 (rest.drop 2) ≠ none := by
      intro hnone
      have hzero : parseHex4 (rest.drop 2) = 0 := by rw [parseHex4, hnone, Option.getD_none]
      omega
    obtain ⟨digits', rest', hdigits', hinput'⟩ := isHex4_of_parseHex4 hhex'
    rw [hfirst] at hdigits
    rw [hsecond] at hdigits'
    set codepoint := 0x10000 + (high - 0xD800) * 0x400 + (low - 0xDC00) with hcodepoint
    have hvalid : codepoint.isValidChar := Or.inr ⟨by omega, by omega⟩
    have hchar : (Char.ofNat codepoint).toNat = codepoint := toNat_ofNat hvalid
    rw [← hchar, utf8OfCodepoint_toNat] at hbytes
    obtain rfl := Option.some.inj hbytes
    have hescape := IsUnicodeEscape.pair hdigits hdigits' hhigh hlow hchar
    have hlength : (92 :: 117 :: (digits ++ 92 :: 117 :: digits') : CString).length = 12 := by
      rw [List.length_cons, List.length_cons, List.length_append, List.length_cons,
        List.length_cons, hdigits.1, hdigits'.1]
    refine ⟨_, rest', _, hescape, ?_, hlength.symm, rfl, by omega⟩
    rw [hinput, hrest, hinput']
    simp

/-! ## The size of what an escape is turned into -/

/-- The continuation bytes are counted. -/
theorem length_utf8Continuation (n codepoint : ℕ) :
    (utf8Continuation n codepoint).2.length = n := by
  induction n generalizing codepoint with
  | zero => rfl
  | succ n ih => rw [utf8Continuation, List.length_append, ih, List.length_singleton]

/-- A code point takes up to four bytes, and up to three if it has sixteen bits. -/
theorem length_utf8OfCodepoint {codepoint : ℕ} {bytes : CString}
    (h : utf8OfCodepoint codepoint = some bytes) :
    bytes.length ≤ 4 ∧ (codepoint < 0x10000 → bytes.length ≤ 3) := by
  have hlen : ∀ n mark : ℕ, (utf8Sequence n mark codepoint).length = n - 1 + 1 := by
    intro n mark
    rw [utf8Sequence, List.length_cons, length_utf8Continuation]
  rw [utf8OfCodepoint] at h
  split_ifs at h
  all_goals
    rw [← Option.some.inj h]
    simp only [hlen, List.length_singleton]
    omega

/-- **An escape is at least twice as long as what it is turned into.** -/
theorem length_of_utf16LiteralToUtf8 {input bytes : CString} {left length : ℕ}
    (h : utf16LiteralToUtf8 input left = some (length, bytes)) :
    2 * bytes.length ≤ length ∧ length % 2 = 0 := by
  have hcode : parseHex4 (input.drop 2) < 0x10000 := by
    rw [parseHex4]
    cases hhex : hexLoop 4 0 (input.drop 2) with
    | none => decide
    | some n => exact (hexLoop_some hhex).2.2
  rcases utf16LiteralToUtf8_cases h with ⟨rfl, -, -, hbytes⟩ |
    ⟨_, _, rfl, -, -, -, -, -, -, hbytes⟩
  · have := (length_utf8OfCodepoint hbytes).2 hcode
    omega
  · have := (length_utf8OfCodepoint hbytes).1
    omega

/-- **`\u` escapes with four hexadecimal digits**: what is converted is exactly the escapes for
characters in the bytes that are left, each to the UTF-8 encoding of its character. Lone surrogates
are refused. -/
theorem utf16LiteralToUtf8_eq_some_iff {input bytes : CString} {left length : ℕ}
    (hhex : hexLoop 4 0 input ≠ none) :
    utf16LiteralToUtf8 (92 :: 117 :: input) left = some (length, bytes) ↔
      ∃ text rest c, IsUnicodeEscape text c ∧ 92 :: 117 :: input = text ++ rest ∧
        length = text.length ∧ bytes = String.utf8EncodeChar c ∧ text.length ≤ left := by
  constructor
  · intro h
    rcases escape_of_utf16LiteralToUtf8 h with hescape | ⟨hnone, -⟩
    · exact hescape
    · exact absurd hnone hhex
  · rintro ⟨text, rest, c, hescape, htext, rfl, rfl, hleft⟩
    rw [htext]
    exact utf16LiteralToUtf8_of_escape hescape hleft rest

/-- A high surrogate without a low one. -/
theorem utf16LiteralToUtf8_eq_some_iff_lone :
    utf16LiteralToUtf8 (CString.ofAscii "\\uD83D.....") 11 = none ∧
      ¬ ∃ text rest c, IsUnicodeEscape text c ∧
        CString.ofAscii "\\uD83D....." = text ++ rest ∧ 6 = text.length ∧
        [0] = String.utf8EncodeChar c ∧ text.length ≤ 11 := by
  have hnone : utf16LiteralToUtf8 (CString.ofAscii "\\uD83D.....") 11 = none := by decide
  have hhex : hexLoop 4 0 (CString.ofAscii "D83D.....") ≠ none := by decide
  refine ⟨hnone, fun h => ?_⟩
  have hsome := (utf16LiteralToUtf8_eq_some_iff hhex).mpr h
  cases hnone.symm.trans hsome

end OcgeoFdw
