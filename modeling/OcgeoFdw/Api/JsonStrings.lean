import OcgeoFdw.Api.JsonEscapes

/-! # Strings in JSON texts

`parse_string` and `print_string_ptr`. The input of the parser is what is left of the text, with the
NUL at its end. A string that is read is a C string: it ends at the first NUL that an escape makes. -/

namespace OcgeoFdw

open CString

/-! ## The code -/

/-- The first loop of `parse_string`: how many characters there are until the closing quote, and how
many of them are backslashes that start an escape. -/
def scanString : CString → Option (ℕ × ℕ)
  | [] => none
  | c :: input =>
      if c = 34 then some (0, 0)
      else if c = 92 then
        match input with
        | [] => none
        | _ :: input => (scanString input).map fun scanned => (scanned.1 + 2, scanned.2 + 1)
      else (scanString input).map fun scanned => (scanned.1 + 1, scanned.2)

/-- The character of a two-character escape. -/
def shortEscape (c : UInt8) : Option UInt8 :=
  if c = 98 then some 8
  else if c = 102 then some 12
  else if c = 110 then some 10
  else if c = 114 then some 13
  else if c = 116 then some 9
  else if c = 34 ∨ c = 92 ∨ c = 47 then some c
  else none

/-- The `switch` of `parse_string`: the length of the escape at the start of the input, and the bytes
it stands for. -/
def parseEscape (input : CString) (left : ℕ) : Option (ℕ × CString) :=
  match input.drop 1 with
  | [] => none
  | c :: _ =>
      if c = 117 then utf16LiteralToUtf8 input left
      else (shortEscape c).map fun byte => (2, [byte])

/-- Every escape takes some characters. -/
theorem parseEscape_pos {input bytes : CString} {left length : ℕ}
    (h : parseEscape input left = some (length, bytes)) : 0 < length := by
  rw [parseEscape] at h
  split at h
  · cases h
  · split at h
    · have := (utf16LiteralToUtf8_length h).1
      omega
    · obtain ⟨_, _, heq⟩ := Option.map_eq_some_iff.mp h
      rw [← (Prod.mk.inj heq).1]
      decide

/-- Bytes are written in front of what comes next. -/
def writeFirst (bytes : CString) : Except CString CString → Except CString CString
  | .ok output => .ok (bytes ++ output)
  | .error output => .error (bytes ++ output)

/-- The second loop of `parse_string`, with `left` characters until the closing quote: what it writes,
which is an error where an escape makes it `goto fail`. -/
def unescape (input : CString) (left : ℕ) : Except CString CString :=
  if left = 0 then .ok []
  else
    match input with
    | [] => .error []
    | c :: rest =>
        if c ≠ 92 then writeFirst [c] (unescape rest (left - 1))
        else
          match _h : parseEscape (c :: rest) left with
          | none => .error []
          | some (sequence_length, bytes) =>
              writeFirst bytes
                (unescape ((c :: rest).drop sequence_length) (left - sequence_length))
termination_by left
decreasing_by
  · omega
  · have := parseEscape_pos _h
    omega

/-- `parse_string`: the string at the start of the input and what is left behind it. -/
def parseString (input : CString) : Option (CString × CString) :=
  match input with
  | [] => none
  | c :: input =>
      if c ≠ 34 then none
      else
        match scanString input with
        | none => none
        | some (length, _) =>
            match unescape input length with
            | .error _ => none
            -- `valuestring` is a C string: what stands behind a NUL in it is not seen
            | .ok output => some (untilNul output, input.drop (length + 1))

/-- A lower-case hexadecimal digit. -/
def hexChar (n : ℕ) : UInt8 := if n < 10 then (48 + n).toUInt8 else (87 + n).toUInt8

/-- How `print_string_ptr` writes a character. -/
def escapeByte (c : UInt8) : CString :=
  if 31 < c.toNat ∧ c ≠ 34 ∧ c ≠ 92 then [c]
  else if c = 92 then [92, 92]
  else if c = 34 then [92, 34]
  else if c = 8 then [92, 98]
  else if c = 12 then [92, 102]
  else if c = 10 then [92, 110]
  else if c = 13 then [92, 114]
  else if c = 9 then [92, 116]
  else [92, 117, 48, 48, hexChar (c.toNat / 16), hexChar (c.toNat % 16)]

/-- The text that `print_string_ptr` writes. -/
def stringText (input : CString) : CString := 34 :: ((untilNul input).flatMap escapeByte ++ [34])

/-! ## The loops step by step -/

/-- The scan stops at a quote. -/
@[simp] theorem scanString_quote (input : CString) : scanString (34 :: input) = some (0, 0) := by
  rw [scanString.eq_def]
  rfl

/-- The scan passes over another character. -/
theorem scanString_cons {c : UInt8} (hquote : c ≠ 34) (hbackslash : c ≠ 92) (input : CString) :
    scanString (c :: input) =
      (scanString input).map fun scanned => (scanned.1 + 1, scanned.2) := by
  rw [scanString.eq_def]
  simp only
  rw [if_neg hquote, if_neg hbackslash]

/-- The scan passes over a backslash and the character behind it. -/
theorem scanString_backslash (e : UInt8) (input : CString) :
    scanString (92 :: e :: input) =
      (scanString input).map fun scanned => (scanned.1 + 2, scanned.2 + 1) := by
  rw [scanString.eq_def]
  rfl

/-- What was written is behind the bytes, whether the loop comes to the end or not. -/
theorem writeFirst_eq_ok_iff {bytes output : CString} {next : Except CString CString} :
    writeFirst bytes next = .ok output ↔ ∃ rest, next = .ok rest ∧ bytes ++ rest = output := by
  cases next with
  | ok rest => simp [writeFirst]
  | error rest => simp [writeFirst]

/-- Nothing is left to decode. -/
@[simp] theorem unescape_zero (input : CString) : unescape input 0 = .ok [] := by
  rw [unescape.eq_def, if_pos rfl]

/-- A character that is no backslash is copied. -/
theorem unescape_plain {c : UInt8} (hbackslash : c ≠ 92) (rest : CString) (n : ℕ) :
    unescape (c :: rest) (n + 1) = writeFirst [c] (unescape rest n) := by
  rw [unescape.eq_def, if_neg (Nat.succ_ne_zero n)]
  simp only
  rw [if_pos hbackslash, Nat.add_sub_cancel]

/-- An escape is replaced by what it stands for. -/
theorem unescape_escape {rest bytes : CString} {n length : ℕ} (hn : n ≠ 0)
    (hescape : parseEscape (92 :: rest) n = some (length, bytes)) :
    unescape (92 :: rest) n =
      writeFirst bytes (unescape ((92 :: rest : CString).drop length) (n - length)) := by
  rw [unescape.eq_def, if_neg hn]
  simp only
  rw [if_neg (by simp)]
  split
  · rename_i hnone
    cases hnone.symm.trans hescape
  · rename_i hsome
    obtain ⟨rfl, rfl⟩ := Prod.mk.inj (Option.some.inj (hsome.symm.trans hescape))
    rfl

/-- Nothing is written for an escape that is none. -/
theorem unescape_malformed {rest : CString} {n : ℕ} (hn : n ≠ 0)
    (hescape : parseEscape (92 :: rest) n = none) : unescape (92 :: rest) n = .error [] := by
  rw [unescape.eq_def, if_neg hn]
  simp only
  rw [if_neg (by simp)]
  split
  · rfl
  · rename_i hsome
    cases hsome.symm.trans hescape

/-! ## The grammar of strings -/

/-- A piece of a string: a character other than the quote and the backslash, or an escape; and the
bytes it stands for. -/
inductive IsPiece : CString → CString → Prop
  | plain {c : UInt8} (hquote : c ≠ 34) (hbackslash : c ≠ 92) : IsPiece [c] [c]
  | short {e c : UInt8} (h : shortEscape e = some c) : IsPiece [92, e] [c]
  | unicode {text : CString} {c : Char} (h : IsUnicodeEscape text c) :
      IsPiece text (String.utf8EncodeChar c)

/-- The text between the quotes of a string, and the bytes it stands for. -/
inductive IsStringBody : CString → CString → Prop
  | nil : IsStringBody [] []
  | cons {piece bytes text decoded : CString} (hpiece : IsPiece piece bytes)
      (htext : IsStringBody text decoded) : IsStringBody (piece ++ text) (bytes ++ decoded)

/-! ## Strings of the grammar are read -/

/-- The scan passes over characters that are no quotes and no backslashes. -/
theorem scanString_plain {text : CString} (htext : ∀ c ∈ text, c ≠ 34 ∧ c ≠ 92) (tail : CString) :
    scanString (text ++ tail) =
      (scanString tail).map fun scanned => (scanned.1 + text.length, scanned.2) := by
  induction text with
  | nil => simp
  | cons c text ih =>
      obtain ⟨hquote, hbackslash⟩ := htext c List.mem_cons_self
      rw [List.cons_append, scanString_cons hquote hbackslash,
        ih fun d hd => htext d (List.mem_cons_of_mem c hd)]
      simp [Function.comp_def, Nat.add_assoc]

/-- The scan passes over an escape sequence and the characters behind it. -/
theorem scanString_escape (e : UInt8) {text : CString} (htext : ∀ c ∈ text, c ≠ 34 ∧ c ≠ 92)
    (tail : CString) :
    scanString (92 :: e :: (text ++ tail)) =
      (scanString tail).map fun scanned => (scanned.1 + (text.length + 2), scanned.2 + 1) := by
  rw [scanString_backslash, scanString_plain htext]
  simp [Function.comp_def, Nat.add_assoc]

/-- The scan passes over a piece. -/
theorem scanString_piece {piece bytes : CString} (h : IsPiece piece bytes) (tail : CString) :
    ∃ k, scanString (piece ++ tail) =
      (scanString tail).map fun scanned => (scanned.1 + piece.length, scanned.2 + k) := by
  cases h with
  | @plain c hquote hbackslash =>
      refine ⟨0, scanString_plain ?_ tail⟩
      intro d hd
      rw [List.mem_singleton.mp hd]
      exact ⟨hquote, hbackslash⟩
  | @short e c h =>
      have hnil : ∀ d ∈ ([] : CString), d ≠ 34 ∧ d ≠ 92 := fun d hd => absurd hd List.not_mem_nil
      exact ⟨1, scanString_escape e hnil tail⟩
  | unicode h =>
      cases h with
      | unit hdigits => exact ⟨1, scanString_escape 117 hdigits.ne tail⟩
      | @pair first second _ _ _ hfirst hsecond _ _ _ =>
          refine ⟨2, ?_⟩
          have htext : (92 :: 117 :: (first ++ 92 :: 117 :: second) : CString) ++ tail =
              92 :: 117 :: (first ++ (92 :: 117 :: (second ++ tail))) := by
            simp
          rw [htext, scanString_escape 117 hfirst.ne, scanString_escape 117 hsecond.ne]
          simp [Function.comp_def, Nat.add_left_comm, Nat.add_comm]

/-- The scan finds the quote behind the text of a string. -/
theorem scanString_body {text decoded : CString} (h : IsStringBody text decoded) (rest : CString) :
    ∃ k, scanString (text ++ 34 :: rest) = some (text.length, k) := by
  induction h with
  | nil => exact ⟨0, scanString_quote rest⟩
  | @cons piece bytes text decoded hpiece htext ih =>
      obtain ⟨k, hk⟩ := ih
      obtain ⟨j, hj⟩ := scanString_piece hpiece (text ++ 34 :: rest)
      refine ⟨k + j, ?_⟩
      rw [List.append_assoc, hj, hk, List.length_append, Nat.add_comm piece.length]
      rfl

/-- An escape of the grammar is parsed. -/
theorem parseEscape_piece {e : UInt8} {text bytes : CString} (h : IsPiece (92 :: e :: text) bytes)
    {left : ℕ} (hleft : (92 :: e :: text : CString).length ≤ left) (tail : CString) :
    parseEscape (92 :: e :: (text ++ tail)) left =
      some ((92 :: e :: text : CString).length, bytes) := by
  have hdrop : (92 :: e :: (text ++ tail) : CString).drop 1 = e :: (text ++ tail) := rfl
  rw [parseEscape, hdrop]
  simp only
  generalize hpiece : (92 :: e :: text : CString) = piece at h hleft
  cases h with
  | plain => cases hpiece
  | @short e' c h =>
      obtain ⟨rfl, rfl⟩ : e = e' ∧ text = [] := by
        injection hpiece with _ htail
        injection htail with h1 h2
        exact ⟨h1, h2⟩
      have hu : e ≠ 117 := by
        rintro rfl
        cases h
      rw [if_neg hu, h]
      rfl
  | unicode h =>
      have hu : e = 117 := by
        cases h with
        | unit => exact (List.cons.inj (List.cons.inj hpiece).2).1
        | pair => exact (List.cons.inj (List.cons.inj hpiece).2).1
      have hinput : (92 :: e :: (text ++ tail) : CString) = piece ++ tail := by
        rw [← hpiece]
        rfl
      rw [if_pos hu, hinput, utf16LiteralToUtf8_of_escape h hleft]

/-- A piece is decoded. -/
theorem unescape_piece {piece bytes : CString} (h : IsPiece piece bytes) (tail : CString) (n : ℕ) :
    unescape (piece ++ tail) (piece.length + n) = writeFirst bytes (unescape tail n) := by
  by_cases hplain : ∃ c, piece = [c]
  · obtain ⟨c, rfl⟩ := hplain
    cases h with
    | plain hquote hbackslash =>
        rw [List.length_singleton, Nat.add_comm]
        exact unescape_plain hbackslash tail n
    | unicode h => cases h
  · obtain ⟨e, text, rfl⟩ : ∃ e text, piece = 92 :: e :: text := by
      cases h with
      | plain => exact absurd ⟨_, rfl⟩ hplain
      | short => exact ⟨_, _, rfl⟩
      | unicode h =>
          cases h with
          | unit => exact ⟨_, _, rfl⟩
          | pair => exact ⟨_, _, rfl⟩
    have hescape := parseEscape_piece h (Nat.le_add_right _ n) tail
    have hdrop : (92 :: e :: (text ++ tail) : CString).drop (92 :: e :: text : CString).length =
        tail := by
      have happend : (92 :: e :: (text ++ tail) : CString) = (92 :: e :: text) ++ tail := rfl
      rw [happend, List.drop_left]
    have hne : (92 :: e :: text : CString).length + n ≠ 0 := by simp
    rw [List.cons_append, List.cons_append, unescape_escape hne hescape, hdrop,
      Nat.add_sub_cancel_left]

/-- The text of a string is decoded. -/
theorem unescape_body {text decoded : CString} (h : IsStringBody text decoded) (tail : CString) :
    unescape (text ++ tail) text.length = .ok decoded := by
  induction h with
  | nil => exact unescape_zero tail
  | cons hpiece htext ih =>
      rw [List.append_assoc, List.length_append, unescape_piece hpiece, ih]
      rfl

/-- **A string of the grammar is read**, up to its first NUL. -/
theorem parseString_of_body {text decoded : CString} (h : IsStringBody text decoded)
    (rest : CString) :
    parseString (34 :: (text ++ 34 :: rest)) = some (untilNul decoded, rest) := by
  obtain ⟨k, hk⟩ := scanString_body h rest
  have hdrop : (text ++ 34 :: rest).drop (text.length + 1) = rest := by
    rw [← List.drop_drop, List.drop_left]
    rfl
  rw [parseString, if_neg (by simp), hk]
  simp only [unescape_body h, hdrop]

/-! ## What is read is a string of the grammar -/

/-- A `\u` somewhere in the text without four hexadecimal digits behind it. -/
def HasMalformedEscape (text : CString) : Prop :=
  ∃ before behind, text = before ++ 92 :: 117 :: behind ∧ hexLoop 4 0 behind = none

/-- A malformed escape stays one behind more text. -/
theorem HasMalformedEscape.append_left {text : CString} (h : HasMalformedEscape text)
    (before : CString) : HasMalformedEscape (before ++ text) := by
  obtain ⟨front, behind, rfl, hhex⟩ := h
  exact ⟨before ++ front, behind, (List.append_assoc _ _ _).symm, hhex⟩

/-- What the loops of `parse_string` take is the text of a string, or a malformed escape is among
it. -/
theorem unescape_sound {n k : ℕ} {input output : CString} (hscan : scanString input = some (n, k))
    (hout : unescape input n = .ok output) :
    (∃ text rest, IsStringBody text output ∧ input = text ++ 34 :: rest ∧ n = text.length) ∨
      HasMalformedEscape input := by
  induction n using Nat.strong_induction_on generalizing input output k with
  | _ n ih =>
  cases input with
  | nil => cases hscan
  | cons c input =>
    by_cases hquote : c = 34
    · rw [hquote, scanString_quote] at hscan
      obtain ⟨rfl, -⟩ := Prod.mk.inj (Option.some.inj hscan)
      rw [unescape_zero] at hout
      rw [← Except.ok.inj hout]
      exact Or.inl ⟨[], input, .nil, by rw [hquote]; rfl, rfl⟩
    by_cases hbackslash : c = 92
    · -- an escape: the scan and the decoding both go on behind it
      rw [hbackslash] at hscan hout ⊢
      cases input with
      | nil =>
          rw [scanString.eq_def] at hscan
          cases hscan
      | cons e input =>
        have hn : n ≠ 0 := by
          rw [scanString_backslash] at hscan
          obtain ⟨scanned, -, heq⟩ := Option.map_eq_some_iff.mp hscan
          have := (Prod.mk.inj heq).1
          omega
        obtain ⟨length, bytes, hescape⟩ : ∃ length bytes,
            parseEscape (92 :: e :: input) n = some (length, bytes) := by
          cases hescape : parseEscape (92 :: e :: input) n with
          | none =>
              rw [unescape_malformed hn hescape] at hout
              cases hout
          | some escape => exact ⟨_, _, rfl⟩
        rw [unescape_escape hn hescape] at hout
        obtain ⟨decoded, hdecoded, rfl⟩ := writeFirst_eq_ok_iff.mp hout
        -- the piece that is taken, if it is well formed
        have hpiece : (∃ piece tail, IsPiece piece bytes ∧ 92 :: e :: input = piece ++ tail ∧
            length = piece.length) ∨ HasMalformedEscape (92 :: e :: input) := by
          have hdrop : (92 :: e :: input : CString).drop 1 = e :: input := rfl
          rw [parseEscape, hdrop] at hescape
          simp only at hescape
          by_cases hu : e = 117
          · rw [if_pos hu, hu] at hescape
            rcases escape_of_utf16LiteralToUtf8 hescape with
              ⟨text, rest, c, htext, hinput, hlength, hbytes, -⟩ | ⟨hhex, -⟩
            · refine Or.inl ⟨text, rest, ?_, ?_, hlength⟩
              · rw [hbytes]
                exact .unicode htext
              · rw [hu, hinput]
            · exact Or.inr ⟨[], input, by rw [hu]; rfl, hhex⟩
          · rw [if_neg hu] at hescape
            obtain ⟨byte, hbyte, heq⟩ := Option.map_eq_some_iff.mp hescape
            obtain ⟨rfl, rfl⟩ := Prod.mk.inj heq
            exact Or.inl ⟨[92, e], input, .short hbyte, rfl, rfl⟩
        rcases hpiece with ⟨piece, tail, hpiece, hinput, rfl⟩ | hmalformed
        · obtain ⟨j, hj⟩ := scanString_piece hpiece tail
          rw [hinput, hj] at hscan
          obtain ⟨⟨m, k'⟩, hm, heq⟩ := Option.map_eq_some_iff.mp hscan
          obtain ⟨rfl, -⟩ := Prod.mk.inj heq
          simp only [Nat.add_sub_cancel] at hdecoded
          rw [hinput, List.drop_left] at hdecoded
          have hpos : 0 < piece.length := parseEscape_pos hescape
          rcases ih m (by omega) hm hdecoded with ⟨text, rest, htext, htail, hlen⟩ | hmalformed
          · refine Or.inl ⟨piece ++ text, rest, .cons hpiece htext, ?_, ?_⟩
            · rw [hinput, htail, List.append_assoc]
            · rw [List.length_append, hlen, Nat.add_comm]
          · rw [hinput]
            exact Or.inr (hmalformed.append_left piece)
        · exact Or.inr hmalformed
    · rw [scanString_cons hquote hbackslash] at hscan
      obtain ⟨⟨m, k'⟩, hm, heq⟩ := Option.map_eq_some_iff.mp hscan
      obtain ⟨rfl, -⟩ := Prod.mk.inj heq
      rw [unescape_plain hbackslash] at hout
      obtain ⟨decoded, hdecoded, rfl⟩ := writeFirst_eq_ok_iff.mp hout
      rcases ih m (Nat.lt_succ_self m) hm hdecoded with ⟨text, rest, htext, htail, hlen⟩ | hmalformed
      · exact Or.inl ⟨c :: text, rest, .cons (.plain hquote hbackslash) htext,
          congrArg (c :: ·) htail, congrArg (· + 1) hlen⟩
      · exact Or.inr (hmalformed.append_left [c])

/-- A string that is read is what the second loop writes for what the first has counted. -/
theorem parseString_eq_some {input value rest : CString}
    (h : parseString input = some (value, rest)) :
    ∃ text n k output, input = 34 :: text ∧ scanString text = some (n, k) ∧
      unescape text n = .ok output ∧ value = untilNul output ∧ rest = text.drop (n + 1) := by
  cases input with
  | nil => cases h
  | cons c input =>
      rw [parseString] at h
      by_cases hquote : c ≠ 34
      · rw [if_pos hquote] at h
        cases h
      rw [if_neg hquote] at h
      cases hscan : scanString input with
      | none => rw [hscan] at h; cases h
      | some scanned =>
          obtain ⟨n, k⟩ := scanned
          rw [hscan] at h
          cases hout : unescape input n with
          | error output => simp only [hout] at h; cases h
          | ok output =>
              simp only [hout] at h
              obtain ⟨rfl, rfl⟩ := Prod.mk.inj (Option.some.inj h)
              exact ⟨input, n, k, output, by rw [not_not.mp hquote], hscan, hout, rfl, rfl⟩

/-- **What is read as a string is one of the grammar**, up to its first NUL, unless the input has a
malformed escape. -/
theorem body_of_parseString {input value rest : CString} (h : parseString input = some (value, rest)) :
    (∃ text decoded, IsStringBody text decoded ∧ input = 34 :: (text ++ 34 :: rest) ∧
      value = untilNul decoded) ∨ HasMalformedEscape input := by
  obtain ⟨input, n, k, output, rfl, hscan, hout, rfl, rfl⟩ := parseString_eq_some h
  rcases unescape_sound hscan hout with ⟨text, rest, htext, hinput, hlen⟩ | hmalformed
  · have hdrop : input.drop (n + 1) = rest := by
      rw [hinput, hlen, ← List.drop_drop, List.drop_left]
      rfl
    exact Or.inl ⟨text, output, htext, by rw [hdrop, hinput], rfl⟩
  · exact Or.inr (hmalformed.append_left [34])

/-! ## The size of the output -/

/-- How many escapes the scan sees in the next characters; `skip` says that it skips the first. -/
def escapesAhead : Bool → CString → ℕ → ℕ
  | _, _, 0 => 0
  | _, [], _ + 1 => 0
  | true, _ :: input, n + 1 => escapesAhead false input n
  | false, c :: input, n + 1 =>
      if c = 92 then escapesAhead true input n + 1 else escapesAhead false input n

/-- The scan counts the escapes ahead of it. -/
theorem escapesAhead_of_scanString {input : CString} {n k : ℕ}
    (h : scanString input = some (n, k)) : escapesAhead false input n = k := by
  induction n using Nat.strong_induction_on generalizing input k with
  | _ n ih =>
  cases input with
  | nil => cases h
  | cons c input =>
    by_cases hquote : c = 34
    · rw [hquote, scanString_quote] at h
      obtain ⟨rfl, rfl⟩ := Prod.mk.inj (Option.some.inj h)
      rfl
    by_cases hbackslash : c = 92
    · rw [hbackslash] at h ⊢
      cases input with
      | nil =>
          rw [scanString.eq_def] at h
          cases h
      | cons e input =>
          rw [scanString_backslash] at h
          obtain ⟨⟨m, j⟩, hm, heq⟩ := Option.map_eq_some_iff.mp h
          obtain ⟨rfl, rfl⟩ := Prod.mk.inj heq
          rw [escapesAhead, if_pos rfl, escapesAhead, ih m (by omega) hm]
    · rw [scanString_cons hquote hbackslash] at h
      obtain ⟨⟨m, j⟩, hm, heq⟩ := Option.map_eq_some_iff.mp h
      obtain ⟨rfl, rfl⟩ := Prod.mk.inj heq
      rw [escapesAhead, if_neg hbackslash, ih m (by omega) hm]

/-- Among some characters, at most every second one starts an escape. -/
theorem escapesAhead_le (skip : Bool) (input : CString) (n m : ℕ) :
    ∃ skip', 2 * escapesAhead skip input n ≤
      2 * escapesAhead skip' (input.drop m) (n - m) + (m + if skip then 0 else 1) := by
  induction m generalizing skip input n with
  | zero => exact ⟨skip, by rw [List.drop_zero, Nat.sub_zero]; omega⟩
  | succ m ih =>
      cases n with
      | zero => exact ⟨skip, by rw [escapesAhead]; omega⟩
      | succ n =>
          cases input with
          | nil => exact ⟨skip, by cases skip <;> rw [escapesAhead] <;> omega⟩
          | cons c input =>
              rw [List.drop_succ_cons, Nat.succ_sub_succ]
              cases skip with
              | true =>
                  obtain ⟨skip', h⟩ := ih false input n
                  refine ⟨skip', ?_⟩
                  rw [escapesAhead]
                  simp only [Bool.false_eq_true, if_false, if_true] at h ⊢
                  omega
              | false =>
                  rw [escapesAhead]
                  split
                  · obtain ⟨skip', h⟩ := ih true input n
                    refine ⟨skip', ?_⟩
                    simp only [Bool.false_eq_true, if_false, if_true] at h ⊢
                    omega
                  · obtain ⟨skip', h⟩ := ih false input n
                    refine ⟨skip', ?_⟩
                    simp only [Bool.false_eq_true, if_false] at h ⊢
                    omega

/-- What an escape is turned into is at most half as long. -/
theorem length_of_parseEscape {input bytes : CString} {left length : ℕ}
    (h : parseEscape input left = some (length, bytes)) :
    2 * bytes.length ≤ length ∧ length % 2 = 0 ∧ (length ≤ left ∨ length = 2) := by
  rw [parseEscape] at h
  split at h
  · cases h
  · split at h
    · have hbytes := length_of_utf16LiteralToUtf8 h
      exact ⟨hbytes.1, hbytes.2, Or.inl (utf16LiteralToUtf8_length h).2⟩
    · obtain ⟨byte, -, heq⟩ := Option.map_eq_some_iff.mp h
      obtain ⟨rfl, rfl⟩ := Prod.mk.inj heq
      exact ⟨le_rfl, rfl, Or.inr rfl⟩

/-- What has been written, whether the loop came to the end or not. -/
def written : Except CString CString → CString
  | .ok output => output
  | .error output => output

@[simp] theorem written_writeFirst (bytes : CString) (next : Except CString CString) :
    written (writeFirst bytes next) = bytes ++ written next := by
  cases next <;> rfl

/-- There are no more escapes ahead than characters. -/
theorem escapesAhead_le_self (skip : Bool) (input : CString) (n : ℕ) :
    escapesAhead skip input n ≤ n := by
  obtain ⟨skip', h⟩ := escapesAhead_le skip input n n
  have hone : (if skip then 0 else 1) ≤ 1 := by
    split <;> decide
  rw [Nat.sub_self, escapesAhead] at h
  omega

/-- The bytes that are written and the escapes ahead are no more than the characters, and one. A
malformed escape can leave the decoding out of step with the scan: `skip` is any. -/
theorem length_unescape {n : ℕ} (input : CString) (skip : Bool) :
    (written (unescape input n)).length + escapesAhead skip input n ≤ n + 1 := by
  induction n using Nat.strong_induction_on generalizing input skip with
  | _ n ih =>
  have hahead := escapesAhead_le_self skip input n
  by_cases hn : n = 0
  · rw [hn, unescape_zero, escapesAhead]
    exact Nat.zero_le 1
  cases input with
  | nil =>
      rw [unescape.eq_def, if_neg hn]
      exact (Nat.zero_add _).trans_le (by omega)
  | cons c input =>
    by_cases hbackslash : c = 92
    · rw [hbackslash] at hahead ⊢
      cases hescape : parseEscape (92 :: input) n with
      -- the loop ends here
      | none =>
          rw [unescape_malformed hn hescape]
          exact (Nat.zero_add _).trans_le (by omega)
      | some escape =>
        obtain ⟨length, bytes⟩ := escape
        rw [unescape_escape hn hescape, written_writeFirst]
        obtain ⟨hbytes, heven, hleft⟩ := length_of_parseEscape hescape
        have hpos := parseEscape_pos hescape
        obtain ⟨skip', hskip⟩ := escapesAhead_le skip (92 :: input) n length
        have hrest := ih (n - length) (by omega) ((92 :: input : CString).drop length) skip'
        have hone : (if skip then 0 else 1) ≤ 1 := by
          split <;> decide
        rw [List.length_append]
        rcases hleft with hleft | hleft
        · omega
        · -- the escape ends behind the closing quote
          by_cases hlong : length ≤ n
          · omega
          · have hzero : n - length = 0 := by omega
            rw [hzero, escapesAhead] at hskip
            rw [hzero, unescape_zero]
            simp only [written, List.length_nil]
            omega
    · obtain ⟨m, rfl⟩ := Nat.exists_eq_succ_of_ne_zero hn
      rw [unescape_plain hbackslash, written_writeFirst]
      have hrest := ih m (Nat.lt_succ_self m) input false
      have hahead : escapesAhead skip (c :: input) (m + 1) = escapesAhead false input m := by
        cases skip with
        | true => rw [escapesAhead]
        | false => rw [escapesAhead, if_neg hbackslash]
      rw [hahead, List.length_append, List.length_singleton]
      omega

/-- **The output of `parse_string` fits into the memory it allocates**, also where an escape makes it
fail: as many bytes as there are characters from the opening to the closing quote, less one for each
escape, and one for the NUL. -/
theorem parseString_fits {input : CString} {length skipped_bytes : ℕ}
    (hscan : scanString input = some (length, skipped_bytes)) :
    (written (unescape input length)).length + 1 ≤ length + 1 - skipped_bytes + 1 := by
  have hbound := @length_unescape length input false
  rw [escapesAhead_of_scanString hscan] at hbound
  omega

/-- The string `a\n\x"`, which fails at its second escape. -/
theorem parseString_fits_malformed :
    unescape [97, 92, 110, 92, 120, 34] 5 = .error [97, 10] ∧
      (written (.error [97, 10])).length + 1 ≤ 5 + 1 - 2 + 1 := by
  have hscan : scanString [97, 92, 110, 92, 120, 34] = some (5, 2) := by decide
  have hout : unescape [97, 92, 110, 92, 120, 34] 5 = .error [97, 10] := by
    rw [unescape_plain (by decide), unescape_escape (by decide)
      (by decide : parseEscape [92, 110, 92, 120, 34] 4 = some (2, [10]))]
    show writeFirst [97] (writeFirst [10] (unescape [92, 120, 34] 2)) = _
    rw [unescape_malformed (by decide) (by decide)]
    rfl
  have hfits := parseString_fits hscan
  rw [hout] at hfits
  exact ⟨hout, hfits⟩

/-! ## Printed strings are strings of the grammar -/

/-- The digits of a printed code unit are read back. -/
theorem isHex4_byte {c : UInt8} (h : c.toNat < 32) :
    IsHex4 [48, 48, hexChar (c.toNat / 16), hexChar (c.toNat % 16)] c.toNat := by
  have hall : ∀ n < 32, hexLoop 4 0 [48, 48, hexChar (n / 16), hexChar (n % 16)] = some n := by
    decide
  exact isHex4_iff.mpr ⟨rfl, hall _ h⟩

/-- **A character is written as a piece that stands for it.** -/
theorem isPiece_escapeByte (c : UInt8) : IsPiece (escapeByte c) [c] := by
  rw [escapeByte]
  by_cases hplain : 31 < c.toNat ∧ c ≠ 34 ∧ c ≠ 92
  · rw [if_pos hplain]
    exact .plain hplain.2.1 hplain.2.2
  rw [if_neg hplain]
  split_ifs with h1 h2 h3 h4 h5 h6 h7
  · exact .short (congrArg some h1.symm)
  · exact .short (congrArg some h2.symm)
  · exact .short (congrArg some h3.symm)
  · exact .short (congrArg some h4.symm)
  · exact .short (congrArg some h5.symm)
  · exact .short (congrArg some h6.symm)
  · exact .short (congrArg some h7.symm)
  -- a control character without an escape of its own
  have hsmall : c.toNat < 32 := by
    by_contra hlarge
    exact hplain ⟨by omega, h2, h1⟩
  have hvalid : c.toNat.isValidChar := Or.inl (by omega)
  have hchar := toNat_ofNat hvalid
  have hencode : String.utf8EncodeChar (Char.ofNat c.toNat) = [c] := by
    have hval : (Char.ofNat c.toNat).val.toNat = c.toNat := hchar
    rw [String.utf8EncodeChar]
    simp only [hval]
    rw [if_pos (by omega : c.toNat ≤ 0x7f)]
    exact congrArg (fun d => [d]) UInt8.ofNat_toNat
  have hdigits := isHex4_byte hsmall
  rw [← hchar] at hdigits
  have hpiece := IsPiece.unicode (.unit hdigits)
  rwa [hencode, hchar] at hpiece

/-- No control character is written. -/
theorem escapeByte_printable (c : UInt8) : ∀ d ∈ escapeByte c, 31 < d.toNat := by
  have hbytes : ∀ {text : CString}, text.all (fun d => 31 < d.toNat) = true →
      ∀ d ∈ text, 31 < d.toNat :=
    fun h d hd => of_decide_eq_true (List.all_eq_true.mp h d hd)
  by_cases hsmall : c.toNat < 32
  · have hall : ∀ n < 32, (escapeByte (UInt8.ofNat n)).all (fun d => 31 < d.toNat) = true := by
      decide
    have h := hall _ hsmall
    rw [UInt8.ofNat_toNat] at h
    exact hbytes h
  · have hlarge : 31 < c.toNat := by omega
    rw [escapeByte]
    by_cases hplain : 31 < c.toNat ∧ c ≠ 34 ∧ c ≠ 92
    · rw [if_pos hplain]
      exact List.forall_mem_singleton.mpr hlarge
    rw [if_neg hplain]
    by_cases hbackslash : c = 92
    · rw [if_pos hbackslash]
      exact hbytes rfl
    · rw [if_neg hbackslash, if_pos (by_contra fun hquote => hplain ⟨hlarge, hquote, hbackslash⟩)]
      exact hbytes rfl

/-- **What is written for a string is a string of the grammar** that stands for it. -/
theorem isStringBody_flatMap (s : CString) : IsStringBody (s.flatMap escapeByte) s := by
  induction s with
  | nil => exact .nil
  | cons c s ih => exact .cons (isPiece_escapeByte c) ih

/-- A string that is read has no NUL. -/
theorem untilNul_of_parseString {input value rest : CString}
    (h : parseString input = some (value, rest)) : untilNul value = value := by
  obtain ⟨-, -, -, output, -, -, -, rfl, -⟩ := parseString_eq_some h
  exact untilNul_untilNul output

/-- **A string is read back from its text**, whatever follows it. -/
theorem parseString_stringText (s rest : CString) :
    parseString (stringText s ++ rest) = some (untilNul s, rest) := by
  have hbody := parseString_of_body (isStringBody_flatMap (untilNul s)) rest
  rw [untilNul_untilNul] at hbody
  rw [stringText, List.cons_append, List.append_assoc]
  exact hbody

end OcgeoFdw
