import OcgeoFdw.Api.JsonNumbers
import OcgeoFdw.Api.JsonStrings

/-! # The parser of cJSON

`parse_value`, `parse_array` and `parse_object`, with the limit on nesting, and `cJSON_Parse`. The
state of the `parse_buffer` is what is left of the text, with the NUL at its end, and how many more
arrays and objects may be opened. -/

namespace OcgeoFdw

open CString

/-! ## The code -/

/-- `buffer_skip_whitespace`: control characters and the space are skipped, and the NUL at the end of
the text is not passed. -/
def skipWhitespace (input : CString) : CString :=
  match input.dropWhile (fun c => c.toNat ≤ 32) with
  | [] => [0]
  | c :: rest => c :: rest

/-- `parse_value`, over the parsers of arrays and objects. -/
def parseValueWith (parse_array parse_object : CString → Option (CJsonItem × CString))
    (input : CString) : Option (CJsonItem × CString) :=
  if (ofAscii "null").isPrefixOf input then some (.null, input.drop 4)
  else if (ofAscii "false").isPrefixOf input then some (.bool false, input.drop 5)
  else if (ofAscii "true").isPrefixOf input then some (.bool true, input.drop 4)
  else
    match input with
    | [] => none
    | c :: _ =>
        if c = 34 then (parseString input).map fun parsed => (.string parsed.1, parsed.2)
        else if c = 45 ∨ (48 ≤ c.toNat ∧ c.toNat ≤ 57) then parseNumber input
        else if c = 91 then parse_array input
        else if c = 123 then parse_object input
        else none

/-- The loops of `parse_array` and `parse_object`: what `parse_one` reads, separated by commas, up to
the closing bracket. Each pass takes at least one character, so a count that is the length of the
input never runs out. -/
def parseSequence {α : Type} (parse_one : CString → Option (α × CString)) (close : UInt8) :
    ℕ → CString → Option (List α × CString)
  | 0, _ => none
  | n + 1, input =>
      match parse_one (skipWhitespace input) with
      | none => none
      | some (item, rest) =>
          match skipWhitespace rest with
          | [] => none
          | c :: rest =>
              if c = 44 then
                (parseSequence parse_one close n rest).map fun parsed => (item :: parsed.1, parsed.2)
              else if c = close then some ([item], rest)
              else none

/-- The frame of `parse_array` and `parse_object`: the opening bracket, and either the closing one or
the loop. -/
def parseContainer {α : Type} (start close : UInt8) (parse_one : CString → Option (α × CString))
    (build : List α → CJsonItem) (input : CString) : Option (CJsonItem × CString) :=
  match input with
  | [] => none
  | c :: input =>
      if c ≠ start then none
      else
        match skipWhitespace input with
        | [] => none
        | c :: rest =>
            if c = close then some (build [], rest)
            else
              (parseSequence parse_one close (c :: rest).length (c :: rest)).map fun parsed =>
                (build parsed.1, parsed.2)

/-- `parse_array`, below the limit on nesting. -/
def parseArray (parse_value : CString → Option (CJsonItem × CString)) (input : CString) :
    Option (CJsonItem × CString) :=
  parseContainer 91 93 parse_value .array input

/-- The body of the loop of `parse_object`: a name, a colon and a value. -/
def parseMember (parse_value : CString → Option (CJsonItem × CString)) (input : CString) :
    Option ((CString × CJsonItem) × CString) :=
  match parseString input with
  | none => none
  | some (string, rest) =>
      match skipWhitespace rest with
      | [] => none
      | c :: rest =>
          if c ≠ 58 then none
          else
            (parse_value (skipWhitespace rest)).map fun parsed => ((string, parsed.1), parsed.2)

/-- `parse_object`, below the limit on nesting. -/
def parseObject (parse_value : CString → Option (CJsonItem × CString)) (input : CString) :
    Option (CJsonItem × CString) :=
  parseContainer 123 125 (parseMember parse_value) .object input

/-- `parse_value` when `levels` more arrays and objects may be opened inside one another. -/
def parseValue : ℕ → CString → Option (CJsonItem × CString)
  | 0 => parseValueWith (fun _ => none) (fun _ => none)
  | levels + 1 => parseValueWith (parseArray (parseValue levels)) (parseObject (parseValue levels))

/-- `CJSON_NESTING_LIMIT`. -/
def nestingLimit : ℕ := 1000

/-- `skip_utf8_bom`. -/
def skipUtf8Bom (input : CString) : CString :=
  if 4 < input.length ∧ [0xEF, 0xBB, 0xBF].isPrefixOf input then input.drop 3 else input

/-- `cJSON_ParseWithOpts`: the tree and what is left behind it. -/
def CJsonItem.parseWithOpts (value : CString) (require_null_terminated : Bool) :
    Option (CJsonItem × CString) :=
  match parseValue nestingLimit (skipWhitespace (skipUtf8Bom (untilNul value ++ [0]))) with
  | none => none
  | some (item, rest) =>
      if require_null_terminated then
        if (skipWhitespace rest).head? = some 0 then some (item, skipWhitespace rest) else none
      else some (item, rest)

/-- `cJSON_Parse`. -/
def CJsonItem.parse (value : CString) : Option CJsonItem :=
  (CJsonItem.parseWithOpts value false).map Prod.fst

/-! ## What is read -/

section Readers

variable {α : Type} {parse_one : CString → Option (α × CString)}
  {parse_value : CString → Option (CJsonItem × CString)} {start close : UInt8}
  {build : List α → CJsonItem} {input rest : CString}

/-- **One pass of the loops**: an element, and a comma and the further ones or the bracket. -/
theorem parseSequence_succ_eq_some_iff {n : ℕ} {as : List α} :
    parseSequence parse_one close (n + 1) input = some (as, rest) ↔
      ∃ a behind c left, parse_one (skipWhitespace input) = some (a, behind) ∧
        skipWhitespace behind = c :: left ∧
        ((c = 44 ∧ ∃ bs, as = a :: bs ∧ parseSequence parse_one close n left = some (bs, rest)) ∨
          (c ≠ 44 ∧ c = close ∧ as = [a] ∧ rest = left)) := by
  rw [parseSequence]
  constructor
  · intro h
    cases hone : parse_one (skipWhitespace input) with
    | none => rw [hone] at h; cases h
    | some read =>
        obtain ⟨a, behind⟩ := read
        rw [hone] at h
        simp only at h
        cases hskip : skipWhitespace behind with
        | nil => rw [hskip] at h; cases h
        | cons c left =>
            rw [hskip] at h
            simp only at h
            refine ⟨a, behind, c, left, rfl, hskip, ?_⟩
            split_ifs at h with hcomma hend
            · obtain ⟨⟨bs, left'⟩, hseq, heq⟩ := Option.map_eq_some_iff.mp h
              obtain ⟨rfl, rfl⟩ := Prod.mk.inj heq
              exact .inl ⟨hcomma, bs, rfl, hseq⟩
            · obtain ⟨rfl, rfl⟩ := Prod.mk.inj (Option.some.inj h)
              exact .inr ⟨hcomma, hend, rfl, rfl⟩
  · rintro ⟨a, behind, c, left, hone, hskip, ⟨rfl, bs, rfl, hseq⟩ | ⟨hcomma, rfl, rfl, rfl⟩⟩
    · rw [hone]
      simp only
      rw [hskip]
      simp only
      rw [if_pos trivial, hseq, Option.map_some]
    · rw [hone]
      simp only
      rw [hskip]
      simp only
      rw [if_neg hcomma, if_pos trivial]

/-- **The frame of an array or object**: the bracket, and the closing one or the loop. -/
theorem parseContainer_eq_some_iff {item : CJsonItem} :
    parseContainer start close parse_one build input = some (item, rest) ↔
      ∃ inside d behind, input = start :: inside ∧ skipWhitespace inside = d :: behind ∧
        ((d = close ∧ item = build [] ∧ rest = behind) ∨
          (d ≠ close ∧ ∃ as, item = build as ∧
            parseSequence parse_one close (d :: behind).length (d :: behind) =
              some (as, rest))) := by
  constructor
  · intro h
    cases input with
    | nil => cases h
    | cons c input =>
        rw [parseContainer] at h
        by_cases hopen : c ≠ start
        · rw [if_pos hopen] at h
          cases h
        rw [if_neg hopen] at h
        cases hskip : skipWhitespace input with
        | nil => rw [hskip] at h; cases h
        | cons d behind =>
            rw [hskip] at h
            simp only at h
            refine ⟨input, d, behind, by rw [not_not.mp hopen], hskip, ?_⟩
            split_ifs at h with hclosed
            · obtain ⟨rfl, rfl⟩ := Prod.mk.inj (Option.some.inj h)
              exact .inl ⟨hclosed, rfl, rfl⟩
            · obtain ⟨⟨as, left⟩, hseq, heq⟩ := Option.map_eq_some_iff.mp h
              obtain ⟨rfl, rfl⟩ := Prod.mk.inj heq
              exact .inr ⟨hclosed, as, rfl, hseq⟩
  · rintro ⟨inside, d, behind, rfl, hskip, ⟨rfl, rfl, rfl⟩ | ⟨hclosed, as, rfl, hseq⟩⟩
    · rw [parseContainer, if_neg (not_not.mpr rfl), hskip]
      simp only
      rw [if_pos trivial]
    · rw [parseContainer, if_neg (not_not.mpr rfl), hskip]
      simp only
      rw [if_neg hclosed, hseq, Option.map_some]

/-- **A member**: its name, a colon and its value. -/
theorem parseMember_eq_some_iff {member : CString × CJsonItem} :
    parseMember parse_value input = some (member, rest) ↔
      ∃ behind left, parseString input = some (member.1, behind) ∧
        skipWhitespace behind = 58 :: left ∧
        parse_value (skipWhitespace left) = some (member.2, rest) := by
  rw [parseMember]
  constructor
  · intro h
    cases hname : parseString input with
    | none => rw [hname] at h; cases h
    | some parsed =>
        obtain ⟨name, behind⟩ := parsed
        rw [hname] at h
        simp only at h
        cases hskip : skipWhitespace behind with
        | nil => rw [hskip] at h; cases h
        | cons c left =>
            rw [hskip] at h
            simp only at h
            split_ifs at h with hcolon
            obtain ⟨⟨item, left'⟩, hvalue, heq⟩ := Option.map_eq_some_iff.mp h
            obtain ⟨rfl, rfl⟩ := Prod.mk.inj heq
            exact ⟨behind, left, rfl, by rw [hskip, not_not.mp hcolon], hvalue⟩
  · rintro ⟨behind, left, hname, hskip, hvalue⟩
    rw [hname]
    simp only
    rw [hskip]
    simp only
    rw [if_neg (not_not.mpr rfl), hvalue, Option.map_some]

end Readers

/-- **What `parse_value` reads**, by its branches. -/
theorem parseValueWith_eq_some
    {parse_array parse_object : CString → Option (CJsonItem × CString)} {input rest : CString}
    {item : CJsonItem} (h : parseValueWith parse_array parse_object input = some (item, rest)) :
    (input = ofAscii "null" ++ rest ∧ item = .null) ∨
      (∃ value : Bool, input = ofAscii (if value then "true" else "false") ++ rest ∧
        item = .bool value) ∨
      (∃ value, parseString input = some (value, rest) ∧ item = .string value) ∨
      ((∀ c ∈ input.head?, c = 45 ∨ (48 ≤ c.toNat ∧ c.toNat ≤ 57)) ∧
        parseNumber input = some (item, rest)) ∨
      parse_array input = some (item, rest) ∨ parse_object input = some (item, rest) := by
  have hliteral : ∀ {literal : CString} {n : ℕ}, literal.isPrefixOf input = true →
      literal.length = n → input = literal ++ input.drop n := by
    intro literal n hprefix hlen
    obtain ⟨tail, rfl⟩ := List.isPrefixOf_iff_prefix.mp hprefix
    rw [← hlen, List.drop_left]
  rw [parseValueWith.eq_def] at h
  by_cases h1 : (ofAscii "null").isPrefixOf input
  · rw [if_pos h1] at h
    obtain ⟨rfl, rfl⟩ := Prod.mk.inj (Option.some.inj h)
    exact .inl ⟨hliteral h1 rfl, rfl⟩
  rw [if_neg h1] at h
  by_cases h2 : (ofAscii "false").isPrefixOf input
  · rw [if_pos h2] at h
    obtain ⟨rfl, rfl⟩ := Prod.mk.inj (Option.some.inj h)
    exact .inr (.inl ⟨false, hliteral h2 rfl, rfl⟩)
  rw [if_neg h2] at h
  by_cases h3 : (ofAscii "true").isPrefixOf input
  · rw [if_pos h3] at h
    obtain ⟨rfl, rfl⟩ := Prod.mk.inj (Option.some.inj h)
    exact .inr (.inl ⟨true, hliteral h3 rfl, rfl⟩)
  rw [if_neg h3] at h
  -- the other branches depend on the first character
  cases input with
  | nil => cases h
  | cons c input =>
      simp only at h
      by_cases hquote : c = 34
      · rw [if_pos hquote] at h
        obtain ⟨⟨value, left⟩, hstring, heq⟩ := Option.map_eq_some_iff.mp h
        obtain ⟨rfl, rfl⟩ := Prod.mk.inj heq
        exact .inr (.inr (.inl ⟨value, hstring, rfl⟩))
      rw [if_neg hquote] at h
      by_cases hnumber : c = 45 ∨ (48 ≤ c.toNat ∧ c.toNat ≤ 57)
      · rw [if_pos hnumber] at h
        refine .inr (.inr (.inr (.inl ⟨fun d hd => ?_, h⟩)))
        obtain rfl : c = d := Option.some.inj hd
        exact hnumber
      rw [if_neg hnumber] at h
      by_cases harray : c = 91
      · rw [if_pos harray] at h
        exact .inr (.inr (.inr (.inr (.inl h))))
      rw [if_neg harray] at h
      by_cases hobject : c = 123
      · rw [if_pos hobject] at h
        exact .inr (.inr (.inr (.inr (.inr h))))
      · rw [if_neg hobject] at h
        cases h

/-- What is parsed is the C string. -/
theorem CJsonItem.parse_congr {value value' : CString} (h : untilNul value = untilNul value') :
    CJsonItem.parse value = CJsonItem.parse value' := by
  rw [CJsonItem.parse, CJsonItem.parse, CJsonItem.parseWithOpts, CJsonItem.parseWithOpts, h]

end OcgeoFdw
