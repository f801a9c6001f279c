import OcgeoFdw.Api.JsonTexts

/-! # Documents

What `cJSON_Parse` accepts and what it builds: every document of the grammar is read, whatever is
behind its value; what is read is such a document, unless it has a malformed `\u` escape; and the
text of an item is read back as the item, up to the limit on nesting. -/

namespace OcgeoFdw

open CString

/-- Nothing or a byte order mark. -/
def IsBom (text : CString) : Prop := text = [] ∨ text = [0xEF, 0xBB, 0xBF]

/-- A text that starts with a value of the grammar, behind an optional byte order mark and white
space; and what is behind the value. -/
structure IsDocument (value : CString) (item : CJsonItem) (rest : CString) : Prop where
  /-- The value in the text. -/
  splits : ∃ bom before text, IsBom bom ∧ IsWhite before ∧ IsValue nestingLimit text item ∧
    value = bom ++ (before ++ (text ++ rest))
  /-- The text is a C string. -/
  noNul : ∀ c ∈ value, c ≠ 0

/-- A byte order mark is skipped, and nothing else in front of an ASCII character. -/
theorem skipUtf8Bom_append {bom input : CString} (hbom : IsBom bom)
    (hascii : ∀ c ∈ input.head?, c.toNat < 128) (hlen : 2 ≤ input.length) :
    skipUtf8Bom (bom ++ input) = input := by
  rcases hbom with rfl | rfl
  · obtain ⟨c, rest, rfl⟩ := List.exists_cons_of_length_pos (by omega : 0 < input.length)
    have hne : (0xEF : UInt8) ≠ c := by
      rintro rfl
      exact absurd (hascii _ rfl) (by decide)
    have hprefix : ([0xEF, 0xBB, 0xBF] : CString).isPrefixOf (c :: rest) = false := by
      rw [List.isPrefixOf, beq_eq_false_iff_ne.mpr hne, Bool.false_and]
    rw [List.nil_append, skipUtf8Bom, hprefix]
    exact if_neg fun h => Bool.false_ne_true h.2
  · rw [skipUtf8Bom, if_pos ⟨by simp; omega, rfl⟩]
    rfl

/-- What the parser starts with is behind a byte order mark. -/
theorem bom_of_skipUtf8Bom (input : CString) :
    ∃ bom, IsBom bom ∧ input = bom ++ skipUtf8Bom input := by
  rw [skipUtf8Bom]
  split
  · rename_i h
    obtain ⟨tail, rfl⟩ := List.isPrefixOf_iff_prefix.mp h.2
    exact ⟨[0xEF, 0xBB, 0xBF], Or.inr rfl, rfl⟩
  · exact ⟨[], Or.inl rfl, rfl⟩

/-- `cJSON_Parse` is `parse_value` at the first character that counts. -/
theorem CJsonItem.parse_eq (value : CString) :
    CJsonItem.parse value =
      (parseValue nestingLimit (skipWhitespace (skipUtf8Bom (untilNul value ++ [0])))).map
        Prod.fst := by
  rw [CJsonItem.parse, CJsonItem.parseWithOpts]
  cases parseValue nestingLimit (skipWhitespace (skipUtf8Bom (untilNul value ++ [0]))) with
  | none => rfl
  | some parsed => rfl

/-- Behind a byte order mark and white space, `cJSON_Parse` is `parse_value`. -/
theorem CJsonItem.parse_behind {bom before text rest : CString} (hbom : IsBom bom)
    (hbefore : IsWhite before) {c : UInt8} {tail : CString} (htext : text = c :: tail)
    (hstart : IsValueStart c) (hnul : ∀ d ∈ bom ++ (before ++ (text ++ rest)), d ≠ 0) :
    CJsonItem.parse (bom ++ (before ++ (text ++ rest))) =
      (parseValue nestingLimit (text ++ (rest ++ [0]))).map Prod.fst := by
  have hbegin : skipUtf8Bom (bom ++ (before ++ (text ++ (rest ++ [0])))) =
      before ++ (text ++ (rest ++ [0])) := by
    refine skipUtf8Bom_append hbom ?_ (by rw [htext]; simp; omega)
    intro d hd
    cases before with
    | nil =>
        rw [htext] at hd
        rw [← Option.some.inj hd]
        exact hstart.ascii.2.1
    | cons e before =>
        rw [← Option.some.inj hd]
        have := hbefore e List.mem_cons_self
        omega
  rw [CJsonItem.parse_eq, untilNul_eq_self hnul]
  simp only [List.append_assoc]
  rw [hbegin, htext, List.cons_append, skipWhitespace_append hbefore hstart.ascii.1]

/-- A NUL behind a text that ends a number ends it too. -/
theorem EndsNumber.append_nul {rest : CString} (h : EndsNumber rest) : EndsNumber (rest ++ [0]) := by
  cases rest with
  | nil =>
      intro c hc
      rw [← Option.some.inj hc]
      rfl
  | cons d rest => exact h

/-- **Every document of the grammar is read**, whatever is behind its value. Only a number must not go
on behind the value. -/
theorem parse_of_isDocument {value rest : CString} {item : CJsonItem}
    (h : IsDocument value item rest) (hrest : ∀ d, item = .number d → EndsNumber rest) :
    CJsonItem.parse value = some item := by
  obtain ⟨bom, before, text, hbom, hbefore, htext, rfl⟩ := h.splits
  obtain ⟨c, tail, hcons, hstart⟩ := htext.starts
  rw [CJsonItem.parse_behind hbom hbefore hcons hstart h.noNul,
    parseValue_append nestingLimit htext fun d hd => (hrest d hd).append_nul, Option.map_some]

/-- The double 12. -/
def twelve : FiniteDouble := .ofNat 12 49 (by decide) (by decide) (by decide)

/-- An object with the member `a"`, an array of the number 12 and of the string `é`. -/
def nestedItem : CJsonItem :=
  .object [(ofAscii "a\"", .array [.number (.finite twelve), .string [0xC3, 0xA9]])]

/-- The text of such an object. -/
def nestedText : CString := ofAscii "\x7b \"a\\\"\": [12, \"\\u00E9\"]\x7d"

theorem isValue_nestedText : IsValue nestingLimit nestedText nestedItem := by
  have hnil : IsWhite [] := isWhite_nil
  have hspace : IsWhite [32] := by
    intro c hc
    rw [List.mem_singleton.mp hc]
    decide
  have hname : IsStringBody [97, 92, 34] [97, 34] :=
    .cons (.plain (by decide) (by decide)) (.cons (.short (rfl : shortEscape 34 = some 34)) .nil)
  have hdigits : IsHex4 [48, 48, 69, 57] 'é'.toNat := isHex4_iff.mpr ⟨rfl, rfl⟩
  have hletter : IsStringBody [92, 117, 48, 48, 69, 57] [0xC3, 0xA9] :=
    .cons (.unicode (.unit hdigits)) .nil
  have hnumeral : IsNumeral [49, 50] ⟨false, [1, 2], 0⟩ :=
    .intro .none (by decide : ∀ d ∈ [1, 2], d < 10) .none .none (List.cons_ne_nil _ _)
  have hmagnitude : (⟨false, [1, 2], 0⟩ : DecimalNumeral).magnitude = twelve.magnitude := by
    rw [twelve, FiniteDouble.magnitude_ofNat]
    norm_num [DecimalNumeral.magnitude, CString.magnitude, Nat.ofDigits]
  have hnumber : IsScalar [49, 50] (.number (.finite twelve)) := by
    rw [← CDouble.ofMagnitude_magnitude twelve, ← hmagnitude]
    exact .number hnumeral (by decide) (by simp)
  have hstring : IsScalar (34 :: ([92, 117, 48, 48, 69, 57] ++ [34])) (.string [0xC3, 0xA9]) :=
    .string hletter
  have helements : IsSequence (IsValue 998)
      ([49, 50] ++ ([] ++ 44 :: ([32] ++ (34 :: ([92, 117, 48, 48, 69, 57] ++ [34]) ++ []))))
      [.number (.finite twelve), .string [0xC3, 0xA9]] :=
    .more hnil (hnumber.isValue 998) hnil (.last hspace (hstring.isValue 998) hnil)
  have harray : IsValue 999 _ _ := .inr (.inl (.full helements))
  have hmember := IsMember.intro hname hnil hspace harray
  exact .inr (.inr (.full (.last hspace hmember hnil)))

/-- Such an object behind a space, and a digit behind it. -/
theorem parse_of_isDocument_nested :
    CJsonItem.parse ([32] ++ (nestedText ++ [53])) = some nestedItem := by
  have hwhite : IsWhite [32] := by
    intro c hc
    rw [List.mem_singleton.mp hc]
    decide
  have hdocument : IsDocument ([32] ++ (nestedText ++ [53])) nestedItem [53] :=
    ⟨⟨[], [32], nestedText, .inl rfl, hwhite, isValue_nestedText, rfl⟩, fun c hc hzero =>
      (by decide : (0 : UInt8) ∉ [32] ++ (nestedText ++ [53])) (hzero ▸ hc)⟩
  exact parse_of_isDocument hdocument fun d hd => nomatch hd

/-- A value of the grammar does not end with a NUL. -/
theorem IsValue.ends {levels : ℕ} {text : CString} {item : CJsonItem} (h : IsValue levels text item) :
    ∃ front c, text = front ++ [c] ∧ c ≠ 0 := by
  have hscalar : IsScalar text item → ∃ front c, text = front ++ [c] ∧ c ≠ 0 := by
    intro h
    cases h with
    | null => exact ⟨ofAscii "nul", 108, rfl, by decide⟩
    | bool value =>
        cases value with
        | true => exact ⟨ofAscii "tru", 101, rfl, by decide⟩
        | false => exact ⟨ofAscii "fals", 101, rfl, by decide⟩
    | number hnumeral hlen hfirst =>
        obtain ⟨hne, hbytes⟩ := hnumeral.isNumeralByte
        -- the last byte of a numeral is one of its own
        refine ⟨text.dropLast, text.getLast hne, (List.dropLast_append_getLast hne).symm, ?_⟩
        intro hzero
        have hlast := hbytes _ (List.getLast_mem hne)
        rw [hzero] at hlast
        exact absurd hlast (by simp [IsNumeralByte])
    | @string body decoded h => exact ⟨34 :: body, 34, rfl, by decide⟩
  cases levels with
  | zero => exact hscalar h
  | succ levels =>
      rcases h with h | h | h
      · exact hscalar h
      · cases h with
        | @empty white hwhite => exact ⟨91 :: white, 93, rfl, by decide⟩
        | @full body as h => exact ⟨91 :: body, 93, rfl, by decide⟩
      · cases h with
        | @empty white hwhite => exact ⟨123 :: white, 125, rfl, by decide⟩
        | @full body as h => exact ⟨123 :: body, 125, rfl, by decide⟩

/-- A malformed escape is not at the NUL behind the text. -/
theorem HasMalformedEscape.of_append_nul {text : CString} (h : HasMalformedEscape (text ++ [0])) :
    HasMalformedEscape text := by
  obtain ⟨before, behind, htext, hhex⟩ := h
  cases hbehind : behind.reverse with
  | nil =>
      -- the NUL would be the `u` of the escape
      rw [List.reverse_eq_nil_iff.mp hbehind] at htext
      have hlast := congrArg List.getLast? htext
      simp at hlast
  | cons c front =>
      have hsplit : behind = front.reverse ++ [c] := by
        rw [← List.reverse_reverse behind, hbehind, List.reverse_cons]
      rw [hsplit] at htext hhex
      have hwhole : text ++ [0] = before ++ 92 :: 117 :: front.reverse ++ [c] := by
        rw [htext]
        simp
      have hleft := (List.append_inj' hwhole rfl).1
      refine ⟨before, front.reverse, hleft, ?_⟩
      cases hloop : hexLoop 4 0 front.reverse with
      | none => rfl
      | some n =>
          rw [hexLoop_append_some hloop] at hhex
          cases hhex

/-- **What is read is a document of the grammar**, unless it has a malformed `\u` escape. -/
theorem isDocument_of_parse {value : CString} {item : CJsonItem} (hnul : ∀ c ∈ value, c ≠ 0)
    (h : CJsonItem.parse value = some item) :
    (∃ rest, IsDocument value item rest) ∨ HasMalformedEscape value := by
  rw [CJsonItem.parse_eq, untilNul_eq_self hnul] at h
  obtain ⟨⟨read, behind⟩, hvalue, heq⟩ := Option.map_eq_some_iff.mp h
  obtain rfl : read = item := heq
  obtain ⟨bom, hbom, hskip⟩ := bom_of_skipUtf8Bom (value ++ [0])
  rcases isValue_of_parseValue nestingLimit hvalue with ⟨text, htext, hinput⟩ | hmalformed
  · obtain ⟨c, tail, hcons, hstart⟩ := htext.starts
    rcases white_of_skipWhitespace (skipUtf8Bom (value ++ [0])) with hend |
      ⟨before, d, more, hbefore, hd, hskip', hbegin⟩
    · rw [hend, hcons] at hinput
      have hzero := (List.cons.inj hinput).1
      have hlow := hstart.ascii.1
      rw [← hzero] at hlow
      exact absurd hlow (by decide)
    have hwhole : value ++ [0] = bom ++ (before ++ (text ++ behind)) := by
      rw [← hinput, hskip', ← hbegin]
      exact hskip
    -- the NUL at the end is behind the value
    cases hbehind : behind.reverse with
    | nil =>
        obtain ⟨front, c, htail, hc⟩ := htext.ends
        rw [List.reverse_eq_nil_iff.mp hbehind, htail, List.append_nil, ← List.append_assoc,
          ← List.append_assoc] at hwhole
        have hlast := (List.append_inj' hwhole rfl).2
        exact absurd (List.cons.inj hlast).1.symm hc
    | cons e rest =>
        have hsplit : behind = rest.reverse ++ [e] := by
          rw [← List.reverse_reverse behind, hbehind, List.reverse_cons]
        rw [hsplit, ← List.append_assoc, ← List.append_assoc, ← List.append_assoc] at hwhole
        have hleft := (List.append_inj' hwhole rfl).1
        refine Or.inl ⟨rest.reverse, ⟨bom, before, text, hbom, hbefore, htext, ?_⟩, hnul⟩
        rw [hleft]
        simp only [List.append_assoc]
  · refine Or.inr (HasMalformedEscape.of_append_nul ?_)
    rw [hskip]
    exact (malformed_of_skipWhitespace hmalformed).append_left bom

theorem parse_nestedText : CJsonItem.parse (nestedText ++ [53]) = some nestedItem := by
  have hnul : ∀ c ∈ nestedText ++ [53], c ≠ 0 := fun c hc hzero =>
    (by decide : (0 : UInt8) ∉ nestedText ++ [53]) (hzero ▸ hc)
  obtain ⟨c, tail, hcons, hstart⟩ := isValue_nestedText.starts
  have hbehind := CJsonItem.parse_behind (Or.inl rfl) isWhite_nil hcons hstart hnul
  rw [List.nil_append, List.nil_append] at hbehind
  rw [hbehind, parseValue_append nestingLimit isValue_nestedText fun d hd => nomatch hd]
  rfl

/-- What is read of the text of an object with a digit behind it. -/
theorem isDocument_of_parse_nested : ∃ rest, IsDocument (nestedText ++ [53]) nestedItem rest := by
  have hnul : ∀ c ∈ nestedText ++ [53], c ≠ 0 := fun c hc hzero =>
    (by decide : (0 : UInt8) ∉ nestedText ++ [53]) (hzero ▸ hc)
  rcases isDocument_of_parse hnul parse_nestedText with h | ⟨before, behind, htext, hhex⟩
  · exact h
  · -- its only escape has four digits
    have hescapes : ∀ k ≤ 25, ((nestedText ++ [53]).drop k).take 2 = [92, 117] →
        hexLoop 4 0 ((nestedText ++ [53]).drop (k + 2)) ≠ none := by decide
    have hlength : before.length ≤ 25 := by
      have htotal := congrArg List.length htext
      have htext' : (nestedText ++ [53]).length = 25 := by decide
      rw [htext', List.length_append] at htotal
      omega
    refine absurd hhex ?_
    have hdrop := hescapes before.length hlength
    rw [htext, ← List.drop_drop, List.drop_left] at hdrop
    exact hdrop rfl

/-! ## Items and their texts -/

/-- What is read from an item's text is nested as deeply as the item. -/
theorem CJsonItem.nesting_reread (item : CJsonItem) : item.reread.nesting = item.nesting := by
  induction item using CJsonItem.induct with
  | null => rfl
  | bool value => rfl
  | number d =>
      cases d with
      | infinite s => rfl
      | finite d => rfl
  | string s => rfl
  | array elements ih =>
      rw [CJsonItem.reread, CJsonItem.nesting, CJsonItem.nesting, CJsonItem.rereadElements_eq]
      congr 1
      refine eq_of_forall_ge_iff fun n => ?_
      rw [CJsonItem.nestingOfElements_le, CJsonItem.nestingOfElements_le, List.forall_mem_map]
      exact forall₂_congr fun e he => by rw [ih e he]
  | object members ih =>
      rw [CJsonItem.reread, CJsonItem.nesting, CJsonItem.nesting, CJsonItem.rereadMembers_eq]
      congr 1
      refine eq_of_forall_ge_iff fun n => ?_
      rw [CJsonItem.nestingOfMembers_le, CJsonItem.nestingOfMembers_le, List.forall_mem_map]
      exact forall₂_congr fun m hm => by rw [CJsonItem.rereadMember, ih m hm]

/-- **The text of an item is read back as the item** when it is nested at most 1000 deep, and else
it is refused. -/
theorem parse_text (format : Bool) (item : CJsonItem) {rest : CString} (hnul : ∀ c ∈ rest, c ≠ 0)
    (hrest : EndsNumber rest) :
    CJsonItem.parse (item.text format 0 ++ rest) =
      if item.nesting ≤ nestingLimit then some item.reread else none := by
  have hwhole : ∀ c ∈ item.text format 0 ++ rest, c ≠ 0 :=
    List.forall_mem_append.mpr ⟨ne_zero_of_mem_text format item 0, hnul⟩
  have hvalue := isValue_text format item (le_refl item.nesting) 0
  obtain ⟨c, tail, hcons, hstart⟩ := hvalue.starts
  have hparse := CJsonItem.parse_behind (Or.inl rfl) isWhite_nil hcons hstart hwhole
  rw [List.nil_append, List.nil_append] at hparse
  rw [hparse]
  have hread := parseValue_of_isValue item.nesting hvalue hrest.append_nul
  split
  · rename_i hle
    rw [parseValue_mono hle hread, Option.map_some]
  · rename_i hdeep
    cases hlimit : parseValue nestingLimit (item.text format 0 ++ (rest ++ [0])) with
    | none => rfl
    | some parsed =>
        -- with more levels, the same would be read, and it is nested too deeply
        have hmore := parseValue_mono (not_le.mp hdeep).le hlimit
        rw [hread] at hmore
        rw [← Option.some.inj hmore] at hlimit
        have hle : item.reread.nesting ≤ nestingLimit := nesting_of_parseValue nestingLimit hlimit
        rw [CJsonItem.nesting_reread] at hle
        exact absurd hle hdeep

/-- The text alone is read back as well. -/
theorem parse_text_alone (format : Bool) {item : CJsonItem} (hle : item.nesting ≤ nestingLimit) :
    CJsonItem.parse (item.text format 0) = some item.reread := by
  have hnul : ∀ c ∈ ([] : CString), c ≠ 0 := fun c hc => absurd hc List.not_mem_nil
  have hend : EndsNumber [] := fun c hc => absurd hc (by simp)
  have htext := parse_text format item hnul hend
  rwa [List.append_nil, if_pos hle] at htext

/-- What the parser builds without infinities is what is read from its text. -/
theorem reread_of_parseValue (levels : ℕ) :
    Ensures (parseValue levels)
      (fun item => ∀ json, item.toCJson = some json → item.reread = item) := by
  have hleaf : ∀ {item : CJsonItem}, IsLeaf item → ∀ json, item.toCJson = some json →
      item.reread = item := by
    intro item h json hjson
    cases h with
    | null => rfl
    | bool value => rfl
    | number d =>
        cases d with
        | infinite s => cases hjson
        | finite d => rfl
    | string s => rw [CJsonItem.reread, untilNul_untilNul]
  induction levels with
  | zero =>
      intro input item rest h
      rcases parseValueWith_cases h with h | h | h
      · exact hleaf h
      · cases h
      · cases h
  | succ levels ih =>
      intro input item rest h json hjson
      rcases parseValueWith_cases h with h | h | h
      · exact hleaf h json hjson
      · obtain ⟨elements, rfl, helements⟩ := parseContainer_ensures ih h
        rw [CJsonItem.toCJson] at hjson
        obtain ⟨jsons, hjsons, -⟩ := Option.map_eq_some_iff.mp hjson
        have hmap : elements.map CJsonItem.reread = elements.map id := by
          refine List.map_congr_left fun e he => ?_
          obtain ⟨json', -, hjson'⟩ :=
            exists_right_of_forall₂ (CJsonItem.elementsToCJson_eq_some hjsons) he
          exact helements e he json' hjson'
        rw [CJsonItem.reread, CJsonItem.rereadElements_eq, hmap, List.map_id]
      · obtain ⟨members, rfl, hmembers⟩ := parseContainer_ensures
          (parseMember_ensures (P := fun item => ∀ json, item.toCJson = some json → item.reread = item)
            ih) h
        rw [CJsonItem.toCJson] at hjson
        obtain ⟨jsons, hjsons, -⟩ := Option.map_eq_some_iff.mp hjson
        have hmap : members.map CJsonItem.rereadMember = members.map id := by
          refine List.map_congr_left fun m hm => ?_
          obtain ⟨json', -, -, hjson'⟩ :=
            exists_right_of_forall₂ (CJsonItem.membersToCJson_eq_some hjsons) hm
          obtain ⟨hname, hvalue⟩ := hmembers m hm
          rw [CJsonItem.rereadMember, hname, hvalue json'.2 hjson']
          rfl
        rw [CJsonItem.reread, CJsonItem.rereadMembers_eq, hmap, List.map_id]

/-- What the parser has built is what is read from its text, unless it has an infinity. -/
theorem parse_text_of_parse {value : CString} {item : CJsonItem} {json : CJson}
    (h : CJsonItem.parse value = some item) (hjson : item.toCJson = some json) (format : Bool) :
    CJsonItem.parse (item.text format 0) = some item := by
  rw [CJsonItem.parse_eq] at h
  obtain ⟨⟨read, behind⟩, hvalue, heq⟩ := Option.map_eq_some_iff.mp h
  obtain rfl : read = item := heq
  rw [parse_text_alone format (nesting_of_parseValue nestingLimit hvalue),
    reread_of_parseValue nestingLimit hvalue json hjson]

end OcgeoFdw
