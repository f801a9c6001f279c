import OcgeoFdw.Options.Validator

/-! # Validated options and the options used

The validator reads a request limit with `strtol` and automatic base, `ocgeoGetOptions` reads it
with `atoi`. This file compares the two over all accepted option lists: the texts of `uri` and
`api_key` always arrive, a limit arrives as validated exactly when its numeral means the same in
base ten and fits an `int`. -/

namespace OcgeoFdw

open CString

/-! ## The lists a catalog accepts -/

section Accepted

variable {options : List DefElem}

/-- A server list consists of `uri` options. -/
theorem defname_of_server (h : ocgeoFdwValidator options foreignServerRelationId = .ok ()) :
    ∀ d ∈ options, d.defname = uriOption := by
  intro d hd
  obtain ⟨o, ho, hcontext, hname⟩ := (OptionAccepted.of_validator h d hd).mem_validOptions
  simp only [validOptions, List.mem_cons, List.not_mem_nil, or_false] at ho
  rcases ho with rfl | rfl | rfl | rfl
  · exact hname.symm
  all_goals exact absurd hcontext (by decide)

/-- A user-mapping list consists of `api_key`, `max_reqs_sec` and `max_reqs_day` options. -/
theorem defname_of_mapping (h : ocgeoFdwValidator options userMappingRelationId = .ok ()) :
    ∀ d ∈ options, d.defname = apiKeyOption ∨ d.defname = maxReqsSecOption ∨
      d.defname = maxReqsDayOption := by
  intro d hd
  obtain ⟨o, ho, hcontext, hname⟩ := (OptionAccepted.of_validator h d hd).mem_validOptions
  simp only [validOptions, List.mem_cons, List.not_mem_nil, or_false] at ho
  rcases ho with rfl | rfl | rfl | rfl
  · exact absurd hcontext (by decide)
  · exact Or.inl hname.symm
  · exact Or.inr (Or.inl hname.symm)
  · exact Or.inr (Or.inr hname.symm)

/-- A foreign table takes no options. -/
theorem eq_nil_of_table (h : ocgeoFdwValidator options foreignTableRelationId = .ok ()) :
    options = [] := by
  apply List.eq_nil_iff_forall_not_mem.mpr
  intro d hd
  obtain ⟨o, ho, hcontext, -⟩ := (OptionAccepted.of_validator h d hd).mem_validOptions
  simp only [validOptions, List.mem_cons, List.not_mem_nil, or_false] at ho
  -- none of the four options belongs to a foreign table
  rcases ho with rfl | rfl | rfl | rfl <;> exact absurd hcontext (by decide)

/-- An option that occurs has a last value. -/
theorem exists_lastValue {name : CString} (h : ∃ d ∈ options, d.defname = name) :
    ∃ text, lastValue name options = some text := by
  induction options with
  | nil => simp at h
  | cons d options ih =>
      rw [lastValue]
      -- a later occurrence overwrites this one
      by_cases hrest : ∃ e ∈ options, e.defname = name
      · obtain ⟨text, htext⟩ := ih hrest
        exact ⟨text, by rw [htext]; rfl⟩
      · obtain ⟨e, he, hname⟩ := h
        rcases List.mem_cons.mp he with rfl | he
        · rw [lastValue_eq_none fun e he hname => hrest ⟨e, he, hname⟩, if_pos hname]
          exact ⟨e.arg, rfl⟩
        · exact absurd ⟨e, he, hname⟩ hrest

/-- The text of a limit in an accepted list is a number. -/
theorem number_of_lastValue {name text : CString}
    (h : ocgeoFdwValidator options userMappingRelationId = .ok ())
    (hname : name = maxReqsSecOption ∨ name = maxReqsDayOption)
    (htext : lastValue name options = some text) : text ≠ [] ∧ (strtol text 0).2 = [] :=
  (OptionAccepted.of_validator h ⟨name, text⟩ (exists_mem_of_lastValue htext)).number hname

end Accepted

/-! ## Reading validated lists -/

section Reading

variable {server_id user_id : Oid} {table server mapping : List DefElem}

/-- Over accepted lists, `ocgeoGetOptions` takes `uri` from the server and everything else from the
user mapping. -/
theorem ocgeoGetOptions_eq (htable : ocgeoFdwValidator table foreignTableRelationId = .ok ())
    (hserver : ocgeoFdwValidator server foreignServerRelationId = .ok ())
    (hmapping : ocgeoFdwValidator mapping userMappingRelationId = .ok ()) :
    ocgeoGetOptions server_id user_id table server mapping =
      { server_id := server_id
        user_id := user_id
        uri := lastValue uriOption server
        api_key := lastValue apiKeyOption mapping
        max_reqs_sec := ((lastValue maxReqsSecOption mapping).map atoi).getD 1
        max_reqs_day := ((lastValue maxReqsDayOption mapping).map atoi).getD 2500 } := by
  have hnoServer : ∀ name, name ≠ uriOption → lastValue name server = none := fun name hne =>
    lastValue_eq_none fun d hd hname => hne (hname.symm.trans (defname_of_server hserver d hd))
  have hnoUri : lastValue uriOption mapping = none := lastValue_eq_none fun d hd hname => by
    have := defname_of_mapping hmapping d hd
    rw [hname] at this
    exact absurd this (by decide)
  rw [ocgeoGetOptions, foldl_readOption, eq_nil_of_table htable, List.nil_append]
  simp only [lastValue_append, hnoUri, hnoServer apiKeyOption (by decide),
    hnoServer maxReqsSecOption (by decide), hnoServer maxReqsDayOption (by decide),
    Option.none_or, Option.or_none, defaultOptions]

/-- The integer the validator parsed for a limit, or its default when the option is absent. -/
def validatedLimit (name : CString) (default : ℤ) (mapping : List DefElem) : ℤ :=
  ((lastValue name mapping).map fun text => (strtol text 0).1).getD default

/-- The options used are the options given: the texts of `uri` and `api_key`, and the limits as the
validator parsed them. -/
structure UsesValidatedOptions (server mapping : List DefElem)
    (table_options : OcgeoTableOptions) : Prop where
  uri : ∃ text, lastValue uriOption server = some text ∧ table_options.uri = some text
  api_key : ∃ text, lastValue apiKeyOption mapping = some text ∧ table_options.api_key = some text
  max_reqs_sec : table_options.max_reqs_sec = validatedLimit maxReqsSecOption 1 mapping
  max_reqs_day : table_options.max_reqs_day = validatedLimit maxReqsDayOption 2500 mapping

/-- A limit arrives as validated exactly when its numeral, if given, is the same in base ten. -/
theorem getD_atoi_eq_validatedLimit_iff {name : CString} {d : ℤ}
    (hmapping : ocgeoFdwValidator mapping userMappingRelationId = .ok ())
    (hname : name = maxReqsSecOption ∨ name = maxReqsDayOption) :
    ((lastValue name mapping).map atoi).getD d = validatedLimit name d mapping ↔
      ∀ text, lastValue name mapping = some text → (readNumeral 0 text).1.SameInBaseTen := by
  rw [validatedLimit]
  cases hlast : lastValue name mapping with
  | none => simp
  | some text =>
      obtain ⟨hne, hwhole⟩ := number_of_lastValue hmapping hname hlast
      simp [atoi_eq_strtol_iff hne hwhole]

/-- **Validated options are used exactly when the limits are plain decimal `int`s**, up to octal
numerals of one significant digit and hexadecimal zeros. -/
theorem usesValidatedOptions_iff
    (htable : ocgeoFdwValidator table foreignTableRelationId = .ok ())
    (hserver : ocgeoFdwValidator server foreignServerRelationId = .ok ())
    (hmapping : ocgeoFdwValidator mapping userMappingRelationId = .ok ()) :
    UsesValidatedOptions server mapping
        (ocgeoGetOptions server_id user_id table server mapping) ↔
      ∀ name text, name = maxReqsSecOption ∨ name = maxReqsDayOption →
        lastValue name mapping = some text → (readNumeral 0 text).1.SameInBaseTen := by
  rw [ocgeoGetOptions_eq htable hserver hmapping]
  -- the two required options occur in the accepted lists
  obtain ⟨uri, huri⟩ := exists_lastValue
    (exists_mem_of_required hserver (i := 0) (o := ⟨uriOption, foreignServerRelationId, true⟩) rfl
      rfl rfl)
  obtain ⟨key, hkey⟩ := exists_lastValue
    (exists_mem_of_required hmapping (i := 1) (o := ⟨apiKeyOption, userMappingRelationId, true⟩)
      rfl rfl rfl)
  have hsec := getD_atoi_eq_validatedLimit_iff (d := 1) hmapping (Or.inl rfl)
  have hday := getD_atoi_eq_validatedLimit_iff (d := 2500) hmapping (Or.inr rfl)
  constructor
  · rintro ⟨-, -, hs, hd⟩ name text (rfl | rfl) htext
    · exact hsec.mp hs text htext
    · exact hday.mp hd text htext
  · intro h
    exact ⟨⟨uri, huri, huri⟩, ⟨key, hkey, hkey⟩,
      hsec.mpr fun text => h maxReqsSecOption text (Or.inl rfl),
      hday.mpr fun text => h maxReqsDayOption text (Or.inr rfl)⟩

/-- `max_reqs_sec '25'` is used as validated, for any server and key. -/
theorem usesValidatedOptions_decimal :
    UsesValidatedOptions [⟨uriOption, ofAscii "u"⟩]
      [⟨apiKeyOption, ofAscii "k"⟩, ⟨maxReqsSecOption, ofAscii "25"⟩]
      (ocgeoGetOptions 1 2 [] [⟨uriOption, ofAscii "u"⟩]
        [⟨apiKeyOption, ofAscii "k"⟩, ⟨maxReqsSecOption, ofAscii "25"⟩]) := by
  refine (usesValidatedOptions_iff (by decide) (by decide) (by decide)).mpr ?_
  rintro name text (rfl | rfl) htext
  · obtain rfl : ofAscii "25" = text := by
      rw [← Option.some.injEq, ← htext]
      decide
    decide
  · have hnone : lastValue maxReqsDayOption
        [⟨apiKeyOption, ofAscii "k"⟩, ⟨maxReqsSecOption, ofAscii "25"⟩] = none := by decide
    rw [hnone] at htext
    cases htext

/-- The accepted text `0x10` is 16 to the validator and 0 to the reader, while `16`, which the
validator parses to the same integer, is 16 to both. -/
theorem usesValidatedOptions_fails_hexadecimal :
    ocgeoFdwValidator [⟨uriOption, ofAscii "u"⟩] foreignServerRelationId = .ok () ∧
      ocgeoFdwValidator [⟨apiKeyOption, ofAscii "k"⟩, ⟨maxReqsSecOption, ofAscii "0x10"⟩]
        userMappingRelationId = .ok () ∧
      ocgeoFdwValidator [⟨apiKeyOption, ofAscii "k"⟩, ⟨maxReqsSecOption, ofAscii "16"⟩]
        userMappingRelationId = .ok () ∧
      strtol (ofAscii "0x10") 0 = strtol (ofAscii "16") 0 ∧
      (ocgeoGetOptions 1 2 [] [⟨uriOption, ofAscii "u"⟩]
        [⟨apiKeyOption, ofAscii "k"⟩, ⟨maxReqsSecOption, ofAscii "16"⟩]).max_reqs_sec = 16 ∧
      (ocgeoGetOptions 1 2 [] [⟨uriOption, ofAscii "u"⟩]
        [⟨apiKeyOption, ofAscii "k"⟩, ⟨maxReqsSecOption, ofAscii "0x10"⟩]).max_reqs_sec = 0 ∧
      ¬ UsesValidatedOptions [⟨uriOption, ofAscii "u"⟩]
        [⟨apiKeyOption, ofAscii "k"⟩, ⟨maxReqsSecOption, ofAscii "0x10"⟩]
        (ocgeoGetOptions 1 2 [] [⟨uriOption, ofAscii "u"⟩]
          [⟨apiKeyOption, ofAscii "k"⟩, ⟨maxReqsSecOption, ofAscii "0x10"⟩]) := by
  refine ⟨by decide, by decide, by decide, by decide, by decide, by decide, fun h => ?_⟩
  exact absurd h.max_reqs_sec (by decide)

end Reading

end OcgeoFdw
