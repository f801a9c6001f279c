import OcgeoFdw.Api.JsonParser

/-! # The limit on nesting

What `parse_value` builds is never nested more deeply than it may recurse, and a higher limit only
makes it read more. Both hold for every text, well formed or not. -/

namespace OcgeoFdw

open CString

/-! ## What every element of a sequence has -/

section Readers

variable {α : Type} {parse_one parse_more : CString → Option (α × CString)} {P : α → Prop}
  {start close : UInt8} {build : List α → CJsonItem}

/-- What a parser reads has a property. -/
def Ensures (parse_one : CString → Option (α × CString)) (P : α → Prop) : Prop :=
  ∀ ⦃input a rest⦄, parse_one input = some (a, rest) → P a

/-- What a parser reads, another reads in the same way. -/
def ReadsLess (parse_one parse_more : CString → Option (α × CString)) : Prop :=
  ∀ ⦃input read⦄, parse_one input = some read → parse_more input = some read

/-- The elements of a sequence have what `parse_one` ensures. -/
theorem parseSequence_ensures (hone : Ensures parse_one P) {n : ℕ} {input rest : CString}
    {as : List α} (h : parseSequence parse_one close n input = some (as, rest)) :
    ∀ a ∈ as, P a := by
  induction n generalizing input as with
  | zero => cases h
  | succ n ih =>
      obtain ⟨a, behind, c, left, hread, -, ⟨-, bs, rfl, hseq⟩ | ⟨-, -, rfl, -⟩⟩ :=
        parseSequence_succ_eq_some_iff.mp h
      · exact List.forall_mem_cons.mpr ⟨hone hread, ih hseq⟩
      · exact List.forall_mem_singleton.mpr (hone hread)

/-- A sequence is read in the same way when its elements are. -/
theorem parseSequence_readsLess (hone : ReadsLess parse_one parse_more) (n : ℕ) :
    ReadsLess (parseSequence parse_one close n) (parseSequence parse_more close n) := by
  induction n with
  | zero =>
      intro input read h
      cases h
  | succ n ih =>
      rintro input ⟨as, rest⟩ h
      obtain ⟨a, behind, c, left, hread, hskip, hcases⟩ := parseSequence_succ_eq_some_iff.mp h
      refine parseSequence_succ_eq_some_iff.mpr ⟨a, behind, c, left, hone hread, hskip, ?_⟩
      exact hcases.imp_left fun ⟨hcomma, bs, has, hseq⟩ => ⟨hcomma, bs, has, ih hseq⟩

/-- An array or object has the elements of its sequence, all with what `parse_one` ensures. -/
theorem parseContainer_ensures (hone : Ensures parse_one P) :
    Ensures (parseContainer start close parse_one build)
      (fun item => ∃ as, item = build as ∧ ∀ a ∈ as, P a) := by
  intro input item rest h
  obtain ⟨inside, d, behind, -, -, ⟨-, rfl, -⟩ | ⟨-, as, rfl, hseq⟩⟩ :=
    parseContainer_eq_some_iff.mp h
  · exact ⟨[], rfl, fun a ha => absurd ha List.not_mem_nil⟩
  · exact ⟨as, rfl, parseSequence_ensures hone hseq⟩

/-- An array or object is read in the same way when its elements are. -/
theorem parseContainer_readsLess (hone : ReadsLess parse_one parse_more) :
    ReadsLess (parseContainer start close parse_one build)
      (parseContainer start close parse_more build) := by
  rintro input ⟨item, rest⟩ h
  obtain ⟨inside, d, behind, hinput, hskip, hcases⟩ := parseContainer_eq_some_iff.mp h
  refine parseContainer_eq_some_iff.mpr ⟨inside, d, behind, hinput, hskip, ?_⟩
  exact hcases.imp_right fun ⟨hclosed, as, hitem, hseq⟩ =>
    ⟨hclosed, as, hitem, parseSequence_readsLess hone _ hseq⟩

end Readers

/-! ## Values -/

/-- An item without children that the parser can build: its string has no NUL. -/
inductive IsLeaf : CJsonItem → Prop
  | null : IsLeaf .null
  | bool (value : Bool) : IsLeaf (.bool value)
  | number (valuedouble : CDouble) : IsLeaf (.number valuedouble)
  | string (valuestring : CString) : IsLeaf (.string (untilNul valuestring))

/-- A leaf has no nesting. -/
theorem IsLeaf.nesting {item : CJsonItem} (h : IsLeaf item) : item.nesting = 0 := by
  cases h with
  | null => rfl
  | bool value => rfl
  | number valuedouble => rfl
  | string valuestring => rfl

section Values

variable {parse_value parse_more : CString → Option (CJsonItem × CString)}
  {parse_array parse_object more_array more_object : CString → Option (CJsonItem × CString)}

/-- The value of a member has what `parse_value` ensures, and its name has no NUL. -/
theorem parseMember_ensures {P : CJsonItem → Prop} (hvalue : Ensures parse_value P) :
    Ensures (parseMember parse_value)
      (fun member => untilNul member.1 = member.1 ∧ P member.2) := by
  intro input member rest h
  obtain ⟨behind, left, hname, -, hread⟩ := parseMember_eq_some_iff.mp h
  exact ⟨untilNul_of_parseString hname, hvalue hread⟩

/-- A member is read in the same way when its value is. -/
theorem parseMember_readsLess (hvalue : ReadsLess parse_value parse_more) :
    ReadsLess (parseMember parse_value) (parseMember parse_more) := by
  rintro input ⟨member, rest⟩ h
  obtain ⟨behind, left, hname, hskip, hread⟩ := parseMember_eq_some_iff.mp h
  exact parseMember_eq_some_iff.mpr ⟨behind, left, hname, hskip, hvalue hread⟩

/-- What is read is a leaf, or it is read as an array or an object. -/
theorem parseValueWith_cases {input rest : CString} {item : CJsonItem}
    (h : parseValueWith parse_array parse_object input = some (item, rest)) :
    IsLeaf item ∨ parse_array input = some (item, rest) ∨
      parse_object input = some (item, rest) := by
  rcases parseValueWith_eq_some h with ⟨-, rfl⟩ | ⟨value, -, rfl⟩ | ⟨value, hstring, rfl⟩ |
    ⟨-, hnumber⟩ | hcontainer
  · exact .inl .null
  · exact .inl (.bool value)
  · rw [← untilNul_of_parseString hstring]
    exact .inl (.string value)
  · obtain ⟨text, n, -, -, -, rfl⟩ := isNumeral_of_parseNumber hnumber
    exact .inl (.number _)
  · exact .inr hcontainer

/-- A value is read in the same way when arrays and objects are. -/
theorem parseValueWith_readsLess (harray : ReadsLess parse_array more_array)
    (hobject : ReadsLess parse_object more_object) :
    ReadsLess (parseValueWith parse_array parse_object) (parseValueWith more_array more_object) := by
  intro input read h
  rw [parseValueWith.eq_def] at h ⊢
  split_ifs at h ⊢ with h1 h2 h3
  · exact h
  · exact h
  · exact h
  cases input with
  | nil => cases h
  | cons c input =>
      simp only at h ⊢
      split_ifs at h ⊢ with hquote hnumber hopen hopen'
      · exact h
      · exact h
      · exact harray h
      · exact hobject h

/-- **What is built is nested at most `levels` deep**, whatever the text is: the limit bounds the
recursion. -/
theorem nesting_of_parseValue (levels : ℕ) :
    Ensures (parseValue levels) (fun item => item.nesting ≤ levels) := by
  induction levels with
  | zero =>
      intro input item rest h
      rcases parseValueWith_cases h with h | h | h
      · exact h.nesting.le
      · cases h
      · cases h
  | succ levels ih =>
      intro input item rest h
      rcases parseValueWith_cases h with h | h | h
      · exact h.nesting.le.trans (Nat.zero_le _)
      · obtain ⟨elements, rfl, helements⟩ := parseContainer_ensures ih h
        rw [CJsonItem.nesting]
        exact Nat.succ_le_succ (CJsonItem.nestingOfElements_le.mpr helements)
      · obtain ⟨members, rfl, hmembers⟩ := parseContainer_ensures (parseMember_ensures ih) h
        rw [CJsonItem.nesting]
        exact Nat.succ_le_succ
          (CJsonItem.nestingOfMembers_le.mpr fun member hmember => (hmembers member hmember).2)

/-- One more level changes nothing about what is read. -/
theorem parseValue_succ (levels : ℕ) : ReadsLess (parseValue levels) (parseValue (levels + 1)) := by
  induction levels with
  | zero =>
      refine parseValueWith_readsLess ?_ ?_
      · intro input read h
        cases h
      · intro input read h
        cases h
  | succ levels ih =>
      exact parseValueWith_readsLess (parseContainer_readsLess ih)
        (parseContainer_readsLess (parseMember_readsLess ih))

/-- **A higher limit only makes the parser read more.** -/
theorem parseValue_mono {levels levels' : ℕ} (hle : levels ≤ levels') :
    ReadsLess (parseValue levels) (parseValue levels') := by
  induction hle with
  | refl => exact fun input read h => h
  | step hle ih => exact fun input read h => parseValue_succ _ (ih h)

end Values

end OcgeoFdw
