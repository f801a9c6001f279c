import OcgeoFdw.Options.Validator

/-! # The lists the validator accepts

`ocgeoFdwValidator_eq_ok_iff` says what the validator lets through: every name is an option of the
catalog, every limit is an integer in the notation of C, and the required options occur. The range
of a limit is not among it: `numVal` is unsigned, so the comparison with zero is never true, and
nothing compares it with the largest `int`. -/

namespace OcgeoFdw

open CString CInt

/-! ## Integer texts -/

/-- The text spells the integer `z` in the notation that `strtol` reads with automatic base: white
space, a sign and the digits of a numeral, with nothing behind them. The integer is not cut to a
`long`. -/
def SpellsInteger (text : CString) (z : ℤ) : Prop :=
  (readNumeral 0 text).1.digits ≠ [] ∧ (readNumeral 0 text).2 = [] ∧
    z = if (readNumeral 0 text).1.negative then
        -(magnitude (readNumeral 0 text).1.base (readNumeral 0 text).1.digits : ℤ)
      else magnitude (readNumeral 0 text).1.base (readNumeral 0 text).1.digits

/-- A text spells at most one integer. -/
theorem SpellsInteger.unique {text : CString} {y z : ℤ} (hy : SpellsInteger text y)
    (hz : SpellsInteger text z) : y = z :=
  hy.2.2.trans hz.2.2.symm

/-- The shape that the validator asks of a limit is that of an integer. -/
theorem exists_spellsInteger_iff (text : CString) :
    (∃ z, SpellsInteger text z) ↔ text ≠ [] ∧ (strtol text 0).2 = [] := by
  constructor
  · rintro ⟨z, hdigits, hrest, -⟩
    constructor
    · rintro rfl
      exact hdigits rfl
    · rw [strtol, if_neg hdigits]
      exact hrest
  · rintro ⟨hne, hwhole⟩
    obtain ⟨hdigits, hrest, -⟩ := readNumeral_of_whole hne hwhole
    exact ⟨_, hdigits, hrest, rfl⟩

/-! ## Valid lists -/

/-- The two options whose values are numbers. -/
def IsLimit (name : CString) : Prop := name = maxReqsSecOption ∨ name = maxReqsDayOption

/-- Every name is an option of the catalog. -/
def NamesKnown (catalog : Oid) (options : List DefElem) : Prop :=
  ∀ d ∈ options, ∃ o ∈ validOptions, o.optcontext = catalog ∧ o.optname = d.defname

/-- Every limit is the text of an integer. -/
def LimitsSpelled (options : List DefElem) : Prop :=
  ∀ d ∈ options, IsLimit d.defname → ∃ z, SpellsInteger d.arg z

/-- Every required option of the catalog occurs. -/
def RequiredGiven (catalog : Oid) (options : List DefElem) : Prop :=
  ∀ o ∈ validOptions, o.optcontext = catalog → o.optrequired = true →
    ∃ d ∈ options, d.defname = o.optname

/-- A limit that is an integer is neither negative nor larger than an `int`. -/
def LimitsInRange (options : List DefElem) : Prop :=
  ∀ d ∈ options, IsLimit d.defname → ∀ z, SpellsInteger d.arg z → 0 ≤ z ∧ z ≤ intMax

/-- A valid option list of a catalog. -/
structure ValidList (catalog : Oid) (options : List DefElem) : Prop where
  /-- Every name is an option of the catalog. -/
  known : NamesKnown catalog options
  /-- Every limit is the text of a non-negative integer that is an `int`. -/
  limits : ∀ d ∈ options, IsLimit d.defname →
    ∃ z, SpellsInteger d.arg z ∧ 0 ≤ z ∧ z ≤ intMax
  /-- Every required option of the catalog occurs. -/
  required : RequiredGiven catalog options

/-- Valid limits are integers in range. -/
theorem limits_iff (options : List DefElem) :
    (∀ d ∈ options, IsLimit d.defname → ∃ z, SpellsInteger d.arg z ∧ 0 ≤ z ∧ z ≤ intMax) ↔
      LimitsSpelled options ∧ LimitsInRange options := by
  constructor
  · intro h
    refine ⟨fun d hd hlimit => ?_, fun d hd hlimit z hz => ?_⟩
    · obtain ⟨z, hz, -⟩ := h d hd hlimit
      exact ⟨z, hz⟩
    · obtain ⟨y, hy, hrange⟩ := h d hd hlimit
      rw [hz.unique hy]
      exact hrange
  · rintro ⟨hspelled, hrange⟩ d hd hlimit
    obtain ⟨z, hz⟩ := hspelled d hd hlimit
    exact ⟨z, hz, hrange d hd hlimit z hz⟩

/-! ## What the validator accepts -/

/-- The search loop finds exactly the options of the catalog. -/
theorem exists_findOption_iff (catalog : Oid) (defname : CString) :
    (∃ i, findOption catalog defname = some i) ↔
      ∃ o ∈ validOptions, o.optcontext = catalog ∧ o.optname = defname := by
  constructor
  · rintro ⟨i, hi⟩
    obtain ⟨o, ho, hcontext, hname⟩ := findOption_eq_some hi
    exact ⟨o, List.mem_of_getElem? ho, hcontext, hname⟩
  · rintro ⟨o, ho, hcontext, hname⟩
    rw [← Option.isSome_iff_exists, findOption, List.findIdx?_isSome, List.any_eq_true]
    exact ⟨o, ho, by simp [hcontext, hname]⟩

/-- The options that the loop accepts one by one. -/
theorem forall_optionAccepted_iff (catalog : Oid) (options : List DefElem) :
    (∀ d ∈ options, OptionAccepted catalog d) ↔
      NamesKnown catalog options ∧ LimitsSpelled options := by
  have hiff : ∀ d : DefElem, OptionAccepted catalog d ↔
      (∃ o ∈ validOptions, o.optcontext = catalog ∧ o.optname = d.defname) ∧
        (IsLimit d.defname → ∃ z, SpellsInteger d.arg z) := by
    intro d
    rw [← exists_findOption_iff, exists_spellsInteger_iff]
    exact ⟨fun h => ⟨h.known, h.number⟩, fun h => ⟨h.1, h.2⟩⟩
  simp only [hiff]
  exact ⟨fun h => ⟨fun d hd => (h d hd).1, fun d hd => (h d hd).2⟩,
    fun h d hd => ⟨h.1 d hd, h.2 d hd⟩⟩

/-- No two valid options share a name, so the position of a name is the position that the search
loop finds. -/
theorem findOption_eq_of_getElem? {catalog : Oid} {i : ℕ} {o : OCGeoFdwOption}
    (hi : validOptions[i]? = some o) (hcontext : o.optcontext = catalog) :
    findOption catalog o.optname = some i := by
  obtain ⟨j, hj⟩ := (exists_findOption_iff catalog o.optname).mpr
    ⟨o, List.mem_of_getElem? hi, hcontext, rfl⟩
  obtain ⟨o', ho', -, hname⟩ := findOption_eq_some hj
  have hnodup : (validOptions.map OCGeoFdwOption.optname).Nodup := by decide
  have hlt : i < (validOptions.map OCGeoFdwOption.optname).length := by
    rw [List.length_map]
    exact (List.getElem?_eq_some_iff.mp hi).1
  have hij : (validOptions.map OCGeoFdwOption.optname)[i]? =
      (validOptions.map OCGeoFdwOption.optname)[j]? := by
    rw [List.getElem?_map, List.getElem?_map, hi, ho', Option.map_some, Option.map_some, hname]
  rw [hj, (List.getElem?_inj hlt hnodup).mp hij]

/-- **What the validator accepts.** -/
theorem ocgeoFdwValidator_eq_ok_iff (options : List DefElem) (catalog : Oid) :
    ocgeoFdwValidator options catalog = .ok () ↔
      NamesKnown catalog options ∧ LimitsSpelled options ∧ RequiredGiven catalog options := by
  constructor
  · intro h
    obtain ⟨hknown, hspelled⟩ :=
      (forall_optionAccepted_iff catalog options).mp (OptionAccepted.of_validator h)
    refine ⟨hknown, hspelled, fun o ho hcontext hrequired => ?_⟩
    obtain ⟨i, hi⟩ := List.mem_iff_getElem?.mp ho
    exact exists_mem_of_required h hi hcontext hrequired
  · rintro ⟨hknown, hspelled, hrequired⟩
    obtain ⟨given, hgiven⟩ := (checkOptions_ok_iff catalog
      (List.replicate validOptions.length false) options).mpr
      ((forall_optionAccepted_iff catalog options).mpr ⟨hknown, hspelled⟩)
    simp only [ocgeoFdwValidator, hgiven]
    rw [checkRequired_eq_ok_iff]
    intro p hp hcontext hreq
    -- the option of the list that is required here has marked its position
    obtain ⟨i, hi⟩ := List.mem_iff_getElem?.mp hp
    obtain ⟨hoption, hmark⟩ := List.getElem?_zip_eq_some.mp hi
    obtain ⟨d, hd, hname⟩ := hrequired p.1 (List.mem_of_getElem? hoption) hcontext hreq
    have hmarked : given[i]? = some true := by
      rw [checkOptions_getElem? hgiven i, List.length_replicate]
      refine .inr ⟨(List.getElem?_eq_some_iff.mp hoption).1, d, hd, ?_⟩
      rw [hname]
      exact findOption_eq_of_getElem? hoption hcontext
    exact Option.some.inj (hmark.symm.trans hmarked)

/-- The validator returns normally on the valid lists and raises an error on the others. -/
def AcceptsExactlyValid (options : List DefElem) (catalog : Oid) : Prop :=
  (ocgeoFdwValidator options catalog = .ok () ↔ ValidList catalog options) ∧
    (¬ ValidList catalog options → ∃ report, ocgeoFdwValidator options catalog = .error report)

/-- The second half follows from the first: a call that does not return normally raises. -/
theorem acceptsExactlyValid_iff (options : List DefElem) (catalog : Oid) :
    AcceptsExactlyValid options catalog ↔
      (ocgeoFdwValidator options catalog = .ok () ↔ ValidList catalog options) := by
  refine ⟨fun h => h.1, fun h => ⟨h, fun hinvalid => ?_⟩⟩
  cases hresult : ocgeoFdwValidator options catalog with
  | error report => exact ⟨report, rfl⟩
  | ok u => exact absurd (h.mp hresult) hinvalid

/-- **The validator and the valid lists.** The validator decides a list right exactly if the list
is wrong for another reason or its limits are in range. -/
theorem validator_exact_iff (options : List DefElem) (catalog : Oid) :
    AcceptsExactlyValid options catalog ↔
      (NamesKnown catalog options → LimitsSpelled options → RequiredGiven catalog options →
        LimitsInRange options) := by
  have hvalid : ValidList catalog options ↔ (NamesKnown catalog options ∧
      LimitsSpelled options ∧ RequiredGiven catalog options) ∧ LimitsInRange options := by
    constructor
    · rintro ⟨hknown, hlimits, hrequired⟩
      obtain ⟨hspelled, hrange⟩ := (limits_iff options).mp hlimits
      exact ⟨⟨hknown, hspelled, hrequired⟩, hrange⟩
    · rintro ⟨⟨hknown, hspelled, hrequired⟩, hrange⟩
      exact ⟨hknown, (limits_iff options).mpr ⟨hspelled, hrange⟩, hrequired⟩
  rw [acceptsExactlyValid_iff, ocgeoFdwValidator_eq_ok_iff, hvalid]
  constructor
  · intro h hknown hspelled hrequired
    exact (h.mp ⟨hknown, hspelled, hrequired⟩).2
  · intro h
    exact ⟨fun haccepted => ⟨haccepted, h haccepted.1 haccepted.2.1 haccepted.2.2⟩, And.left⟩

/-- A user mapping with `max_reqs_sec '-5'` is accepted, and so is `max_reqs_day '99999999999'`. -/
theorem validator_accepts_invalid :
    ¬ AcceptsExactlyValid [⟨apiKeyOption, ofAscii "k"⟩, ⟨maxReqsSecOption, ofAscii "-5"⟩]
        userMappingRelationId ∧
      ¬ AcceptsExactlyValid
        [⟨apiKeyOption, ofAscii "k"⟩, ⟨maxReqsDayOption, ofAscii "99999999999"⟩]
        userMappingRelationId := by
  constructor
  · rintro ⟨h, -⟩
    obtain ⟨z, ⟨-, -, rfl⟩, hrange, -⟩ := (h.mp rfl).limits _
      (List.mem_cons_of_mem _ List.mem_cons_self) (.inl rfl)
    exact absurd hrange (by decide)
  · rintro ⟨h, -⟩
    obtain ⟨z, ⟨-, -, rfl⟩, -, hrange⟩ := (h.mp rfl).limits _
      (List.mem_cons_of_mem _ List.mem_cons_self) (.inr rfl)
    exact absurd hrange (by decide)

end OcgeoFdw
