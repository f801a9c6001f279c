import OcgeoFdw.Options.TableOptions

/-! # The options validator

`ocgeo_fdw_validator` checks the option list of a catalog object: every name must be an option of
that catalog, the two request limits must be numbers, and the required options must be given.
`OptionAccepted.of_validator` and `exists_mem_of_required` state what an accepted list is. -/

namespace OcgeoFdw

open CString

/-- `ForeignServerRelationId`. -/
def foreignServerRelationId : Oid := 1417

/-- `UserMappingRelationId`. -/
def userMappingRelationId : Oid := 1418

/-- `ForeignTableRelationId`. -/
def foreignTableRelationId : Oid := 3118

/-- `struct OCGeoFdwOption`: a valid option and the catalog it may appear in. -/
structure OCGeoFdwOption where
  optname : CString
  optcontext : Oid
  optrequired : Bool

/-- `valid_options`. -/
def validOptions : List OCGeoFdwOption :=
  [⟨uriOption, foreignServerRelationId, true⟩,
   ⟨apiKeyOption, userMappingRelationId, true⟩,
   ⟨maxReqsSecOption, userMappingRelationId, false⟩,
   ⟨maxReqsDayOption, userMappingRelationId, false⟩]

/-- The error codes the validator raises. -/
inductive ErrCode
  /-- `ERRCODE_FDW_INVALID_OPTION_NAME`. -/
  | invalidOptionName
  /-- `ERRCODE_FDW_INVALID_ATTRIBUTE_VALUE`. -/
  | invalidAttributeValue
  /-- `ERRCODE_FDW_OPTION_NAME_NOT_FOUND`. -/
  | optionNameNotFound
  deriving DecidableEq

/-- What `ereport (ERROR, ...)` reports. -/
structure ErrorReport where
  errcode : ErrCode
  errmsg : CString
  errhint : Option CString
  deriving DecidableEq

/-- A message with a name in double quotes at its end. -/
def quoted (message : String) (name : CString) : CString :=
  ofAscii message ++ ofAscii " \"" ++ name ++ ofAscii "\""

/-- The names of the options of a catalog, separated by commas. -/
def optionNames (catalog : Oid) : CString :=
  (ofAscii ", ").intercalate
    ((validOptions.filter fun o => catalog = o.optcontext).map OCGeoFdwOption.optname)

/-- The search loop: the index of the option of that name in this catalog. -/
def findOption (catalog : Oid) (defname : CString) : Option ℕ :=
  validOptions.findIdx? fun o => decide (catalog = o.optcontext) && decide (o.optname = defname)

/-- `unsigned long numVal = strtol (val, &endptr, 0)`. -/
def numVal (val : CString) : ℤ := (strtol val 0).1 % 2 ^ 64

/-- The test that raises the error for a limit. -/
def limitRejected (val : CString) : Bool :=
  val = [] || (strtol val 0).2 ≠ [] || decide (numVal val < 0)

/-- One round of the main loop: `option_given` after the option `d`. -/
def checkOption (catalog : Oid) (option_given : List Bool) (d : DefElem) :
    Except ErrorReport (List Bool) :=
  match findOption catalog d.defname with
  | none =>
      .error ⟨.invalidOptionName, quoted "invalid option" d.defname,
        some (ofAscii "Valid options in this context are: " ++ optionNames catalog)⟩
  | some i =>
      if (d.defname = maxReqsSecOption ∨ d.defname = maxReqsDayOption) ∧ limitRejected d.arg then
        .error ⟨.invalidAttributeValue, quoted "invalid value for option" d.defname,
          some (ofAscii "Valid values in this context are positive integers.")⟩
      else .ok (option_given.set i true)

/-- The main loop over the options. -/
def checkOptions (catalog : Oid) : List Bool → List DefElem → Except ErrorReport (List Bool)
  | option_given, [] => .ok option_given
  | option_given, d :: options =>
      match checkOption catalog option_given d with
      | .error e => .error e
      | .ok given => checkOptions catalog given options

/-- The final loop: the first required option of the catalog that was not given. -/
def checkRequired (catalog : Oid) : List OCGeoFdwOption → List Bool → Except ErrorReport Unit
  | o :: rest, given :: givens =>
      if catalog = o.optcontext ∧ o.optrequired ∧ ¬ given then
        .error ⟨.optionNameNotFound, quoted "missing required option" o.optname, none⟩
      else checkRequired catalog rest givens
  | _, _ => .ok ()

/-- `ocgeo_fdw_validator`. -/
def ocgeoFdwValidator (options_list : List DefElem) (catalog : Oid) : Except ErrorReport Unit :=
  match checkOptions catalog (List.replicate validOptions.length false) options_list with
  | .error e => .error e
  | .ok option_given => checkRequired catalog validOptions option_given

/-! ## The accepted lists -/

/-- The numeric test sees only the shape of the text: `numVal` is unsigned. -/
theorem limitRejected_eq_false_iff (val : CString) :
    limitRejected val = false ↔ val ≠ [] ∧ (strtol val 0).2 = [] := by
  have hnonneg : 0 ≤ numVal val := Int.emod_nonneg _ (by norm_num)
  simp [limitRejected, not_lt.mpr hnonneg]

/-- An option that a round of the loop accepts. -/
structure OptionAccepted (catalog : Oid) (d : DefElem) : Prop where
  /-- The name is an option of the catalog. -/
  known : ∃ i, findOption catalog d.defname = some i
  /-- A request limit is a number. -/
  number : d.defname = maxReqsSecOption ∨ d.defname = maxReqsDayOption →
    d.arg ≠ [] ∧ (strtol d.arg 0).2 = []

/-- The loop accepts a list exactly when it accepts every option of it. -/
theorem checkOptions_ok_iff (catalog : Oid) (option_given : List Bool) (options : List DefElem) :
    (∃ given, checkOptions catalog option_given options = .ok given) ↔
      ∀ d ∈ options, OptionAccepted catalog d := by
  induction options generalizing option_given with
  | nil => simp [checkOptions]
  | cons d options ih =>
      rw [checkOptions, checkOption, List.forall_mem_cons]
      cases hfind : findOption catalog d.defname with
      | none =>
          simp only [reduceCtorEq, exists_false, false_iff, not_and]
          intro hd
          obtain ⟨i, hi⟩ := hd.known
          simp [hfind] at hi
      | some i =>
          by_cases hlimit : (d.defname = maxReqsSecOption ∨ d.defname = maxReqsDayOption) ∧
              limitRejected d.arg = true
          · simp only [if_pos hlimit, reduceCtorEq, exists_false, false_iff, not_and]
            intro hd
            have hfalse := (limitRejected_eq_false_iff d.arg).mpr (hd.number hlimit.1)
            simp [hfalse] at hlimit
          · simp only [if_neg hlimit]
            rw [ih]
            refine (and_iff_right ⟨⟨i, hfind⟩, fun hname => ?_⟩).symm
            rw [← limitRejected_eq_false_iff]
            simpa [hname] using hlimit

/-- Every option of an accepted list is accepted. -/
theorem OptionAccepted.of_validator {options : List DefElem} {catalog : Oid}
    (h : ocgeoFdwValidator options catalog = .ok ()) :
    ∀ d ∈ options, OptionAccepted catalog d := by
  cases hcheck : checkOptions catalog (List.replicate validOptions.length false) options with
  | error e => simp only [ocgeoFdwValidator, hcheck, reduceCtorEq] at h
  | ok given => exact (checkOptions_ok_iff catalog _ options).mp ⟨given, hcheck⟩

/-- The option that the search loop finds. -/
theorem findOption_eq_some {catalog : Oid} {defname : CString} {i : ℕ}
    (h : findOption catalog defname = some i) :
    ∃ o, validOptions[i]? = some o ∧ o.optcontext = catalog ∧ o.optname = defname := by
  obtain ⟨hi, hmatch, -⟩ := List.findIdx?_eq_some_iff_getElem.mp h
  simp only [Bool.and_eq_true, decide_eq_true_eq] at hmatch
  exact ⟨_, List.getElem?_eq_getElem hi, hmatch.1.symm, hmatch.2⟩

/-- The names an accepted list may use. -/
theorem OptionAccepted.mem_validOptions {catalog : Oid} {d : DefElem}
    (h : OptionAccepted catalog d) :
    ∃ o ∈ validOptions, o.optcontext = catalog ∧ o.optname = d.defname := by
  obtain ⟨i, hi⟩ := h.known
  obtain ⟨o, ho, hcontext, hname⟩ := findOption_eq_some hi
  exact ⟨o, List.mem_of_getElem? ho, hcontext, hname⟩

/-- After the main loop, `option_given[i]` is set exactly if it was set before or an option of the
list was found at index `i`. -/
theorem checkOptions_getElem? {catalog : Oid} {option_given given : List Bool}
    {options : List DefElem} (h : checkOptions catalog option_given options = .ok given) (i : ℕ) :
    given[i]? = some true ↔ option_given[i]? = some true ∨
      (i < option_given.length ∧ ∃ d ∈ options, findOption catalog d.defname = some i) := by
  induction options generalizing option_given with
  | nil =>
      obtain rfl : option_given = given := by simpa [checkOptions] using h
      simp
  | cons d options ih =>
      cases hfind : findOption catalog d.defname with
      | none => simp [checkOptions, checkOption, hfind] at h
      | some j =>
          by_cases hlimit : (d.defname = maxReqsSecOption ∨ d.defname = maxReqsDayOption) ∧
              limitRejected d.arg = true
          · simp [checkOptions, checkOption, hfind, if_pos hlimit] at h
          · simp only [checkOptions, checkOption, hfind, if_neg hlimit] at h
            rw [ih h, List.length_set, List.getElem?_set]
            simp only [List.mem_cons, exists_eq_or_imp, hfind, Option.some.injEq]
            by_cases hij : j = i
            -- this round marks index `i` itself
            · subst hij
              by_cases hlen : j < option_given.length <;> simp [hlen]
            · simp [hij]

/-- The final loop passes exactly when every required option of the catalog is marked as given. -/
theorem checkRequired_eq_ok_iff (catalog : Oid) (options : List OCGeoFdwOption)
    (givens : List Bool) :
    checkRequired catalog options givens = .ok () ↔
      ∀ p ∈ options.zip givens, p.1.optcontext = catalog → p.1.optrequired → p.2 = true := by
  induction options generalizing givens with
  | nil => cases givens <;> simp [checkRequired]
  | cons o options ih =>
      cases givens with
      | nil => simp [checkRequired]
      | cons given givens =>
          rw [checkRequired, List.zip_cons_cons, List.forall_mem_cons]
          by_cases hmissing : catalog = o.optcontext ∧ o.optrequired ∧ ¬ given
          · rw [if_pos hmissing]
            simp only [reduceCtorEq, false_iff, not_and]
            intro h
            exact absurd (h hmissing.1.symm hmissing.2.1) hmissing.2.2
          · rw [if_neg hmissing, ih]
            refine (and_iff_right fun hcontext hrequired => ?_).symm
            by_contra hgiven
            exact hmissing ⟨hcontext.symm, hrequired, hgiven⟩

/-- The main loop keeps the length of `option_given`. -/
theorem length_of_checkOptions {catalog : Oid} {option_given given : List Bool}
    {options : List DefElem} (h : checkOptions catalog option_given options = .ok given) :
    given.length = option_given.length := by
  induction options generalizing option_given with
  | nil =>
      obtain rfl : option_given = given := by simpa [checkOptions] using h
      rfl
  | cons d options ih =>
      simp only [checkOptions] at h
      split at h
      · simp at h
      · rename_i given' hround
        rw [checkOption] at hround
        split at hround
        · simp at hround
        · split at hround
          · simp at hround
          · obtain rfl := Except.ok.inj hround
            rw [ih h, List.length_set]

/-- Every required option of the catalog occurs in an accepted list. -/
theorem exists_mem_of_required {options : List DefElem} {catalog : Oid}
    (h : ocgeoFdwValidator options catalog = .ok ()) {i : ℕ} {o : OCGeoFdwOption}
    (hi : validOptions[i]? = some o) (hcontext : o.optcontext = catalog)
    (hrequired : o.optrequired = true) : ∃ d ∈ options, d.defname = o.optname := by
  cases hcheck : checkOptions catalog (List.replicate validOptions.length false) options with
  | error e => simp only [ocgeoFdwValidator, hcheck, reduceCtorEq] at h
  | ok given =>
      simp only [ocgeoFdwValidator, hcheck] at h
      have hlen : i < given.length := by
        rw [length_of_checkOptions hcheck, List.length_replicate]
        exact (List.getElem?_eq_some_iff.mp hi).1
      have hmem : (o, given[i]) ∈ validOptions.zip given :=
        List.mem_of_getElem? (List.getElem?_zip_eq_some.mpr ⟨hi, List.getElem?_eq_getElem hlen⟩)
      have htrue : given[i] = true :=
        (checkRequired_eq_ok_iff catalog validOptions given).mp h _ hmem hcontext hrequired
      have hgiven : given[i]? = some true := by rw [List.getElem?_eq_getElem hlen, htrue]
      -- the mark was not set at the start, so some option of the list set it
      rw [checkOptions_getElem? hcheck i] at hgiven
      rcases hgiven with hfalse | ⟨-, d, hd, hfind⟩
      · simp [List.getElem?_replicate] at hfalse
      · obtain ⟨o', ho', -, hname⟩ := findOption_eq_some hfind
        obtain rfl : o = o' := Option.some.inj (hi.symm.trans ho')
        exact ⟨d, hd, hname.symm⟩

end OcgeoFdw
