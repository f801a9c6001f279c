import OcgeoFdw.Scanning.ColumnPlaces
import OcgeoFdw.Scanning.Cursor

/-! # What a row holds

`fillsSlot_iff` states for which results, and for which columns on all results, a call of
`ocgeoIterateForeignScan` puts into every position of the slot what its column stands for. -/

namespace OcgeoFdw

open CInt CString

/-! ## A row as it is meant -/

/-- The position of a column in a row. -/
def Var.position (column : Var) : ℕ := (column.varattno - 1).toNat

/-- The types `text` and `varchar`. -/
def IsTextType (columnTypeId : Oid) : Prop := columnTypeId = 25 ∨ columnTypeId = 1043

/-- The types `int4` and `int8`. -/
def IsIntegerType (columnTypeId : Oid) : Prop := columnTypeId = 23 ∨ columnTypeId = 20

/-- The values of the types `int4` and `int8`. -/
def InIntegerType (columnTypeId : Oid) (z : ℤ) : Prop :=
  if columnTypeId = 23 then -2 ^ 31 ≤ z ∧ z < 2 ^ 31 else -2 ^ 63 ≤ z ∧ z < 2 ^ 63

/-- What a column has to hold for the value at its place: a string or an integer as it is, and null
without a string or a number. Only columns of texts and integers are asked for anything. -/
structure HoldsPlace (columnTypeId : Oid) (place : Option CJson) (value : Option ColumnValue) :
    Prop where
  string : IsTextType columnTypeId → ∀ s, place = some (.string s) → value = some (.datum (.text s))
  noString : IsTextType columnTypeId → (∀ s, place ≠ some (.string s)) → value = none
  integer : IsIntegerType columnTypeId → ∀ z : ℤ, place = some (.number z) →
    InIntegerType columnTypeId z → value = some (.datum (intGetDatum z))
  noNumber : IsIntegerType columnTypeId → (∀ x, place ≠ some (.number x)) → value = none

/-- The row of a result for the listed columns of a table, with the query `v` that was pushed
down. -/
structure IsRowOf (columns : List CString) (columnList : List Var) (v : CString) (json : CJson)
    (row : TupleSlot) : Prop where
  width : row.length = columns.length
  query : ∀ column ∈ columnList, columns[column.position]? = some queryAttName →
    row[column.position]? = some (some (.datum (.text v)))
  listed : ∀ column ∈ columnList, ∀ columnName, columns[column.position]? = some columnName →
    columnName ≠ queryAttName → ∃ value, row[column.position]? = some value ∧
      HoldsPlace column.vartype (placeOf json columnName) value
  unlisted : ∀ i < columns.length, (∀ column ∈ columnList, column.position ≠ i) →
    row[i]? = some none

/-- A list of distinct columns of a table whose columns have distinct names. An `AttrNumber` has 16
bits. -/
structure DistinctColumns (columns : List CString) (columnList : List Var) : Prop where
  names : columns.Nodup
  attnos : (columnList.map Var.varattno).Nodup
  ofTable : ∀ column ∈ columnList, 1 ≤ column.varattno ∧ column.varattno ≤ columns.length ∧
    column.varattno < 2 ^ 15

/-- A scan that pushes the query `v` down, with the mapping of its columns. -/
structure RowSource.Pushes (source : RowSource) (v : CString) : Prop where
  qual_key : source.qual_key = some queryAttName
  qual_value : source.qual_value = some v
  mappings : OcgeoFdw.columnMappingHash source.columns source.columnList =
    .ok source.columnMappingHash

/-- A state of the scan whose cursor is at a result that was read from `json`. -/
structure IsAt (source : RowSource) (json : CJson) (sstate : OcgeoForeignScanState) : Prop where
  source : sstate.toRowSource = source
  current : ∃ slot result, sstate.cursor = some slot ∧
    sstate.response.results.block[slot]? = some (some result) ∧ result.internal = json

/-- One call of `ocgeoIterateForeignScan` fills the slot with the row of `json`. -/
def FillsSlot (services : RowServices) (v : CString) (json : CJson)
    (sstate : OcgeoForeignScanState) : Prop :=
  ∃ row sstate', ocgeoIterateForeignScan services sstate = .ok (some row, sstate') ∧
    IsRowOf sstate.columns sstate.columnList v json row

/-! ## Which columns are right -/

/-- The input function of a column of type `point`, `box` or `jsonb` accepts what is printed of the
result: its points with six decimals, or its JSON text. -/
structure InputAccepted (services : RowServices) (columnTypeId : Oid) (json : CJson) : Prop where
  point : columnTypeId = 600 → ∀ point, json.pointAt [ofAscii "geometry"] = some point →
    services.acceptsInput 600 (showPoint point.lat point.lng)
  box : columnTypeId = 603 → ∀ northeast southwest,
    json.pointAt [ofAscii "bounds", ofAscii "northeast"] = some northeast →
    json.pointAt [ofAscii "bounds", ofAscii "southwest"] = some southwest →
    services.acceptsInput 603 (ofAscii "(" ++ showPoint northeast.lat northeast.lng ++ ofAscii "," ++
      showPoint southwest.lat southwest.lng ++ ofAscii ")")
  jsonb : columnTypeId = 3802 → services.acceptsInput 3802 (services.cJSON_PrintUnformatted json)

/-- A column whose name leads to its place: a number there fits an `int` if it fits the type. -/
def NumberFits (columnTypeId : Oid) (place : Option CJson) : Prop :=
  ∀ z : ℤ, IsIntegerType columnTypeId → place = some (.number z) → InIntegerType columnTypeId z →
    -2 ^ 31 ≤ z ∧ z < 2 ^ 31

/-- A column whose name is a path: it makes no difference that the path leads elsewhere than to the
place. The strings are the same, an integer is found again when the number is cut to an `int`, and
there is no number without one at the place. -/
structure PathFits (columnTypeId : Oid) (place : Option CJson) (leads : CJson → Prop) : Prop where
  string : IsTextType columnTypeId → ∀ s, place = some (.string s) ↔ leads (.string s)
  integer : IsIntegerType columnTypeId → ∀ z : ℤ, place = some (.number z) →
    InIntegerType columnTypeId z → ∃ x, leads (.number x) ∧ CJson.saturatedInt x = z
  number : IsIntegerType columnTypeId → ∀ x, leads (.number x) → ∃ y, place = some (.number y)

/-- What is at the place of a column, or at the end of its path, fits the type. -/
def PlaceFits (columnTypeId : Oid) (json : CJson) (columnName : CString) : Prop :=
  if AtTopLevel columnName ∨ IsPlain columnName then
    NumberFits columnTypeId (placeOf json columnName)
  else PathFits columnTypeId (placeOf json columnName) (LeadsTo json columnName)

/-- A column that is right on a result: that of the query, or one whose place fits and for which no
input function raises an error. -/
def ColumnFits (services : RowServices) (columns : List CString) (json : CJson) (column : Var) :
    Prop :=
  ∀ columnName, columns[column.position]? = some columnName → columnName = queryAttName ∨
    InputAccepted services column.vartype json ∧ PlaceFits column.vartype json columnName

/-- A column that is right on every result that the input functions accept: that of the query, one of
another type than texts and integers, or one that is no `int8` and whose name is no path. -/
def ColumnAlwaysFits (columns : List CString) (column : Var) : Prop :=
  ∀ columnName, columns[column.position]? = some columnName → columnName = queryAttName ∨
    ¬ (IsTextType column.vartype ∨ IsIntegerType column.vartype) ∨
    column.vartype ≠ 20 ∧ (AtTopLevel columnName ∨ IsPlain columnName)

/-- The row has the values of the columns in their positions, and elsewhere those of the slot. -/
structure RowSource.Filled (services : RowServices) (source : RowSource) (r : OcgeoResult)
    (slot : TupleSlot) (columnList : List Var) (row : TupleSlot) : Prop where
  width : row.length = slot.length
  value : ∀ column ∈ columnList, ∀ columnName value,
    source.columns[column.position]? = some columnName →
    source.value services columnName column.vartype r = .ok value →
    row[column.position]? = some value
  rest : ∀ i, (∀ column ∈ columnList, column.position ≠ i) → row[i]? = slot[i]?

section Rows

variable {services : RowServices} {source : RowSource} {v : CString} {r : OcgeoResult}
  {column : Var} {columnName : CString}

/-! ## The value of a column -/

/-- An integer is read back from its `Datum`. -/
theorem intGetDatum_inj {a b : ℤ} (ha : -2 ^ 63 ≤ a ∧ a < 2 ^ 63) (hb : -2 ^ 63 ≤ b ∧ b < 2 ^ 63)
    (h : intGetDatum a = intGetDatum b) : a = b := by
  have hbits := congrArg BitVec.toInt (Datum.word.inj h)
  rw [BitVec.toInt_ofInt, BitVec.toInt_ofInt] at hbits
  rw [Int.bmod_eq_of_le (by norm_num; omega) (by norm_num; omega),
    Int.bmod_eq_of_le (by norm_num; omega) (by norm_num; omega)] at hbits
  exact hbits

theorem InIntegerType.fits_int8 {columnTypeId : Oid} {z : ℤ} (h : InIntegerType columnTypeId z) :
    -2 ^ 63 ≤ z ∧ z < 2 ^ 63 := by
  rw [InIntegerType] at h
  split at h
  · omega
  · exact h

theorem not_isTextType_of_isIntegerType {columnTypeId : Oid} (h : IsIntegerType columnTypeId) :
    ¬ IsTextType columnTypeId := by
  rcases h with rfl | rfl
  · exact (by decide : ¬ (23 = 25 ∨ 23 = 1043))
  · exact (by decide : ¬ (20 = 25 ∨ 20 = 1043))

/-- The value of a text column is the string that its name leads to. -/
theorem holdsPlace_iff_of_isTextType {columnTypeId : Oid} {place : Option CJson}
    {leads : CJson → Prop} {value : Option ColumnValue} (htype : IsTextType columnTypeId)
    (hsome : ∀ s, value = some (.datum (.text s)) ↔ leads (.string s))
    (hnone : value = none ↔ ∀ s, ¬ leads (.string s)) :
    HoldsPlace columnTypeId place value ↔ PathFits columnTypeId place leads := by
  have hinteger : ¬ IsIntegerType columnTypeId := fun h => not_isTextType_of_isIntegerType h htype
  constructor
  · intro h
    refine ⟨fun _ s => ⟨fun hplace => (hsome s).mp (h.string htype s hplace), fun hleads => ?_⟩,
      fun htype' => absurd htype' hinteger, fun htype' => absurd htype' hinteger⟩
    by_contra hne
    have hplace : ∀ s', place ≠ some (.string s') := by
      rintro s' rfl
      have hvalue := (h.string htype s' rfl).symm.trans ((hsome s).mpr hleads)
      obtain rfl := Datum.text.inj (ColumnValue.datum.inj (Option.some.inj hvalue))
      exact hne rfl
    exact hnone.mp (h.noString htype hplace) s hleads
  · intro h
    refine ⟨fun _ s hplace => (hsome s).mpr ((h.string htype s).mp hplace), fun _ hno => ?_,
      fun htype' => absurd htype' hinteger, fun htype' => absurd htype' hinteger⟩
    exact hnone.mpr fun s hleads => hno s ((h.string htype s).mpr hleads)

/-- The value of an integer column is the number that its name leads to, cut to an `int`. -/
theorem holdsPlace_iff_of_isIntegerType {columnTypeId : Oid} {place : Option CJson}
    {leads : CJson → Prop} {value : Option ColumnValue} (htype : IsIntegerType columnTypeId)
    (hsome : ∀ z : ℤ, InIntegerType columnTypeId z → (value = some (.datum (intGetDatum z)) ↔
      ∃ x, leads (.number x) ∧ CJson.saturatedInt x = z))
    (hnone : value = none ↔ ∀ x, ¬ leads (.number x)) :
    HoldsPlace columnTypeId place value ↔ PathFits columnTypeId place leads := by
  have htext := not_isTextType_of_isIntegerType htype
  constructor
  · intro h
    refine ⟨fun htype' => absurd htype' htext, fun _ z hplace hrange => ?_, fun _ x hleads => ?_⟩
    · exact (hsome z hrange).mp (h.integer htype z hplace hrange)
    · by_contra hno
      have hplace : ∀ y, place ≠ some (.number y) := not_exists.mp hno
      exact hnone.mp (h.noNumber htype hplace) x hleads
  · intro h
    refine ⟨fun htype' => absurd htype' htext, fun htype' => absurd htype' htext,
      fun _ z hplace hrange => ?_, fun _ hno => ?_⟩
    · exact (hsome z hrange).mpr (h.integer htype z hplace hrange)
    · refine hnone.mpr fun x hleads => ?_
      obtain ⟨y, hplace⟩ := h.number htype x hleads
      exact hno y hplace

theorem typedValue_of_isTextType {columnTypeId : Oid} {field : CString}
    (h : IsTextType columnTypeId) : typedValue services columnTypeId field r =
      .ok ((ocgeoResponseGetStr r field).map fun v => .datum (.text v)) :=
  if_pos h

theorem typedValue_of_isIntegerType {columnTypeId : Oid} {field : CString}
    (h : IsIntegerType columnTypeId) : typedValue services columnTypeId field r =
      .ok ((ocgeoResponseGetInt r field).map fun v => .datum (intGetDatum v)) :=
  (if_neg (not_isTextType_of_isIntegerType h)).trans (if_pos h)

/-- The value by the type of a column is right exactly if what its name leads to fits its place. -/
theorem holdsPlace_typedValue_iff_pathFits {columnTypeId : Oid} {place : Option CJson}
    {value : Option ColumnValue}
    (hvalue : typedValue services columnTypeId (fieldPath columnName) r = .ok value) :
    HoldsPlace columnTypeId place value ↔
      PathFits columnTypeId place (LeadsTo r.internal columnName) := by
  by_cases htext : IsTextType columnTypeId
  · rw [typedValue_of_isTextType htext] at hvalue
    obtain rfl := Except.ok.inj hvalue
    apply holdsPlace_iff_of_isTextType htext
    · intro s
      rw [← ocgeoResponseGetStr_fieldPath_eq_some_iff, Option.map_eq_some_iff]
      simp
    · rw [Option.map_eq_none_iff, Option.eq_none_iff_forall_ne_some]
      simp only [ne_eq, ocgeoResponseGetStr_fieldPath_eq_some_iff]
  · by_cases hinteger : IsIntegerType columnTypeId
    · rw [typedValue_of_isIntegerType hinteger] at hvalue
      obtain rfl := Except.ok.inj hvalue
      apply holdsPlace_iff_of_isIntegerType hinteger
      · intro z hrange
        rw [← ocgeoResponseGetInt_fieldPath_eq_some_iff, Option.map_eq_some_iff]
        constructor
        · rintro ⟨z', hz', hdatum⟩
          obtain ⟨x, -, hcut⟩ := ocgeoResponseGetInt_fieldPath_eq_some_iff.mp hz'
          have hfits := CJson.saturatedInt_fits x
          rw [hcut] at hfits
          norm_num [intMin, intMax] at hfits
          rw [hz', intGetDatum_inj (by omega) hrange.fits_int8 (ColumnValue.datum.inj hdatum)]
        · exact fun hz => ⟨z, hz, rfl⟩
      · rw [Option.map_eq_none_iff, Option.eq_none_iff_forall_ne_some]
        simp only [ne_eq, ocgeoResponseGetInt_fieldPath_eq_some_iff]
        constructor
        · exact fun h x hleads => h _ ⟨x, hleads, rfl⟩
        · rintro h z ⟨x, hleads, -⟩
          exact h x hleads
    -- a column of another type is asked for nothing
    · exact iff_of_true
        ⟨fun h => absurd h htext, fun h => absurd h htext, fun h => absurd h hinteger,
          fun h => absurd h hinteger⟩
        ⟨fun h => absurd h htext, fun h => absurd h hinteger, fun h => absurd h hinteger⟩

/-- An integer is cut to itself exactly if it fits an `int`. -/
theorem saturatedInt_intCast_eq_self_iff {z : ℤ} :
    CJson.saturatedInt z = z ↔ -2 ^ 31 ≤ z ∧ z < 2 ^ 31 := by
  rw [CJson.saturatedInt_intCast, intMin, intMax]
  omega

/-- A name that leads to its place fits exactly if the number there does. -/
theorem pathFits_iff_numberFits {columnTypeId : Oid} {place : Option CJson} {leads : CJson → Prop}
    (hleads : ∀ leaf, leads leaf ↔ place = some leaf) :
    PathFits columnTypeId place leads ↔ NumberFits columnTypeId place := by
  constructor
  · intro h z htype hplace hrange
    obtain ⟨x, hx, hcut⟩ := h.integer htype z hplace hrange
    obtain rfl := CJson.number.inj (Option.some.inj (hplace.symm.trans ((hleads _).mp hx)))
    exact saturatedInt_intCast_eq_self_iff.mp hcut
  · intro h
    refine ⟨fun _ s => (hleads _).symm, fun htype z hplace hrange => ?_,
      fun _ x hx => ⟨x, (hleads _).mp hx⟩⟩
    exact ⟨z, (hleads _).mpr hplace, saturatedInt_intCast_eq_self_iff.mpr (h z htype hplace hrange)⟩

/-- For every name, the place fits exactly if what the name leads to does. -/
theorem placeFits_iff_pathFits {columnTypeId : Oid} {json : CJson} :
    PlaceFits columnTypeId json columnName ↔
      PathFits columnTypeId (placeOf json columnName) (LeadsTo json columnName) := by
  rw [PlaceFits]
  split
  · rename_i hname
    exact (pathFits_iff_numberFits fun leaf => leadsTo_iff hname).symm
  · exact Iff.rfl

/-- **The value by the type of a column** is right exactly if its place fits. -/
theorem holdsPlace_typedValue_iff {columnTypeId : Oid} {value : Option ColumnValue}
    (hvalue : typedValue services columnTypeId (fieldPath columnName) r = .ok value) :
    HoldsPlace columnTypeId (placeOf r.internal columnName) value ↔
      PlaceFits columnTypeId r.internal columnName :=
  (holdsPlace_typedValue_iff_pathFits hvalue).trans placeFits_iff_pathFits.symm

/-! ## The loop over the columns -/

/-- The column of the query gets the query. -/
theorem RowSource.Pushes.value_query (h : source.Pushes v) (columnTypeId : Oid) :
    source.value services queryAttName columnTypeId r = .ok (some (.datum (.text v))) := by
  rw [RowSource.value, h.qual_key]
  simp only [h.qual_value, if_true]

/-- Any other column gets the value by its type. -/
theorem RowSource.Pushes.value_of_ne (h : source.Pushes v) (hne : columnName ≠ queryAttName)
    (columnTypeId : Oid) : source.value services columnName columnTypeId r =
      typedValue services columnTypeId (fieldPath columnName) r := by
  rw [RowSource.value, h.qual_key]
  exact if_neg hne.symm

theorem exists_callInput_iff {typeid : Oid} {text : CString} :
    (∃ value, callInput services typeid text = .ok value) ↔ services.acceptsInput typeid text := by
  rw [callInput]
  split
  · rename_i h
    exact iff_of_true ⟨_, rfl⟩ h
  · rename_i h
    exact iff_of_false (by simp) h

theorem inputAccepted_of_ne {columnTypeId : Oid} {json : CJson} (hpoint : columnTypeId ≠ 600)
    (hbox : columnTypeId ≠ 603) (hjsonb : columnTypeId ≠ 3802) :
    InputAccepted services columnTypeId json :=
  ⟨fun h => absurd h hpoint, fun h => absurd h hbox, fun h => absurd h hjsonb⟩

theorem inputAccepted_point_iff {json : CJson} : InputAccepted services 600 json ↔
    ∀ point, json.pointAt [ofAscii "geometry"] = some point →
      services.acceptsInput 600 (showPoint point.lat point.lng) :=
  ⟨fun h => h.point rfl, fun h =>
    ⟨fun _ => h, fun htype => absurd htype (by decide), fun htype => absurd htype (by decide)⟩⟩

theorem inputAccepted_box_iff {json : CJson} : InputAccepted services 603 json ↔
    ∀ northeast southwest, json.pointAt [ofAscii "bounds", ofAscii "northeast"] = some northeast →
      json.pointAt [ofAscii "bounds", ofAscii "southwest"] = some southwest →
      services.acceptsInput 603 (ofAscii "(" ++ showPoint northeast.lat northeast.lng ++
        ofAscii "," ++ showPoint southwest.lat southwest.lng ++ ofAscii ")") :=
  ⟨fun h => h.box rfl, fun h =>
    ⟨fun htype => absurd htype (by decide), fun _ => h, fun htype => absurd htype (by decide)⟩⟩

theorem inputAccepted_jsonb_iff {json : CJson} : InputAccepted services 3802 json ↔
    services.acceptsInput 3802 (services.cJSON_PrintUnformatted json) :=
  ⟨fun h => h.jsonb rfl, fun h =>
    ⟨fun htype => absurd htype (by decide), fun htype => absurd htype (by decide), fun _ => h⟩⟩

/-- **There is a value** by the type of a column exactly if its input function accepts what is
printed. -/
theorem exists_typedValue_iff {columnTypeId : Oid} {field : CString} :
    (∃ value, typedValue services columnTypeId field r = .ok value) ↔
      InputAccepted services columnTypeId r.internal := by
  rw [typedValue]
  split_ifs with htext hinteger hpoint hbox hjsonb
  · refine iff_of_true ⟨_, rfl⟩ (inputAccepted_of_ne ?_ ?_ ?_)
    all_goals rcases htext with rfl | rfl <;> decide
  · refine iff_of_true ⟨_, rfl⟩ (inputAccepted_of_ne ?_ ?_ ?_)
    all_goals rcases hinteger with rfl | rfl <;> decide
  · subst hpoint
    rw [inputAccepted_point_iff]
    split
    · rename_i text htext
      obtain ⟨point, hpoint, rfl⟩ := pointText_eq_some_iff.mp htext
      rw [exists_callInput_iff]
      refine ⟨fun h other hother => ?_, fun h => h point hpoint⟩
      obtain rfl := Option.some.inj (hpoint.symm.trans hother)
      exact h
    · rename_i hnone
      refine iff_of_true ⟨_, rfl⟩ fun point hpoint => ?_
      rw [pointText_eq_some_iff.mpr ⟨point, hpoint, rfl⟩] at hnone
      cases hnone
  · subst hbox
    rw [inputAccepted_box_iff]
    split
    · rename_i text htext
      obtain ⟨northeast, southwest, hnortheast, hsouthwest, rfl⟩ := boxText_eq_some_iff.mp htext
      rw [exists_callInput_iff]
      refine ⟨fun h ne sw hne hsw => ?_, fun h => h northeast southwest hnortheast hsouthwest⟩
      obtain rfl := Option.some.inj (hnortheast.symm.trans hne)
      obtain rfl := Option.some.inj (hsouthwest.symm.trans hsw)
      exact h
    · rename_i hnone
      refine iff_of_true ⟨_, rfl⟩ fun northeast southwest hnortheast hsouthwest => ?_
      rw [boxText_eq_some_iff.mpr ⟨northeast, southwest, hnortheast, hsouthwest, rfl⟩] at hnone
      cases hnone
  · subst hjsonb
    rw [exists_callInput_iff, inputAccepted_jsonb_iff]
  · exact iff_of_true ⟨_, rfl⟩ (inputAccepted_of_ne hpoint hbox hjsonb)

/-- There is a value of a column exactly if it is that of the query, or its input function accepts what
is printed. -/
theorem RowSource.Pushes.exists_value_iff (h : source.Pushes v) {columnTypeId : Oid} :
    (∃ value, source.value services columnName columnTypeId r = .ok value) ↔
      columnName = queryAttName ∨ InputAccepted services columnTypeId r.internal := by
  by_cases hquery : columnName = queryAttName
  · rw [hquery, h.value_query]
    exact iff_of_true ⟨_, rfl⟩ (.inl rfl)
  · rw [h.value_of_ne hquery, exists_typedValue_iff, or_iff_right hquery]

/-- The name of a listed column. -/
theorem DistinctColumns.getAttname_eq {columns : List CString} {columnList : List Var}
    (h : DistinctColumns columns columnList) (hcolumn : column ∈ columnList) :
    getAttname columns column.varattno = columns[column.position]? := by
  obtain ⟨hpos, -, -⟩ := h.ofTable column hcolumn
  rw [getAttname, if_pos (by omega)]
  rfl

/-- The position of a listed column is one of the row. -/
theorem DistinctColumns.position_lt {columns : List CString} {columnList : List Var}
    (h : DistinctColumns columns columnList) (hcolumn : column ∈ columnList) :
    column.position < columns.length := by
  obtain ⟨hpos, hlength, -⟩ := h.ofTable column hcolumn
  rw [Var.position]
  omega

/-- Listed columns of one position are one. -/
theorem DistinctColumns.eq_of_position_eq {columns : List CString} {columnList : List Var}
    (h : DistinctColumns columns columnList) {other : Var} (hcolumn : column ∈ columnList)
    (hother : other ∈ columnList) (heq : column.position = other.position) : column = other := by
  apply List.inj_on_of_nodup_map h.attnos hcolumn hother
  obtain ⟨hpos, -, -⟩ := h.ofTable column hcolumn
  obtain ⟨hpos', -, -⟩ := h.ofTable other hother
  rw [Var.position, Var.position] at heq
  omega

theorem DistinctColumns.null_before {columns : List CString} {columnList : List Var}
    (h : DistinctColumns columns columnList) : ∀ column ∈ columnList,
      (List.replicate columns.length (none : Option ColumnValue))[column.position]? = some none := by
  intro column hcolumn
  rw [List.getElem?_replicate, if_pos (h.position_lt hcolumn)]

theorem DistinctColumns.positions {columns : List CString} {columnList : List Var}
    (h : DistinctColumns columns columnList) : (columnList.map Var.position).Nodup :=
  List.Nodup.map_on (fun _ hx _ hy => h.eq_of_position_eq hx hy) (List.Nodup.of_map _ h.attnos)

/-- The entry of a name is that of its column. -/
theorem RowSource.Pushes.mapping (h : source.Pushes v)
    (hdistinct : DistinctColumns source.columns source.columnList)
    (hcolumn : column ∈ source.columnList)
    (hname : source.columns[column.position]? = some columnName) :
    source.columnMappingHash columnName = some (.of column) := by
  obtain ⟨-, hmapped⟩ := exists_mapping_of_columnMappingLoop h.mappings
  obtain ⟨columnName', mapping, hname', hmapping⟩ := hmapped column hcolumn
  rw [hdistinct.getAttname_eq hcolumn, hname] at hname'
  obtain rfl := Option.some.inj hname'
  obtain ⟨other, hother, hotherName, rfl⟩ :=
    (exists_of_columnMappingLoop h.mappings hmapping).resolve_left (by simp)
  rw [hdistinct.getAttname_eq hother, ← hname] at hotherName
  have hposition : other.position = column.position :=
    (List.getElem?_inj (hdistinct.position_lt hother) hdistinct.names).mp hotherName
  rw [hmapping, hdistinct.eq_of_position_eq hother hcolumn hposition]

/-- One round that succeeds has a value of its column. -/
theorem RowSource.Pushes.exists_value_of_fillColumn (h : source.Pushes v)
    (hdistinct : DistinctColumns source.columns source.columnList)
    (hcolumn : column ∈ source.columnList)
    (hname : source.columns[column.position]? = some columnName) {slot row : TupleSlot}
    (hfill : source.fillColumn services r slot column = .ok row) :
    ∃ value, source.value services columnName column.vartype r = .ok value := by
  rw [RowSource.fillColumn, hdistinct.getAttname_eq hcolumn, hname] at hfill
  simp only [h.mapping hdistinct hcolumn hname, ColumnMapping.of] at hfill
  cases hvalue : source.value services columnName column.vartype r with
  | error stop =>
      rw [hvalue] at hfill
      cases hfill
  | ok value => exact ⟨value, rfl⟩

/-- The loop that succeeds has a value of every column. -/
theorem RowSource.Pushes.exists_value_of_fillColumns (h : source.Pushes v)
    (hdistinct : DistinctColumns source.columns source.columnList) {columnList : List Var}
    {slot row : TupleSlot} (hlisted : ∀ column ∈ columnList, column ∈ source.columnList)
    (hfill : source.fillColumns services r slot columnList = .ok row) :
    ∀ column ∈ columnList, ∀ columnName, source.columns[column.position]? = some columnName →
      ∃ value, source.value services columnName column.vartype r = .ok value := by
  induction columnList generalizing slot with
  | nil => exact fun _ hmem => (List.not_mem_nil hmem).elim
  | cons column columnList ih =>
      obtain ⟨hcolumn, hlisted⟩ := List.forall_mem_cons.mp hlisted
      rw [RowSource.fillColumns] at hfill
      split at hfill
      · cases hfill
      · rename_i filled hfilled
        refine List.forall_mem_cons.mpr ⟨fun columnName hname => ?_, ih hlisted hfill⟩
        exact h.exists_value_of_fillColumn hdistinct hcolumn hname hfilled

/-- One round writes the value of its column into a position that is null before. -/
theorem RowSource.Pushes.fillColumn_eq (h : source.Pushes v)
    (hdistinct : DistinctColumns source.columns source.columnList)
    (hcolumn : column ∈ source.columnList)
    (hname : source.columns[column.position]? = some columnName)
    {value : Option ColumnValue}
    (hvalue : source.value services columnName column.vartype r = .ok value) {slot : TupleSlot}
    (hlength : slot.length = source.columns.length)
    (hempty : slot[column.position]? = some none) :
    source.fillColumn services r slot column = .ok (slot.set column.position value) := by
  obtain ⟨hpos, -, hattno⟩ := hdistinct.ofTable column hcolumn
  have hlt := hdistinct.position_lt hcolumn
  have hindex : columnIndexOf column.varattno = column.position := by
    rw [columnIndexOf, Var.position]
    omega
  rw [RowSource.fillColumn, hdistinct.getAttname_eq hcolumn, hname]
  simp only [h.mapping hdistinct hcolumn hname, ColumnMapping.of, hvalue, hindex]
  cases value with
  | none =>
      obtain ⟨hbound, hget⟩ := List.getElem?_eq_some_iff.mp hempty
      have hsame : slot.set column.position none = slot := by
        rw [← hget, List.set_getElem_self]
      rw [hsame]
  | some value => exact if_pos (hlt.trans_eq hlength.symm)

/-- **The loop** fills the positions of its columns with their values, and keeps the others. -/
theorem RowSource.Pushes.exists_fillColumns (h : source.Pushes v)
    (hdistinct : DistinctColumns source.columns source.columnList)
    {columnList : List Var} {slot : TupleSlot}
    (hlisted : ∀ column ∈ columnList, column ∈ source.columnList)
    (hvalues : ∀ column ∈ columnList, ∀ columnName,
      source.columns[column.position]? = some columnName →
      ∃ value, source.value services columnName column.vartype r = .ok value)
    (hpositions : (columnList.map Var.position).Nodup)
    (hlength : slot.length = source.columns.length)
    (hempty : ∀ column ∈ columnList, slot[column.position]? = some none) :
    ∃ row, source.fillColumns services r slot columnList = .ok row ∧
      source.Filled services r slot columnList row := by
  induction columnList generalizing slot with
  | nil => exact ⟨slot, rfl, ⟨rfl, fun _ hmem => (List.not_mem_nil hmem).elim, fun _ _ => rfl⟩⟩
  | cons column columnList ih =>
      obtain ⟨hcolumn, hlisted⟩ := List.forall_mem_cons.mp hlisted
      obtain ⟨hvalue, hvalues⟩ := List.forall_mem_cons.mp hvalues
      obtain ⟨hnull, hempty⟩ := List.forall_mem_cons.mp hempty
      obtain ⟨hfresh, hpositions⟩ := List.nodup_cons.mp hpositions
      have hne : ∀ other ∈ columnList, column.position ≠ other.position := by
        intro other hother heq
        exact hfresh (heq ▸ List.mem_map_of_mem hother)
      have hlt := hdistinct.position_lt hcolumn
      obtain ⟨columnName, hname⟩ : ∃ columnName,
          source.columns[column.position]? = some columnName := ⟨_, List.getElem?_eq_getElem hlt⟩
      obtain ⟨value, hvalue⟩ := hvalue columnName hname
      obtain ⟨row, hrow, hfilled⟩ := @ih (slot.set column.position value) hlisted hvalues hpositions
        (List.length_set.trans hlength) fun other hother =>
          (List.getElem?_set_ne (hne other hother)).trans (hempty other hother)
      refine ⟨row, ?_, hfilled.width.trans List.length_set, ?_, ?_⟩
      · rw [RowSource.fillColumns, h.fillColumn_eq hdistinct hcolumn hname hvalue hlength hnull]
        exact hrow
      · refine List.forall_mem_cons.mpr ⟨?_, hfilled.value⟩
        intro columnName' value' hname' hvalue'
        obtain rfl := Option.some.inj (hname.symm.trans hname')
        obtain rfl := Except.ok.inj (hvalue.symm.trans hvalue')
        rw [hfilled.rest _ fun other hother => (hne other hother).symm]
        exact List.getElem?_set_self (hlt.trans_eq hlength.symm)
      · intro i hi
        obtain ⟨hhead, htail⟩ := List.forall_mem_cons.mp hi
        rw [hfilled.rest i htail, List.getElem?_set_ne hhead]

/-! ## Rows and columns -/

/-- **A row is made** of a result exactly if every column has a value. -/
theorem RowSource.Pushes.exists_row_iff (h : source.Pushes v)
    (hdistinct : DistinctColumns source.columns source.columnList) :
    (∃ row, source.row services r = .ok row) ↔ ∀ column ∈ source.columnList, ∀ columnName,
      source.columns[column.position]? = some columnName →
      columnName = queryAttName ∨ InputAccepted services column.vartype r.internal := by
  simp only [← h.exists_value_iff]
  constructor
  · rintro ⟨row, hrow⟩
    exact h.exists_value_of_fillColumns hdistinct (fun _ hmem => hmem) hrow
  · intro hvalues
    obtain ⟨row, hrow, -⟩ := h.exists_fillColumns hdistinct (fun _ hmem => hmem) hvalues
      hdistinct.positions List.length_replicate (hdistinct.null_before)
    exact ⟨row, hrow⟩

/-- **A row** has the value of each column in its position. -/
theorem RowSource.Pushes.filled_of_row (h : source.Pushes v)
    (hdistinct : DistinctColumns source.columns source.columnList) {row : TupleSlot}
    (hrow : source.row services r = .ok row) :
    source.Filled services r (List.replicate source.columns.length none) source.columnList row := by
  have hvalues := h.exists_value_of_fillColumns hdistinct (fun _ hmem => hmem) hrow
  obtain ⟨row', hrow', hfilled⟩ := h.exists_fillColumns hdistinct (fun _ hmem => hmem) hvalues
    hdistinct.positions List.length_replicate hdistinct.null_before
  rwa [Except.ok.inj (hrow.symm.trans hrow')]

/-- The row is as it is meant exactly if the place of every listed column fits. -/
theorem RowSource.Pushes.isRowOf_iff (h : source.Pushes v)
    (hdistinct : DistinctColumns source.columns source.columnList) {row : TupleSlot}
    (hrow : source.row services r = .ok row) :
    IsRowOf source.columns source.columnList v r.internal row ↔
      ∀ column ∈ source.columnList, ∀ columnName,
        source.columns[column.position]? = some columnName →
        columnName = queryAttName ∨ PlaceFits column.vartype r.internal columnName := by
  have hfilled := h.filled_of_row hdistinct hrow
  have hvalues := h.exists_value_of_fillColumns hdistinct (fun _ hmem => hmem) hrow
  constructor
  · intro hisRow column hcolumn columnName hname
    by_cases hquery : columnName = queryAttName
    · exact .inl hquery
    · obtain ⟨value, hvalue⟩ := hvalues column hcolumn columnName hname
      have hget := hfilled.value column hcolumn columnName value hname hvalue
      obtain ⟨value', hget', hholds⟩ := hisRow.listed column hcolumn columnName hname hquery
      obtain rfl := Option.some.inj (hget.symm.trans hget')
      rw [h.value_of_ne hquery] at hvalue
      exact .inr ((holdsPlace_typedValue_iff hvalue).mp hholds)
  · intro hfits
    refine ⟨hfilled.width.trans List.length_replicate, ?_, ?_, ?_⟩
    · intro column hcolumn hname
      exact hfilled.value column hcolumn _ _ hname (h.value_query column.vartype)
    · intro column hcolumn columnName hname hquery
      obtain ⟨value, hvalue⟩ := hvalues column hcolumn columnName hname
      refine ⟨value, hfilled.value column hcolumn columnName value hname hvalue, ?_⟩
      rw [h.value_of_ne hquery] at hvalue
      exact (holdsPlace_typedValue_iff hvalue).mpr
        ((hfits column hcolumn columnName hname).resolve_left hquery)
    · intro i hi hother
      rw [hfilled.rest i hother, List.getElem?_replicate, if_pos hi]

/-- **One call** fills the slot as it is meant exactly if every listed column is right. -/
theorem fillsSlot_iff_columnFits (h : source.Pushes v)
    (hdistinct : DistinctColumns source.columns source.columnList) {json : CJson}
    {sstate : OcgeoForeignScanState} (hat : IsAt source json sstate) :
    FillsSlot services v json sstate ↔
      ∀ column ∈ source.columnList, ColumnFits services source.columns json column := by
  obtain ⟨rfl, slot, result, hcursor, hblock, rfl⟩ := hat
  have hcall : FillsSlot services v result.internal sstate ↔
      ∃ row, sstate.row services result = .ok row ∧
        IsRowOf sstate.columns sstate.columnList v result.internal row := by
    rw [FillsSlot, ocgeoIterateForeignScan, hcursor]
    simp only [hblock]
    constructor
    · rintro ⟨row, sstate', hcall, hisRow⟩
      split at hcall
      · cases hcall
      · rename_i row' hrow
        obtain ⟨hsame, -⟩ := Prod.mk.inj (Except.ok.inj hcall)
        obtain rfl := Option.some.inj hsame
        exact ⟨row', hrow, hisRow⟩
    · rintro ⟨row, hrow, hisRow⟩
      exact ⟨row, { sstate with cursor := result.next }, by simp only [hrow], hisRow⟩
  rw [hcall]
  constructor
  · rintro ⟨row, hrow, hisRow⟩ column hcolumn columnName hname
    rcases (h.exists_row_iff hdistinct).mp ⟨row, hrow⟩ column hcolumn columnName hname with
      hquery | haccepted
    · exact .inl hquery
    · exact ((h.isRowOf_iff hdistinct hrow).mp hisRow column hcolumn columnName hname).imp_right
        fun hfits => ⟨haccepted, hfits⟩
  · intro hfits
    obtain ⟨row, hrow⟩ := (h.exists_row_iff (r := result) hdistinct).mpr
      fun column hcolumn columnName hname =>
        (hfits column hcolumn columnName hname).imp_right And.left
    exact ⟨row, hrow, (h.isRowOf_iff hdistinct hrow).mpr fun column hcolumn columnName hname =>
      (hfits column hcolumn columnName hname).imp_right And.right⟩

/-- A state with the cursor at the only result, which was read from `json`. -/
def onlyResult (source : RowSource) (json : CJson) : OcgeoForeignScanState where
  toRowSource := source
  min_confidence := 0
  api := none
  response := { OcgeoResponse.zeroed none with
    results := ⟨[some ⟨none, ocgeoInvalidPoint, 0, none, json⟩], some 0⟩ }
  cursor := some 0

theorem isAt_onlyResult (source : RowSource) (json : CJson) :
    IsAt source json (onlyResult source json) :=
  ⟨rfl, 0, _, rfl, rfl, rfl⟩

/-! ## Columns that are always right -/

/-- Any value can be at the place of a column. -/
theorem exists_placeOf (columnName : CString) (leaf : CJson) :
    ∃ members, placeOf (.object members) columnName = some leaf := by
  by_cases htop : AtTopLevel columnName
  · refine ⟨[(columnName, leaf)], ?_⟩
    rw [placeOf, if_pos htop]
    simp [CJson.memberNamed]
  · refine ⟨_, (placeOf_componentsOnly htop [(columnName, leaf)]).trans ?_⟩
    simp [CJson.memberNamed]

/-- A number behind the limits of an `int` does not fit an `int8` column, though it is where it
belongs. -/
theorem not_numberFits_int8 : ¬ NumberFits 20 (some (.number (3000000000 : ℤ))) := by
  intro h
  have hrange : InIntegerType 20 3000000000 := by
    rw [InIntegerType, if_neg (by decide)]
    omega
  have hfits := h 3000000000 (.inr rfl) rfl hrange
  omega

/-- The integers of a column that is no `int8` fit an `int`. -/
theorem placeFits_of_ne_int8 {columnTypeId : Oid} (h : columnTypeId ≠ 20)
    (hname : AtTopLevel columnName ∨ IsPlain columnName) (json : CJson) :
    PlaceFits columnTypeId json columnName := by
  rw [PlaceFits, if_pos hname]
  intro z hinteger _ hrange
  rwa [InIntegerType, if_pos (hinteger.resolve_right h)] at hrange

/-- **Which columns fit on all results**, among those of texts and integers. -/
theorem forall_placeFits_iff {columnTypeId : Oid}
    (htype : IsTextType columnTypeId ∨ IsIntegerType columnTypeId) :
    (∀ members, PlaceFits columnTypeId (.object members) columnName) ↔
      columnTypeId ≠ 20 ∧ (AtTopLevel columnName ∨ IsPlain columnName) := by
  constructor
  · intro h
    have hname : AtTopLevel columnName ∨ IsPlain columnName := by
      by_contra hnot
      have hpath : ∀ members, PathFits columnTypeId _ _ := fun members =>
        placeFits_iff_pathFits.mp (h members)
      obtain ⟨htop, hplain⟩ := not_or.mp hnot
      rcases htype with htext | hinteger
      · have hleaf : (CJson.string []).child = [] := rfl
        obtain ⟨members, hplace, hleads⟩ := exists_misplaced htop hplain hleaf
        cases hleads _ (((hpath members).string htext []).mp hplace)
      · have hleaf : (CJson.number (1 : ℤ)).child = [] := rfl
        obtain ⟨members, hplace, hleads⟩ := exists_misplaced htop hplain hleaf
        obtain ⟨x, hx, -⟩ := (hpath members).integer hinteger 1 hplace (by
          rw [InIntegerType]
          split <;> omega)
        cases hleads _ hx
    refine ⟨?_, hname⟩
    rintro rfl
    obtain ⟨members, hplace⟩ := exists_placeOf columnName (.number (3000000000 : ℤ))
    have hfits := h members
    rw [PlaceFits, if_pos hname, hplace] at hfits
    exact not_numberFits_int8 hfits
  · exact fun ⟨hint8, hname⟩ members => placeFits_of_ne_int8 hint8 hname (.object members)

theorem inputAccepted_acceptingServices (columnTypeId : Oid) (json : CJson) :
    InputAccepted acceptingServices columnTypeId json :=
  ⟨fun _ _ _ => rfl, fun _ _ _ _ _ => rfl, fun _ => rfl⟩

/-- A column whose name and type say so is right on every result that is accepted. -/
theorem ColumnAlwaysFits.columnFits {columns : List CString} {json : CJson}
    (h : ColumnAlwaysFits columns column)
    (haccepted : InputAccepted services column.vartype json) :
    ColumnFits services columns json column := by
  intro columnName hname
  rcases h columnName hname with hquery | hother | ⟨hint8, hplain⟩
  · exact .inl hquery
  · obtain ⟨htext, hinteger⟩ := not_or.mp hother
    exact .inr ⟨haccepted, placeFits_iff_pathFits.mpr ⟨fun htype => absurd htype htext,
      fun htype => absurd htype hinteger, fun htype => absurd htype hinteger⟩⟩
  · exact .inr ⟨haccepted, placeFits_of_ne_int8 hint8 hplain json⟩

/-- Only such a column is right on every result. -/
theorem columnAlwaysFits_of_forall {columns : List CString}
    (h : ∀ members, ColumnFits services columns (.object members) column) :
    ColumnAlwaysFits columns column := by
  intro columnName hname
  refine or_iff_not_imp_left.mpr fun hquery => ?_
  refine or_iff_not_imp_left.mpr fun htype => ?_
  refine (forall_placeFits_iff (not_not.mp htype)).mp fun members => ?_
  exact ((h members columnName hname).resolve_left hquery).2

/-! ## After a start -/

/-- **A start that binds a query** leaves a scan of its columns that pushes the query down. -/
theorem pushes_of_begin {foreignScan : ForeignScan} {inputs : StartInputs} {s s' : Session}
    {sent : Option Sent} {sstate : OcgeoForeignScanState}
    (hassigned : QueryOperandsAssigned (foreignScan.env inputs) foreignScan.fdw_exprs)
    (hbound : BindsQuery (foreignScan.env inputs) foreignScan.fdw_exprs)
    (h : ocgeoBeginForeignScan foreignScan inputs false s = .ok (sent, sstate, s')) :
    sstate.columns = foreignScan.columns ∧ sstate.columnList = foreignScan.fdw_private ∧
      ∃ pushed v, pushedQuals (foreignScan.env inputs) foreignScan.fdw_exprs = .ok pushed ∧
        pushed.request = some (v, requestParams pushed.min_confidence) ∧
        sstate.toRowSource.Pushes v := by
  obtain ⟨mappings, pushed, hmappings, hpushed, ⟨hnone, -⟩ |
    ⟨-, -, ⟨text, hkey, hpushdown, hvalue⟩, _, _, _, _, -, -, -, rfl⟩⟩ :=
      begin_sends (fun _ => hassigned) h
  · exact absurd hbound (hnone.resolve_left (by simp))
  · refine ⟨rfl, rfl, pushed, text, hpushed, ?_, hkey, ?_, hmappings⟩
    · rw [PushedQuals.request, hpushdown, hvalue]
      rfl
    · show (if pushed.pushdown then pushed.qual_value else none) = some text
      rw [hpushdown, hvalue]
      rfl

end Rows

/-- **Row conversion.** On a result, one call fills the slot with the query in the column `q`, the
strings and integers of the result in the listed columns of their names, and null elsewhere, if and
only if for each of these columns the input function of its type accepts what is printed for it, a
number at its place fits an `int`, and a name that is a path leads to what is as good as the value at
the place. It does so on all results that the input functions accept if and only if no such column is
an `int8`, or has a name that is read as a path. -/
theorem fillsSlot_iff {source : RowSource} {v : CString} (hpushes : source.Pushes v)
    (hdistinct : DistinctColumns source.columns source.columnList) :
    (∀ services members sstate, IsAt source (.object members) sstate →
        (FillsSlot services v (.object members) sstate ↔ ∀ column ∈ source.columnList,
          ColumnFits services source.columns (.object members) column)) ∧
      ((∀ services members sstate, IsAt source (.object members) sstate →
          (∀ column ∈ source.columnList, InputAccepted services column.vartype (.object members)) →
          FillsSlot services v (.object members) sstate) ↔
        ∀ column ∈ source.columnList, ColumnAlwaysFits source.columns column) := by
  have hcall : ∀ services members sstate, IsAt source (.object members) sstate →
      (FillsSlot services v (.object members) sstate ↔ ∀ column ∈ source.columnList,
        ColumnFits services source.columns (.object members) column) :=
    fun services members sstate hat => fillsSlot_iff_columnFits hpushes hdistinct hat
  refine ⟨hcall, ?_, ?_⟩
  · intro h column hcolumn
    apply columnAlwaysFits_of_forall
    intro members
    have hat := isAt_onlyResult source (.object members)
    have hfills := h acceptingServices members _ hat fun column _ =>
      inputAccepted_acceptingServices column.vartype _
    exact (hcall acceptingServices members _ hat).mp hfills column hcolumn
  · intro h services members sstate hat haccepted
    apply (hcall services members sstate hat).mpr
    intro column hcolumn
    exact (h column hcolumn).columnFits (haccepted column hcolumn)

/-- The scan of a table with the column `q` and one more, for both of them, where `q = 'x'`. -/
def twoColumns (columnName : CString) (columnTypeId : Oid) : RowSource where
  columns := [queryAttName, columnName]
  qual_key := some queryAttName
  qual_value := some (ofAscii "x")
  columnList := [⟨1, 1, 25⟩, ⟨1, 2, columnTypeId⟩]
  columnMappingHash := Function.update
    (Function.update (fun _ => none) queryAttName (some ⟨0, 25⟩)) columnName
    (some ⟨1, columnTypeId⟩)

theorem pushes_twoColumns (columnName : CString) (columnTypeId : Oid) :
    (twoColumns columnName columnTypeId).Pushes (ofAscii "x") :=
  ⟨rfl, rfl, rfl⟩

theorem distinctColumns_twoColumns {columnName : CString} (hne : queryAttName ≠ columnName)
    (columnTypeId : Oid) : DistinctColumns (twoColumns columnName columnTypeId).columns
      (twoColumns columnName columnTypeId).columnList := by
  refine ⟨by simpa [twoColumns] using hne, by simp [twoColumns], ?_⟩
  simp [twoColumns]

/-- The members of a result with this string as the city. -/
def cityMembers (city : CString) : List (CString × CJson) :=
  componentsOnly [(ofAscii "city", .string city)]

/-- A text column `city` is filled. -/
theorem fillsSlot_city :
    FillsSlot acceptingServices (ofAscii "x") (.object (cityMembers (ofAscii "Athens")))
      (onlyResult (twoColumns (ofAscii "city") 25) (.object (cityMembers (ofAscii "Athens")))) := by
  have halways : ∀ column ∈ (twoColumns (ofAscii "city") 25).columnList,
      ColumnAlwaysFits (twoColumns (ofAscii "city") 25).columns column := by
    intro column hcolumn columnName hname
    rcases List.mem_pair.mp hcolumn with rfl | rfl
    · exact .inl (Option.some.inj hname).symm
    · obtain rfl := Option.some.inj hname
      exact .inr (.inr ⟨by decide, .inr (by decide)⟩)
  exact (fillsSlot_iff (pushes_twoColumns (ofAscii "city") 25)
    (distinctColumns_twoColumns (by decide) 25)).2.mpr halways _ _ _ (isAt_onlyResult _ _)
      fun column _ => inputAccepted_acceptingServices column.vartype _

/-- An `int8` column `population` does not get the number 3000000000. -/
theorem not_fillsSlot :
    ¬ ∀ (services : RowServices) (source : RowSource) (v : CString) (members sstate),
      (∀ column ∈ source.columnList, InputAccepted services column.vartype (.object members)) →
      source.Pushes v → DistinctColumns source.columns source.columnList →
      IsAt source (.object members) sstate → FillsSlot services v (.object members) sstate := by
  intro h
  have hpushes := pushes_twoColumns (ofAscii "population") 20
  have hne : queryAttName ≠ ofAscii "population" := by decide
  have hdistinct := distinctColumns_twoColumns hne 20
  have hat := isAt_onlyResult (twoColumns (ofAscii "population") 20)
    (.object (componentsOnly [(ofAscii "population", .number (3000000000 : ℤ))]))
  have hfills := h acceptingServices _ _ _ _
    (fun column _ => inputAccepted_acceptingServices column.vartype _) hpushes hdistinct hat
  have hcolumns := (fillsSlot_iff_columnFits hpushes hdistinct hat).mp hfills
  obtain ⟨-, hfits⟩ := (hcolumns ⟨1, 2, 20⟩ (by decide) (ofAscii "population") rfl).resolve_left
    (by decide)
  rw [PlaceFits, if_pos (.inr (by decide)), placeOf_componentsOnly (by decide)] at hfits
  exact not_numberFits_int8 hfits

end OcgeoFdw
