import OcgeoFdw.Api.JsonPath
import OcgeoFdw.Api.Request
import OcgeoFdw.Planning.Nodes
import OcgeoFdw.RateLimiting.Limiter
import OcgeoFdw.Scanning.BeginScan

/-! # From a result to a row

`ColumnMappingHash`, which a scan builds for the columns it has to fetch, and the part of
`ocgeoIterateForeignScan` that fills the tuple slot from a result. -/

namespace OcgeoFdw

open CString

/-! ## Stops -/

/-- Why a callback stops early. -/
inductive ScanStop
  /-- `get_attname` raises an error: there is no column of that number. -/
  | noSuchColumn (attnum : ℤ)
  /-- `swapOperandsAsNeeded` raises an error. -/
  | operatorLookupFailed (e : OperatorLookupFailed)
  /-- The input function of a type raises an error on a text. -/
  | invalidInput (typeid : Oid) (text : CString)
  /-- A value of a clause is read as something that it is not. -/
  | scanFault (e : ScanFault)
  /-- The reply is read through an absent member, or a result is written behind the block. -/
  | parseFault (e : ParseFault)
  /-- `sstate->qual_key` is compared while it is `NULL`. -/
  | nullQualKey
  /-- `sstate->qual_value` is copied while it is `NULL`. -/
  | nullQualValue
  /-- An entry of the column mapping is read that was not written. -/
  | unmappedColumn (columnName : CString)
  /-- A position behind the tuple slot is written. -/
  | outOfSlot (columnIndex : ℕ)
  /-- `sstate->cursor` points to a slot of the block that was not written. -/
  | danglingCursor (slot : ℕ)
  /-- The rate limiter does not complete. -/
  | limiterFault (e : LimiterFault)
  /-- The scan was not started, or was ended. -/
  | notStarted

/-- The stop is an error that PostgreSQL raises: it ends the query and keeps the session. -/
def ScanStop.raisesError : ScanStop → Bool
  | .noSuchColumn _ | .operatorLookupFailed _ | .invalidInput _ _ => true
  | _ => false

/-! ## The column mapping -/

/-- `ColumnMapping`: the fields that are read. -/
structure ColumnMapping where
  columnIndex : ℕ
  columnTypeId : Oid
  deriving DecidableEq

/-- The hash table of column mappings by name. -/
abbrev ColumnMappings := CString → Option ColumnMapping

/-- `columnId - 1`, stored as a `uint32`. -/
def columnIndexOf (columnId : ℤ) : ℕ := ((columnId - 1) % 2 ^ 32).toNat

/-- The entry of a column. -/
def ColumnMapping.of (column : Var) : ColumnMapping :=
  ⟨columnIndexOf column.varattno, column.vartype⟩

/-- The loop of `ColumnMappingHash`: find or create the entry of each column, and write it. -/
def columnMappingLoop (columns : List CString) :
    ColumnMappings → List Var → Except ScanStop ColumnMappings
  | mappings, [] => .ok mappings
  | mappings, column :: columnList =>
      match getAttname columns column.varattno with
      | none => .error (.noSuchColumn column.varattno)
      | some columnName =>
          columnMappingLoop columns (Function.update mappings columnName (some (.of column)))
            columnList

/-- `ColumnMappingHash`. -/
def columnMappingHash (columns : List CString) (columnList : List Var) :
    Except ScanStop ColumnMappings :=
  columnMappingLoop columns (fun _ => none) columnList

/-! ## The values of a row -/

/-- What is used of the printer of cJSON and of the input functions of the types `point`, `box` and
`jsonb`: the text of a value, and whether an input function accepts a text. -/
structure RowServices where
  cJSON_PrintUnformatted : CJson → CString
  acceptsInput : Oid → CString → Bool

/-- The value of a column: a `Datum`, or what the input function of a type returns for a text. -/
inductive ColumnValue
  | datum (value : Datum)
  | input (typeid : Oid) (text : CString)
  deriving DecidableEq

/-- A tuple slot: the value at every position, `none` for null. -/
abbrev TupleSlot := List (Option ColumnValue)

/-- `%.6lf`: a sign, the integral part and six decimals. -/
def showFixed6 (x : ℚ) : CString :=
  let scaled := (roundHalfEven (|x| * 10 ^ 6)).toNat
  let decimals := ofAscii (toString (scaled % 10 ^ 6))
  (if x < 0 then ofAscii "-" else []) ++ ofAscii (toString (scaled / 10 ^ 6)) ++ ofAscii "." ++
    List.replicate (6 - decimals.length) 48 ++ decimals

/-- The text `(x,y)` of a point. -/
def showPoint (x y : ℚ) : CString :=
  ofAscii "(" ++ showFixed6 x ++ ofAscii "," ++ showFixed6 y ++ ofAscii ")"

/-- `DirectFunctionCall1` of an input function. -/
def callInput (services : RowServices) (typeid : Oid) (text : CString) :
    Except ScanStop (Option ColumnValue) :=
  if services.acceptsInput typeid text then .ok (some (.input typeid text))
  else .error (.invalidInput typeid text)

/-- The path of a column: `confidence` and `formatted` are found at the top level, and all others in
`components`. -/
def fieldPath (columnName : CString) : CString :=
  if columnName = ofAscii "confidence" ∨ columnName = ofAscii "formatted" then columnName
  else ofAscii "components." ++ columnName

/-- The text of a point column. -/
def pointText (r : OcgeoResult) : Option CString := do
  let lat ← ocgeoResponseGetDbl r (ofAscii "geometry.lat")
  let lon ← ocgeoResponseGetDbl r (ofAscii "geometry.lng")
  return showPoint lat lon

/-- The text of a box column. -/
def boxText (r : OcgeoResult) : Option CString := do
  let lat1 ← ocgeoResponseGetDbl r (ofAscii "bounds.northeast.lat")
  let lon1 ← ocgeoResponseGetDbl r (ofAscii "bounds.northeast.lng")
  let lat2 ← ocgeoResponseGetDbl r (ofAscii "bounds.southwest.lat")
  let lon2 ← ocgeoResponseGetDbl r (ofAscii "bounds.southwest.lng")
  return ofAscii "(" ++ showPoint lat1 lon1 ++ ofAscii "," ++ showPoint lat2 lon2 ++ ofAscii ")"

/-- The switch over the type of a column: `text` and `varchar`, `int4` and `int8`, `point`, `box` and
`jsonb`. `none` leaves the column null. -/
def typedValue (services : RowServices) (columnTypeId : Oid) (field : CString) (r : OcgeoResult) :
    Except ScanStop (Option ColumnValue) :=
  if columnTypeId = 25 ∨ columnTypeId = 1043 then
    .ok ((ocgeoResponseGetStr r field).map fun v => .datum (.text v))
  else if columnTypeId = 23 ∨ columnTypeId = 20 then
    .ok ((ocgeoResponseGetInt r field).map fun v => .datum (intGetDatum v))
  else if columnTypeId = 600 then
    match pointText r with
    | some text => callInput services 600 text
    | none => .ok none
  else if columnTypeId = 603 then
    match boxText r with
    | some text => callInput services 603 text
    | none => .ok none
  else if columnTypeId = 3802 then
    callInput services 3802 (services.cJSON_PrintUnformatted r.internal)
  else .ok none

/-- The state of a scan that its rows are made with. -/
structure RowSource where
  columns : List CString
  qual_key : Option CString
  qual_value : Option CString
  columnList : List Var
  columnMappingHash : ColumnMappings

/-- The value of a column named `columnName`: the query for the column that it restricts, and
otherwise what the result has. -/
def RowSource.value (services : RowServices) (source : RowSource) (columnName : CString)
    (columnTypeId : Oid) (r : OcgeoResult) : Except ScanStop (Option ColumnValue) :=
  match source.qual_key with
  | none => .error .nullQualKey
  | some qual_key =>
      if qual_key = columnName then
        match source.qual_value with
        | none => .error .nullQualValue
        | some qual_value => .ok (some (.datum (.text qual_value)))
      else typedValue services columnTypeId (fieldPath columnName) r

/-- One round of the loop over the columns: the slot afterwards. -/
def RowSource.fillColumn (services : RowServices) (source : RowSource) (r : OcgeoResult)
    (slot : TupleSlot) (column : Var) : Except ScanStop TupleSlot :=
  match getAttname source.columns column.varattno with
  | none => .error (.noSuchColumn column.varattno)
  | some columnName =>
      match source.columnMappingHash columnName with
      | none => .error (.unmappedColumn columnName)
      | some mapping =>
          match source.value services columnName mapping.columnTypeId r with
          | .error e => .error e
          | .ok none => .ok slot
          | .ok (some value) =>
              if mapping.columnIndex < slot.length then
                .ok (slot.set mapping.columnIndex (some value))
              else .error (.outOfSlot mapping.columnIndex)

/-- The loop over the columns. -/
def RowSource.fillColumns (services : RowServices) (source : RowSource) (r : OcgeoResult) :
    TupleSlot → List Var → Except ScanStop TupleSlot
  | slot, [] => .ok slot
  | slot, column :: columnList =>
      match source.fillColumn services r slot column with
      | .error e => .error e
      | .ok slot => source.fillColumns services r slot columnList

/-- The row of a result: all values are null before the loop. -/
def RowSource.row (services : RowServices) (source : RowSource) (r : OcgeoResult) :
    Except ScanStop TupleSlot :=
  source.fillColumns services r (List.replicate source.columns.length none) source.columnList

/-! ## Which positions are written -/

section Rows

variable {services : RowServices} {source : RowSource} {r : OcgeoResult}

/-- Every entry of the mapping is that of a column of its name. -/
theorem exists_of_columnMappingLoop {columns : List CString} {columnList : List Var}
    {mappings mappings' : ColumnMappings} {columnName : CString} {mapping : ColumnMapping}
    (h : columnMappingLoop columns mappings columnList = .ok mappings')
    (hmapping : mappings' columnName = some mapping) :
    mappings columnName = some mapping ∨ ∃ column ∈ columnList,
      getAttname columns column.varattno = some columnName ∧ mapping = .of column := by
  induction columnList generalizing mappings with
  | nil =>
      obtain rfl := Except.ok.inj h
      exact .inl hmapping
  | cons column columnList ih =>
      rw [columnMappingLoop] at h
      split at h
      · cases h
      · rename_i name hname
        rcases ih h with hold | ⟨column', hmem, hname', heq⟩
        · rw [Function.update_apply] at hold
          split at hold
          · rename_i hsame
            rw [hsame]
            exact .inr ⟨column, List.mem_cons_self, hname, (Option.some.inj hold).symm⟩
          · exact .inl hold
        · exact .inr ⟨column', List.mem_cons_of_mem column hmem, hname', heq⟩

/-- A round writes at the position of some column, or nothing. -/
theorem RowSource.fillColumn_eq_ok {slot slot' : TupleSlot} {column : Var}
    (h : source.fillColumn services r slot column = .ok slot') :
    slot' = slot ∨ ∃ columnName mapping value, source.columnMappingHash columnName = some mapping ∧
      slot' = slot.set mapping.columnIndex (some value) := by
  rw [RowSource.fillColumn] at h
  split at h
  · cases h
  · rename_i columnName _
    split at h
    · cases h
    · rename_i mapping hmapping
      split at h
      · cases h
      · exact .inl (Except.ok.inj h).symm
      · rename_i value _
        split at h
        · exact .inr ⟨columnName, mapping, value, hmapping, (Except.ok.inj h).symm⟩
        · cases h

/-- A position that no column of the list has is left as it was. -/
theorem RowSource.getElem?_fillColumns {slot slot' : TupleSlot} {columnList : List Var} {i : ℕ}
    (hindex : ∀ columnName mapping, source.columnMappingHash columnName = some mapping →
      mapping.columnIndex ≠ i)
    (h : source.fillColumns services r slot columnList = .ok slot') : slot'[i]? = slot[i]? := by
  induction columnList generalizing slot with
  | nil =>
      obtain rfl := Except.ok.inj h
      rfl
  | cons column columnList ih =>
      rw [RowSource.fillColumns] at h
      split at h
      · cases h
      · rename_i filled hfill
        rw [ih h]
        rcases RowSource.fillColumn_eq_ok hfill with rfl | ⟨columnName, mapping, value, hmapping, rfl⟩
        · rfl
        · exact List.getElem?_set_ne (hindex columnName mapping hmapping)

/-- **A column that is not fetched** is null in every row. -/
theorem RowSource.row_null_of_not_listed {row : TupleSlot} {i : ℕ}
    (hmappings : OcgeoFdw.columnMappingHash source.columns source.columnList =
      .ok source.columnMappingHash)
    (hi : i < source.columns.length)
    (hlisted : ∀ column ∈ source.columnList, columnIndexOf column.varattno ≠ i)
    (h : source.row services r = .ok row) : row[i]? = some none := by
  rw [RowSource.row] at h
  rw [RowSource.getElem?_fillColumns ?_ h, List.getElem?_replicate, if_pos hi]
  intro columnName mapping hmapping
  rcases exists_of_columnMappingLoop hmappings hmapping with hnone | ⟨column, hmem, -, rfl⟩
  · cases hnone
  · exact hlisted column hmem

/-- The loop over the columns maps the name of every column. -/
theorem exists_mapping_of_columnMappingLoop {columns : List CString} {columnList : List Var}
    {mappings mappings' : ColumnMappings}
    (h : columnMappingLoop columns mappings columnList = .ok mappings') :
    (∀ columnName mapping, mappings columnName = some mapping →
        ∃ mapping', mappings' columnName = some mapping') ∧
      ∀ column ∈ columnList, ∃ columnName mapping,
        getAttname columns column.varattno = some columnName ∧
          mappings' columnName = some mapping := by
  induction columnList generalizing mappings with
  | nil =>
      obtain rfl := Except.ok.inj h
      exact ⟨fun _ mapping hmapping => ⟨mapping, hmapping⟩, by simp⟩
  | cons column columnList ih =>
      rw [columnMappingLoop] at h
      split at h
      · cases h
      · rename_i name hname
        obtain ⟨hkept, hmapped⟩ := ih h
        refine ⟨fun columnName mapping hmapping => ?_, List.forall_mem_cons.mpr ⟨?_, hmapped⟩⟩
        · by_cases hsame : columnName = name
          · exact hkept columnName (.of column) (by rw [hsame, Function.update_self])
          · exact hkept columnName mapping (by rw [Function.update_of_ne hsame]; exact hmapping)
        · obtain ⟨mapping, hmapping⟩ := hkept name (.of column) (Function.update_self ..)
          exact ⟨name, mapping, hname, hmapping⟩

/-- The stop is the error of an input function. -/
def ScanStop.IsInvalidInput (stop : ScanStop) : Prop :=
  ∃ typeid text, stop = .invalidInput typeid text

/-- The text of a point column is that of a point. -/
theorem exists_of_pointText {text : CString} (h : pointText r = some text) :
    ∃ x y, text = showPoint x y := by
  obtain ⟨lat, -, h⟩ := Option.bind_eq_some_iff.mp h
  obtain ⟨lon, -, h⟩ := Option.bind_eq_some_iff.mp h
  exact ⟨lat, lon, (Option.some.inj h).symm⟩

/-- The text of a box column is that of two points. -/
theorem exists_of_boxText {text : CString} (h : boxText r = some text) :
    ∃ x y x' y', text =
      ofAscii "(" ++ showPoint x y ++ ofAscii "," ++ showPoint x' y' ++ ofAscii ")" := by
  obtain ⟨lat1, -, h⟩ := Option.bind_eq_some_iff.mp h
  obtain ⟨lon1, -, h⟩ := Option.bind_eq_some_iff.mp h
  obtain ⟨lat2, -, h⟩ := Option.bind_eq_some_iff.mp h
  obtain ⟨lon2, -, h⟩ := Option.bind_eq_some_iff.mp h
  exact ⟨lat1, lon1, lat2, lon2, (Option.some.inj h).symm⟩

/-- **The value by the type of a column** is found or absent, or is what an input function returns for
the text of a point, of a box or of the whole result. -/
theorem typedValue_inputs (columnTypeId : Oid) (field : CString) :
    (∃ value, typedValue services columnTypeId field r = .ok value) ∨
      (∃ x y, typedValue services columnTypeId field r = callInput services 600 (showPoint x y)) ∨
      (∃ x y x' y', typedValue services columnTypeId field r = callInput services 603
        (ofAscii "(" ++ showPoint x y ++ ofAscii "," ++ showPoint x' y' ++ ofAscii ")")) ∨
      typedValue services columnTypeId field r =
        callInput services 3802 (services.cJSON_PrintUnformatted r.internal) := by
  rw [typedValue]
  split
  · exact .inl ⟨_, rfl⟩
  · split
    · exact .inl ⟨_, rfl⟩
    · split
      · split
        · rename_i text htext
          obtain ⟨x, y, rfl⟩ := exists_of_pointText htext
          exact .inr (.inl ⟨x, y, rfl⟩)
        · exact .inl ⟨_, rfl⟩
      · split
        · split
          · rename_i text htext
            obtain ⟨x, y, x', y', rfl⟩ := exists_of_boxText htext
            exact .inr (.inr (.inl ⟨x, y, x', y', rfl⟩))
          · exact .inl ⟨_, rfl⟩
        · split
          · exact .inr (.inr (.inr rfl))
          · exact .inl ⟨_, rfl⟩

/-- The value by the type of a column is found, absent, or rejected by its input function. -/
theorem typedValue_cases (columnTypeId : Oid) (field : CString) :
    (∃ value, typedValue services columnTypeId field r = .ok value) ∨
      ∃ stop, typedValue services columnTypeId field r = .error stop ∧ stop.IsInvalidInput := by
  have hinput : ∀ typeid text, (∃ value, callInput services typeid text = .ok value) ∨
      ∃ stop, callInput services typeid text = .error stop ∧ stop.IsInvalidInput := by
    intro typeid text
    rw [callInput]
    split
    · exact .inl ⟨_, rfl⟩
    · exact .inr ⟨_, rfl, typeid, text, rfl⟩
  rcases @typedValue_inputs services r columnTypeId field with hvalue | ⟨x, y, hpoint⟩ |
    ⟨x, y, x', y', hbox⟩ | hjsonb
  · exact .inl hvalue
  · rw [hpoint]
    exact hinput _ _
  · rw [hbox]
    exact hinput _ _
  · rw [hjsonb]
    exact hinput _ _

/-- A source whose rows are made without a fault: the restricted column and its value are set, and
the mapping is that of the listed columns, which are no system columns. -/
structure RowSource.Complete (source : RowSource) : Prop where
  qual_key : source.qual_key ≠ none
  qual_value : source.qual_value ≠ none
  mappings : OcgeoFdw.columnMappingHash source.columns source.columnList =
    .ok source.columnMappingHash
  columns : ∀ column ∈ source.columnList, 1 ≤ column.varattno

/-- The entry of a listed column is for a position of the slot. -/
theorem RowSource.Complete.exists_mapping (h : source.Complete) {column : Var}
    (hcolumn : column ∈ source.columnList) :
    ∃ columnName mapping, getAttname source.columns column.varattno = some columnName ∧
      source.columnMappingHash columnName = some mapping ∧
      mapping.columnIndex < source.columns.length := by
  obtain ⟨-, hmapped⟩ := exists_mapping_of_columnMappingLoop h.mappings
  obtain ⟨columnName, mapping, hname, hmapping⟩ := hmapped column hcolumn
  refine ⟨columnName, mapping, hname, hmapping, ?_⟩
  -- the entry may be that of another column of the same name
  obtain ⟨other, hother, hotherName, rfl⟩ :=
    (exists_of_columnMappingLoop h.mappings hmapping).resolve_left (by simp)
  have hattno := h.columns other hother
  rw [getAttname, if_pos (by omega)] at hotherName
  obtain ⟨hlt, -⟩ := List.getElem?_eq_some_iff.mp hotherName
  simp only [ColumnMapping.of, columnIndexOf]
  omega

/-- **A row is made**, or an input function rejects a text. -/
theorem RowSource.Complete.row_cases (h : source.Complete) (r : OcgeoResult) :
    (∃ row, source.row services r = .ok row) ∨
      ∃ stop, source.row services r = .error stop ∧ stop.IsInvalidInput := by
  obtain ⟨qual_key, hkey⟩ := Option.ne_none_iff_exists'.mp h.qual_key
  obtain ⟨qual_value, hvalue⟩ := Option.ne_none_iff_exists'.mp h.qual_value
  have hcases : ∀ columnName columnTypeId,
      (∃ value, source.value services columnName columnTypeId r = .ok value) ∨
        ∃ stop, source.value services columnName columnTypeId r = .error stop ∧
          stop.IsInvalidInput := by
    intro columnName columnTypeId
    rw [RowSource.value]
    simp only [hkey, hvalue]
    split
    · exact .inl ⟨_, rfl⟩
    · exact typedValue_cases _ _
  -- the loop, from any slot of the width of the table, over any of the listed columns
  have hloop : ∀ (columnList : List Var) (slot : TupleSlot),
      (∀ column ∈ columnList, column ∈ source.columnList) →
      slot.length = source.columns.length →
      (∃ row, source.fillColumns services r slot columnList = .ok row) ∨
        ∃ stop, source.fillColumns services r slot columnList = .error stop ∧
          stop.IsInvalidInput := by
    intro columnList
    induction columnList with
    | nil => exact fun slot _ _ => .inl ⟨slot, rfl⟩
    | cons column columnList ih =>
        intro slot hlisted hlength
        obtain ⟨hcolumn, hlisted⟩ := List.forall_mem_cons.mp hlisted
        obtain ⟨columnName, mapping, hname, hmapping, hindex⟩ := h.exists_mapping hcolumn
        rw [RowSource.fillColumns, RowSource.fillColumn]
        simp only [hname, hmapping]
        rcases hcases columnName mapping.columnTypeId with ⟨value, hvalue⟩ | ⟨stop, hstop, hinvalid⟩
        · cases value with
          | none =>
              simp only [hvalue]
              exact ih slot hlisted hlength
          | some value =>
              simp only [hvalue, if_pos (hindex.trans_eq hlength.symm)]
              exact ih _ hlisted (List.length_set.trans hlength)
        · simp only [hstop]
          exact .inr ⟨stop, rfl, hinvalid⟩
  exact hloop source.columnList _ (fun _ h => h) List.length_replicate

end Rows

end OcgeoFdw
