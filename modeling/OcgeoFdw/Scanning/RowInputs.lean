import OcgeoFdw.Scanning.Cursor

/-! # The texts for input functions

The values of a row that are what an input function returns for a text, and the result that the row
of the next call is made of. -/

namespace OcgeoFdw

section Rows

variable {services : RowServices} {source : RowSource} {r : OcgeoResult}

/-! ## The values of a row -/

/-- Every value that a slot holds is that of some column of the result. -/
def RowSource.HoldsValues (services : RowServices) (source : RowSource) (r : OcgeoResult)
    (slot : TupleSlot) : Prop :=
  ∀ (i : ℕ) (value : ColumnValue), slot[i]? = some (some value) →
    ∃ columnName columnTypeId,
      source.value services columnName columnTypeId r = .ok (some value)

/-- One round of the loop over the columns writes the value of its column. -/
theorem RowSource.HoldsValues.fillColumn {slot slot' : TupleSlot} {column : Var}
    (h : source.HoldsValues services r slot)
    (hfill : source.fillColumn services r slot column = .ok slot') :
    source.HoldsValues services r slot' := by
  intro i value hget
  rw [RowSource.fillColumn] at hfill
  split at hfill
  · cases hfill
  · rename_i columnName _
    split at hfill
    · cases hfill
    · rename_i mapping _
      split at hfill
      · cases hfill
      · obtain rfl := Except.ok.inj hfill
        exact h i value hget
      · rename_i written hwritten
        split at hfill
        · obtain rfl := Except.ok.inj hfill
          rw [List.getElem?_set] at hget
          split_ifs at hget
          · obtain rfl := Option.some.inj (Option.some.inj hget)
            exact ⟨columnName, mapping.columnTypeId, hwritten⟩
          · exact h i value hget
        · cases hfill

/-- **The values of a row** are those of columns of the result. -/
theorem RowSource.holdsValues_row {row : TupleSlot} (h : source.row services r = .ok row) :
    source.HoldsValues services r row := by
  have hloop : ∀ (columnList : List Var) (slot : TupleSlot), source.HoldsValues services r slot →
      source.fillColumns services r slot columnList = .ok row →
      source.HoldsValues services r row := by
    intro columnList
    induction columnList with
    | nil =>
        intro slot hslot hfill
        rwa [← Except.ok.inj hfill]
    | cons column columnList ih =>
        intro slot hslot hfill
        rw [RowSource.fillColumns] at hfill
        split at hfill
        · cases hfill
        · rename_i filled hfilled
          exact ih filled (hslot.fillColumn hfilled) hfill
  -- all values are null before the loop
  refine hloop source.columnList _ (fun j value hget => ?_) h
  rw [List.getElem?_replicate] at hget
  split at hget
  · cases hget
  · cases hget

/-- The text that is printed of a result for the input function of a type. -/
def printedFor (services : RowServices) (typeid : Oid) (r : OcgeoResult) : Option CString :=
  if typeid = 600 then pointText r
  else if typeid = 603 then boxText r
  else if typeid = 3802 then some (services.cJSON_PrintUnformatted r.internal)
  else none

/-- What an input function returned is for the text of its type. -/
theorem input_of_typedValue {columnTypeId typeid : Oid} {field text : CString}
    (h : typedValue services columnTypeId field r = .ok (some (.input typeid text))) :
    printedFor services typeid r = some text := by
  have hinput : ∀ {typeid' : Oid} {text' : CString},
      callInput services typeid' text' = .ok (some (.input typeid text)) →
        typeid' = typeid ∧ text' = text := by
    intro typeid' text' hcall
    rw [callInput] at hcall
    split at hcall
    · exact ColumnValue.input.inj (Option.some.inj (Except.ok.inj hcall))
    · cases hcall
  rw [typedValue] at h
  split_ifs at h with htext hinteger hpoint hbox hjsonb
  · obtain ⟨v, -, hv⟩ := Option.map_eq_some_iff.mp (Except.ok.inj h)
    cases hv
  · obtain ⟨v, -, hv⟩ := Option.map_eq_some_iff.mp (Except.ok.inj h)
    cases hv
  · split at h
    · rename_i hprinted
      obtain ⟨rfl, rfl⟩ := hinput h
      exact hprinted
    · cases h
  · split at h
    · rename_i hprinted
      obtain ⟨rfl, rfl⟩ := hinput h
      exact hprinted
    · cases h
  · obtain ⟨rfl, rfl⟩ := hinput h
    rfl
  · cases h

/-- **The texts in a row** are those of the result: neither the query nor a value that was found is
a text for an input function. -/
theorem RowSource.input_of_row {row : TupleSlot} {i : ℕ} {typeid : Oid} {text : CString}
    (h : source.row services r = .ok row)
    (hget : row[i]? = some (some (ColumnValue.input typeid text))) :
    printedFor services typeid r = some text := by
  obtain ⟨columnName, columnTypeId, hvalue⟩ := RowSource.holdsValues_row h i _ hget
  rw [RowSource.value] at hvalue
  split at hvalue
  · cases hvalue
  · split at hvalue
    · split at hvalue
      · cases hvalue
      · cases hvalue
    · exact input_of_typedValue hvalue

end Rows

/-! ## The row of the next call -/

section Runs

variable {services : RowServices} {foreignScan : ForeignScan} {inputs : StartInputs}
  {explain_only : Bool} {s s' : Session} {sent : Option Sent} {sstate : OcgeoForeignScanState}
  {elements : List CJson} {b b' b'' : Backend} {node : ℕ} {events : List Event}
  {outputs : List Output} {row : TupleSlot}

/-- **The row of the next call** is made of the next element of the answer. -/
theorem row_of_next
    (hassigned : QueryOperandsAssigned (foreignScan.env inputs) foreignScan.fdw_exprs)
    (hcolumns : ∀ column ∈ foreignScan.fdw_private, 1 ≤ column.varattno)
    (hanswered : Answered foreignScan inputs explain_only elements)
    (hbegin : ocgeoBeginForeignScan foreignScan inputs explain_only s = .ok (sent, sstate, s'))
    (hopen : b.nodes node = some ⟨foreignScan, sstate⟩)
    (hevents : ∀ event ∈ events, event.node = node → event.callback = .iterate)
    (hrun : EventRun.run (Backend.step services) b events = .ok (outputs, b'))
    (hstep : b'.step services ⟨node, .iterate⟩ = .ok (.slot (some row), b'')) :
    ∃ result, elements[events.countP fun event => event.node = node]? = some result.internal ∧
      sstate.toRowSource.row services result = .ok row := by
  obtain ⟨next, hnodes, hcases⟩ := Backend.step_cases hstep
  obtain ⟨before, row', sstate', hafter, hiterate, hrow⟩ : ∃ before row' sstate',
      b'.nodes node = some before ∧
        ocgeoIterateForeignScan services before.fdw_state = .ok (row', sstate') ∧
        row' = some row := by
    rcases hcases with ⟨_, _, _, _, _, -, -, houtput, -⟩ | ⟨before, row', sstate', -, hbefore,
      hiterate, -, houtput, -⟩ | ⟨-, -, houtput, -⟩ | ⟨_, -, houtput, -⟩
    · cases houtput
    · exact ⟨before, row', sstate', hbefore, hiterate, (Output.slot.inj houtput).symm⟩
    · cases houtput
    · cases houtput
  subst hrow
  have hserves := serves_of_run hopen (serves_of_begin hassigned hcolumns hanswered hbegin) hevents
    hrun hafter
  set k := events.countP fun event => event.node = node
  cases helement : elements[k]? with
  | none =>
      rw [List.drop_eq_nil_of_le (List.getElem?_eq_none_iff.mp helement)] at hserves
      rw [hserves.iterate_nil] at hiterate
      cases (Prod.mk.inj (Except.ok.inj hiterate)).1
  | some element =>
      obtain ⟨hlt, rfl⟩ := List.getElem?_eq_some_iff.mp helement
      rw [List.drop_eq_getElem_cons hlt] at hserves
      obtain ⟨result, hresult, ⟨row', sstate₁, hmade, hok, -⟩ | ⟨stop, -, -, herror⟩⟩ :=
        @Serves.iterate_cons services _ _ _ _ hserves
      · rw [hok] at hiterate
        obtain rfl := Option.some.inj (Prod.mk.inj (Except.ok.inj hiterate)).1
        exact ⟨result, by rw [hresult], hmade⟩
      · rw [herror] at hiterate
        cases hiterate

end Runs

/-- A backend with two scans open. -/
def Backend.opened (s : Session) (node other : ScanNode) : Backend :=
  ⟨s, Function.update (Function.update (fun _ => none) 0 (some node)) 1 (some other)⟩

end OcgeoFdw
