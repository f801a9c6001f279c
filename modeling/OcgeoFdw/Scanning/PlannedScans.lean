import OcgeoFdw.Planning.NodeCasts
import OcgeoFdw.Planning.Paths
import OcgeoFdw.Scanning.RowInputs
import OcgeoFdw.Scanning.Rows

/-! # Planned scans

`ocgeoGetForeignPlan`, which hands the clauses of a query and the columns that it needs to the
executor. `row_of_plan` states what the rows of such a scan hold: the columns that the query needs,
and null elsewhere. -/

namespace OcgeoFdw

open CString

/-! ## The callback -/

/-- How `ocgeoGetForeignPlan` goes wrong. -/
inductive GetPlanFault
  | printFault (fault : PrintFault)
  | planFault (fault : PlanFault)

/-- `extract_actual_clauses`: the clauses of the nodes with this flag. Which nodes are pseudoconstant
is a parameter. -/
def extractActualClauses (isPseudoconstant : RestrictInfo → Bool)
    (restrictinfo_list : List RestrictInfo) (pseudoconstant : Bool) : List Expr :=
  (restrictinfo_list.filter fun rinfo => isPseudoconstant rinfo == pseudoconstant).map
    RestrictInfo.clause

/-- What `make_foreignscan` makes: the executor checks the clauses in `qual` on every row. -/
structure ForeignScanPlan extends ForeignScan where
  qual : List Expr

/-- `ocgeoGetForeignPlan`, for a table with these columns. -/
def ocgeoGetForeignPlan (catalog : Catalog) (columns : List CString)
    (isPseudoconstant : RestrictInfo → Bool) (baserel : RelOptInfo)
    (scan_clauses : List RestrictInfo) : Except GetPlanFault ForeignScanPlan :=
  match printRestrictInfoList catalog columns baserel.baserestrictinfo with
  | .error e => .error (.printFault e)
  | .ok _ =>
      match columnList baserel with
      | .error e => .error (.planFault e)
      | .ok colList =>
          let scan_clauses := extractActualClauses isPseudoconstant scan_clauses false
          .ok {
            catalog
            columns
            scanrelid := baserel.relid
            fdw_exprs := scan_clauses
            fdw_private := colList
            qual := scan_clauses }

/-! ## The columns of a plan -/

/-- Every column of the table is needed by its number if the query needs a reference to the whole
row. -/
def WholeRowsNamed (baserel : RelOptInfo) : Prop :=
  ∀ v, Needs baserel v → v.varno = baserel.relid → v.varattno = 0 →
    ∀ attnum : ℕ, 1 ≤ attnum → attnum ≤ baserel.max_attr →
      ∃ w, Needs baserel w ∧ w.varattno = attnum

/-- The row has the values of the columns that the query reads in their positions, and null in those
of columns that it does not name. -/
structure HoldsNeeded (services : RowServices) (baserel : RelOptInfo) (source : RowSource)
    (r : OcgeoResult) (row : TupleSlot) : Prop where
  width : row.length = source.columns.length
  read : ∀ i < source.columns.length, ReadsColumn baserel (i + 1) →
    ∃ column columnName value, Needs baserel column ∧ column.varattno = i + 1 ∧
      source.columns[i]? = some columnName ∧
      source.value services columnName column.vartype r = .ok value ∧ row[i]? = some value
  others : ∀ i < source.columns.length, (∀ w, Needs baserel w → w.varattno ≠ i + 1) →
    row[i]? = some none

section Plans

variable {catalog : Catalog} {columns : List CString} {isPseudoconstant : RestrictInfo → Bool}
  {baserel : RelOptInfo} {scan_clauses : List RestrictInfo} {plan : ForeignScanPlan}

/-- A plan is for the columns of the table and lists those of `ColumnList`. -/
theorem ocgeoGetForeignPlan_eq_ok
    (h : ocgeoGetForeignPlan catalog columns isPseudoconstant baserel scan_clauses = .ok plan) :
    plan.columns = columns ∧ columnList baserel = .ok plan.fdw_private := by
  rw [ocgeoGetForeignPlan] at h
  split at h
  · cases h
  · split at h
    · cases h
    · rename_i colList hcolumns
      obtain rfl := Except.ok.inj h
      exact ⟨rfl, hcolumns⟩

/-- **The column list of a plan** has distinct columns of the table. -/
theorem distinctColumns_of_columnList {listed : List Var} (htargets : TargetsAreVars baserel)
    (hlisted : columnList baserel = .ok listed) (hnames : columns.Nodup)
    (hmax : baserel.max_attr = columns.length) (hbound : columns.length < 2 ^ 15) :
    DistinctColumns columns listed := by
  obtain ⟨listed', hlisted', hascending, hbounds, -⟩ := columnList_eq_ok htargets
  obtain rfl := Except.ok.inj (hlisted'.symm.trans hlisted)
  refine ⟨hnames, hascending.imp fun h => h.ne, fun column hcolumn => ?_⟩
  obtain ⟨-, hlow, hhigh⟩ := hbounds column hcolumn
  omega

/-- The rows of a scan that fills in the columns of `ColumnList`. -/
theorem holdsNeeded_row {services : RowServices} {source : RowSource} {v : CString}
    {r : OcgeoResult} {row : TupleSlot} (htargets : TargetsAreVars baserel)
    (hwhole : WholeRowsNamed baserel) (hlisted : columnList baserel = .ok source.columnList)
    (hmax : baserel.max_attr = source.columns.length)
    (hdistinct : DistinctColumns source.columns source.columnList) (hpushes : source.Pushes v)
    (hrow : source.row services r = .ok row) : HoldsNeeded services baserel source r row := by
  obtain ⟨listed, hlisted', -, hbounds, hfound⟩ := columnList_eq_ok htargets
  obtain rfl := Except.ok.inj (hlisted'.symm.trans hlisted)
  have hfilled := hpushes.filled_of_row hdistinct hrow
  refine ⟨hfilled.width.trans List.length_replicate, ?_, ?_⟩
  · rintro i hi ⟨w, hw, hrel, hattno⟩
    -- a reference to the whole row comes with one to this column
    obtain ⟨named, hnamed, hnumber⟩ : ∃ named, Needs baserel named ∧
        named.varattno = ((i + 1 : ℕ) : ℤ) := by
      rcases hattno with hattno | hzero
      · exact ⟨w, hw, hattno⟩
      · exact hwhole w hw hrel hzero (i + 1) (by omega) (by omega)
    obtain ⟨column, hcolumn, hattno⟩ := hfound (i + 1) (by omega) (by omega) named hnamed hnumber
    have hposition : column.position = i := by
      rw [Var.position]
      omega
    obtain ⟨value, hvalue⟩ := hpushes.exists_value_of_fillColumns hdistinct (fun _ hmem => hmem) hrow
      column hcolumn source.columns[i] (by rw [hposition, List.getElem?_eq_getElem hi])
    refine ⟨column, source.columns[i], value, (hbounds column hcolumn).1, by exact_mod_cast hattno,
      List.getElem?_eq_getElem hi, hvalue, ?_⟩
    rw [← hposition]
    exact hfilled.value column hcolumn _ value
      (by rw [hposition, List.getElem?_eq_getElem hi]) hvalue
  · intro i hi hfree
    -- a listed column in this position would be one that the query needs
    rw [hfilled.rest i, List.getElem?_replicate, if_pos hi]
    intro column hcolumn hposition
    obtain ⟨hneeds, hlow, -⟩ := hbounds column hcolumn
    refine hfree column hneeds ?_
    rw [Var.position] at hposition
    omega

end Plans

/-! ## From the plan to the rows -/

section Runs

variable {services : RowServices} {catalog : Catalog} {columns : List CString}
  {isPseudoconstant : RestrictInfo → Bool} {baserel : RelOptInfo}
  {scan_clauses : List RestrictInfo} {plan : ForeignScanPlan} {foreignScan : ForeignScan}
  {inputs : StartInputs} {explain_only : Bool} {s s' : Session} {sent : Option Sent}
  {sstate : OcgeoForeignScanState} {elements : List CJson} {b b' b'' : Backend} {node : ℕ}
  {events : List Event} {outputs : List Output} {row : TupleSlot}

/-- A start that gets a result has pushed a query down. -/
theorem pushes_of_answered {element : CJson}
    (hassigned : QueryOperandsAssigned (foreignScan.env inputs) foreignScan.fdw_exprs)
    (hanswered : Answered foreignScan inputs explain_only elements) (hmem : element ∈ elements)
    (hbegin : ocgeoBeginForeignScan foreignScan inputs explain_only s = .ok (sent, sstate, s')) :
    sstate.columns = foreignScan.columns ∧ sstate.columnList = foreignScan.fdw_private ∧
      ∃ v, sstate.toRowSource.Pushes v := by
  cases hanswered with
  | explained => cases hmem
  | unbound h => cases hmem
  | noReply h => cases hmem
  | rejected h hcode hne => cases hmem
  | found hreplied hlists =>
      obtain ⟨-, -, -, -, ⟨-, hnone, -⟩ | ⟨-, hbound, -⟩⟩ := begin_sends (fun _ => hassigned) hbegin
      · exact absurd hreplied (hnone _ rfl)
      · obtain ⟨hcolumns, hlist, pushed, v, -, -, hpushes⟩ :=
          pushes_of_begin hassigned hbound hbegin
        exact ⟨hcolumns, hlist, v, hpushes⟩

/-- **The rows of a planned scan.** A scan of the plan for a query is started and its rows are fetched
any number of times while other scans go on: the next row is made of the next element of the answer.
It has the values of the columns that the query reads in their positions, and null in those of columns
that it does not name. -/
theorem row_of_plan (htargets : TargetsAreVars baserel) (hwhole : WholeRowsNamed baserel)
    (hnames : columns.Nodup)
    (hmax : baserel.max_attr = columns.length) (hbound : columns.length < 2 ^ 15)
    (hplan : ocgeoGetForeignPlan catalog columns isPseudoconstant baserel scan_clauses = .ok plan)
    (hassigned : QueryOperandsAssigned (plan.env inputs) plan.fdw_exprs)
    (hanswered : Answered plan.toForeignScan inputs explain_only elements)
    (hbegin : ocgeoBeginForeignScan plan.toForeignScan inputs explain_only s =
      .ok (sent, sstate, s'))
    (hopen : b.nodes node = some ⟨plan.toForeignScan, sstate⟩)
    (hevents : ∀ event ∈ events, event.node = node → event.callback = .iterate)
    (hrun : EventRun.run (Backend.step services) b events = .ok (outputs, b'))
    (hstep : b'.step services ⟨node, .iterate⟩ = .ok (.slot (some row), b'')) :
    ∃ result, elements[events.countP fun event => event.node = node]? = some result.internal ∧
      HoldsNeeded services baserel sstate.toRowSource result row := by
  obtain ⟨hcolumns, hlisted⟩ := ocgeoGetForeignPlan_eq_ok hplan
  have hdistinct := distinctColumns_of_columnList htargets hlisted hnames hmax hbound
  obtain ⟨result, helement, hrow⟩ :=
    row_of_next hassigned (fun column hcolumn => (hdistinct.ofTable column hcolumn).1) hanswered
      hbegin hopen hevents hrun hstep
  obtain ⟨hsource, hlist, v, hpushes⟩ :=
    pushes_of_answered hassigned hanswered (List.mem_of_getElem? helement) hbegin
  rw [hcolumns] at hsource
  refine ⟨result, helement, holdsNeeded_row htargets hwhole ?_ ?_ ?_ hpushes hrow⟩
  · rw [hlist, hlisted]
  · rw [hsource, hmax]
  · rwa [hsource, hlist]

end Runs

/-- The whole row of the table with the columns `q` and `confidence`. -/
def wholeRowVar : Var := ⟨1, 0, 2249⟩

theorem wholeRowsNamed_confidence :
    WholeRowsNamed (queryOf [.var wholeRowVar, .var confidenceVar]) := by
  intro v _ _ _ attnum hlow hhigh
  have hcases : attnum = 1 ∨ attnum = 2 := by
    have hmax : attnum ≤ 2 := hhigh
    omega
  rcases hcases with rfl | rfl
  · exact ⟨queryVar, .inr ⟨queryEqualsText, List.mem_cons_self,
      .opExpr List.mem_cons_self .var⟩, rfl⟩
  · exact ⟨confidenceVar, .inl (List.mem_cons_of_mem _ List.mem_cons_self), rfl⟩

/-- The plan for the whole row and the confidence where `q = 'x'` is that of `queryScan`. In a scan of
two results, after the first row and one of another scan, the second row has the query and the
confidence of the second result. -/
theorem row_of_plan_confidence :
    ∃ (plan : ForeignScanPlan) (sstate : OcgeoForeignScanState) (result : OcgeoResult),
      ocgeoGetForeignPlan pgCatalog queryTable.columns (fun _ => false)
          (queryOf [.var wholeRowVar, .var confidenceVar]) [⟨queryEqualsText, ∅⟩] = .ok plan ∧
        plan.toForeignScan = queryScan ∧ result.internal = bareResult ∧
        HoldsNeeded acceptingServices (queryOf [.var wholeRowVar, .var confidenceVar])
          sstate.toRowSource result
          [some (.datum (.text (ofAscii "x"))), some (.datum (intGetDatum 9))] := by
  have hanswered : Answered queryScan (repliedInputs (announces 2 [boundedResult, bareResult])) false
      [boundedResult, bareResult] :=
    .found ⟨_, _, _, rfl, rfl, rfl⟩ ⟨rfl, ⟨_, rfl, rfl⟩, fun _ => rfl⟩
  have htargets : TargetsAreVars (queryOf [.var wholeRowVar, .var confidenceVar]) := by
    intro e he
    rcases List.mem_pair.mp he with rfl | rfl
    · exact ⟨wholeRowVar, rfl, rfl, le_rfl⟩
    · exact ⟨confidenceVar, rfl, rfl, by decide⟩
  obtain ⟨sent, sstate, s', outputs, b', b'', hbegin, hrun, hstep⟩ : ∃ sent sstate s' outputs b' b'',
      ocgeoBeginForeignScan queryScan (repliedInputs (announces 2 [boundedResult, bareResult])) false
        (Session.start [⟨0, 0⟩, ⟨0, 0⟩, ⟨0, 0⟩]) = .ok (sent, sstate, s') ∧
      EventRun.run (Backend.step acceptingServices)
        (Backend.opened s' ⟨queryScan, sstate⟩ ⟨queryScan, sstate⟩)
        [⟨0, .iterate⟩, ⟨1, .iterate⟩] = .ok (outputs, b') ∧
      b'.step acceptingServices ⟨0, .iterate⟩ =
        .ok (.slot (some [some (.datum (.text (ofAscii "x"))), some (.datum (intGetDatum 9))]),
          b'') :=
    ⟨_, _, _, _, _, _, rfl, rfl, rfl⟩
  have hplan : ocgeoGetForeignPlan pgCatalog queryTable.columns (fun _ => false)
      (queryOf [.var wholeRowVar, .var confidenceVar]) [⟨queryEqualsText, ∅⟩] =
        .ok ⟨queryScan, [queryEqualsText]⟩ := rfl
  have hnames : queryTable.columns.Nodup := by decide
  obtain ⟨result, hresult, hholds⟩ := row_of_plan htargets wholeRowsNamed_confidence hnames rfl
    (by decide) hplan (queryOperandsAssigned_queryScan _) hanswered hbegin rfl (by simp) hrun hstep
  exact ⟨_, sstate, result, hplan, rfl, (Option.some.inj hresult).symm, hholds⟩

end OcgeoFdw
