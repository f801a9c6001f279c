import OcgeoFdw.Planning.Classification
import OcgeoFdw.Scanning.RowConversion

/-! # The columns that a scan fetches

`ColumnList`, which collects the columns of a foreign table that a query needs. `fetchesColumns_iff`
states for which queries it finds all of them: a reference to the whole row names no column. -/

namespace OcgeoFdw

/-- The fields of `RelOptInfo` that are read: the table's index in the query, its number of columns,
the target expressions and the clauses of `baserestrictinfo`. -/
structure RelOptInfo where
  relid : ℕ
  max_attr : ℕ
  reltarget : List Expr
  baserestrictinfo : List Expr

mutual

/-- `pull_var_clause`: the `Var`s of an expression, in the order of the walk. -/
def pullVarClause : Expr → List Var
  | .var v => [v]
  | .const _ | .param _ => []
  | .funcExpr _ args | .opExpr _ args | .other _ args => pullVarClauseList args
  | .relabelType arg _ => pullVarClause arg
  | .arrayCoerceExpr arg elemexpr => pullVarClause arg ++ pullVarClause elemexpr

/-- The walk of `pull_var_clause` over a list. -/
def pullVarClauseList : List Expr → List Var
  | [] => []
  | e :: es => pullVarClause e ++ pullVarClauseList es

end

/-- `equal` of a node and a `Var`. -/
def Expr.equalsVar (v : Var) : Expr → Bool
  | .var w => w = v
  | _ => false

/-- One round of `list_union`: append a `Var` that the list does not have. -/
def unionVar (needed : List Expr) (v : Var) : List Expr :=
  if needed.any (Expr.equalsVar v) then needed else needed ++ [.var v]

/-- `list_union` with a list of `Var`s. -/
def listUnion (needed : List Expr) (vars : List Var) : List Expr := vars.foldl unionVar needed

/-- `neededColumnList`: the target expressions, and the `Var`s of the restriction clauses. -/
def neededColumnList (baserel : RelOptInfo) : List Expr :=
  baserel.baserestrictinfo.foldl (fun needed clause => listUnion needed (pullVarClause clause))
    baserel.reltarget

/-- The inner loop: the first needed column of that number. -/
def findColumn (columnIndex : ℕ) : List Expr → Except PlanFault (Option Var)
  | [] => .ok none
  | needed :: rest =>
      match castNodeVar needed with
      | none => .error .notAVar
      | some neededColumn =>
          if neededColumn.varattno = columnIndex then .ok (some neededColumn)
          else findColumn columnIndex rest

/-- The loop over the column numbers. -/
def columnLoop (needed : List Expr) : List Var → List ℕ → Except PlanFault (List Var)
  | columnList, [] => .ok columnList
  | columnList, columnIndex :: rest =>
      match findColumn columnIndex needed with
      | .error e => .error e
      | .ok none => columnLoop needed columnList rest
      | .ok (some column) => columnLoop needed (columnList ++ [column]) rest

/-- `ColumnList`. -/
def columnList (baserel : RelOptInfo) : Except PlanFault (List Var) :=
  columnLoop (neededColumnList baserel) [] (List.range' 1 baserel.max_attr)

/-! ## What a query reads -/

/-- The `Var` occurs in the expression. -/
inductive Occurs (v : Var) : Expr → Prop
  | var : Occurs v (.var v)
  | funcExpr {funcid : Oid} {args : List Expr} {arg : Expr} (hmem : arg ∈ args)
      (h : Occurs v arg) : Occurs v (.funcExpr funcid args)
  | opExpr {fields : OpFields} {args : List Expr} {arg : Expr} (hmem : arg ∈ args)
      (h : Occurs v arg) : Occurs v (.opExpr fields args)
  | relabelType {arg : Expr} {resulttype : Oid} (h : Occurs v arg) :
      Occurs v (.relabelType arg resulttype)
  | arrayCoerceArg {arg elemexpr : Expr} (h : Occurs v arg) :
      Occurs v (.arrayCoerceExpr arg elemexpr)
  | arrayCoerceElem {arg elemexpr : Expr} (h : Occurs v elemexpr) :
      Occurs v (.arrayCoerceExpr arg elemexpr)
  | other {volatile : Bool} {args : List Expr} {arg : Expr} (hmem : arg ∈ args)
      (h : Occurs v arg) : Occurs v (.other volatile args)

/-- The `Var` is a target, or occurs in a restriction clause. -/
def Needs (baserel : RelOptInfo) (v : Var) : Prop :=
  .var v ∈ baserel.reltarget ∨ ∃ clause ∈ baserel.baserestrictinfo, Occurs v clause

/-- The query reads the column: by its number, or with the whole row, which has number 0. -/
def ReadsColumn (baserel : RelOptInfo) (attnum : ℕ) : Prop :=
  ∃ v, Needs baserel v ∧ v.varno = baserel.relid ∧ (v.varattno = attnum ∨ v.varattno = 0)

/-- The targets are `Var`s of the table: columns and references to the whole row. -/
def TargetsAreVars (baserel : RelOptInfo) : Prop :=
  ∀ e ∈ baserel.reltarget, ∃ v, e = .var v ∧ v.varno = baserel.relid ∧ 0 ≤ v.varattno

/-- The list has each column at most once, in ascending order, and every column that the query
reads. -/
def FetchesColumns (baserel : RelOptInfo) : Prop :=
  ∃ columns, columnList baserel = .ok columns ∧
    (columns.map Var.varattno).Pairwise (· < ·) ∧
    (∀ column ∈ columns, 1 ≤ column.varattno ∧ column.varattno ≤ baserel.max_attr) ∧
    ∀ attnum : ℕ, 1 ≤ attnum → attnum ≤ baserel.max_attr → ReadsColumn baserel attnum →
      ∃ column ∈ columns, column.varattno = attnum

/-! ## The walk -/

section ColumnList

variable {baserel : RelOptInfo} {v : Var}

mutual

/-- `pull_var_clause` finds the `Var`s that occur. -/
theorem mem_pullVarClause_iff : ∀ e : Expr, v ∈ pullVarClause e ↔ Occurs v e
  | .var w => by
      rw [pullVarClause, List.mem_singleton]
      constructor
      · rintro rfl
        exact .var
      · intro h
        cases h
        rfl
  | .const c => by
      rw [pullVarClause]
      exact iff_of_false List.not_mem_nil fun h => nomatch h
  | .param p => by
      rw [pullVarClause]
      exact iff_of_false List.not_mem_nil fun h => nomatch h
  | .funcExpr funcid args => by
      rw [pullVarClause, mem_pullVarClauseList_iff args]
      constructor
      · rintro ⟨arg, hmem, h⟩
        exact .funcExpr hmem h
      · rintro (_ | ⟨hmem, h⟩)
        exact ⟨_, hmem, h⟩
  | .opExpr fields args => by
      rw [pullVarClause, mem_pullVarClauseList_iff args]
      constructor
      · rintro ⟨arg, hmem, h⟩
        exact .opExpr hmem h
      · intro h
        cases h with
        | opExpr hmem h => exact ⟨_, hmem, h⟩
  | .relabelType arg resulttype => by
      rw [pullVarClause, mem_pullVarClause_iff arg]
      constructor
      · exact .relabelType
      · intro h
        cases h with
        | relabelType h => exact h
  | .arrayCoerceExpr arg elemexpr => by
      rw [pullVarClause, List.mem_append, mem_pullVarClause_iff arg,
        mem_pullVarClause_iff elemexpr]
      constructor
      · rintro (h | h)
        · exact .arrayCoerceArg h
        · exact .arrayCoerceElem h
      · intro h
        cases h with
        | arrayCoerceArg h => exact .inl h
        | arrayCoerceElem h => exact .inr h
  | .other volatile args => by
      rw [pullVarClause, mem_pullVarClauseList_iff args]
      constructor
      · rintro ⟨arg, hmem, h⟩
        exact .other hmem h
      · intro h
        cases h with
        | other hmem h => exact ⟨_, hmem, h⟩

/-- The same over a list. -/
theorem mem_pullVarClauseList_iff :
    ∀ es : List Expr, v ∈ pullVarClauseList es ↔ ∃ e ∈ es, Occurs v e
  | [] => by simp [pullVarClauseList]
  | e :: es => by
      rw [pullVarClauseList, List.mem_append, mem_pullVarClause_iff e,
        mem_pullVarClauseList_iff es]
      simp

end

/-! ## The needed columns -/

theorem equalsVar_iff {e : Expr} : e.equalsVar v = true ↔ e = .var v := by
  cases e <;> simp [Expr.equalsVar]

/-- A `Var` is appended unless the list has it. -/
theorem mem_unionVar_iff {needed : List Expr} {w : Var} {e : Expr} :
    e ∈ unionVar needed w ↔ e ∈ needed ∨ e = .var w := by
  rw [unionVar]
  split
  · rename_i h
    obtain ⟨e', hmem, heq⟩ := List.any_eq_true.mp h
    rw [equalsVar_iff.mp heq] at hmem
    refine (or_iff_left_of_imp ?_).symm
    rintro rfl
    exact hmem
  · rw [List.mem_append, List.mem_singleton]

/-- The union has the elements of both lists. -/
theorem mem_listUnion_iff {needed : List Expr} {vars : List Var} {e : Expr} :
    e ∈ listUnion needed vars ↔ e ∈ needed ∨ ∃ w ∈ vars, e = .var w := by
  rw [listUnion]
  induction vars generalizing needed with
  | nil => simp
  | cons w vars ih =>
      rw [List.foldl_cons, ih, mem_unionVar_iff]
      simp [or_assoc]

/-- The needed columns are the targets and the `Var`s that occur in the clauses. -/
theorem mem_neededColumnList_iff {e : Expr} :
    e ∈ neededColumnList baserel ↔ e ∈ baserel.reltarget ∨
      ∃ clause ∈ baserel.baserestrictinfo, ∃ w, Occurs w clause ∧ e = .var w := by
  have hfold : ∀ (clauses needed : List Expr),
      e ∈ clauses.foldl (fun needed clause => listUnion needed (pullVarClause clause)) needed ↔
        e ∈ needed ∨ ∃ clause ∈ clauses, ∃ w, Occurs w clause ∧ e = .var w := by
    intro clauses
    induction clauses with
    | nil => simp
    | cons clause clauses ih =>
        intro needed
        rw [List.foldl_cons, ih, mem_listUnion_iff]
        simp only [mem_pullVarClause_iff, List.mem_cons, exists_eq_or_imp, or_assoc]
  exact hfold _ _

/-- A `Var` is in the list exactly if the query needs it. -/
theorem var_mem_neededColumnList_iff : .var v ∈ neededColumnList baserel ↔ Needs baserel v := by
  rw [mem_neededColumnList_iff]
  rw [Needs]
  simp

/-- Every needed column of a query over `Var`s is a `Var`. -/
theorem exists_var_of_mem_neededColumnList (htargets : TargetsAreVars baserel) {e : Expr}
    (h : e ∈ neededColumnList baserel) : ∃ w, e = .var w ∧ Needs baserel w := by
  have hvar : ∃ w, e = .var w := by
    rcases mem_neededColumnList_iff.mp h with htarget | ⟨clause, -, w, -, hw⟩
    · obtain ⟨w, hw, -⟩ := htargets e htarget
      exact ⟨w, hw⟩
    · exact ⟨w, hw⟩
  obtain ⟨w, rfl⟩ := hvar
  exact ⟨w, rfl, var_mem_neededColumnList_iff.mp h⟩

/-! ## The loop over the column numbers -/

/-- Over `Var`s the inner loop returns a needed column of the number, if there is one. -/
theorem findColumn_cases {columnIndex : ℕ} {needed : List Expr}
    (hvars : ∀ e ∈ needed, ∃ w, e = .var w) :
    (∃ column, findColumn columnIndex needed = .ok (some column) ∧ .var column ∈ needed ∧
        column.varattno = columnIndex) ∨
      findColumn columnIndex needed = .ok none ∧
        ∀ w : Var, .var w ∈ needed → w.varattno ≠ columnIndex := by
  induction needed with
  | nil => exact .inr ⟨rfl, fun w hw => nomatch hw⟩
  | cons e needed ih =>
      obtain ⟨w, rfl⟩ := hvars e List.mem_cons_self
      rw [findColumn, castNodeVar]
      by_cases hattno : w.varattno = columnIndex
      · refine .inl ⟨w, ?_, List.mem_cons_self, hattno⟩
        simp only [if_pos hattno]
      · simp only [if_neg hattno]
        rcases ih fun e he => hvars e (List.mem_cons_of_mem _ he) with
          ⟨column, hfind, hmem, hcolumn⟩ | ⟨hfind, hnone⟩
        · exact .inl ⟨column, hfind, List.mem_cons_of_mem _ hmem, hcolumn⟩
        · refine .inr ⟨hfind, fun w' hw' => ?_⟩
          rcases List.mem_cons.mp hw' with heq | hw'
          · rw [Expr.var.inj heq]
            exact hattno
          · exact hnone w' hw'

/-- **The loop** appends needed `Var`s in the order of the numbers, one for every number that a needed
`Var` has. -/
theorem columnLoop_eq_ok {needed : List Expr} (hvars : ∀ e ∈ needed, ∃ w, e = .var w)
    (columns : List Var) (indices : List ℕ) :
    ∃ found, columnLoop needed columns indices = .ok (columns ++ found) ∧
      (found.map Var.varattno).Sublist (indices.map Nat.cast) ∧
      (∀ column ∈ found, .var column ∈ needed) ∧
      ∀ i ∈ indices, ∀ w, .var w ∈ needed → w.varattno = (i : ℤ) →
        ∃ column ∈ found, column.varattno = (i : ℤ) := by
  induction indices generalizing columns with
  | nil => exact ⟨[], by simp [columnLoop], by simp, by simp, by simp⟩
  | cons index indices ih =>
      rw [columnLoop]
      rcases findColumn_cases hvars with ⟨column, hfind, hmem, hattno⟩ | ⟨hfind, hnone⟩
      · obtain ⟨found, hloop, hsub, hneeded, hfound⟩ := ih (columns ++ [column])
        refine ⟨column :: found, ?_, ?_, List.forall_mem_cons.mpr ⟨hmem, hneeded⟩, ?_⟩
        · rw [hfind]
          simp only
          rw [hloop, List.append_assoc, List.singleton_append]
        · rw [List.map_cons, List.map_cons, hattno]
          exact hsub.cons_cons _
        · intro i hi w hw hwi
          rcases List.mem_cons.mp hi with rfl | hi
          · exact ⟨column, List.mem_cons_self, hattno⟩
          · obtain ⟨column', hmem', hcolumn'⟩ := hfound i hi w hw hwi
            exact ⟨column', List.mem_cons_of_mem column hmem', hcolumn'⟩
      · obtain ⟨found, hloop, hsub, hneeded, hfound⟩ := ih columns
        refine ⟨found, ?_, hsub.cons _, hneeded, ?_⟩
        · rw [hfind]
          exact hloop
        · intro i hi w hw hwi
          rcases List.mem_cons.mp hi with rfl | hi
          · exact absurd hwi (hnone w hw)
          · exact hfound i hi w hw hwi

/-- **What `ColumnList` returns** for targets that are `Var`s: columns in ascending order, one for
every number of a column of the table that a needed `Var` has. -/
theorem columnList_eq_ok (htargets : TargetsAreVars baserel) :
    ∃ columns, columnList baserel = .ok columns ∧
      (columns.map Var.varattno).Pairwise (· < ·) ∧
      (∀ column ∈ columns,
        Needs baserel column ∧ 1 ≤ column.varattno ∧ column.varattno ≤ baserel.max_attr) ∧
      ∀ attnum : ℕ, 1 ≤ attnum → attnum ≤ baserel.max_attr → ∀ w, Needs baserel w →
        w.varattno = attnum → ∃ column ∈ columns, column.varattno = attnum := by
  have hvars : ∀ e ∈ neededColumnList baserel, ∃ w, e = .var w := fun e he =>
    (exists_var_of_mem_neededColumnList htargets he).imp fun _ h => h.1
  obtain ⟨columns, hloop, hsub, hneeded, hfound⟩ :=
    columnLoop_eq_ok hvars [] (List.range' 1 baserel.max_attr)
  refine ⟨columns, hloop, ?_, ?_, ?_⟩
  · refine List.Pairwise.sublist hsub ?_
    rw [List.pairwise_map]
    exact (List.pairwise_lt_range' 1 Nat.one_pos).imp fun h => Int.ofNat_lt.mpr h
  · intro column hcolumn
    refine ⟨var_mem_neededColumnList_iff.mp (hneeded column hcolumn), ?_⟩
    obtain ⟨i, hi, hattno⟩ := List.mem_map.mp (hsub.subset (List.mem_map_of_mem hcolumn))
    obtain ⟨hlow, hhigh⟩ := List.mem_range'_1.mp hi
    rw [← hattno]
    omega
  · intro attnum hlow hhigh w hw hattno
    refine hfound attnum (List.mem_range'_1.mpr (by omega)) w ?_ hattno
    exact var_mem_neededColumnList_iff.mpr hw

/-- **The columns fetched.** Every column that a query reads is fetched if and only if a reference to
the whole row comes with a reference to each of its columns. -/
theorem fetchesColumns_iff (htargets : TargetsAreVars baserel) :
    FetchesColumns baserel ↔
      ∀ v, Needs baserel v → v.varno = baserel.relid → v.varattno = 0 →
        ∀ attnum : ℕ, 1 ≤ attnum → attnum ≤ baserel.max_attr →
          ∃ w, Needs baserel w ∧ w.varattno = attnum := by
  obtain ⟨columns, hcolumns, hascending, hbounds, hfound⟩ := columnList_eq_ok htargets
  constructor
  · rintro ⟨columns', hcolumns', -, -, hreads⟩ v hv hrel hzero attnum hlow hhigh
    obtain rfl := Except.ok.inj (hcolumns.symm.trans hcolumns')
    obtain ⟨column, hmem, hattno⟩ := hreads attnum hlow hhigh ⟨v, hv, hrel, .inr hzero⟩
    exact ⟨column, (hbounds column hmem).1, hattno⟩
  · intro h
    refine ⟨columns, hcolumns, hascending, fun column hmem => (hbounds column hmem).2, ?_⟩
    rintro attnum hlow hhigh ⟨v, hv, hrel, hattno | hzero⟩
    · exact hfound attnum hlow hhigh v hv hattno
    · obtain ⟨w, hw, hattno⟩ := h v hv hrel hzero attnum hlow hhigh
      exact hfound attnum hlow hhigh w hw hattno

end ColumnList

/-! ## Two queries -/

/-- The table with the columns `q` and `confidence`, in a query that reads the targets where
`q = 'x'`. -/
def queryOf (reltarget : List Expr) : RelOptInfo where
  relid := 1
  max_attr := 2
  reltarget
  baserestrictinfo := [queryEqualsText]

/-- A query for the confidence. -/
theorem fetchesColumns_confidence :
    FetchesColumns (queryOf [.var confidenceVar]) ↔
      ∀ v, Needs (queryOf [.var confidenceVar]) v → v.varno = 1 → v.varattno = 0 →
        ∀ attnum : ℕ, 1 ≤ attnum → attnum ≤ 2 →
          ∃ w, Needs (queryOf [.var confidenceVar]) w ∧ w.varattno = attnum :=
  fetchesColumns_iff fun e he => by
    rw [List.mem_singleton.mp he]
    exact ⟨confidenceVar, rfl, rfl, by decide⟩

/-- A query for the whole row does not fetch the confidence, which is then null in every row. -/
theorem not_fetchesColumns :
    (¬ ∀ baserel, TargetsAreVars baserel → FetchesColumns baserel) ∧
      columnList (queryOf [.var ⟨1, 0, 2249⟩]) = .ok [queryVar] ∧
      ∀ services (source : RowSource) r row, source.columns = queryTable.columns →
        source.columnList = [queryVar] →
        columnMappingHash source.columns source.columnList = .ok source.columnMappingHash →
        source.row services r = .ok row → row[1]? = some none := by
  refine ⟨?_, rfl, ?_⟩
  · intro h
    have htargets : TargetsAreVars (queryOf [.var ⟨1, 0, 2249⟩]) := fun e he => by
      rw [List.mem_singleton.mp he]
      exact ⟨⟨1, 0, 2249⟩, rfl, rfl, le_rfl⟩
    obtain ⟨columns, hcolumns, -, -, hreads⟩ := h _ htargets
    obtain rfl : [queryVar] = columns := Except.ok.inj hcolumns
    obtain ⟨column, hmem, hattno⟩ := hreads 2 (by decide) le_rfl
      ⟨⟨1, 0, 2249⟩, .inl List.mem_cons_self, rfl, .inr rfl⟩
    rw [List.mem_singleton.mp hmem] at hattno
    cases hattno
  · intro services source r row hcolumns hlist hmappings hrow
    refine RowSource.row_null_of_not_listed hmappings (by rw [hcolumns]; decide) ?_ hrow
    intro column hcolumn
    rw [hlist] at hcolumn
    rw [List.mem_singleton.mp hcolumn]
    decide

end OcgeoFdw
