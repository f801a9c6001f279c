import OcgeoFdw.Api.Request
import OcgeoFdw.Planning.CanonicalForm

/-! # Starting a scan

The part of `ocgeoBeginForeignScan` that turns the scan clauses into a request: it extracts the
pushable qualifications, reads their values, and keeps the last query and the last minimum
confidence. The values of the parameters come from an environment. -/

namespace OcgeoFdw

open CString

/-- `QUERY_ATT_NAME`. -/
def queryAttName : CString := ofAscii "q"

/-- `MAX_RESULTS_REQUESTED`. -/
def maxResultsRequested : ℤ := 50

/-- How reading the scan clauses goes wrong. -/
inductive ScanFault
  /-- The operator of a clause is missing from the catalog. -/
  | operatorLookupFailed (e : OperatorLookupFailed)
  /-- The column of a qualification is behind the tuple descriptor. -/
  | noSuchAttribute (varattno : ℤ)
  /-- `value` is not assigned. -/
  | uninitialisedValue
  /-- A `Datum` is read as a type it does not have. -/
  | wrongDatumType (value : Datum)

/-- What the loop of `ocgeoBeginForeignScan` has found so far. -/
structure PushedQuals where
  qual_key : Option CString
  qual_value : Option CString
  pushdown : Bool
  min_confidence : ℤ
  deriving DecidableEq

/-- The values of the local variables before the loop. -/
def PushedQuals.initial : PushedQuals := ⟨none, none, false, 0⟩

/-- The restrictions that a scan knows how to push down. -/
inductive Restriction
  | query
  | confidence
  deriving DecidableEq

/-- The two-part test of the loop: `q =` and `confidence >=`. -/
def restrictionOn (attName : CString) (op : Option CString) : Option Restriction :=
  if attName = queryAttName ∧ op = some (ofAscii "=") then some .query
  else if attName = ofAscii "confidence" ∧ op = some (ofAscii ">=") then some .confidence
  else none

/-- `colnameFromTupleVar`: the column at index `varattno - 1` of the tuple descriptor. -/
def colnameFromTupleVar (columns : List CString) (var : Var) : Option CString :=
  if 1 ≤ var.varattno then columns[(var.varattno - 1).toNat]? else none

/-- The value that the switch assigns for the right operand, `none` for SQL null: only parameters and
constants assign one. -/
def qualValue (params : Param → Option Datum) : Expr → Except ScanFault (Option Datum)
  | .param p => .ok (params p)
  | .const c => .ok (if c.constisnull then none else some c.constvalue)
  | _ => .error .uninitialisedValue

/-- `value` after the switch, `none` if `isNull` is set. For any other operand it is what the
variable, which is not initialised, happens to hold. -/
def switchValue (params : Param → Option Datum) (unassigned : Expr → Datum) (right : Expr) :
    Option Datum :=
  match qualValue params right with
  | .ok value => value
  | .error _ => some (unassigned right)

/-- The assignments for a value that is not zero. -/
def PushedQuals.assign (pushed : PushedQuals) (restriction : Option Restriction) (value : Datum) :
    Except ScanFault PushedQuals :=
  match restriction with
  | some .query =>
      match textDatumGetCString value with
      | some text =>
          .ok { pushed with
            qual_key := some queryAttName, qual_value := some text, pushdown := true }
      | none => .error (.wrongDatumType value)
  | some .confidence =>
      match datumGetInt32 value with
      | some min_confidence => .ok { pushed with min_confidence }
      | none => .error (.wrongDatumType value)
  | none => .ok pushed

/-- One round of the loop over the qualifications. -/
def scanQual (columns : List CString) (params : Param → Option Datum) (unassigned : Expr → Datum)
    (pushed : PushedQuals) (qual : Qual) : Except ScanFault PushedQuals :=
  match colnameFromTupleVar columns qual.left with
  | none => .error (.noSuchAttribute qual.left.varattno)
  | some attName =>
      match switchValue params unassigned qual.right with
      | none => .ok pushed
      | some value =>
          if value.isZero then .ok pushed
          else pushed.assign (restrictionOn attName qual.opname) value

/-- The loop over the qualifications. -/
def scanQuals (columns : List CString) (params : Param → Option Datum) (unassigned : Expr → Datum) :
    PushedQuals → List Qual → Except ScanFault PushedQuals
  | pushed, [] => .ok pushed
  | pushed, qual :: quals =>
      match scanQual columns params unassigned pushed qual with
      | .error e => .error e
      | .ok pushed => scanQuals columns params unassigned pushed quals

/-- The loop over `fdw_exprs`. -/
def extractQuals (catalog : Catalog) (base_relids : Relids) :
    List Qual → List Expr → Except OperatorLookupFailed (List Qual)
  | qual_list, [] => .ok qual_list
  | qual_list, expr :: exprs =>
      match extractRestrictions catalog base_relids expr qual_list with
      | .error e => .error e
      | .ok qual_list => extractQuals catalog base_relids qual_list exprs

/-- The table a scan is about, the values of its parameters, and the catalog. The last field is what
`value` happens to hold in a round of the loop that does not assign it. -/
structure ScanEnv where
  catalog : Catalog
  columns : List CString
  scanrelid : ℕ
  params : Param → Option Datum
  unassigned : Expr → Datum

/-- What `ocgeoBeginForeignScan` pushes down for the expressions of the plan. -/
def pushedQuals (env : ScanEnv) (fdw_exprs : List Expr) : Except ScanFault PushedQuals :=
  match extractQuals env.catalog {env.scanrelid} [] fdw_exprs with
  | .error e => .error (.operatorLookupFailed e)
  | .ok qual_list => scanQuals env.columns env.params env.unassigned .initial qual_list

/-- The parameters of the request. -/
def requestParams (min_confidence : ℤ) : OcgeoParams :=
  { ocgeoDefaultParams with
    limit := maxResultsRequested
    min_confidence :=
      if min_confidence ≠ 0 then min_confidence else ocgeoDefaultParams.min_confidence }

/-- The query and the parameters of the request that is sent, if a query is pushed down. -/
def PushedQuals.request (pushed : PushedQuals) : Option (CString × OcgeoParams) :=
  (if pushed.pushdown then pushed.qual_value else none).map fun query =>
    (query, requestParams pushed.min_confidence)

/-! ## One clause at a time -/

section Clauses

variable {env : ScanEnv}

/-- The qualifications extracted before an expression are kept. -/
theorem extractRestrictions_append {catalog : Catalog} {base_relids : Relids} {e : Expr}
    (quals : List Qual) :
    extractRestrictions catalog base_relids e quals =
      (extractRestrictions catalog base_relids e []).map (quals ++ ·) := by
  unfold extractRestrictions
  split
  · rename_i fields args
    unfold extractClauseFromOpExpr
    split
    · rfl
    · split
      · simp [Except.map]
      · simp [Except.map]
    · simp [Except.map]
  · simp [Except.map]

/-- What one expression contributes. -/
def scanClause (env : ScanEnv) (pushed : PushedQuals) (e : Expr) : Except ScanFault PushedQuals :=
  match extractRestrictions env.catalog {env.scanrelid} e [] with
  | .error e => .error (.operatorLookupFailed e)
  | .ok quals => scanQuals env.columns env.params env.unassigned pushed quals

/-- The loop over one qualification. -/
theorem scanQuals_singleton {columns : List CString} {params : Param → Option Datum}
    {unassigned : Expr → Datum} {pushed : PushedQuals} {qual : Qual} :
    scanQuals columns params unassigned pushed [qual] =
      scanQual columns params unassigned pushed qual := by
  rw [scanQuals]
  cases scanQual columns params unassigned pushed qual <;> rfl

/-- The loop over concatenated qualifications. -/
theorem scanQuals_append {columns : List CString} {params : Param → Option Datum}
    {unassigned : Expr → Datum} {pushed : PushedQuals} {xs ys : List Qual} :
    scanQuals columns params unassigned pushed (xs ++ ys) =
      (scanQuals columns params unassigned pushed xs >>= fun pushed =>
        scanQuals columns params unassigned pushed ys) := by
  induction xs generalizing pushed with
  | nil => rfl
  | cons x xs ih =>
      rw [List.cons_append, scanQuals, scanQuals]
      split
      · rfl
      · exact ih

/-- **Clause by clause.** If every expression contributes, one after the other, what `step` says,
the two loops together end with the fold of `step`. -/
theorem pushedQuals_eq_foldl {α : Type*} {expr : α → Expr} {step : PushedQuals → α → PushedQuals}
    (h : ∀ clause pushed, scanClause env pushed (expr clause) = .ok (step pushed clause))
    (clauses : List α) :
    pushedQuals env (clauses.map expr) = .ok (clauses.foldl step .initial) := by
  -- after some clauses, the qualifications extracted scan to the fold over these
  have extend : ∀ (quals : List Qual) (pushed : PushedQuals),
      scanQuals env.columns env.params env.unassigned .initial quals = .ok pushed →
      ∃ quals', extractQuals env.catalog {env.scanrelid} quals (clauses.map expr) = .ok quals' ∧
        scanQuals env.columns env.params env.unassigned .initial quals' =
          .ok (clauses.foldl step pushed) := by
    induction clauses with
    | nil => exact fun quals pushed hquals => ⟨quals, rfl, hquals⟩
    | cons clause clauses ih =>
        intro quals pushed hquals
        have hclause := h clause pushed
        rw [scanClause] at hclause
        split at hclause
        · cases hclause
        · rename_i new hextract
          have hnew : scanQuals env.columns env.params env.unassigned .initial (quals ++ new) =
              .ok (step pushed clause) := by
            rw [scanQuals_append, hquals]
            exact hclause
          obtain ⟨quals', hextract', hscan⟩ := ih (quals ++ new) (step pushed clause) hnew
          refine ⟨quals', ?_, hscan⟩
          rw [List.map_cons, extractQuals, extractRestrictions_append, hextract]
          exact hextract'
  obtain ⟨quals, hextract, hscan⟩ := extend [] .initial rfl
  rw [pushedQuals]
  rw [hextract]
  exact hscan

/-! ## What the loop recognises -/

/-- The operator restricts the column in a way that a scan on this table pushes down. -/
def Restricts (env : ScanEnv) (restriction : Restriction) (opno : Oid) (v : Var) : Prop :=
  v.varno = env.scanrelid ∧ ∃ attName, colnameFromTupleVar env.columns v = some attName ∧
    restrictionOn attName (getOpname env.catalog opno) = some restriction

/-- The executor finds in the clause the restriction of a column by a constant or a parameter. -/
def Recognises (env : ScanEnv) (clause : Expr) (restriction : Restriction) (right : Expr) : Prop :=
  ∃ left opname attName,
    extractRestrictions env.catalog {env.scanrelid} clause [] = .ok [⟨left, opname, right⟩] ∧
      right.isConstOrParam = true ∧ colnameFromTupleVar env.columns left = some attName ∧
      restrictionOn attName opname = some restriction

theorem colnameFromTupleVar_eq_some_iff {columns : List CString} {v : Var} {attName : CString} :
    colnameFromTupleVar columns v = some attName ↔
      1 ≤ v.varattno ∧ columns[(v.varattno - 1).toNat]? = some attName := by
  rw [colnameFromTupleVar]
  split
  · rename_i hattno
    exact (and_iff_right hattno).symm
  · rename_i hattno
    simp [hattno]

/-- **What is recognised**: a restricted column on the left of a constant or a parameter, or on its
right if the operator has a commutator. -/
theorem recognises_iff {fields : OpFields} {o : Operator} {a b right : Expr}
    {restriction : Restriction} (hop : env.catalog.operator fields.opno = some o) :
    Recognises env (.opExpr fields [a, b]) restriction right ↔
      right.isConstOrParam = true ∧
        ((∃ v, unnestClause a = .var v ∧ unnestClause b = right ∧
            Restricts env restriction fields.opno v) ∨
          (∃ v, unnestClause b = .var v ∧ unnestClause a = right ∧ o.oprcom ≠ 0 ∧
            Restricts env restriction o.oprcom v)) := by
  constructor
  · rintro ⟨left, opname, attName, hextract, hright, hcolname, hrestriction⟩
    obtain ⟨opno, hform, hopname, -⟩ :=
      (extractRestrictions_eq_ok_append_iff hop []).mp hextract
    simp only at hform hopname
    subst hopname
    refine ⟨hright, ?_⟩
    cases hform with
    | direct hleft hbase hattno =>
        exact .inl ⟨left, hleft, rfl, Finset.mem_singleton.mp hbase, attName, hcolname,
          hrestriction⟩
    | commuted hleft hbase hattno hother hcom =>
        exact .inr ⟨left, hleft, rfl, hcom, Finset.mem_singleton.mp hbase, attName, hcolname,
          hrestriction⟩
  · rintro ⟨hright, h⟩
    obtain ⟨v, opno, hform, attName, hcolname, hrestriction⟩ : ∃ v opno,
        CanonicalForm {env.scanrelid} fields o a b v opno right ∧ ∃ attName,
          colnameFromTupleVar env.columns v = some attName ∧
            restrictionOn attName (getOpname env.catalog opno) = some restriction := by
      rcases h with ⟨v, hleft, rfl, hbase, attName, hcolname, hrestriction⟩ |
        ⟨v, hleft, rfl, hcom, hbase, attName, hcolname, hrestriction⟩
      · exact ⟨v, fields.opno, .direct hleft (Finset.mem_singleton.mpr hbase)
          (colnameFromTupleVar_eq_some_iff.mp hcolname).1, attName, hcolname, hrestriction⟩
      · refine ⟨v, o.oprcom, .commuted hleft (Finset.mem_singleton.mpr hbase)
          (colnameFromTupleVar_eq_some_iff.mp hcolname).1 ?_ hcom, attName, hcolname, hrestriction⟩
        -- a constant or a parameter is no `Var` at all
        intro w hw
        rw [hw] at hright
        cases hright
    refine ⟨v, _, attName, (extractRestrictions_eq_ok_append_iff hop []).mpr
      ⟨opno, hform, rfl, containVolatileFunctions_of_isConstOrParam _ hright, ?_⟩, hright, hcolname,
      hrestriction⟩
    simp only
    rw [pullVarnos_of_isConstOrParam hright]
    simp

/-- A recognised clause contributes the assignment for its value, unless this is null or zero. -/
theorem scanClause_of_recognises {clause right : Expr} {restriction : Restriction}
    {pushed : PushedQuals} {value : Option Datum} (h : Recognises env clause restriction right)
    (hvalue : qualValue env.params right = .ok value) :
    scanClause env pushed clause =
      match value with
      | none => .ok pushed
      | some value =>
          if value.isZero then .ok pushed else pushed.assign (some restriction) value := by
  obtain ⟨left, opname, attName, hextract, -, hcolname, hrestriction⟩ := h
  rw [scanClause]
  simp only [hextract]
  rw [scanQuals_singleton]
  rw [scanQual, switchValue]
  simp only [hcolname, hvalue, hrestriction]
  cases value <;> rfl

end Clauses

/-! ## A table -/

/-- The rows of `texteq`, `int4le` and `int4ge` in the catalog. -/
def pgCatalog : Catalog where
  operator opno :=
    if opno = 98 then some ⟨ofAscii "=", 98, false⟩
    else if opno = 523 then some ⟨ofAscii "<=", 525, false⟩
    else if opno = 525 then some ⟨ofAscii ">=", 523, false⟩
    else none
  volatileFunction _ := false

/-- A scan of a table with the columns `q` and `confidence`, without parameters. -/
def queryTable : ScanEnv where
  catalog := pgCatalog
  columns := [queryAttName, ofAscii "confidence"]
  scanrelid := 1
  params _ := none
  unassigned _ := .word 0

/-- The fields of an `OpExpr` under an operator with a Boolean result. -/
def booleanFields (opno inputcollid : Oid) : OpFields where
  opno
  opresulttype := 16
  opretset := false
  opcollid := 0
  inputcollid

/-- The column `q` of that table. -/
def queryVar : Var := ⟨1, 1, 25⟩

/-- The column `confidence` of that table. -/
def confidenceVar : Var := ⟨1, 2, 23⟩

/-- A text constant. -/
def textConst (value : CString) : Const := ⟨25, .text value, false⟩

/-- An `int4` constant. -/
def int4Const (value : ℤ) : Const := ⟨23, intGetDatum value, false⟩

/-- `q = 'x'`. -/
def queryEqualsText : Expr :=
  .opExpr (booleanFields 98 100) [.var queryVar, .const (textConst (ofAscii "x"))]

/-- `confidence >= value`. -/
def confidenceAtLeast (value : ℤ) : Expr :=
  .opExpr (booleanFields 525 0) [.var confidenceVar, .const (int4Const value)]

end OcgeoFdw
