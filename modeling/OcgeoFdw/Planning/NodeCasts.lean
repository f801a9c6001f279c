import OcgeoFdw.Api.Request
import OcgeoFdw.Foundation.Completion
import OcgeoFdw.Planning.Classification

/-! # Node casts while planning

`printRestrictInfoList`, which prints the restriction clauses of a scan, and the casts of it and of
`classifyConditions`. `castsHold_iff` states for which clauses every node that is cast to a `Var` or
to a `Const` is one. -/

namespace OcgeoFdw

open CString

/-- How `printRestrictInfoList` goes wrong. -/
inductive PrintFault
  /-- `linitial_node (Var, ...)` on a node of another type. -/
  | notAVar
  /-- `lsecond_node (Const, ...)` without a second argument, or on a node of another type. -/
  | notAConst
  /-- `get_attname` finds no column of that number. -/
  | noSuchAttribute (attnum : ℤ)
  /-- The value of the constant is read as a type it does not have. -/
  | wrongDatumType (value : Datum)

/-- A cast to `Const` that checks the tag. -/
def castNodeConst : Expr → Option Const
  | .const c => some c
  | _ => none

/-- The text that the switch over `vartype` prints. -/
def printValue (var : Var) (con : Const) : Except PrintFault CString :=
  if var.vartype = 25 ∨ var.vartype = 1043 then
    match textDatumGetCString con.constvalue with
    | some text => .ok (ofAscii "'" ++ text ++ ofAscii "')")
    | none => .error (.wrongDatumType con.constvalue)
  else if var.vartype = 23 ∨ var.vartype = 21 then
    match datumGetInt32 con.constvalue with
    | some n => .ok (showInt n ++ ofAscii ")")
    | none => .error (.wrongDatumType con.constvalue)
  else .ok (ofAscii "..\x7b" ++ showInt var.vartype ++ ofAscii "\x7d)")

/-- One round of the loop of `printRestrictInfoList`, with checked casts: `none` for a clause that
it skips. -/
def printClause (catalog : Catalog) (columns : List CString) :
    Expr → Except PrintFault (Option CString)
  | .opExpr fields (arg₀ :: rest) =>
      match castNodeVar arg₀ with
      | none => .error .notAVar
      | some var =>
          match rest.head?.bind castNodeConst with
          | none => .error .notAConst
          | some con =>
              match getAttname columns var.varattno with
              | none => .error (.noSuchAttribute var.varattno)
              | some attName =>
                  match printValue var con with
                  | .error e => .error e
                  | .ok value =>
                      let opname := (getOpname catalog fields.opno).getD (ofAscii "(null)")
                      .ok (some (ofAscii "(" ++ attName ++ ofAscii " " ++ opname ++ ofAscii " " ++
                        value))
  | _ => .ok none

/-- The loop of `printRestrictInfoList`. -/
def printClauses (catalog : Catalog) (columns : List CString) :
    CString → List Expr → Except PrintFault CString
  | d, [] => .ok d
  | d, clause :: l =>
      match printClause catalog columns clause with
      | .error e => .error e
      | .ok none => printClauses catalog columns d l
      | .ok (some text) =>
          printClauses catalog columns
            (d ++ text ++ if l.isEmpty then [] else ofAscii " AND ") l

/-- `printRestrictInfoList`: the message, if there are clauses. -/
def printRestrictInfoList (catalog : Catalog) (columns : List CString) (l : List Expr) :
    Except PrintFault (Option CString) :=
  if l.isEmpty then .ok none else (printClauses catalog columns [] l).map some

section NodeCasts

variable {env : ScanEnv} {clauses : List Expr}

/-- Every cast that the planner makes over the clauses holds. -/
def CastsHold (env : ScanEnv) (clauses : List Expr) : Prop :=
  classifyConditions env.catalog env.columns castNodeVar {env.scanrelid} [] [] clauses ≠
      .error .notAVar ∧
    printRestrictInfoList env.catalog env.columns clauses ≠ .error .notAVar ∧
    printRestrictInfoList env.catalog env.columns clauses ≠ .error .notAConst

/-- The clause is printed or skipped, without an error. -/
def Prints (env : ScanEnv) (clause : Expr) : Prop :=
  ∃ text, printClause env.catalog env.columns clause = .ok text

/-- A binary clause with a constant on its right has a `Var` on its left. -/
def ConstHasVar (clause : Expr) : Prop :=
  ∀ fields a c, clause = .opExpr fields [a, .const c] → ∃ v, a = .var v

/-- A clause of an operator with arguments has a `Var` for its first one and a constant for its
second one. -/
def VarThenConst (clause : Expr) : Prop :=
  ∀ fields arg₀ rest, clause = .opExpr fields (arg₀ :: rest) →
    (∃ v, arg₀ = .var v) ∧ ∃ c rest', rest = .const c :: rest'

/-! ## The loops stop at the first error -/

/-- The error of the loop of `classifyConditions`. -/
theorem classifyConditions_eq_error_iff {catalog : Catalog} {columns : List CString}
    {castVar : Expr → Option Var} {relids : Relids} {remote_conds local_conds : List Expr}
    {e : PlanFault} :
    classifyConditions catalog columns castVar relids remote_conds local_conds clauses = .error e ↔
      Except.firstError (classifyClause catalog columns castVar relids) clauses = some e := by
  induction clauses generalizing remote_conds local_conds with
  | nil => simp [classifyConditions, Except.firstError]
  | cons clause clauses ih =>
      rw [classifyConditions, Except.firstError]
      cases classifyClause catalog columns castVar relids clause with
      | error e' => simp
      | ok remote =>
          cases remote with
          | true => exact ih
          | false => exact ih

/-- The error of the loop of `printRestrictInfoList`. -/
theorem printClauses_eq_error_iff {catalog : Catalog} {columns : List CString} {d : CString}
    {e : PrintFault} :
    printClauses catalog columns d clauses = .error e ↔
      Except.firstError (printClause catalog columns) clauses = some e := by
  induction clauses generalizing d with
  | nil => simp [printClauses, Except.firstError]
  | cons clause clauses ih =>
      rw [printClauses, Except.firstError]
      cases printClause catalog columns clause with
      | error e' => simp
      | ok text =>
          cases text with
          | none => exact ih
          | some text => exact ih

theorem printRestrictInfoList_eq_error_iff {catalog : Catalog} {columns : List CString}
    {e : PrintFault} :
    printRestrictInfoList catalog columns clauses = .error e ↔
      Except.firstError (printClause catalog columns) clauses = some e := by
  rw [printRestrictInfoList]
  cases clauses with
  | nil => simp [Except.firstError]
  | cons clause clauses =>
      rw [List.isEmpty_cons, if_neg (by simp), ← printClauses_eq_error_iff]
      cases printClauses catalog columns [] (clause :: clauses) with
      | error e' => simp [Except.map]
      | ok d => simp [Except.map]

/-! ## One clause -/

theorem castNodeVar_eq_none_iff {e : Expr} : castNodeVar e = none ↔ ∀ v, e ≠ .var v := by
  cases e <;> simp [castNodeVar]

/-- The cast of `classifyConditions` fails on a constant with anything but a `Var` on its left. -/
theorem classifyClause_eq_notAVar_iff {catalog : Catalog} {columns : List CString}
    {relids : Relids} {clause : Expr} :
    classifyClause catalog columns castNodeVar relids clause = .error .notAVar ↔
      ¬ ConstHasVar clause := by
  unfold classifyClause
  split
  · rename_i fields a b
    cases hcast : castNodeVar a with
    | none =>
        have hvar : a.isVar = false := by
          rw [← Bool.not_eq_true, isVar_iff]
          rintro ⟨v, hv⟩
          exact castNodeVar_eq_none_iff.mp hcast v hv
        cases hconst : b.isConst with
        | true =>
            obtain ⟨c, rfl⟩ := isConst_iff.mp hconst
            refine iff_of_true (by simp [hvar]) fun h => ?_
            obtain ⟨v, hv⟩ := h fields a c rfl
            exact castNodeVar_eq_none_iff.mp hcast v hv
        | false =>
            refine iff_of_false (by simp [hvar]) (not_not.mpr ?_)
            rintro fields' a' c heq
            obtain ⟨-, heq⟩ := Expr.opExpr.inj heq
            obtain rfl : b = .const c := by simpa using (List.cons.inj heq).2
            cases hconst
    | some v =>
        have hcolumn : ConstHasVar (.opExpr fields [a, b]) := by
          rintro fields' a' c heq
          obtain ⟨-, heq⟩ := Expr.opExpr.inj heq
          rw [← (List.cons.inj heq).1]
          cases a with
          | var w => exact ⟨w, rfl⟩
          | _ => cases hcast
        refine iff_of_false ?_ (not_not.mpr hcolumn)
        simp only
        -- every later error is another one
        split
        · simp
        · split
          · simp
          · split
            · simp
            · split <;> simp
  · rename_i hnot
    refine iff_of_false (by simp) (not_not.mpr ?_)
    rintro fields a c rfl
    exact absurd rfl (hnot fields a (.const c))

/-- The value that is printed raises another error than a cast. -/
theorem printValue_ne_cast {var : Var} {con : Const} {e : PrintFault}
    (h : printValue var con = .error e) : e ≠ .notAVar ∧ e ≠ .notAConst := by
  rw [printValue] at h
  split at h
  · split at h
    · cases h
    · rw [← Except.error.inj h]
      simp
  · split at h
    · split at h
      · cases h
      · rw [← Except.error.inj h]
        simp
    · cases h

/-- A cast of `printRestrictInfoList` fails unless the arguments are a `Var` and a constant. -/
theorem printClause_eq_cast_iff {catalog : Catalog} {columns : List CString} {clause : Expr} :
    (printClause catalog columns clause = .error .notAVar ∨
        printClause catalog columns clause = .error .notAConst) ↔ ¬ VarThenConst clause := by
  unfold printClause
  split
  · rename_i fields arg₀ rest
    cases hcast : castNodeVar arg₀ with
    | none =>
        refine iff_of_true (.inl rfl) fun h => ?_
        obtain ⟨⟨v, hv⟩, -⟩ := h fields arg₀ rest rfl
        exact castNodeVar_eq_none_iff.mp hcast v hv
    | some var =>
        cases hconst : rest.head?.bind castNodeConst with
        | none =>
            refine iff_of_true (.inr rfl) fun h => ?_
            obtain ⟨-, c, rest', rfl⟩ := h fields arg₀ rest rfl
            cases hconst
        | some con =>
            have hboth : VarThenConst (.opExpr fields (arg₀ :: rest)) := by
              rintro fields' arg₀' rest' heq
              obtain ⟨-, heq⟩ := Expr.opExpr.inj heq
              obtain ⟨rfl, rfl⟩ := List.cons.inj heq
              constructor
              · cases arg₀ with
                | var w => exact ⟨w, rfl⟩
                | _ => cases hcast
              · obtain ⟨e, hhead, he⟩ := Option.bind_eq_some_iff.mp hconst
                obtain ⟨rest', rfl⟩ := List.head?_eq_some_iff.mp hhead
                cases e with
                | const c => exact ⟨c, rest', rfl⟩
                | _ => cases he
            refine iff_of_false ?_ (not_not.mpr hboth)
            simp only
            -- every later error is another one
            split
            · simp
            · split
              · rename_i e he
                obtain ⟨hvar, hconst⟩ := printValue_ne_cast he
                simp [hvar, hconst]
              · simp
  · rename_i hnot
    refine iff_of_false (by simp) (not_not.mpr ?_)
    rintro fields arg₀ rest rfl
    exact absurd rfl (hnot fields arg₀ rest)

/-! ## All clauses -/

/-- **Casts while planning.** The casts of `classifyConditions` and of `printRestrictInfoList` hold
on all nodes if and only if every clause that these come to has a `Var` beside its constant, and a
`Var` and a constant for its first two arguments. -/
theorem castsHold_iff (env : ScanEnv) (clauses : List Expr) :
    CastsHold env clauses ↔
      (∀ front clause back, clauses = front ++ clause :: back →
          (∀ earlier ∈ front, Classifies env castNodeVar earlier) → ConstHasVar clause) ∧
        ∀ front clause back, clauses = front ++ clause :: back →
          (∀ earlier ∈ front, Prints env earlier) → VarThenConst clause := by
  rw [CastsHold]
  refine and_congr ?_ ?_
  · rw [Ne, classifyConditions_eq_error_iff, Except.firstError_eq_some_iff]
    constructor
    · intro h front clause back hclauses hfront
      by_contra hnot
      exact h ⟨front, clause, back, hclauses, hfront, classifyClause_eq_notAVar_iff.mpr hnot⟩
    · rintro h ⟨front, clause, back, hclauses, hfront, herror⟩
      exact classifyClause_eq_notAVar_iff.mp herror (h front clause back hclauses hfront)
  · rw [Ne, Ne, printRestrictInfoList_eq_error_iff, printRestrictInfoList_eq_error_iff,
      Except.firstError_eq_some_iff, Except.firstError_eq_some_iff]
    constructor
    · rintro ⟨hvar, hconst⟩ front clause back hclauses hfront
      by_contra hnot
      rcases printClause_eq_cast_iff.mpr hnot with herror | herror
      · exact hvar ⟨front, clause, back, hclauses, hfront, herror⟩
      · exact hconst ⟨front, clause, back, hclauses, hfront, herror⟩
    · intro h
      constructor
      · rintro ⟨front, clause, back, hclauses, hfront, herror⟩
        exact printClause_eq_cast_iff.mp (.inl herror) (h front clause back hclauses hfront)
      · rintro ⟨front, clause, back, hclauses, hfront, herror⟩
        exact printClause_eq_cast_iff.mp (.inr herror) (h front clause back hclauses hfront)

end NodeCasts

/-- `upper(q) = 'x'`. -/
def callEqualsText : Expr :=
  .opExpr (booleanFields 98 100) [.funcExpr 871 [.var queryVar], .const (textConst (ofAscii "x"))]

/-- Both functions cast the call in `upper(q) = 'x'` to a `Var`. -/
theorem not_castsHold : ¬ ∀ env clauses, CastsHold env clauses := by
  intro h
  exact (h queryTable [callEqualsText]).1 rfl

end OcgeoFdw
