import OcgeoFdw.Scanning.BeginScan

/-! # Remote and local conditions

`classifyConditions` sorts the restriction clauses of a scan into those that the API evaluates and
the others, and a scan that starts looks for the same clauses again. `OperandsAgree` is when the two
find the same. -/

namespace OcgeoFdw

open CString

/-- How `classifyConditions` goes wrong. -/
inductive PlanFault
  /-- `linitial_node (Var, ...)` on a node of another type. -/
  | notAVar
  /-- `get_attname` finds no column of that number. -/
  | noSuchAttribute (attnum : ℤ)
  /-- `strcmp` on the null pointer that `get_opname` returns for an unknown operator. -/
  | nullOpname

/-- The tag of a node is `T_Var`. -/
def Expr.isVar : Expr → Bool
  | .var _ => true
  | _ => false

/-- The tag of a node is `T_Const`. -/
def Expr.isConst : Expr → Bool
  | .const _ => true
  | _ => false

/-- One round of the loop of `classifyConditions`: `true` for `remote_conds`. The cast to `Var`,
which only a build with assertions checks, is a parameter. -/
def classifyClause (catalog : Catalog) (columns : List CString) (castVar : Expr → Option Var)
    (relids : Relids) : Expr → Except PlanFault Bool
  | .opExpr fields [arg₀, arg₁] =>
      if !arg₀.isVar && !arg₁.isConst then .ok false
      else
        match castVar arg₀ with
        | none => .error .notAVar
        | some var =>
            if var.varno ∉ relids then .ok false
            else
              match getAttname columns var.varattno with
              | none => .error (.noSuchAttribute var.varattno)
              | some attName =>
                  match getOpname catalog fields.opno with
                  | none => .error .nullOpname
                  | some opName =>
                      .ok ((opName = ofAscii "=" && attName = queryAttName) ||
                        (opName = ofAscii ">=" && attName = ofAscii "confidence"))
  | _ => .ok false

/-- `classifyConditions`: the lists `remote_conds` and `local_conds` after the loop. -/
def classifyConditions (catalog : Catalog) (columns : List CString) (castVar : Expr → Option Var)
    (relids : Relids) : List Expr → List Expr → List Expr → Except PlanFault (List Expr × List Expr)
  | remote_conds, local_conds, [] => .ok (remote_conds, local_conds)
  | remote_conds, local_conds, clause :: input_conds =>
      match classifyClause catalog columns castVar relids clause with
      | .error e => .error e
      | .ok true =>
          classifyConditions catalog columns castVar relids (remote_conds ++ [clause]) local_conds
            input_conds
      | .ok false =>
          classifyConditions catalog columns castVar relids remote_conds (local_conds ++ [clause])
            input_conds

section Classification

variable {env : ScanEnv} {castVar : Expr → Option Var}

/-- The planner puts the clause in `remote_conds`. -/
def PutsRemote (env : ScanEnv) (castVar : Expr → Option Var) (input_conds : List Expr)
    (clause : Expr) : Prop :=
  ∃ remote_conds local_conds,
    classifyConditions env.catalog env.columns castVar {env.scanrelid} [] [] input_conds =
        .ok (remote_conds, local_conds) ∧ clause ∈ remote_conds

/-- The clause does not raise an error. -/
def Classifies (env : ScanEnv) (castVar : Expr → Option Var) (clause : Expr) : Prop :=
  ∃ remote, classifyClause env.catalog env.columns castVar {env.scanrelid} clause = .ok remote

/-! ## The loop -/

/-- What the loop returns has the remote conditions found before and those among the clauses. -/
theorem mem_remote_of_classifyConditions
    {input_conds remote_conds local_conds remote local' : List Expr}
    (h : classifyConditions env.catalog env.columns castVar {env.scanrelid} remote_conds local_conds
      input_conds = .ok (remote, local')) (clause : Expr) :
    clause ∈ remote ↔ clause ∈ remote_conds ∨ clause ∈ input_conds ∧
      classifyClause env.catalog env.columns castVar {env.scanrelid} clause = .ok true := by
  induction input_conds generalizing remote_conds local_conds with
  | nil =>
      obtain ⟨rfl, -⟩ := Prod.mk.inj (Except.ok.inj h)
      simp
  | cons first input_conds ih =>
      rw [classifyConditions] at h
      split at h
      · cases h
      · rename_i hfirst
        rw [ih h, List.mem_append, List.mem_singleton, List.mem_cons, or_assoc]
        -- the clause just appended is one of the clauses of the input
        apply or_congr_right
        constructor
        · rintro (rfl | ⟨hmem, hremote⟩)
          · exact ⟨.inl rfl, hfirst⟩
          · exact ⟨.inr hmem, hremote⟩
        · rintro ⟨rfl | hmem, hremote⟩
          · exact .inl rfl
          · exact .inr ⟨hmem, hremote⟩
      · rename_i hfirst
        rw [ih h, List.mem_cons]
        apply or_congr_right
        apply and_congr_left
        intro hremote
        refine ⟨.inr, ?_⟩
        rintro (rfl | hmem)
        -- the first clause was found to be local
        · rw [hfirst] at hremote
          cases hremote
        · exact hmem

/-- The loop returns if no clause raises an error. -/
theorem exists_classifyConditions {input_conds : List Expr}
    (h : ∀ clause ∈ input_conds, Classifies env castVar clause)
    (remote_conds local_conds : List Expr) :
    ∃ lists, classifyConditions env.catalog env.columns castVar {env.scanrelid} remote_conds
      local_conds input_conds = .ok lists := by
  induction input_conds generalizing remote_conds local_conds with
  | nil => exact ⟨_, rfl⟩
  | cons first input_conds ih =>
      obtain ⟨remote, hfirst⟩ := h first List.mem_cons_self
      have hrest := ih fun clause hmem => h clause (List.mem_cons_of_mem _ hmem)
      rw [classifyConditions, hfirst]
      cases remote with
      | true => exact hrest _ _
      | false => exact hrest _ _

/-- **The loop, clause by clause.** When the other clauses raise no error, a clause is put in
`remote_conds` exactly when its own round says so. -/
theorem putsRemote_iff {input_conds : List Expr} {clause : Expr} (hmem : clause ∈ input_conds)
    (hothers : ∀ other ∈ input_conds, other ≠ clause → Classifies env castVar other) :
    PutsRemote env castVar input_conds clause ↔
      classifyClause env.catalog env.columns castVar {env.scanrelid} clause = .ok true := by
  constructor
  · rintro ⟨remote_conds, local_conds, hlists, hremote⟩
    have := (mem_remote_of_classifyConditions hlists clause).mp hremote
    simpa [hmem] using this
  · intro hclause
    have hall : ∀ other ∈ input_conds, Classifies env castVar other := by
      intro other hother
      by_cases heq : other = clause
      · exact heq ▸ ⟨true, hclause⟩
      · exact hothers other hother heq
    obtain ⟨⟨remote_conds, local_conds⟩, hlists⟩ := exists_classifyConditions hall [] []
    exact ⟨remote_conds, local_conds, hlists,
      (mem_remote_of_classifyConditions hlists clause).mpr (.inr ⟨hmem, hclause⟩)⟩

/-! ## One clause -/

/-- The column has a restricted name under the operator. -/
def Pushable (env : ScanEnv) (opno : Oid) (v : Var) : Prop :=
  ∃ restriction, Restricts env restriction opno v

/-- The left operand is a pushable column, wrapped or not, and the right one a wrapped or bare
constant or parameter. -/
def PushedDirectly (env : ScanEnv) (fields : OpFields) (a b : Expr) : Prop :=
  ∃ v, unnestClause a = .var v ∧ Pushable env fields.opno v ∧
    (unnestClause b).isConstOrParam = true

/-- The same with the operands exchanged, under an operator with a commutator. -/
def PushedCommuted (env : ScanEnv) (o : Operator) (a b : Expr) : Prop :=
  ∃ v, unnestClause b = .var v ∧ o.oprcom ≠ 0 ∧ Pushable env o.oprcom v ∧
    (unnestClause a).isConstOrParam = true

/-- The attribute name that the planner looks up is `q` or `confidence` only for a column that the
executor finds too. -/
theorem colnameFromTupleVar_of_getAttname {columns : List CString} {v : Var} {attName : CString}
    (h : getAttname columns v.varattno = some attName)
    (hname : attName = queryAttName ∨ attName = ofAscii "confidence") :
    colnameFromTupleVar columns v = some attName := by
  rw [getAttname] at h
  split at h
  · rename_i hattno
    exact colnameFromTupleVar_eq_some_iff.mpr ⟨hattno, h⟩
  · split at h
    · -- no system column has such a name
      have hsystem : attName ∈ systemAttnames := List.mem_of_getElem? h
      rcases hname with rfl | rfl
      · exact absurd hsystem (by decide)
      · exact absurd hsystem (by decide)
    · cases h

/-- The planner finds a column that the executor finds. -/
theorem getAttname_of_colnameFromTupleVar {columns : List CString} {v : Var} {attName : CString}
    (h : colnameFromTupleVar columns v = some attName) :
    getAttname columns v.varattno = some attName := by
  obtain ⟨hattno, hcolumn⟩ := colnameFromTupleVar_eq_some_iff.mp h
  rw [getAttname]
  rw [if_pos (by omega), hcolumn]

/-- The two-part tests of the planner and of the executor are the same. -/
theorem restrictionOn_eq_some_iff {attName opName : CString} :
    (∃ restriction, restrictionOn attName (some opName) = some restriction) ↔
      (opName = ofAscii "=" ∧ attName = queryAttName) ∨
        (opName = ofAscii ">=" ∧ attName = ofAscii "confidence") := by
  rw [restrictionOn]
  constructor
  · rintro ⟨restriction, h⟩
    split at h
    · rename_i hquery
      exact .inl ⟨Option.some.inj hquery.2, hquery.1⟩
    · split at h
      · rename_i hconfidence
        exact .inr ⟨Option.some.inj hconfidence.2, hconfidence.1⟩
      · cases h
  · rintro (⟨rfl, rfl⟩ | ⟨rfl, rfl⟩)
    · exact ⟨.query, rfl⟩
    · exact ⟨.confidence, rfl⟩

/-- **What is remote**: a clause whose left operand is a `Var`, or whose right one is a constant, if
the `Var` read at the left operand is pushable. -/
theorem classifyClause_eq_true_iff {fields : OpFields} {o : Operator} {a b : Expr}
    (hop : env.catalog.operator fields.opno = some o) :
    classifyClause env.catalog env.columns castVar {env.scanrelid} (.opExpr fields [a, b]) =
        .ok true ↔
      (a.isVar = true ∨ b.isConst = true) ∧
        ∃ v, castVar a = some v ∧ Pushable env fields.opno v := by
  have hopname : getOpname env.catalog fields.opno = some o.oprname := by
    rw [getOpname]
    rw [hop, Option.map_some]
  rw [classifyClause]
  simp only [hopname]
  constructor
  · intro h
    split at h
    · cases h
    · rename_i hshape
      split at h
      · cases h
      · rename_i v hcast
        split at h
        · cases h
        · rename_i hrelid
          split at h
          · cases h
          · rename_i attName hattName
            have htest : (o.oprname = ofAscii "=" ∧ attName = queryAttName) ∨
                (o.oprname = ofAscii ">=" ∧ attName = ofAscii "confidence") := by
              simpa using Except.ok.inj h
            obtain ⟨restriction, hrestriction⟩ := restrictionOn_eq_some_iff.mpr htest
            refine ⟨by simpa [or_iff_not_imp_left] using hshape, v, hcast, restriction,
              by simpa using hrelid, attName, ?_, hopname ▸ hrestriction⟩
            exact colnameFromTupleVar_of_getAttname hattName (htest.imp And.right And.right)
  · rintro ⟨hshape, v, hcast, restriction, hrelid, attName, hcolname, hrestriction⟩
    rw [hopname] at hrestriction
    have htest := restrictionOn_eq_some_iff.mp ⟨restriction, hrestriction⟩
    rw [if_neg (by simpa [or_iff_not_imp_left] using hshape)]
    simp only [hcast, getAttname_of_colnameFromTupleVar hcolname]
    rw [if_neg (by simpa using hrelid)]
    simpa using htest

/-- A clause for `remote_conds`: of its two operands the left one is a `Var` or the right one a
constant, and the `Var` that is read at the left one is a pushable column. -/
def IsRemote (env : ScanEnv) (castVar : Expr → Option Var) (clause : Expr) : Prop :=
  ∃ fields a b, clause = .opExpr fields [a, b] ∧ (a.isVar = true ∨ b.isConst = true) ∧
    ∃ v, castVar a = some v ∧ Pushable env fields.opno v

/-- An operator under which a column is pushable is in the catalog. -/
theorem Pushable.exists_operator {opno : Oid} {v : Var} (h : Pushable env opno v) :
    ∃ o, env.catalog.operator opno = some o := by
  obtain ⟨restriction, -, attName, -, hrestriction⟩ := h
  cases hop : env.catalog.operator opno with
  | none => simp [restrictionOn, getOpname, hop] at hrestriction
  | some o => exact ⟨o, rfl⟩

/-- Without its operator in the catalog a clause is not classified as remote. -/
theorem exists_operator_of_classifyClause {fields : OpFields} {a b : Expr}
    (h : classifyClause env.catalog env.columns castVar {env.scanrelid} (.opExpr fields [a, b]) =
      .ok true) : ∃ o, env.catalog.operator fields.opno = some o := by
  cases hop : env.catalog.operator fields.opno with
  | some o => exact ⟨o, rfl⟩
  | none =>
      have hopname : getOpname env.catalog fields.opno = none := by
        rw [getOpname]
        rw [hop, Option.map_none]
      rw [classifyClause] at h
      simp only [hopname] at h
      split at h
      · cases h
      · split at h
        · cases h
        · split at h
          · cases h
          · split at h <;> cases h

/-- **The remote clauses**, of any shape. -/
theorem classifyClause_eq_true_iff_isRemote {clause : Expr} :
    classifyClause env.catalog env.columns castVar {env.scanrelid} clause = .ok true ↔
      IsRemote env castVar clause := by
  constructor
  · intro h
    obtain ⟨fields, a, b, rfl⟩ : ∃ fields a b, clause = .opExpr fields [a, b] := by
      unfold classifyClause at h
      split at h
      · exact ⟨_, _, _, rfl⟩
      · cases h
    obtain ⟨o, hop⟩ := exists_operator_of_classifyClause h
    exact ⟨fields, a, b, rfl, (classifyClause_eq_true_iff hop).mp h⟩
  · rintro ⟨fields, a, b, rfl, hshape, v, hcast, hpushable⟩
    obtain ⟨o, hop⟩ := hpushable.exists_operator
    exact (classifyClause_eq_true_iff hop).mpr ⟨hshape, v, hcast, hpushable⟩

/-- **What is recognised**, whatever the restriction and the value. -/
theorem exists_recognises_iff {fields : OpFields} {o : Operator} {a b : Expr}
    (hop : env.catalog.operator fields.opno = some o) :
    (∃ restriction right, Recognises env (.opExpr fields [a, b]) restriction right) ↔
      PushedDirectly env fields a b ∨ PushedCommuted env o a b := by
  simp only [recognises_iff hop]
  constructor
  · rintro ⟨restriction, right, hright,
      ⟨v, hleft, rfl, hrestricts⟩ | ⟨v, hleft, rfl, hcom, hrestricts⟩⟩
    · exact .inl ⟨v, hleft, ⟨restriction, hrestricts⟩, hright⟩
    · exact .inr ⟨v, hleft, hcom, ⟨restriction, hrestricts⟩, hright⟩
  · rintro (⟨v, hleft, ⟨restriction, hrestricts⟩, hright⟩ |
      ⟨v, hleft, hcom, ⟨restriction, hrestricts⟩, hright⟩)
    · exact ⟨restriction, _, hright, .inl ⟨v, hleft, rfl, hrestricts⟩⟩
    · exact ⟨restriction, _, hright, .inr ⟨v, hleft, rfl, hcom, hrestricts⟩⟩

/-! ## Agreement -/

/-- The operands on which the two sides agree. -/
structure OperandsAgree (env : ScanEnv) (castVar : Expr → Option Var) (fields : OpFields)
    (o : Operator) (a b : Expr) : Prop where
  /-- A pushable column on the left is compared with a constant or a parameter. -/
  column : ∀ v, a = .var v → Pushable env fields.opno v → (unnestClause b).isConstOrParam = true
  /-- Before a constant, the `Var` that is read at another node is pushable if and only if the node
  wraps a pushable column. -/
  constant : ∀ c, (∀ v, a ≠ .var v) → b = .const c →
    ((∃ v, castVar a = some v ∧ Pushable env fields.opno v) ↔
      ∃ v, unnestClause a = .var v ∧ Pushable env fields.opno v)
  /-- Two other operands are not pushed down in either order. -/
  neither : (∀ v, a ≠ .var v) → (∀ c, b ≠ .const c) →
    ¬ PushedDirectly env fields a b ∧ ¬ PushedCommuted env o a b

theorem isVar_iff {e : Expr} : e.isVar = true ↔ ∃ v, e = .var v := by
  cases e <;> simp [Expr.isVar]

theorem isConst_iff {e : Expr} : e.isConst = true ↔ ∃ c, e = .const c := by
  cases e <;> simp [Expr.isConst]

/-- A bare column on the left is pushed down for a constant or a parameter. -/
theorem pushedDirectly_var_iff {fields : OpFields} {v : Var} {b : Expr} :
    PushedDirectly env fields (.var v) b ↔
      Pushable env fields.opno v ∧ (unnestClause b).isConstOrParam = true := by
  constructor
  · rintro ⟨w, hw, hpushable, hright⟩
    obtain rfl : v = w := Expr.var.inj hw
    exact ⟨hpushable, hright⟩
  · rintro ⟨hpushable, hright⟩
    exact ⟨v, rfl, hpushable, hright⟩

/-- A column is pushed down for a constant even under a wrapper. -/
theorem pushedDirectly_const_iff {fields : OpFields} {a : Expr} {c : Const} :
    PushedDirectly env fields a (.const c) ↔
      ∃ v, unnestClause a = .var v ∧ Pushable env fields.opno v := by
  constructor
  · rintro ⟨v, hleft, hpushable, -⟩
    exact ⟨v, hleft, hpushable⟩
  · rintro ⟨v, hleft, hpushable⟩
    exact ⟨v, hleft, hpushable, rfl⟩

/-- A bare column is not pushed down from the right of a bare column. -/
theorem not_pushedCommuted_of_var {o : Operator} {v : Var} {b : Expr} :
    ¬ PushedCommuted env o (.var v) b := by
  rintro ⟨w, -, -, -, hright⟩
  cases hright

/-- A constant is never a column to be pushed down. -/
theorem not_pushedCommuted_of_const {o : Operator} {a : Expr} {c : Const} :
    ¬ PushedCommuted env o a (.const c) := by
  rintro ⟨v, hleft, -⟩
  cases hleft

/-- **Planner and executor.** Whatever the cast reads at a node that is no `Var`, a binary clause is
put in `remote_conds` if and only if the executor recognises it, exactly for these operands. -/
theorem putsRemote_iff_recognises_iff {fields : OpFields} {o : Operator} {a b : Expr}
    {input_conds : List Expr} (hop : env.catalog.operator fields.opno = some o)
    (hcast : ∀ v, castVar (.var v) = some v) (hmem : .opExpr fields [a, b] ∈ input_conds)
    (hothers : ∀ other ∈ input_conds, other ≠ .opExpr fields [a, b] →
      Classifies env castVar other) :
    (PutsRemote env castVar input_conds (.opExpr fields [a, b]) ↔
        ∃ restriction right, Recognises env (.opExpr fields [a, b]) restriction right) ↔
      OperandsAgree env castVar fields o a b := by
  rw [putsRemote_iff hmem hothers, classifyClause_eq_true_iff hop, exists_recognises_iff hop,
    isVar_iff, isConst_iff]
  by_cases hvar : ∃ v, a = .var v
  -- a bare column on the left: the planner never looks at the other operand
  · obtain ⟨v, rfl⟩ := hvar
    have hplanner : ((∃ w, Expr.var v = .var w) ∨ ∃ c, b = .const c) ∧
        (∃ w, castVar (.var v) = some w ∧ Pushable env fields.opno w) ↔
        Pushable env fields.opno v := by
      simp [hcast]
    rw [hplanner, or_iff_left not_pushedCommuted_of_var, pushedDirectly_var_iff, iff_self_and]
    constructor
    · intro h
      refine ⟨?_, fun c hnot => absurd rfl (hnot v), fun hnot => absurd rfl (hnot v)⟩
      rintro w hw hpushable
      obtain rfl : v = w := Expr.var.inj hw
      exact h hpushable
    · intro h
      exact h.column v rfl
  · have hnot : ∀ v, a ≠ .var v := not_exists.mp hvar
    by_cases hconst : ∃ c, b = .const c
    -- a constant on the right lets any left operand through to the cast
    · obtain ⟨c, rfl⟩ := hconst
      rw [and_iff_right (.inr ⟨c, rfl⟩), or_iff_left not_pushedCommuted_of_const,
        pushedDirectly_const_iff]
      constructor
      · intro h
        exact ⟨fun v hv => absurd hv (hnot v), fun _ _ _ => h, fun _ hb => absurd rfl (hb c)⟩
      · intro h
        exact h.constant c hnot rfl
    · -- the planner keeps the clause local
      have hlocal : ¬ ((∃ v, a = .var v) ∨ ∃ c, b = .const c) := not_or.mpr ⟨hvar, hconst⟩
      simp only [hlocal, false_and, false_iff, not_or]
      constructor
      · intro h
        exact ⟨fun v hv => absurd hv (hnot v), fun c _ hb => absurd ⟨c, hb⟩ hconst, fun _ _ => h⟩
      · intro h
        exact h.neither hnot (not_exists.mp hconst)

end Classification

/-- A cast to `Var` that checks the tag. -/
def castNodeVar : Expr → Option Var
  | .var v => some v
  | _ => none

/-- `'x' = q`. -/
def textEqualsQuery : Expr :=
  .opExpr (booleanFields 98 100) [.const (textConst (ofAscii "x")), .var queryVar]

/-- The two agree on `q = 'x'`. -/
theorem putsRemote_iff_recognises_query :
    PutsRemote queryTable castNodeVar [queryEqualsText] queryEqualsText ↔
      ∃ restriction right, Recognises queryTable queryEqualsText restriction right :=
  (putsRemote_iff_recognises_iff rfl (fun _ => rfl) List.mem_cons_self
    fun _ hother hne => absurd (List.mem_singleton.mp hother) hne).mpr
    { column := fun _ _ _ => rfl
      constant := fun _ hnot _ => absurd rfl (hnot queryVar)
      neither := fun hnot _ => absurd rfl (hnot queryVar) }

/-- The planner keeps `'x' = q` local, and the executor recognises it. -/
theorem not_putsRemote_iff_recognises_commuted :
    ¬ (PutsRemote queryTable castNodeVar [textEqualsQuery] textEqualsQuery ↔
      ∃ restriction right, Recognises queryTable textEqualsQuery restriction right) := by
  have hlocal : ¬ PutsRemote queryTable castNodeVar [textEqualsQuery] textEqualsQuery := by
    rintro ⟨remote_conds, local_conds, hlists, hremote⟩
    obtain rfl : [] = remote_conds := congrArg Prod.fst (Except.ok.inj hlists)
    cases hremote
  have hrecognised : Recognises queryTable textEqualsQuery .query
      (.const (textConst (ofAscii "x"))) :=
    ⟨queryVar, some (ofAscii "="), queryAttName, rfl, rfl, rfl, rfl⟩
  exact fun h => hlocal (h.mpr ⟨_, _, hrecognised⟩)

end OcgeoFdw
