import OcgeoFdw.Scanning.BeginScan

/-! # The meaning of a canonical clause

What an expression denotes, over an arbitrary type of values and under an assignment of values to
its `Var`s and `Param`s, and that `canonicalOpExpr` keeps it: unwrapping an operand does not change
its value, and operands are exchanged together with their operator. -/

namespace OcgeoFdw

/-- The functions and operators that expressions are built from, over values in `V`. -/
structure Semantics (V : Type*) where
  const : Const → V
  func : Oid → List V → V
  op : OpFields → List V → V
  relabel : Oid → V → V
  arrayCoerce : Expr → V → V
  other : Bool → List V → V

/-- The values of the variables and the parameters. -/
structure Assignment (V : Type*) where
  var : Var → V
  param : Param → V

namespace Semantics

variable {V : Type*} (sem : Semantics V)

mutual

/-- The value of an expression. -/
def eval (σ : Assignment V) : Expr → V
  | .var v => σ.var v
  | .const c => sem.const c
  | .param p => σ.param p
  | .funcExpr funcid args => sem.func funcid (evalList σ args)
  | .opExpr fields args => sem.op fields (evalList σ args)
  | .relabelType arg resulttype => sem.relabel resulttype (eval σ arg)
  | .arrayCoerceExpr arg elemexpr => sem.arrayCoerce elemexpr (eval σ arg)
  | .other volatile args => sem.other volatile (evalList σ args)

/-- The values of a list of arguments. -/
def evalList (σ : Assignment V) : List Expr → List V
  | [] => []
  | e :: es => eval σ e :: evalList σ es

end

/-- What the planner relies on: a relabelling keeps the value, and the commutator of an operator in
the catalog is the operator with its arguments exchanged. -/
structure Respects (catalog : Catalog) : Prop where
  relabel : ∀ resulttype x, sem.relabel resulttype x = x
  commutator : ∀ (fields : OpFields) o, catalog.operator fields.opno = some o → o.oprcom ≠ 0 →
    ∀ x y, sem.op { fields with opno := o.oprcom } [y, x] = sem.op fields [x, y]

variable {sem} {catalog : Catalog} {base_relids : Relids} {σ : Assignment V}

/-- The value of a binary clause. -/
theorem eval_opExpr_pair (fields : OpFields) (a b : Expr) :
    sem.eval σ (.opExpr fields [a, b]) = sem.op fields [sem.eval σ a, sem.eval σ b] := by
  rw [eval, evalList, evalList, evalList]

/-- Unwrapping keeps the value of an operand, but for a coercion of an array. -/
theorem eval_unnestClause (hsem : sem.Respects catalog) {e : Expr}
    (harray : ∀ arg elemexpr, e ≠ .arrayCoerceExpr arg elemexpr) :
    sem.eval σ (unnestClause e) = sem.eval σ e := by
  cases e with
  | relabelType arg resulttype =>
      rw [unnestClause, eval]
      exact (hsem.relabel resulttype _).symm
  | arrayCoerceExpr arg elemexpr => exact absurd rfl (harray arg elemexpr)
  | _ => rfl

/-- A canonical form has the value of its clause. -/
theorem eval_canonicalForm (hsem : sem.Respects catalog) {fields : OpFields} {o : Operator}
    {a b right : Expr} {v : Var} {opno : Oid} (hop : catalog.operator fields.opno = some o)
    (ha : ∀ arg elemexpr, a ≠ .arrayCoerceExpr arg elemexpr)
    (hb : ∀ arg elemexpr, b ≠ .arrayCoerceExpr arg elemexpr)
    (hform : CanonicalForm base_relids fields o a b v opno right) :
    sem.eval σ (.opExpr { fields with opno } [.var v, right]) =
      sem.eval σ (.opExpr fields [a, b]) := by
  rw [eval_opExpr_pair, eval_opExpr_pair, ← eval_unnestClause hsem ha, ← eval_unnestClause hsem hb]
  cases hform with
  | direct hleft _ _ => rw [hleft]
  | commuted hright _ _ _ hcom =>
      rw [← hright]
      exact hsem.commutator fields o hop hcom _ _

end Semantics

/-! ## Clauses without a canonical form -/

/-- The expression is a `Var`, by itself or relabelled once. -/
inductive RefersTo (v : Var) : Expr → Prop
  | bare : RefersTo v (.var v)
  | relabelled (resulttype : Oid) : RefersTo v (.relabelType (.var v) resulttype)

/-- The expression is a column of the target relation, relabelled or not. -/
def IsColumn (base_relids : Relids) (e : Expr) : Prop :=
  ∃ v, RefersTo v e ∧ v.varno ∈ base_relids ∧ 1 ≤ v.varattno

/-- The expression is a `Var` of the target relation, relabelled or not: a column, a system column or
the whole row. -/
def IsBaseVar (base_relids : Relids) (e : Expr) : Prop :=
  ∃ v, RefersTo v e ∧ v.varno ∈ base_relids

/-- Unwrapping an operand that is no coercion of an array finds the `Var` it refers to. -/
theorem unnestClause_eq_var_iff {e : Expr} (harray : ∀ arg elemexpr, e ≠ .arrayCoerceExpr arg elemexpr)
    {v : Var} : unnestClause e = .var v ↔ RefersTo v e := by
  constructor
  · intro h
    cases e with
    | var w =>
        obtain rfl := Expr.var.inj h
        exact .bare
    | relabelType arg resulttype =>
        obtain rfl : arg = .var v := h
        exact .relabelled resulttype
    | arrayCoerceExpr arg elemexpr => exact absurd rfl (harray arg elemexpr)
    | _ => cases h
  · intro h
    cases h <;> rfl

section Meaning

variable {catalog : Catalog} {base_relids : Relids} {fields : OpFields} {a b : Expr}

/-- The operator of a clause for which `canonicalOpExpr` returns is in the catalog. -/
theorem exists_operator_of_canonicalOpExpr {result : Option OpExpr}
    (h : canonicalOpExpr catalog base_relids ⟨fields, [a, b]⟩ = .ok result) :
    ∃ o, catalog.operator fields.opno = some o := by
  cases hop : catalog.operator fields.opno with
  | some o => exact ⟨o, rfl⟩
  | none => simp [canonicalOpExpr, swapOperandsAsNeeded, hop] at h

/-- **When there is no canonical form**: no operand is a column of the table, or only the right one
is and the operator has no commutator, or both are `Var`s of the table. -/
theorem of_canonicalOpExpr_eq_none {o : Operator} (hop : catalog.operator fields.opno = some o)
    (ha : ∀ arg elemexpr, a ≠ .arrayCoerceExpr arg elemexpr)
    (hb : ∀ arg elemexpr, b ≠ .arrayCoerceExpr arg elemexpr)
    (h : canonicalOpExpr catalog base_relids ⟨fields, [a, b]⟩ = .ok none) :
    (¬ IsColumn base_relids a ∧ ¬ IsColumn base_relids b) ∨
      (¬ IsColumn base_relids a ∧ IsColumn base_relids b ∧ o.oprcom = 0) ∨
      (IsBaseVar base_relids a ∧ IsBaseVar base_relids b) := by
  have hnone : ∀ v opno right, ¬ CanonicalForm base_relids fields o a b v opno right := by
    intro v opno right hform
    have hsome := (canonicalOpExpr_eq_some_iff hop).mpr ⟨v, opno, right, hform, rfl⟩
    rw [h] at hsome
    cases hsome
  have hleft : ¬ IsColumn base_relids a := by
    rintro ⟨v, hv, hbase, hattno⟩
    exact hnone v fields.opno _ (.direct ((unnestClause_eq_var_iff ha).mpr hv) hbase hattno)
  by_cases hright : IsColumn base_relids b
  · obtain ⟨v, hv, hbase, hattno⟩ := hright
    by_cases hcom : o.oprcom = 0
    · exact .inr (.inl ⟨hleft, ⟨v, hv, hbase, hattno⟩, hcom⟩)
    -- with a commutator, only a `Var` of the table keeps the column on the right
    · refine .inr (.inr ⟨?_, v, hv, hbase⟩)
      by_contra hother
      refine hnone v o.oprcom _ (.commuted ((unnestClause_eq_var_iff hb).mpr hv) hbase hattno
        (fun w hw hmem => ?_) hcom)
      exact hother ⟨w, (unnestClause_eq_var_iff ha).mp hw, hmem⟩
  · exact .inl ⟨hleft, hright⟩

/-- **Canonicalisation.** The canonical form of a binary clause has the value of the clause and a
column of the table on its left, and there is none only if no operand is such a column, only the
right one is and the operator has no commutator, or both operands are `Var`s of the table. -/
theorem canonicalOpExpr_meaning {V : Type*} {sem : Semantics V} (hsem : sem.Respects catalog)
    (ha : ∀ arg elemexpr, a ≠ .arrayCoerceExpr arg elemexpr)
    (hb : ∀ arg elemexpr, b ≠ .arrayCoerceExpr arg elemexpr) :
    (∀ op, canonicalOpExpr catalog base_relids ⟨fields, [a, b]⟩ = .ok (some op) →
      (∀ σ, sem.eval σ (.opExpr op.toOpFields op.args) = sem.eval σ (.opExpr fields [a, b])) ∧
        ∃ v right, op.args = [.var v, right] ∧ v.varno ∈ base_relids ∧ 1 ≤ v.varattno) ∧
    (canonicalOpExpr catalog base_relids ⟨fields, [a, b]⟩ = .ok none →
      ∃ o, catalog.operator fields.opno = some o ∧
        ((¬ IsColumn base_relids a ∧ ¬ IsColumn base_relids b) ∨
          (¬ IsColumn base_relids a ∧ IsColumn base_relids b ∧ o.oprcom = 0) ∨
          (IsBaseVar base_relids a ∧ IsBaseVar base_relids b))) := by
  constructor
  · intro op h
    obtain ⟨o, hop⟩ := exists_operator_of_canonicalOpExpr h
    obtain ⟨v, opno, right, hform, rfl⟩ := (canonicalOpExpr_eq_some_iff hop).mp h
    refine ⟨fun σ => Semantics.eval_canonicalForm hsem hop ha hb hform, v, right, rfl, ?_⟩
    cases hform with
    | direct _ hbase hattno => exact ⟨hbase, hattno⟩
    | commuted _ hbase hattno _ _ => exact ⟨hbase, hattno⟩
  · intro h
    obtain ⟨o, hop⟩ := exists_operator_of_canonicalOpExpr h
    exact ⟨o, hop, of_canonicalOpExpr_eq_none hop ha hb h⟩

end Meaning

/-- Integers under the operators `=`, `<=` and `>=`, with 1 for true. -/
def integers : Semantics ℤ where
  const c := (datumGetInt32 c.constvalue).getD 0
  func _ _ := 0
  op fields args :=
    match args with
    | [x, y] =>
        if (if fields.opno = 98 then x = y else if fields.opno = 523 then x ≤ y else y ≤ x) then 1
        else 0
    | _ => 0
  relabel _ x := x
  arrayCoerce _ x := x
  other _ _ := 0

theorem integers_respects : integers.Respects pgCatalog where
  relabel _ _ := rfl
  commutator fields o hop _ x y := by
    rw [pgCatalog] at hop
    simp only at hop
    split at hop
    · rename_i hopno
      obtain rfl := Option.some.inj hop
      simp [integers, hopno, eq_comm]
    · split at hop
      · rename_i hopno
        obtain rfl := Option.some.inj hop
        simp [integers, hopno]
      · split at hop
        · rename_i hopno
          obtain rfl := Option.some.inj hop
          simp [integers, hopno]
        · cases hop

/-- `5 <= confidence` with a relabelled column becomes `confidence >= 5`. The whole row, relabelled, has
no canonical form. -/
theorem canonicalOpExpr_meaning_relabelled :
    (∃ op, canonicalOpExpr pgCatalog {1}
        ⟨booleanFields 523 0, [.const (int4Const 5), .relabelType (.var confidenceVar) 23]⟩ =
          .ok (some op) ∧
      (∀ σ, integers.eval σ (.opExpr op.toOpFields op.args) =
        integers.eval σ (.opExpr (booleanFields 523 0)
          [.const (int4Const 5), .relabelType (.var confidenceVar) 23])) ∧
      ∃ v right, op.args = [.var v, right] ∧ v.varno ∈ ({1} : Relids) ∧ 1 ≤ v.varattno) ∧
    ∃ o, pgCatalog.operator (booleanFields 523 0).opno = some o ∧
      ((¬ IsColumn {1} (.relabelType (.var ⟨1, 0, 2249⟩) 25) ∧ ¬ IsColumn {1} (.const (int4Const 5))) ∨
        (¬ IsColumn {1} (.relabelType (.var ⟨1, 0, 2249⟩) 25) ∧ IsColumn {1} (.const (int4Const 5)) ∧
          o.oprcom = 0) ∨
        (IsBaseVar {1} (.relabelType (.var ⟨1, 0, 2249⟩) 25) ∧
          IsBaseVar {1} (.const (int4Const 5)))) :=
  ⟨⟨_, rfl, (canonicalOpExpr_meaning integers_respects (by simp) (by simp)).1 _ rfl⟩,
    (canonicalOpExpr_meaning integers_respects (by simp) (by simp)).2 rfl⟩

end OcgeoFdw
