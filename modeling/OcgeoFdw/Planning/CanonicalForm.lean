import OcgeoFdw.Foundation.Completion
import OcgeoFdw.Planning.Nodes

/-! # Clauses in canonical form

`utils.c`: a binary clause is unwrapped and, if need be, commuted, so that its left operand is a
column of the foreign table. `canonicalOpExpr_eq_some_iff` states which clauses have such a form and
which form it is. -/

namespace OcgeoFdw

/-- `elog (ERROR, "cache lookup failed for operator %u", ...)`. -/
structure OperatorLookupFailed where
  opoid : Oid
  deriving DecidableEq

/-- `unnestClause`: the node of interest from a node. -/
def unnestClause : Expr → Expr
  | .relabelType arg _ => arg
  | .arrayCoerceExpr arg _ => arg
  | node => node

/-- The operands are to be swapped: the right one is a `Var`, and the left one is not, or is a `Var`
of another relation while the right one belongs to the target relation. -/
def wantsSwap (base_relids : Relids) (l r : Expr) : Bool :=
  match r, l with
  | .var rvar, .var lvar => lvar.varno ∉ base_relids && rvar.varno ∈ base_relids
  | .var _, _ => true
  | _, _ => false

/-- `swapOperandsAsNeeded`: the operands and the operator afterwards. -/
def swapOperandsAsNeeded (catalog : Catalog) (base_relids : Relids) (l r : Expr) (opoid : Oid) :
    Except OperatorLookupFailed (Expr × Expr × Oid) :=
  match catalog.operator opoid with
  | none => .error ⟨opoid⟩
  | some op =>
      if wantsSwap base_relids l r && op.oprcom ≠ 0 then .ok (r, l, op.oprcom)
      else .ok (l, r, opoid)

/-- The left operand is a column of the target relation. -/
def isColumnOf (base_relids : Relids) : Expr → Bool
  | .var v => v.varno ∈ base_relids && 1 ≤ v.varattno
  | _ => false

/-- `canonicalOpExpr`. -/
def canonicalOpExpr (catalog : Catalog) (base_relids : Relids) (opExpr : OpExpr) :
    Except OperatorLookupFailed (Option OpExpr) :=
  match opExpr.args with
  | [arg₀, arg₁] =>
      match swapOperandsAsNeeded catalog base_relids (unnestClause arg₀) (unnestClause arg₁)
          opExpr.opno with
      | .error e => .error e
      | .ok (l, r, operatorid) =>
          .ok (if isColumnOf base_relids l then
            some { opExpr with opno := operatorid, args := [l, r] } else none)
  | _ => .ok none

/-- A pushable qualification: the column, the operator's name and the value. -/
structure Qual where
  left : Var
  opname : Option CString
  right : Expr

/-- `extractClauseFromOpExpr`: append the canonical form of a clause, unless its right operand is
volatile or mentions the table itself. -/
def extractClauseFromOpExpr (catalog : Catalog) (base_relids : Relids) (op : OpExpr)
    (quals : List Qual) : Except OperatorLookupFailed (List Qual) :=
  match canonicalOpExpr catalog base_relids op with
  | .error e => .error e
  | .ok (some ⟨fields, [.var left, right]⟩) =>
      if containVolatileFunctions catalog right || base_relids ⊆ pullVarnos right then .ok quals
      else .ok (quals ++ [⟨left, getOpname catalog fields.opno, right⟩])
  | .ok _ => .ok quals

/-- `extractRestrictions`: only operator expressions are looked at. -/
def extractRestrictions (catalog : Catalog) (base_relids : Relids) (node : Expr)
    (quals : List Qual) : Except OperatorLookupFailed (List Qual) :=
  match node with
  | .opExpr fields args => extractClauseFromOpExpr catalog base_relids ⟨fields, args⟩ quals
  | _ => .ok quals

/-- At most one qualification is extracted from a clause. -/
theorem eq_nil_or_singleton_of_extractRestrictions {catalog : Catalog} {base_relids : Relids}
    {node : Expr} {quals : List Qual}
    (h : extractRestrictions catalog base_relids node [] = .ok quals) :
    quals = [] ∨ ∃ qual, quals = [qual] := by
  unfold extractRestrictions at h
  split at h
  · rw [extractClauseFromOpExpr] at h
    split at h
    · cases h
    · split at h
      · exact .inl (Except.ok.inj h).symm
      · exact .inr ⟨_, (Except.ok.inj h).symm⟩
    · exact .inl (Except.ok.inj h).symm
  · exact .inl (Except.ok.inj h).symm

/-! ## The canonical form of a binary clause -/

section Canonical

variable {catalog : Catalog} {base_relids : Relids} {fields : OpFields} {a b : Expr} {o : Operator}

/-- `l operatorid r` is the clause with a column of the target relation on its left: the clause as
it stands, or commuted when only its right operand is such a column. -/
inductive CanonicalForm (base_relids : Relids) (fields : OpFields) (o : Operator) (a b : Expr) :
    Var → Oid → Expr → Prop
  | direct {v : Var} (hleft : unnestClause a = .var v) (hbase : v.varno ∈ base_relids)
      (hattno : 1 ≤ v.varattno) : CanonicalForm base_relids fields o a b v fields.opno
        (unnestClause b)
  | commuted {v : Var} (hright : unnestClause b = .var v) (hbase : v.varno ∈ base_relids)
      (hattno : 1 ≤ v.varattno) (hleft : ∀ w, unnestClause a = .var w → w.varno ∉ base_relids)
      (hcom : o.oprcom ≠ 0) : CanonicalForm base_relids fields o a b v o.oprcom (unnestClause a)

theorem isColumnOf_iff {e : Expr} :
    isColumnOf base_relids e = true ↔ ∃ v, e = .var v ∧ v.varno ∈ base_relids ∧ 1 ≤ v.varattno := by
  cases e <;> simp [isColumnOf]

/-- A left operand that belongs to the target relation stays where it is. -/
theorem wantsSwap_of_left {v : Var} {r : Expr} (h : v.varno ∈ base_relids) :
    wantsSwap base_relids (.var v) r = false := by
  cases r <;> simp [wantsSwap, h]

/-- A column on the right is wanted on the left unless the left operand belongs to the target
relation. -/
theorem wantsSwap_of_right {v : Var} {l : Expr} (h : v.varno ∈ base_relids)
    (hleft : ∀ w, l = .var w → w.varno ∉ base_relids) :
    wantsSwap base_relids l (.var v) = true := by
  cases l with
  | var w => simp [wantsSwap, h, hleft w rfl]
  | _ => rfl

/-- Operands are only swapped for a `Var` on the right, and never to displace a `Var` of the target
relation. -/
theorem exists_of_wantsSwap {l r : Expr} (h : wantsSwap base_relids l r = true) :
    (∃ v, r = .var v) ∧ ∀ w, l = .var w → w.varno ∉ base_relids := by
  cases r with
  | var v =>
      refine ⟨⟨v, rfl⟩, ?_⟩
      rintro w rfl
      simp only [wantsSwap, Bool.and_eq_true, decide_eq_true_eq] at h
      exact h.1
  | _ => cases l <;> simp [wantsSwap] at h

/-- A clause that is commuted. -/
theorem canonicalOpExpr_of_swap (hop : catalog.operator fields.opno = some o)
    (hwants : wantsSwap base_relids (unnestClause a) (unnestClause b) = true)
    (hcom : o.oprcom ≠ 0) :
    canonicalOpExpr catalog base_relids ⟨fields, [a, b]⟩ =
      .ok (if isColumnOf base_relids (unnestClause b) then
        some ⟨{ fields with opno := o.oprcom }, [unnestClause b, unnestClause a]⟩ else none) := by
  unfold canonicalOpExpr swapOperandsAsNeeded
  simp [hop, hwants, hcom]

/-- A clause that stays as it is. -/
theorem canonicalOpExpr_of_not_swap (hop : catalog.operator fields.opno = some o)
    (h : ¬ (wantsSwap base_relids (unnestClause a) (unnestClause b) = true ∧ o.oprcom ≠ 0)) :
    canonicalOpExpr catalog base_relids ⟨fields, [a, b]⟩ =
      .ok (if isColumnOf base_relids (unnestClause a) then
        some ⟨fields, [unnestClause a, unnestClause b]⟩ else none) := by
  have hcond : (wantsSwap base_relids (unnestClause a) (unnestClause b) &&
      decide (o.oprcom ≠ 0)) = false := by
    rw [← Bool.not_eq_true, Bool.and_eq_true, decide_eq_true_eq]
    exact h
  unfold canonicalOpExpr swapOperandsAsNeeded
  simp only [hop, hcond, Bool.false_eq_true, if_false]

/-- **The canonical form.** A binary clause has one exactly when an operand is a column of the
target relation, on the left or, with a commutator, on the right of something that is none. -/
theorem canonicalOpExpr_eq_some_iff (hop : catalog.operator fields.opno = some o) {op : OpExpr} :
    canonicalOpExpr catalog base_relids ⟨fields, [a, b]⟩ = .ok (some op) ↔
      ∃ v opno right, CanonicalForm base_relids fields o a b v opno right ∧
        op = ⟨{ fields with opno }, [.var v, right]⟩ := by
  by_cases hswap : wantsSwap base_relids (unnestClause a) (unnestClause b) = true ∧ o.oprcom ≠ 0
  -- the commuted clause has the right operand on its left
  · obtain ⟨hwants, hcom⟩ := hswap
    obtain ⟨-, hleft⟩ := exists_of_wantsSwap hwants
    rw [canonicalOpExpr_of_swap hop hwants hcom]
    constructor
    · intro h
      split at h
      · rename_i hcolumn
        obtain ⟨v, hv, hbase, hattno⟩ := isColumnOf_iff.mp hcolumn
        refine ⟨v, o.oprcom, _, .commuted hv hbase hattno hleft hcom, ?_⟩
        rw [← Option.some.inj (Except.ok.inj h), hv]
      · cases h
    · rintro ⟨v, opno, right, hform, rfl⟩
      cases hform with
      -- a column of the table on the left is never displaced
      | direct hv hbase hattno =>
          rw [hv, wantsSwap_of_left hbase] at hwants
          cases hwants
      | commuted hv hbase hattno hleft hcom =>
          rw [hv, if_pos (isColumnOf_iff.mpr ⟨v, rfl, hbase, hattno⟩)]
  · rw [canonicalOpExpr_of_not_swap hop hswap]
    constructor
    · intro h
      split at h
      · rename_i hcolumn
        obtain ⟨v, hv, hbase, hattno⟩ := isColumnOf_iff.mp hcolumn
        refine ⟨v, fields.opno, _, .direct hv hbase hattno, ?_⟩
        rw [← Option.some.inj (Except.ok.inj h), hv]
      · cases h
    · rintro ⟨v, opno, right, hform, rfl⟩
      cases hform with
      | direct hv hbase hattno =>
          rw [hv, if_pos (isColumnOf_iff.mpr ⟨v, rfl, hbase, hattno⟩)]
      | commuted hv hbase hattno hleft hcom =>
          rw [hv] at hswap
          exact absurd ⟨wantsSwap_of_right hbase hleft, hcom⟩ hswap

/-- The lookup of a known operator does not fail. -/
theorem exists_canonicalOpExpr (hop : catalog.operator fields.opno = some o) :
    ∃ op, canonicalOpExpr catalog base_relids ⟨fields, [a, b]⟩ = .ok op := by
  by_cases hswap : wantsSwap base_relids (unnestClause a) (unnestClause b) = true ∧ o.oprcom ≠ 0
  · exact ⟨_, canonicalOpExpr_of_swap hop hswap.1 hswap.2⟩
  · exact ⟨_, canonicalOpExpr_of_not_swap hop hswap⟩

/-- **What is extracted from a binary clause**: its canonical form, if it has one whose right
operand is neither volatile nor mentions all of the target relations. -/
theorem extractRestrictions_eq_ok_append_iff (hop : catalog.operator fields.opno = some o)
    (quals : List Qual) {qual : Qual} :
    extractRestrictions catalog base_relids (.opExpr fields [a, b]) quals = .ok (quals ++ [qual]) ↔
      ∃ opno, CanonicalForm base_relids fields o a b qual.left opno qual.right ∧
        qual.opname = getOpname catalog opno ∧
        containVolatileFunctions catalog qual.right = false ∧
        ¬ base_relids ⊆ pullVarnos qual.right := by
  have hne : quals ≠ quals ++ [qual] := by simp
  obtain ⟨op, hcanonical⟩ : ∃ op, canonicalOpExpr catalog base_relids ⟨fields, [a, b]⟩ = .ok op :=
    exists_canonicalOpExpr hop
  rw [extractRestrictions, extractClauseFromOpExpr]
  cases op with
  | none =>
      simp only [hcanonical]
      apply iff_of_false fun h => hne (Except.ok.inj h)
      rintro ⟨opno, hform, -⟩
      have := (canonicalOpExpr_eq_some_iff hop).mpr ⟨_, _, _, hform, rfl⟩
      rw [hcanonical] at this
      cases this
  | some op =>
      obtain ⟨v, opno, right, hform, rfl⟩ := (canonicalOpExpr_eq_some_iff hop).mp hcanonical
      simp only [hcanonical]
      constructor
      · intro h
        split at h
        · exact absurd (Except.ok.inj h) hne
        · rename_i hfree
          obtain rfl : _ = qual := by simpa using Except.ok.inj h
          rw [Bool.or_eq_true, not_or, Bool.not_eq_true, decide_eq_true_eq] at hfree
          exact ⟨opno, hform, rfl, hfree⟩
      · rintro ⟨opno', hform', hname, hvolatile, hself⟩
        have hunique := (canonicalOpExpr_eq_some_iff hop).mpr ⟨_, _, _, hform', rfl⟩
        rw [hcanonical] at hunique
        obtain ⟨hopno, hleft, hright⟩ : opno = opno' ∧ v = qual.left ∧ right = qual.right := by
          simpa using hunique
        have hfree : ¬ (containVolatileFunctions catalog right ||
            decide (base_relids ⊆ pullVarnos right)) = true := by
          rw [Bool.or_eq_true, not_or, Bool.not_eq_true, decide_eq_true_eq, hright]
          exact ⟨hvolatile, hself⟩
        rw [if_neg hfree, hopno, hleft, hright, ← hname]

end Canonical

end OcgeoFdw
