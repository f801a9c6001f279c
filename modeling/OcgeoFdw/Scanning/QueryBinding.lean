import OcgeoFdw.Scanning.PushedValues

/-! # Which scans bind a query

A scan has a query to send exactly when one of its clauses compares `q` with a constant or a
parameter whose value is a text. -/

namespace OcgeoFdw

/-- A clause compares `q` with a constant or a parameter whose value is a text. -/
def BindsQuery (env : ScanEnv) (fdw_exprs : List Expr) : Prop :=
  ∃ clause ∈ fdw_exprs, ∃ right text, Recognises env clause .query right ∧
    qualValue env.params right = .ok (some (.text text))

/-- The clauses that compare `q` do so with constants and parameters. -/
def QueryOperandsAssigned (env : ScanEnv) (fdw_exprs : List Expr) : Prop :=
  ∀ clause ∈ fdw_exprs, ∀ qual attName,
    extractRestrictions env.catalog {env.scanrelid} clause [] = .ok [qual] →
      colnameFromTupleVar env.columns qual.left = some attName →
      restrictionOn attName qual.opname = some .query → qual.right.isConstOrParam = true

section QueryBinding

variable {env : ScanEnv} {fdw_exprs : List Expr} {pushed pushed' : PushedQuals}

/-- The query fields of what the loop has found: all are set, or none. -/
def PushedQuals.Consistent (pushed : PushedQuals) : Prop :=
  (pushed.pushdown = false ∧ pushed.qual_key = none ∧ pushed.qual_value = none) ∨
    (pushed.pushdown = true ∧ pushed.qual_key = some queryAttName ∧
      ∃ text, pushed.qual_value = some text)

/-- One round either reads a query and sets all query fields, or reads none and keeps them. -/
theorem scanStep_query {qual : Qual} (h : scanStep env pushed qual = .ok ((), pushed')) :
    (∃ text, readsValue env qual = some (.query, .text text) ∧
        pushed' = { pushed with
          qual_key := some queryAttName, qual_value := some text, pushdown := true }) ∨
      (∀ value, readsValue env qual ≠ some (.query, value)) ∧
        pushed'.qual_key = pushed.qual_key ∧ pushed'.qual_value = pushed.qual_value ∧
        pushed'.pushdown = pushed.pushdown := by
  cases hcolname : colnameFromTupleVar env.columns qual.left with
  | none =>
      rw [scanStep_eq_error hcolname] at h
      cases h
  | some attName =>
      rw [scanStep_eq hcolname] at h
      cases hreads : readsValue env qual with
      | none =>
          rw [hreads] at h
          obtain rfl : pushed = pushed' := congrArg Prod.snd (Except.ok.inj h)
          exact .inr ⟨by simp, rfl, rfl, rfl⟩
      | some read =>
          obtain ⟨restriction, value⟩ := read
          rw [hreads] at h
          cases restriction with
          | query =>
              cases value with
              | word bits => cases h
              | text text => exact .inl ⟨text, rfl, (congrArg Prod.snd (Except.ok.inj h)).symm⟩
          | confidence =>
              cases value with
              | word bits =>
                  obtain rfl := congrArg Prod.snd (Except.ok.inj h)
                  exact .inr ⟨by simp, rfl, rfl, rfl⟩
              | text text => cases h

/-- **The loop** finds a query exactly when a round reads one, and keeps its query fields
consistent. -/
theorem scanQuals_query {quals : List Qual} (hpushed : pushed.Consistent)
    (h : scanQuals env.columns env.params env.unassigned pushed quals = .ok pushed') :
    pushed'.Consistent ∧ (pushed'.pushdown = true ↔ pushed.pushdown = true ∨
      ∃ qual ∈ quals, ∃ text, readsValue env qual = some (.query, .text text)) := by
  induction quals generalizing pushed with
  | nil =>
      obtain rfl := Except.ok.inj h
      exact ⟨hpushed, by simp⟩
  | cons qual quals ih =>
      rw [scanQuals] at h
      split at h
      · cases h
      · rename_i next hnext
        have hstep : scanStep env pushed qual = .ok ((), next) := by
          rw [scanStep, hnext]
          rfl
        rcases scanStep_query hstep with ⟨text, hreads, rfl⟩ | ⟨hnone, hkey, hvalue, hpushdown⟩
        · obtain ⟨hconsistent, hiff⟩ := ih (.inr ⟨rfl, rfl, text, rfl⟩) h
          refine ⟨hconsistent, iff_of_true (hiff.mpr (.inl rfl)) (.inr ?_)⟩
          exact ⟨qual, List.mem_cons_self, text, hreads⟩
        · have hnext : next.Consistent := by
            rw [PushedQuals.Consistent]
            rw [hkey, hvalue, hpushdown]
            exact hpushed
          obtain ⟨hconsistent, hiff⟩ := ih hnext h
          refine ⟨hconsistent, hiff.trans ?_⟩
          rw [hpushdown, List.exists_mem_cons_iff]
          simp [hnone]

/-- A round over a clause on `q` with an assigned operand reads a text exactly when that is the
operand's value. -/
theorem readsValue_query_iff {clause : Expr} {qual : Qual} {text : CString}
    (hextract : extractRestrictions env.catalog {env.scanrelid} clause [] = .ok [qual])
    (hassigned : ∀ attName, colnameFromTupleVar env.columns qual.left = some attName →
      restrictionOn attName qual.opname = some .query → qual.right.isConstOrParam = true) :
    readsValue env qual = some (.query, .text text) ↔
      Recognises env clause .query qual.right ∧
        qualValue env.params qual.right = .ok (some (.text text)) := by
  rw [readsValue_eq_some_iff]
  constructor
  · rintro ⟨attName, hcolname, hrestriction, hswitch, -⟩
    have hright := hassigned attName hcolname hrestriction
    refine ⟨⟨qual.left, qual.opname, attName, hextract, hright, hcolname, hrestriction⟩, ?_⟩
    rcases qualValue_cases env.params qual.right with ⟨value?, type, hvalue, -⟩ | ⟨-, hnot⟩
    · rw [switchValue, hvalue] at hswitch
      rw [hvalue]
      exact congrArg Except.ok hswitch
    · rw [hright] at hnot
      cases hnot
  · rintro ⟨⟨left, opname, attName, hextract', -, hcolname, hrestriction⟩, hvalue⟩
    have hqual : qual = ⟨left, opname, qual.right⟩ :=
      (List.cons.inj (Except.ok.inj (hextract.symm.trans hextract'))).1
    rw [hqual]
    refine ⟨attName, hcolname, hrestriction, ?_, rfl⟩
    rw [switchValue, hvalue]

/-- **What a scan sends.** If the clauses on `q` compare it with constants and parameters, the scan
has a request exactly when one of them binds a query, and then `qual_key` and `qual_value` are
set. -/
theorem pushedQuals_query (hassigned : QueryOperandsAssigned env fdw_exprs)
    (h : pushedQuals env fdw_exprs = .ok pushed) :
    pushed.Consistent ∧ (pushed.pushdown = true ↔ BindsQuery env fdw_exprs) := by
  rw [pushedQuals] at h
  split at h
  · cases h
  · rename_i qual_list hextract
    obtain ⟨hconsistent, hiff⟩ := scanQuals_query (.inl ⟨rfl, rfl, rfl⟩) h
    refine ⟨hconsistent, hiff.trans ?_⟩
    rw [or_iff_right (by simp [PushedQuals.initial])]
    constructor
    · rintro ⟨qual, hqual, text, hreads⟩
      obtain ⟨clause, hclause, hfound⟩ :=
        ((mem_extractQuals_iff hextract).mp hqual).resolve_left (by simp)
      obtain ⟨hrecognises, hvalue⟩ := (readsValue_query_iff hfound fun attName =>
        hassigned clause hclause qual attName hfound).mp hreads
      exact ⟨clause, hclause, qual.right, text, hrecognises, hvalue⟩
    · rintro ⟨clause, hclause, right, text, ⟨left, opname, attName, hfound, hrecognised⟩, hvalue⟩
      refine ⟨⟨left, opname, right⟩,
        (mem_extractQuals_iff hextract).mpr (.inr ⟨clause, hclause, hfound⟩), text, ?_⟩
      exact (readsValue_query_iff hfound fun attName =>
        hassigned clause hclause _ attName hfound).mpr
          ⟨⟨left, opname, attName, hfound, hrecognised⟩, hvalue⟩

/-- The request of a scan that pushes a query down. -/
theorem PushedQuals.Consistent.request_eq (h : pushed.Consistent) :
    (pushed.pushdown = false ∧ pushed.request = none) ∨
      (pushed.pushdown = true ∧ pushed.qual_key = some queryAttName ∧
        ∃ text, pushed.qual_value = some text ∧
          pushed.request = some (text, requestParams pushed.min_confidence)) := by
  rw [PushedQuals.request]
  rcases h with ⟨hpushdown, -, -⟩ | ⟨hpushdown, hkey, text, hvalue⟩
  · exact .inl ⟨hpushdown, by simp [hpushdown]⟩
  · exact .inr ⟨hpushdown, hkey, text, hvalue, by simp [hpushdown, hvalue]⟩

/-- There is a request exactly if a clause binds a query. -/
theorem exists_request_iff (hassigned : QueryOperandsAssigned env fdw_exprs)
    (h : pushedQuals env fdw_exprs = .ok pushed) :
    (∃ answer, pushed.request = some answer) ↔ BindsQuery env fdw_exprs := by
  obtain ⟨hconsistent, hbinds⟩ := pushedQuals_query hassigned h
  rw [← hbinds]
  rcases hconsistent.request_eq with ⟨hpushdown, hnone⟩ | ⟨hpushdown, -, text, -, hsome⟩
  · simp [hpushdown, hnone]
  · exact iff_of_true ⟨_, hsome⟩ hpushdown

end QueryBinding

end OcgeoFdw
