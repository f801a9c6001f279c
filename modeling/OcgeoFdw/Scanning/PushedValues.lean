import OcgeoFdw.Foundation.EventRuns
import OcgeoFdw.Scanning.BeginScan

/-! # The values that are pushed down

Which `Datum` a round of the loop over the qualifications reads as the query or as the minimum
confidence, and where it comes from. `pushedFromOwnClauses_iff` states when every such value is the
constant or the parameter of its own clause, of the type that the read requires. -/

namespace OcgeoFdw

/-- One round of the loop, as the step of a run. -/
def scanStep (env : ScanEnv) (pushed : PushedQuals) (qual : Qual) :
    Except ScanFault (Unit × PushedQuals) :=
  (scanQual env.columns env.params env.unassigned pushed qual).map fun pushed => ((), pushed)

/-- What a round reads: the restriction that it finds and the value that it reads for it. -/
def readsValue (env : ScanEnv) (qual : Qual) : Option (Restriction × Datum) :=
  match colnameFromTupleVar env.columns qual.left with
  | none => none
  | some attName =>
      match switchValue env.params env.unassigned qual.right with
      | none => none
      | some value =>
          if value.isZero then none
          else (restrictionOn attName qual.opname).map fun restriction => (restriction, value)

/-- `valueType`: the type of the operand, where the switch sets it. -/
def valueType : Expr → Option Oid
  | .param p => some p.paramtype
  | .const c => some c.consttype
  | _ => none

/-- The type is one that the read of the restriction's value requires: `text`, `varchar` or `bpchar`
for the query, `int2` or `int4` for the minimum confidence. -/
def TypeFits (restriction : Restriction) (type : Oid) : Prop :=
  match restriction with
  | .query => type ∈ ([25, 1043, 1042] : List Oid)
  | .confidence => type ∈ ([21, 23] : List Oid)

instance (restriction : Restriction) (type : Oid) : Decidable (TypeFits restriction type) :=
  match restriction with
  | .query => inferInstanceAs (Decidable (type ∈ ([25, 1043, 1042] : List Oid)))
  | .confidence => inferInstanceAs (Decidable (type ∈ ([21, 23] : List Oid)))

/-- The value that is read for a restriction comes from its own clause: one of the scan clauses, with
the constant, which is not null, or the evaluated parameter on its right, of a type that fits. -/
structure FromOwnClause (env : ScanEnv) (fdw_exprs : List Expr) (qual : Qual)
    (restriction : Restriction) (value : Datum) : Prop where
  clause : ∃ clause ∈ fdw_exprs,
    extractRestrictions env.catalog {env.scanrelid} clause [] = .ok [qual]
  operand : (∃ c, qual.right = .const c ∧ c.constisnull = false ∧ c.constvalue = value) ∨
    ∃ p, qual.right = .param p ∧ env.params p = some value
  type : ∃ type, valueType qual.right = some type ∧ TypeFits restriction type

/-- A round reads only a value of its own clause, and an operand that is neither a constant nor a
parameter contributes nothing. -/
def ReadsOwnClause (env : ScanEnv) (fdw_exprs : List Expr) (pushed : PushedQuals) (qual : Qual) :
    Prop :=
  (∀ restriction value, readsValue env qual = some (restriction, value) →
      FromOwnClause env fdw_exprs qual restriction value) ∧
    (qual.right.isConstOrParam = false →
      ∀ pushed', scanStep env pushed qual = .ok ((), pushed') → pushed' = pushed)

/-- Every value that the loop reads is a value of its own clause. -/
def PushedFromOwnClauses (env : ScanEnv) (fdw_exprs : List Expr) : Prop :=
  ∀ qual_list, extractQuals env.catalog {env.scanrelid} [] fdw_exprs = .ok qual_list →
    EventRun.Along (scanStep env) (ReadsOwnClause env fdw_exprs) .initial qual_list

/-- A restriction that the loop recognises has a constant or a parameter on its right, of a type
that fits if its value is neither null nor zero. -/
def QualFits (env : ScanEnv) (qual : Qual) : Prop :=
  ∀ attName restriction, colnameFromTupleVar env.columns qual.left = some attName →
    restrictionOn attName qual.opname = some restriction →
      ∃ value? type, qualValue env.params qual.right = .ok value? ∧
        valueType qual.right = some type ∧
        ∀ value, value? = some value → value.isZero = false → TypeFits restriction type

section PushedValues

variable {env : ScanEnv} {fdw_exprs : List Expr} {qual : Qual} {pushed : PushedQuals}

/-! ## The loop as a run -/

/-- The run of the rounds ends where the loop does. -/
theorem run_scanStep (pushed : PushedQuals) (quals : List Qual) :
    (EventRun.run (scanStep env) pushed quals).map Prod.snd =
      scanQuals env.columns env.params env.unassigned pushed quals := by
  induction quals generalizing pushed with
  | nil => rfl
  | cons qual quals ih =>
      rw [EventRun.run, scanQuals, scanStep]
      cases scanQual env.columns env.params env.unassigned pushed qual with
      | error e => rfl
      | ok pushed =>
          simp only [Except.map]
          rw [← ih pushed]
          cases EventRun.run (scanStep env) pushed quals <;> rfl

/-- A round assigns what it reads. -/
theorem scanStep_eq {attName : CString}
    (hcolname : colnameFromTupleVar env.columns qual.left = some attName) :
    scanStep env pushed qual =
      (match readsValue env qual with
      | none => Except.ok pushed
      | some (restriction, value) => pushed.assign (some restriction) value).map
        fun pushed => ((), pushed) := by
  rw [scanStep, readsValue, scanQual]
  simp only [hcolname]
  cases switchValue env.params env.unassigned qual.right with
  | none => rfl
  | some value =>
      cases hzero : value.isZero with
      | true => simp [hzero]
      | false =>
          simp only [Bool.false_eq_true, if_false, hzero]
          cases restrictionOn attName qual.opname with
          | none => rfl
          | some restriction => rfl

/-- A column behind the tuple descriptor ends the loop. -/
theorem scanStep_eq_error (hcolname : colnameFromTupleVar env.columns qual.left = none) :
    scanStep env pushed qual = .error (.noSuchAttribute qual.left.varattno) := by
  rw [scanStep, scanQual]
  simp only [hcolname]
  rfl

/-- A round that reads nothing changes nothing. -/
theorem eq_of_readsValue_eq_none {pushed' : PushedQuals} (h : readsValue env qual = none)
    (hstep : scanStep env pushed qual = .ok ((), pushed')) : pushed' = pushed := by
  cases hcolname : colnameFromTupleVar env.columns qual.left with
  | none =>
      rw [scanStep_eq_error hcolname] at hstep
      cases hstep
  | some attName =>
      rw [scanStep_eq hcolname, h] at hstep
      exact (congrArg Prod.snd (Except.ok.inj hstep)).symm

/-- What a round reads. -/
theorem readsValue_eq_some_iff {restriction : Restriction} {value : Datum} :
    readsValue env qual = some (restriction, value) ↔
      ∃ attName, colnameFromTupleVar env.columns qual.left = some attName ∧
        restrictionOn attName qual.opname = some restriction ∧
        switchValue env.params env.unassigned qual.right = some value ∧ value.isZero = false := by
  rw [readsValue]
  constructor
  · intro h
    split at h
    · cases h
    · rename_i attName hcolname
      split at h
      · cases h
      · rename_i read hswitch
        split at h
        · cases h
        · rename_i hzero
          obtain ⟨found, hfound, hpair⟩ := Option.map_eq_some_iff.mp h
          obtain ⟨rfl, rfl⟩ := Prod.mk.inj hpair
          exact ⟨attName, hcolname, hfound, hswitch, by simpa using hzero⟩
  · rintro ⟨attName, hcolname, hrestriction, hswitch, hzero⟩
    simp only [hcolname, hswitch, hzero, Bool.false_eq_true, if_false, hrestriction,
      Option.map_some]

/-! ## Which clauses fit -/

/-- The operand of an assigned value. -/
theorem operand_of_qualValue {params : Param → Option Datum} {right : Expr} {value : Datum}
    (h : qualValue params right = .ok (some value)) :
    (∃ c, right = .const c ∧ c.constisnull = false ∧ c.constvalue = value) ∨
      ∃ p, right = .param p ∧ params p = some value := by
  cases right with
  | const c =>
      cases hnull : c.constisnull with
      | true => simp [qualValue, hnull] at h
      | false => exact .inl ⟨c, rfl, hnull, by simpa [qualValue, hnull] using h⟩
  | param p => exact .inr ⟨p, rfl, Except.ok.inj h⟩
  | _ => cases h

/-- Only a constant or a parameter assigns a value. -/
theorem qualValue_cases (params : Param → Option Datum) (right : Expr) :
    (∃ value? type, qualValue params right = .ok value? ∧ valueType right = some type ∧
        right.isConstOrParam = true) ∨
      qualValue params right = .error .uninitialisedValue ∧ right.isConstOrParam = false := by
  cases right with
  | const c => exact .inl ⟨_, _, rfl, rfl, rfl⟩
  | param p => exact .inl ⟨_, _, rfl, rfl, rfl⟩
  | _ => exact .inr ⟨rfl, rfl⟩

/-- **Fitting clauses read their own values**, whatever `value` holds. -/
theorem readsOwnClause_of_fits
    (hclause : ∃ clause ∈ fdw_exprs,
      extractRestrictions env.catalog {env.scanrelid} clause [] = .ok [qual])
    (h : QualFits env qual) : ReadsOwnClause env fdw_exprs pushed qual := by
  constructor
  · intro restriction value hreads
    obtain ⟨attName, hcolname, hrestriction, hswitch, hzero⟩ := readsValue_eq_some_iff.mp hreads
    obtain ⟨value?, type, hvalue, htype, hfits⟩ := h attName restriction hcolname hrestriction
    have hassigned : value? = some value := by
      rw [← hswitch, switchValue, hvalue]
    refine ⟨hclause, operand_of_qualValue (hassigned ▸ hvalue), type, htype, ?_⟩
    exact hfits value hassigned hzero
  · intro hright pushed' hstep
    refine eq_of_readsValue_eq_none ?_ hstep
    rw [Option.eq_none_iff_forall_ne_some]
    rintro ⟨restriction, value⟩ hreads
    obtain ⟨attName, hcolname, hrestriction, -⟩ := readsValue_eq_some_iff.mp hreads
    obtain ⟨value?, type, hvalue, -⟩ := h attName restriction hcolname hrestriction
    rcases qualValue_cases env.params qual.right with ⟨-, -, -, -, hconst⟩ | ⟨hnone, -⟩
    · rw [hright] at hconst
      cases hconst
    · rw [hvalue] at hnone
      cases hnone

/-- **A clause that reads only its own values fits**, if this does not depend on what `value`
holds. -/
theorem fits_of_readsOwnClause
    (h : ∀ unassigned, ReadsOwnClause { env with unassigned } fdw_exprs pushed qual) :
    QualFits env qual := by
  intro attName restriction hcolname hrestriction
  rcases qualValue_cases env.params qual.right with ⟨value?, type, hvalue, htype, -⟩ | ⟨hnone, -⟩
  · refine ⟨value?, type, hvalue, htype, fun value hsome hzero => ?_⟩
    have hswitch : switchValue env.params env.unassigned qual.right = some value := by
      rw [switchValue, hvalue]
      exact hsome
    obtain ⟨read, hread, hfits⟩ := ((h env.unassigned).1 restriction value
      (readsValue_eq_some_iff.mpr ⟨attName, hcolname, hrestriction, hswitch, hzero⟩)).type
    rw [htype] at hread
    rw [Option.some.inj hread]
    exact hfits
  -- a round that assigns nothing reads any word that `value` may hold
  · have hswitch : switchValue env.params (fun _ => .word 1) qual.right = some (.word 1) := by
      rw [switchValue, hnone]
    have hone : Datum.isZero (.word 1) = false := rfl
    have hown := (h fun _ => .word 1).1 restriction (.word 1)
      (readsValue_eq_some_iff.mpr ⟨attName, hcolname, hrestriction, hswitch, hone⟩)
    rcases hown.operand with ⟨c, hconst, -⟩ | ⟨p, hparam, -⟩
    · rw [hconst] at hnone
      cases hnone
    · rw [hparam] at hnone
      cases hnone

/-- A round over a fitting clause does not depend on what `value` holds. -/
theorem scanStep_of_fits (h : QualFits env qual) (unassigned : Expr → Datum) :
    scanStep { env with unassigned } pushed qual = scanStep env pushed qual := by
  cases hcolname : colnameFromTupleVar env.columns qual.left with
  | none =>
      have hstep : scanStep { env with unassigned } pushed qual = _ := scanStep_eq_error hcolname
      rw [hstep, scanStep_eq_error hcolname]
  | some attName =>
      have hreads : readsValue { env with unassigned } qual = readsValue env qual := by
        unfold readsValue
        simp only [hcolname]
        cases hrestriction : restrictionOn attName qual.opname with
        | none =>
            simp only [Option.map_none, ite_self]
            split <;> split <;> rfl
        | some restriction =>
            obtain ⟨value?, type, hvalue, -⟩ := h attName restriction hcolname hrestriction
            simp only [switchValue, hvalue]
      have hstep : scanStep { env with unassigned } pushed qual = _ := scanStep_eq hcolname
      rw [hstep, hreads, scanStep_eq hcolname]

/-! ## The extracted clauses -/

/-- The list that is extracted has what it had before and the qualifications of the clauses. -/
theorem mem_extractQuals_iff {catalog : Catalog} {base_relids : Relids} {quals quals' : List Qual}
    (h : extractQuals catalog base_relids quals fdw_exprs = .ok quals') :
    qual ∈ quals' ↔ qual ∈ quals ∨
      ∃ clause ∈ fdw_exprs, extractRestrictions catalog base_relids clause [] = .ok [qual] := by
  induction fdw_exprs generalizing quals with
  | nil =>
      obtain rfl := Except.ok.inj h
      simp
  | cons expr exprs ih =>
      rw [extractQuals, extractRestrictions_append] at h
      cases hextract : extractRestrictions catalog base_relids expr [] with
      | error e =>
          rw [hextract] at h
          cases h
      | ok new =>
          rw [hextract] at h
          -- of one clause nothing or one qualification is extracted
          have hnew : qual ∈ new ↔ extractRestrictions catalog base_relids expr [] = .ok [qual] := by
            rw [hextract]
            rcases eq_nil_or_singleton_of_extractRestrictions hextract with rfl | ⟨q, rfl⟩
            · simp
            · simp [eq_comm]
          rw [ih h, List.mem_append, hnew, List.exists_mem_cons_iff, or_assoc]

/-- The loop over the qualifications, whatever `value` holds. -/
theorem along_readsOwnClause_iff {quals : List Qual}
    (hclause : ∀ qual ∈ quals, ∃ clause ∈ fdw_exprs,
      extractRestrictions env.catalog {env.scanrelid} clause [] = .ok [qual]) :
    (∀ unassigned, EventRun.Along (scanStep { env with unassigned })
        (ReadsOwnClause { env with unassigned } fdw_exprs) pushed quals) ↔
      EventRun.Along (scanStep env) (fun _ => QualFits env) pushed quals := by
  induction quals generalizing pushed with
  | nil => exact ⟨fun _ => trivial, fun _ _ => trivial⟩
  | cons qual quals ih =>
      have ih := fun pushed' => @ih pushed'
        fun q hq => hclause q (List.mem_cons_of_mem qual hq)
      constructor
      · intro h
        have hfits := fits_of_readsOwnClause fun unassigned => (h unassigned).1
        refine ⟨hfits, fun o pushed' hstep => (ih pushed').mp fun unassigned => ?_⟩
        exact (h unassigned).2 o pushed' ((scanStep_of_fits hfits unassigned).trans hstep)
      · rintro ⟨hfits, hrest⟩ unassigned
        refine ⟨readsOwnClause_of_fits (hclause qual List.mem_cons_self) hfits, ?_⟩
        intro o pushed' hstep
        refine (ih pushed').mpr (hrest o pushed' ?_) unassigned
        exact (scanStep_of_fits hfits unassigned).symm.trans hstep

end PushedValues

/-- `q = upper($1)`. -/
def queryEqualsCall : Expr :=
  .opExpr (booleanFields 98 100) [.var queryVar, .funcExpr 871 [.param ⟨1, 25⟩]]

end OcgeoFdw
