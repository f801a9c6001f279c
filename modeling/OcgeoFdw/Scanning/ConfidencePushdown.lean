import OcgeoFdw.Scanning.BeginScan

/-! # Pushing the minimum confidence down

A scan sends the minimum confidence that it finds in its clauses, and the executor rechecks all of
the clauses on the rows that come back. `keepsRows_iff` states when sending it loses no row,
whatever the service holds. -/

/-! ## Predicate pushdown

A source may filter its rows by a predicate that it is sent, and the receiver filters what arrives
by its own predicate. The pushdown is sound if the rows that survive are those that survive without
it. -/

namespace Pushdown

variable {α : Type*}

/-- Whatever the source holds, up to a number of rows and within a domain, filtering at the source
does not change the rows that survive the recheck. -/
def Sound (limit : ℕ) (domain : α → Prop) (source recheck : α → Bool) : Prop :=
  ∀ rows : List α, rows.length < limit → (∀ row ∈ rows, domain row) →
    (rows.filter source).filter recheck = rows.filter recheck

/-- **Soundness of a pushdown**: every row that survives the recheck passes the source. -/
theorem sound_iff {limit : ℕ} {domain : α → Prop} {source recheck : α → Bool} (hlimit : 1 < limit) :
    Sound limit domain source recheck ↔
      ∀ row, domain row → recheck row = true → source row = true := by
  constructor
  · intro h row hdomain hrecheck
    -- a source that holds this row alone
    have hrow := h [row] hlimit (by simpa using hdomain)
    by_contra hsource
    simp [hsource, hrecheck] at hrow
  · intro h rows _ hdomain
    rw [List.filter_filter]
    apply List.filter_congr
    intro row hmem
    by_cases hrecheck : recheck row = true
    · rw [hrecheck, h row (hdomain row hmem) hrecheck, Bool.and_self]
    · rw [Bool.not_eq_true] at hrecheck
      rw [hrecheck, Bool.false_and]

end Pushdown

namespace OcgeoFdw

open CInt CString

/-! ## The service -/

/-- A result of the service: its confidence, and the JSON value that the other columns are read
from. -/
structure ApiResult where
  confidence : ℤ
  internal : CJson

/-- A reply of the service: the code of its status and the results. -/
structure ServiceReply where
  code : ℤ
  results : List ApiResult

/-- How the service answers the requests for a query of which it holds the given results: all of
them without a minimum confidence, those of at least a minimum from 1 to 10, and an error for any
other minimum. -/
structure Answers (service : OcgeoParams → ServiceReply) (all : List ApiResult) : Prop where
  absent : ∀ params, (all.length : ℤ) < params.limit → params.sentMinConfidence = none →
    service params = ⟨ocgeoCodeOk, all⟩
  inRange : ∀ params m, (all.length : ℤ) < params.limit → params.sentMinConfidence = some m →
    1 ≤ m → m ≤ 10 → service params = ⟨ocgeoCodeOk, all.filter fun r => m ≤ r.confidence⟩
  rejected : ∀ params m, params.sentMinConfidence = some m → ¬ (1 ≤ m ∧ m ≤ 10) →
    (service params).code ≠ ocgeoCodeOk

/-- A service that answers so, with code 400 for an error. -/
def geocoder (all : List ApiResult) (params : OcgeoParams) : ServiceReply :=
  match params.sentMinConfidence with
  | none => ⟨ocgeoCodeOk, all⟩
  | some m =>
      if 1 ≤ m ∧ m ≤ 10 then ⟨ocgeoCodeOk, all.filter fun r => m ≤ r.confidence⟩ else ⟨400, []⟩

theorem answers_geocoder (all : List ApiResult) : Answers (geocoder all) all where
  absent params _ hsent := by
    rw [geocoder]
    rw [hsent]
  inRange params m _ hsent hlow hhigh := by
    rw [geocoder]
    simp only [hsent]
    rw [if_pos ⟨hlow, hhigh⟩]
  rejected params m hsent hrange := by
    rw [geocoder]
    simp only [hsent]
    rw [if_neg hrange]
    decide

/-! ## The rows of a scan -/

/-- A row of the table: the column `q`, which repeats the query, and the result behind the other
columns. -/
structure ScanRow where
  q : CString
  result : ApiResult

/-- The rows of a scan: one for each result of a request that succeeds, and none without a
request. `iterate_scannedRows` finds them in the calls of `ocgeoIterateForeignScan`. -/
def scannedRows (service : CString → OcgeoParams → ServiceReply) (pushed : PushedQuals) :
    List ScanRow :=
  match pushed.request with
  | none => []
  | some (query, params) =>
      let reply := service query params
      if reply.code = ocgeoCodeOk then reply.results.map (ScanRow.mk query) else []

/-- What the executor decides about a clause on a row. On the clauses that are pushed down it
compares the column with the value, in the order of texts and of 64-bit integers. -/
structure Recheck (env : ScanEnv) where
  holds : Expr → ScanRow → Bool
  query_iff : ∀ {clause right value}, Recognises env clause .query right →
    qualValue env.params right = .ok (some (.text value)) →
    ∀ row, holds clause row = true ↔ row.q = value
  confidence_iff : ∀ {clause right bits}, Recognises env clause .confidence right →
    qualValue env.params right = .ok (some (.word bits)) →
    ∀ row, holds clause row = true ↔ bits.toInt ≤ row.result.confidence

/-- The least recheck: it accepts every clause that is not pushed down. -/
def leastRecheck (env : ScanEnv) : Recheck env where
  holds clause row :=
    match extractRestrictions env.catalog {env.scanrelid} clause [] with
    | .ok [⟨left, opname, right⟩] =>
        match (colnameFromTupleVar env.columns left).bind (restrictionOn · opname),
            qualValue env.params right with
        | some .query, .ok (some (.text value)) => row.q = value
        | some .confidence, .ok (some (.word bits)) => bits.toInt ≤ row.result.confidence
        | _, _ => true
    | _ => true
  query_iff := by
    rintro clause right value ⟨left, opname, attName, hextract, -, hcolname, hrestriction⟩ hvalue _
    simp [hextract, hcolname, hrestriction, hvalue]
  confidence_iff := by
    rintro clause right bits ⟨left, opname, attName, hextract, -, hcolname, hrestriction⟩ hvalue _
    simp [hextract, hcolname, hrestriction, hvalue]

section Pushdown

variable {env : ScanEnv} (recheck : Recheck env)

/-- The rows that survive the recheck of all scan clauses. -/
def survivors (exprs : List Expr) (rows : List ScanRow) : List ScanRow :=
  rows.filter fun row => exprs.all fun clause => recheck.holds clause row

/-- The scan starts, and the rows that survive are those that survive when no minimum confidence is
sent. -/
def KeepsRows (service : CString → OcgeoParams → ServiceReply) (exprs : List Expr) : Prop :=
  ∃ pushed, pushedQuals env exprs = .ok pushed ∧
    survivors recheck exprs (scannedRows service pushed) =
      survivors recheck exprs (scannedRows service { pushed with min_confidence := 0 })

/-! ## Scan clauses -/

/-- A scan clause: the equality of `q` with a text, the comparison `>=` of `confidence` with an
integer constant, in either operand order, or a clause that a scan does not push down. -/
inductive ScanClause (env : ScanEnv)
  | query (expr right : Expr) (value : CString) (recognised : Recognises env expr .query right)
      (hvalue : qualValue env.params right = .ok (some (.text value)))
  | confidence (expr right : Expr) (bits : BitVec 64)
      (recognised : Recognises env expr .confidence right)
      (hvalue : qualValue env.params right = .ok (some (.word bits)))
  | other (expr : Expr) (ignored : ∀ pushed, scanClause env pushed expr = .ok pushed)

namespace ScanClause

/-- The expression of a clause. -/
def expr : ScanClause env → Expr
  | query expr .. | confidence expr .. | other expr _ => expr

/-- The value that the clause compares `q` with. -/
def queryValue? : ScanClause env → Option CString
  | query _ _ value .. => some value
  | _ => none

/-- The constant that the clause compares `confidence` with. -/
def constant? : ScanClause env → Option (BitVec 64)
  | confidence _ _ bits .. => some bits
  | _ => none

/-- What the clause contributes to the request. -/
def push (pushed : PushedQuals) : ScanClause env → PushedQuals
  | query _ _ value .. =>
      { pushed with qual_key := some queryAttName, qual_value := some value, pushdown := true }
  | confidence _ _ bits .. =>
      if bits = 0 then pushed else { pushed with min_confidence := toInt32 bits.toInt }
  | other .. => pushed

/-- One round of the two loops. -/
theorem scanClause_eq (clause : ScanClause env) (pushed : PushedQuals) :
    scanClause env pushed clause.expr = .ok (clause.push pushed) := by
  cases clause with
  | query expr right value recognised hvalue =>
      exact scanClause_of_recognises recognised hvalue
  | confidence expr right bits recognised hvalue =>
      apply (scanClause_of_recognises recognised hvalue).trans
      simp only [Datum.isZero, decide_eq_true_eq, push]
      split <;> rfl
  | other expr ignored => exact ignored pushed

end ScanClause

/-- The minimum confidence after one constant. -/
def nextMinConfidence (min_confidence : ℤ) (bits : BitVec 64) : ℤ :=
  if bits = 0 then min_confidence else toInt32 bits.toInt

/-- The minimum confidence derived from the constants: the last one that is not zero, narrowed to an
`int`. -/
def derivedMinConfidence (constants : List (BitVec 64)) : ℤ := constants.foldl nextMinConfidence 0

/-- The constants that the clauses compare `confidence` with. -/
def confidenceConstants (clauses : List (ScanClause env)) : List (BitVec 64) :=
  clauses.filterMap ScanClause.constant?

/-- What the loops leave for a list of scan clauses. -/
def pushAll (clauses : List (ScanClause env)) : PushedQuals :=
  clauses.foldl (fun pushed clause => clause.push pushed) .initial

/-- A scan over such clauses starts. -/
theorem pushedQuals_map_expr (clauses : List (ScanClause env)) :
    pushedQuals env (clauses.map ScanClause.expr) = .ok (pushAll clauses) :=
  pushedQuals_eq_foldl ScanClause.scanClause_eq clauses

/-- The last non-zero constant becomes the minimum confidence. -/
theorem min_confidence_pushAll (clauses : List (ScanClause env)) :
    (pushAll clauses).min_confidence = derivedMinConfidence (confidenceConstants clauses) := by
  rw [pushAll, derivedMinConfidence, confidenceConstants]
  induction clauses using List.reverseRecOn with
  | nil => rfl
  | append_singleton clauses clause ih =>
      rw [List.foldl_concat, List.filterMap_append, List.foldl_append, ← ih]
      cases clause with
      | query => rfl
      | confidence expr right bits =>
          simp only [ScanClause.push, List.filterMap_cons, ScanClause.constant?, List.filterMap_nil,
            List.foldl_cons, List.foldl_nil, nextMinConfidence]
          split <;> rfl
      | other => rfl

/-- The last query becomes the query of the request. -/
theorem request_pushAll {clauses : List (ScanClause env)} {query : CString}
    (hquery : (clauses.filterMap ScanClause.queryValue?).getLast? = some query) (m : ℤ) :
    { pushAll clauses with min_confidence := m }.request = some (query, requestParams m) := by
  obtain ⟨hpushdown, hvalue⟩ : (pushAll clauses).pushdown = true ∧
      (pushAll clauses).qual_value = some query := by
    rw [pushAll]
    induction clauses using List.reverseRecOn with
    | nil => cases hquery
    | append_singleton clauses clause ih =>
        rw [List.foldl_concat]
        rw [List.filterMap_append] at hquery
        cases clause with
        | query expr right value =>
            have hlast : (clauses.filterMap ScanClause.queryValue? ++ [value]).getLast? =
                some query := hquery
            rw [List.getLast?_concat] at hlast
            exact ⟨rfl, hlast⟩
        | confidence expr right bits =>
            rw [List.filterMap_cons_none rfl, List.filterMap_nil, List.append_nil] at hquery
            simp only [ScanClause.push]
            split
            · exact ih hquery
            · exact ih hquery
        | other =>
            rw [List.filterMap_cons_none rfl, List.filterMap_nil, List.append_nil] at hquery
            exact ih hquery
  rw [PushedQuals.request]
  simp only [hpushdown, if_true, hvalue, Option.map_some]

/-! ## The rows that survive -/

/-- The results that the service returns when the minimum confidence of the scan is `m`. -/
def sends (m : ℤ) (r : ApiResult) : Bool := m = 0 || (1 ≤ m && m ≤ 10 && m ≤ r.confidence)

/-- The rows of a scan are the results that the service returns. -/
theorem scannedRows_eq {service : CString → OcgeoParams → ServiceReply} {all : List ApiResult}
    {pushed : PushedQuals} {query : CString} {m : ℤ}
    (hrequest : pushed.request = some (query, requestParams m))
    (hservice : Answers (service query) all)
    (hlength : (all.length : ℤ) < maxResultsRequested) :
    scannedRows service pushed = (all.filter (sends m)).map (ScanRow.mk query) := by
  rw [scannedRows]
  simp only [hrequest]
  by_cases hzero : m = 0
  -- no minimum is sent
  · have hsent : (requestParams m).sentMinConfidence = none := by
      subst hzero
      rfl
    have hall : all.filter (sends m) = all := List.filter_eq_self.mpr fun r _ => by
      simp [sends, hzero]
    rw [hservice.absent _ hlength hsent, hall]
    exact if_pos rfl
  · have hsent : (requestParams m).sentMinConfidence = some m := by
      simp [requestParams, OcgeoParams.sentMinConfidence, hzero]
    by_cases hrange : 1 ≤ m ∧ m ≤ 10
    -- the service filters
    · rw [hservice.inRange _ m hlength hsent hrange.1 hrange.2]
      have hsends : all.filter (sends m) = all.filter fun r => m ≤ r.confidence :=
        List.filter_congr fun r _ => by simp [sends, hzero, hrange]
      rw [hsends]
      exact if_pos rfl
    -- the service rejects the request, and the scan has no rows
    · have hnone : all.filter (sends m) = [] := List.filter_eq_nil_iff.mpr fun r _ => by
        simp only [sends, hzero, decide_false, Bool.false_or, Bool.and_eq_true, decide_eq_true_eq]
        exact fun h => hrange h.1
      rw [if_neg (hservice.rejected _ m hsent hrange), hnone, List.map_nil]

/-- A result survives with the query if every clause accepts its row. -/
def accepts (clauses : List (ScanClause env)) (query : CString) (r : ApiResult) : Bool :=
  clauses.all fun clause => recheck.holds clause.expr ⟨query, r⟩

/-- The confidence of a result of the service. -/
def ConfidenceInRange (r : ApiResult) : Prop := 0 ≤ r.confidence ∧ r.confidence ≤ 10

/-- The rows that survive are the results that pass the service and the clauses. -/
theorem survivors_scannedRows {clauses : List (ScanClause env)}
    {service : CString → OcgeoParams → ServiceReply} {all : List ApiResult} {pushed : PushedQuals}
    {query : CString} {m : ℤ} (hrequest : pushed.request = some (query, requestParams m))
    (hservice : Answers (service query) all) (hlength : (all.length : ℤ) < maxResultsRequested) :
    survivors recheck (clauses.map ScanClause.expr) (scannedRows service pushed) =
      ((all.filter (sends m)).filter (accepts recheck clauses query)).map (ScanRow.mk query) := by
  rw [scannedRows_eq hrequest hservice hlength]
  rw [survivors]
  rw [List.filter_map]
  congr 1
  apply List.filter_congr
  intro r _
  rw [Function.comp_apply, List.all_map]
  rfl

/-- One scan keeps its rows exactly when filtering the results at the service first does not change
those that the clauses accept. -/
theorem keepsRows_iff_filter {clauses : List (ScanClause env)}
    {service : CString → OcgeoParams → ServiceReply} {all : List ApiResult} {query : CString}
    (hquery : (clauses.filterMap ScanClause.queryValue?).getLast? = some query)
    (hservice : Answers (service query) all) (hlength : (all.length : ℤ) < maxResultsRequested) :
    KeepsRows recheck service (clauses.map ScanClause.expr) ↔
      (all.filter (sends (derivedMinConfidence (confidenceConstants clauses)))).filter
          (accepts recheck clauses query) =
        all.filter (accepts recheck clauses query) := by
  set m := derivedMinConfidence (confidenceConstants clauses) with hm
  have hrequest : (pushAll clauses).request = some (query, requestParams m) := by
    rw [hm, ← min_confidence_pushAll]
    exact request_pushAll hquery _
  have hall : all.filter (sends 0) = all := List.filter_eq_self.mpr fun _ _ => rfl
  have hinjective : Function.Injective (ScanRow.mk query) := fun r r' h => (ScanRow.mk.inj h).2
  rw [KeepsRows]
  rw [pushedQuals_map_expr]
  constructor
  · rintro ⟨pushed, hpushed, h⟩
    obtain rfl : pushAll clauses = pushed := Except.ok.inj hpushed
    rw [survivors_scannedRows recheck hrequest hservice hlength,
      survivors_scannedRows recheck (request_pushAll hquery 0) hservice hlength, hall] at h
    exact hinjective.list_map h
  · intro h
    refine ⟨pushAll clauses, rfl, ?_⟩
    rw [survivors_scannedRows recheck hrequest hservice hlength,
      survivors_scannedRows recheck (request_pushAll hquery 0) hservice hlength, hall, h]

/-- The recheck of a clause with a constant. -/
theorem holds_iff_of_constant {clause : ScanClause env} {bits : BitVec 64}
    (h : clause.constant? = some bits) (row : ScanRow) :
    recheck.holds clause.expr row = true ↔ bits.toInt ≤ row.result.confidence := by
  cases clause with
  | query => cases h
  | confidence expr right value recognised hvalue =>
      obtain rfl : value = bits := Option.some.inj h
      exact recheck.confidence_iff recognised hvalue row
  | other => cases h

/-- A clause on `q` accepts the rows of its query. -/
theorem holds_of_queryValue {clause : ScanClause env} {query : CString}
    (h : clause.queryValue? = some query) (r : ApiResult) :
    recheck.holds clause.expr ⟨query, r⟩ = true := by
  cases clause with
  | query expr right value recognised hvalue =>
      obtain rfl : value = query := Option.some.inj h
      exact (recheck.query_iff recognised hvalue _).mpr rfl
  | confidence => cases h
  | other => cases h

/-- What the clauses accept, by the constants and the clauses on other columns. -/
theorem accepts_iff {clauses : List (ScanClause env)} {query : CString} {r : ApiResult} :
    accepts recheck clauses query r = true ↔
      (∀ clause ∈ clauses, clause.constant? = none →
        recheck.holds clause.expr ⟨query, r⟩ = true) ∧
        ∀ bits ∈ confidenceConstants clauses, bits.toInt ≤ r.confidence := by
  rw [accepts]
  rw [List.all_eq_true]
  constructor
  · intro h
    refine ⟨fun clause hclause _ => h clause hclause, fun bits hbits => ?_⟩
    obtain ⟨clause, hclause, hconstant⟩ := List.mem_filterMap.mp hbits
    exact (holds_iff_of_constant recheck hconstant _).mp (h clause hclause)
  · rintro ⟨hothers, hconstants⟩ clause hclause
    cases hconstant : clause.constant? with
    | none => exact hothers clause hclause hconstant
    | some bits =>
        exact (holds_iff_of_constant recheck hconstant _).mpr
          (hconstants bits (List.mem_filterMap.mpr ⟨clause, hclause, hconstant⟩))

/-- The constants let a confidence be lost neither to the minimum that is sent nor to an error: it
is at least the minimum, or a constant excludes it anyway. -/
def NotLost (constants : List (BitVec 64)) (confidence : ℤ) : Prop :=
  (1 ≤ derivedMinConfidence constants ∧ derivedMinConfidence constants ≤ confidence) ∨
    ∃ bits ∈ constants, confidence < bits.toInt

theorem sends_iff {m : ℤ} {r : ApiResult} :
    sends m r = true ↔ m = 0 ∨ (1 ≤ m ∧ m ≤ 10 ∧ m ≤ r.confidence) := by
  simp [sends, and_assoc]

/-- All scans over the clauses keep their rows exactly when filtering by the derived minimum is a
sound pushdown. -/
theorem keepsRows_iff_sound {clauses : List (ScanClause env)} {query : CString}
    (hquery : (clauses.filterMap ScanClause.queryValue?).getLast? = some query) :
    (∀ service all, Answers (service query) all → (all.length : ℤ) < maxResultsRequested →
        (∀ r ∈ all, ConfidenceInRange r) →
        KeepsRows recheck service (clauses.map ScanClause.expr)) ↔
      Pushdown.Sound maxResultsRequested.toNat ConfidenceInRange
        (sends (derivedMinConfidence (confidenceConstants clauses)))
        (accepts recheck clauses query) := by
  constructor
  · intro h all hlength hrange
    have hlength : (all.length : ℤ) < maxResultsRequested := Int.lt_toNat.mp hlength
    exact (keepsRows_iff_filter recheck hquery (answers_geocoder all) hlength).mp
      (h (fun _ => geocoder all) all (answers_geocoder all) hlength hrange)
  · intro h service all hservice hlength hrange
    exact (keepsRows_iff_filter recheck hquery hservice hlength).mpr
      (h all (Int.lt_toNat.mpr hlength) hrange)

/-- The pushdown of a minimum other than zero is sound if no confidence that the other clauses
accept is lost. -/
theorem sound_iff_notLost {clauses : List (ScanClause env)} {query : CString} :
    Pushdown.Sound maxResultsRequested.toNat ConfidenceInRange
        (sends (derivedMinConfidence (confidenceConstants clauses)))
        (accepts recheck clauses query) ↔
      derivedMinConfidence (confidenceConstants clauses) = 0 ∨
        ∀ r, ConfidenceInRange r →
          (∀ clause ∈ clauses, clause.constant? = none →
            recheck.holds clause.expr ⟨query, r⟩ = true) →
          NotLost (confidenceConstants clauses) r.confidence := by
  rw [Pushdown.sound_iff (by decide)]
  constructor
  · intro h
    apply or_iff_not_imp_left.mpr
    intro hzero r hrange hothers
    by_cases hexcluded : ∃ bits ∈ confidenceConstants clauses, r.confidence < bits.toInt
    · exact .inr hexcluded
    · have haccepts : accepts recheck clauses query r = true :=
        (accepts_iff recheck).mpr ⟨hothers, fun bits hbits =>
          not_lt.mp fun hlt => hexcluded ⟨bits, hbits, hlt⟩⟩
      obtain ⟨hlow, -, hconfidence⟩ := (sends_iff.mp (h r hrange haccepts)).resolve_left hzero
      exact .inl ⟨hlow, hconfidence⟩
  · intro h r hrange haccepts
    obtain ⟨hothers, hconstants⟩ := (accepts_iff recheck).mp haccepts
    refine sends_iff.mpr (h.imp_right fun hnotLost => ?_)
    rcases hnotLost r hrange hothers with ⟨hlow, hconfidence⟩ | ⟨bits, hbits, hlt⟩
    · exact ⟨hlow, hconfidence.trans hrange.2, hconfidence⟩
    · exact absurd (hconstants bits hbits) (not_le.mpr hlt)

/-- **When the pushdown loses no row.** For every set of results of the service, the rows that
survive are those that survive without a minimum confidence, exactly when none is sent, or no
confidence that the other clauses accept is lost. -/
theorem keepsRows_iff {clauses : List (ScanClause env)} {query : CString}
    (hquery : (clauses.filterMap ScanClause.queryValue?).getLast? = some query) :
    (∀ service all, Answers (service query) all → (all.length : ℤ) < maxResultsRequested →
        (∀ r ∈ all, ConfidenceInRange r) →
        KeepsRows recheck service (clauses.map ScanClause.expr)) ↔
      derivedMinConfidence (confidenceConstants clauses) = 0 ∨
        ∀ r, ConfidenceInRange r →
          (∀ clause ∈ clauses, clause.constant? = none →
            recheck.holds clause.expr ⟨query, r⟩ = true) →
          NotLost (confidenceConstants clauses) r.confidence :=
  (keepsRows_iff_sound recheck hquery).trans (sound_iff_notLost recheck)

/-- No confidence at all is lost to a minimum that some constant reaches, or below a constant that
no result reaches. -/
theorem forall_notLost_iff {constants : List (BitVec 64)} :
    (∀ confidence, 0 ≤ confidence → confidence ≤ 10 → NotLost constants confidence) ↔
      (1 ≤ derivedMinConfidence constants ∧
          ∃ bits ∈ constants, derivedMinConfidence constants ≤ bits.toInt) ∨
        ∃ bits ∈ constants, 10 < bits.toInt := by
  set m := derivedMinConfidence constants with hm
  constructor
  · intro h
    rcases h 10 (by decide) le_rfl with ⟨hlow, hhigh⟩ | hexcluded
    · -- the greatest confidence below the minimum is excluded by a constant
      rcases h (m - 1) (by omega) (by omega) with ⟨-, hbelow⟩ | ⟨bits, hbits, hlt⟩
      · omega
      · exact .inl ⟨hlow, bits, hbits, by omega⟩
    · exact .inr hexcluded
  · rintro (⟨hlow, bits, hbits, hreach⟩ | ⟨bits, hbits, hlt⟩) confidence h0 h10
    · by_cases hconfidence : m ≤ confidence
      · exact .inl ⟨hlow, hconfidence⟩
      · exact .inr ⟨bits, hbits, by omega⟩
    · exact .inr ⟨bits, hbits, by omega⟩

/-- **The conjunction of a query and comparisons of the confidence** keeps its rows exactly for
these constants. -/
theorem keepsRows_iff_constants {clauses : List (ScanClause env)} {query : CString}
    (hquery : (clauses.filterMap ScanClause.queryValue?).getLast? = some query)
    (hclauses : ∀ clause ∈ clauses, clause.constant? = none → clause.queryValue? = some query) :
    (∀ service all, Answers (service query) all → (all.length : ℤ) < maxResultsRequested →
        (∀ r ∈ all, ConfidenceInRange r) →
        KeepsRows recheck service (clauses.map ScanClause.expr)) ↔
      derivedMinConfidence (confidenceConstants clauses) = 0 ∨
        (1 ≤ derivedMinConfidence (confidenceConstants clauses) ∧
          ∃ bits ∈ confidenceConstants clauses,
            derivedMinConfidence (confidenceConstants clauses) ≤ bits.toInt) ∨
        ∃ bits ∈ confidenceConstants clauses, 10 < bits.toInt := by
  rw [keepsRows_iff_sound recheck hquery, sound_iff_notLost recheck, ← forall_notLost_iff]
  apply or_congr_right
  constructor
  · intro h confidence h0 h10
    -- a result of every confidence passes the clauses on `q`
    apply h ⟨confidence, .null⟩ ⟨h0, h10⟩
    intro clause hclause hconstant
    exact holds_of_queryValue recheck (hclauses clause hclause hconstant) _
  · intro h r hrange _
    exact h r.confidence hrange.1 hrange.2

end Pushdown

/-! ## Two scans -/

/-- `q = 'x'` as a scan clause. -/
def queryClause : ScanClause queryTable :=
  .query queryEqualsText (.const (textConst (ofAscii "x"))) (ofAscii "x")
    ⟨queryVar, some (ofAscii "="), queryAttName, rfl, rfl, rfl, rfl⟩ rfl

/-- `confidence >= value` as a scan clause. -/
def confidenceClause (value : ℤ) : ScanClause queryTable :=
  .confidence (confidenceAtLeast value) (.const (int4Const value)) (BitVec.ofInt 64 value)
    ⟨confidenceVar, some (ofAscii ">="), ofAscii "confidence", rfl, rfl, rfl, rfl⟩ rfl

/-- `q = 'x' AND confidence >= 5` keeps a result of confidence 7. -/
theorem keepsRows_five :
    KeepsRows (leastRecheck queryTable) (fun _ => geocoder [⟨7, .null⟩])
      ([queryClause, confidenceClause 5].map ScanClause.expr) := by
  have hconstants : confidenceConstants [queryClause, confidenceClause 5] = [5] := rfl
  refine (keepsRows_iff (leastRecheck queryTable) rfl).mpr ?_ _ _ (answers_geocoder _)
    (by decide) ?_
  · rw [hconstants]
    apply Or.inr
    intro r _ _
    have hderived : derivedMinConfidence [5] = 5 := by decide
    have hfive : (5 : BitVec 64).toInt = 5 := by decide
    rw [NotLost]
    rw [hderived]
    by_cases hlow : 5 ≤ r.confidence
    · exact .inl ⟨by decide, hlow⟩
    · exact .inr ⟨5, List.mem_cons_self, by omega⟩
  · intro r hr
    obtain rfl := List.mem_singleton.mp hr
    exact ⟨by decide, by decide⟩

/-- `q = 'x' AND confidence >= -1` loses a result of confidence 5: the service rejects the minimum
-1. -/
theorem not_keepsRows_negative :
    ¬ ∀ service all, Answers (service (ofAscii "x")) all →
      (all.length : ℤ) < maxResultsRequested → (∀ r ∈ all, ConfidenceInRange r) →
      KeepsRows (leastRecheck queryTable) service
        ([queryClause, confidenceClause (-1)].map ScanClause.expr) := by
  intro h
  have hrange : ∀ r ∈ [(⟨5, .null⟩ : ApiResult)], ConfidenceInRange r := by
    intro r hr
    obtain rfl := List.mem_singleton.mp hr
    exact ⟨by decide, by decide⟩
  obtain ⟨pushed, hpushed, hrows⟩ := h (fun _ => geocoder [⟨5, .null⟩]) _ (answers_geocoder _)
    (by decide) hrange
  obtain rfl : (⟨some queryAttName, some (ofAscii "x"), true, -1⟩ : PushedQuals) = pushed :=
    Except.ok.inj hpushed
  cases hrows

end OcgeoFdw
