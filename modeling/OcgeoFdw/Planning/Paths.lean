import OcgeoFdw.Planning.ColumnList
import Mathlib.Data.Finset.Union

/-! # Access paths

`ocgeoGetForeignPaths` and `findPaths`, which offer the planner a way to scan the table: a path with
the values that the query fixes, or a parameterised one, inside a nested loop over the tables that
`q` is compared with. `ocgeoGetForeignPaths_ne_nil_iff` states for which queries there is a path at
all, and `findPaths_sound_iff` when a parameterised path waits for all the tables it needs. -/

namespace OcgeoFdw

open CString

/-! ## Planner state -/

/-- `RestrictInfo`: a clause, and the relations on the outer side if it is an outer-join clause. -/
structure RestrictInfo where
  clause : Expr
  outer_relids : Relids

/-- `EquivalenceClass`: the expressions it makes equal, the clauses it was made of and the relations
it mentions. -/
structure EquivalenceClass where
  ec_members : List Expr
  ec_sources : List RestrictInfo
  ec_relids : Relids

/-- The fields of `PlannerInfo` that are read. -/
structure PlannerInfo where
  eq_classes : List EquivalenceClass
  left_join_clauses : List RestrictInfo
  right_join_clauses : List RestrictInfo

/-- `FormData_pg_attribute`. -/
structure FormAttribute where
  attname : CString
  attisdropped : Bool

/-- A base relation: `RelOptInfo` with the estimates for it. -/
structure BaseRel extends RelOptInfo where
  rows : ℕ
  width : ℕ

/-- `ocgeoFdwPlanState`: the columns of `attinmeta`, the classified clauses and the costs. -/
structure OcgeoFdwPlanState where
  attributes : List FormAttribute
  remote_conds : List Expr
  local_conds : List Expr
  startup_cost : ℕ
  total_cost : ℕ

/-- `ParamPathInfo`. -/
structure ParamPathInfo where
  ppi_req_outer : Relids
  ppi_rows : ℕ
  ppi_clauses : List RestrictInfo

/-- `ForeignPath`. -/
structure ForeignPath where
  rows : ℕ
  startup_cost : ℕ
  total_cost : ℕ
  param_info : Option ParamPathInfo

/-! ## The callbacks -/

/-- `ocgeoGetForeignRelSize`: the plan state, and the relation with its estimated rows. -/
def ocgeoGetForeignRelSize (catalog : Catalog) (castVar : Expr → Option Var)
    (attributes : List FormAttribute) (baserel : BaseRel) :
    Except PlanFault (OcgeoFdwPlanState × BaseRel) :=
  match classifyConditions catalog (attributes.map FormAttribute.attname) castVar {baserel.relid}
      [] [] baserel.baserestrictinfo with
  | .error e => .error e
  | .ok (remote_conds, local_conds) =>
      let rows := maxResultsRequested.toNat
      .ok (⟨attributes, remote_conds, local_conds, 25, 25 + rows⟩, { baserel with rows })

/-- `isAttrInRestrictInfo`. -/
def isAttrInRestrictInfo (relid : ℕ) (attno : ℤ) (restrictinfo : RestrictInfo) : Bool :=
  (pullVarClause restrictinfo.clause).any fun var =>
    decide (var.varno = relid) && decide (var.varattno = attno)

/-- `clausesInvolvingAttr`. A class with one member is left alone. -/
def clausesInvolvingAttr (relid : ℕ) (attnum : ℤ) (ec : EquivalenceClass) : List RestrictInfo :=
  if 1 < ec.ec_members.length then ec.ec_sources.filter (isAttrInRestrictInfo relid attnum) else []

/-- The first loop of `findPaths`: the number of the column `q`. `none` is `InvalidAttrNumber`. -/
def queryAttnum (attributes : List FormAttribute) : Option ℕ :=
  (attributes.findIdx? fun attr => !attr.attisdropped && decide (attr.attname = queryAttName)).map
    (· + 1)

/-- `list_union` of lists of clauses. The comparison of nodes, `equal`, is a parameter. -/
def restrictInfoUnion (equal : RestrictInfo → RestrictInfo → Bool)
    (list1 list2 : List RestrictInfo) : List RestrictInfo :=
  list2.foldl (fun result ri => if result.any (equal · ri) then result else result ++ [ri]) list1

/-- The loops of `findPaths` over the classes and over the join clauses: every item adds its clauses
to `clauses` and, if it has some, its relations to `outer_relids`. -/
def collectClauses {α : Type} (clausesOf : α → List RestrictInfo) (relidsOf : α → Relids)
    (items : List α) (collected : List RestrictInfo × Relids) : List RestrictInfo × Relids :=
  items.foldl (fun collected item =>
    (collected.1 ++ clausesOf item,
      if (clausesOf item).isEmpty then collected.2 else collected.2 ∪ relidsOf item)) collected

/-- `clauses` and `outer_relids` after the two loops. -/
def joinClauses (equal : RestrictInfo → RestrictInfo → Bool) (root : PlannerInfo) (relid : ℕ)
    (attnum : ℤ) : List RestrictInfo × Relids :=
  collectClauses (fun ri => if isAttrInRestrictInfo relid attnum ri then [ri] else [])
    RestrictInfo.outer_relids
    (restrictInfoUnion equal root.left_join_clauses root.right_join_clauses)
    (collectClauses (clausesInvolvingAttr relid attnum) EquivalenceClass.ec_relids root.eq_classes
      ([], ∅))

/-- `create_foreignscan_path`, without path keys and parameters. -/
def createForeignscanPath (rows startup_cost total_cost : ℕ) : ForeignPath :=
  ⟨rows, startup_cost, total_cost, none⟩

/-- `findPaths`. -/
def findPaths (equal : RestrictInfo → RestrictInfo → Bool) (root : PlannerInfo) (baserel : BaseRel)
    (attributes : List FormAttribute) (startupCost : ℕ) : List ForeignPath :=
  match queryAttnum attributes with
  | none => []
  | some attnum =>
      let nbrows := 10
      let (clauses, outer_relids) := joinClauses equal root baserel.relid attnum
      if clauses.isEmpty then []
      else
        let req_outer := outer_relids \ {baserel.relid}
        if req_outer = ∅ then []
        else
          [{ createForeignscanPath nbrows startupCost (nbrows * baserel.width) with
              param_info := some ⟨req_outer, nbrows, clauses⟩ }]

/-- `ocgeoGetForeignPaths`: the paths that are added. -/
def ocgeoGetForeignPaths (equal : RestrictInfo → RestrictInfo → Bool) (root : PlannerInfo)
    (baserel : BaseRel) (planstate : OcgeoFdwPlanState) : List ForeignPath :=
  let paths := findPaths equal root baserel planstate.attributes planstate.startup_cost
  -- a parameterised path forces a nested loop: there is no default path beside it
  if 0 < planstate.remote_conds.length ∧ paths.length = 0 then
    paths ++ [createForeignscanPath baserel.rows planstate.startup_cost
      (baserel.rows * baserel.width)]
  else paths

/-! ## What clauses mention -/

/-- The expression mentions the attribute of the relation. -/
def MentionsAttr (relid : ℕ) (attno : ℤ) (clause : Expr) : Prop :=
  ∃ v, Occurs v clause ∧ v.varno = relid ∧ v.varattno = attno

/-- The number is that of a column `q` that is not dropped. -/
def IsQueryAttribute (attributes : List FormAttribute) (attno : ℤ) : Prop :=
  ∃ (i : ℕ) (attr : FormAttribute), attributes[i]? = some attr ∧ attr.attisdropped = false ∧
    attr.attname = queryAttName ∧ attno = i + 1

/-- The relation is one that the clauses on the attribute are joined with: it belongs to a class of
several members with a source clause on the attribute, or to the outer side of a join with a clause
on it. -/
def JoinsWith (root : PlannerInfo) (relid : ℕ) (attno : ℤ) (r : ℕ) : Prop :=
  (∃ ec ∈ root.eq_classes, 1 < ec.ec_members.length ∧
      (∃ ri ∈ ec.ec_sources, MentionsAttr relid attno ri.clause) ∧ r ∈ ec.ec_relids) ∨
    ∃ ri ∈ root.left_join_clauses ++ root.right_join_clauses,
      MentionsAttr relid attno ri.clause ∧ r ∈ ri.outer_relids

section Paths

variable {equal : RestrictInfo → RestrictInfo → Bool} {root : PlannerInfo} {relid r : ℕ}
  {attno : ℤ} {ri : RestrictInfo} {attributes : List FormAttribute}

/-- `isAttrInRestrictInfo` finds the attribute where it occurs. -/
theorem isAttrInRestrictInfo_iff :
    isAttrInRestrictInfo relid attno ri = true ↔ MentionsAttr relid attno ri.clause := by
  rw [isAttrInRestrictInfo, MentionsAttr]
  simp only [List.any_eq_true, Bool.and_eq_true, decide_eq_true_eq, mem_pullVarClause_iff]

/-- The clauses of a class on the attribute. -/
theorem mem_clausesInvolvingAttr_iff {ec : EquivalenceClass} :
    ri ∈ clausesInvolvingAttr relid attno ec ↔
      1 < ec.ec_members.length ∧ ri ∈ ec.ec_sources ∧ MentionsAttr relid attno ri.clause := by
  rw [clausesInvolvingAttr]
  split
  · rename_i hlength
    simp [hlength, isAttrInRestrictInfo_iff]
  · rename_i hlength
    simp [hlength]

/-- The column that the first loop finds is a column `q`. -/
theorem isQueryAttribute_of_queryAttnum {attnum : ℕ} (h : queryAttnum attributes = some attnum) :
    IsQueryAttribute attributes attnum := by
  obtain ⟨i, hi, rfl⟩ := Option.map_eq_some_iff.mp h
  obtain ⟨hlt, hmatch, -⟩ := List.findIdx?_eq_some_iff_getElem.mp hi
  obtain ⟨hdropped, hname⟩ : attributes[i].attisdropped = false ∧
      attributes[i].attname = queryAttName := by simpa using hmatch
  exact ⟨i, _, List.getElem?_eq_getElem hlt, hdropped, hname, by push_cast; rfl⟩

/-- `clauses` after a loop over items. -/
theorem mem_collectClauses_iff {α : Type} {clausesOf : α → List RestrictInfo}
    {relidsOf : α → Relids} {items : List α} {collected : List RestrictInfo × Relids} :
    ri ∈ (collectClauses clausesOf relidsOf items collected).1 ↔
      ri ∈ collected.1 ∨ ∃ item ∈ items, ri ∈ clausesOf item := by
  rw [collectClauses]
  induction items generalizing collected with
  | nil => simp
  | cons item items ih =>
      rw [List.foldl_cons, ih, List.mem_append, or_assoc]
      simp only [List.mem_cons, exists_eq_or_imp]

/-- `outer_relids` after a loop over items: an item without a clause adds nothing. -/
theorem mem_relids_collectClauses_iff {α : Type} {clausesOf : α → List RestrictInfo}
    {relidsOf : α → Relids} {items : List α} {collected : List RestrictInfo × Relids} :
    r ∈ (collectClauses clausesOf relidsOf items collected).2 ↔
      r ∈ collected.2 ∨ ∃ item ∈ items, (∃ ri, ri ∈ clausesOf item) ∧ r ∈ relidsOf item := by
  rw [collectClauses]
  induction items generalizing collected with
  | nil => simp
  | cons item items ih =>
      rw [List.foldl_cons, ih]
      simp only [List.mem_cons, exists_eq_or_imp]
      rw [← or_assoc]
      apply or_congr_left
      split
      · rename_i hempty
        rw [List.isEmpty_iff.mp hempty]
        simp
      · rename_i hsome
        have hsome : ∃ ri, ri ∈ clausesOf item :=
          List.exists_mem_of_ne_nil _ fun h => hsome (List.isEmpty_iff.mpr h)
        rw [Finset.mem_union, and_iff_right hsome]

/-- The union has the clauses of both lists, if equal nodes have equal fields. -/
theorem mem_restrictInfoUnion_iff (hequal : ∀ a b, equal a b = true → a = b)
    {list1 list2 : List RestrictInfo} :
    ri ∈ restrictInfoUnion equal list1 list2 ↔ ri ∈ list1 ++ list2 := by
  rw [restrictInfoUnion]
  induction list2 generalizing list1 with
  | nil => simp
  | cons ri' list2 ih =>
      rw [List.foldl_cons, ih]
      split
      · rename_i hany
        -- the clause is in the list already
        obtain ⟨member, hmember, heq⟩ := List.any_eq_true.mp hany
        obtain rfl := hequal _ _ heq
        rw [List.mem_append, List.mem_append, List.mem_cons]
        constructor
        · exact Or.imp_right Or.inr
        · rintro (hri | rfl | hri)
          · exact .inl hri
          · exact .inl hmember
          · exact .inr hri
      · rw [List.append_assoc, List.singleton_append]

/-- The clauses that `findPaths` attaches. -/
theorem mem_joinClauses_iff (hequal : ∀ a b, equal a b = true → a = b) :
    ri ∈ (joinClauses equal root relid attno).1 ↔
      (∃ ec ∈ root.eq_classes, 1 < ec.ec_members.length ∧ ri ∈ ec.ec_sources ∧
          MentionsAttr relid attno ri.clause) ∨
        (ri ∈ root.left_join_clauses ++ root.right_join_clauses ∧
          MentionsAttr relid attno ri.clause) := by
  rw [joinClauses]
  rw [mem_collectClauses_iff, mem_collectClauses_iff]
  simp only [List.not_mem_nil, false_or, mem_clausesInvolvingAttr_iff]
  apply or_congr_right
  constructor
  · rintro ⟨ri', hmem, hri⟩
    split at hri
    · rename_i hattr
      obtain rfl := List.mem_singleton.mp hri
      exact ⟨(mem_restrictInfoUnion_iff hequal).mp hmem, isAttrInRestrictInfo_iff.mp hattr⟩
    · cases hri
  · rintro ⟨hmem, hattr⟩
    refine ⟨ri, (mem_restrictInfoUnion_iff hequal).mpr hmem, ?_⟩
    rw [if_pos (isAttrInRestrictInfo_iff.mpr hattr)]
    exact List.mem_singleton_self ri

/-- The relations that `findPaths` accumulates. -/
theorem mem_relids_joinClauses_iff (hequal : ∀ a b, equal a b = true → a = b) :
    r ∈ (joinClauses equal root relid attno).2 ↔ JoinsWith root relid attno r := by
  rw [joinClauses, JoinsWith]
  rw [mem_relids_collectClauses_iff, mem_relids_collectClauses_iff]
  simp only [Finset.notMem_empty, false_or, mem_clausesInvolvingAttr_iff,
    mem_restrictInfoUnion_iff hequal]
  refine or_congr (exists_congr fun ec => and_congr_right fun _ => ?_)
    (exists_congr fun ri => and_congr_right fun _ => and_congr_left fun _ => ?_)
  · constructor
    · rintro ⟨⟨ri, hlength, hmem, hattr⟩, hr⟩
      exact ⟨hlength, ⟨ri, hmem, hattr⟩, hr⟩
    · rintro ⟨hlength, ⟨ri, hmem, hattr⟩, hr⟩
      exact ⟨⟨ri, hlength, hmem, hattr⟩, hr⟩
  · rw [← isAttrInRestrictInfo_iff]
    split
    · rename_i hattr
      simp [hattr]
    · rename_i hattr
      simp [hattr]

/-- A relation is accumulated together with a clause. -/
theorem exists_mem_joinClauses (hequal : ∀ a b, equal a b = true → a = b)
    (h : JoinsWith root relid attno r) : ∃ ri, ri ∈ (joinClauses equal root relid attno).1 := by
  rcases h with ⟨ec, hec, hlength, ⟨ri, hri, hattr⟩, -⟩ | ⟨ri, hri, hattr, -⟩
  · exact ⟨ri, (mem_joinClauses_iff hequal).mpr (.inl ⟨ec, hec, hlength, hri, hattr⟩)⟩
  · exact ⟨ri, (mem_joinClauses_iff hequal).mpr (.inr ⟨hri, hattr⟩)⟩

variable {baserel : BaseRel} {startupCost : ℕ} {path : ForeignPath}

/-- **What `findPaths` builds**: nothing, or for the column `q` one path with the clauses and the
relations collected, if a relation other than the table is among them. -/
theorem mem_findPaths_iff (hequal : ∀ a b, equal a b = true → a = b) :
    path ∈ findPaths equal root baserel attributes startupCost ↔
      ∃ attnum, queryAttnum attributes = some attnum ∧
        (∃ r, r ≠ baserel.relid ∧ JoinsWith root baserel.relid attnum r) ∧
        path = ⟨10, startupCost, 10 * baserel.width,
          some ⟨(joinClauses equal root baserel.relid attnum).2 \ {baserel.relid}, 10,
            (joinClauses equal root baserel.relid attnum).1⟩⟩ := by
  rw [findPaths]
  cases hattnum : queryAttnum attributes with
  | none => simp
  | some attnum =>
      have hother : ((joinClauses equal root baserel.relid attnum).2 \ {baserel.relid}).Nonempty ↔
          ∃ r, r ≠ baserel.relid ∧ JoinsWith root baserel.relid attnum r := by
        rw [Finset.Nonempty]
        simp only [Finset.mem_sdiff, Finset.mem_singleton, mem_relids_joinClauses_iff hequal,
          and_comm]
      simp only [Option.some.injEq, exists_eq_left', ← hother]
      split
      · rename_i hempty
        -- without a clause no relation was accumulated
        refine iff_of_false List.not_mem_nil ?_
        rintro ⟨hnonempty, -⟩
        obtain ⟨r, -, hr⟩ := hother.mp hnonempty
        obtain ⟨ri, hri⟩ := exists_mem_joinClauses hequal hr
        rw [List.isEmpty_iff.mp hempty] at hri
        cases hri
      · split
        · rename_i hempty
          rw [hempty]
          simp
        · rename_i hnonempty
          rw [List.mem_singleton, and_iff_right (Finset.nonempty_iff_ne_empty.mpr hnonempty)]
          rfl

/-- There is a parameterised path exactly if a relation other than the table is accumulated. -/
theorem findPaths_ne_nil_iff (hequal : ∀ a b, equal a b = true → a = b) :
    findPaths equal root baserel attributes startupCost ≠ [] ↔
      ∃ attnum, queryAttnum attributes = some attnum ∧
        ∃ r, r ≠ baserel.relid ∧ JoinsWith root baserel.relid attnum r := by
  constructor
  · intro h
    obtain ⟨path, hpath⟩ := List.exists_mem_of_ne_nil _ h
    obtain ⟨attnum, hattnum, hother, -⟩ := (mem_findPaths_iff hequal).mp hpath
    exact ⟨attnum, hattnum, hother⟩
  · rintro ⟨attnum, hattnum, hother⟩
    exact List.ne_nil_of_mem ((mem_findPaths_iff hequal).mpr ⟨attnum, hattnum, hother, rfl⟩)

/-! ## A path for every query -/

variable {catalog : Catalog} {castVar : Expr → Option Var} {sized : BaseRel}
  {planstate : OcgeoFdwPlanState}

/-- The table as the planner sees it: no parameter has a value yet. -/
def planningEnv (catalog : Catalog) (attributes : List FormAttribute) (relid : ℕ) : ScanEnv where
  catalog := catalog
  columns := attributes.map FormAttribute.attname
  scanrelid := relid
  params _ := none
  unassigned _ := .word 0

/-- `ocgeoGetForeignRelSize` classifies the clauses and leaves the rest of the relation as it is. -/
theorem ocgeoGetForeignRelSize_eq_ok
    (h : ocgeoGetForeignRelSize catalog castVar attributes baserel = .ok (planstate, sized)) :
    planstate.attributes = attributes ∧ sized.relid = baserel.relid ∧
      ∀ clause, clause ∈ planstate.remote_conds ↔ clause ∈ baserel.baserestrictinfo ∧
        IsRemote (planningEnv catalog attributes baserel.relid) castVar clause := by
  rw [ocgeoGetForeignRelSize] at h
  split at h
  · cases h
  · rename_i hclassified
    obtain ⟨rfl, rfl⟩ := Prod.mk.inj (Except.ok.inj h)
    refine ⟨rfl, rfl, fun clause => ?_⟩
    have hmem := @mem_remote_of_classifyConditions
      (planningEnv catalog attributes baserel.relid) _ _ _ _ _ _ hclassified clause
    rw [hmem, classifyClause_eq_true_iff_isRemote]
    simp

/-- A parameterised path of the relation is sound: its clauses are about `q`, and it waits for the
other relations that they mention. -/
structure ParamPathInfo.Sound (ppi : ParamPathInfo) (attributes : List FormAttribute)
    (relid : ℕ) : Prop where
  /-- Every clause mentions the column `q` of the table. -/
  mentions : ∀ ri ∈ ppi.ppi_clauses,
    ∃ attno, IsQueryAttribute attributes attno ∧ MentionsAttr relid attno ri.clause
  /-- The path waits for some relation. -/
  nonempty : ppi.ppi_req_outer.Nonempty
  /-- The path does not wait for the table itself. -/
  excludes : relid ∉ ppi.ppi_req_outer
  /-- The path waits for every other relation that a clause mentions. -/
  requires : ∀ ri ∈ ppi.ppi_clauses, ∀ r ∈ pullVarnos ri.clause, r ≠ relid →
    r ∈ ppi.ppi_req_outer

/-- Every path that `findPaths` builds is parameterised and sound. -/
def FindsSoundPaths (equal : RestrictInfo → RestrictInfo → Bool) (root : PlannerInfo)
    (baserel : BaseRel) (attributes : List FormAttribute) (startupCost : ℕ) : Prop :=
  ∀ path ∈ findPaths equal root baserel attributes startupCost,
    ∃ ppi, path.param_info = some ppi ∧ ppi.Sound attributes baserel.relid

/-- **When parameterised paths are sound.** No path is built, or every relation that a join clause on
`q` mentions, but for the table, is accumulated from some class or join. -/
theorem findPaths_sound_iff (hequal : ∀ a b, equal a b = true → a = b)
    (hsources : ∀ ec ∈ root.eq_classes, ∀ ri ∈ ec.ec_sources,
      pullVarnos ri.clause ⊆ ec.ec_relids) :
    FindsSoundPaths equal root baserel attributes startupCost ↔
      ∀ attnum, queryAttnum attributes = some attnum →
        (∃ r, r ≠ baserel.relid ∧ JoinsWith root baserel.relid attnum r) →
        ∀ ri ∈ root.left_join_clauses ++ root.right_join_clauses,
          MentionsAttr baserel.relid attnum ri.clause →
          ∀ r ∈ pullVarnos ri.clause, r ≠ baserel.relid →
            JoinsWith root baserel.relid attnum r := by
  constructor
  · intro h attnum hattnum hother ri hri hattr r hr hne
    obtain ⟨ppi, hppi, hsound⟩ :=
      h _ ((mem_findPaths_iff hequal).mpr ⟨attnum, hattnum, hother, rfl⟩)
    obtain rfl := Option.some.inj hppi
    have hrequired := hsound.requires ri ((mem_joinClauses_iff hequal).mpr (.inr ⟨hri, hattr⟩)) r
      hr hne
    exact (mem_relids_joinClauses_iff hequal).mp (Finset.mem_sdiff.mp hrequired).1
  · intro h path hpath
    obtain ⟨attnum, hattnum, hother, rfl⟩ := (mem_findPaths_iff hequal).mp hpath
    refine ⟨_, rfl, ?_, ?_, ?_, ?_⟩
    · intro ri hri
      refine ⟨attnum, isQueryAttribute_of_queryAttnum hattnum, ?_⟩
      rcases (mem_joinClauses_iff hequal).mp hri with ⟨ec, -, -, -, hattr⟩ | ⟨-, hattr⟩
      · exact hattr
      · exact hattr
    · obtain ⟨r, hne, hr⟩ := hother
      refine ⟨r, Finset.mem_sdiff.mpr ⟨(mem_relids_joinClauses_iff hequal).mpr hr, ?_⟩⟩
      rwa [Finset.mem_singleton]
    · intro hmem
      exact (Finset.mem_sdiff.mp hmem).2 (Finset.mem_singleton_self _)
    · intro ri hri r hr hne
      refine Finset.mem_sdiff.mpr ⟨(mem_relids_joinClauses_iff hequal).mpr ?_, ?_⟩
      · rcases (mem_joinClauses_iff hequal).mp hri with
          ⟨ec, hec, hlength, hsource, hattr⟩ | ⟨hjoin, hattr⟩
        -- the class brings all its relations
        · exact .inl ⟨ec, hec, hlength, ⟨ri, hsource, hattr⟩, hsources ec hec ri hsource hr⟩
        · exact h attnum hattnum hother ri hjoin hattr r hr hne
      · rwa [Finset.mem_singleton]

end Paths

/-! ## Queries -/

/-- The columns of a table with `q` and `confidence`. -/
def queryAttributes : List FormAttribute :=
  [⟨queryAttName, false⟩, ⟨ofAscii "confidence", false⟩]

/-- The table in a query with these restriction clauses. -/
def restrictedBy (baserestrictinfo : List Expr) : BaseRel where
  relid := 1
  max_attr := 2
  reltarget := [.var confidenceVar]
  baserestrictinfo
  rows := 1000
  width := 4

/-- A query without joins. -/
def singleTable : PlannerInfo := ⟨[], [], []⟩

/-- The clause `a.x = t.q`, over the tables `a` with index 2 and `t` with index 1. -/
def outerEqualsQuery : Expr :=
  .opExpr (booleanFields 98 100) [.var ⟨2, 1, 25⟩, .var queryVar]

/-- The clause `a.x = t.q || b.y`, where `b` has index 3. -/
def outerEqualsConcat : Expr :=
  .opExpr (booleanFields 98 100)
    [.var ⟨2, 1, 25⟩, .funcExpr 1258 [.var queryVar, .var ⟨3, 1, 25⟩]]

/-- The join of `a` with the nullable side of the clause. -/
def leftJoinOn (clause : Expr) : PlannerInfo := ⟨[], [⟨clause, {2}⟩], []⟩

open scoped Classical in
/-- The path for `a LEFT JOIN t ON a.x = t.q` is sound. -/
theorem findPaths_sound_leftJoin :
    findPaths (fun a b => decide (a = b)) (leftJoinOn outerEqualsQuery) (restrictedBy [])
        queryAttributes 25 ≠ [] ∧
      FindsSoundPaths (fun a b => decide (a = b)) (leftJoinOn outerEqualsQuery) (restrictedBy [])
        queryAttributes 25 := by
  have hmention : MentionsAttr 1 1 outerEqualsQuery :=
    ⟨queryVar, .opExpr (List.mem_cons_of_mem _ List.mem_cons_self) .var, rfl, rfl⟩
  have hjoins : JoinsWith (leftJoinOn outerEqualsQuery) 1 1 2 :=
    .inr ⟨_, List.mem_cons_self, hmention, Finset.mem_singleton_self 2⟩
  constructor
  · exact (findPaths_ne_nil_iff fun a b h => of_decide_eq_true h).mpr
      ⟨1, rfl, 2, by decide, hjoins⟩
  · refine (findPaths_sound_iff (fun a b h => of_decide_eq_true h)
      (fun ec hec => absurd hec List.not_mem_nil)).mpr ?_
    rintro attnum hattnum - ri hri - r hr hne
    obtain rfl : 1 = attnum := Option.some.inj hattnum
    obtain rfl := List.mem_singleton.mp hri
    have hvarnos : pullVarnos outerEqualsQuery = {2, 1} := by decide
    rw [hvarnos] at hr
    rcases Finset.mem_insert.mp hr with rfl | hr
    · exact hjoins
    · exact absurd (Finset.mem_singleton.mp hr) hne

open scoped Classical in
/-- The path for `a LEFT JOIN (t JOIN b ON ...) ON a.x = t.q || b.y` waits for `a` only: it has the
clause before it has `b`. -/
theorem not_findPaths_sound :
    ¬ FindsSoundPaths (fun a b => decide (a = b)) (leftJoinOn outerEqualsConcat) (restrictedBy [])
      queryAttributes 25 := by
  intro h
  obtain ⟨ppi, hppi, hsound⟩ := h _ List.mem_cons_self
  obtain rfl := Option.some.inj hppi
  have hrequired := hsound.requires _ List.mem_cons_self 3 (by decide) (by decide)
  exact absurd hrequired (by decide)

end OcgeoFdw
