import OcgeoFdw.Foundation.Separators
import OcgeoFdw.Scanning.RowConversion

/-! # Where the value of a column is

The place in a result that a column stands for is given by its name. What is read is the value that a
path made of the name leads to: `forall_leadsTo_iff` states for which names this is the same. -/

namespace OcgeoFdw

open CInt CString Separators

/-- The value of the first member of a name, if there is one. -/
def CJson.memberNamed (json : CJson) (name : CString) : Option CJson :=
  match json with
  | .object members => (members.find? fun member => member.1 = name).map Prod.snd
  | _ => none

/-- A column that stands for a member of the result itself. -/
def AtTopLevel (columnName : CString) : Prop :=
  columnName = ofAscii "confidence" ∨ columnName = ofAscii "formatted"

instance (columnName : CString) : Decidable (AtTopLevel columnName) :=
  inferInstanceAs (Decidable (_ ∨ _))

/-- The value that a column stands for: the member of its name, of the result or of its
`components`. -/
def placeOf (json : CJson) (columnName : CString) : Option CJson :=
  if AtTopLevel columnName then json.memberNamed columnName
  else (json.memberNamed (ofAscii "components")).bind fun components =>
    components.memberNamed columnName

/-- A segment of a path that counts as the position of a child: digits, which may be none, whose
base-11 number is not negative as an `int`. -/
def IsPosition (segment : CString) : Prop := (∀ c ∈ segment, IsDecimal c) ∧ 0 ≤ readIndex segment

instance (segment : CString) : Decidable (IsPosition segment) :=
  haveI := List.decidableBAll IsDecimal segment
  inferInstanceAs (Decidable (_ ∧ _))

/-- A segment of a path selects a child: that at the position it counts, or the first member of its
name. -/
inductive Selects (node : CJson) (segment : CString) : CJson → Prop
  | position {name : Option CString} {child : CJson} (hposition : IsPosition segment)
      (hchild : node.child[(readIndex segment).toNat]? = some (name, child)) :
      Selects node segment child
  | member {child : CJson} (hposition : ¬ IsPosition segment)
      (hmember : node.memberNamed segment = some child) : Selects node segment child

/-- A name that is read as a path leads to a value: each of its segments, which end at dots, selects a
child of the value before. -/
inductive PathLeadsTo : CJson → CString → CJson → Prop
  | last {node child : CJson} {segment : CString} (hdot : 46 ∉ segment)
      (h : Selects node segment child) : PathLeadsTo node segment child
  | step {node child leaf : CJson} {segment rest : CString} (hdot : 46 ∉ segment)
      (h : Selects node segment child) (hrest : PathLeadsTo child rest leaf) :
      PathLeadsTo node (segment ++ 46 :: rest) leaf

/-- The name of a column leads to a value of the result: at the top level as it is, and in
`components` as a path. -/
def LeadsTo (json : CJson) (columnName : CString) (leaf : CJson) : Prop :=
  if AtTopLevel columnName then json.memberNamed columnName = some leaf
  else ∃ components, json.memberNamed (ofAscii "components") = some components ∧
    PathLeadsTo components columnName leaf

/-- A name that means the same as a path: it has no dot and is no position. -/
def IsPlain (columnName : CString) : Prop := 46 ∉ columnName ∧ ¬ IsPosition columnName

instance (columnName : CString) : Decidable (IsPlain columnName) :=
  inferInstanceAs (Decidable (_ ∧ _))

/-- The number that the members of these names lead to, one inside the other. -/
def CJson.numberAt (json : CJson) (names : List CString) : Option ℚ :=
  match names.foldlM CJson.memberNamed json with
  | some (.number x) => some x
  | _ => none

/-- The point whose coordinates are members of what these names lead to. -/
def CJson.pointAt (json : CJson) (names : List CString) : Option OcgeoLatlng := do
  let lat ← json.numberAt (names ++ [ofAscii "lat"])
  let lng ← json.numberAt (names ++ [ofAscii "lng"])
  return ⟨lat, lng⟩

section Places

variable {json node leaf : CJson} {columnName segment : CString}

/-! ## The lookup of a path -/

/-- The member lookup finds the first member of the name, whatever the value is. -/
theorem getObjectItemCaseSensitive_eq_memberNamed (node : CJson) (name : CString) :
    CJson.getObjectItemCaseSensitive (some node) name = node.memberNamed name := by
  cases node with
  | object members => exact getObjectItemCaseSensitive_object members
  | array elements => exact getObjectItemCaseSensitive_array elements
  | _ => rfl

/-- A segment that is no position is looked up as a name. -/
theorem fieldOf_of_not_isPosition (h : ¬ IsPosition segment) :
    fieldOf node segment = node.memberNamed segment := by
  rw [← getObjectItemCaseSensitive_eq_memberNamed]
  by_cases hname : IsName segment
  · show (if 0 ≤ strToMaybeInt segment then _ else _) = _
    rw [strToMaybeInt_of_isName hname, if_neg (by decide)]
  · have hdecimal := not_isName_iff.mp hname
    exact fieldOf_of_neg hdecimal fun hread => h ⟨hdecimal, hread⟩

/-- A name is no position. -/
theorem IsName.not_isPosition (h : IsName segment) : ¬ IsPosition segment :=
  fun hposition => not_isName_iff.mpr hposition.1 h

/-- One round of the lookup goes to the child that its segment selects. -/
theorem fieldOf_eq_some_iff {child : CJson} :
    fieldOf node segment = some child ↔ Selects node segment child := by
  by_cases hposition : IsPosition segment
  · rw [fieldOf_of_nonneg hposition.1 hposition.2, Option.map_eq_some_iff]
    constructor
    · rintro ⟨⟨name, value⟩, hchild, rfl⟩
      exact .position hposition hchild
    · rintro (⟨-, hchild⟩ | ⟨hnot, -⟩)
      · exact ⟨_, hchild, rfl⟩
      · exact absurd hposition hnot
  · rw [fieldOf_of_not_isPosition hposition]
    constructor
    · exact .member hposition
    · rintro (⟨hposition', -⟩ | ⟨-, hmember⟩)
      · exact absurd hposition' hposition
      · exact hmember

/-- The loop goes on from the child that the first segment selects. -/
theorem getJsonFieldLoop_cons_eq_some_iff {field : CString} {fields : List CString} :
    getJsonFieldLoop (some node) (field :: fields) = some leaf ↔
      ∃ child, Selects node field child ∧ getJsonFieldLoop (some child) fields = some leaf := by
  rw [getJsonFieldLoop]
  constructor
  · intro h
    cases hfield : fieldOf node field with
    | none =>
        rw [hfield, getJsonFieldLoop_none] at h
        cases h
    | some child =>
        rw [hfield] at h
        exact ⟨child, fieldOf_eq_some_iff.mp hfield, h⟩
  · rintro ⟨child, hselects, hrest⟩
    rw [fieldOf_eq_some_iff.mpr hselects]
    exact hrest

/-- **The loop** over the segments of a name ends at the value that the name leads to. -/
theorem getJsonFieldLoop_splitOn_eq_some_iff (columnName : CString) (node : CJson) :
    getJsonFieldLoop (some node) (columnName.splitOn 46) = some leaf ↔
      PathLeadsTo node columnName leaf := by
  by_cases hdot : 46 ∈ columnName
  · obtain ⟨first, rest, hsplit, hfirst⟩ := List.eq_append_cons_of_mem hdot
    have hshorter : rest.length < columnName.length := by
      rw [hsplit, List.length_append, List.length_cons]
      omega
    rw [hsplit, List.splitOn_append_cons_self_of_not_mem hfirst,
      getJsonFieldLoop_cons_eq_some_iff]
    simp only [getJsonFieldLoop_splitOn_eq_some_iff rest]
    constructor
    · rintro ⟨child, hselects, hrest⟩
      exact .step hfirst hselects hrest
    · intro h
      generalize hname : first ++ 46 :: rest = name at h
      cases h with
      | last hno =>
          rw [← hname] at hno
          exact absurd (List.mem_append_right first List.mem_cons_self) hno
      | @step _ child _ segment rest' hno hselects hrest =>
          obtain ⟨rfl, rfl⟩ := (append_cons_inj_of_first hfirst hno).mp hname
          exact ⟨child, hselects, hrest⟩
  · rw [List.splitOn_eq_singleton hdot, getJsonFieldLoop_cons_eq_some_iff]
    constructor
    · rintro ⟨child, hselects, hend⟩
      obtain rfl := Option.some.inj hend
      exact .last hdot hselects
    · intro h
      cases h with
      | last _ hselects => exact ⟨leaf, hselects, rfl⟩
      | step => exact absurd (List.mem_append_right _ List.mem_cons_self) hdot
termination_by columnName.length

/-- The path of a column at the top level is its name. -/
theorem sdssplitlen_fieldPath_of_atTopLevel (h : AtTopLevel columnName) :
    sdssplitlen (fieldPath columnName) 46 = [columnName] := by
  have hpath : fieldPath columnName = columnName := if_pos h
  rw [hpath]
  rcases h with rfl | rfl
  · decide
  · decide

/-- The path of any other column goes into `components`, and on along its name. -/
theorem sdssplitlen_fieldPath_of_not_atTopLevel (h : ¬ AtTopLevel columnName) :
    sdssplitlen (fieldPath columnName) 46 = ofAscii "components" :: columnName.splitOn 46 := by
  have hpath : fieldPath columnName = ofAscii "components" ++ 46 :: columnName := if_neg h
  rw [hpath, sdssplitlen, if_neg (by simp),
    List.splitOn_append_cons_self_of_not_mem (by decide)]

/-- A name selects the first member of the name. -/
theorem selects_iff_of_isName {child : CJson} (h : IsName segment) :
    Selects node segment child ↔ node.memberNamed segment = some child := by
  rw [← fieldOf_eq_some_iff, fieldOf_of_not_isPosition h.not_isPosition]

/-- **What is read for a column** is what its name leads to. -/
theorem getJsonField_fieldPath_eq_some_iff :
    getJsonField (some json) (fieldPath columnName) = some leaf ↔
      LeadsTo json columnName leaf := by
  rw [getJsonField, LeadsTo]
  by_cases htop : AtTopLevel columnName
  · have hname : IsName columnName := by
      rcases htop with rfl | rfl
      · exact ⟨99, by decide, by decide⟩
      · exact ⟨102, by decide, by decide⟩
    rw [if_pos htop, sdssplitlen_fieldPath_of_atTopLevel htop, getJsonFieldLoop_cons_eq_some_iff,
      ← selects_iff_of_isName hname]
    constructor
    · rintro ⟨child, hselects, hend⟩
      rwa [← Option.some.inj hend]
    · exact fun hselects => ⟨leaf, hselects, rfl⟩
  · have hname : IsName (ofAscii "components") := ⟨99, by decide, by decide⟩
    rw [if_neg htop, sdssplitlen_fieldPath_of_not_atTopLevel htop,
      getJsonFieldLoop_cons_eq_some_iff]
    simp only [selects_iff_of_isName hname, getJsonFieldLoop_splitOn_eq_some_iff]

/-- The text accessor answers the string that the name leads to. -/
theorem ocgeoResponseGetStr_fieldPath_eq_some_iff {r : OcgeoResult} {s : CString} :
    ocgeoResponseGetStr r (fieldPath columnName) = some s ↔
      LeadsTo r.internal columnName (.string s) := by
  rw [← getJsonField_fieldPath_eq_some_iff, ocgeoResponseGetStr]
  split
  · rename_i hfound
    simp [hfound]
  · rename_i hno
    exact iff_of_false (by simp) (hno s)

/-- The integer accessor answers the number that the name leads to, cut to an `int`. -/
theorem ocgeoResponseGetInt_fieldPath_eq_some_iff {r : OcgeoResult} {z : ℤ} :
    ocgeoResponseGetInt r (fieldPath columnName) = some z ↔
      ∃ x, LeadsTo r.internal columnName (.number x) ∧ CJson.saturatedInt x = z := by
  simp only [← getJsonField_fieldPath_eq_some_iff]
  rw [ocgeoResponseGetInt]
  split
  · rename_i hfound
    simp [hfound]
  · rename_i hno
    refine iff_of_false (by simp) ?_
    rintro ⟨x, hfound, -⟩
    exact hno x hfound

/-- Names are looked up one inside the other. -/
theorem getJsonFieldLoop_of_names {names : List CString} (hnames : ∀ name ∈ names, IsName name)
    (node : CJson) : getJsonFieldLoop (some node) names = names.foldlM CJson.memberNamed node := by
  induction names generalizing node with
  | nil => rfl
  | cons name names ih =>
      obtain ⟨hname, hnames⟩ := List.forall_mem_cons.mp hnames
      rw [getJsonFieldLoop, fieldOf_of_not_isPosition hname.not_isPosition, List.foldlM_cons]
      cases node.memberNamed name with
      | none => exact getJsonFieldLoop_none names
      | some child => exact ih hnames child

/-- The number accessor answers the number that the names of its path lead to. -/
theorem ocgeoResponseGetDbl_eq_numberAt {path : CString} {names : List CString}
    (hpath : sdssplitlen path 46 = names) (hnames : ∀ name ∈ names, IsName name)
    (r : OcgeoResult) : ocgeoResponseGetDbl r path = r.internal.numberAt names := by
  rw [ocgeoResponseGetDbl, getJsonField, hpath, getJsonFieldLoop_of_names hnames]
  rfl

/-- The coordinates at two paths are those of a point at names. -/
theorem bind_coordinates {β : Type} {r : OcgeoResult} {latPath lngPath : CString}
    {names : List CString} (hlat : sdssplitlen latPath 46 = names ++ [ofAscii "lat"])
    (hlng : sdssplitlen lngPath 46 = names ++ [ofAscii "lng"])
    (hnames : ∀ name ∈ names, IsName name) (f : ℚ → ℚ → Option β) :
    ((ocgeoResponseGetDbl r latPath).bind fun lat =>
        (ocgeoResponseGetDbl r lngPath).bind fun lng => f lat lng) =
      (r.internal.pointAt names).bind fun point => f point.lat point.lng := by
  -- both last names start with the letter l
  have hcoordinate : ∀ rest : CString, ∀ name ∈ names ++ [108 :: rest], IsName name := by
    intro rest name hmem
    rcases List.mem_append.mp hmem with hmem | hmem
    · exact hnames name hmem
    · rw [List.mem_singleton.mp hmem]
      exact ⟨108, List.mem_cons_self, by decide⟩
  rw [ocgeoResponseGetDbl_eq_numberAt hlat (hcoordinate [97, 116]),
    ocgeoResponseGetDbl_eq_numberAt hlng (hcoordinate [110, 103]), CJson.pointAt]
  simp [Option.bind_assoc]

/-- The text of a `point` column is that of the point in `geometry`. -/
theorem pointText_eq_some_iff {r : OcgeoResult} {text : CString} :
    pointText r = some text ↔ ∃ point, r.internal.pointAt [ofAscii "geometry"] = some point ∧
      showPoint point.lat point.lng = text := by
  have hname : ∀ name ∈ [ofAscii "geometry"], IsName name := by
    intro name hmem
    rw [List.mem_singleton.mp hmem]
    exact ⟨103, by decide, by decide⟩
  have hpoint := @bind_coordinates _ r (ofAscii "geometry.lat") (ofAscii "geometry.lng") _
    (by decide) (by decide) hname fun lat lng => some (showPoint lat lng)
  rw [show pointText r = _ from hpoint, Option.bind_eq_some_iff]
  simp only [Option.some.injEq]

/-- The text of a `box` column is that of the points in `bounds`. -/
theorem boxText_eq_some_iff {r : OcgeoResult} {text : CString} :
    boxText r = some text ↔ ∃ northeast southwest,
      r.internal.pointAt [ofAscii "bounds", ofAscii "northeast"] = some northeast ∧
      r.internal.pointAt [ofAscii "bounds", ofAscii "southwest"] = some southwest ∧
      ofAscii "(" ++ showPoint northeast.lat northeast.lng ++ ofAscii "," ++
        showPoint southwest.lat southwest.lng ++ ofAscii ")" = text := by
  have hnames : ∀ corner : CString, IsName corner →
      ∀ name ∈ [ofAscii "bounds", corner], IsName name := by
    intro corner hcorner name hmem
    rcases List.mem_pair.mp hmem with rfl | rfl
    · exact ⟨98, by decide, by decide⟩
    · exact hcorner
  have hnortheast : ∀ f : ℚ → ℚ → Option CString, _ :=
    @bind_coordinates _ r (ofAscii "bounds.northeast.lat") (ofAscii "bounds.northeast.lng")
      [ofAscii "bounds", ofAscii "northeast"] (by decide) (by decide)
      (hnames _ ⟨110, by decide, by decide⟩)
  have hsouthwest : ∀ f : ℚ → ℚ → Option CString, _ :=
    @bind_coordinates _ r (ofAscii "bounds.southwest.lat") (ofAscii "bounds.southwest.lng")
      [ofAscii "bounds", ofAscii "southwest"] (by decide) (by decide)
      (hnames _ ⟨115, by decide, by decide⟩)
  have hbox : boxText r = _ := hnortheast _
  rw [hbox]
  simp only [Option.bind_eq_bind, hsouthwest, Option.bind_eq_some_iff, Option.pure_def,
    Option.some.injEq, exists_and_left]

/-! ## Names that are no paths -/

/-- A plain name leads to the member of the name. -/
theorem pathLeadsTo_iff_of_isPlain (h : IsPlain columnName) :
    PathLeadsTo node columnName leaf ↔ node.memberNamed columnName = some leaf := by
  obtain ⟨hdot, hposition⟩ := h
  rw [← getJsonFieldLoop_splitOn_eq_some_iff, List.splitOn_eq_singleton hdot, getJsonFieldLoop,
    fieldOf_of_not_isPosition hposition]
  cases node.memberNamed columnName with
  | none => exact iff_of_false (by simp [getJsonFieldLoop]) (by simp)
  | some child => exact Iff.rfl

/-- A plain name leads to the place of the column. -/
theorem leadsTo_iff (h : AtTopLevel columnName ∨ IsPlain columnName) :
    LeadsTo json columnName leaf ↔ placeOf json columnName = some leaf := by
  rw [LeadsTo, placeOf]
  by_cases htop : AtTopLevel columnName
  · rw [if_pos htop, if_pos htop]
  · rw [if_neg htop, if_neg htop, Option.bind_eq_some_iff]
    simp only [pathLeadsTo_iff_of_isPlain (h.resolve_left htop)]

/-- What a segment selects is a child. -/
theorem Selects.exists_mem_child {child : CJson} (h : Selects node segment child) :
    ∃ name, (name, child) ∈ node.child := by
  cases h with
  | @position name _ _ hchild => exact ⟨name, List.mem_of_getElem? hchild⟩
  | member _ hmember =>
      cases node with
      | object members =>
          obtain ⟨member, hfind, rfl⟩ := Option.map_eq_some_iff.mp hmember
          exact ⟨some member.1, List.mem_map_of_mem (List.mem_of_find?_eq_some hfind)⟩
      | _ => cases hmember

/-- A path ends at a value without children. -/
theorem not_pathLeadsTo_of_child_eq_nil {found : CJson} (h : leaf.child = []) :
    ¬ PathLeadsTo leaf columnName found := by
  rintro (⟨-, hselects⟩ | ⟨-, hselects, -⟩)
  all_goals
    obtain ⟨name, hmem⟩ := hselects.exists_mem_child
    rw [h] at hmem
    cases hmem

/-- The members of a result whose `components` have some members. -/
def componentsOnly (members : List (CString × CJson)) : List (CString × CJson) :=
  [(ofAscii "components", .object members)]

theorem leadsTo_componentsOnly (htop : ¬ AtTopLevel columnName)
    (members : List (CString × CJson)) :
    LeadsTo (.object (componentsOnly members)) columnName leaf ↔
      PathLeadsTo (.object members) columnName leaf := by
  rw [LeadsTo, if_neg htop]
  constructor
  · rintro ⟨components, hcomponents, h⟩
    obtain rfl := Option.some.inj hcomponents
    exact h
  · exact fun h => ⟨.object members, rfl, h⟩

theorem placeOf_componentsOnly (htop : ¬ AtTopLevel columnName)
    (members : List (CString × CJson)) :
    placeOf (.object (componentsOnly members)) columnName =
      (CJson.object members).memberNamed columnName := by
  rw [placeOf, if_neg htop]
  rfl

/-- **A name that is a path** misses the member of that name: in some result it leads to nothing, or
to `null`. -/
theorem exists_misplaced (htop : ¬ AtTopLevel columnName) (hplain : ¬ IsPlain columnName)
    (hleaf : leaf.child = []) :
    ∃ members, placeOf (.object members) columnName = some leaf ∧
      ∀ found, LeadsTo (.object members) columnName found → found = .null := by
  by_cases hdot : 46 ∈ columnName
  -- whatever the first segment selects is the leaf, where the path ends
  · have hplace : placeOf (.object (componentsOnly [(columnName, leaf)])) columnName = some leaf :=
      (placeOf_componentsOnly htop _).trans (by simp [CJson.memberNamed])
    refine ⟨_, hplace, fun found hfound => ?_⟩
    rw [leadsTo_componentsOnly htop] at hfound
    cases hfound with
    | last hno => exact absurd hdot hno
    | step _ hselects hrest =>
        obtain ⟨name, hmem⟩ := hselects.exists_mem_child
        obtain ⟨-, rfl⟩ := Prod.mk.inj (List.mem_singleton.mp hmem)
        exact absurd hrest (not_pathLeadsTo_of_child_eq_nil hleaf)
  · have hposition : IsPosition columnName := by
      by_contra hnot
      exact hplain ⟨hdot, hnot⟩
    -- as many other members as the position counts, and the leaf behind them
    have hother : ofAscii "a" ≠ columnName := by
      rintro rfl
      exact absurd (hposition.1 97 (by decide)) (by decide)
    refine ⟨_, (placeOf_componentsOnly htop
      (List.replicate ((readIndex columnName).toNat + 1) (ofAscii "a", .null) ++
        [(columnName, leaf)])).trans (by simp [CJson.memberNamed, hother]), ?_⟩
    intro found hfound
    rw [leadsTo_componentsOnly htop, ← getJsonFieldLoop_splitOn_eq_some_iff,
      List.splitOn_eq_singleton hdot, getJsonFieldLoop,
      fieldOf_of_nonneg hposition.1 hposition.2] at hfound
    simpa [CJson.child, List.getElem?_append, List.getElem?_replicate, getJsonFieldLoop]
      using hfound.symm

/-- **Which names lead to their place** in every result: those of the top level and those that are no
paths. -/
theorem forall_leadsTo_iff :
    (∀ members leaf, LeadsTo (.object members) columnName leaf ↔
        placeOf (.object members) columnName = some leaf) ↔
      AtTopLevel columnName ∨ IsPlain columnName := by
  constructor
  · intro h
    by_contra hnot
    obtain ⟨htop, hplain⟩ := not_or.mp hnot
    have hleaf : (CJson.bool true).child = [] := rfl
    obtain ⟨members, hplace, hfound⟩ := exists_misplaced htop hplain hleaf
    cases hfound _ ((h members _).mpr hplace)
  · exact fun h members leaf => leadsTo_iff h

end Places

end OcgeoFdw
