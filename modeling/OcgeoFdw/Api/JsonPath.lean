import OcgeoFdw.Api.Response
import OcgeoFdw.Foundation.Strtol

/-! # Paths into a result

`get_json_field`, the lookup of a value by a path of dot-separated segments, and the accessors of a
result that are built on it. `getJsonField_follows_iff` states when the lookup follows a path: the
index that a segment of digits spells is read in base 11. -/

namespace OcgeoFdw

open CInt CString

/-! ## The lookup -/

namespace CJson

/-- `cJSON_GetArrayItem`: the child at an index, of an array or of an object. -/
def getArrayItem (array : CJson) (index : ℤ) : Option CJson :=
  if index < 0 then none else (array.child[index.toNat]?).map Prod.snd

end CJson

/-- The value of a decimal character. -/
def decimalDigit (c : UInt8) : Option ℕ :=
  if 48 ≤ c.toNat ∧ c.toNat ≤ 57 then some (c.toNat - 48) else none

/-- The loop of `str_to_maybe_int`, with `k` read so far: `k += 10*k`, then the digit. -/
def strToMaybeIntLoop (k : ℤ) : CString → ℤ
  | [] => k
  | c :: s =>
      let k := toInt32 (k + toInt32 (10 * k))
      match decimalDigit c with
      | some digit => strToMaybeIntLoop (toInt32 (k + digit)) s
      | none => -1

/-- `str_to_maybe_int`. -/
def strToMaybeInt (s : CString) : ℤ := strToMaybeIntLoop 0 s

/-- `sdssplitlen` with a separator of one byte: an empty text has no fields. -/
def sdssplitlen (s : CString) (sep : UInt8) : List CString :=
  if s = [] then [] else s.splitOn sep

/-- One round of the loop of `get_json_field`. -/
def fieldOf (current : CJson) (field : CString) : Option CJson :=
  let index := strToMaybeInt field
  if 0 ≤ index then current.getArrayItem index
  else CJson.getObjectItemCaseSensitive (some current) field

/-- The loop of `get_json_field`, which ends early at `NULL`. -/
def getJsonFieldLoop : Option CJson → List CString → Option CJson
  | none, _ => none
  | some current, [] => some current
  | some current, field :: fields => getJsonFieldLoop (fieldOf current field) fields

/-- `get_json_field`. -/
def getJsonField (parent : Option CJson) (path : CString) : Option CJson :=
  match parent with
  | none => none
  | some parent => getJsonFieldLoop (some parent) (sdssplitlen path 46)

/-! ## The accessors of a result -/

/-- `ocgeo_response_get_str`, `none` when `ok` is set to false. -/
def ocgeoResponseGetStr (r : OcgeoResult) (path : CString) : Option CString :=
  match getJsonField (some r.internal) path with
  | some (.string valuestring) => some valuestring
  | _ => none

/-- `ocgeo_response_get_int`. -/
def ocgeoResponseGetInt (r : OcgeoResult) (path : CString) : Option ℤ :=
  match getJsonField (some r.internal) path with
  | some (.number valuedouble) => some (CJson.saturatedInt valuedouble)
  | _ => none

/-- `ocgeo_response_get_dbl`. -/
def ocgeoResponseGetDbl (r : OcgeoResult) (path : CString) : Option ℚ :=
  match getJsonField (some r.internal) path with
  | some (.number valuedouble) => some valuedouble
  | _ => none

/-! ## The path as it is meant -/

/-- A decimal character. -/
def IsDecimal (c : UInt8) : Prop := 48 ≤ c.toNat ∧ c.toNat ≤ 57

instance (c : UInt8) : Decidable (IsDecimal c) := inferInstanceAs (Decidable (_ ∧ _))

/-- A segment that is an index: digits, and at least one. -/
def IsIndex (segment : CString) : Prop := segment ≠ [] ∧ ∀ c ∈ segment, IsDecimal c

instance (segment : CString) : Decidable (IsIndex segment) :=
  haveI := List.decidableBAll IsDecimal segment
  inferInstanceAs (Decidable (_ ∧ _))

/-- The number that the digits of a segment spell in base `b`. -/
def indexIn (b : ℕ) (segment : CString) : ℕ := magnitude b (segment.map fun c => c.toNat - 48)

/-- The element or the member that a segment selects. -/
def descend (node : CJson) (segment : CString) : Option CJson :=
  if IsIndex segment then
    match node with
    | .array elements => elements[indexIn 10 segment]?
    | _ => none
  else
    match node with
    | .object members => (members.find? fun member => member.1 = segment).map Prod.snd
    | _ => none

/-- The node that the segments lead to. -/
def nodeAt (json : CJson) (segments : List CString) : Option CJson := segments.foldlM descend json

/-- A segment with a character that is no digit. -/
def IsName (segment : CString) : Prop := ∃ c ∈ segment, ¬ IsDecimal c

/-- The index that the lookup reads from the digits of a segment. -/
def readIndex (segment : CString) : ℤ := toInt32 (indexIn 11 segment)

/-- The lookup of a segment at a node selects what the segment means. A name always does. Digits
are read in base 11 and wrap: on an array both positions have to agree, and an object must neither
be that long nor, for a negative index, have a member of that name. The empty segment is read as
the index 0. -/
def SegmentFits (node : CJson) (segment : CString) : Prop :=
  IsName segment ∨
    match node with
    | .array elements =>
        if segment = [] then elements = []
        else if 0 ≤ readIndex segment then
          elements[(readIndex segment).toNat]? = elements[indexIn 10 segment]?
        else elements.length ≤ indexIn 10 segment
    | .object members =>
        if segment = [] then
          members.head?.map Prod.snd =
            (members.find? fun member => member.1 = segment).map Prod.snd
        else if 0 ≤ readIndex segment then members.length ≤ (readIndex segment).toNat
        else segment ∉ members.map Prod.fst
    | _ => True

/-! ## Reading an index -/

section Indices

variable {c : UInt8} {s segment : CString} {x : ℤ}

theorem decimalDigit_eq_some (h : IsDecimal c) : decimalDigit c = some (c.toNat - 48) := if_pos h

theorem decimalDigit_eq_none (h : ¬ IsDecimal c) : decimalDigit c = none := if_neg h

@[simp] theorem indexIn_nil (b : ℕ) : indexIn b [] = 0 := rfl

/-- The number that a digit and further digits spell. -/
theorem indexIn_cons (b : ℕ) (c : UInt8) (s : CString) :
    indexIn b (c :: s) = (c.toNat - 48) * b ^ s.length + indexIn b s := by
  unfold indexIn magnitude
  rw [List.map_cons, List.reverse_cons, Nat.ofDigits_append, Nat.ofDigits_singleton,
    List.length_reverse, List.length_map]
  ring

/-- Narrowing after every operation or once at the end is the same. -/
theorem toInt32_step (x : ℤ) (d : ℕ) :
    toInt32 (toInt32 (toInt32 x + toInt32 (10 * toInt32 x)) + d) = toInt32 (11 * x + d) := by
  have hx := toInt32_emod x
  have hten := toInt32_emod (10 * toInt32 x)
  have hsum := toInt32_emod (toInt32 x + toInt32 (10 * toInt32 x))
  rw [toInt32_eq (_ + _), toInt32_eq (11 * x + d)]
  have hresidue : (toInt32 (toInt32 x + toInt32 (10 * toInt32 x)) + d) % 4294967296 =
      (11 * x + d) % 4294967296 := by omega
  rw [hresidue]

/-- The loop reads digits in base 11. -/
theorem strToMaybeIntLoop_of_decimal (h : ∀ c ∈ s, IsDecimal c) :
    strToMaybeIntLoop (toInt32 x) s = toInt32 (x * 11 ^ s.length + indexIn 11 s) := by
  induction s generalizing x with
  | nil => simp [strToMaybeIntLoop]
  | cons c s ih =>
      rw [strToMaybeIntLoop, decimalDigit_eq_some (h c List.mem_cons_self)]
      simp only
      rw [toInt32_step, ih fun d hd => h d (List.mem_cons_of_mem c hd), indexIn_cons,
        List.length_cons]
      congr 1
      push_cast
      ring

/-- Another character ends the loop with -1. -/
theorem strToMaybeIntLoop_of_isName {k : ℤ} (h : IsName s) : strToMaybeIntLoop k s = -1 := by
  induction s generalizing k with
  | nil =>
      obtain ⟨c, hc, -⟩ := h
      cases hc
  | cons c s ih =>
      rw [strToMaybeIntLoop]
      by_cases hdigit : IsDecimal c
      · rw [decimalDigit_eq_some hdigit]
        obtain ⟨d, hd, hnot⟩ := h
        rcases List.mem_cons.mp hd with rfl | hd
        · exact absurd hdigit hnot
        · exact ih ⟨d, hd, hnot⟩
      · rw [decimalDigit_eq_none hdigit]

/-- The index of digits, which may be none, is the base-11 number, wrapped. -/
theorem strToMaybeInt_of_decimal (h : ∀ c ∈ segment, IsDecimal c) :
    strToMaybeInt segment = readIndex segment := by
  have hzero : toInt32 0 = 0 := rfl
  rw [strToMaybeInt, ← hzero, strToMaybeIntLoop_of_decimal h, zero_mul, zero_add, readIndex]

/-- A name is no index. -/
theorem strToMaybeInt_of_isName (h : IsName segment) : strToMaybeInt segment = -1 :=
  strToMaybeIntLoop_of_isName h

theorem not_isName_iff : ¬ IsName segment ↔ ∀ c ∈ segment, IsDecimal c := by
  simp [IsName]

theorem not_isIndex_of_isName (h : IsName segment) : ¬ IsIndex segment := by
  obtain ⟨c, hc, hnot⟩ := h
  exact fun hindex => hnot (hindex.2 c hc)

end Indices

/-! ## One segment -/

section Segments

variable {node : CJson} {segment : CString}

/-- The member lookup on an object finds the first member of that name. -/
theorem getObjectItemCaseSensitive_object (members : List (CString × CJson)) :
    CJson.getObjectItemCaseSensitive (some (.object members)) segment =
      (members.find? fun member => member.1 = segment).map Prod.snd := by
  rw [CJson.getObjectItemCaseSensitive]
  rw [Option.bind_some, CJson.child]
  induction members with
  | nil => rfl
  | cons member members ih =>
      rw [List.map_cons, CJson.findCaseSensitive, List.find?_cons, ih]
      by_cases hname : segment = member.1
      · simp [hname]
      · simp [hname, Ne.symm hname]

/-- The elements of an array have no names. -/
theorem getObjectItemCaseSensitive_array (elements : List CJson) :
    CJson.getObjectItemCaseSensitive (some (.array elements)) segment = none := by
  cases elements <;> rfl

/-- A name is looked up as it is meant. -/
theorem fieldOf_of_isName (h : IsName segment) : fieldOf node segment = descend node segment := by
  have hindex := strToMaybeInt_of_isName h
  unfold fieldOf descend
  rw [if_neg (not_isIndex_of_isName h)]
  simp only [hindex]
  rw [if_neg (by decide)]
  cases node with
  | object members => exact getObjectItemCaseSensitive_object members
  | array elements => exact getObjectItemCaseSensitive_array elements
  | _ => rfl

/-- The child at an index that is read from digits. -/
theorem fieldOf_of_nonneg (h : ∀ c ∈ segment, IsDecimal c) (hindex : 0 ≤ readIndex segment) :
    fieldOf node segment = (node.child[(readIndex segment).toNat]?).map Prod.snd := by
  rw [fieldOf, CJson.getArrayItem]
  simp only [strToMaybeInt_of_decimal h]
  rw [if_pos hindex, if_neg (not_lt.mpr hindex)]

/-- The member for digits that wrap to a negative index. -/
theorem fieldOf_of_neg (h : ∀ c ∈ segment, IsDecimal c) (hindex : ¬ 0 ≤ readIndex segment) :
    fieldOf node segment = CJson.getObjectItemCaseSensitive (some node) segment := by
  rw [fieldOf]
  simp only [strToMaybeInt_of_decimal h]
  rw [if_neg hindex]

/-- The empty segment reads the first child. -/
theorem fieldOf_nil : fieldOf node [] = node.child.head?.map Prod.snd := by
  have hnil : ∀ c ∈ ([] : CString), IsDecimal c := by simp
  rw [fieldOf_of_nonneg hnil le_rfl, List.head?_eq_getElem?]
  rfl

/-- **One segment** is looked up as it is meant exactly if it fits the node. -/
theorem fieldOf_eq_descend_iff : fieldOf node segment = descend node segment ↔
    SegmentFits node segment := by
  unfold SegmentFits
  by_cases hname : IsName segment
  · exact iff_of_true (fieldOf_of_isName hname) (.inl hname)
  rw [or_iff_right hname]
  have hdecimal := not_isName_iff.mp hname
  by_cases hempty : segment = []
  -- the empty segment: the first child against the member without a name
  · subst hempty
    unfold descend
    rw [fieldOf_nil, if_neg (by simp [IsIndex])]
    cases node with
    | array elements => cases elements <;> simp [CJson.child]
    | object members =>
        simp only [CJson.child, if_true, List.head?_map, Option.map_map]
        exact Iff.rfl
    | _ => simp [CJson.child]
  · have hindex : IsIndex segment := ⟨hempty, hdecimal⟩
    unfold descend
    rw [if_pos hindex]
    by_cases hread : 0 ≤ readIndex segment
    · rw [fieldOf_of_nonneg hdecimal hread]
      cases node with
      | array elements =>
          have hsnd : (Prod.snd ∘ fun e : CJson => ((none : Option CString), e)) = id := rfl
          simp only [CJson.child, hempty, if_false, if_pos hread, List.getElem?_map,
            Option.map_map, hsnd, Option.map_id, id_eq]
      | object members => simp [CJson.child, hempty, hread]
      | _ => simp [CJson.child]
    · rw [fieldOf_of_neg hdecimal hread]
      cases node with
      | array elements =>
          simp only [hempty, if_false, if_neg hread, getObjectItemCaseSensitive_array]
          rw [eq_comm (a := none), List.getElem?_eq_none_iff]
      | object members =>
          simp only [hempty, if_false, if_neg hread, getObjectItemCaseSensitive_object]
          rw [Option.map_eq_none_iff, List.find?_eq_none, List.mem_map, not_exists]
          simp only [decide_eq_true_eq, not_and]
      | _ => simp [CJson.getObjectItemCaseSensitive, CJson.child, CJson.findCaseSensitive]

end Segments

/-! ## Whole paths -/

section Paths

variable {json : CJson} {fields : List CString}

@[simp] theorem getJsonFieldLoop_none (fields : List CString) :
    getJsonFieldLoop none fields = none := by
  cases fields <;> rfl

/-- The loop over concatenated fields. -/
theorem getJsonFieldLoop_append (start : Option CJson) (front back : List CString) :
    getJsonFieldLoop start (front ++ back) =
      getJsonFieldLoop (getJsonFieldLoop start front) back := by
  induction front generalizing start with
  | nil => cases start <;> simp [getJsonFieldLoop]
  | cons field front ih =>
      cases start with
      | none => simp
      | some node => exact ih _

theorem nodeAt_append_singleton (front : List CString) (field : CString) :
    nodeAt json (front ++ [field]) = (nodeAt json front).bind (descend · field) := by
  unfold nodeAt
  rw [List.foldlM_append]
  simp

/-- The lookup is at the node that the path names after every number of segments. -/
def Follows (json : CJson) (fields : List CString) : Prop :=
  ∀ k, getJsonFieldLoop (some json) (fields.take k) = nodeAt json (fields.take k)

/-- A path that is followed leads to the node that it names. -/
theorem Follows.eq_nodeAt (h : Follows json fields) :
    getJsonFieldLoop (some json) fields = nodeAt json fields := by
  rw [← List.take_length (l := fields)]
  exact h fields.length

/-- Every segment fits the node that it is applied to. -/
def FitsAlong (json : CJson) (fields : List CString) : Prop :=
  ∀ k node segment, nodeAt json (fields.take k) = some node → fields[k]? = some segment →
    SegmentFits node segment

/-- **Segment by segment**, the lookup follows the path exactly if every segment fits. -/
theorem follows_iff_fitsAlong : Follows json fields ↔ FitsAlong json fields := by
  have hsnoc : ∀ {k segment}, fields[k]? = some segment →
      fields.take (k + 1) = fields.take k ++ [segment] := by
    intro k segment hsegment
    rw [List.take_add_one, hsegment]
    rfl
  have hround : ∀ (front : List CString) node segment, nodeAt json front = some node →
      getJsonFieldLoop (some json) front = some node →
      (getJsonFieldLoop (some json) (front ++ [segment]) = nodeAt json (front ++ [segment]) ↔
        SegmentFits node segment) := by
    intro front node segment hnode hloop
    rw [getJsonFieldLoop_append, hloop, nodeAt_append_singleton, hnode, Option.bind_some,
      ← fieldOf_eq_descend_iff, getJsonFieldLoop]
    cases fieldOf node segment <;> simp [getJsonFieldLoop]
  constructor
  · intro h k node segment hnode hsegment
    refine (hround _ node segment hnode ((h k).trans hnode)).mp ?_
    rw [← hsnoc hsegment]
    exact h (k + 1)
  · intro h k
    induction k with
    | zero => rfl
    | succ k ih =>
        cases hsegment : fields[k]? with
        | none =>
            rw [List.take_add_one, hsegment, Option.toList_none, List.append_nil]
            exact ih
        | some segment =>
            rw [hsnoc hsegment]
            cases hnode : nodeAt json (fields.take k) with
            | some node =>
                exact (hround _ node segment hnode (ih.trans hnode)).mpr
                  (h k node segment hnode hsegment)
            | none =>
                rw [getJsonFieldLoop_append, ih, hnode, nodeAt_append_singleton, hnode]
                rfl

/-- A node at which the lookup of a segment without a name leads to any given value, while the
segment means nothing there. -/
theorem exists_misread {segment : CString} (h : ¬ IsName segment) (value : CJson) :
    ∃ node, fieldOf node segment = some value ∧ descend node segment = none := by
  have hdecimal := not_isName_iff.mp h
  by_cases hread : 0 ≤ readIndex segment
  -- an object with as many members as the index skips, none without a name
  · refine ⟨.object (List.replicate (readIndex segment).toNat (ofAscii "a", .null) ++
      [(ofAscii "a", value)]), ?_, ?_⟩
    · rw [fieldOf_of_nonneg hdecimal hread]
      simp [CJson.child]
    · rw [descend]
      split
      · rfl
      · rename_i hindex
        obtain rfl : segment = [] := by
          by_contra hne
          exact hindex ⟨hne, hdecimal⟩
        simp [ofAscii, List.find?_append]
  · have hindex : IsIndex segment := by
      refine ⟨?_, hdecimal⟩
      rintro rfl
      exact hread le_rfl
    refine ⟨.object [(segment, value)], ?_, ?_⟩
    · rw [fieldOf_of_neg hdecimal hread, getObjectItemCaseSensitive_object]
      simp
    · rw [descend, if_pos hindex]

/-- A node at which a name leads to any given value. -/
theorem exists_named {segment : CString} (h : IsName segment) (value : CJson) :
    ∃ node, fieldOf node segment = some value ∧ descend node segment = some value := by
  have hdescend : descend (.object [(segment, value)]) segment = some value := by
    rw [descend, if_neg (not_isIndex_of_isName h)]
    simp
  exact ⟨_, (fieldOf_of_isName h).trans hdescend, hdescend⟩

/-- Every path leads the lookup somewhere in some value. -/
theorem exists_reached (fields : List CString) :
    ∃ json reached, getJsonFieldLoop (some json) fields = some reached := by
  induction fields with
  | nil => exact ⟨.null, .null, rfl⟩
  | cons field fields ih =>
      obtain ⟨json, reached, hreached⟩ := ih
      obtain ⟨node, hnode⟩ : ∃ node, fieldOf node field = some json := by
        by_cases hname : IsName field
        · exact (exists_named hname json).imp fun _ h => h.1
        · exact (exists_misread hname json).imp fun _ h => h.1
      refine ⟨node, reached, ?_⟩
      rw [getJsonFieldLoop, hnode]
      exact hreached

/-- Names behind a value that tells the lookup and the path apart do the same. -/
theorem exists_ne_of_names {front rest : List CString} (hnames : ∀ field ∈ front, IsName field)
    (h : ∃ json, getJsonFieldLoop (some json) rest ≠ nodeAt json rest) :
    ∃ json, getJsonFieldLoop (some json) (front ++ rest) ≠ nodeAt json (front ++ rest) := by
  induction front with
  | nil => exact h
  | cons field front ih =>
      obtain ⟨json, hjson⟩ := ih fun f hf => hnames f (List.mem_cons_of_mem field hf)
      obtain ⟨node, hfield, hdescend⟩ := exists_named (hnames field List.mem_cons_self) json
      refine ⟨node, ?_⟩
      rw [List.cons_append, getJsonFieldLoop, hfield, nodeAt, List.foldlM_cons, hdescend]
      exact hjson

/-- The first field that is no name. -/
theorem exists_first_not (h : ∃ field ∈ fields, ¬ IsName field) :
    ∃ front field rest, fields = front ++ field :: rest ∧ (∀ f ∈ front, IsName f) ∧
      ¬ IsName field := by
  classical
  have hfound : (fields.find? fun field => ¬ IsName field).isSome := by
    simpa using h
  obtain ⟨field, hfind⟩ := Option.isSome_iff_exists.mp hfound
  obtain ⟨hfield, front, rest, hfields, hfront⟩ := List.find?_eq_some_iff_append.mp hfind
  exact ⟨front, field, rest, hfields, by simpa using hfront, by simpa using hfield⟩

/-- **Which paths are followed in every value**: those of names. -/
theorem forall_eq_nodeAt_iff :
    (∀ json, getJsonFieldLoop (some json) fields = nodeAt json fields) ↔
      ∀ field ∈ fields, IsName field := by
  constructor
  · intro h
    by_contra hnot
    push Not at hnot
    obtain ⟨front, field, rest, rfl, hfront, hfield⟩ := exists_first_not hnot
    have hrest : ∃ json,
        getJsonFieldLoop (some json) (field :: rest) ≠ nodeAt json (field :: rest) := by
      obtain ⟨json, reached, hreached⟩ := exists_reached rest
      obtain ⟨node, hread, hmeant⟩ := exists_misread hfield json
      refine ⟨node, ?_⟩
      rw [getJsonFieldLoop, hread, hreached, nodeAt, List.foldlM_cons, hmeant]
      exact Option.some_ne_none _
    obtain ⟨json, hne⟩ := exists_ne_of_names hfront hrest
    exact hne (h json)
  · intro h json
    apply Follows.eq_nodeAt
    rw [follows_iff_fitsAlong]
    intro k node segment _ hsegment
    exact .inl (h segment (List.mem_of_getElem? hsegment))

end Paths

/-- **Path lookup.** On a value, the lookup returns the node that the path names, and is at the node
named so far after every number of segments, if and only if every segment fits the node that it is
applied to. On all values it returns the node that the path names if and only if every segment is a
name. -/
theorem getJsonField_follows_iff (path : CString) :
    (∀ json, (getJsonField (some json) path = nodeAt json (sdssplitlen path 46) ∧
        ∀ k, getJsonFieldLoop (some json) ((sdssplitlen path 46).take k) =
          nodeAt json ((sdssplitlen path 46).take k)) ↔
        FitsAlong json (sdssplitlen path 46)) ∧
      ((∀ json, getJsonField (some json) path = nodeAt json (sdssplitlen path 46)) ↔
        ∀ segment ∈ sdssplitlen path 46, IsName segment) := by
  refine ⟨fun json => ?_, forall_eq_nodeAt_iff⟩
  rw [← follows_iff_fitsAlong]
  exact ⟨And.right, fun h => ⟨h.eq_nodeAt, h⟩⟩

/-- The array of the numbers from 0 to 11. -/
def twelveNumbers : CJson := .array ((List.range 12).map fun n => .number n)

/-- The path `10` selects the element at position 11. -/
theorem not_getJsonField_follows :
    ¬ ∀ json path, getJsonField (some json) path = nodeAt json (sdssplitlen path 46) := by
  intro h
  have hread : getJsonField (some twelveNumbers) (ofAscii "10") = some (.number 11) := rfl
  have hmeant : nodeAt twelveNumbers (sdssplitlen (ofAscii "10") 46) = some (.number 10) := rfl
  have hne : (11 : ℚ) ≠ 10 := by norm_num
  have heq := h twelveNumbers (ofAscii "10")
  rw [hread, hmeant] at heq
  exact hne (CJson.number.inj (Option.some.inj heq))

end OcgeoFdw
