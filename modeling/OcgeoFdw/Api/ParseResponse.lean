import OcgeoFdw.Api.Response
import OcgeoFdw.Foundation.Completion

/-! # Reading a reply

`parse_response_json` and its helpers, with the memory they write. The results go into a block with
one slot for every result that the reply announces; a pointer to the pointer to be set next links
them into a list. The block and the bounds of the results are allocated, and no allocation is
checked. Faults are the failed assertions, the reads through an absent member and the writes outside
of what was allocated. -/

namespace OcgeoFdw

open CJson CString

/-- How reading a reply goes wrong. -/
inductive ParseFault
  /-- `assert (obj)` fails for a member of the reply. -/
  | assertFailed (member : CString)
  /-- A field is read through the `NULL` that the lookup of a member returned. -/
  | nullMember (member : CString)
  /-- A result is written to a slot that the block does not have; a `NULL` block has none. -/
  | outOfBounds (slot : ℕ)
  /-- The bounds of a result are written through the `NULL` that `calloc` returned. -/
  | nullBounds
  deriving DecidableEq

/-- Which allocations succeed while a reply is read: `malloc` of a number of bytes, and `calloc` of
the bounds of the result in a slot. -/
structure ReplyMemory where
  malloc : ℕ → Bool
  calloc : ℕ → Bool

/-- There is memory for every reply. -/
def ReplyMemory.unlimited : ReplyMemory := ⟨fun _ => true, fun _ => true⟩

/-- `sizeof(ocgeo_result_t)` with pointers of eight bytes. -/
def sizeofOcgeoResult : ℕ := 48

/-- `assert (obj)` for the member just looked up. -/
def assertFound (obj : Option CJson) (member : CString) : Except ParseFault CJson :=
  match obj with
  | some item => .ok item
  | none => .error (.assertFailed member)

/-- The member of that name, on which a field is read next. -/
def memberOf (obj : Option CJson) (name : CString) : Except ParseFault CJson :=
  match getObjectItemCaseSensitive obj name with
  | some item => .ok item
  | none => .error (.nullMember name)

/-- `JSON_OBJ_GET_INT`. -/
def jsonObjGetInt (obj : Option CJson) (name : CString) : Except ParseFault ℤ := do
  let item ← memberOf obj name
  return item.valueint

/-- `JSON_OBJ_GET_STR`. -/
def jsonObjGetStr (obj : Option CJson) (name : CString) : Option CString :=
  getStringValue (getObjectItemCaseSensitive obj name)

/-- `JSON_INT_VALUE` on a member that is there. -/
def jsonIntValue (json : CJson) : ℤ := if json.isNull then 0 else json.valueint

/-- `parse_latlng`. -/
def parseLatlng (json : Option CJson) : Except ParseFault OcgeoLatlng := do
  let lat ← memberOf json (ofAscii "lat")
  let lng ← memberOf json (ofAscii "lng")
  return ⟨lat.valuedouble, lng.valuedouble⟩

/-- The box read from the member `bounds` of a result. -/
def parseBounds (bounds_js : CJson) : Except ParseFault OcgeoLatlngBounds := do
  let northeast ← parseLatlng (getObjectItem (some bounds_js) (ofAscii "northeast"))
  let southwest ← parseLatlng (getObjectItem (some bounds_js) (ofAscii "southwest"))
  return ⟨northeast, southwest⟩

/-- The bounds of a result, `NULL` if the reply has none. They are read into new memory, if there
is any. -/
def parseResultBounds (calloc : Bool) (result_js : CJson) :
    Except ParseFault (Option OcgeoLatlngBounds) :=
  match getObjectItemCaseSensitive (some result_js) (ofAscii "bounds") with
  | some bounds_js =>
      if calloc then do
        let bounds ← parseBounds bounds_js
        return some bounds
      else .error .nullBounds
  | none => return none

/-- The point of a result, invalid if the reply has none. -/
def parseResultGeometry (result_js : CJson) : Except ParseFault OcgeoLatlng :=
  match getObjectItemCaseSensitive (some result_js) (ofAscii "geometry") with
  | some geom_js => parseLatlng (some geom_js)
  | none => return ocgeoInvalidPoint

/-- The fields of one result. Its `next` stays `NULL` until the following result is linked. -/
def parseResult (calloc : Bool) (result_js : CJson) : Except ParseFault OcgeoResult := do
  let confidence ← jsonObjGetInt (some result_js) (ofAscii "confidence")
  let bounds ← parseResultBounds calloc result_js
  let geometry ← parseResultGeometry result_js
  return { bounds, geometry, confidence, next := none, internal := result_js }

/-! ## The result list -/

/-- `pprev`: the pointer to set to the next result, `response->results` or the `next` of a slot. -/
inductive PPrev
  | results
  | next (slot : ℕ)

/-- `*pprev = result`, for the result in slot `k`. -/
def ResultList.link (list : ResultList) (pprev : PPrev) (k : ℕ) : ResultList :=
  match pprev with
  | .results => { list with head := some k }
  | .next slot =>
      { list with block := list.block.modify slot (Option.map fun r => { r with next := some k }) }

/-- The loop over the elements of `results`: fill slot `k`, link it, and go on with the pointer of
that slot. -/
def parseResults (memory : ReplyMemory) :
    List CJson → ℕ → PPrev → ResultList → Except ParseFault ResultList
  | [], _, _, list => .ok list
  | result_js :: rest, k, pprev, list =>
      if k < list.block.length then do
        let result ← parseResult (memory.calloc k) result_js
        let list := { list with block := list.block.set k (some result) }
        parseResults memory rest (k + 1) (.next k) (list.link pprev k)
      else .error (.outOfBounds k)

/-- The list after `malloc`: a block of uninitialised slots and the pointer to its first one, or
`NULL` without memory for the block. -/
def ResultList.malloc (memory : ReplyMemory) (total_results : ℕ) : ResultList :=
  if memory.malloc (total_results * sizeofOcgeoResult) then
    ⟨List.replicate total_results none, some 0⟩
  else .null

/-- The rate information, all zero if the reply has none. -/
def parseRate (json : CJson) : Except ParseFault OcgeoRateInfo :=
  match getObjectItem (some json) (ofAscii "rate") with
  | some obj => do
      let limit ← jsonObjGetInt (some obj) (ofAscii "limit")
      let remaining ← jsonObjGetInt (some obj) (ofAscii "remaining")
      let reset ← jsonObjGetInt (some obj) (ofAscii "reset")
      return ⟨limit, remaining, reset⟩
  | none => return .zero

/-- The status of a reply. -/
def parseStatus (json : CJson) : Except ParseFault OcgeoStatus := do
  let obj ← assertFound (getObjectItemCaseSensitive (some json) (ofAscii "status"))
    (ofAscii "status")
  let code ← jsonObjGetInt (some obj) (ofAscii "code")
  return ⟨code, jsonObjGetStr (some obj) (ofAscii "message")⟩

/-- The number of results that a reply announces. -/
def parseTotalResults (json : CJson) : Except ParseFault ℤ := do
  let obj ← assertFound (getObjectItem (some json) (ofAscii "total_results"))
    (ofAscii "total_results")
  return jsonIntValue obj

/-- The result list of a reply, `NULL` if it announces no results. -/
def parseResultList (memory : ReplyMemory) (json : CJson) (total_results : ℤ) :
    Except ParseFault ResultList :=
  if total_results ≤ 0 then return .null
  else do
    let obj ← assertFound (getObjectItemCaseSensitive (some json) (ofAscii "results"))
      (ofAscii "results")
    parseResults memory (obj.child.map Prod.snd) 0 .results (.malloc memory total_results.toNat)

/-- `parse_response_json`. The response keeps its `url`; all else is overwritten. -/
def parseResponseJson (memory : ReplyMemory) (json : CJson) (response : OcgeoResponse) :
    Except ParseFault OcgeoResponse := do
  let status ← parseStatus json
  let rateInfo ← parseRate json
  let total_results ← parseTotalResults json
  let results ← parseResultList memory json total_results
  return { status, url := response.url, rateInfo, total_results, results }

/-! ## Well-formed replies -/

/-- The lookup of the member finds something. -/
def HasMember (obj : Option CJson) (name : CString) : Prop :=
  ∃ item, getObjectItemCaseSensitive obj name = some item

/-- A point with both coordinates. -/
def HasLatlng (json : Option CJson) : Prop :=
  HasMember json (ofAscii "lat") ∧ HasMember json (ofAscii "lng")

/-- A result with a confidence, whose bounds and geometry, if any, are complete. -/
structure ResultWellFormed (result_js : CJson) : Prop where
  confidence : HasMember (some result_js) (ofAscii "confidence")
  bounds : ∀ bounds_js,
    getObjectItemCaseSensitive (some result_js) (ofAscii "bounds") = some bounds_js →
      HasLatlng (getObjectItem (some bounds_js) (ofAscii "northeast")) ∧
        HasLatlng (getObjectItem (some bounds_js) (ofAscii "southwest"))
  geometry : ∀ geom_js,
    getObjectItemCaseSensitive (some result_js) (ofAscii "geometry") = some geom_js →
      HasLatlng (some geom_js)

/-- The rate information, if any, is complete. -/
def RateWellFormed (json : CJson) : Prop :=
  ∀ obj, getObjectItem (some json) (ofAscii "rate") = some obj →
    HasMember (some obj) (ofAscii "limit") ∧ HasMember (some obj) (ofAscii "remaining") ∧
      HasMember (some obj) (ofAscii "reset")

/-- The results of a reply that announces `total_results > 0` of them: no more than announced, and
each well-formed. -/
def ResultsWellFormed (json : CJson) (total_results : ℤ) : Prop :=
  ∃ results, getObjectItemCaseSensitive (some json) (ofAscii "results") = some results ∧
    (∀ c ∈ results.child, ResultWellFormed c.2) ∧ results.child.length ≤ total_results

/-- A reply that is read without a fault, as long as the allocations succeed. -/
structure ReplyWellFormed (json : CJson) : Prop where
  status : ∃ status, getObjectItemCaseSensitive (some json) (ofAscii "status") = some status ∧
    HasMember (some status) (ofAscii "code")
  rate : RateWellFormed json
  total_results : ∃ total, getObjectItem (some json) (ofAscii "total_results") = some total ∧
    (0 < jsonIntValue total → ResultsWellFormed json (jsonIntValue total))

/-- There is memory for the bounds of the elements that have some, the first being in slot `k`. -/
def ReplyMemory.HasBoundsFrom (memory : ReplyMemory) (k : ℕ) (elements : List CJson) : Prop :=
  ∀ i e, elements[i]? = some e → HasMember (some e) (ofAscii "bounds") →
    memory.calloc (k + i) = true

/-- The allocations for the results succeed: that of the block, if there is an element to be written
to it, and those of the bounds of the elements that have some. -/
structure ReplyMemory.Provides (memory : ReplyMemory) (total_results : ℤ) (elements : List CJson) :
    Prop where
  block : elements ≠ [] → memory.malloc (total_results.toNat * sizeofOcgeoResult) = true
  bounds : memory.HasBoundsFrom 0 elements

/-- The allocations for the results of a reply succeed, if it announces any. -/
def ReplyMemory.SufficesFor (memory : ReplyMemory) (json : CJson) : Prop :=
  ∀ total results, getObjectItem (some json) (ofAscii "total_results") = some total →
    0 < jsonIntValue total →
    getObjectItemCaseSensitive (some json) (ofAscii "results") = some results →
    memory.Provides (jsonIntValue total) (results.child.map Prod.snd)

theorem completes_memberOf_iff {obj : Option CJson} {name : CString} :
    (memberOf obj name).Completes ↔ HasMember obj name := by
  rw [memberOf, HasMember]
  cases getObjectItemCaseSensitive obj name <;> simp

theorem completes_jsonObjGetInt_iff {obj : Option CJson} {name : CString} :
    (jsonObjGetInt obj name).Completes ↔ HasMember obj name := by
  rw [jsonObjGetInt]
  rw [Except.completes_bind_of_forall fun _ _ => iff_true_intro (Except.completes_pure _), and_true,
    completes_memberOf_iff]

theorem completes_parseLatlng_iff {json : Option CJson} :
    (parseLatlng json).Completes ↔ HasLatlng json := by
  rw [parseLatlng, HasLatlng]
  rw [Except.completes_bind_of_forall, completes_memberOf_iff]
  intro lat _
  rw [Except.completes_bind_of_forall fun _ _ => iff_true_intro (Except.completes_pure _), and_true,
    completes_memberOf_iff]

theorem completes_parseResultBounds_iff {calloc : Bool} {result_js : CJson} :
    (parseResultBounds calloc result_js).Completes ↔ ∀ bounds_js,
      getObjectItemCaseSensitive (some result_js) (ofAscii "bounds") = some bounds_js →
        calloc = true ∧ HasLatlng (getObjectItem (some bounds_js) (ofAscii "northeast")) ∧
          HasLatlng (getObjectItem (some bounds_js) (ofAscii "southwest")) := by
  rw [parseResultBounds]
  cases getObjectItemCaseSensitive (some result_js) (ofAscii "bounds") with
  | none => simp
  | some bounds_js =>
      simp only [Option.some.injEq, forall_eq']
      cases calloc with
      | false => simp
      | true =>
          rw [if_pos rfl, eq_self_iff_true, true_and,
            Except.completes_bind_of_forall fun _ _ => iff_true_intro (Except.completes_pure _),
            and_true]
          rw [parseBounds]
          rw [Except.completes_bind_of_forall, completes_parseLatlng_iff]
          intro northeast _
          rw [Except.completes_bind_of_forall fun _ _ => iff_true_intro (Except.completes_pure _),
            and_true, completes_parseLatlng_iff]

theorem completes_parseResultGeometry_iff {result_js : CJson} :
    (parseResultGeometry result_js).Completes ↔ ∀ geom_js,
      getObjectItemCaseSensitive (some result_js) (ofAscii "geometry") = some geom_js →
        HasLatlng (some geom_js) := by
  rw [parseResultGeometry]
  cases getObjectItemCaseSensitive (some result_js) (ofAscii "geometry") with
  | none => simp
  | some geom_js => simp [completes_parseLatlng_iff]

/-- A result is read exactly when it is well-formed and there is memory for its bounds. -/
theorem completes_parseResult_iff {calloc : Bool} {result_js : CJson} :
    (parseResult calloc result_js).Completes ↔ ResultWellFormed result_js ∧
      (HasMember (some result_js) (ofAscii "bounds") → calloc = true) := by
  rw [parseResult]
  rw [Except.completes_bind_of_forall, completes_jsonObjGetInt_iff]
  rotate_left
  · intro confidence _
    rw [Except.completes_bind_of_forall, completes_parseResultBounds_iff]
    intro bounds _
    rw [Except.completes_bind_of_forall fun _ _ => iff_true_intro (Except.completes_pure _),
      and_true, completes_parseResultGeometry_iff]
  · constructor
    · rintro ⟨hconfidence, hbounds, hgeometry⟩
      refine ⟨⟨hconfidence, fun bounds_js h => (hbounds bounds_js h).2, hgeometry⟩, ?_⟩
      rintro ⟨bounds_js, h⟩
      exact (hbounds bounds_js h).1
    · rintro ⟨⟨hconfidence, hbounds, hgeometry⟩, hcalloc⟩
      exact ⟨hconfidence, fun bounds_js h => ⟨hcalloc ⟨bounds_js, h⟩, hbounds bounds_js h⟩,
        hgeometry⟩

/-- The rate information is read exactly when it is well-formed. -/
theorem completes_parseRate_iff {json : CJson} :
    (parseRate json).Completes ↔ RateWellFormed json := by
  rw [parseRate, RateWellFormed]
  cases getObjectItem (some json) (ofAscii "rate") with
  | none => simp
  | some obj =>
      simp only [Option.some.injEq, forall_eq']
      rw [Except.completes_bind_of_forall, completes_jsonObjGetInt_iff]
      intro limit _
      rw [Except.completes_bind_of_forall, completes_jsonObjGetInt_iff]
      intro remaining _
      rw [Except.completes_bind_of_forall fun _ _ => iff_true_intro (Except.completes_pure _),
        and_true, completes_jsonObjGetInt_iff]

/-- Linking a result keeps the size of the block. -/
@[simp] theorem length_block_link (list : ResultList) (pprev : PPrev) (k : ℕ) :
    (list.link pprev k).block.length = list.block.length := by
  unfold ResultList.link
  cases pprev <;> simp

/-- The size of the block that `malloc` returned. -/
theorem length_block_malloc (memory : ReplyMemory) (total_results : ℕ) :
    (ResultList.malloc memory total_results).block.length =
      if memory.malloc (total_results * sizeofOcgeoResult) then total_results else 0 := by
  rw [ResultList.malloc]
  split_ifs
  · exact List.length_replicate
  · rfl

/-- One element, and the others. -/
theorem hasBoundsFrom_cons_iff {memory : ReplyMemory} {k : ℕ} {e : CJson} {elements : List CJson} :
    memory.HasBoundsFrom k (e :: elements) ↔
      (HasMember (some e) (ofAscii "bounds") → memory.calloc k = true) ∧
        memory.HasBoundsFrom (k + 1) elements := by
  constructor
  · intro h
    refine ⟨h 0 e rfl, fun i e' he' hbounds => ?_⟩
    rw [Nat.add_assoc, Nat.add_comm 1 i]
    exact h (i + 1) e' he' hbounds
  · rintro ⟨hfirst, hrest⟩ i e' he' hbounds
    cases i with
    | zero =>
        obtain rfl := Option.some.inj he'
        exact hfirst hbounds
    | succ i =>
        rw [← Nat.add_assoc, Nat.add_right_comm]
        exact hrest i e' he' hbounds

/-- The loop completes exactly when every element is well-formed, there is memory for the bounds, and
the block has a slot for each of the elements. -/
theorem completes_parseResults_iff {memory : ReplyMemory} {children : List CJson} {k : ℕ}
    {pprev : PPrev} {list : ResultList} (hk : k ≤ list.block.length) :
    (parseResults memory children k pprev list).Completes ↔
      (∀ c ∈ children, ResultWellFormed c) ∧ memory.HasBoundsFrom k children ∧
        k + children.length ≤ list.block.length := by
  induction children generalizing k pprev list with
  | nil => simpa [parseResults, ReplyMemory.HasBoundsFrom] using hk
  | cons c children ih =>
      rw [parseResults, List.forall_mem_cons, List.length_cons]
      by_cases hslot : k < list.block.length
      · rw [if_pos hslot, Except.completes_bind_of_forall, completes_parseResult_iff]
        rotate_left
        -- neither the write nor the link changes the number of slots that the rest may use
        · intro result _
          have hlen : ∀ r : Option OcgeoResult, ({ list with block := list.block.set k r }.link
              pprev k : ResultList).block.length = list.block.length := by
            intro r
            simp
          rw [ih (by rw [hlen]; omega), hlen]
        · rw [hasBoundsFrom_cons_iff,
            show k + 1 + children.length = k + (children.length + 1) by omega]
          tauto
      -- the element has no slot, so the loop writes behind the block
      · rw [if_neg hslot]
        simp only [Except.not_completes_error, false_iff, not_and]
        omega

/-! ## The list the loop leaves behind -/

/-- A result as it is written to its slot. -/
theorem parseResult_eq_ok {calloc : Bool} {result_js : CJson} {result : OcgeoResult}
    (h : parseResult calloc result_js = .ok result) :
    result.next = none ∧ result.internal = result_js := by
  rw [parseResult] at h
  obtain ⟨confidence, -, h⟩ := Except.bind_eq_ok_iff.mp h
  obtain ⟨bounds, -, h⟩ := Except.bind_eq_ok_iff.mp h
  obtain ⟨geometry, -, h⟩ := Except.bind_eq_ok_iff.mp h
  obtain rfl := Except.ok.inj h
  exact ⟨rfl, rfl⟩

/-- One round of the loop. -/
theorem parseResults_cons_eq_ok {memory : ReplyMemory} {c : CJson} {children : List CJson} {k : ℕ}
    {pprev : PPrev} {list list' : ResultList}
    (h : parseResults memory (c :: children) k pprev list = .ok list') :
    k < list.block.length ∧ ∃ result, parseResult (memory.calloc k) c = .ok result ∧
      parseResults memory children (k + 1) (.next k)
        ({ list with block := list.block.set k (some result) }.link pprev k) = .ok list' := by
  rw [parseResults] at h
  by_cases hslot : k < list.block.length
  · rw [if_pos hslot] at h
    exact ⟨hslot, Except.bind_eq_ok_iff.mp h⟩
  · rw [if_neg hslot] at h
    cases h

/-- Linking through the `next` of a written slot. -/
theorem getElem?_link_next {list : ResultList} {k m : ℕ} {result : OcgeoResult}
    (h : list.block[k]? = some (some result)) :
    (list.link (.next k) m).block[k]? = some (some { result with next := some m }) := by
  simp only [ResultList.link, List.getElem?_modify, if_pos, h]
  rfl

/-- Linking through the `next` of one slot leaves the other slots alone. -/
theorem getElem?_link_next_of_ne {list : ResultList} {k i m : ℕ} (h : k ≠ i) :
    (list.link (.next k) m).block[i]? = list.block[i]? := by
  simp only [ResultList.link, List.getElem?_modify, if_neg h]
  simp

/-- The pointer to set next belongs to a slot before `k`. -/
def PPrev.Before (pprev : PPrev) (k : ℕ) : Prop := ∀ slot, pprev = .next slot → slot < k

/-- Writing slot `k` and linking it: slot `k` holds the result, the slots before it and the head are
those of the linked list. -/
theorem getElem?_link_set {list : ResultList} {pprev : PPrev} {k : ℕ} (result : OcgeoResult)
    (hprev : pprev.Before k) (hslot : k < list.block.length) :
    ({ list with block := list.block.set k (some result) }.link pprev k).block[k]? =
        some (some result) ∧
      (∀ i < k, ({ list with block := list.block.set k (some result) }.link pprev k).block[i]? =
        (list.link pprev k).block[i]?) ∧
      ({ list with block := list.block.set k (some result) }.link pprev k).head =
        (list.link pprev k).head := by
  unfold ResultList.link
  cases pprev with
  | results =>
      refine ⟨List.getElem?_set_self hslot, fun i hi => ?_, rfl⟩
      exact List.getElem?_set_ne (by omega)
  | next slot =>
      have hlt := hprev slot rfl
      refine ⟨?_, fun i hi => ?_, rfl⟩
      · show (ResultList.link { list with block := list.block.set k (some result) } (.next slot)
          k).block[k]? = _
        rw [getElem?_link_next_of_ne (by omega)]
        exact List.getElem?_set_self hslot
      · simp only [List.getElem?_modify]
        rw [List.getElem?_set_ne (by omega)]

/-- **Frame.** From slot `k` on, the loop changes the head and the slots before `k` only by linking
slot `k`, and not at all when there is nothing left. -/
theorem parseResults_frame {memory : ReplyMemory} {children : List CJson} {k : ℕ} {pprev : PPrev}
    {list list' : ResultList} (h : parseResults memory children k pprev list = .ok list')
    (hprev : pprev.Before k) :
    (∀ i < k, list'.block[i]? =
        (if children = [] then list else list.link pprev k).block[i]?) ∧
      list'.head = (if children = [] then list else list.link pprev k).head := by
  induction children generalizing k pprev list with
  | nil =>
      obtain rfl := Except.ok.inj h
      simp
  | cons c children ih =>
      obtain ⟨hslot, result, -, hrest⟩ := parseResults_cons_eq_ok h
      obtain ⟨-, hbefore, hhead⟩ := getElem?_link_set result hprev hslot
      obtain ⟨hblock, hhead'⟩ := ih hrest fun slot hnext => by
        cases hnext
        exact Nat.lt_succ_self k
      rw [if_neg (List.cons_ne_nil c children)]
      -- the first round links slot `k`; the later ones link through slot `k`, not before it
      refine ⟨fun i hi => ?_, ?_⟩
      · rw [hblock i (by omega), ← hbefore i hi]
        split
        · rfl
        · exact getElem?_link_next_of_ne (by omega)
      · rw [hhead', ← hhead]
        split <;> rfl

/-- **The list.** From the slot of the first element the links lead through the results of all
elements, in their order. -/
theorem parseResults_follows {memory : ReplyMemory} {c : CJson} {children : List CJson} {k : ℕ}
    {pprev : PPrev} {list list' : ResultList}
    (h : parseResults memory (c :: children) k pprev list = .ok list') (hprev : pprev.Before k) :
    ∃ visited, SlotChain.Follows OcgeoResult.next list'.block (some k) visited ∧
      visited.map OcgeoResult.internal = c :: children := by
  induction children generalizing c k pprev list with
  | nil =>
      obtain ⟨hslot, result, hresult, hrest⟩ := parseResults_cons_eq_ok h
      obtain rfl := Except.ok.inj hrest
      -- the last result keeps the `NULL` it was written with
      obtain ⟨hnext, hinternal⟩ := parseResult_eq_ok hresult
      refine ⟨[result], .cons (getElem?_link_set result hprev hslot).1 ?_, by simp [hinternal]⟩
      rw [hnext]
      exact .nil
  | cons d children ih =>
      obtain ⟨hslot, result, hresult, hrest⟩ := parseResults_cons_eq_ok h
      obtain ⟨-, hinternal⟩ := parseResult_eq_ok hresult
      have hbefore : (PPrev.next k).Before (k + 1) := fun slot hnext => by
        cases hnext
        exact Nat.lt_succ_self k
      obtain ⟨visited, hfollows, hvisited⟩ := ih hrest hbefore
      -- slot `k` is linked to slot `k + 1` and stays so for the rest of the loop
      obtain ⟨hblock, -⟩ := parseResults_frame hrest hbefore
      have hcell : list'.block[k]? = some (some { result with next := some (k + 1) }) := by
        rw [hblock k (Nat.lt_succ_self k), if_neg (List.cons_ne_nil d children)]
        exact getElem?_link_next (getElem?_link_set result hprev hslot).1
      exact ⟨_, .cons hcell hfollows, by simp [hinternal, hvisited]⟩

/-- The loop keeps the size of the block. -/
theorem length_block_parseResults {memory : ReplyMemory} {children : List CJson} {k : ℕ}
    {pprev : PPrev} {list list' : ResultList}
    (h : parseResults memory children k pprev list = .ok list') :
    list'.block.length = list.block.length := by
  induction children generalizing k pprev list with
  | nil =>
      obtain rfl := Except.ok.inj h
      rfl
  | cons c children ih =>
      obtain ⟨-, result, -, hrest⟩ := parseResults_cons_eq_ok h
      rw [ih hrest, length_block_link, List.length_set]

/-- The list read from at least one element visits the results of the elements. -/
theorem visits_parseResults {memory : ReplyMemory} {c : CJson} {children : List CJson}
    {list list' : ResultList} (h : parseResults memory (c :: children) 0 .results list = .ok list') :
    ∃ visited, list'.Visits visited ∧ visited.map OcgeoResult.internal = c :: children := by
  have hbefore : PPrev.results.Before 0 := fun slot hnext => by cases hnext
  obtain ⟨visited, hfollows, hvisited⟩ := parseResults_follows h hbefore
  have hhead : list'.head = some 0 := (parseResults_frame h hbefore).2
  refine ⟨visited, ?_, hvisited⟩
  rw [ResultList.Visits]
  rw [hhead]
  exact hfollows

/-- The list read from no element starts at a slot that was never written, unless there was no memory
for the slots. -/
theorem visits_malloc_iff {memory : ReplyMemory} {n : ℕ} (hn : 1 ≤ n) :
    (∃ visited, (ResultList.malloc memory n).Visits visited ∧
      visited.map OcgeoResult.internal = []) ↔ memory.malloc (n * sizeofOcgeoResult) = false := by
  rw [ResultList.malloc]
  cases hmalloc : memory.malloc (n * sizeofOcgeoResult) with
  | false => exact iff_of_true ⟨[], .nil, rfl⟩ rfl
  | true =>
      refine iff_of_false ?_ (by simp)
      rintro ⟨visited, hvisits, -⟩
      -- the pointer that `malloc` returned was never cleared, and its slot never written
      have hslot : (List.replicate n (none : Option OcgeoResult))[0]? = some none :=
        List.getElem?_replicate_of_lt (by omega)
      exact absurd hvisits (SlotChain.not_follows_of_uninitialised hslot visited)

/-! ## The whole reply -/

theorem assertFound_eq_ok_iff {obj : Option CJson} {member : CString} {item : CJson} :
    assertFound obj member = .ok item ↔ obj = some item := by
  unfold assertFound
  cases obj <;> simp

theorem completes_parseStatus_iff {json : CJson} : (parseStatus json).Completes ↔
    ∃ status, getObjectItemCaseSensitive (some json) (ofAscii "status") = some status ∧
      HasMember (some status) (ofAscii "code") := by
  rw [parseStatus]
  rw [Except.completes_bind_iff]
  apply exists_congr
  intro status
  apply and_congr assertFound_eq_ok_iff
  rw [Except.completes_bind_of_forall fun _ _ => iff_true_intro (Except.completes_pure _), and_true,
    completes_jsonObjGetInt_iff]

/-- The announced number is the value of the member `total_results`. -/
theorem parseTotalResults_eq_ok_iff {json : CJson} {total_results : ℤ} :
    parseTotalResults json = .ok total_results ↔
      ∃ total, getObjectItem (some json) (ofAscii "total_results") = some total ∧
        jsonIntValue total = total_results := by
  rw [parseTotalResults]
  rw [Except.bind_eq_ok_iff]
  apply exists_congr
  intro total
  apply and_congr assertFound_eq_ok_iff
  exact ⟨fun h => Except.ok.inj h, fun h => congrArg Except.ok h⟩

theorem completes_parseResultList_iff {memory : ReplyMemory} {json : CJson} {total_results : ℤ} :
    (parseResultList memory json total_results).Completes ↔
      (0 < total_results → ResultsWellFormed json total_results ∧ ∀ results,
        getObjectItemCaseSensitive (some json) (ofAscii "results") = some results →
          memory.Provides total_results (results.child.map Prod.snd)) := by
  rw [parseResultList]
  by_cases hpos : total_results ≤ 0
  · rw [if_pos hpos]
    exact iff_of_true (Except.completes_pure _) fun h => absurd h (not_lt.mpr hpos)
  · rw [if_neg hpos, Except.completes_bind_iff, imp_iff_right (not_le.mp hpos)]
    have hloop : ∀ results : CJson, (parseResults memory (results.child.map Prod.snd) 0 .results
        (.malloc memory total_results.toNat)).Completes ↔
        ((∀ c ∈ results.child, ResultWellFormed c.2) ∧ results.child.length ≤ total_results) ∧
          memory.Provides total_results (results.child.map Prod.snd) := by
      intro results
      rw [completes_parseResults_iff (Nat.zero_le _), length_block_malloc, List.length_map,
        List.forall_mem_map, zero_add]
      constructor
      · rintro ⟨hformed, hbounds, hlen⟩
        refine ⟨⟨hformed, by split_ifs at hlen <;> omega⟩, fun hne => ?_, hbounds⟩
        -- without the block not even the first element has a slot
        by_contra hmalloc
        rw [if_neg hmalloc] at hlen
        exact hne (List.map_eq_nil_iff.mpr (List.length_eq_zero_iff.mp (Nat.le_zero.mp hlen)))
      · rintro ⟨⟨hformed, hlen⟩, hblock, hbounds⟩
        refine ⟨hformed, hbounds, ?_⟩
        by_cases hnil : results.child = []
        · rw [hnil]
          exact Nat.zero_le _
        · rw [if_pos (hblock fun h => hnil (List.map_eq_nil_iff.mp h))]
          omega
    constructor
    · rintro ⟨results, hfound, hcompletes⟩
      rw [assertFound_eq_ok_iff] at hfound
      obtain ⟨hformed, hprovides⟩ := (hloop results).mp hcompletes
      refine ⟨⟨results, hfound, hformed⟩, fun results' hfound' => ?_⟩
      obtain rfl := Option.some.inj (hfound.symm.trans hfound')
      exact hprovides
    · rintro ⟨⟨results, hfound, hformed⟩, hprovides⟩
      exact ⟨results, assertFound_eq_ok_iff.mpr hfound,
        (hloop results).mpr ⟨hformed, hprovides results hfound⟩⟩

/-- **Reading completes.** No assertion fails, no absent member is read and nothing is written outside
of what was allocated, exactly for the well-formed replies for whose results there is memory. -/
theorem completes_parseResponseJson_iff {memory : ReplyMemory} {json : CJson}
    (response : OcgeoResponse) :
    (parseResponseJson memory json response).Completes ↔
      ReplyWellFormed json ∧ memory.SufficesFor json := by
  have hlists : ∀ status rateInfo, Except.Completes (do
      let total_results ← parseTotalResults json
      let results ← parseResultList memory json total_results
      return ({ status, url := response.url, rateInfo, total_results, results } : OcgeoResponse)) ↔
      (∃ total, getObjectItem (some json) (ofAscii "total_results") = some total ∧
        (0 < jsonIntValue total → ResultsWellFormed json (jsonIntValue total))) ∧
          memory.SufficesFor json := by
    intro status rateInfo
    rw [Except.completes_bind_iff]
    constructor
    · rintro ⟨total_results, htotal, hrest⟩
      obtain ⟨total, hfound, rfl⟩ := parseTotalResults_eq_ok_iff.mp htotal
      obtain ⟨results, hlist, -⟩ := Except.completes_bind_iff.mp hrest
      have hresults := completes_parseResultList_iff.mp ⟨results, hlist⟩
      refine ⟨⟨total, hfound, fun hpos => (hresults hpos).1⟩, fun total' results' hfound' hpos => ?_⟩
      obtain rfl := Option.some.inj (hfound.symm.trans hfound')
      exact (hresults hpos).2 results'
    · rintro ⟨⟨total, hfound, hformed⟩, hsuffices⟩
      obtain ⟨results, hlist⟩ := completes_parseResultList_iff.mpr fun hpos =>
        ⟨hformed hpos, fun results hresults => hsuffices total results hfound hpos hresults⟩
      exact ⟨jsonIntValue total, parseTotalResults_eq_ok_iff.mpr ⟨total, hfound, rfl⟩,
        Except.completes_bind_iff.mpr ⟨results, hlist, Except.completes_pure _⟩⟩
  -- status and rate do not influence what is read after them
  rw [parseResponseJson]
  rw [Except.completes_bind_of_forall fun status _ =>
    Except.completes_bind_of_forall fun rateInfo _ => hlists status rateInfo,
    completes_parseStatus_iff, completes_parseRate_iff]
  constructor
  · rintro ⟨hstatus, hrate, htotal, hsuffices⟩
    exact ⟨⟨hstatus, hrate, htotal⟩, hsuffices⟩
  · rintro ⟨⟨hstatus, hrate, htotal⟩, hsuffices⟩
    exact ⟨hstatus, hrate, htotal, hsuffices⟩

end OcgeoFdw
