import OcgeoFdw.Api.ParseResponse

/-! # Replies with a result list

Replies that announce results and carry an array of them: when the list that is read from such a reply
visits the elements of the array, each once and in their order. -/

namespace OcgeoFdw

open CJson CString

/-- The lookup of the member finds a number. -/
def HasNumber (obj : Option CJson) (name : CString) : Prop :=
  ∃ q, getObjectItemCaseSensitive obj name = some (.number q)

/-- A number is a member. -/
theorem HasNumber.hasMember {obj : Option CJson} {name : CString} (h : HasNumber obj name) :
    HasMember obj name := by
  obtain ⟨q, hq⟩ := h
  exact ⟨_, hq⟩

/-- A result with a numeric confidence, whose bounds and geometry, if any, are numeric. -/
structure NumericResult (result_js : CJson) : Prop where
  confidence : HasNumber (some result_js) (ofAscii "confidence")
  bounds : ∀ bounds_js,
    getObjectItemCaseSensitive (some result_js) (ofAscii "bounds") = some bounds_js →
      ∀ corner ∈ [ofAscii "northeast", ofAscii "southwest"],
        HasNumber (getObjectItem (some bounds_js) corner) (ofAscii "lat") ∧
          HasNumber (getObjectItem (some bounds_js) corner) (ofAscii "lng")
  geometry : ∀ geom_js,
    getObjectItemCaseSensitive (some result_js) (ofAscii "geometry") = some geom_js →
      HasNumber (some geom_js) (ofAscii "lat") ∧ HasNumber (some geom_js) (ofAscii "lng")

/-- A numeric result is well-formed. -/
theorem NumericResult.wellFormed {result_js : CJson} (h : NumericResult result_js) :
    ResultWellFormed result_js where
  confidence := h.confidence.hasMember
  bounds := by
    intro bounds_js hbounds
    obtain ⟨hlat, hlng⟩ := h.bounds bounds_js hbounds (ofAscii "northeast") (by simp)
    obtain ⟨hlat', hlng'⟩ := h.bounds bounds_js hbounds (ofAscii "southwest") (by simp)
    exact ⟨⟨hlat.hasMember, hlng.hasMember⟩, ⟨hlat'.hasMember, hlng'.hasMember⟩⟩
  geometry := by
    intro geom_js hgeom
    obtain ⟨hlat, hlng⟩ := h.geometry geom_js hgeom
    exact ⟨hlat.hasMember, hlng.hasMember⟩

/-- A reply with a numeric status code that announces `total_results > 0` results and carries an
array of numeric results. -/
structure AnnouncesResults (json : CJson) (total_results : ℤ) (elements : List CJson) : Prop where
  status : ∃ status, getObjectItemCaseSensitive (some json) (ofAscii "status") = some status ∧
    HasNumber (some status) (ofAscii "code")
  announced : ∃ q, getObjectItem (some json) (ofAscii "total_results") = some (.number q) ∧
    saturatedInt q = total_results
  pos : 0 < total_results
  results : getObjectItemCaseSensitive (some json) (ofAscii "results") = some (.array elements)
  numeric : ∀ e ∈ elements, NumericResult e

/-- Such a reply is well-formed when its rate information is, and the array is not longer than
announced. -/
theorem AnnouncesResults.wellFormed_iff {json : CJson} {total_results : ℤ} {elements : List CJson}
    (h : AnnouncesResults json total_results elements) :
    ReplyWellFormed json ↔ (elements.length : ℤ) ≤ total_results ∧ RateWellFormed json := by
  obtain ⟨q, htotal, hq⟩ := h.announced
  have hvalue : jsonIntValue (.number q) = total_results := hq
  constructor
  · intro hreply
    refine ⟨?_, hreply.rate⟩
    obtain ⟨total, hfound, hresults⟩ := hreply.total_results
    obtain rfl := Option.some.inj (htotal.symm.trans hfound)
    obtain ⟨results, hfound', -, hlen⟩ := hresults (by rw [hvalue]; exact h.pos)
    obtain rfl := Option.some.inj (h.results.symm.trans hfound')
    rw [hvalue, child_array, List.length_map] at hlen
    exact hlen
  · rintro ⟨hlen, hrate⟩
    obtain ⟨status, hstatus, hcode⟩ := h.status
    refine ⟨⟨status, hstatus, hcode.hasMember⟩, hrate, .number q, htotal, fun _ => ?_⟩
    refine ⟨.array elements, h.results, ?_, ?_⟩
    · intro c hc
      rw [child_array] at hc
      obtain ⟨e, he, rfl⟩ := List.mem_map.mp hc
      exact (h.numeric e he).wellFormed
    · rw [hvalue, child_array, List.length_map]
      exact hlen

/-- There is memory for such a reply when there is memory for its elements. -/
theorem AnnouncesResults.sufficesFor_iff {memory : ReplyMemory} {json : CJson} {total_results : ℤ}
    {elements : List CJson} (h : AnnouncesResults json total_results elements) :
    memory.SufficesFor json ↔ memory.Provides total_results elements := by
  obtain ⟨q, htotal, hq⟩ := h.announced
  have hvalue : jsonIntValue (.number q) = total_results := hq
  constructor
  · intro hsuffices
    have hprovides := hsuffices (.number q) (.array elements) htotal (by rw [hvalue]; exact h.pos)
      h.results
    rw [hvalue, child_array_map_snd] at hprovides
    exact hprovides
  · intro hprovides total results hfound _ hfound'
    obtain rfl := Option.some.inj (htotal.symm.trans hfound)
    obtain rfl := Option.some.inj (h.results.symm.trans hfound')
    rw [hvalue, child_array_map_snd]
    exact hprovides

/-- The result list of such a reply, once it is read. -/
theorem AnnouncesResults.parseResults_of_parse {memory : ReplyMemory} {json : CJson}
    {total_results : ℤ} {elements : List CJson} (h : AnnouncesResults json total_results elements)
    {response response' : OcgeoResponse}
    (hparse : parseResponseJson memory json response = .ok response') :
    parseResults memory elements 0 .results (.malloc memory total_results.toNat) =
      .ok response'.results := by
  rw [parseResponseJson] at hparse
  obtain ⟨status, -, hparse⟩ := Except.bind_eq_ok_iff.mp hparse
  obtain ⟨rateInfo, -, hparse⟩ := Except.bind_eq_ok_iff.mp hparse
  obtain ⟨total, htotal, hparse⟩ := Except.bind_eq_ok_iff.mp hparse
  obtain ⟨results, hresults, hparse⟩ := Except.bind_eq_ok_iff.mp hparse
  obtain rfl := Except.ok.inj hparse
  obtain ⟨q, hfound, hq⟩ := h.announced
  obtain ⟨item, hitem, rfl⟩ := parseTotalResults_eq_ok_iff.mp htotal
  obtain rfl := Option.some.inj (hfound.symm.trans hitem)
  rw [show jsonIntValue (.number q) = total_results from hq, parseResultList,
    if_neg (not_le.mpr h.pos)] at hresults
  obtain ⟨obj, hobj, hresults⟩ := Except.bind_eq_ok_iff.mp hresults
  obtain rfl := Option.some.inj (h.results.symm.trans (assertFound_eq_ok_iff.mp hobj))
  rw [child_array_map_snd] at hresults
  exact hresults

/-- The reply is read into a block of at most `total_results` slots, without a write outside it, and
following `results` through `next` visits the results of exactly the elements, in their order, and
ends. -/
def ListsElements (memory : ReplyMemory) (json : CJson) (total_results : ℤ)
    (elements : List CJson) : Prop :=
  ∀ response, ∃ response', parseResponseJson memory json response = .ok response' ∧
    (response'.results.block.length : ℤ) ≤ total_results ∧
    ∃ visited, response'.results.Visits visited ∧
      visited.map OcgeoResult.internal = elements

/-- **The result list.** The elements of the array are listed, inside the block, exactly when the rate
information is well-formed and there is an element, no more of them than announced, and memory for
the block and the bounds. An empty array makes an empty list only if there is no memory for the
block. -/
theorem listsElements_iff {memory : ReplyMemory} {json : CJson} {total_results : ℤ}
    {elements : List CJson} (h : AnnouncesResults json total_results elements) :
    ListsElements memory json total_results elements ↔
      RateWellFormed json ∧
        ((1 ≤ elements.length ∧ (elements.length : ℤ) ≤ total_results ∧
            memory.Provides total_results elements) ∨
          (elements = [] ∧
            memory.malloc (total_results.toNat * sizeofOcgeoResult) = false)) := by
  have hpos := h.pos
  have hcompletes : ∀ response, (parseResponseJson memory json response).Completes ↔
      ((elements.length : ℤ) ≤ total_results ∧ RateWellFormed json) ∧
        memory.Provides total_results elements := by
    intro response
    rw [completes_parseResponseJson_iff, h.wellFormed_iff, h.sufficesFor_iff]
  have hblock : ∀ {response response' : OcgeoResponse},
      parseResponseJson memory json response = .ok response' →
        (response'.results.block.length : ℤ) ≤ total_results := by
    intro response response' hparse
    rw [length_block_parseResults (h.parseResults_of_parse hparse), length_block_malloc]
    split_ifs <;> omega
  cases elements with
  | nil =>
      have hlist : ∀ {response response' : OcgeoResponse},
          parseResponseJson memory json response = .ok response' →
            .malloc memory total_results.toNat = response'.results := fun hparse =>
        Except.ok.inj (h.parseResults_of_parse hparse)
      constructor
      · intro hlists
        obtain ⟨response', hparse, -, hvisits⟩ := hlists (.zeroed none)
        refine ⟨((hcompletes _).mp ⟨_, hparse⟩).1.2, .inr ⟨rfl, ?_⟩⟩
        rw [← hlist hparse] at hvisits
        exact (visits_malloc_iff (by omega)).mp hvisits
      · rintro ⟨hrate, ⟨hone, -⟩ | ⟨-, hmalloc⟩⟩ response
        · exact absurd hone (by simp)
        · obtain ⟨response', hparse⟩ := (hcompletes response).mpr ⟨⟨by simpa using hpos.le, hrate⟩,
            fun hne => absurd rfl hne, fun i e he => by simp at he⟩
          refine ⟨response', hparse, hblock hparse, ?_⟩
          rw [← hlist hparse]
          exact (visits_malloc_iff (by omega)).mpr hmalloc
  | cons c children =>
      constructor
      · intro hlists
        obtain ⟨response', hparse, -, -⟩ := hlists (.zeroed none)
        obtain ⟨⟨hlen, hrate⟩, hprovides⟩ := (hcompletes _).mp ⟨_, hparse⟩
        exact ⟨hrate, .inl ⟨by simp, hlen, hprovides⟩⟩
      · rintro ⟨hrate, ⟨-, hlen, hprovides⟩ | ⟨hnil, -⟩⟩ response
        · obtain ⟨response', hparse⟩ := (hcompletes response).mpr ⟨⟨hlen, hrate⟩, hprovides⟩
          exact ⟨response', hparse, hblock hparse,
            visits_parseResults (h.parseResults_of_parse hparse)⟩
        · cases hnil

/-- A result with nothing but its confidence. -/
def bareResult : CJson := .object [(ofAscii "confidence", .number 9)]

/-- A point of a reply. -/
def pointValue (lat lng : ℚ) : CJson :=
  .object [(ofAscii "lat", .number lat), (ofAscii "lng", .number lng)]

/-- A result with bounds and a point. -/
def boundedResult : CJson :=
  .object [(ofAscii "confidence", .number 7),
    (ofAscii "bounds", .object [(ofAscii "northeast", pointValue 1 2),
      (ofAscii "southwest", pointValue 0 1)]),
    (ofAscii "geometry", pointValue (1 / 2) (3 / 2))]

/-- A reply with status 200, without rate information. -/
def announces (total_results : ℚ) (elements : List CJson) : CJson :=
  .object [(ofAscii "status", .object [(ofAscii "code", .number 200)]),
    (ofAscii "total_results", .number total_results), (ofAscii "results", .array elements)]

/-- A reply that announces one result. -/
def announcesOne (elements : List CJson) : CJson := announces 1 elements

theorem numericResult_bareResult : NumericResult bareResult where
  confidence := ⟨9, rfl⟩
  bounds := fun _ h => by cases h
  geometry := fun _ h => by cases h

theorem numericResult_boundedResult : NumericResult boundedResult where
  confidence := ⟨7, rfl⟩
  bounds := by
    intro bounds_js h
    obtain rfl := Option.some.inj h
    intro corner hcorner
    rcases List.mem_pair.mp hcorner with rfl | rfl
    · exact ⟨⟨1, rfl⟩, 2, rfl⟩
    · exact ⟨⟨0, rfl⟩, 1, rfl⟩
  geometry := by
    intro geom_js h
    obtain rfl := Option.some.inj h
    exact ⟨⟨1 / 2, rfl⟩, 3 / 2, rfl⟩

theorem announcesResults_announces {total_results : ℚ} {elements : List CJson} {n : ℤ}
    (hn : saturatedInt total_results = n) (hpos : 0 < n)
    (hnumeric : ∀ e ∈ elements, NumericResult e) :
    AnnouncesResults (announces total_results elements) n elements where
  status := ⟨_, rfl, 200, rfl⟩
  announced := ⟨total_results, rfl, hn⟩
  pos := hpos
  results := rfl
  numeric := hnumeric

/-- Memory for 1000 bytes, and for the bounds of the first result. -/
def smallMemory : ReplyMemory := ⟨fun n => decide (n ≤ 1000), fun k => k == 0⟩

/-- It suffices for two results of which only the first has bounds. -/
theorem provides_smallMemory {total_results : ℤ}
    (hsize : total_results.toNat * sizeofOcgeoResult ≤ 1000) :
    smallMemory.Provides total_results [boundedResult, bareResult] where
  block := fun _ => decide_eq_true hsize
  bounds := by
    intro i e he hbounds
    match i with
    | 0 => rfl
    | 1 =>
        obtain rfl := Option.some.inj he
        obtain ⟨bounds_js, h⟩ := hbounds
        cases h

/-- Three results announced and two sent. -/
theorem listsElements_two :
    ListsElements smallMemory (announces 3 [boundedResult, bareResult]) 3
      [boundedResult, bareResult] := by
  have hannounces : AnnouncesResults (announces 3 [boundedResult, bareResult]) 3
      [boundedResult, bareResult] := by
    refine announcesResults_announces rfl (by decide) ?_
    simp [numericResult_boundedResult, numericResult_bareResult]
  refine (listsElements_iff hannounces).mpr ⟨?_, .inl ⟨by decide, by decide, ?_⟩⟩
  · intro obj h
    cases h
  · exact provides_smallMemory (by decide)

/-- One result announced and two sent: the second is written behind the block. One announced and
none sent: `results` points to a slot that was never written. One sent and more announced than there
is memory for: it is written through `NULL`. -/
theorem listsElements_fails :
    (AnnouncesResults (announcesOne [bareResult, bareResult]) 1 [bareResult, bareResult] ∧
      parseResponseJson .unlimited (announcesOne [bareResult, bareResult]) (.zeroed none) =
        .error (.outOfBounds 1) ∧
      ¬ ListsElements .unlimited (announcesOne [bareResult, bareResult]) 1
        [bareResult, bareResult]) ∧
    (AnnouncesResults (announcesOne []) 1 [] ∧ ¬ ListsElements .unlimited (announcesOne []) 1 []) ∧
    AnnouncesResults (announces 2147483647 [bareResult]) 2147483647 [bareResult] ∧
      parseResponseJson ⟨fun n => decide (n < 2 ^ 32), fun _ => true⟩
          (announces 2147483647 [bareResult]) (.zeroed none) = .error (.outOfBounds 0) ∧
      ¬ ListsElements ⟨fun n => decide (n < 2 ^ 32), fun _ => true⟩
        (announces 2147483647 [bareResult]) 2147483647 [bareResult] := by
  have hnone : AnnouncesResults (announcesOne []) 1 [] :=
    announcesResults_announces rfl (by decide) (by simp)
  refine ⟨⟨?_, rfl, ?_⟩, ⟨hnone, ?_⟩, ?_, rfl, ?_⟩
  · exact announcesResults_announces rfl (by decide) (by simp [numericResult_bareResult])
  · intro h
    obtain ⟨response', hparse, -⟩ := h (.zeroed none)
    cases hparse
  · intro h
    obtain ⟨response', hparse, -, hvisits⟩ := h (.zeroed none)
    rw [← Except.ok.inj (hnone.parseResults_of_parse hparse)] at hvisits
    exact absurd ((visits_malloc_iff le_rfl).mp hvisits) (by decide)
  · exact announcesResults_announces rfl (by decide) (by simp [numericResult_bareResult])
  · intro h
    obtain ⟨response', hparse, -⟩ := h (.zeroed none)
    cases hparse

end OcgeoFdw
