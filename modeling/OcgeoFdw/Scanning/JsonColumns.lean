import OcgeoFdw.Api.JsonTrees
import OcgeoFdw.Scanning.RowInputs

/-! # The texts of `jsonb` columns

From the bytes of a reply to the text that the input function of `jsonb` gets: with the parser and
the printer of cJSON, the text for a row is read back as the element of the reply that the row is
of. -/

namespace OcgeoFdw

open CJson CString

/-! ## The parser and the printer in use -/

/-- The replies that a client gets are parsed by cJSON: a tree without infinities is what the API code
reads, and where there is no tree there is none. -/
structure WebClient.UsesCJson (client : WebClient) : Prop where
  parsed : ∀ url text item json, client.curl_easy_perform url = some text →
    CJsonItem.parse text = some item → item.toCJson = some json →
    client.cJSON_Parse text = some json
  rejected : ∀ url text, client.curl_easy_perform url = some text → CJsonItem.parse text = none →
    client.cJSON_Parse text = none

/-- No number in the reply to a request is too large for a double: cJSON reads such a number as an
infinity, which it prints as `null`. -/
def WebClient.FiniteReply (client : WebClient) (url : CString) : Prop :=
  ∀ text item, client.curl_easy_perform url = some text → CJsonItem.parse text = some item →
    ∃ json, item.toCJson = some json

/-- That holds of the reply to the request that a start sends, if it sends one. -/
def GetsFiniteReply (foreignScan : ForeignScan) (inputs : StartInputs) : Prop :=
  ∀ pushed query params, pushedQuals (foreignScan.env inputs) foreignScan.fdw_exprs = .ok pushed →
    pushed.request = some (query, params) →
      inputs.client.FiniteReply (requestUrl inputs query params)

/-- Trees are printed by cJSON: the text is that of an item with the tree. -/
def RowServices.UsesCJson (services : RowServices) : Prop :=
  ∀ item json, CJsonItem.toCJson item = some json → ∃ item' : CJsonItem,
    item'.toCJson = some json ∧ services.cJSON_PrintUnformatted json = item'.text false 0

section Rows

variable {inputs : StartInputs}

/-- A reply without infinities can be printed. -/
theorem printable_of_replyTo {url : CString} (hclient : inputs.client.UsesCJson)
    (hfinite : inputs.client.FiniteReply url) {json : CJson}
    (h : replyTo inputs url = some json) : json.Printable := by
  obtain ⟨text, htext, hjson⟩ := Option.bind_eq_some_iff.mp h
  cases hparse : CJsonItem.parse text with
  | none =>
      rw [hclient.rejected url text htext hparse] at hjson
      cases hjson
  | some item =>
      obtain ⟨json', htree⟩ := hfinite text item htext hparse
      rw [hclient.parsed url text item json' htext hparse htree] at hjson
      obtain rfl := Option.some.inj hjson
      exact printable_of_parse hparse htree

/-- What a lookup finds in a printable tree can be printed. -/
theorem printable_of_getObjectItem {json item : CJson} {name : CString} (h : json.Printable)
    (hitem : getObjectItemCaseSensitive (some json) name = some item) : item.Printable := by
  have hfind : ∀ {children : List (Option CString × CJson)},
      findCaseSensitive name children = some item → ∃ c ∈ children, c.2 = item := by
    intro children hchildren
    induction children with
    | nil => cases hchildren
    | cons c children ih =>
        obtain ⟨key, value⟩ := c
        cases key with
        | none => cases hchildren
        | some key =>
            rw [findCaseSensitive] at hchildren
            split at hchildren
            · exact ⟨_, List.mem_cons_self, Option.some.inj hchildren⟩
            · obtain ⟨c, hc, hvalue⟩ := ih hchildren
              exact ⟨c, List.mem_cons_of_mem _ hc, hvalue⟩
  obtain ⟨c, hc, rfl⟩ := hfind hitem
  exact h.child hc

/-- The elements that a start is answered with can be printed. -/
theorem printable_of_answered {foreignScan : ForeignScan} {explain_only : Bool}
    {elements : List CJson} (hclient : inputs.client.UsesCJson)
    (hfinite : GetsFiniteReply foreignScan inputs)
    (h : Answered foreignScan inputs explain_only elements) : ∀ e ∈ elements, e.Printable := by
  intro e he
  cases h with
  | found hreply hlists =>
      obtain ⟨pushed, query, params, hpushed, hrequest, hreplied⟩ := hreply
      have hprintable :=
        printable_of_replyTo hclient (hfinite pushed query params hpushed hrequest) hreplied
      have harray :=
        printable_of_getObjectItem hprintable (hlists.results (List.ne_nil_of_mem he))
      exact harray.child (List.mem_map.mpr ⟨e, he, rfl⟩)
  | _ => cases he

end Rows

/-! ## From the reply to the column -/

section Runs

variable {services : RowServices} {foreignScan : ForeignScan} {inputs : StartInputs}
  {explain_only : Bool} {s s' : Session} {sent : Option Sent} {sstate : OcgeoForeignScanState}
  {elements : List CJson} {b b' b'' : Backend} {node : ℕ} {events : List Event}
  {outputs : List Output} {row : TupleSlot}

/-- **The text of a result is read back as the element of the reply that the row is of**: a scan is
started, its rows are fetched any number of times while other scans go on, and the next call returns
a row. No number of the reply may be too large for a double. -/
theorem jsonb_reads_back (hclient : inputs.client.UsesCJson)
    (hfinite : GetsFiniteReply foreignScan inputs) (hservices : services.UsesCJson)
    (hassigned : QueryOperandsAssigned (foreignScan.env inputs) foreignScan.fdw_exprs)
    (hcolumns : ∀ column ∈ foreignScan.fdw_private, 1 ≤ column.varattno)
    (hanswered : Answered foreignScan inputs explain_only elements)
    (hbegin : ocgeoBeginForeignScan foreignScan inputs explain_only s = .ok (sent, sstate, s'))
    (hopen : b.nodes node = some ⟨foreignScan, sstate⟩)
    (hevents : ∀ event ∈ events, event.node = node → event.callback = .iterate)
    (hrun : EventRun.run (Backend.step services) b events = .ok (outputs, b'))
    (hstep : b'.step services ⟨node, .iterate⟩ = .ok (.slot (some row), b'')) :
    ∃ element, elements[events.countP fun event => event.node = node]? = some element ∧
      ∀ (i : ℕ) (text : CString), row[i]? = some (some (ColumnValue.input 3802 text)) →
        ∃ item, CJsonItem.parse text = some item ∧ item.toCJson = some element := by
  obtain ⟨result, helement, hrow⟩ :=
    row_of_next hassigned hcolumns hanswered hbegin hopen hevents hrun hstep
  refine ⟨result.internal, helement, fun i text htext => ?_⟩
  have hprinted := Option.some.inj (RowSource.input_of_row hrow htext)
  have hprintable :=
    printable_of_answered hclient hfinite hanswered result.internal (List.mem_of_getElem? helement)
  obtain ⟨item, hitem, -⟩ := id hprintable
  obtain ⟨item', hitem', htext'⟩ := hservices item _ hitem
  refine ⟨item', ?_, hitem'⟩
  rw [← hprinted, htext']
  exact hprintable.parse_printed hitem' false

end Runs

/-- The scan for `q` and a `jsonb` column where `q = 'x'`. -/
def jsonScan : ForeignScan where
  catalog := queryTable.catalog
  columns := [queryAttName, ofAscii "response"]
  scanrelid := queryTable.scanrelid
  fdw_exprs := [queryEqualsText]
  fdw_private := [queryVar, ⟨1, 2, 3802⟩]

/-- The printer of cJSON, and input functions that accept every text. -/
def printingServices : RowServices where
  cJSON_PrintUnformatted json := json.toItem.text false 0
  acceptsInput _ _ := true

/-- A start that gets the text of a tree as its reply. -/
def printedInputs (json : CJson) : StartInputs :=
  { repliedInputs json with
    client := {
      curl_easy_escape := fun s => s
      curl_easy_perform := fun _ => some (json.toItem.text false 0)
      cJSON_Parse := fun _ => some json
      memory := .unlimited } }

/-- These are the printer and the parser of cJSON. -/
theorem usesCJson_printingServices : printingServices.UsesCJson :=
  fun item json h => ⟨json.toItem, item.toCJson_toItem h, rfl⟩

/-- The text of a printable tree is parsed as an item with the tree. -/
theorem parse_of_printedInputs {json : CJson} (h : json.Printable) {url text : CString}
    (htext : (printedInputs json).client.curl_easy_perform url = some text) :
    CJsonItem.parse text = some json.toItem ∧ json.toItem.toCJson = some json := by
  obtain ⟨item, hitem, -⟩ := id h
  obtain rfl : json.toItem.text false 0 = text := Option.some.inj htext
  exact ⟨h.parse_printed (item.toCJson_toItem hitem) false, item.toCJson_toItem hitem⟩

theorem usesCJson_printedInputs {json : CJson} (h : json.Printable) :
    (printedInputs json).client.UsesCJson where
  parsed := by
    intro url text item json' htext hparse htree
    obtain ⟨hprinted, hjson⟩ := parse_of_printedInputs h htext
    obtain rfl := Option.some.inj (hprinted.symm.trans hparse)
    exact hjson.symm.trans htree
  rejected := by
    intro url text htext hparse
    obtain ⟨hprinted, -⟩ := parse_of_printedInputs h htext
    rw [hprinted] at hparse
    cases hparse

theorem getsFiniteReply_printedInputs {foreignScan : ForeignScan} {json : CJson}
    (h : json.Printable) :
    GetsFiniteReply foreignScan (printedInputs json) := by
  intro _ _ _ _ _ text item htext hparse
  obtain ⟨hprinted, hjson⟩ := parse_of_printedInputs h htext
  obtain rfl := Option.some.inj (hprinted.symm.trans hparse)
  exact ⟨json, hjson⟩

/-- A result with a quotation mark in its name. -/
def quotedResult : CJson :=
  .object [(ofAscii "confidence", .number 7), (ofAscii "formatted", .string (ofAscii "a\"b"))]

/-- A reply with such a result as the second can be printed. -/
theorem printable_announces : (announces 2 [bareResult, quotedResult]).Printable := by
  have hnumber : ∀ {n k : ℕ}, k ≤ 1074 → 2 ^ 52 ≤ n * 2 ^ k → n * 2 ^ k < 2 ^ 53 →
      ∃ d : FiniteDouble, d.value = n :=
    fun hk hlow hhigh => ⟨.ofNat _ _ hk hlow hhigh, FiniteDouble.magnitude_ofNat hk hlow hhigh⟩
  obtain ⟨two, htwo⟩ := @hnumber 2 51 (by decide) (by decide) (by decide)
  obtain ⟨nine, hnine⟩ := @hnumber 9 49 (by decide) (by decide) (by decide)
  obtain ⟨seven, hseven⟩ := @hnumber 7 50 (by decide) (by decide) (by decide)
  obtain ⟨code, hcode⟩ := @hnumber 200 45 (by decide) (by decide) (by decide)
  refine ⟨.object [(ofAscii "status", .object [(ofAscii "code", .number (.finite code))]),
    (ofAscii "total_results", .number (.finite two)), (ofAscii "results",
      .array [.object [(ofAscii "confidence", .number (.finite nine))],
        .object [(ofAscii "confidence", .number (.finite seven)),
          (ofAscii "formatted", .string (ofAscii "a\"b"))]])], ?_, rfl, ?_⟩
  · simp [CJsonItem.toCJson, CJsonItem.membersToCJson, CJsonItem.elementsToCJson, htwo, hnine,
      hseven, hcode, announces, bareResult, quotedResult]
  · exact (by decide : 3 ≤ 1000)

/-- The second row of such a scan, behind a row of another scan, has the text of the second result. -/
theorem jsonb_reads_back_second :
    ∃ element item, [bareResult, quotedResult][1]? = some element ∧
      CJsonItem.parse (quotedResult.toItem.text false 0) = some item ∧
      item.toCJson = some element := by
  have hanswered : Answered jsonScan (printedInputs (announces 2 [bareResult, quotedResult])) false
      [bareResult, quotedResult] :=
    .found ⟨_, _, _, rfl, rfl, rfl⟩ ⟨rfl, ⟨_, rfl, rfl⟩, fun _ => rfl⟩
  have hassigned : QueryOperandsAssigned
      (jsonScan.env (printedInputs (announces 2 [bareResult, quotedResult]))) jsonScan.fdw_exprs :=
    queryOperandsAssigned_queryEqualsText rfl rfl
  obtain ⟨sent, sstate, s', outputs, b', row, b'', hbegin, hrun, hstep, hrow⟩ :
      ∃ sent sstate s' outputs b' row b'',
      ocgeoBeginForeignScan jsonScan (printedInputs (announces 2 [bareResult, quotedResult])) false
        (Session.start [⟨0, 0⟩, ⟨0, 0⟩, ⟨0, 0⟩]) = .ok (sent, sstate, s') ∧
      EventRun.run (Backend.step printingServices)
        (Backend.opened s' ⟨jsonScan, sstate⟩ ⟨jsonScan, sstate⟩)
        [⟨0, .iterate⟩, ⟨1, .iterate⟩] = .ok (outputs, b') ∧
      b'.step printingServices ⟨0, .iterate⟩ = .ok (.slot (some row), b'') ∧
      row[1]? = some (some (.input 3802 (quotedResult.toItem.text false 0))) :=
    ⟨_, _, _, _, _, _, _, rfl, rfl, rfl, rfl⟩
  obtain ⟨element, helement, hread⟩ := jsonb_reads_back
    (usesCJson_printedInputs printable_announces) (getsFiniteReply_printedInputs printable_announces)
    usesCJson_printingServices hassigned (by decide) hanswered hbegin rfl (by simp) hrun hstep
  obtain ⟨item, hitem, htree⟩ := hread 1 _ hrow
  exact ⟨element, item, helement, hitem, htree⟩

end OcgeoFdw
