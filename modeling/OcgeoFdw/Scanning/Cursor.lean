import OcgeoFdw.Scanning.ForeignScan
import OcgeoFdw.Scanning.QueryBinding

/-! # The cursor of a scan

Which rows a scan returns: `iterate_yields` states that a call of `ocgeoIterateForeignScan` returns
the next result of the request made by the latest start, in whatever order the callbacks of this and
of other scans come, and an empty slot when there are no more. -/

namespace OcgeoFdw

open CJson CString

/-! ## Answers -/

/-- The code of the status of a reply. -/
def statusCode (json : CJson) : Option ℤ :=
  (getObjectItemCaseSensitive (getObjectItemCaseSensitive (some json) (ofAscii "status"))
    (ofAscii "code")).map valueint

/-- A reply with status 200 that announces as many results as its array has. -/
structure ListsResults (json : CJson) (elements : List CJson) : Prop where
  status : statusCode json = some ocgeoCodeOk
  total_results : ∃ total, getObjectItem (some json) (ofAscii "total_results") = some total ∧
    jsonIntValue total = elements.length
  results : elements ≠ [] →
    getObjectItemCaseSensitive (some json) (ofAscii "results") = some (.array elements)

/-- The start sends a request, and this is the reply to it: `none` if the transfer fails or the body
is no JSON text. -/
def RequestReplied (foreignScan : ForeignScan) (inputs : StartInputs) (reply : Option CJson) : Prop :=
  ∃ pushed query params, pushedQuals (foreignScan.env inputs) foreignScan.fdw_exprs = .ok pushed ∧
    pushed.request = some (query, params) ∧
    replyTo inputs (requestUrl inputs query params) = reply

/-- The results that a start gets: none without a request, without a reply or with another status
than 200, and otherwise those of the array. -/
inductive Answered (foreignScan : ForeignScan) (inputs : StartInputs) :
    Bool → List CJson → Prop
  | explained : Answered foreignScan inputs true []
  | unbound {explain_only : Bool}
      (h : ¬ BindsQuery (foreignScan.env inputs) foreignScan.fdw_exprs) :
      Answered foreignScan inputs explain_only []
  | noReply (h : RequestReplied foreignScan inputs none) : Answered foreignScan inputs false []
  | rejected {json : CJson} {code : ℤ} (h : RequestReplied foreignScan inputs (some json))
      (hcode : statusCode json = some code) (hne : code ≠ ocgeoCodeOk) :
      Answered foreignScan inputs false []
  | found {json : CJson} {elements : List CJson}
      (h : RequestReplied foreignScan inputs (some json)) (hlists : ListsResults json elements) :
      Answered foreignScan inputs false elements

/-- The output of a call that has to return an element, or none: the row of a result that was read
from it, unless an input function rejects a text, or the empty slot. The restricted column and its
value are set whenever there is an element. -/
def Yields (services : RowServices) (source : RowSource) (output : Output) :
    Option CJson → Prop
  | none => output = .slot none
  | some element => source.qual_key ≠ none ∧ source.qual_value ≠ none ∧
      ∃ result : OcgeoResult, result.internal = element ∧
        ((∃ row, source.row services result = .ok row ∧ output = .slot (some row)) ∨
          ∃ stop, source.row services result = .error stop ∧ stop.IsInvalidInput ∧
            output = .raised stop)

/-! ## Reading a reply -/

section Replies

variable {memory : ReplyMemory} {json : CJson} {response response' : OcgeoResponse}
  {elements : List CJson}

/-- The parts of a reply that was read. -/
theorem parseResponseJson_eq_ok (h : parseResponseJson memory json response = .ok response') :
    statusCode json = some response'.status.code ∧
      ∃ total, parseTotalResults json = .ok total ∧
        parseResultList memory json total = .ok response'.results := by
  rw [parseResponseJson] at h
  obtain ⟨status, hstatus, h⟩ := Except.bind_eq_ok_iff.mp h
  obtain ⟨rateInfo, -, h⟩ := Except.bind_eq_ok_iff.mp h
  obtain ⟨total, htotal, h⟩ := Except.bind_eq_ok_iff.mp h
  obtain ⟨results, hresults, h⟩ := Except.bind_eq_ok_iff.mp h
  obtain rfl := Except.ok.inj h
  refine ⟨?_, total, htotal, hresults⟩
  rw [parseStatus] at hstatus
  obtain ⟨obj, hobj, hstatus⟩ := Except.bind_eq_ok_iff.mp hstatus
  obtain ⟨code, hcode, hstatus⟩ := Except.bind_eq_ok_iff.mp hstatus
  obtain rfl := Except.ok.inj hstatus
  rw [jsonObjGetInt, memberOf] at hcode
  rw [statusCode]
  rw [assertFound_eq_ok_iff.mp hobj]
  split at hcode
  · rename_i item hitem
    rw [hitem]
    exact congrArg some (Except.ok.inj hcode)
  · cases hcode

/-- The response is good exactly if the status is 200. -/
theorem ocgeoResponseOk_iff (h : parseResponseJson memory json response = .ok response') :
    ocgeoResponseOk response' = true ↔ statusCode json = some ocgeoCodeOk := by
  rw [(parseResponseJson_eq_ok h).1, ocgeoResponseOk, decide_eq_true_eq, Option.some.injEq]

/-- Following the results of such a reply visits those of its array. -/
theorem ListsResults.visits (h : ListsResults json elements)
    (hparse : parseResponseJson memory json response = .ok response') :
    ∃ visited, response'.results.Visits visited ∧
      visited.map OcgeoResult.internal = elements := by
  obtain ⟨-, total, htotal, hresults⟩ := parseResponseJson_eq_ok hparse
  obtain ⟨item, hitem, hvalue⟩ := parseTotalResults_eq_ok_iff.mp htotal
  obtain ⟨item', hitem', hlength⟩ := h.total_results
  obtain rfl := Option.some.inj (hitem.symm.trans hitem')
  rw [← hvalue, hlength, parseResultList] at hresults
  cases elements with
  | nil =>
      rw [List.length_nil, if_pos (by simp)] at hresults
      refine ⟨[], ?_, rfl⟩
      rw [← Except.ok.inj hresults]
      exact .nil
  | cons e es =>
      rw [if_neg (by simp)] at hresults
      obtain ⟨obj, hobj, hresults⟩ := Except.bind_eq_ok_iff.mp hresults
      obtain rfl := Option.some.inj
        ((h.results (List.cons_ne_nil e es)).symm.trans (assertFound_eq_ok_iff.mp hobj))
      rw [child_array_map_snd, Int.toNat_natCast] at hresults
      exact visits_parseResults hresults

variable {reply : Option CJson} {url : CString} {before : OcgeoResponse} {forward : Forwarded}

/-- A request succeeds exactly if there is a reply with status 200. -/
theorem Forwards.ok_iff (h : Forwards memory reply url before forward) :
    (forward.ok && ocgeoResponseOk forward.response) = true ↔
      ∃ json, reply = some json ∧ statusCode json = some ocgeoCodeOk := by
  cases h with
  | noReply hnone =>
      rw [hnone]
      simp
  | parsed hjson hparse =>
      rw [hjson, Bool.true_and, ocgeoResponseOk_iff hparse]
      simp

/-- The response to a reply that lists elements has their results to follow. -/
theorem Forwards.visits (h : Forwards memory (some json) url before forward)
    (hlists : ListsResults json elements) :
    ∃ visited, forward.response.results.Visits visited ∧
      visited.map OcgeoResult.internal = elements := by
  cases h with
  | noReply hnone => cases hnone
  | parsed hjson hparse =>
      obtain rfl := Option.some.inj hjson
      exact hlists.visits hparse

end Replies

/-! ## The invariant of the cursor -/

/-- The scan has these elements still to return: following the cursor visits their results, and a row
of one is made without a fault. -/
structure Serves (source : RowSource) (sstate : OcgeoForeignScanState) (elements : List CJson) :
    Prop where
  same : sstate.toRowSource = source
  results : ∃ results : List OcgeoResult,
    SlotChain.Follows OcgeoResult.next sstate.response.results.block sstate.cursor results ∧
      results.map OcgeoResult.internal = elements
  complete : elements ≠ [] → source.Complete

section Cursor

variable {services : RowServices} {source : RowSource} {sstate sstate' : OcgeoForeignScanState}
  {elements : List CJson} {element : CJson}

/-- Without elements the slot is empty, and stays so. -/
theorem Serves.iterate_nil (h : Serves source sstate []) :
    ocgeoIterateForeignScan services sstate = .ok (none, sstate) := by
  obtain ⟨results, hfollows, hmap⟩ := h.results
  obtain rfl := List.map_eq_nil_iff.mp hmap
  rw [ocgeoIterateForeignScan]
  cases hcursor : sstate.cursor with
  | none => rfl
  | some slot =>
      rw [hcursor] at hfollows
      cases hfollows

/-- **One call** returns the row of the first element and leaves the others, or an input function
rejects a text of it. -/
theorem Serves.iterate_cons (h : Serves source sstate (element :: elements)) :
    ∃ result : OcgeoResult, result.internal = element ∧
      ((∃ row sstate', source.row services result = .ok row ∧
          ocgeoIterateForeignScan services sstate = .ok (some row, sstate') ∧
          Serves source sstate' elements) ∨
        ∃ stop, source.row services result = .error stop ∧ stop.IsInvalidInput ∧
          ocgeoIterateForeignScan services sstate = .error stop) := by
  obtain ⟨results, hfollows, hmap⟩ := h.results
  have hcomplete := h.complete (List.cons_ne_nil _ _)
  obtain ⟨result, results, rfl, hresult, hrest⟩ := List.map_eq_cons_iff.mp hmap
  rw [ocgeoIterateForeignScan]
  cases hcursor : sstate.cursor with
  | none =>
      rw [hcursor] at hfollows
      cases hfollows
  | some slot =>
      rw [hcursor] at hfollows
      cases hfollows with
      | cons hcell hfollows =>
          refine ⟨result, hresult, ?_⟩
          obtain rfl := h.same
          simp only [hcell]
          rcases hcomplete.row_cases result with ⟨row, hrow⟩ | ⟨stop, hstop, hinvalid⟩
          · refine .inl ⟨row, { sstate with cursor := result.next }, hrow, ?_, ?_⟩
            · simp only [hrow]
            · exact ⟨rfl, ⟨results, hfollows, hrest⟩, fun _ => hcomplete⟩
          · refine .inr ⟨stop, hstop, hinvalid, ?_⟩
            simp only [hstop]

/-- What a call leaves to return. -/
theorem Serves.iterate {row : Option TupleSlot} (h : Serves source sstate elements)
    (hiterate : ocgeoIterateForeignScan services sstate = .ok (row, sstate')) :
    Serves source sstate' (elements.drop 1) := by
  cases elements with
  | nil =>
      rw [h.iterate_nil] at hiterate
      obtain ⟨-, rfl⟩ := Prod.mk.inj (Except.ok.inj hiterate)
      exact h
  | cons element elements =>
      obtain ⟨result, -, ⟨row', sstate₁, -, hok, hserves⟩ | ⟨stop, -, -, herror⟩⟩ :=
        @Serves.iterate_cons services _ _ _ _ h
      · rw [hok] at hiterate
        obtain ⟨-, rfl⟩ := Prod.mk.inj (Except.ok.inj hiterate)
        exact hserves
      · rw [herror] at hiterate
        cases hiterate

/-! ## A start -/

variable {foreignScan : ForeignScan} {inputs : StartInputs} {explain_only : Bool} {s s' : Session}

/-- A start that sends a request gets one reply to it. -/
theorem requestReplied_iff {pushed : PushedQuals} {query : CString} {params : OcgeoParams}
    {reply : Option CJson}
    (hpushed : pushedQuals (foreignScan.env inputs) foreignScan.fdw_exprs = .ok pushed)
    (hrequest : pushed.request = some (query, params)) :
    RequestReplied foreignScan inputs reply ↔
      replyTo inputs (requestUrl inputs query params) = reply := by
  constructor
  · rintro ⟨pushed', query', params', hpushed', hrequest', hreply⟩
    obtain rfl := Except.ok.inj (hpushed.symm.trans hpushed')
    obtain ⟨rfl, rfl⟩ := Prod.mk.inj (Option.some.inj (hrequest.symm.trans hrequest'))
    exact hreply
  · exact fun hreply => ⟨pushed, query, params, hpushed, hrequest, hreply⟩

/-- **What a start sends**: no request if it only explains or binds no query, and otherwise one,
whose reply is forwarded to the limiter. The restricted column and its value are then set. -/
theorem begin_sends {sent : Option Sent}
    (hassigned : explain_only = false →
      QueryOperandsAssigned (foreignScan.env inputs) foreignScan.fdw_exprs)
    (h : ocgeoBeginForeignScan foreignScan inputs explain_only s = .ok (sent, sstate, s')) :
    ∃ mappings pushed, columnMappingHash foreignScan.columns foreignScan.fdw_private = .ok mappings ∧
      pushedQuals (foreignScan.env inputs) foreignScan.fdw_exprs = .ok pushed ∧
      (((explain_only = true ∨ ¬ BindsQuery (foreignScan.env inputs) foreignScan.fdw_exprs) ∧
          (∀ reply, explain_only = false → ¬ RequestReplied foreignScan inputs reply) ∧ s' = s ∧
          sstate = initialScanState foreignScan mappings pushed) ∨
        (explain_only = false ∧ BindsQuery (foreignScan.env inputs) foreignScan.fdw_exprs ∧
          (∃ text, pushed.qual_key = some queryAttName ∧ pushed.pushdown = true ∧
            pushed.qual_value = some text) ∧
          ∃ reply url forward e, (∀ reply', RequestReplied foreignScan inputs reply' ↔
              reply = reply') ∧
            Forwards inputs.client.memory reply url
              (initialScanState foreignScan mappings pushed).response forward ∧
            request s ⟨inputs.table_options, forward⟩ = .ok (e, s') ∧
            sstate = { initialScanState foreignScan mappings pushed with
              api := some (ocgeoInit inputs.table_options.api_key inputs.table_options.uri)
              response := forward.response
              cursor := if e.ok then forward.response.results.head else none })) := by
  obtain ⟨mappings, pushed, hmappings, hpushed, hcases⟩ := ocgeoBeginForeignScan_eq_ok h
  refine ⟨mappings, pushed, hmappings, hpushed, ?_⟩
  rcases hcases with ⟨hnone, -, hsession, hstate⟩ |
    ⟨query, params, e, hstarted, hrequest, -, hsend⟩
  · refine .inl ⟨?_, ?_, hsession, hstate⟩
    · cases explain_only with
      | true => exact .inl rfl
      | false =>
          refine .inr fun hbound => ?_
          obtain ⟨answer, hsome⟩ := (exists_request_iff (hassigned rfl) hpushed).mpr hbound
          rw [hnone.resolve_left (by simp)] at hsome
          cases hsome
    · rintro reply hstarted ⟨pushed', query, params, hpushed', hrequest, -⟩
      obtain rfl := Except.ok.inj (hpushed.symm.trans hpushed')
      rw [hnone.resolve_left (by simp [hstarted])] at hrequest
      cases hrequest
  · obtain ⟨hconsistent, hbinds⟩ := pushedQuals_query (hassigned hstarted) hpushed
    obtain ⟨hpushdown, hkey, text, hvalue, -⟩ := hconsistent.request_eq.resolve_left fun hnone => by
      rw [hrequest] at hnone
      cases hnone.2
    obtain ⟨forward, hforwards, hsent, hstate⟩ := sendRequest_eq_ok hsend
    exact .inr ⟨hstarted, hbinds.mp hpushdown, ⟨text, hkey, hpushdown, hvalue⟩, _, _, forward, e,
      fun reply' => requestReplied_iff hpushed hrequest, hforwards, hsent, hstate⟩

/-- A state without a cursor has nothing to return. -/
theorem serves_nil (h : sstate.cursor = none) : Serves sstate.toRowSource sstate [] :=
  ⟨rfl, ⟨[], by rw [h]; exact .nil, rfl⟩, fun hne => absurd rfl hne⟩

/-- **A start** leaves the elements that it is answered with to be returned. -/
theorem serves_of_begin {sent : Option Sent}
    (hassigned : QueryOperandsAssigned (foreignScan.env inputs) foreignScan.fdw_exprs)
    (hcolumns : ∀ column ∈ foreignScan.fdw_private, 1 ≤ column.varattno)
    (hanswered : Answered foreignScan inputs explain_only elements)
    (h : ocgeoBeginForeignScan foreignScan inputs explain_only s = .ok (sent, sstate, s')) :
    Serves sstate.toRowSource sstate elements := by
  obtain ⟨mappings, pushed, hmappings, -, ⟨-, hunanswered, -, rfl⟩ | ⟨rfl, hbound,
    ⟨text, hkey, hpushdown, hvalue⟩, reply, url, forward, e, hreplied, hforwards, hsent, rfl⟩⟩ :=
      begin_sends (fun _ => hassigned) h
  -- no request: only the answers without one are left
  · have hempty : elements = [] := by
      cases hanswered with
      | found hreply => exact absurd hreply (hunanswered _ rfl)
      | _ => rfl
    rw [hempty]
    exact serves_nil rfl
  · have hok : e.ok = true ↔ ∃ json, reply = some json ∧ statusCode json = some ocgeoCodeOk := by
      rw [request_ok hsent]
      exact hforwards.ok_iff
    -- a request that does not succeed leaves the cursor NULL
    have hfailed : ¬ e.ok = true → Serves
        (initialScanState foreignScan mappings pushed).toRowSource
        { initialScanState foreignScan mappings pushed with
          api := some (ocgeoInit inputs.table_options.api_key inputs.table_options.uri)
          response := forward.response
          cursor := if e.ok then forward.response.results.head else none } [] := by
      intro hfalse
      refine ⟨rfl, ⟨[], ?_, rfl⟩, fun hne => absurd rfl hne⟩
      rw [if_neg hfalse]
      exact .nil
    cases hanswered with
    | unbound hunbound => exact absurd hbound hunbound
    | noReply hreply =>
        obtain rfl := (hreplied _).mp hreply
        refine hfailed fun htrue => ?_
        obtain ⟨json, hjson, -⟩ := hok.mp htrue
        cases hjson
    | rejected hreply hcode hne =>
        obtain rfl := (hreplied _).mp hreply
        refine hfailed fun htrue => ?_
        obtain ⟨json, hjson, hstatus⟩ := hok.mp htrue
        rw [← Option.some.inj hjson, hcode] at hstatus
        exact hne (Option.some.inj hstatus)
    | found hreply hlists =>
        obtain rfl := (hreplied _).mp hreply
        obtain ⟨visited, hvisits, hmap⟩ := hforwards.visits hlists
        refine ⟨rfl, ⟨visited, ?_, hmap⟩, fun _ => ?_⟩
        · rw [if_pos (hok.mpr ⟨_, rfl, hlists.status⟩)]
          exact hvisits
        · refine ⟨?_, ?_, hmappings, hcolumns⟩
          · simp [initialScanState, hkey]
          · simp [initialScanState, hpushdown, hvalue]

/-! ## Runs -/

variable {b b' : Backend} {node : ℕ} {events : List Event} {outputs : List Output}

/-- A scan that was dropped is not fetched from. -/
theorem closed_of_run (hclosed : b.nodes node = none)
    (hevents : ∀ event ∈ events, event.node = node → event.callback = .iterate)
    (hrun : EventRun.run (Backend.step services) b events = .ok (outputs, b')) :
    b'.nodes node = none := by
  induction events generalizing b outputs with
  | nil =>
      obtain ⟨-, rfl⟩ : [] = outputs ∧ b = b' := by simpa using hrun
      exact hclosed
  | cons event events ih =>
      obtain ⟨output, b₁, outputs', hstep, hrest, rfl⟩ := EventRun.exists_of_run_cons hrun
      obtain ⟨hevent, hevents⟩ := List.forall_mem_cons.mp hevents
      refine ih ?_ hevents hrest
      obtain ⟨after, hnodes, hcases⟩ := Backend.step_cases hstep
      rw [hnodes]
      by_cases hsame : event.node = node
      · have hiterate := hevent hsame
        rw [hsame, Function.update_self]
        rcases hcases with ⟨_, _, _, _, _, hstarts, -⟩ | ⟨before, _, _, -, hbefore, -⟩ |
          ⟨-, -, -, hafter⟩ | ⟨-, -, -, hafter⟩
        · exact absurd hiterate hstarts.callback_ne.1
        · rw [hsame, hclosed] at hbefore
          cases hbefore
        · exact hafter
        · exact hafter
      · rw [Function.update_of_ne (Ne.symm hsame)]
        exact hclosed

/-- **A run of calls**, between which other scans go on, leaves what is behind the elements that were
returned, as long as the scan stays open. -/
theorem serves_of_run {before after : ScanNode} (hopen : b.nodes node = some before)
    (hserves : Serves source before.fdw_state elements)
    (hevents : ∀ event ∈ events, event.node = node → event.callback = .iterate)
    (hrun : EventRun.run (Backend.step services) b events = .ok (outputs, b'))
    (hafter : b'.nodes node = some after) :
    Serves source after.fdw_state
      (elements.drop (events.countP fun event => event.node = node)) := by
  induction events generalizing b before elements outputs with
  | nil =>
      obtain ⟨-, rfl⟩ : [] = outputs ∧ b = b' := by simpa using hrun
      obtain rfl := Option.some.inj (hopen.symm.trans hafter)
      exact hserves
  | cons event events ih =>
      obtain ⟨output, b₁, outputs', hstep, hrest, rfl⟩ := EventRun.exists_of_run_cons hrun
      obtain ⟨hevent, hevents⟩ := List.forall_mem_cons.mp hevents
      obtain ⟨next, hnodes, hcases⟩ := Backend.step_cases hstep
      by_cases hsame : event.node = node
      · have hiterate := hevent hsame
        have hnext : b₁.nodes node = next := by rw [hnodes, hsame, Function.update_self]
        rcases hcases with ⟨_, _, _, _, _, hstarts, -⟩ | ⟨before', row, sstate, -, hbefore, hrow, -,
          -, hnext'⟩ | ⟨hend, -⟩ | ⟨-, -, -, hnext'⟩
        · exact absurd hiterate hstarts.callback_ne.1
        · rw [hsame] at hbefore
          obtain rfl := Option.some.inj (hopen.symm.trans hbefore)
          have hserves' := ih (hnext.trans hnext') (hserves.iterate hrow) hevents hrest
          rw [List.countP_cons_of_pos (by simpa using hsame), Nat.add_comm, ← List.drop_drop]
          exact hserves'
        · rw [hiterate] at hend
          cases hend
        -- the scan was dropped, and would have to be open at the end
        · rw [closed_of_run (hnext.trans hnext') hevents hrest] at hafter
          cases hafter
      · have hnext : b₁.nodes node = some before := by
          rw [hnodes, Function.update_of_ne (Ne.symm hsame)]
          exact hopen
        rw [List.countP_cons_of_neg (by simpa using hsame)]
        exact ih hnext hserves hevents hrest

/-- A scan that is open after it was started and its rows were fetched is the one of that start. -/
theorem Starts.exists_begin {start : Event} {node : ScanNode}
    (hstarts : Starts b start foreignScan inputs explain_only)
    (hevents : ∀ event ∈ events, event.node = start.node → event.callback = .iterate)
    (hrun : EventRun.run (Backend.step services) b (start :: events) = .ok (outputs, b'))
    (hopen : b'.nodes start.node = some node) :
    ∃ sent sstate s' b₁ outputs',
      ocgeoBeginForeignScan foreignScan inputs explain_only b.session = .ok (sent, sstate, s') ∧
        b₁.nodes start.node = some ⟨foreignScan, sstate⟩ ∧
        EventRun.run (Backend.step services) b₁ events = .ok (outputs', b') := by
  obtain ⟨output, b₁, outputs', hstep, hrest, rfl⟩ := EventRun.exists_of_run_cons hrun
  obtain ⟨next, hnodes, hcases⟩ := Backend.step_cases hstep
  have hnext : b₁.nodes start.node = next := by rw [hnodes, Function.update_self]
  rcases hcases with ⟨foreignScan', inputs', explain_only', sent, sstate, hstarts', hbegin, -,
    hnext'⟩ | ⟨_, _, _, hiterate, -⟩ | ⟨hend, -⟩ | ⟨-, -, -, hnext'⟩
  · obtain ⟨rfl, rfl, rfl⟩ := hstarts.unique hstarts'
    exact ⟨sent, sstate, _, b₁, outputs', hbegin, hnext.trans hnext', hrest⟩
  · exact absurd hiterate hstarts.callback_ne.1
  · exact absurd hend hstarts.callback_ne.2
  -- without a scan after the start there would be none at the end
  · rw [closed_of_run (hnext.trans hnext') hevents hrest] at hopen
    cases hopen

/-- **A start and a run of calls** leave what is behind the elements that were returned. -/
theorem Starts.exists_serves {start : Event} {node : ScanNode}
    (hstarts : Starts b start foreignScan inputs explain_only)
    (hassigned : QueryOperandsAssigned (foreignScan.env inputs) foreignScan.fdw_exprs)
    (hcolumns : ∀ column ∈ foreignScan.fdw_private, 1 ≤ column.varattno)
    (hanswered : Answered foreignScan inputs explain_only elements)
    (hevents : ∀ event ∈ events, event.node = start.node → event.callback = .iterate)
    (hrun : EventRun.run (Backend.step services) b (start :: events) = .ok (outputs, b'))
    (hopen : b'.nodes start.node = some node) :
    ∃ sent sstate s',
      ocgeoBeginForeignScan foreignScan inputs explain_only b.session = .ok (sent, sstate, s') ∧
        Serves sstate.toRowSource node.fdw_state
          (elements.drop (events.countP fun event => event.node = start.node)) := by
  obtain ⟨sent, sstate, s', b₁, outputs', hbegin, hnode, hrest⟩ :=
    hstarts.exists_begin hevents hrun hopen
  have hserves := serves_of_begin hassigned hcolumns hanswered hbegin
  exact ⟨sent, sstate, s', hbegin, serves_of_run hnode hserves hevents hrest hopen⟩

/-- **The next call** of a scan returns the row of the first element that is left, or an empty slot. -/
theorem Serves.step_yields {event : Event} {node : ScanNode} (hiterate : event.callback = .iterate)
    (hopen : b.nodes event.node = some node) (h : Serves source node.fdw_state elements) :
    ∃ output b', b.step services event = .ok (output, b') ∧
      Yields services node.fdw_state.toRowSource output elements.head? := by
  rw [h.same]
  unfold Backend.step runCallback
  simp only [hiterate, hopen]
  cases elements with
  | nil =>
      simp only [h.iterate_nil]
      exact ⟨_, _, rfl, rfl⟩
  | cons element elements =>
      have hcomplete := h.complete (List.cons_ne_nil _ _)
      obtain ⟨result, hresult, ⟨row, sstate', hrow, hok, -⟩ | ⟨stop, hstop, hinvalid, herror⟩⟩ :=
        @Serves.iterate_cons services _ _ _ _ h
      · simp only [hok]
        exact ⟨_, _, rfl, hcomplete.qual_key, hcomplete.qual_value, result, hresult,
          .inl ⟨row, hrow, rfl⟩⟩
      · have hraises : stop.raisesError = true := by
          obtain ⟨typeid, text, rfl⟩ := hinvalid
          rfl
        simp only [herror, if_pos hraises]
        exact ⟨_, _, rfl, hcomplete.qual_key, hcomplete.qual_value, result, hresult,
          .inr ⟨stop, hstop, hinvalid, rfl⟩⟩

/-- **The cursor.** A scan is started, or started again, in any state of a backend, and then its rows
are fetched any number of times while other scans go on. The next call returns the row of the next
element of the answer to that start, with the restricted column and its value set, and an empty slot
after the last one. -/
theorem iterate_yields {start : Event} {node : ScanNode}
    (hstarts : Starts b start foreignScan inputs explain_only)
    (hassigned : QueryOperandsAssigned (foreignScan.env inputs) foreignScan.fdw_exprs)
    (hcolumns : ∀ column ∈ foreignScan.fdw_private, 1 ≤ column.varattno)
    (hanswered : Answered foreignScan inputs explain_only elements)
    (hevents : ∀ event ∈ events, event.node = start.node → event.callback = .iterate)
    (hrun : EventRun.run (Backend.step services) b (start :: events) = .ok (outputs, b'))
    (hopen : b'.nodes start.node = some node) :
    ∃ output b'', b'.step services ⟨start.node, .iterate⟩ = .ok (output, b'') ∧
      Yields services node.fdw_state.toRowSource output
        elements[events.countP fun event => event.node = start.node]? := by
  obtain ⟨sent, sstate, s', -, hserves⟩ :=
    hstarts.exists_serves hassigned hcolumns hanswered hevents hrun hopen
  rw [← List.head?_drop]
  exact hserves.step_yields rfl hopen

end Cursor

/-- The clause `q = 'x'` compares `q` with a constant. -/
theorem queryOperandsAssigned_queryEqualsText {env : ScanEnv} (hcatalog : env.catalog = pgCatalog)
    (hrelid : env.scanrelid = 1) : QueryOperandsAssigned env [queryEqualsText] := by
  intro clause hclause qual attName hextract _ _
  rw [List.mem_singleton.mp hclause, hcatalog, hrelid] at hextract
  obtain rfl : (⟨queryVar, some (ofAscii "="), .const (textConst (ofAscii "x"))⟩ : Qual) = qual :=
    (List.cons.inj (Except.ok.inj hextract)).1
  rfl

/-- The scan for `q = 'x'` compares `q` with a constant. -/
theorem queryOperandsAssigned_queryScan (json : CJson) :
    QueryOperandsAssigned (queryScan.env (repliedInputs json)) queryScan.fdw_exprs :=
  queryOperandsAssigned_queryEqualsText rfl rfl

/-- The quota of user 11 is used up. -/
def quotaInputs : StartInputs :=
  { repliedInputs quotaReply with table_options := ⟨1, 11, none, none, 2, 2500⟩ }

/-- A scan of user 10 whose only row is fetched. -/
def openedEvents : List Event :=
  [⟨0, .beginScan queryScan (repliedInputs (announcesOne [bareResult])) false⟩, ⟨0, .iterate⟩]

/-- The scan is started again and gets two results. -/
def rescanEvent : Event :=
  ⟨0, .reScan (repliedInputs (announces 2 [bareResult, boundedResult]))⟩

/-- One of them is fetched while user 11 scans and a third scan is explained. -/
def interleavedEvents : List Event :=
  [⟨1, .beginScan queryScan quotaInputs false⟩, ⟨0, .iterate⟩, ⟨1, .iterate⟩,
    ⟨2, .beginScan queryScan (repliedInputs .null) true⟩]

/-- Readings for three requests of two users. -/
def interleavedClock : List Timeval :=
  [⟨0, 0⟩, ⟨0, 0⟩, ⟨0, 0⟩, ⟨1, 0⟩, ⟨1, 0⟩, ⟨2, 0⟩, ⟨2, 0⟩, ⟨2, 0⟩]

/-- The next call returns the row of the second result of the restarted scan. -/
theorem iterate_yields_second :
    ∃ outputs b outputs' b' node output b'',
      EventRun.run (Backend.step acceptingServices) (.start interleavedClock) openedEvents =
        .ok (outputs, b) ∧
      EventRun.run (Backend.step acceptingServices) b (rescanEvent :: interleavedEvents) =
        .ok (outputs', b') ∧
      b'.nodes 0 = some node ∧
      b'.step acceptingServices ⟨0, .iterate⟩ = .ok (output, b'') ∧
      Yields acceptingServices node.fdw_state.toRowSource output (some boundedResult) := by
  have hrun : ∃ outputs b outputs' b' sstate node,
      EventRun.run (Backend.step acceptingServices) (.start interleavedClock) openedEvents =
        .ok (outputs, b) ∧
      EventRun.run (Backend.step acceptingServices) b (rescanEvent :: interleavedEvents) =
        .ok (outputs', b') ∧
      b.nodes 0 = some ⟨queryScan, sstate⟩ ∧ b'.nodes 0 = some node :=
    ⟨_, _, _, _, _, _, rfl, rfl, rfl, rfl⟩
  obtain ⟨outputs, b, outputs', b', sstate, node, hopened, hrun, hnode, hopen⟩ := hrun
  have hanswered : Answered queryScan (repliedInputs (announces 2 [bareResult, boundedResult])) false
      [bareResult, boundedResult] :=
    .found ⟨_, _, _, rfl, rfl, rfl⟩ ⟨rfl, ⟨_, rfl, rfl⟩, fun _ => rfl⟩
  have hevents : ∀ event ∈ interleavedEvents, event.node = rescanEvent.node →
      event.callback = .iterate := by
    simp [interleavedEvents, rescanEvent]
  obtain ⟨output, b'', hstep, hyields⟩ := iterate_yields
    (.inr ⟨rfl, rfl, sstate, hnode⟩) (queryOperandsAssigned_queryScan _) (by decide) hanswered
    hevents hrun hopen
  exact ⟨outputs, b, outputs', b', node, output, b'', hopened, hrun, hopen, hstep, hyields⟩

end OcgeoFdw
