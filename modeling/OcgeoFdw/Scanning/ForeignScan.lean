import OcgeoFdw.Scanning.RowConversion

/-! # The callbacks of a scan

`ocgeoBeginForeignScan`, `ocgeoIterateForeignScan`, `ocgeoReScanForeignScan` and
`ocgeoEndForeignScan`, over the state that they keep in the node of a scan and the counters of the
session. A backend runs the callbacks of any number of scans in any order. -/

namespace OcgeoFdw

open CString

/-! ## The state of a scan -/

/-- The plan of a scan: its table and the catalog, the clauses in `fdw_exprs` and the column list in
`fdw_private`. -/
structure ForeignScan where
  catalog : Catalog
  columns : List CString
  scanrelid : ℕ
  fdw_exprs : List Expr
  fdw_private : List Var

/-- What a start reads besides the plan: the values of the parameters, what `value` happens to hold,
the options for the current user, and what the network answers. -/
structure StartInputs where
  params : Param → Option Datum
  unassigned : Expr → Datum
  table_options : OcgeoTableOptions
  client : WebClient

/-- What the loop over the qualifications reads. -/
def ForeignScan.env (foreignScan : ForeignScan) (inputs : StartInputs) : ScanEnv where
  catalog := foreignScan.catalog
  columns := foreignScan.columns
  scanrelid := foreignScan.scanrelid
  params := inputs.params
  unassigned := inputs.unassigned

/-- `ocgeoForeignScanState`. The pointer `cursor` is the slot of the next result in the block of the
response. -/
structure OcgeoForeignScanState extends RowSource where
  min_confidence : ℤ
  api : Option OcgeoApi
  response : OcgeoResponse
  cursor : Option ℕ

/-! ## The callbacks -/

/-- `ocgeo_init`: `sdsnew` makes an empty string of `NULL`. -/
def ocgeoInit (api_key server : Option CString) : OcgeoApi := ⟨api_key.getD [], server.getD []⟩

/-- The state before a request. -/
def initialScanState (foreignScan : ForeignScan) (mappings : ColumnMappings)
    (pushed : PushedQuals) : OcgeoForeignScanState where
  columns := foreignScan.columns
  qual_key := pushed.qual_key
  qual_value := if pushed.pushdown then pushed.qual_value else none
  columnList := foreignScan.fdw_private
  columnMappingHash := mappings
  min_confidence := pushed.min_confidence
  api := none
  response := .zeroed none
  cursor := none

/-- The request of a start: what the limiter sent, and the state with the response. The cursor is set
if the request succeeds. -/
def sendRequest (inputs : StartInputs) (query : CString) (params : OcgeoParams)
    (sstate : OcgeoForeignScanState) (s : Session) :
    Except ScanStop (Sent × OcgeoForeignScanState × Session) :=
  let api := ocgeoInit inputs.table_options.api_key inputs.table_options.uri
  match ocgeoForward inputs.client api query (some params) (some sstate.response) with
  | .error e => .error (.parseFault e)
  | .ok (ok, response) =>
      let response := response.getD sstate.response
      match request s ⟨inputs.table_options, ⟨ok, response⟩⟩ with
      | .error e => .error (.limiterFault e)
      | .ok (sent, s) =>
          .ok (sent, { sstate with
            api := some api
            response
            cursor := if sent.ok then response.results.head else none }, s)

/-- `ocgeoBeginForeignScan`, with the flag `EXEC_FLAG_EXPLAIN_ONLY`: the request that was sent, if
any, and the state. -/
def ocgeoBeginForeignScan (foreignScan : ForeignScan) (inputs : StartInputs) (explain_only : Bool)
    (s : Session) : Except ScanStop (Option Sent × OcgeoForeignScanState × Session) :=
  match columnMappingHash foreignScan.columns foreignScan.fdw_private with
  | .error stop => .error stop
  | .ok mappings =>
      match pushedQuals (foreignScan.env inputs) foreignScan.fdw_exprs with
      | .error (.operatorLookupFailed e) => .error (.operatorLookupFailed e)
      | .error e => .error (.scanFault e)
      | .ok pushed =>
          let sstate := initialScanState foreignScan mappings pushed
          match if explain_only then none else pushed.request with
          | none => .ok (none, sstate, s)
          | some (query, params) =>
              match sendRequest inputs query params sstate s with
              | .error stop => .error stop
              | .ok (sent, sstate, s) => .ok (some sent, sstate, s)

/-- `ocgeoIterateForeignScan`: the tuple slot, empty without a further result, and the state with the
cursor moved. -/
def ocgeoIterateForeignScan (services : RowServices) (sstate : OcgeoForeignScanState) :
    Except ScanStop (Option TupleSlot × OcgeoForeignScanState) :=
  match sstate.cursor with
  | none => .ok (none, sstate)
  | some slot =>
      match sstate.response.results.block[slot]? with
      | some (some current_result) =>
          match sstate.toRowSource.row services current_result with
          | .error stop => .error stop
          | .ok row => .ok (some row, { sstate with cursor := current_result.next })
      | _ => .error (.danglingCursor slot)

/-! ## A backend -/

/-- The node of a scan that was started. -/
structure ScanNode where
  foreignScan : ForeignScan
  fdw_state : OcgeoForeignScanState

/-- The session of a backend and the scans that are open in it. -/
structure Backend where
  session : Session
  nodes : ℕ → Option ScanNode

/-- A backend before any scan. -/
def Backend.start (clock : List Timeval) : Backend := ⟨.start clock, fun _ => none⟩

/-- A call of one of the functions. -/
inductive Callback
  | beginScan (foreignScan : ForeignScan) (inputs : StartInputs) (explain_only : Bool)
  | iterate
  | reScan (inputs : StartInputs)
  | endScan

/-- A callback for one of the scans. -/
structure Event where
  node : ℕ
  callback : Callback

/-- What a callback returns, or the error that it raises. -/
inductive Output
  | started (sent : Option Sent)
  | slot (row : Option TupleSlot)
  | ended
  | raised (stop : ScanStop)

/-- A callback on the node of its scan, `none` before the start and after the end. `ReScan` is `End`
and a start without flags. -/
def runCallback (services : RowServices) (s : Session) (node : Option ScanNode) :
    Callback → Except ScanStop (Output × Option ScanNode × Session)
  | .beginScan foreignScan inputs explain_only =>
      match ocgeoBeginForeignScan foreignScan inputs explain_only s with
      | .error stop => .error stop
      | .ok (sent, sstate, s) => .ok (.started sent, some ⟨foreignScan, sstate⟩, s)
  | .iterate =>
      match node with
      | none => .error .notStarted
      | some node =>
          match ocgeoIterateForeignScan services node.fdw_state with
          | .error stop => .error stop
          | .ok (row, sstate) => .ok (.slot row, some { node with fdw_state := sstate }, s)
  | .reScan inputs =>
      match node with
      | none => .error .notStarted
      | some node =>
          match ocgeoBeginForeignScan node.foreignScan inputs false s with
          | .error stop => .error stop
          | .ok (sent, sstate, s) => .ok (.started sent, some { node with fdw_state := sstate }, s)
  | .endScan =>
      match node with
      | none => .error .notStarted
      | some _ => .ok (.ended, none, s)

/-- One step of a backend. An error that PostgreSQL raises drops the scan and keeps the session; any
other stop ends the backend. -/
def Backend.step (services : RowServices) (b : Backend) (event : Event) :
    Except ScanStop (Output × Backend) :=
  match runCallback services b.session (b.nodes event.node) event.callback with
  | .ok (output, node, s) => .ok (output, ⟨s, Function.update b.nodes event.node node⟩)
  | .error stop =>
      if stop.raisesError then
        .ok (.raised stop, { b with nodes := Function.update b.nodes event.node none })
      else .error stop

/-! ## What a start does -/

section Callbacks

variable {services : RowServices} {foreignScan : ForeignScan} {inputs : StartInputs}
  {explain_only : Bool} {s s' : Session} {sstate sstate' : OcgeoForeignScanState}

/-- The URL that a start requests. -/
def requestUrl (inputs : StartInputs) (query : CString) (params : OcgeoParams) : CString :=
  let api := ocgeoInit inputs.table_options.api_key inputs.table_options.uri
  ocgeoServerRequestUriImpl inputs.client api.api_key api.server query true params

/-- The JSON value of the reply to a request, `none` if the transfer fails or the body is no JSON
text. -/
def replyTo (inputs : StartInputs) (url : CString) : Option CJson :=
  (inputs.client.curl_easy_perform url).bind inputs.client.cJSON_Parse

/-- What `ocgeo_forward` leaves for a reply, with some memory for its results. -/
inductive Forwards (memory : ReplyMemory) (reply : Option CJson) (url : CString)
    (before : OcgeoResponse) : Forwarded → Prop
  | noReply (h : reply = none) :
      Forwards memory reply url before ⟨false, { before with url := some url }⟩
  | parsed {json : CJson} {response : OcgeoResponse} (h : reply = some json)
      (hparse : parseResponseJson memory json { before with url := some url } = .ok response) :
      Forwards memory reply url before ⟨true, response⟩

/-- `ocgeo_forward` returns what the reply says. -/
theorem forwards_of_ocgeoForward {client : WebClient} {api : OcgeoApi} {query : CString}
    {params : OcgeoParams} {before : OcgeoResponse} {ok : Bool} {response? : Option OcgeoResponse}
    {url : CString}
    (hurl : url = ocgeoServerRequestUriImpl client api.api_key api.server query true params)
    (h : ocgeoForward client api query (some params) (some before) = .ok (ok, response?)) :
    ∃ response, response? = some response ∧
      Forwards client.memory ((client.curl_easy_perform url).bind client.cJSON_Parse) url before
        ⟨ok, response⟩ := by
  rw [ocgeoForward] at h
  cases hreply : (client.curl_easy_perform url).bind client.cJSON_Parse with
  | none =>
      have hfalse : doRequest client true query api.api_key api.server (some params)
          (some before) = .ok (false, some { before with url := some url }) :=
        doRequest_eq_false hurl hreply
      rw [hfalse] at h
      obtain ⟨rfl, rfl⟩ := Prod.mk.inj (Except.ok.inj h)
      exact ⟨_, rfl, .noReply rfl⟩
  | some json =>
      obtain ⟨body, hbody, hjson⟩ := Option.bind_eq_some_iff.mp hreply
      rw [doRequest] at h
      simp only [Option.getD_some, ← hurl, hbody, hjson] at h
      obtain ⟨response, hparse, heq⟩ := Except.bind_eq_ok_iff.mp h
      obtain ⟨rfl, rfl⟩ := Prod.mk.inj (Except.ok.inj heq)
      exact ⟨response, rfl, .parsed rfl hparse⟩

/-- **What a request of a start does.** -/
theorem sendRequest_eq_ok {query : CString} {params : OcgeoParams} {sent : Sent}
    (h : sendRequest inputs query params sstate s = .ok (sent, sstate', s')) :
    ∃ forward, Forwards inputs.client.memory (replyTo inputs (requestUrl inputs query params))
        (requestUrl inputs query params) sstate.response forward ∧
      request s ⟨inputs.table_options, forward⟩ = .ok (sent, s') ∧
      sstate' = { sstate with
        api := some (ocgeoInit inputs.table_options.api_key inputs.table_options.uri)
        response := forward.response
        cursor := if sent.ok then forward.response.results.head else none } := by
  rw [sendRequest] at h
  simp only at h
  split at h
  · cases h
  · rename_i ok response? hforward
    obtain ⟨response, rfl, hforwards⟩ := forwards_of_ocgeoForward rfl hforward
    split at h
    · cases h
    · rename_i sent₁ s₁ hrequest
      obtain ⟨rfl, hstate⟩ := Prod.mk.inj (Except.ok.inj h)
      obtain ⟨rfl, rfl⟩ := Prod.mk.inj hstate
      exact ⟨⟨ok, response⟩, hforwards, hrequest, rfl⟩

/-- A request that is not sent raises no error. -/
theorem raisesError_of_sendRequest {query : CString} {params : OcgeoParams} {stop : ScanStop}
    (h : sendRequest inputs query params sstate s = .error stop) : stop.raisesError = false := by
  rw [sendRequest] at h
  simp only at h
  split at h
  · rw [← Except.error.inj h]
    rfl
  · split at h
    · rw [← Except.error.inj h]
      rfl
    · cases h

/-- **What a start does**: it makes the column mapping, reads the clauses, and sends the request that
they push down unless it only explains. -/
theorem ocgeoBeginForeignScan_eq_ok {sent : Option Sent}
    (h : ocgeoBeginForeignScan foreignScan inputs explain_only s = .ok (sent, sstate, s')) :
    ∃ mappings pushed, columnMappingHash foreignScan.columns foreignScan.fdw_private = .ok mappings ∧
      pushedQuals (foreignScan.env inputs) foreignScan.fdw_exprs = .ok pushed ∧
      (((explain_only = true ∨ pushed.request = none) ∧ sent = none ∧ s' = s ∧
          sstate = initialScanState foreignScan mappings pushed) ∨
        ∃ query params sent', explain_only = false ∧ pushed.request = some (query, params) ∧
          sent = some sent' ∧ sendRequest inputs query params
            (initialScanState foreignScan mappings pushed) s = .ok (sent', sstate, s')) := by
  rw [ocgeoBeginForeignScan] at h
  split at h
  · cases h
  · rename_i mappings hmappings
    split at h
    · cases h
    · cases h
    · rename_i pushed hpushed
      refine ⟨mappings, pushed, hmappings, hpushed, ?_⟩
      simp only at h
      split at h
      · rename_i hnone
        obtain ⟨rfl, hstate⟩ := Prod.mk.inj (Except.ok.inj h)
        obtain ⟨rfl, rfl⟩ := Prod.mk.inj hstate
        refine .inl ⟨?_, rfl, rfl, rfl⟩
        cases explain_only with
        | true => exact .inl rfl
        | false => exact .inr hnone
      · rename_i query params hrequest
        cases explain_only with
        | true => cases hrequest
        | false =>
            split at h
            · cases h
            · rename_i sent₁ sstate₁ s₁ hsend
              obtain ⟨rfl, hstate⟩ := Prod.mk.inj (Except.ok.inj h)
              obtain ⟨rfl, rfl⟩ := Prod.mk.inj hstate
              exact .inr ⟨query, params, sent₁, rfl, hrequest, rfl, hsend⟩

/-- **What a fetch does**: it moves the cursor. -/
theorem moves_of_ocgeoIterateForeignScan {row : Option TupleSlot}
    (h : ocgeoIterateForeignScan services sstate = .ok (row, sstate')) :
    ∃ cursor, sstate' = { sstate with cursor } := by
  rw [ocgeoIterateForeignScan] at h
  split at h
  · obtain ⟨-, rfl⟩ := Prod.mk.inj (Except.ok.inj h)
    exact ⟨sstate.cursor, rfl⟩
  · split at h
    · split at h
      · cases h
      · obtain ⟨-, rfl⟩ := Prod.mk.inj (Except.ok.inj h)
        exact ⟨_, rfl⟩
    · cases h

/-! ## What a step does -/

/-- The event starts the scan of its node, with this plan and these inputs. -/
def Starts (b : Backend) (event : Event) (foreignScan : ForeignScan) (inputs : StartInputs)
    (explain_only : Bool) : Prop :=
  event.callback = .beginScan foreignScan inputs explain_only ∨
    (explain_only = false ∧ event.callback = .reScan inputs ∧
      ∃ sstate, b.nodes event.node = some ⟨foreignScan, sstate⟩)

/-- A start fetches no row and ends no scan. -/
theorem Starts.callback_ne {b : Backend} {event : Event}
    (h : Starts b event foreignScan inputs explain_only) :
    event.callback ≠ .iterate ∧ event.callback ≠ .endScan := by
  rcases h with hbegin | ⟨-, hrescan, -⟩
  · rw [hbegin]
    exact ⟨nofun, nofun⟩
  · rw [hrescan]
    exact ⟨nofun, nofun⟩

/-- The plan and the inputs of a start. -/
theorem Starts.unique {b : Backend} {event : Event} {foreignScan' : ForeignScan}
    {inputs' : StartInputs} {explain_only' : Bool}
    (h : Starts b event foreignScan inputs explain_only)
    (h' : Starts b event foreignScan' inputs' explain_only') :
    foreignScan = foreignScan' ∧ inputs = inputs' ∧ explain_only = explain_only' := by
  rcases h with hbegin | ⟨rfl, hrescan, sstate, hnode⟩
  · rcases h' with hbegin' | ⟨-, hrescan', -⟩
    · rw [hbegin] at hbegin'
      exact Callback.beginScan.inj hbegin'
    · rw [hbegin] at hrescan'
      cases hrescan'
  · rcases h' with hbegin' | ⟨rfl, hrescan', sstate', hnode'⟩
    · rw [hrescan] at hbegin'
      cases hbegin'
    · rw [hrescan] at hrescan'
      rw [hnode] at hnode'
      exact ⟨(ScanNode.mk.inj (Option.some.inj hnode')).1, Callback.reScan.inj hrescan', rfl⟩

/-- **What a step does**: it starts the scan, fetches a row, ends the scan, or raises an error and
drops it. Other scans keep their nodes, and only a start touches the session. -/
theorem Backend.step_cases {b b' : Backend} {event : Event} {output : Output}
    (h : b.step services event = .ok (output, b')) :
    ∃ node, b'.nodes = Function.update b.nodes event.node node ∧
      ((∃ foreignScan inputs explain_only sent sstate,
          Starts b event foreignScan inputs explain_only ∧
          ocgeoBeginForeignScan foreignScan inputs explain_only b.session =
            .ok (sent, sstate, b'.session) ∧
          output = .started sent ∧ node = some ⟨foreignScan, sstate⟩) ∨
        (∃ before row sstate, event.callback = .iterate ∧ b.nodes event.node = some before ∧
          ocgeoIterateForeignScan services before.fdw_state = .ok (row, sstate) ∧
          b'.session = b.session ∧ output = .slot row ∧
          node = some { before with fdw_state := sstate }) ∨
        (event.callback = .endScan ∧ b'.session = b.session ∧ output = .ended ∧ node = none) ∨
        ∃ stop, b'.session = b.session ∧ output = .raised stop ∧ node = none) := by
  rw [Backend.step] at h
  split at h
  · rename_i output₁ node₁ s₁ hcallback
    obtain ⟨rfl, rfl⟩ := Prod.mk.inj (Except.ok.inj h)
    refine ⟨node₁, rfl, ?_⟩
    unfold runCallback at hcallback
    split at hcallback
    · rename_i foreignScan inputs explain_only hevent
      split at hcallback
      · cases hcallback
      · rename_i sent sstate s₂ hbegin
        obtain ⟨rfl, hrest⟩ := Prod.mk.inj (Except.ok.inj hcallback)
        obtain ⟨rfl, rfl⟩ := Prod.mk.inj hrest
        exact .inl ⟨foreignScan, inputs, explain_only, sent, sstate, .inl hevent, hbegin, rfl, rfl⟩
    · rename_i hevent
      split at hcallback
      · cases hcallback
      · rename_i before hbefore
        split at hcallback
        · cases hcallback
        · rename_i row sstate hiterate
          obtain ⟨rfl, hrest⟩ := Prod.mk.inj (Except.ok.inj hcallback)
          obtain ⟨rfl, rfl⟩ := Prod.mk.inj hrest
          exact .inr (.inl ⟨before, row, sstate, hevent, hbefore, hiterate, rfl, rfl, rfl⟩)
    · rename_i inputs hevent
      split at hcallback
      · cases hcallback
      · rename_i before hbefore
        split at hcallback
        · cases hcallback
        · rename_i sent sstate s₂ hbegin
          obtain ⟨rfl, hrest⟩ := Prod.mk.inj (Except.ok.inj hcallback)
          obtain ⟨rfl, rfl⟩ := Prod.mk.inj hrest
          exact .inl ⟨before.foreignScan, inputs, false, sent, sstate,
            .inr ⟨rfl, hevent, before.fdw_state, hbefore⟩, hbegin, rfl, rfl⟩
    · rename_i hevent
      split at hcallback
      · cases hcallback
      · obtain ⟨rfl, hrest⟩ := Prod.mk.inj (Except.ok.inj hcallback)
        obtain ⟨rfl, rfl⟩ := Prod.mk.inj hrest
        exact .inr (.inr (.inl ⟨hevent, rfl, rfl, rfl⟩))
  · rename_i stop _
    split at h
    · obtain ⟨rfl, rfl⟩ := Prod.mk.inj (Except.ok.inj h)
      exact ⟨none, rfl, .inr (.inr (.inr ⟨stop, rfl, rfl, rfl⟩))⟩
    · cases h

end Callbacks

/-! ## A scan -/

/-- The scan for the columns `q` and `confidence` where `q = 'x'`. -/
def queryScan : ForeignScan where
  catalog := queryTable.catalog
  columns := queryTable.columns
  scanrelid := queryTable.scanrelid
  fdw_exprs := [queryEqualsText]
  fdw_private := [queryVar, confidenceVar]

/-- A start of it for user 10 that gets the reply `json`. -/
def repliedInputs (json : CJson) : StartInputs where
  params := queryTable.params
  unassigned := queryTable.unassigned
  table_options := ⟨1, 10, none, none, 2, 2500⟩
  client := fixedReply [] json

/-- A printer that prints nothing, and input functions that accept every text. -/
def acceptingServices : RowServices where
  cJSON_PrintUnformatted _ := []
  acceptsInput _ _ := true

end OcgeoFdw
