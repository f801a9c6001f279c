import OcgeoFdw.Scanning.Cursor

/-! # API calls and the rate information

The session of a backend changes with the API calls that its scans make, and with nothing else
(`exists_calls_of_run`). The entry of a user keeps the rate information of its calls:
`recordsLatest_iff` states for which sequences of calls that is the one received last. -/

namespace OcgeoFdw

open CInt CJson CString

/-! ## Calls -/

/-- One API call: the options of the table, the client that answers, the query with its parameters,
and what the response holds before. -/
structure ApiCall where
  table_options : OcgeoTableOptions
  client : WebClient
  query : CString
  params : OcgeoParams
  response : OcgeoResponse

/-- The URL of a call. -/
def ApiCall.url (call : ApiCall) : CString :=
  let api := ocgeoInit call.table_options.api_key call.table_options.uri
  ocgeoServerRequestUriImpl call.client api.api_key api.server call.query true call.params

/-- The JSON value of the reply, `none` if the transfer fails or the body is no JSON text. -/
def ApiCall.reply (call : ApiCall) : Option CJson :=
  (call.client.curl_easy_perform call.url).bind call.client.cJSON_Parse

/-- `ocgeoGetCounters` and `submitRequestWithRateLimiter`, around the request to the API. -/
def submitApiCall (s : Session) (call : ApiCall) : Except ScanStop (Sent × Session) :=
  let api := ocgeoInit call.table_options.api_key call.table_options.uri
  match ocgeoForward call.client api call.query (some call.params) (some call.response) with
  | .error e => .error (.parseFault e)
  | .ok (ok, response) =>
      match request s ⟨call.table_options, ⟨ok, response.getD call.response⟩⟩ with
      | .error e => .error (.limiterFault e)
      | .ok (sent, s) => .ok (sent, s)

/-! ## The rate information of a reply -/

/-- A field of the rate information. -/
def rateField (rate : CJson) (name : CString) : ℤ :=
  ((getObjectItemCaseSensitive (some rate) name).map valueint).getD 0

/-- The rate information that a reply carries, all zero if it has none. -/
def rateCarried (json : CJson) : OcgeoRateInfo :=
  match getObjectItem (some json) (ofAscii "rate") with
  | some rate =>
      ⟨rateField rate (ofAscii "limit"), rateField rate (ofAscii "remaining"),
        rateField rate (ofAscii "reset")⟩
  | none => .zero

/-- The rate information received last, after one more call: a call of the user whose reply is parsed
brings its own. -/
def receiveRate (user_id : Oid) (rate : OcgeoRateInfo) (call : ApiCall) : OcgeoRateInfo :=
  if call.table_options.user_id = user_id then
    match call.reply with
    | some json => rateCarried json
    | none => rate
  else rate

/-- The rate information that calls bring to a user, in the order of the calls. -/
def latestReceived (user_id : Oid) (calls : List ApiCall) : OcgeoRateInfo :=
  calls.foldl (receiveRate user_id) .zero

/-- The same over the replies with status 200 only. -/
def storeRate (user_id : Oid) (rate : OcgeoRateInfo) (call : ApiCall) : OcgeoRateInfo :=
  if call.table_options.user_id = user_id then
    match call.reply with
    | some json => if statusCode json = some ocgeoCodeOk then rateCarried json else rate
    | none => rate
  else rate

/-- The rate information of the last reply with status 200 to the user. -/
def latestStored (user_id : Oid) (calls : List ApiCall) : OcgeoRateInfo :=
  calls.foldl (storeRate user_id) .zero

/-- The rate information in the entry of a user, all zero without an entry. -/
def Session.rateInfo (s : Session) (user_id : Oid) : OcgeoRateInfo :=
  ((s.counters user_id).map Counters.rate_info).getD .zero

section Calls

variable {call : ApiCall} {s s' : Session} {sent : Sent} {user_id : Oid} {memory : ReplyMemory}
  {json : CJson}
  {response response' : OcgeoResponse}

/-- **What a call does**: it forwards what the reply says to the limiter. -/
theorem submitApiCall_eq_ok (h : submitApiCall s call = .ok (sent, s')) :
    ∃ forward, Forwards call.client.memory call.reply call.url call.response forward ∧
      request s ⟨call.table_options, forward⟩ = .ok (sent, s') := by
  unfold submitApiCall at h
  simp only at h
  split at h
  · cases h
  · rename_i ok response? hforward
    obtain ⟨response, rfl, hforwards⟩ := forwards_of_ocgeoForward rfl hforward
    split at h
    · cases h
    · rename_i sent₁ s₁ hrequest
      obtain ⟨rfl, rfl⟩ := Prod.mk.inj (Except.ok.inj h)
      exact ⟨⟨ok, response⟩, hforwards, hrequest⟩

/-- The request of a start is an API call. -/
theorem submitApiCall_of_sendRequest {inputs : StartInputs} {query : CString} {params : OcgeoParams}
    {sstate sstate' : OcgeoForeignScanState}
    (h : sendRequest inputs query params sstate s = .ok (sent, sstate', s')) :
    submitApiCall s ⟨inputs.table_options, inputs.client, query, params, sstate.response⟩ =
      .ok (sent, s') := by
  rw [sendRequest] at h
  rw [submitApiCall]
  simp only at h ⊢
  cases hforward : ocgeoForward inputs.client
      (ocgeoInit inputs.table_options.api_key inputs.table_options.uri) query (some params)
      (some sstate.response) with
  | error e =>
      rw [hforward] at h
      cases h
  | ok forward =>
      simp only [hforward] at h ⊢
      cases hrequest : request s
          ⟨inputs.table_options, ⟨forward.1, forward.2.getD sstate.response⟩⟩ with
      | error e =>
          rw [hrequest] at h
          cases h
      | ok answer =>
          simp only [hrequest] at h ⊢
          obtain ⟨rfl, hstate⟩ := Prod.mk.inj (Except.ok.inj h)
          obtain ⟨-, rfl⟩ := Prod.mk.inj hstate
          rfl

/-- A field that is read has a value. -/
theorem rateField_of_jsonObjGetInt {rate : CJson} {name : CString} {value : ℤ}
    (h : jsonObjGetInt (some rate) name = .ok value) : rateField rate name = value := by
  rw [jsonObjGetInt, memberOf] at h
  rw [rateField]
  split at h
  · rename_i item hitem
    rw [hitem]
    exact Except.ok.inj h
  · cases h

/-- The parser reads the rate information that the reply carries. -/
theorem rateInfo_of_parse (h : parseResponseJson memory json response = .ok response') :
    response'.rateInfo = rateCarried json := by
  rw [parseResponseJson] at h
  obtain ⟨status, -, h⟩ := Except.bind_eq_ok_iff.mp h
  obtain ⟨rateInfo, hrate, h⟩ := Except.bind_eq_ok_iff.mp h
  obtain ⟨total, -, h⟩ := Except.bind_eq_ok_iff.mp h
  obtain ⟨results, -, h⟩ := Except.bind_eq_ok_iff.mp h
  obtain rfl := Except.ok.inj h
  rw [parseRate] at hrate
  rw [rateCarried]
  cases hfound : getObjectItem (some json) (ofAscii "rate") with
  | none =>
      rw [hfound] at hrate
      exact (Except.ok.inj hrate).symm
  | some rate =>
      rw [hfound] at hrate
      obtain ⟨limit, hlimit, hrate⟩ := Except.bind_eq_ok_iff.mp hrate
      obtain ⟨remaining, hremaining, hrate⟩ := Except.bind_eq_ok_iff.mp hrate
      obtain ⟨reset, hreset, hrate⟩ := Except.bind_eq_ok_iff.mp hrate
      simp only
      rw [rateField_of_jsonObjGetInt hlimit, rateField_of_jsonObjGetInt hremaining,
        rateField_of_jsonObjGetInt hreset]
      exact (Except.ok.inj hrate).symm

/-- **What a request stores** for its user: the rate information of a good response, and otherwise
what was there. -/
theorem request_rateInfo {call : Call} (h : request s call = .ok (sent, s')) :
    s'.rateInfo call.table_options.user_id =
      if (call.forward.ok && ocgeoResponseOk call.forward.response) = true then
        call.forward.response.rateInfo
      else s.rateInfo call.table_options.user_id := by
  obtain ⟨stats, s₁, admission, end_time, hget, -, hstored, -⟩ := request_cases h
  have hbefore : stats.rate_info = s.rateInfo call.table_options.user_id := by
    rw [Session.rateInfo]
    rcases (ocgeoGetCounters_cases hget).2 with ⟨hfound, -⟩ | ⟨hnone, ts, -, rfl⟩
    · rw [hfound]
      rfl
    -- a new entry starts with zero
    · rw [hnone]
      rfl
  rw [← hbefore]
  rw [Session.rateInfo]
  rw [hstored]
  rfl

/-- **What a call stores**: the rate information of a reply with status 200 to the user. -/
theorem submitApiCall_rateInfo (h : submitApiCall s call = .ok (sent, s')) :
    s'.rateInfo user_id = storeRate user_id (s.rateInfo user_id) call := by
  obtain ⟨forward, hforwards, hrequest⟩ := submitApiCall_eq_ok h
  rw [storeRate]
  by_cases huser : call.table_options.user_id = user_id
  · subst huser
    rw [if_pos rfl, request_rateInfo hrequest]
    cases hforwards with
    | noReply hnone =>
        rw [hnone]
        rfl
    | parsed hjson hparse =>
        rw [hjson]
        simp only [Bool.true_and, ocgeoResponseOk_iff hparse, rateInfo_of_parse hparse]
  · rw [if_neg huser]
    unfold Session.rateInfo
    rw [request_counters_of_ne hrequest (Ne.symm huser)]

/-! ## Runs of calls -/

variable {clock : List Timeval} {calls : List ApiCall} {outputs : List Sent}

/-- The entry of a user has the rate information of the last reply with status 200. -/
theorem rateInfo_of_run
    (hrun : EventRun.run submitApiCall (.start clock) calls = .ok (outputs, s)) (user_id : Oid) :
    s.rateInfo user_id = latestStored user_id calls :=
  EventRun.value_of_run (f := fun s => Session.rateInfo s user_id) submitApiCall_rateInfo hrun

/-- After every call of the sequence the rate information in the entry of the user is that of the
latest reply to the user that was received and parsed. -/
def RecordsLatest (user_id : Oid) (clock : List Timeval) (calls : List ApiCall) : Prop :=
  ∀ made, made <+: calls → ∀ outputs s,
    EventRun.run submitApiCall (.start clock) made = .ok (outputs, s) →
      s.rateInfo user_id = latestReceived user_id made

/-- Every reply to the user with another status than 200 carries the rate information of the last
reply with status 200 before it, all zero if there is none. -/
def KeepsRate (user_id : Oid) (calls : List ApiCall) : Prop :=
  ∀ (n : ℕ) (hn : n < calls.length), calls[n].table_options.user_id = user_id →
    ∀ json, calls[n].reply = some json → statusCode json ≠ some ocgeoCodeOk →
      rateCarried json = latestStored user_id (calls.take n)

/-- A call stores what it brings unless a reply with another status brings something else. -/
theorem storeRate_eq_receiveRate_iff {rate : OcgeoRateInfo} :
    storeRate user_id rate call = receiveRate user_id rate call ↔
      (call.table_options.user_id = user_id → ∀ json, call.reply = some json →
        statusCode json ≠ some ocgeoCodeOk → rateCarried json = rate) := by
  rw [storeRate, receiveRate]
  by_cases huser : call.table_options.user_id = user_id
  · rw [if_pos huser, if_pos huser, imp_iff_right huser]
    cases call.reply with
    | none => exact iff_of_true rfl nofun
    | some json =>
        simp only [Option.some.injEq, forall_eq']
        split
        · rename_i hcode
          exact iff_of_true rfl fun hne => absurd hcode hne
        · rename_i hcode
          rw [imp_iff_right hcode]
          exact eq_comm
  · rw [if_neg huser, if_neg huser]
    exact iff_of_true rfl fun heq => absurd heq huser

/-- **The recorded rate information** is the latest received exactly if no reply with another status
than 200 brings a different one. -/
theorem recordsLatest_iff
    (hrun : EventRun.run submitApiCall (.start clock) calls = .ok (outputs, s)) (user_id : Oid) :
    RecordsLatest user_id clock calls ↔ KeepsRate user_id calls := by
  refine (EventRun.tracks_iff_forall_getElem (f := fun s => Session.rateInfo s user_id)
    submitApiCall_rateInfo hrun).trans ?_
  simp only [storeRate_eq_receiveRate_iff]
  rfl

/-! ## The calls of a backend -/

variable {services : RowServices} {b b' : Backend} {event : Event} {output : Output}
  {events : List Event} {os : List Output}

/-- A step of a backend keeps the session or makes one API call in it. -/
theorem step_session (h : b.step services event = .ok (output, b')) :
    b'.session = b.session ∨ ∃ call sent, submitApiCall b.session call = .ok (sent, b'.session) := by
  obtain ⟨node, -, hcases⟩ := Backend.step_cases h
  rcases hcases with ⟨foreignScan, inputs, explain_only, sent, sstate, -, hbegin, -, -⟩ |
    ⟨_, _, _, -, -, -, hsession, -⟩ | ⟨-, hsession, -⟩ | ⟨_, hsession, -⟩
  · obtain ⟨_, _, -, -, ⟨-, -, hsession, -⟩ | ⟨query, params, sent', -, -, -, hsend⟩⟩ :=
      ocgeoBeginForeignScan_eq_ok hbegin
    · exact .inl hsession
    · exact .inr ⟨_, sent', submitApiCall_of_sendRequest hsend⟩
  · exact .inl hsession
  · exact .inl hsession
  · exact .inl hsession

/-- **The session of a backend** is one that API calls lead to. -/
theorem exists_calls_of_run
    (hrun : EventRun.run (Backend.step services) (.start clock) events = .ok (os, b)) :
    ∃ calls outputs, EventRun.run submitApiCall (.start clock) calls = .ok (outputs, b.session) := by
  refine EventRun.invariant_of_run (I := fun b : Backend => ∃ calls outputs,
    EventRun.run submitApiCall (Session.start clock) calls = .ok (outputs, b.session)) ?_
    ⟨[], [], rfl⟩ hrun
  rintro b event output b' ⟨calls, outputs, hcalls⟩ hstep
  rcases step_session hstep with hsession | ⟨call, sent, hcall⟩
  · exact ⟨calls, outputs, hsession ▸ hcalls⟩
  · exact ⟨calls ++ [call], outputs ++ [sent],
      EventRun.run_append_of_ok hcalls (EventRun.run_cons_of_ok hcall rfl)⟩

end Calls

/-! ## Two sequences of calls -/

/-- A reply with this status and rate information, without results. -/
def ratedReply (code limit remaining reset : ℚ) : CJson :=
  .object [(ofAscii "status", .object [(ofAscii "code", .number code)]),
    (ofAscii "rate", .object [(ofAscii "limit", .number limit),
      (ofAscii "remaining", .number remaining), (ofAscii "reset", .number reset)]),
    (ofAscii "total_results", .number 0)]

/-- A call of user 10 that gets the reply. -/
def repliedCall (json : CJson) : ApiCall where
  table_options := ⟨1, 10, none, none, 2, 2500⟩
  client := fixedReply [] json
  query := ofAscii "x"
  params := ocgeoDefaultParams
  response := .zeroed none

/-- The same call of user 11. -/
def otherCall (json : CJson) : ApiCall :=
  { repliedCall json with table_options := ⟨1, 11, none, none, 2, 2500⟩ }

/-- Calls of two users: user 10 gets its rate information, user 11 is out of quota, a reply to user 10
with the status 503 repeats what is known, one is no JSON text, and the last brings a new reset. -/
def mixedCalls : List ApiCall :=
  [repliedCall (ratedReply 200 2500 2499 1594771200), otherCall (ratedReply 402 100 0 1594771200),
    repliedCall (ratedReply 503 2500 2499 1594771200),
    { repliedCall .null with client := { fixedReply [] .null with cJSON_Parse := fun _ => none } },
    repliedCall (ratedReply 200 2500 2500 1594857600)]

/-- Readings for five calls. -/
def mixedClock : List Timeval :=
  [⟨0, 0⟩, ⟨0, 0⟩, ⟨0, 0⟩, ⟨1, 0⟩, ⟨1, 0⟩, ⟨1, 0⟩, ⟨2, 0⟩, ⟨2, 0⟩, ⟨3, 0⟩, ⟨3, 0⟩, ⟨4, 0⟩, ⟨4, 0⟩]

/-- After every one of these calls the entry of user 10 has the rate information received last. -/
theorem recordsLatest_mixed : RecordsLatest 10 mixedClock mixedCalls := by
  have hrun : ∃ outputs s, EventRun.run submitApiCall (.start mixedClock) mixedCalls =
      .ok (outputs, s) := ⟨_, _, rfl⟩
  obtain ⟨outputs, s, hrun⟩ := hrun
  refine (recordsLatest_iff hrun 10).mpr ?_
  intro n hn huser json hreply hcode
  have hlt : n < 5 := hn
  interval_cases n
  · exact absurd (by obtain rfl := Option.some.inj hreply; rfl) hcode
  · exact absurd (show 11 = 10 from huser) (by decide)
  · obtain rfl := Option.some.inj hreply
    decide
  · cases hreply
  · exact absurd (by obtain rfl := Option.some.inj hreply; rfl) hcode

/-- A reply with status 402 says that no requests are left, and the entry does not. -/
theorem not_recordsLatest :
    ¬ RecordsLatest 10 [⟨0, 0⟩, ⟨0, 0⟩, ⟨0, 0⟩] [repliedCall (ratedReply 402 2500 0 1594771200)] := by
  intro h
  have hrecorded := h _ (List.prefix_refl _) _ _ rfl
  exact absurd hrecorded (by decide)

end OcgeoFdw
