import OcgeoFdw.Api.AnnouncedResults

/-! # Requests to the geocoding API

The URL of a request, and `do_request`, which sends it and reads the reply. The services of libcurl,
the text parser of cJSON and the memory for the results are parameters. -/

namespace OcgeoFdw

open CString

/-! ## Parameters -/

/-- `ocgeo_params_t`. -/
structure OcgeoParams where
  countrycode : Option CString
  language : Option CString
  limit : ℤ
  min_confidence : ℤ
  no_annotations : Bool
  no_dedupe : Bool
  no_record : Bool
  proximity : OcgeoLatlng
  roadinfo : Bool

/-- `ocgeo_default_params`: all zero, with an invalid proximity. -/
def ocgeoDefaultParams : OcgeoParams where
  countrycode := none
  language := none
  limit := 0
  min_confidence := 0
  no_annotations := false
  no_dedupe := false
  no_record := false
  proximity := ocgeoInvalidPoint
  roadinfo := false

/-- `ocgeo_is_valid_latlng`: the coordinates are in their ranges. -/
def ocgeoIsValidLatlng (coords : OcgeoLatlng) : Bool :=
  decide (-90 ≤ coords.lat) && decide (coords.lat ≤ 90) && decide (-180 ≤ coords.lng) &&
    decide (coords.lng ≤ 180)

/-! ## The URL -/

/-- `%d`. -/
def showInt (n : ℤ) : CString := ofAscii (toString n)

/-- The nearest integer, ties to the even one. -/
def roundHalfEven (x : ℚ) : ℤ :=
  let below := ⌊x⌋
  let rest := x - below
  if rest < 1 / 2 ∨ (rest = 1 / 2 ∧ below % 2 = 0) then below else below + 1

/-- `%.8F`: a sign, the integral part and eight decimals. -/
def showFixed8 (x : ℚ) : CString :=
  let scaled := (roundHalfEven (|x| * 10 ^ 8)).toNat
  let decimals := ofAscii (toString (scaled % 10 ^ 8))
  (if x < 0 then ofAscii "-" else []) ++ ofAscii (toString (scaled / 10 ^ 8)) ++ ofAscii "." ++
    List.replicate (8 - decimals.length) 48 ++ decimals

/-- What the API code uses of libcurl and of the parser of cJSON: escaping, the body received from a
URL unless the transfer fails, and the tree of a body unless it is no JSON text. The last is the
memory that there is for the results when the reply is read. -/
structure WebClient where
  curl_easy_escape : CString → CString
  curl_easy_perform : CString → Option CString
  cJSON_Parse : CString → Option CJson
  memory : ReplyMemory

/-- The minimum confidence that a request carries: none for zero. -/
def OcgeoParams.sentMinConfidence (params : OcgeoParams) : Option ℤ :=
  if params.min_confidence ≠ 0 then some params.min_confidence else none

/-- `ocgeo_server_request_uri_impl`. -/
def ocgeoServerRequestUriImpl (client : WebClient) (api_key server query : CString)
    (is_fwd : Bool) (params : OcgeoParams) : CString :=
  let url := server ++ ofAscii "?q=" ++ client.curl_easy_escape query ++ ofAscii "&key=" ++ api_key
  let url :=
    match is_fwd, params.countrycode with
    | true, some countrycode => url ++ ofAscii "&countrycode=" ++ countrycode
    | _, _ => url
  let url :=
    match params.language with
    | some language => url ++ ofAscii "&language=" ++ language
    | none => url
  let url := if params.limit ≠ 0 then url ++ ofAscii "&limit=" ++ showInt params.limit else url
  let url :=
    match params.sentMinConfidence with
    | some min_confidence => url ++ ofAscii "&min_confidence=" ++ showInt min_confidence
    | none => url
  let url := url ++ ofAscii "&no_annotations=" ++ showInt (if params.no_annotations then 1 else 0)
  let url := if params.no_dedupe then url ++ ofAscii "&no_dedupe=1" else url
  let url := if params.no_record then url ++ ofAscii "&no_record=1" else url
  let url := if is_fwd && params.roadinfo then url ++ ofAscii "&roadinfo=1" else url
  if is_fwd && ocgeoIsValidLatlng params.proximity then
    url ++ ofAscii "&proximity=" ++ showFixed8 params.proximity.lat ++ ofAscii "," ++
      showFixed8 params.proximity.lng
  else url

/-! ## Sending it -/

/-- `do_request`, with the pointers `params` and `response` possibly `NULL`: the value returned and
the response after the call. -/
def doRequest (client : WebClient) (is_fwd : Bool) (q api_key server : CString)
    (params : Option OcgeoParams) (response : Option OcgeoResponse) :
    Except ParseFault (Bool × Option OcgeoResponse) :=
  let params := params.getD ocgeoDefaultParams
  match response with
  | none => .ok (false, none)
  | some response =>
      let url := ocgeoServerRequestUriImpl client api_key server q is_fwd params
      let response := { response with url := some url }
      match client.curl_easy_perform url with
      | none => .ok (false, some response)
      | some data =>
          match client.cJSON_Parse data with
          | none => .ok (false, some response)
          | some json => do
              let response ← parseResponseJson client.memory json response
              return (true, some response)

/-- `struct ocgeo_api`. -/
structure OcgeoApi where
  api_key : CString
  server : CString

/-- `ocgeo_forward`. -/
def ocgeoForward (client : WebClient) (api : OcgeoApi) (q : CString) (params : Option OcgeoParams)
    (response : Option OcgeoResponse) : Except ParseFault (Bool × Option OcgeoResponse) :=
  doRequest client true q api.api_key api.server params response

/-- `ocgeo_reverse`. -/
def ocgeoReverse (client : WebClient) (api : OcgeoApi) (lat lng : ℚ) (params : Option OcgeoParams)
    (response : Option OcgeoResponse) : Except ParseFault (Bool × Option OcgeoResponse) :=
  doRequest client false (showFixed8 lat ++ ofAscii "," ++ showFixed8 lng) api.api_key api.server
    params response

/-! ## Which replies return -/

section Replies

variable {client : WebClient} {is_fwd : Bool} {q api_key server : CString}
  {params : Option OcgeoParams} {response : OcgeoResponse} {body : CString}

/-- Without a body, or without JSON in it, the request returns `false` and keeps the response but
for its `url`. -/
theorem doRequest_eq_false {url : CString}
    (hurl : url = ocgeoServerRequestUriImpl client api_key server q is_fwd
      (params.getD ocgeoDefaultParams))
    (h : (client.curl_easy_perform url).bind client.cJSON_Parse = none) :
    doRequest client is_fwd q api_key server params (some response) =
      .ok (false, some { response with url := some url }) := by
  subst hurl
  unfold doRequest
  simp only
  split
  -- no body: the transfer failed
  · rfl
  · rename_i data hdata
    rw [hdata, Option.bind_some] at h
    rw [h]

/-- Reading a reply keeps the URL. -/
theorem url_of_parseResponseJson {memory : ReplyMemory} {json : CJson} {response' : OcgeoResponse}
    (h : parseResponseJson memory json response = .ok response') : response'.url = response.url := by
  rw [parseResponseJson] at h
  obtain ⟨status, -, h⟩ := Except.bind_eq_ok_iff.mp h
  obtain ⟨rateInfo, -, h⟩ := Except.bind_eq_ok_iff.mp h
  obtain ⟨total, -, h⟩ := Except.bind_eq_ok_iff.mp h
  obtain ⟨results, -, h⟩ := Except.bind_eq_ok_iff.mp h
  rw [← Except.ok.inj h]

/-- A request leaves the URL that it was sent to, whatever the reply. -/
theorem url_of_doRequest {ok : Bool} {response' : OcgeoResponse}
    (h : doRequest client is_fwd q api_key server params (some response) =
      .ok (ok, some response')) :
    response'.url = some (ocgeoServerRequestUriImpl client api_key server q is_fwd
      (params.getD ocgeoDefaultParams)) := by
  unfold doRequest at h
  simp only at h
  split at h
  · obtain ⟨-, hsome⟩ := Prod.mk.inj (Except.ok.inj h)
    rw [← Option.some.inj hsome]
  · split at h
    · obtain ⟨-, hsome⟩ := Prod.mk.inj (Except.ok.inj h)
      rw [← Option.some.inj hsome]
    · obtain ⟨parsed, hparsed, heq⟩ := Except.bind_eq_ok_iff.mp h
      obtain ⟨-, hsome⟩ := Prod.mk.inj (Except.ok.inj heq)
      rw [← Option.some.inj hsome]
      exact url_of_parseResponseJson hparsed

/-- **Which replies return.** For every body that cJSON accepts, `do_request` returns, with no
failed assertion, no read through an absent member and no write outside of what was allocated,
exactly when the reply is well-formed and the allocations for its results succeed. -/
theorem doRequest_returns_iff {json : CJson}
    (hbody : client.curl_easy_perform (ocgeoServerRequestUriImpl client api_key server q is_fwd
      (params.getD ocgeoDefaultParams)) = some body)
    (hjson : client.cJSON_Parse body = some json) :
    (∃ returned response', doRequest client is_fwd q api_key server params (some response) =
      .ok (returned, response')) ↔ ReplyWellFormed json ∧ client.memory.SufficesFor json := by
  set url := ocgeoServerRequestUriImpl client api_key server q is_fwd
    (params.getD ocgeoDefaultParams) with hurl
  rw [← completes_parseResponseJson_iff { response with url := some url }]
  rw [doRequest]
  simp only [← hurl, hbody, hjson]
  constructor
  · rintro ⟨returned, response', h⟩
    obtain ⟨parsed, hparsed, -⟩ := Except.bind_eq_ok_iff.mp h
    exact ⟨parsed, hparsed⟩
  · rintro ⟨parsed, hparsed⟩
    exact ⟨true, some parsed, Except.bind_eq_ok_iff.mpr ⟨parsed, hparsed, rfl⟩⟩

end Replies

/-- A client that receives one fixed body from every URL. -/
def fixedReply (body : CString) (json : CJson) : WebClient where
  curl_easy_escape s := s
  curl_easy_perform _ := some body
  cJSON_Parse text := if text = body then some json else none
  memory := .unlimited

/-- It parses the body. -/
theorem fixedReply_parses (body : CString) (json : CJson) :
    (fixedReply body json).cJSON_Parse body = some json := if_pos rfl

/-- A reply with status 402, with the rate information and two results. -/
def quotaReply : CJson :=
  .object [(ofAscii "status", .object [(ofAscii "code", .number 402)]),
    (ofAscii "rate", .object [(ofAscii "limit", .number 2500), (ofAscii "remaining", .number 0),
      (ofAscii "reset", .number 1594771200)]),
    (ofAscii "total_results", .number 2),
    (ofAscii "results", .array [boundedResult, bareResult])]

/-- Its text. -/
def quotaReplyText : CString :=
  ofAscii "\x7b\"status\":\x7b\"code\":402\x7d," ++
    ofAscii "\"rate\":\x7b\"limit\":2500,\"remaining\":0,\"reset\":1594771200\x7d," ++
    ofAscii "\"total_results\":2,\"results\":[\x7b\"confidence\":7,\"bounds\":" ++
    ofAscii "\x7b\"northeast\":\x7b\"lat\":1,\"lng\":2\x7d," ++
    ofAscii "\"southwest\":\x7b\"lat\":0,\"lng\":1\x7d\x7d," ++
    ofAscii "\"geometry\":\x7b\"lat\":0.5,\"lng\":1.5\x7d\x7d,\x7b\"confidence\":9\x7d]\x7d"

/-- The request that is answered so returns, with little memory. -/
theorem doRequest_returns_quota :
    ∃ returned response', doRequest { fixedReply quotaReplyText quotaReply with
        memory := smallMemory } true (ofAscii "x") (ofAscii "k") (ofAscii "u") none
      (some (.zeroed none)) = .ok (returned, response') := by
  generalize quotaReplyText = body
  have hjson : ({ fixedReply body quotaReply with memory := smallMemory } : WebClient).cJSON_Parse
      body = some quotaReply := fixedReply_parses body quotaReply
  refine (doRequest_returns_iff rfl hjson).mpr ⟨⟨⟨_, rfl, _, rfl⟩, ?_, ?_⟩, ?_⟩
  · intro obj h
    obtain rfl := Option.some.inj h
    exact ⟨⟨_, rfl⟩, ⟨_, rfl⟩, _, rfl⟩
  · refine ⟨_, rfl, fun _ => ⟨_, rfl, ?_, by decide⟩⟩
    intro c hc
    rcases List.mem_pair.mp hc with rfl | rfl
    · exact numericResult_boundedResult.wellFormed
    · exact numericResult_bareResult.wellFormed
  · intro total results htotal _ hresults
    obtain rfl := Option.some.inj htotal
    obtain rfl := Option.some.inj hresults
    exact provides_smallMemory (by decide)

/-- The body `{}` fails the assertion on the status. -/
theorem doRequest_aborts_on_empty_object :
    doRequest (fixedReply (ofAscii "\x7b\x7d") (.object [])) true (ofAscii "x") (ofAscii "k")
      (ofAscii "u") none (some (.zeroed none)) = .error (.assertFailed (ofAscii "status")) := rfl

end OcgeoFdw
