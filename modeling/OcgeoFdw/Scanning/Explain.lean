import OcgeoFdw.Api.RequestUrl
import OcgeoFdw.Foundation.Separators
import OcgeoFdw.Scanning.Accounting

/-! # Explaining a scan

`ocgeoExplainForeignScan` shows the query and the minimum confidence of a scan, without quoting
them. `explain_eq_iff_url` states that the text still says which request the scan makes: under one
key and server, the same text is shown exactly for the same URL. -/

namespace OcgeoFdw

open CString QueryString Separators

/-! ## The text -/

/-- The query that is shown, `(null)` without one. -/
def explainedQuery (sstate : OcgeoForeignScanState) : CString :=
  match sstate.qual_value with
  | some qual_value => ofAscii "q='" ++ qual_value ++ ofAscii "'"
  | none => ofAscii "q=(null)"

/-- `ocgeoExplainForeignScan`: the property with the label `OpenCageData API query`. -/
def ocgeoExplainForeignScan (sstate : OcgeoForeignScanState) : CString :=
  let q := explainedQuery sstate
  if sstate.min_confidence ≠ 0 then
    q ++ ofAscii " min_confidence=" ++ showInt sstate.min_confidence
  else q

/-- A number has no byte but digits and a minus sign in its text. -/
theorem of_mem_showInt {n : ℤ} {c : UInt8} (h : c ∈ showInt n) :
    c = 45 ∨ (48 ≤ c.toNat ∧ c.toNat ≤ 57) := by
  rw [showInt, ofAscii_toString_int] at h
  split at h
  · exact .inr (of_mem_toString_nat h)
  · rcases List.mem_cons.mp h with rfl | h
    · exact .inl rfl
    · exact .inr (of_mem_toString_nat h)

/-- A byte that stands in no number. -/
theorem notMem_showInt {c : UInt8} (hc : ¬(c = 45 ∨ (48 ≤ c.toNat ∧ c.toNat ≤ 57))) (n : ℤ) :
    c ∉ showInt n := fun h => hc (of_mem_showInt h)

/-- Reading the digits of a natural number gives it back. -/
theorem magnitude_toString (n : ℕ) :
    magnitude 10 (spanDigits 10 (ofAscii (toString n))).1 = n := by
  rw [ofAscii_toString_nat, spanDigits_of_isDigit fun c hc =>
    Nat.isDigit_of_mem_toDigits (by norm_num) (by norm_num) hc, magnitude_ofDigitChars,
    Nat.ofDigitChars_ten_toDigits]

/-- Different numbers have different texts. -/
theorem showInt_inj {m n : ℤ} : showInt m = showInt n ↔ m = n := by
  refine ⟨fun h => ?_, congrArg showInt⟩
  have hdigits : ∀ {j k : ℕ}, ofAscii (toString j) = ofAscii (toString k) → j = k := by
    intro j k heq
    rw [← magnitude_toString j, heq, magnitude_toString]
  have hminus : ∀ j k : ℕ, ofAscii (toString j) ≠ 45 :: ofAscii (toString k) := by
    intro j k heq
    have hbyte := of_mem_toString_nat (heq ▸ List.mem_cons_self : (45 : UInt8) ∈ _)
    exact absurd hbyte.1 (by decide)
  rw [showInt, showInt, ofAscii_toString_int, ofAscii_toString_int] at h
  split at h <;> split at h
  · have := hdigits h
    omega
  · exact absurd h (hminus _ _)
  · exact absurd h.symm (hminus _ _)
  · have := hdigits (List.cons.inj h).2
    omega

/-- A number has a text. -/
theorem showInt_ne_nil (n : ℤ) : showInt n ≠ [] := by
  rw [showInt, ofAscii_toString_int]
  split
  · rw [ofAscii_toString_nat]
    simp
  · exact List.cons_ne_nil _ _

/-- What is shown of the query ends in a quote or a parenthesis, and so in no number. -/
theorem explainedQuery_ne_append (sstate : OcgeoForeignScanState) (s : CString) (n : ℤ) :
    explainedQuery sstate ≠ s ++ showInt n := by
  intro h
  obtain ⟨start, c, hends, hc⟩ :
      ∃ start c, explainedQuery sstate = start ++ [c] ∧ (c = 39 ∨ c = 41) := by
    rw [explainedQuery]
    split
    · exact ⟨_, 39, rfl, .inl rfl⟩
    · exact ⟨ofAscii "q=(null", 41, rfl, .inr rfl⟩
  rcases List.eq_nil_or_concat (showInt n) with hnil | ⟨digits, d, hdigits⟩
  · exact showInt_ne_nil n hnil
  · rw [hends, hdigits, List.concat_eq_append, ← List.append_assoc] at h
    obtain rfl := List.singleton_inj.mp (List.append_inj' h rfl).2
    have hmem : c ∈ showInt n := by
      rw [hdigits, List.concat_eq_append]
      exact List.mem_append_right digits (List.mem_singleton_self c)
    rcases hc with rfl | rfl
    · exact notMem_showInt (by decide) n hmem
    · exact notMem_showInt (by decide) n hmem

/-- The query that is shown is the query of the scan. -/
theorem explainedQuery_inj {sstate sstate' : OcgeoForeignScanState} :
    explainedQuery sstate = explainedQuery sstate' ↔ sstate.qual_value = sstate'.qual_value := by
  refine ⟨fun h => ?_, fun h => by rw [explainedQuery, explainedQuery, h]⟩
  rw [explainedQuery, explainedQuery] at h
  cases hvalue : sstate.qual_value with
  | none =>
      cases hvalue' : sstate'.qual_value with
      | none => rfl
      | some v => simp [hvalue, hvalue', ofAscii] at h
  | some v =>
      cases hvalue' : sstate'.qual_value with
      | none => simp [hvalue, hvalue', ofAscii] at h
      | some v' =>
          simp only [hvalue, hvalue', List.append_assoc] at h
          exact congrArg some (List.append_cancel_right (List.append_cancel_left h))

/-- **The text determines** the query and the minimum confidence, although a query may hold quotes,
blanks and signs of equality. -/
theorem ocgeoExplainForeignScan_inj {sstate sstate' : OcgeoForeignScanState} :
    ocgeoExplainForeignScan sstate = ocgeoExplainForeignScan sstate' ↔
      sstate.qual_value = sstate'.qual_value ∧
        sstate.min_confidence = sstate'.min_confidence := by
  have hlabel : ∀ (s : CString) (n : ℤ), s ++ ofAscii " min_confidence=" ++ showInt n =
      (s ++ ofAscii " min_confidence") ++ 61 :: showInt n := by
    intro s n
    simp [ofAscii]
  have hnumber : ∀ n : ℤ, (61 : UInt8) ∉ showInt n := notMem_showInt (by decide)
  refine ⟨fun h => ?_, fun h => ?_⟩
  · unfold ocgeoExplainForeignScan at h
    simp only at h
    split at h <;> split at h
    -- both show a number, behind the last sign of equality
    · rw [hlabel, hlabel] at h
      obtain ⟨hquery, hshown⟩ :=
        (append_cons_inj_of_last (hnumber _) (hnumber _)).mp h
      exact ⟨explainedQuery_inj.mp (List.append_cancel_right hquery), showInt_inj.mp hshown⟩
    · exact absurd h.symm (explainedQuery_ne_append _ _ _)
    · exact absurd h (explainedQuery_ne_append _ _ _)
    · rename_i hzero hzero'
      rw [not_not] at hzero hzero'
      exact ⟨explainedQuery_inj.mp h, hzero.trans hzero'.symm⟩
  · unfold ocgeoExplainForeignScan
    rw [explainedQuery_inj.mpr h.1, h.2]

/-! ## The URL -/

/-- The URL of a scan with this query and minimum confidence. -/
def scanUrl (api : OcgeoApi) (query : CString) (min_confidence : ℤ) : CString :=
  api.server ++ 63 :: render
    ((ofAscii "q", percentEncode query) ::
      otherParameters api.api_key true (requestParams min_confidence))

/-- The parameters of a scan behind the limit. -/
def lastParameters (m : ℤ) : CString :=
  (if m ≠ 0 then ofAscii "&min_confidence=" ++ showInt m else []) ++ ofAscii "&no_annotations=0"

/-- The URL of a scan, in its parts. -/
theorem scanUrl_eq (api : OcgeoApi) (query : CString) (m : ℤ) :
    scanUrl api query m = api.server ++ ofAscii "?q=" ++ (percentEncode query ++
      38 :: (ofAscii "key=" ++ api.api_key ++ ofAscii "&limit=" ++ showInt maxResultsRequested ++
        lastParameters m)) := by
  have hproximity : ocgeoIsValidLatlng ocgeoInvalidPoint = false := by decide
  rw [scanUrl, render_cons, lastParameters]
  by_cases hm : m = 0 <;>
    simp [otherParameters, requestParams, ocgeoDefaultParams, hproximity, hm, piece, ofAscii,
      maxResultsRequested]

/-- The parameters behind the limit determine the minimum confidence. -/
theorem lastParameters_inj {m m' : ℤ} : lastParameters m = lastParameters m' ↔ m = m' := by
  have hsplit : ∀ n : ℤ, ofAscii "&min_confidence=" ++ showInt n ++ ofAscii "&no_annotations=0" =
      ofAscii "&min_confidence=" ++ (showInt n ++ 38 :: ofAscii "no_annotations=0") := by
    intro n
    simp [ofAscii]
  -- the names differ behind the `&`
  have hnames : ∀ s : CString, ofAscii "&min_confidence=" ++ s ≠ ofAscii "&no_annotations=0" := by
    intro s h
    simp [ofAscii] at h
  have hnumber : ∀ n : ℤ, (38 : UInt8) ∉ showInt n := notMem_showInt (by decide)
  refine ⟨fun h => ?_, congrArg lastParameters⟩
  unfold lastParameters at h
  split at h <;> split at h
  · rw [hsplit, hsplit] at h
    have hshown := (append_cons_inj_of_first (hnumber m) (hnumber m')).mp
      (List.append_cancel_left h)
    exact showInt_inj.mp hshown.1
  · rw [hsplit] at h
    exact absurd h (hnames _)
  · rw [hsplit] at h
    exact absurd h.symm (hnames _)
  · rename_i hzero hzero'
    rw [not_not] at hzero hzero'
    exact hzero.trans hzero'.symm

/-- **The URL determines** the query and the minimum confidence. -/
theorem scanUrl_inj {api : OcgeoApi} {query query' : CString} {m m' : ℤ} :
    scanUrl api query m = scanUrl api query' m' ↔ query = query' ∧ m = m' := by
  refine ⟨fun h => ?_, fun h => by rw [h.1, h.2]⟩
  have hampersand : ∀ s, (38 : UInt8) ∉ percentEncode s := fun s hmem =>
    (ne_of_mem_percentEncode hmem).1 rfl
  rw [scanUrl_eq, scanUrl_eq] at h
  obtain ⟨hquery, hrest⟩ := (append_cons_inj_of_first (hampersand query) (hampersand query')).mp
    (List.append_cancel_left h)
  refine ⟨?_, lastParameters_inj.mp (List.append_cancel_left hrest)⟩
  rw [← percentDecode_percentEncode query, hquery, percentDecode_percentEncode]

/-! ## The request of a scan -/

/-- A scan that sent a request holds the URL of its own query and minimum confidence. -/
def OcgeoForeignScanState.Requested (sstate : OcgeoForeignScanState) : Prop :=
  ∀ api, sstate.api = some api → ∃ query, sstate.qual_value = some query ∧
    sstate.response.url = some (scanUrl api query sstate.min_confidence)

/-- The client escapes a text as libcurl does. -/
def EscapesText (inputs : StartInputs) : Prop :=
  ∀ text, inputs.client.curl_easy_escape text = percentEncode text

section Requests

variable {services : RowServices} {foreignScan : ForeignScan} {inputs : StartInputs}
  {explain_only : Bool} {s s' t t' : Session} {shown sstate : OcgeoForeignScanState}

/-- The response holds the URL that was requested, whatever the reply. -/
theorem Forwards.url_eq {memory : ReplyMemory} {reply : Option CJson} {url : CString}
    {before : OcgeoResponse} {forward : Forwarded} (h : Forwards memory reply url before forward) :
    forward.response.url = some url := by
  cases h with
  | noReply _ => rfl
  | parsed _ hparse => exact url_of_parseResponseJson hparse

/-- A start requests the URL of its query and its minimum confidence. -/
theorem requested_of_begin {sent : Option Sent} (hescape : EscapesText inputs)
    (h : ocgeoBeginForeignScan foreignScan inputs explain_only s = .ok (sent, sstate, s')) :
    sstate.Requested := by
  obtain ⟨mappings, pushed, -, -, ⟨-, -, -, rfl⟩ | ⟨query, params, sent', -, hrequest, -, hsend⟩⟩ :=
    ocgeoBeginForeignScan_eq_ok h
  · intro api hapi
    cases hapi
  · obtain ⟨forward, hforwards, -, rfl⟩ := sendRequest_eq_ok hsend
    intro api hapi
    obtain rfl := Option.some.inj hapi
    obtain ⟨text, htext, hpair⟩ := Option.map_eq_some_iff.mp hrequest
    obtain ⟨rfl, rfl⟩ := Prod.mk.inj hpair
    refine ⟨text, htext, hforwards.url_eq.trans ?_⟩
    rw [requestUrl, ocgeoServerRequestUriImpl_eq, hescape, scanUrl]
    rfl

/-- Explaining shows of a plan what running it shows. -/
theorem explain_of_begin {sent sent' : Option Sent}
    (h : ocgeoBeginForeignScan foreignScan inputs true s = .ok (sent, shown, s'))
    (h' : ocgeoBeginForeignScan foreignScan inputs false t = .ok (sent', sstate, t')) :
    ocgeoExplainForeignScan shown = ocgeoExplainForeignScan sstate := by
  obtain ⟨mappings, pushed, hmappings, hpushed, ⟨-, -, -, rfl⟩ | ⟨-, -, -, hfalse, -⟩⟩ :=
    ocgeoBeginForeignScan_eq_ok h
  · obtain ⟨mappings', pushed', hmappings', hpushed', hstate⟩ := ocgeoBeginForeignScan_eq_ok h'
    obtain rfl := Except.ok.inj (hpushed.symm.trans hpushed')
    rw [ocgeoExplainForeignScan_inj]
    rcases hstate with ⟨-, -, -, rfl⟩ | ⟨query, params, sent₁, -, -, -, hsend⟩
    · exact ⟨rfl, rfl⟩
    · obtain ⟨forward, -, -, rfl⟩ := sendRequest_eq_ok hsend
      exact ⟨rfl, rfl⟩
  · cases hfalse

/-! ## A session -/

/-- What a callback reads for a start. -/
def Callback.startInputs : Callback → Option StartInputs
  | .beginScan _ inputs _ => some inputs
  | .iterate => none
  | .reScan inputs => some inputs
  | .endScan => none

/-- The start of an event, if it is one, escapes its texts as libcurl does. -/
def StartEscapes (event : Event) : Prop :=
  ∀ inputs, event.callback.startInputs = some inputs → EscapesText inputs

/-- A start reads the inputs of its event. -/
theorem Starts.startInputs_eq {b : Backend} {event : Event}
    (h : Starts b event foreignScan inputs explain_only) :
    event.callback.startInputs = some inputs := by
  rcases h with hbegin | ⟨-, hrescan, -⟩
  · rw [hbegin]
    rfl
  · rw [hrescan]
    rfl

variable {clock : List Timeval} {events : List Event} {outputs : List Output} {b b' : Backend}

/-- A step keeps every open scan at the URL of its own query. -/
theorem requested_of_step {event : Event} {output : Output}
    (hrequested : ∀ node scan, b.nodes node = some scan → scan.fdw_state.Requested)
    (hescape : StartEscapes event) (hstep : b.step services event = .ok (output, b')) :
    ∀ node scan, b'.nodes node = some scan → scan.fdw_state.Requested := by
  obtain ⟨scan?, hnodes, hcases⟩ := Backend.step_cases hstep
  intro node scan hopen
  rw [hnodes] at hopen
  by_cases hnode : node = event.node
  · subst hnode
    rw [Function.update_self] at hopen
    subst hopen
    rcases hcases with
      ⟨foreignScan, inputs, explain_only, sent, sstate, hstarts, hbegin, -, hscan⟩ |
      ⟨before, row, sstate, -, hbefore, hiterate, -, -, hscan⟩ | ⟨-, -, -, hscan⟩ | ⟨-, -, -, hscan⟩
    · obtain rfl := Option.some.inj hscan
      exact requested_of_begin (hescape inputs hstarts.startInputs_eq) hbegin
    · obtain rfl := Option.some.inj hscan
      obtain ⟨cursor, rfl⟩ := moves_of_ocgeoIterateForeignScan hiterate
      exact hrequested event.node before hbefore
    · cases hscan
    · cases hscan
  · rw [Function.update_of_ne hnode] at hopen
    exact hrequested node scan hopen

/-- **What EXPLAIN says.** At any point of a session, and however far an open scan has been fetched
from, the text that is shown for a plan without running it is the text of the scan exactly if
running the plan, under the key and the server of the scan, requests the URL that the scan
requested. -/
theorem explain_eq_iff_url {sent : Option Sent} {sent' : Sent} {node : ℕ} {scan : ScanNode}
    (hescape : EscapesText inputs)
    (hexplain : ocgeoBeginForeignScan foreignScan inputs true s = .ok (sent, shown, s'))
    (hrequest : ocgeoBeginForeignScan foreignScan inputs false t = .ok (some sent', sstate, t'))
    (hescapes : ∀ event ∈ events, StartEscapes event)
    (hrun : EventRun.run (Backend.step services) (.start clock) events = .ok (outputs, b))
    (hopen : b.nodes node = some scan) (hapi : scan.fdw_state.api = sstate.api) :
    ocgeoExplainForeignScan shown = ocgeoExplainForeignScan scan.fdw_state ↔
      sstate.response.url = scan.fdw_state.response.url := by
  have hrequested : scan.fdw_state.Requested :=
    EventRun.Along.invariant (I := fun b : Backend => ∀ node scan, b.nodes node = some scan →
      scan.fdw_state.Requested) (P := fun _ event => StartEscapes event) requested_of_step
      (fun _ _ h => by cases h) (EventRun.along_of_forall_mem hescapes _) hrun node scan hopen
  obtain ⟨mappings, pushed, -, -, ⟨-, hnone, -⟩ | ⟨query, params, sent₁, -, -, -, hsend⟩⟩ :=
    ocgeoBeginForeignScan_eq_ok hrequest
  · cases hnone
  · obtain ⟨api, hsome⟩ : ∃ api, sstate.api = some api := by
      obtain ⟨forward, -, -, rfl⟩ := sendRequest_eq_ok hsend
      exact ⟨_, rfl⟩
    obtain ⟨query₁, hquery₁, hurl₁⟩ := requested_of_begin hescape hrequest api hsome
    obtain ⟨query₂, hquery₂, hurl₂⟩ := hrequested api (hapi.trans hsome)
    rw [explain_of_begin hexplain hrequest, ocgeoExplainForeignScan_inj, hquery₁, hquery₂, hurl₁,
      hurl₂, Option.some_inj, Option.some_inj, scanUrl_inj]

end Requests

/-- A start without a reply. -/
def offlineInputs : StartInputs where
  params := queryTable.params
  unassigned := queryTable.unassigned
  table_options := ⟨1, 10, none, none, 2, 2500⟩
  client := offlineClient

/-- The same query with a minimum confidence, explained beside an open scan without one. -/
theorem explain_eq_iff_url_confidence :
    ∃ shown sstate scan : OcgeoForeignScanState,
      ocgeoExplainForeignScan shown = ofAscii "q='x' min_confidence=5" ∧
      ocgeoExplainForeignScan scan = ofAscii "q='x'" ∧
      (ocgeoExplainForeignScan shown = ocgeoExplainForeignScan scan ↔
        sstate.response.url = scan.response.url) := by
  have hrun : ∃ outputs b scan, EventRun.run (Backend.step acceptingServices)
      (.start [⟨0, 0⟩, ⟨0, 0⟩, ⟨0, 0⟩])
      [⟨0, .beginScan queryScan offlineInputs false⟩, ⟨0, .iterate⟩] = .ok (outputs, b) ∧
        b.nodes 0 = some scan ∧ ocgeoExplainForeignScan scan.fdw_state = ofAscii "q='x'" ∧
        scan.fdw_state.api = some (ocgeoInit none none) :=
    ⟨_, _, _, rfl, rfl, by decide, rfl⟩
  have hexplain : ∃ sent shown s', ocgeoBeginForeignScan
      { queryScan with fdw_exprs := [queryEqualsText, confidenceAtLeast 5] } offlineInputs true
        (.start []) = .ok (sent, shown, s') ∧
      ocgeoExplainForeignScan shown = ofAscii "q='x' min_confidence=5" :=
    ⟨_, _, _, rfl, by decide⟩
  have hrequest : ∃ sent sstate s', ocgeoBeginForeignScan
      { queryScan with fdw_exprs := [queryEqualsText, confidenceAtLeast 5] } offlineInputs false
        (.start [⟨0, 0⟩, ⟨0, 0⟩, ⟨0, 0⟩]) = .ok (some sent, sstate, s') ∧
      sstate.api = some (ocgeoInit none none) :=
    ⟨_, _, _, rfl, rfl⟩
  obtain ⟨outputs, b, scan, hrun, hopen, hshows, hapi⟩ := hrun
  obtain ⟨sent, shown, s', hexplain, htext⟩ := hexplain
  obtain ⟨sent', sstate, t', hrequest, hapi'⟩ := hrequest
  refine ⟨shown, sstate, scan.fdw_state, htext, hshows, ?_⟩
  refine explain_eq_iff_url (fun _ => rfl) hexplain hrequest ?_ hrun hopen (hapi.trans hapi'.symm)
  simp only [List.forall_mem_cons, List.not_mem_nil, false_imp_iff, implies_true, and_true]
  refine ⟨fun inputs h => ?_, fun inputs h => ?_⟩
  · obtain rfl := Option.some.inj h
    exact fun _ => rfl
  · cases h

end OcgeoFdw
