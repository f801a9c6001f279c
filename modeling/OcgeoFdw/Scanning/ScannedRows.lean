import OcgeoFdw.Scanning.ConfidencePushdown
import OcgeoFdw.Scanning.Rows

/-! # The rows that the executor gets

The rows of a scan by `scannedRows`, and the calls of `ocgeoIterateForeignScan`: where the transfers
bring the replies of the service, the calls after a start return these rows one after the other
(`iterate_scannedRows`), with the columns that the clauses of the scan compare. -/

namespace OcgeoFdw

open CInt CJson CString

/-- A JSON value carries a reply of the service: its code, and the results if they are listed. A result
is an object with its confidence. -/
structure Carries (json : CJson) (reply : ServiceReply) : Prop where
  status : statusCode json = some reply.code
  results : reply.code = ocgeoCodeOk → ListsResults json (reply.results.map ApiResult.internal)
  confidence : ∀ r ∈ reply.results,
    r.internal.memberNamed (ofAscii "confidence") = some (.number r.confidence)
  fits : ∀ r ∈ reply.results, -2 ^ 31 ≤ r.confidence ∧ r.confidence < 2 ^ 31

/-- The transfer for the request of a start brings the reply of the service. -/
def Brings (inputs : StartInputs) (service : CString → OcgeoParams → ServiceReply)
    (pushed : PushedQuals) : Prop :=
  ∀ query params, pushed.request = some (query, params) →
    ∃ json, replyTo inputs (requestUrl inputs query params) = some json ∧
      Carries json (service query params)

/-- A scan shows the columns of a row that the clauses compare: the query, and the confidence as an
integer. -/
structure RowSource.Shows (services : RowServices) (source : RowSource) (row : ScanRow) : Prop where
  query : ∀ columnTypeId r,
    source.value services queryAttName columnTypeId r = .ok (some (.datum (.text row.q)))
  confidence : ∀ columnTypeId, IsIntegerType columnTypeId → ∀ r : OcgeoResult,
    r.internal = row.result.internal →
      source.value services (ofAscii "confidence") columnTypeId r =
        .ok (some (.datum (intGetDatum row.result.confidence)))

section Scans

variable {services : RowServices} {foreignScan : ForeignScan} {inputs : StartInputs}
  {pushed : PushedQuals} {service : CString → OcgeoParams → ServiceReply} {s s' : Session}
  {sent : Option Sent} {sstate : OcgeoForeignScanState} {b b' : Backend} {events : List Event}
  {outputs : List Output}

/-- Without a request there is no row. -/
theorem scannedRows_of_none (h : pushed.request = none) : scannedRows service pushed = [] := by
  rw [scannedRows]
  simp only [h]

/-- The query of the rows is that of the request, and their results are those of the reply. -/
theorem mem_scannedRows {row : ScanRow} (h : row ∈ scannedRows service pushed) :
    ∃ query params, pushed.request = some (query, params) ∧ row.q = query ∧
      row.result ∈ (service query params).results := by
  rw [scannedRows] at h
  cases hrequest : pushed.request with
  | none => simp [hrequest] at h
  | some answer =>
      obtain ⟨query, params⟩ := answer
      simp only [hrequest] at h
      split_ifs at h
      · obtain ⟨result, hresult, rfl⟩ := List.mem_map.mp h
        exact ⟨query, params, rfl, rfl, hresult⟩
      · cases h

/-- The answer to a start lists the scanned rows. -/
theorem answered_scannedRows
    (hassigned : QueryOperandsAssigned (foreignScan.env inputs) foreignScan.fdw_exprs)
    (hpushed : pushedQuals (foreignScan.env inputs) foreignScan.fdw_exprs = .ok pushed)
    (hbrings : Brings inputs service pushed) :
    Answered foreignScan inputs false
      ((scannedRows service pushed).map fun row => row.result.internal) := by
  cases hrequest : pushed.request with
  | none =>
      rw [scannedRows_of_none hrequest]
      refine .unbound fun hbound => ?_
      obtain ⟨answer, hsome⟩ := (exists_request_iff hassigned hpushed).mpr hbound
      rw [hrequest] at hsome
      cases hsome
  | some answer =>
      obtain ⟨query, params⟩ := answer
      obtain ⟨json, hreply, hcarries⟩ := hbrings query params hrequest
      have hreplied : RequestReplied foreignScan inputs (some json) :=
        ⟨pushed, query, params, hpushed, hrequest, hreply⟩
      rw [scannedRows]
      simp only [hrequest]
      split_ifs with hcode
      · rw [List.map_map]
        exact .found hreplied (hcarries.results hcode)
      · exact .rejected hreplied hcarries.status hcode

/-- A confidence that is a member of a result is read as it is. -/
theorem Carries.value_confidence {json : CJson} {reply : ServiceReply} {source : RowSource}
    {v : CString} {result : ApiResult} {r : OcgeoResult} {columnTypeId : Oid}
    (h : Carries json reply) (hresult : result ∈ reply.results) (hpushes : source.Pushes v)
    (htype : IsIntegerType columnTypeId) (hinternal : r.internal = result.internal) :
    source.value services (ofAscii "confidence") columnTypeId r =
      .ok (some (.datum (intGetDatum result.confidence))) := by
  have htop : AtTopLevel (ofAscii "confidence") := .inl rfl
  have hread : ocgeoResponseGetInt r (fieldPath (ofAscii "confidence")) = some result.confidence := by
    refine ocgeoResponseGetInt_fieldPath_eq_some_iff.mpr ⟨result.confidence, ?_,
      saturatedInt_intCast_eq_self_iff.mpr ?_⟩
    · rw [LeadsTo, if_pos htop, hinternal]
      exact h.confidence result hresult
    · exact h.fits result hresult
  rw [hpushes.value_of_ne (by decide), typedValue_of_isIntegerType htype, hread]
  rfl

/-- **A start shows its rows** in the columns that the clauses compare. -/
theorem shows_of_begin
    (hassigned : QueryOperandsAssigned (foreignScan.env inputs) foreignScan.fdw_exprs)
    (hpushed : pushedQuals (foreignScan.env inputs) foreignScan.fdw_exprs = .ok pushed)
    (hbrings : Brings inputs service pushed)
    (hbegin : ocgeoBeginForeignScan foreignScan inputs false s = .ok (sent, sstate, s')) :
    ∀ row ∈ scannedRows service pushed, sstate.toRowSource.Shows services row := by
  intro row hrow
  obtain ⟨query, params, hrequest, rfl, hresult⟩ := mem_scannedRows hrow
  obtain ⟨json, -, hcarries⟩ := hbrings row.q params hrequest
  have hbound := (exists_request_iff hassigned hpushed).mp ⟨_, hrequest⟩
  obtain ⟨-, -, pushed', v, hpushed', hrequest', hpushes⟩ :=
    pushes_of_begin hassigned hbound hbegin
  obtain rfl := Except.ok.inj (hpushed.symm.trans hpushed')
  obtain ⟨rfl, -⟩ := Prod.mk.inj (Option.some.inj (hrequest.symm.trans hrequest'))
  exact ⟨fun columnTypeId r => hpushes.value_query columnTypeId, fun columnTypeId htype r hinternal =>
    hcarries.value_confidence hresult hpushes htype hinternal⟩

/-- **The rows that the executor gets.** After a start whose transfer brings the reply of the service,
the calls of `ocgeoIterateForeignScan` return the scanned rows one after the other, whatever
other scans do in between, and then empty slots. Every row shows its query and its confidence. -/
theorem iterate_scannedRows {start : Event} {node : ScanNode}
    (hstarts : Starts b start foreignScan inputs false)
    (hassigned : QueryOperandsAssigned (foreignScan.env inputs) foreignScan.fdw_exprs)
    (hcolumns : ∀ column ∈ foreignScan.fdw_private, 1 ≤ column.varattno)
    (hpushed : pushedQuals (foreignScan.env inputs) foreignScan.fdw_exprs = .ok pushed)
    (hbrings : Brings inputs service pushed)
    (hevents : ∀ event ∈ events, event.node = start.node → event.callback = .iterate)
    (hrun : EventRun.run (Backend.step services) b (start :: events) = .ok (outputs, b'))
    (hopen : b'.nodes start.node = some node) :
    (∀ row ∈ scannedRows service pushed, node.fdw_state.toRowSource.Shows services row) ∧
      ∃ output b'', b'.step services ⟨start.node, .iterate⟩ = .ok (output, b'') ∧
        Yields services node.fdw_state.toRowSource output
          ((scannedRows service pushed)[events.countP fun event => event.node = start.node]?.map
            fun row => row.result.internal) := by
  have hanswered := answered_scannedRows hassigned hpushed hbrings
  obtain ⟨sent, sstate, s', hbegin, hserves⟩ :=
    hstarts.exists_serves hassigned hcolumns hanswered hevents hrun hopen
  refine ⟨?_, ?_⟩
  · rw [hserves.same]
    exact shows_of_begin hassigned hpushed hbrings hbegin
  · rw [← List.getElem?_map, ← List.head?_drop]
    exact hserves.step_yields rfl hopen

end Scans

end OcgeoFdw
