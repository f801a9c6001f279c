import OcgeoFdw.RateLimiting.Stats
import OcgeoFdw.Scanning.Cursor

/-! # The accounting of a session

`usage_counts` states that the counters of every user stay in step with its requests, in whatever
order the callbacks of the scans of any number of users come: a call is a start that binds a query,
and a success is a call whose reply has status 200. -/

namespace OcgeoFdw

open CInt

/-! ## Calls and successes -/

/-- What happened in a step of a backend: the backend before it, the event and the output. -/
abbrev Occurrence := Backend × Event × Output

/-- What happens in a run of a new backend. -/
abbrev history (services : RowServices) (clock : List Timeval) (events : List Event) :
    List Occurrence :=
  EventRun.trace (Backend.step services) (.start clock) events

/-- A start for the user, with this plan and these inputs, that does more than explain, returns and
has a query bound. A start that raises an error does so before it binds the values. -/
structure BindingStart (user_id : Oid) (occurrence : Occurrence) (foreignScan : ForeignScan)
    (inputs : StartInputs) : Prop where
  starts : Starts occurrence.1 occurrence.2.1 foreignScan inputs false
  returned : ∃ sent, occurrence.2.2 = .started sent
  user : inputs.table_options.user_id = user_id
  binds : BindsQuery (foreignScan.env inputs) foreignScan.fdw_exprs

/-- The reply to the request of a start was parsed and has status 200. -/
def Succeeds (foreignScan : ForeignScan) (inputs : StartInputs) : Prop :=
  ∃ json, RequestReplied foreignScan inputs (some json) ∧ statusCode json = some ocgeoCodeOk

/-- A call of the user. -/
def IsCall (user_id : Oid) (occurrence : Occurrence) : Prop :=
  ∃ foreignScan inputs, BindingStart user_id occurrence foreignScan inputs

/-- A call of the user that succeeds. -/
def IsSuccess (user_id : Oid) (occurrence : Occurrence) : Prop :=
  ∃ foreignScan inputs, BindingStart user_id occurrence foreignScan inputs ∧
    Succeeds foreignScan inputs

section Counts

open scoped Classical

/-- How many calls of the user there were. -/
noncomputable def callCount (user_id : Oid) (occurrences : List Occurrence) : ℕ :=
  occurrences.countP fun occurrence => IsCall user_id occurrence

/-- How many of them succeeded. -/
noncomputable def successCount (user_id : Oid) (occurrences : List Occurrence) : ℕ :=
  occurrences.countP fun occurrence => IsSuccess user_id occurrence

/-- How many of them did not. -/
noncomputable def failureCount (user_id : Oid) (occurrences : List Occurrence) : ℕ :=
  occurrences.countP fun occurrence =>
    IsCall user_id occurrence ∧ ¬ IsSuccess user_id occurrence

variable {user_id : Oid} {occurrence : Occurrence}

/-- A success is a call. -/
theorem IsSuccess.isCall (h : IsSuccess user_id occurrence) : IsCall user_id occurrence := by
  obtain ⟨foreignScan, inputs, hstart, -⟩ := h
  exact ⟨foreignScan, inputs, hstart⟩

/-- Every call succeeds or fails. -/
theorem successCount_add_failureCount (user_id : Oid) (occurrences : List Occurrence) :
    successCount user_id occurrences + failureCount user_id occurrences =
      callCount user_id occurrences := by
  rw [successCount, failureCount, callCount]
  induction occurrences with
  | nil => rfl
  | cons occurrence occurrences ih =>
      rw [List.countP_cons, List.countP_cons, List.countP_cons, ← ih]
      by_cases hcall : IsCall user_id occurrence
      · by_cases hsuccess : IsSuccess user_id occurrence
        · simp only [hcall, hsuccess, decide_true, not_true, and_false, decide_false, if_true]
          simp only [Bool.false_eq_true, if_false]
          omega
        · simp only [hcall, hsuccess, decide_true, not_false_eq_true, and_self, decide_false,
            if_true, Bool.false_eq_true, if_false]
          omega
      · have hsuccess : ¬ IsSuccess user_id occurrence := fun h => hcall h.isCall
        simp [hcall, hsuccess]

end Counts

/-! ## What a step counts -/

section Accounting

variable {services : RowServices} {foreignScan : ForeignScan} {inputs : StartInputs}
  {explain_only : Bool} {s s' : Session} {sstate : OcgeoForeignScanState} {b b' : Backend}
  {event : Event} {output : Output} {user_id : Oid}

/-- Whether a request succeeds is told by the reply to it. -/
theorem ok_iff_succeeds {memory : ReplyMemory} {reply : Option CJson} {url : CString}
    {before : OcgeoResponse} {forward : Forwarded}
    (hreplied : ∀ reply', RequestReplied foreignScan inputs reply' ↔ reply = reply')
    (hforwards : Forwards memory reply url before forward) :
    (forward.ok && ocgeoResponseOk forward.response) = true ↔ Succeeds foreignScan inputs := by
  rw [hforwards.ok_iff]
  constructor
  · rintro ⟨json, hreply, hcode⟩
    exact ⟨json, (hreplied _).mpr hreply, hcode⟩
  · rintro ⟨json, hreply, hcode⟩
    exact ⟨json, (hreplied _).mp hreply, hcode⟩

/-- **What a start counts**: nothing, or one request if it does more than explain and binds a
query. -/
theorem begin_request {sent : Option Sent}
    (hassigned : explain_only = false →
      QueryOperandsAssigned (foreignScan.env inputs) foreignScan.fdw_exprs)
    (h : ocgeoBeginForeignScan foreignScan inputs explain_only s = .ok (sent, sstate, s')) :
    ((explain_only = true ∨ ¬ BindsQuery (foreignScan.env inputs) foreignScan.fdw_exprs) ∧
        s' = s) ∨
      (explain_only = false ∧ BindsQuery (foreignScan.env inputs) foreignScan.fdw_exprs ∧
        ∃ forward e, request s ⟨inputs.table_options, forward⟩ = .ok (e, s') ∧
          ((forward.ok && ocgeoResponseOk forward.response) = true ↔
            Succeeds foreignScan inputs)) := by
  obtain ⟨mappings, pushed, -, -, ⟨hnone, -, hsession, -⟩ | ⟨hstarted, hbound, -, reply, url, forward,
    e, hreplied, hforwards, hrequest, -⟩⟩ := begin_sends hassigned h
  · exact .inl ⟨hnone, hsession⟩
  · exact .inr ⟨hstarted, hbound, forward, e, hrequest, ok_iff_succeeds hreplied hforwards⟩

/-- The clauses on `q` of an event that starts a scan compare it with constants and parameters. -/
def StartOperandsAssigned (b : Backend) (event : Event) : Prop :=
  ∀ foreignScan inputs, Starts b event foreignScan inputs false →
    QueryOperandsAssigned (foreignScan.env inputs) foreignScan.fdw_exprs

/-- **What a step counts** for a user: a call is a request of the user, and anything else keeps the
entry of the user. -/
theorem step_counts (hassigned : StartOperandsAssigned b event)
    (h : b.step services event = .ok (output, b')) (user_id : Oid) :
    (¬ IsCall user_id (b, event, output) ∧
        b'.session.counters user_id = b.session.counters user_id) ∨
      (IsCall user_id (b, event, output) ∧ ∃ call e, call.table_options.user_id = user_id ∧
        request b.session call = .ok (e, b'.session) ∧
        ((call.forward.ok && ocgeoResponseOk call.forward.response) = true ↔
          IsSuccess user_id (b, event, output))) := by
  obtain ⟨node, -, hcases⟩ := Backend.step_cases h
  rcases hcases with ⟨foreignScan, inputs, explain_only, sent, sstate, hstarts, hbegin, rfl, -⟩ |
    ⟨before, row, sstate, hiterate, -, -, hsession, -⟩ | ⟨hend, hsession, -⟩ |
    ⟨stop, hsession, rfl, -⟩
  · rcases begin_request (fun hfalse => hassigned _ _ (hfalse ▸ hstarts)) hbegin with
      ⟨hnone, hsession⟩ | ⟨rfl, hbinds, forward, e, hrequest, hok⟩
    · refine .inl ⟨?_, by rw [hsession]⟩
      rintro ⟨foreignScan', inputs', hstart⟩
      obtain ⟨rfl, rfl, rfl⟩ := hstarts.unique hstart.starts
      exact hnone.elim nofun fun hunbound => hunbound hstart.binds
    · by_cases huser : inputs.table_options.user_id = user_id
      · have hstart : BindingStart user_id (b, event, .started sent) foreignScan inputs :=
          ⟨hstarts, ⟨sent, rfl⟩, huser, hbinds⟩
        refine .inr ⟨⟨foreignScan, inputs, hstart⟩, _, e, huser, hrequest, hok.trans ?_⟩
        constructor
        · exact fun hsucceeds => ⟨foreignScan, inputs, hstart, hsucceeds⟩
        · rintro ⟨foreignScan', inputs', hstart', hsucceeds⟩
          obtain ⟨rfl, rfl, -⟩ := hstarts.unique hstart'.starts
          exact hsucceeds
      -- the request is another user's
      · refine .inl ⟨?_, request_counters_of_ne hrequest (Ne.symm huser)⟩
        rintro ⟨foreignScan', inputs', hstart⟩
        obtain ⟨rfl, rfl, -⟩ := hstarts.unique hstart.starts
        exact huser hstart.user
  · refine .inl ⟨?_, by rw [hsession]⟩
    rintro ⟨foreignScan, inputs, hstart⟩
    exact hstart.starts.callback_ne.1 hiterate
  · refine .inl ⟨?_, by rw [hsession]⟩
    rintro ⟨foreignScan, inputs, hstart⟩
    exact hstart.starts.callback_ne.2 hend
  · refine .inl ⟨?_, by rw [hsession]⟩
    rintro ⟨foreignScan, inputs, hstart⟩
    obtain ⟨sent, hsent⟩ := hstart.returned
    cases hsent

/-- What a step keeps: fetching a row, ending a scan and explaining touch no entry, and a start
touches no entry of another user. -/
theorem step_keeps (h : b.step services event = .ok (output, b')) :
    (event.callback = .iterate ∨ event.callback = .endScan ∨
        (∃ foreignScan inputs, event.callback = .beginScan foreignScan inputs true) →
      b'.session = b.session) ∧
    ∀ foreignScan inputs explain_only, Starts b event foreignScan inputs explain_only →
      ∀ user_id, user_id ≠ inputs.table_options.user_id →
        b'.session.counters user_id = b.session.counters user_id := by
  obtain ⟨node, -, hcases⟩ := Backend.step_cases h
  have hkept : b'.session = b.session → ∀ user_id,
      b'.session.counters user_id = b.session.counters user_id :=
    fun hsession user_id => by rw [hsession]
  rcases hcases with ⟨foreignScan, inputs, explain_only, sent, sstate, hstarts, hbegin, -, -⟩ |
    ⟨_, _, _, -, -, -, hsession, -⟩ | ⟨-, hsession, -⟩ | ⟨-, hsession, -⟩
  · obtain ⟨mappings, pushed, -, -, hsession⟩ := ocgeoBeginForeignScan_eq_ok hbegin
    constructor
    · rintro (hiterate | hend | ⟨foreignScan', inputs', hexplain⟩)
      · exact absurd hiterate hstarts.callback_ne.1
      · exact absurd hend hstarts.callback_ne.2
      · obtain ⟨-, -, rfl⟩ := hstarts.unique (.inl hexplain)
        rcases hsession with ⟨-, -, hsession, -⟩ | ⟨_, _, _, hfalse, -⟩
        · exact hsession
        · cases hfalse
    · intro foreignScan' inputs' explain_only' hstarts' user_id hne
      obtain ⟨rfl, rfl, rfl⟩ := hstarts.unique hstarts'
      rcases hsession with ⟨-, -, hsession, -⟩ | ⟨query, params, sent', -, -, -, hsend⟩
      · rw [hsession]
      · obtain ⟨forward, -, hrequest, -⟩ := sendRequest_eq_ok hsend
        exact request_counters_of_ne hrequest hne
  · exact ⟨fun _ => hsession, fun _ _ _ _ user_id _ => hkept hsession user_id⟩
  · exact ⟨fun _ => hsession, fun _ _ _ _ user_id _ => hkept hsession user_id⟩
  · exact ⟨fun _ => hsession, fun _ _ _ _ user_id _ => hkept hsession user_id⟩

/-! ## Runs -/

variable {clock : List Timeval} {events : List Event} {outputs : List Output}

open scoped Classical in
/-- The calls and the successes that the entry of a user records after a run. -/
theorem records_of_run
    (hassigned : EventRun.Along (Backend.step services) StartOperandsAssigned (.start clock) events)
    (hrun : EventRun.run (Backend.step services) (.start clock) events = .ok (outputs, b))
    (user_id : Oid) :
    b.session.Records Counters.calls user_id
        (callCount user_id (history services clock events)) ∧
      b.session.Records Counters.success_calls user_id
        (successCount user_id (history services clock events)) := by
  constructor
  · have hcounts := EventRun.counts_of_run
      (A := fun (b : Backend) n => b.session.Records Counters.calls user_id n)
      (Q := fun occurrence => decide (IsCall user_id occurrence)) ?_
      (Session.records_start Counters.calls clock user_id) hassigned hrun
    · rw [Nat.zero_add] at hcounts
      exact hcounts
    · intro b event output b' n hrecords hassigned hstep
      rcases step_counts hassigned hstep user_id with
        ⟨hnot, hkept⟩ | ⟨hcall, call, e, rfl, hrequest, -⟩
      · rw [if_neg (by simpa using hnot)]
        exact hrecords.of_counters_eq hkept
      · rw [if_pos (by simpa using hcall)]
        exact hrecords.request_calls hrequest
  · have hcounts := EventRun.counts_of_run
      (A := fun (b : Backend) n => b.session.Records Counters.success_calls user_id n)
      (Q := fun occurrence => decide (IsSuccess user_id occurrence)) ?_
      (Session.records_start Counters.success_calls clock user_id) hassigned hrun
    · rw [Nat.zero_add] at hcounts
      exact hcounts
    · intro b event output b' n hrecords hassigned hstep
      rcases step_counts hassigned hstep user_id with
        ⟨hnot, hkept⟩ | ⟨-, call, e, rfl, hrequest, hok⟩
      · rw [if_neg (by simpa using fun h : IsSuccess user_id _ => hnot h.isCall)]
        exact hrecords.of_counters_eq hkept
      · have hrecords' := hrecords.request_success_calls hrequest
        by_cases hsuccess : IsSuccess call.table_options.user_id (b, event, output)
        · rw [if_pos (by simpa using hsuccess)]
          rw [if_pos (hok.mpr hsuccess)] at hrecords'
          exact hrecords'
        · rw [if_neg (by simpa using hsuccess)]
          rw [if_neg fun h => hsuccess (hok.mp h)] at hrecords'
          exact hrecords'

/-- **The accounting.** In a run from a new backend, in which the clauses on `q` compare it with
constants and parameters, every user with fewer than `2 ^ 31` calls has them counted: no entry
without a call, and otherwise `calls` is the number of its calls, `success_calls` that of the
successes, and `ocgeo_stats` reports the others as failed. A fetch, an end and an explanation change
no counter, and a start changes no entry of another user. -/
theorem usage_counts
    (hassigned : EventRun.Along (Backend.step services) StartOperandsAssigned (.start clock) events)
    (hrun : EventRun.run (Backend.step services) (.start clock) events = .ok (outputs, b)) :
    (∀ user_id, callCount user_id (history services clock events) < 2 ^ 31 →
      (b.session.counters user_id = none ∧ callCount user_id (history services clock events) = 0) ∨
        ∃ counters, b.session.counters user_id = some counters ∧
          counters.calls = callCount user_id (history services clock events) ∧
          counters.success_calls = successCount user_id (history services clock events) ∧
          0 ≤ counters.success_calls ∧ counters.success_calls ≤ counters.calls ∧
          (ocgeoStatsRow counters).nbr_calls =
            callCount user_id (history services clock events) ∧
          (ocgeoStatsRow counters).nbr_failed =
            failureCount user_id (history services clock events)) ∧
    ∀ (b : Backend) (event : Event) (output : Output) (b' : Backend),
      b.step services event = .ok (output, b') →
      (event.callback = .iterate ∨ event.callback = .endScan ∨
          (∃ foreignScan inputs, event.callback = .beginScan foreignScan inputs true) →
        b'.session = b.session) ∧
      ∀ foreignScan inputs explain_only, Starts b event foreignScan inputs explain_only →
        ∀ user_id, user_id ≠ inputs.table_options.user_id →
          b'.session.counters user_id = b.session.counters user_id := by
  refine ⟨?_, fun b event output b' hstep => step_keeps hstep⟩
  intro user_id hfew
  obtain ⟨hcalls, hsuccesses⟩ := records_of_run hassigned hrun user_id
  have hsum := successCount_add_failureCount user_id (history services clock events)
  rw [Session.Records] at hcalls hsuccesses
  cases hentry : b.session.counters user_id with
  | none =>
      rw [hentry] at hcalls
      exact .inl ⟨rfl, hcalls⟩
  | some counters =>
      rw [hentry] at hcalls hsuccesses
      simp only at hcalls hsuccesses
      rw [toInt32_natCast hfew] at hcalls
      rw [toInt32_natCast (by omega)] at hsuccesses
      have hfailed : (ocgeoStatsRow counters).nbr_failed =
          toInt32 (counters.calls - counters.success_calls) := rfl
      rw [hcalls, hsuccesses, ← hsum, Nat.cast_add, add_sub_cancel_left,
        toInt32_natCast (by omega)] at hfailed
      exact .inr ⟨counters, rfl, hcalls, hsuccesses, by omega, by omega, hcalls, hfailed⟩

end Accounting

/-- Three scans of two users, from their starts to the end of two of them. -/
def accountedEvents : List Event :=
  openedEvents ++ rescanEvent :: interleavedEvents ++ [⟨0, .endScan⟩, ⟨1, .endScan⟩]

/-- The clauses of all these scans are `q = 'x'`. -/
theorem along_startOperandsAssigned :
    EventRun.Along (Backend.step acceptingServices) StartOperandsAssigned
      (.start interleavedClock) accountedEvents := by
  have hquery : ∀ (inputs : StartInputs),
      QueryOperandsAssigned (queryScan.env inputs) queryScan.fdw_exprs :=
    fun _ => queryOperandsAssigned_queryEqualsText rfl rfl
  have hother : ∀ {b : Backend} {event : Event},
      event.callback = .iterate ∨ event.callback = .endScan → StartOperandsAssigned b event := by
    rintro b event hcallback foreignScan inputs hstarts
    rcases hcallback with hiterate | hend
    · exact absurd hiterate hstarts.callback_ne.1
    · exact absurd hend hstarts.callback_ne.2
  have hbegin : ∀ {b : Backend} {node : ℕ} {inputs : StartInputs} {explain_only : Bool},
      StartOperandsAssigned b ⟨node, .beginScan queryScan inputs explain_only⟩ := by
    intro b node inputs explain_only foreignScan' inputs' hstarts
    obtain ⟨rfl, rfl, -⟩ := hstarts.unique (.inl rfl)
    exact hquery _
  refine EventRun.along_cons_of_ok hbegin rfl (EventRun.along_cons_of_ok (hother (.inl rfl)) rfl
    (EventRun.along_cons_of_ok ?_ rfl (EventRun.along_cons_of_ok hbegin rfl
    (EventRun.along_cons_of_ok (hother (.inl rfl)) rfl
    (EventRun.along_cons_of_ok (hother (.inl rfl)) rfl (EventRun.along_cons_of_ok hbegin rfl
    (EventRun.along_cons_of_ok (hother (.inr rfl)) rfl
    (EventRun.along_cons_of_ok (hother (.inr rfl)) rfl trivial))))))))
  -- the scan that is started again is the one that is open
  intro foreignScan inputs hstarts
  obtain ⟨rfl, rfl, -⟩ := hstarts.unique (.inr ⟨rfl, rfl, _, rfl⟩)
  exact hquery _

/-- User 10 made two calls, which both succeeded, and user 11 one, which failed. -/
theorem usage_counts_two :
    ∃ outputs b counters counters',
      EventRun.run (Backend.step acceptingServices) (.start interleavedClock) accountedEvents =
          .ok (outputs, b) ∧
      (b.session.counters 10 = some counters ∧ counters.calls = 2 ∧
        callCount 10 (history acceptingServices interleavedClock accountedEvents) = 2 ∧
        failureCount 10 (history acceptingServices interleavedClock accountedEvents) = 0) ∧
      b.session.counters 11 = some counters' ∧ counters'.calls = 1 ∧
        callCount 11 (history acceptingServices interleavedClock accountedEvents) = 1 ∧
        failureCount 11 (history acceptingServices interleavedClock accountedEvents) = 1 := by
  have hrun : ∃ outputs b counters counters', EventRun.run (Backend.step acceptingServices)
      (.start interleavedClock) accountedEvents = .ok (outputs, b) ∧
        (b.session.counters 10 = some counters ∧ counters.calls = 2 ∧
          (ocgeoStatsRow counters).nbr_failed = 0) ∧
        b.session.counters 11 = some counters' ∧ counters'.calls = 1 ∧
          (ocgeoStatsRow counters').nbr_failed = 1 :=
    ⟨_, _, _, _, rfl, ⟨rfl, rfl, rfl⟩, rfl, rfl, rfl⟩
  obtain ⟨outputs, b, counters, counters', hrun, hfirst, hsecond⟩ := hrun
  have hcounts : ∀ user_id counters calls failed, b.session.counters user_id = some counters ∧
      counters.calls = (calls : ℕ) ∧ (ocgeoStatsRow counters).nbr_failed = (failed : ℕ) →
        callCount user_id (history acceptingServices interleavedClock accountedEvents) = calls ∧
          failureCount user_id (history acceptingServices interleavedClock accountedEvents) =
            failed := by
    rintro user_id counters calls failed ⟨hentry, hcalls, hfailed⟩
    have hfew : callCount user_id (history acceptingServices interleavedClock accountedEvents) <
        2 ^ 31 := List.countP_le_length.trans_lt (by decide)
    rcases (usage_counts along_startOperandsAssigned hrun).1 user_id hfew with ⟨hnone, -⟩ |
      ⟨counters', hentry', hcounted, -, -, -, -, hcountedFailed⟩
    · rw [hentry] at hnone
      cases hnone
    · obtain rfl := Option.some.inj (hentry.symm.trans hentry')
      rw [hcalls] at hcounted
      rw [hfailed] at hcountedFailed
      exact ⟨(Nat.cast_injective hcounted).symm, (Nat.cast_injective hcountedFailed).symm⟩
  exact ⟨outputs, b, counters, counters', hrun,
    ⟨hfirst.1, hfirst.2.1, hcounts 10 counters 2 0 hfirst⟩,
    hsecond.1, hsecond.2.1, hcounts 11 counters' 1 1 hsecond⟩

end OcgeoFdw
