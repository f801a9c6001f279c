import OcgeoFdw.Scanning.Accounting

/-! # The scans of a backend

The scans of a backend share its session, that is, the clock and the limiter. `shown_of_runs` states
that this changes when a request is sent and nothing else: what a scan shows is determined by its own
callbacks, whatever other scans do in between. -/

namespace OcgeoFdw

/-! ## What a scan shows -/

/-- An output without what the limiter says of the request. -/
def Output.shown : Output → Output
  | .started _ => .started none
  | output => output

/-- What a scan shows in a run. -/
def shownBy (node : ℕ) (occurrences : List Occurrence) : List Output :=
  (occurrences.filter fun occurrence => decide (occurrence.2.1.node = node)).map
    fun occurrence => occurrence.2.2.shown

/-- The callbacks of a scan. -/
def callbacksOf (node : ℕ) (events : List Event) : List Callback :=
  (events.filter fun event => decide (event.node = node)).map Event.callback

/-- In some backend a scan in the state `before` shows this output for a callback, and is in the state
`after` then. -/
def ScanSteps (services : RowServices) (before : Option ScanNode) (callback : Callback)
    (output : Output) (after : Option ScanNode) : Prop :=
  ∃ b b' node output', b.nodes node = before ∧
    Backend.step services b ⟨node, callback⟩ = .ok (output', b') ∧ output = output'.shown ∧
    b'.nodes node = after

/-- The outputs of a scan for its callbacks, one after the other. -/
inductive ScanShows (services : RowServices) : Option ScanNode → List Callback → List Output → Prop
  | nil {scan : Option ScanNode} : ScanShows services scan [] []
  | cons {before after : Option ScanNode} {callback : Callback} {callbacks : List Callback}
      {output : Output} {outputs : List Output}
      (hstep : ScanSteps services before callback output after)
      (hrest : ScanShows services after callbacks outputs) :
      ScanShows services before (callback :: callbacks) (output :: outputs)

/-! ## A start -/

section Starts

variable {foreignScan : ForeignScan} {inputs : StartInputs} {explain_only : Bool}
  {s s₁ s₂ s₁' s₂' : Session}

/-- A reply leaves one response. -/
theorem Forwards.unique {memory : ReplyMemory} {reply : Option CJson} {url : CString}
    {before : OcgeoResponse} {forward forward' : Forwarded}
    (h : Forwards memory reply url before forward)
    (h' : Forwards memory reply url before forward') : forward = forward' := by
  cases h with
  | noReply hnone =>
      cases h' with
      | noReply _ => rfl
      | parsed hsome _ =>
          rw [hnone] at hsome
          cases hsome
  | parsed hsome hparse =>
      cases h' with
      | noReply hnone =>
          rw [hnone] at hsome
          cases hsome
      | parsed hsome' hparse' =>
          obtain rfl := Option.some.inj (hsome.symm.trans hsome')
          obtain rfl := Except.ok.inj (hparse.symm.trans hparse')
          rfl

/-- **The state after a start** does not depend on the session. -/
theorem sstate_of_begin {sent₁ sent₂ : Option Sent} {sstate₁ sstate₂ : OcgeoForeignScanState}
    (h₁ : ocgeoBeginForeignScan foreignScan inputs explain_only s₁ = .ok (sent₁, sstate₁, s₁'))
    (h₂ : ocgeoBeginForeignScan foreignScan inputs explain_only s₂ = .ok (sent₂, sstate₂, s₂')) :
    sstate₁ = sstate₂ := by
  obtain ⟨mappings, pushed, hmappings, hpushed, hcases₁⟩ := ocgeoBeginForeignScan_eq_ok h₁
  obtain ⟨mappings', pushed', hmappings', hpushed', hcases₂⟩ := ocgeoBeginForeignScan_eq_ok h₂
  obtain rfl := Except.ok.inj (hmappings.symm.trans hmappings')
  obtain rfl := Except.ok.inj (hpushed.symm.trans hpushed')
  rcases hcases₁ with ⟨hnone, -, -, rfl⟩ | ⟨query, params, e₁, hstarted, hrequest, -, hsend₁⟩
  · rcases hcases₂ with ⟨-, -, -, rfl⟩ | ⟨query, params, e₂, hstarted, hrequest, -, -⟩
    · rfl
    · rcases hnone with hexplain | hnone
      · rw [hstarted] at hexplain
        cases hexplain
      · rw [hrequest] at hnone
        cases hnone
  · rcases hcases₂ with ⟨hnone, -, -, -⟩ | ⟨query', params', e₂, -, hrequest', -, hsend₂⟩
    · rcases hnone with hexplain | hnone
      · rw [hstarted] at hexplain
        cases hexplain
      · rw [hrequest] at hnone
        cases hnone
    · obtain ⟨rfl, rfl⟩ := Prod.mk.inj (Option.some.inj (hrequest.symm.trans hrequest'))
      obtain ⟨forward, hforwards, hsent₁, rfl⟩ := sendRequest_eq_ok hsend₁
      obtain ⟨forward', hforwards', hsent₂, rfl⟩ := sendRequest_eq_ok hsend₂
      obtain rfl := hforwards.unique hforwards'
      rw [request_ok hsent₁, request_ok hsent₂]

/-- **An error that a start raises** does not depend on the session. -/
theorem raised_of_begin {stop : ScanStop} (hraises : stop.raisesError = true)
    (h : ocgeoBeginForeignScan foreignScan inputs explain_only s₁ = .error stop) (s₂ : Session) :
    ocgeoBeginForeignScan foreignScan inputs explain_only s₂ = .error stop := by
  revert h
  rw [ocgeoBeginForeignScan, ocgeoBeginForeignScan]
  cases columnMappingHash foreignScan.columns foreignScan.fdw_private with
  | error stop' => exact id
  | ok mappings =>
      cases pushedQuals (foreignScan.env inputs) foreignScan.fdw_exprs with
      | error e => cases e <;> exact id
      | ok pushed =>
          simp only
          cases (if explain_only = true then none else pushed.request) with
          | none => exact fun h => by cases h
          | some request =>
              obtain ⟨query, params⟩ := request
              simp only
              intro h
              -- an error of the request ends the backend
              cases hsend : sendRequest inputs query params
                (initialScanState foreignScan mappings pushed) s₁ with
              | ok out =>
                  rw [hsend] at h
                  cases h
              | error stop' =>
                  rw [hsend] at h
                  obtain rfl := Except.error.inj h
                  rw [raisesError_of_sendRequest hsend] at hraises
                  cases hraises

end Starts

/-! ## A step -/

section Steps

variable {services : RowServices} {before after after' : Option ScanNode} {callback : Callback}
  {output output' : Output}

/-- **What a callback does with the session**: it starts the scan, or does not look at the session. -/
theorem runCallback_cases (services : RowServices) (before : Option ScanNode)
    (callback : Callback) :
    (∃ foreignScan inputs explain_only, ∀ s, runCallback services s before callback =
        (ocgeoBeginForeignScan foreignScan inputs explain_only s).map
          fun out => (.started out.1, some ⟨foreignScan, out.2.1⟩, out.2.2)) ∨
      ∃ result : Except ScanStop (Output × Option ScanNode), ∀ s,
        runCallback services s before callback = result.map fun out => (out.1, out.2, s) := by
  cases callback with
  | beginScan foreignScan inputs explain_only =>
      refine .inl ⟨foreignScan, inputs, explain_only, fun s => ?_⟩
      rw [runCallback]
      cases ocgeoBeginForeignScan foreignScan inputs explain_only s <;> rfl
  | iterate =>
      cases before with
      | none => exact .inr ⟨.error .notStarted, fun s => rfl⟩
      | some node =>
          refine .inr ⟨(ocgeoIterateForeignScan services node.fdw_state).map
            fun out => (.slot out.1, some { node with fdw_state := out.2 }), fun s => ?_⟩
          rw [runCallback]
          cases ocgeoIterateForeignScan services node.fdw_state <;> rfl
  | reScan inputs =>
      cases before with
      | none => exact .inr ⟨.error .notStarted, fun s => rfl⟩
      | some node =>
          refine .inl ⟨node.foreignScan, inputs, false, fun s => ?_⟩
          rw [runCallback]
          cases ocgeoBeginForeignScan node.foreignScan inputs false s <;> rfl
  | endScan =>
      cases before with
      | none => exact .inr ⟨.error .notStarted, fun s => rfl⟩
      | some node => exact .inr ⟨.ok (.ended, none), fun s => rfl⟩

/-- **A callback that returns** shows the same in every session, and leaves the same state. -/
theorem runCallback_unique {s₁ s₂ s₁' s₂' : Session}
    (h₁ : runCallback services s₁ before callback = .ok (output, after, s₁'))
    (h₂ : runCallback services s₂ before callback = .ok (output', after', s₂')) :
    output.shown = output'.shown ∧ after = after' := by
  rcases runCallback_cases services before callback with
    ⟨foreignScan, inputs, explain_only, hstart⟩ | ⟨result, hresult⟩
  · rw [hstart] at h₁ h₂
    cases hbegin₁ : ocgeoBeginForeignScan foreignScan inputs explain_only s₁ with
    | error stop =>
        rw [hbegin₁] at h₁
        cases h₁
    | ok out₁ =>
        cases hbegin₂ : ocgeoBeginForeignScan foreignScan inputs explain_only s₂ with
        | error stop =>
            rw [hbegin₂] at h₂
            cases h₂
        | ok out₂ =>
            rw [hbegin₁] at h₁
            rw [hbegin₂] at h₂
            obtain ⟨rfl, hrest₁⟩ := Prod.mk.inj (Except.ok.inj h₁)
            obtain ⟨rfl, -⟩ := Prod.mk.inj hrest₁
            obtain ⟨rfl, hrest₂⟩ := Prod.mk.inj (Except.ok.inj h₂)
            obtain ⟨rfl, -⟩ := Prod.mk.inj hrest₂
            -- the sessions and what was sent may differ, the state of the scan does not
            rw [sstate_of_begin hbegin₁ hbegin₂]
            exact ⟨rfl, rfl⟩
  · rw [hresult] at h₁ h₂
    cases result with
    | error stop => cases h₁
    | ok out =>
        obtain ⟨rfl, hrest₁⟩ := Prod.mk.inj (Except.ok.inj h₁)
        obtain ⟨rfl, -⟩ := Prod.mk.inj hrest₁
        obtain ⟨rfl, hrest₂⟩ := Prod.mk.inj (Except.ok.inj h₂)
        obtain ⟨rfl, -⟩ := Prod.mk.inj hrest₂
        exact ⟨rfl, rfl⟩

/-- **A callback that raises an error** raises it in every session. -/
theorem runCallback_raises {stop : ScanStop} {s₁ : Session} (hraises : stop.raisesError = true)
    (h : runCallback services s₁ before callback = .error stop) (s₂ : Session) :
    runCallback services s₂ before callback = .error stop := by
  rcases runCallback_cases services before callback with
    ⟨foreignScan, inputs, explain_only, hstart⟩ | ⟨result, hresult⟩
  · rw [hstart] at h ⊢
    cases hbegin : ocgeoBeginForeignScan foreignScan inputs explain_only s₁ with
    | ok out =>
        rw [hbegin] at h
        cases h
    | error stop' =>
        rw [hbegin] at h
        obtain rfl := Except.error.inj h
        rw [raised_of_begin hraises hbegin s₂]
        rfl
  · rw [hresult] at h ⊢
    cases result with
    | ok out => cases h
    | error stop' => exact h

/-- What a step does for the scan of its event: it shows what the callback returns, or the error that
it raises, and then the scan is gone. -/
theorem step_of_node {b b' : Backend} {node : ℕ} (h : b.step services ⟨node, callback⟩ =
    .ok (output, b')) :
    (∃ s, runCallback services b.session (b.nodes node) callback = .ok (output, b'.nodes node, s)) ∨
      ∃ stop, stop.raisesError = true ∧
        runCallback services b.session (b.nodes node) callback = .error stop ∧
        output = .raised stop ∧ b'.nodes node = none := by
  rw [Backend.step] at h
  split at h
  · rename_i output₁ node₁ s₁ hcallback
    obtain ⟨rfl, rfl⟩ := Prod.mk.inj (Except.ok.inj h)
    refine .inl ⟨s₁, hcallback.trans ?_⟩
    show _ = Except.ok (output₁, Function.update b.nodes node node₁ node, s₁)
    rw [Function.update_self]
  · rename_i stop hcallback
    split at h
    · rename_i hraises
      obtain ⟨rfl, rfl⟩ := Prod.mk.inj (Except.ok.inj h)
      exact .inr ⟨stop, hraises, hcallback, rfl, Function.update_self _ _ _⟩
    · cases h

/-- **A step of a scan** is determined by its state and its callback. -/
theorem ScanSteps.unique (h : ScanSteps services before callback output after)
    (h' : ScanSteps services before callback output' after') : output = output' ∧ after = after' := by
  obtain ⟨b₁, b₁', node₁, o₁, hbefore₁, hstep₁, rfl, rfl⟩ := h
  obtain ⟨b₂, b₂', node₂, o₂, hbefore₂, hstep₂, rfl, rfl⟩ := h'
  rcases step_of_node hstep₁ with ⟨s₁, hok₁⟩ | ⟨stop₁, hraises₁, herror₁, rfl, hnone₁⟩
  · rcases step_of_node hstep₂ with ⟨s₂, hok₂⟩ | ⟨stop₂, hraises₂, herror₂, -, -⟩
    · rw [hbefore₁] at hok₁
      rw [hbefore₂] at hok₂
      exact runCallback_unique hok₁ hok₂
    · rw [hbefore₂] at herror₂
      rw [hbefore₁, runCallback_raises hraises₂ herror₂] at hok₁
      cases hok₁
  · rw [hbefore₁] at herror₁
    have herror := runCallback_raises hraises₁ herror₁ b₂.session
    rcases step_of_node hstep₂ with ⟨s₂, hok₂⟩ | ⟨stop₂, -, herror₂, rfl, hnone₂⟩
    · rw [hbefore₂, herror] at hok₂
      cases hok₂
    · rw [hbefore₂, herror] at herror₂
      rw [Except.error.inj herror₂, hnone₁, hnone₂]
      exact ⟨rfl, rfl⟩

/-- What a scan shows is determined by its callbacks. -/
theorem ScanShows.unique {callbacks : List Callback} {outputs outputs' : List Output}
    (h : ScanShows services before callbacks outputs)
    (h' : ScanShows services before callbacks outputs') : outputs = outputs' := by
  induction h generalizing outputs' with
  | nil =>
      cases h'
      rfl
  | cons hstep _ ih =>
      cases h' with
      | cons hstep' hrest' =>
          obtain ⟨rfl, rfl⟩ := hstep.unique hstep'
          rw [ih hrest']

end Steps

/-! ## Runs -/

section Runs

variable {services : RowServices} {b b' : Backend} {events : List Event} {outputs : List Output}

/-- **In a run a scan shows** its own outputs, one after the other. -/
theorem scanShows_of_run (node : ℕ)
    (hrun : EventRun.run (Backend.step services) b events = .ok (outputs, b')) :
    ScanShows services (b.nodes node) (callbacksOf node events)
      (shownBy node (EventRun.trace (Backend.step services) b events)) := by
  induction events generalizing b outputs with
  | nil => exact .nil
  | cons event events ih =>
      obtain ⟨output, b₁, outputs', hstep, hrest, -⟩ := EventRun.exists_of_run_cons hrun
      rw [EventRun.trace_cons_of_ok hstep]
      by_cases hnode : event.node = node
      · rw [callbacksOf, shownBy, List.filter_cons_of_pos (by simpa using hnode),
          List.filter_cons_of_pos (by simpa using hnode)]
        exact .cons ⟨b, b₁, node, output, rfl, hnode ▸ hstep, rfl, rfl⟩ (ih hrest)
      -- a step of another scan keeps the state of this one
      · obtain ⟨scan?, hnodes, -⟩ := Backend.step_cases hstep
        have hkept : b₁.nodes node = b.nodes node := by
          rw [hnodes, Function.update_of_ne (Ne.symm hnode)]
        rw [callbacksOf, shownBy, List.filter_cons_of_neg (by simpa using hnode),
          List.filter_cons_of_neg (by simpa using hnode), ← hkept]
        exact ih hrest

/-- **Scans do not interfere.** In two runs with the same callbacks of a scan, whatever the clocks say
and whatever other scans do, the scan shows the same. -/
theorem shown_of_runs {clock clock' : List Timeval} {events' : List Event} {outputs' : List Output}
    {node : ℕ} (hcallbacks : callbacksOf node events = callbacksOf node events')
    (hrun : EventRun.run (Backend.step services) (.start clock) events = .ok (outputs, b))
    (hrun' : EventRun.run (Backend.step services) (.start clock') events' = .ok (outputs', b')) :
    shownBy node (history services clock events) =
      shownBy node (history services clock' events') := by
  have hshows := scanShows_of_run node hrun
  rw [hcallbacks] at hshows
  exact hshows.unique (scanShows_of_run node hrun')

end Runs

/-- A scan that is fetched from between the callbacks of another one, and the same scan alone. -/
theorem shown_of_runs_two :
    shownBy 0 (history acceptingServices
        [⟨0, 0⟩, ⟨0, 0⟩, ⟨0, 0⟩, ⟨0, 1⟩, ⟨0, 1⟩]
        [⟨0, .beginScan queryScan (repliedInputs (announcesOne [bareResult])) false⟩,
          ⟨1, .beginScan queryScan (repliedInputs (announcesOne [])) false⟩,
          ⟨0, .iterate⟩, ⟨1, .endScan⟩, ⟨0, .iterate⟩]) =
      shownBy 0 (history acceptingServices [⟨7, 0⟩, ⟨7, 0⟩, ⟨9, 0⟩]
        [⟨0, .beginScan queryScan (repliedInputs (announcesOne [bareResult])) false⟩,
          ⟨0, .iterate⟩, ⟨0, .iterate⟩]) := by
  have hrun : ∃ outputs b, EventRun.run (Backend.step acceptingServices)
      (.start [⟨0, 0⟩, ⟨0, 0⟩, ⟨0, 0⟩, ⟨0, 1⟩, ⟨0, 1⟩])
      [⟨0, .beginScan queryScan (repliedInputs (announcesOne [bareResult])) false⟩,
        ⟨1, .beginScan queryScan (repliedInputs (announcesOne [])) false⟩,
        ⟨0, .iterate⟩, ⟨1, .endScan⟩, ⟨0, .iterate⟩] = .ok (outputs, b) := ⟨_, _, rfl⟩
  have hrun' : ∃ outputs b, EventRun.run (Backend.step acceptingServices)
      (.start [⟨7, 0⟩, ⟨7, 0⟩, ⟨9, 0⟩])
      [⟨0, .beginScan queryScan (repliedInputs (announcesOne [bareResult])) false⟩,
        ⟨0, .iterate⟩, ⟨0, .iterate⟩] = .ok (outputs, b) := ⟨_, _, rfl⟩
  obtain ⟨outputs, b, hrun⟩ := hrun
  obtain ⟨outputs', b', hrun'⟩ := hrun'
  exact shown_of_runs rfl hrun hrun'

end OcgeoFdw
