import OcgeoFdw.Api.ApiClients
import OcgeoFdw.Scanning.Accounting

/-! # The memory that a session keeps

The scans of a backend are a client of the API. `session_memory` keeps the account of the blocks that
they allocate, over whole runs: an end gives back the handle of a scan and nothing else, so every
request leaves its URL, the tree of the reply and the results in memory. -/

namespace OcgeoFdw

open Heap

/-! ## The calls of a callback -/

/-- A client with the variables of the scans `0`, …, `n`. -/
abbrev ScanClient (n : ℕ) : Type := ApiClient (Fin (n + 1)) (Fin (n + 1))

/-- A call by one of these scans. -/
abbrev ScanUse (n : ℕ) : Type := ApiUse (Fin (n + 1)) (Fin (n + 1))

/-- The variables of a scan. -/
def variablesOf (n node : ℕ) : Fin (n + 1) := Fin.ofNat (n + 1) node

/-- The reply to the request of a start, if it sends one. -/
def startReply (foreignScan : ForeignScan) (inputs : StartInputs) (explain_only : Bool) :
    Option (Option CJson) :=
  match columnMappingHash foreignScan.columns foreignScan.fdw_private,
      pushedQuals (foreignScan.env inputs) foreignScan.fdw_exprs with
  | .ok _, .ok pushed =>
      (if explain_only then none else pushed.request).map fun request =>
        replyTo inputs (requestUrl inputs request.1 request.2)
  | _, _ => none

/-- The calls of a start. The state of the scan is a new one, with its handle and its response. -/
def startUses {n : ℕ} (x : Fin (n + 1)) (memory : ReplyMemory) (reply? : Option (Option CJson)) :
    List (ScanUse n) :=
  [.forget x, .discard x] ++
    match reply? with
    | none => []
    | some reply => [.init x, .request x true (some x) memory reply]

/-- The calls of a callback. A response is never cleaned up. -/
def callbackUses (n : ℕ) (b : Backend) (event : Event) : List (ScanUse n) :=
  let x := variablesOf n event.node
  match event.callback, b.nodes event.node with
  | .beginScan foreignScan inputs explain_only, _ =>
      startUses x inputs.client.memory (startReply foreignScan inputs explain_only)
  | .reScan inputs, some node =>
      .close x :: startUses x inputs.client.memory (startReply node.foreignScan inputs false)
  | .endScan, some _ => [.close x]
  -- a row is made without a call, and without a scan the callback stops
  | _, _ => []

/-- The calls that the scans of a run make. -/
def sessionUses (n : ℕ) (occurrences : List Occurrence) : List (ScanUse n) :=
  occurrences.flatMap fun occurrence => callbackUses n occurrence.1 occurrence.2.1

/-! ## The account -/

/-- The blocks of a request: the handle, what the response points to, and the tree. -/
def requestBlocks (memory : ReplyMemory) : Option (Option CJson) → ℕ
  | none => 0
  | some reply => 3 + (keptBlocks memory reply + treeBlocks reply)

/-- The blocks that a callback allocates and does not free before it returns. -/
def allocatedBlocks (occurrence : Occurrence) : ℕ :=
  match occurrence.2.1.callback, occurrence.1.nodes occurrence.2.1.node with
  | .beginScan foreignScan inputs explain_only, _ =>
      requestBlocks inputs.client.memory (startReply foreignScan inputs explain_only)
  | .reScan inputs, some node =>
      requestBlocks inputs.client.memory (startReply node.foreignScan inputs false)
  | _, _ => 0

/-- The blocks of the handle that a callback closes. -/
def closedBlocks (occurrence : Occurrence) : ℕ :=
  match occurrence.2.1.callback, occurrence.1.nodes occurrence.2.1.node with
  | .reScan _, some node | .endScan, some node => if node.fdw_state.api.isSome then 3 else 0
  | _, _ => 0

section Account

variable {n : ℕ} {services : RowServices} {foreignScan : ForeignScan} {inputs : StartInputs}
  {explain_only : Bool} {s : Session} {b b' : Backend} {event : Event} {output : Output}
  {c : ScanClient n} {lost : Multiset ℕ} {x : Fin (n + 1)}

/-- The reply to a request that may not be sent is read. -/
def ReadsStartReply (memory : ReplyMemory) (reply? : Option (Option CJson)) : Prop :=
  ∀ reply, reply? = some reply → ReadsReply memory reply

/-- The reply that `ocgeo_forward` has parsed is read without a fault. -/
theorem Forwards.readsReply {memory : ReplyMemory} {reply : Option CJson} {url : CString}
    {before : OcgeoResponse} {forward : Forwarded}
    (h : Forwards memory reply url before forward) : ReadsReply memory reply := by
  intro json hjson
  cases h with
  | noReply hnone =>
      rw [hnone] at hjson
      cases hjson
  | parsed hsome hparse =>
      obtain rfl := Option.some.inj (hsome.symm.trans hjson)
      exact (completes_parseResponseJson_iff _).mpr
        ((completes_parseResponseJson_iff _).mp ⟨_, hparse⟩)

/-- **A start that returns** has read the reply, and holds a handle if it sent a request. A start that
raises an error sent none. -/
theorem start_reads (foreignScan : ForeignScan) (inputs : StartInputs) (explain_only : Bool)
    (s : Session) :
    (ocgeoBeginForeignScan foreignScan inputs explain_only s).Ends
      (fun out => out.2.1.api.isSome = (startReply foreignScan inputs explain_only).isSome ∧
        ReadsStartReply inputs.client.memory (startReply foreignScan inputs explain_only))
      (fun stop => stop.raisesError = true →
        startReply foreignScan inputs explain_only = none) := by
  rw [ocgeoBeginForeignScan, startReply]
  cases columnMappingHash foreignScan.columns foreignScan.fdw_private with
  | error stop => exact fun _ => rfl
  | ok mappings =>
      cases pushedQuals (foreignScan.env inputs) foreignScan.fdw_exprs with
      | error e => cases e <;> exact fun _ => rfl
      | ok pushed =>
          simp only
          cases (if explain_only = true then none else pushed.request) with
          | none => exact ⟨rfl, fun reply h => by cases h⟩
          | some request =>
              obtain ⟨query, params⟩ := request
              simp only
              cases hsend : sendRequest inputs query params
                (initialScanState foreignScan mappings pushed) s with
              | error stop =>
                  intro hraises
                  rw [raisesError_of_sendRequest hsend] at hraises
                  cases hraises
              | ok out =>
                  obtain ⟨sent, sstate, s'⟩ := out
                  obtain ⟨forward, hforwards, -, rfl⟩ := sendRequest_eq_ok hsend
                  refine ⟨rfl, fun reply h => ?_⟩
                  rw [← Option.some.inj h]
                  exact hforwards.readsReply

/-! ## What a callback does to the heap -/

/-- The blocks after a completed call are owned. -/
theorem owns_of_step (call : ScanUse n) {out : Multiset ℕ} {c' : ScanClient n}
    (howns : c.Owns lost) (hstep : c.step call = .ok (out, c')) : c'.Owns (out + lost) := by
  have hends := ApiClient.step_ends howns call
  rw [hstep] at hends
  exact hends

/-- **A request** allocates what it leaves. -/
theorem request_adds (howns : c.Owns lost) {api : ApiPointers} (hopen : c.apis x = ⟨some api, false⟩)
    (hnull : c.responses x = .null) {memory : ReplyMemory} {reply : Option CJson}
    (hreads : ReadsReply memory reply) :
    ∃ out c', c.step (.request x true (some x) memory reply) = .ok (out, c') ∧ c'.apis = c.apis ∧
      c'.heap.live.card = c.heap.live.card + (keptBlocks memory reply + treeBlocks reply) := by
  have hpointer : (c.apis x).pointer = some api := by rw [hopen]
  have hlive : api.self ∈ c.heap.live :=
    howns.live_of_open (by rw [hopen]) hpointer (mem_blocks_pointers.mpr (.inr (.inr rfl)))
  obtain ⟨response, lost', heap', hrequest, hcard⟩ : ∃ response lost' heap',
      ocgeoRequestMemory c.heap true (some .null) memory reply =
        .ok (some response, lost', heap') ∧ _ :=
    ocgeoRequestMemory_adds howns.owned hreads
  refine ⟨lost', { c with heap := heap', responses := c.setResponse (some x) (some response) }, ?_,
    rfl, hcard⟩
  rw [ApiClient.step, hpointer, Option.map_some, hnull]
  simp only [if_pos hlive]
  exact Except.bind_eq_ok_iff.mpr ⟨_, hrequest, rfl⟩

/-- The variable has an open handle, or `NULL`. -/
def ApiVariable.HasHandle (v : ApiVariable) (opened : Bool) : Prop :=
  v.closed = false ∧ v.pointer.isSome = opened

/-- What a start does to its client: the scan holds a handle if it sends a request, the other scans
keep theirs, and the request adds its blocks. -/
def StartedFrom (c : ScanClient n) (x : Fin (n + 1)) (memory : ReplyMemory)
    (reply? : Option (Option CJson)) (c' : ScanClient n) : Prop :=
  (c'.apis x).HasHandle reply?.isSome ∧ (∀ y ≠ x, c'.apis y = c.apis y) ∧
    c'.heap.live.card = c.heap.live.card + requestBlocks memory reply?

/-- **A start** allocates the blocks of its request. -/
theorem startUses_reaches (howns : c.Owns lost) {memory : ReplyMemory}
    {reply? : Option (Option CJson)} (hreads : ReadsStartReply memory reply?) :
    EventRun.Reaches ApiClient.step c (startUses x memory reply?)
      (StartedFrom c x memory reply?) := by
  have howns' := owns_of_step (.discard x) (owns_of_step (.forget x) howns rfl) rfl
  refine EventRun.reaches_cons rfl (EventRun.reaches_cons rfl ?_)
  cases reply? with
  | none =>
      refine EventRun.reaches_nil ⟨?_, fun y hy => Function.update_of_ne hy _ _, rfl⟩
      show (Function.update c.apis x .null x).HasHandle false
      rw [Function.update_self]
      exact ⟨rfl, rfl⟩
  | some reply =>
      have hinit := owns_of_step (.init x) howns' rfl
      refine EventRun.reaches_cons rfl ?_
      obtain ⟨out, c', hrequest, hapis, hcard⟩ :=
        request_adds hinit (Function.update_self _ _ _) (Function.update_self _ _ _)
          (hreads reply rfl)
      refine EventRun.reaches_cons hrequest (EventRun.reaches_nil ⟨?_, fun y hy => ?_, ?_⟩)
      · rw [hapis, ApiVariable.HasHandle]
        simp
      · rw [hapis]
        exact (Function.update_of_ne hy _ _).trans (Function.update_of_ne hy _ _)
      · rw [hcard]
        show (ocgeoInitMemory c.heap).2.live.card + _ = _
        rw [card_ocgeoInitMemory, requestBlocks, Nat.add_assoc]

/-- **Closing a handle** frees its blocks. -/
theorem close_reaches (howns : c.Owns lost) {opened : Bool} (hopen : (c.apis x).HasHandle opened) :
    ∃ c', c.step (.close x) = .ok (0, c') ∧ c'.Owns lost ∧ (∀ y ≠ x, c'.apis y = c.apis y) ∧
      c'.heap.live.card + (if opened then 3 else 0) = c.heap.live.card := by
  have h := howns.owned
  rw [sum_split c.apis (fun v => openBlocks v.held) x, ApiVariable.held_of_open hopen.1, add_assoc,
    add_assoc] at h
  obtain ⟨heap', hclose, hcard⟩ := ocgeoCloseMemory_frees h
  rw [hopen.2] at hcard
  have hstep : c.step (.close x) =
      .ok (0, { c with heap := heap', apis := Function.update c.apis x (c.apis x).close }) :=
    Except.bind_eq_ok_iff.mpr ⟨heap', hclose, rfl⟩
  have howns' := owns_of_step (.close x) howns hstep
  rw [zero_add] at howns'
  exact ⟨_, hstep, howns', fun y hy => Function.update_of_ne hy _ _, hcard⟩

/-! ## The account of a run -/

/-- The client has handles for the scans that hold one. -/
def Agrees (b : Backend) (c : ScanClient n) : Prop :=
  ∀ node ≤ n, ∀ scan, b.nodes node = some scan →
    (c.apis (variablesOf n node)).HasHandle scan.fdw_state.api.isSome

/-- Scans have variables of their own. -/
theorem variablesOf_ne {node node' : ℕ} (hnode : node ≤ n) (hnode' : node' ≤ n)
    (hne : node ≠ node') : variablesOf n node ≠ variablesOf n node' := by
  intro heq
  have hval := congrArg Fin.val heq
  rw [variablesOf, variablesOf, Fin.val_ofNat, Fin.val_ofNat, Nat.mod_eq_of_lt (by omega),
    Nat.mod_eq_of_lt (by omega)] at hval
  exact hne hval

/-- The scans other than one keep their handles. -/
theorem Agrees.update (hagrees : Agrees b c) {node : ℕ} (hnode : node ≤ n) {scan? : Option ScanNode}
    (hnodes : b'.nodes = Function.update b.nodes node scan?) {c' : ScanClient n}
    (hothers : ∀ y ≠ variablesOf n node, c'.apis y = c.apis y)
    (hscan : ∀ scan, scan? = some scan →
      (c'.apis (variablesOf n node)).HasHandle scan.fdw_state.api.isSome) : Agrees b' c' := by
  intro node' hnode' scan hscan'
  rw [hnodes] at hscan'
  by_cases heq : node' = node
  · subst heq
    rw [Function.update_self] at hscan'
    exact hscan scan hscan'
  · rw [Function.update_of_ne heq] at hscan'
    rw [hothers _ (variablesOf_ne hnode' hnode heq)]
    exact hagrees node' hnode' scan hscan'

/-- The callback of a start. -/
theorem runCallback_of_starts (hstarts : Starts b event foreignScan inputs explain_only) :
    runCallback services b.session (b.nodes event.node) event.callback =
      (ocgeoBeginForeignScan foreignScan inputs explain_only b.session).map
        fun out => (.started out.1, some ⟨foreignScan, out.2.1⟩, out.2.2) := by
  rcases hstarts with hcallback | ⟨rfl, hcallback, sstate, hnode⟩
  · rw [hcallback, runCallback]
    cases ocgeoBeginForeignScan foreignScan inputs explain_only b.session <;> rfl
  · rw [hcallback, hnode, runCallback]
    cases ocgeoBeginForeignScan foreignScan inputs false b.session <;> rfl

/-- **A step that starts a scan** reads the reply. The scan holds a handle if it sent a request. -/
theorem step_start (hstarts : Starts b event foreignScan inputs explain_only)
    (hstep : b.step services event = .ok (output, b')) :
    ReadsStartReply inputs.client.memory (startReply foreignScan inputs explain_only) ∧
      ∃ scan?, b'.nodes = Function.update b.nodes event.node scan? ∧
        ∀ scan, scan? = some scan →
          scan.fdw_state.api.isSome = (startReply foreignScan inputs explain_only).isSome := by
  have hreads := start_reads foreignScan inputs explain_only b.session
  rw [Backend.step, runCallback_of_starts hstarts] at hstep
  cases hbegin : ocgeoBeginForeignScan foreignScan inputs explain_only b.session with
  | error stop =>
      rw [hbegin] at hstep hreads
      replace hstep : (if stop.raisesError then _ else .error stop) = Except.ok (output, b') := hstep
      split_ifs at hstep with hraises
      obtain ⟨-, rfl⟩ := Prod.mk.inj (Except.ok.inj hstep)
      rw [hreads hraises]
      exact ⟨fun reply h => (by cases h), none, rfl, fun scan h => by cases h⟩
  | ok out =>
      obtain ⟨sent, sstate, s'⟩ := out
      rw [hbegin] at hstep hreads
      obtain ⟨-, rfl⟩ := Prod.mk.inj (Except.ok.inj hstep)
      refine ⟨hreads.2, some ⟨foreignScan, sstate⟩, rfl, fun scan hscan => ?_⟩
      rw [← Option.some.inj hscan]
      exact hreads.1

/-- A step that starts no scan gives no scan a handle. -/
theorem step_other (hother : ∀ foreignScan inputs explain_only,
      ¬ Starts b event foreignScan inputs explain_only)
    (hstep : b.step services event = .ok (output, b')) :
    ∃ scan?, b'.nodes = Function.update b.nodes event.node scan? ∧
      ∀ scan, scan? = some scan → event.callback = .iterate ∧
        ∃ before, b.nodes event.node = some before ∧
          scan.fdw_state.api = before.fdw_state.api := by
  obtain ⟨scan?, hnodes, ⟨foreignScan, inputs, explain_only, -, -, hstarts, -⟩ |
    ⟨before, row, sstate, hcallback, hbefore, hiterate, -, -, rfl⟩ | ⟨-, -, -, rfl⟩ |
    ⟨-, -, -, rfl⟩⟩ := Backend.step_cases hstep
  · exact absurd hstarts (hother foreignScan inputs explain_only)
  · refine ⟨_, hnodes, fun scan hscan => ⟨hcallback, before, hbefore, ?_⟩⟩
    rw [← Option.some.inj hscan]
    obtain ⟨cursor, rfl⟩ := moves_of_ocgeoIterateForeignScan hiterate
    rfl
  · exact ⟨none, hnodes, fun scan h => by cases h⟩
  · exact ⟨none, hnodes, fun scan h => by cases h⟩

/-- **A start** of one of the scans, whose handle may have been closed before. -/
theorem start_agrees {c₁ : ScanClient n} (hagrees : Agrees b c) (hnode : event.node ≤ n)
    (hkept : ∀ y ≠ variablesOf n event.node, c₁.apis y = c.apis y) (howns : c₁.Owns lost)
    (hstarts : Starts b event foreignScan inputs explain_only)
    (hstep : b.step services event = .ok (output, b')) :
    EventRun.Reaches ApiClient.step c₁
      (startUses (variablesOf n event.node) inputs.client.memory
        (startReply foreignScan inputs explain_only))
      fun c' => Agrees b' c' ∧ c'.heap.live.card = c₁.heap.live.card +
        requestBlocks inputs.client.memory (startReply foreignScan inputs explain_only) := by
  obtain ⟨hreads, scan?, hnodes, hscan⟩ := step_start hstarts hstep
  refine (startUses_reaches howns hreads).mono fun c' hstarted => ?_
  obtain ⟨hopen, hothers, hcard⟩ := hstarted
  refine ⟨hagrees.update hnode hnodes ?_ fun scan h => ?_, hcard⟩
  · exact fun y hy => (hothers y hy).trans (hkept y hy)
  · rw [hscan scan h]
    exact hopen

/-- The account of an occurrence. -/
def Accounts (c : ScanClient n) (occurrence : Occurrence) (c' : ScanClient n) : Prop :=
  c'.heap.live.card + closedBlocks occurrence = c.heap.live.card + allocatedBlocks occurrence

/-- **The account of a step**: the client can make the calls of the callback, and it owns the blocks
that they leave. -/
theorem step_accounts (hagrees : Agrees b c) (howns : c.Owns lost) (hnode : event.node ≤ n)
    (hstep : b.step services event = .ok (output, b')) :
    EventRun.Reaches ApiClient.step c (callbackUses n b event) fun c' =>
      Agrees b' c' ∧ Accounts c (b, event, output) c' := by
  rw [callbackUses]
  cases hcallback : event.callback with
  | beginScan foreignScan inputs explain_only =>
      refine (start_agrees hagrees hnode (fun _ _ => rfl) howns (.inl hcallback) hstep).mono
        fun c' h => ⟨h.1, ?_⟩
      simp only [Accounts, closedBlocks, allocatedBlocks, hcallback]
      exact h.2
  | iterate =>
      -- fetching a row keeps the handle in the state, or drops the state on an error
      obtain ⟨scan?, hnodes, hscan⟩ := step_other
        (fun _ _ _ hstarts => hstarts.callback_ne.1 hcallback) hstep
      refine EventRun.reaches_nil ⟨hagrees.update hnode hnodes (fun _ _ => rfl) ?_, ?_⟩
      · intro scan h
        obtain ⟨-, before, hbefore, hapi⟩ := hscan scan h
        rw [hapi]
        exact hagrees event.node hnode before hbefore
      · simp only [Accounts, closedBlocks, allocatedBlocks, hcallback]
  | reScan inputs =>
      cases hopen : b.nodes event.node with
      | none =>
          -- without a scan the callback is no start, and nothing is called
          have hother : ∀ foreignScan inputs explain_only,
              ¬ Starts b event foreignScan inputs explain_only := by
            rintro foreignScan inputs explain_only (hbegin | ⟨-, -, sstate, hsome⟩)
            · rw [hcallback] at hbegin
              cases hbegin
            · rw [hopen] at hsome
              cases hsome
          obtain ⟨scan?, hnodes, hscan⟩ := step_other hother hstep
          refine EventRun.reaches_nil ⟨hagrees.update hnode hnodes (fun _ _ => rfl) ?_, ?_⟩
          · intro scan h
            obtain ⟨hiterate, -⟩ := hscan scan h
            rw [hcallback] at hiterate
            cases hiterate
          · simp only [Accounts, closedBlocks, allocatedBlocks, hcallback, hopen]
      | some node =>
          -- the handle is closed first, then the start is that of a new scan
          obtain ⟨c₁, hclose, howns₁, hothers, hcard⟩ :=
            close_reaches howns (hagrees event.node hnode node hopen)
          have hstarts : Starts b event node.foreignScan inputs false :=
            .inr ⟨rfl, hcallback, node.fdw_state, hopen⟩
          refine EventRun.reaches_cons hclose
            ((start_agrees hagrees hnode hothers howns₁ hstarts hstep).mono fun c' h => ⟨h.1, ?_⟩)
          simp only [Accounts, closedBlocks, allocatedBlocks, hcallback, hopen]
          rw [h.2, ← hcard]
          exact Nat.add_right_comm _ _ _
  | endScan =>
      obtain ⟨scan?, hnodes, hscan⟩ := step_other
        (fun _ _ _ hstarts => hstarts.callback_ne.2 hcallback) hstep
      have hnone : ∀ scan, scan? ≠ some scan := by
        intro scan h
        obtain ⟨hiterate, -⟩ := hscan scan h
        rw [hcallback] at hiterate
        cases hiterate
      cases hopen : b.nodes event.node with
      | none =>
          refine EventRun.reaches_nil ⟨hagrees.update hnode hnodes (fun _ _ => rfl)
            fun scan h => absurd h (hnone scan), ?_⟩
          simp only [Accounts, closedBlocks, allocatedBlocks, hcallback, hopen]
      | some node =>
          obtain ⟨c', hclose, howns', hothers, hcard⟩ :=
            close_reaches howns (hagrees event.node hnode node hopen)
          refine EventRun.reaches_cons hclose (EventRun.reaches_nil
            ⟨hagrees.update hnode hnodes hothers fun scan h => absurd h (hnone scan), ?_⟩)
          simp only [Accounts, closedBlocks, allocatedBlocks, hcallback, hopen]
          exact hcard

/-- **The account of a run** from any backend that the client agrees with. -/
theorem run_accounts {events : List Event} {outputs : List Output} (hagrees : Agrees b c)
    (howns : c.Owns lost) (hnodes : ∀ event ∈ events, event.node ≤ n)
    (hrun : EventRun.run (Backend.step services) b events = .ok (outputs, b')) :
    EventRun.Reaches ApiClient.step c
      (sessionUses n (EventRun.trace (Backend.step services) b events)) fun c' =>
        c'.heap.live.Nodup ∧ c'.heap.live.card +
            ((EventRun.trace (Backend.step services) b events).map closedBlocks).sum =
          c.heap.live.card +
            ((EventRun.trace (Backend.step services) b events).map allocatedBlocks).sum := by
  induction events generalizing b c lost outputs with
  | nil => exact EventRun.reaches_nil ⟨howns.owned.live_eq ▸ howns.owned.nodup, rfl⟩
  | cons event events ih =>
      obtain ⟨output, b₁, outputs', hstep, hrest, rfl⟩ := EventRun.exists_of_run_cons hrun
      obtain ⟨outs, c₁, huses, hagrees₁, haccounts⟩ :=
        step_accounts hagrees howns (hnodes event List.mem_cons_self) hstep
      have howns₁ := ApiClient.run_owns howns (callbackUses n b event)
      rw [huses] at howns₁
      rw [EventRun.trace_cons_of_ok hstep, sessionUses, List.flatMap_cons]
      have hfirst : EventRun.Reaches ApiClient.step c (callbackUses n b event) (· = c₁) :=
        ⟨outs, c₁, huses, rfl⟩
      refine hfirst.append ?_
      rintro _ rfl
      refine (ih hagrees₁ howns₁ (fun e he => hnodes e (List.mem_cons_of_mem _ he)) hrest).mono
        fun c' h => ⟨h.1, ?_⟩
      -- the account of the first step is added to that of the others
      have hcard := h.2
      rw [Accounts] at haccounts
      rw [List.map_cons, List.map_cons, List.sum_cons, List.sum_cons]
      omega

/-- **The memory of a session**: whatever the scans of a backend do, they free only what is live, and
the blocks that are live are those that the requests allocated, but for the handles that were
closed. -/
theorem session_memory {clock : List Timeval} {events : List Event} {outputs : List Output}
    (hnodes : ∀ event ∈ events, event.node ≤ n)
    (hrun : EventRun.run (Backend.step services) (.start clock) events = .ok (outputs, b)) :
    EventRun.Reaches ApiClient.step ApiClient.start (sessionUses n (history services clock events))
      fun c => c.heap.live.Nodup ∧
        c.heap.live.card + ((history services clock events).map closedBlocks).sum =
          ((history services clock events).map allocatedBlocks).sum := by
  have hagrees : Agrees (n := n) (.start clock) ApiClient.start := fun _ _ _ h => by cases h
  refine (run_accounts hagrees ApiClient.start_owns hnodes hrun).mono fun c h => ⟨h.1, ?_⟩
  rw [h.2]
  exact Nat.zero_add _

end Account

/-- A scan that is answered with one result, and ends: its URL, the tree of the reply and the block
of the result stay. -/
theorem session_memory_one :
    EventRun.Reaches ApiClient.step ApiClient.start
      (sessionUses 0 (history acceptingServices [⟨0, 0⟩, ⟨0, 0⟩, ⟨0, 0⟩]
        [⟨0, .beginScan queryScan (repliedInputs (announcesOne [bareResult])) false⟩,
          ⟨0, .iterate⟩, ⟨0, .endScan⟩]))
      fun c => c.heap.live.card = 14 := by
  have hrun : ∃ outputs b, EventRun.run (Backend.step acceptingServices)
      (.start [⟨0, 0⟩, ⟨0, 0⟩, ⟨0, 0⟩])
      [⟨0, .beginScan queryScan (repliedInputs (announcesOne [bareResult])) false⟩,
        ⟨0, .iterate⟩, ⟨0, .endScan⟩] = .ok (outputs, b) := ⟨_, _, rfl⟩
  obtain ⟨outputs, b, hrun⟩ := hrun
  refine (session_memory (n := 0) (by decide) hrun).mono fun c h => ?_
  exact Nat.add_right_cancel (h.2.trans rfl)

end OcgeoFdw
