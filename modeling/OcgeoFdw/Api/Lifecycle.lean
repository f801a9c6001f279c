import Mathlib.Tactic.Abel
import OcgeoFdw.Api.ParseResponse
import OcgeoFdw.Foundation.Heaps

/-! # What the functions of the API own

The blocks that the functions of `ocgeo_api.c` allocate and free. A handle that is closed and a
response that is cleaned up keep nothing; the JSON trees of the replies stay, for good. The
allocations succeed, except that there may be no memory for the results of a reply. -/

namespace OcgeoFdw

open CString Heap

/-! ## The code -/

/-- How a call goes wrong. -/
inductive ApiFault
  /-- A block is freed or read that is not live. -/
  | notLive (block : NotLive)
  /-- A handle is used that is `NULL`. -/
  | nullApi
  /-- Reading the reply goes wrong. -/
  | parse (fault : ParseFault)
  /-- A slot of the results is read that was never written. -/
  | uninitialised

/-- The blocks of a `struct ocgeo_api`. -/
structure ApiPointers where
  self : ℕ
  api_key : ℕ
  server : ℕ

/-- The pointers in an `ocgeo_response_t`: `bounds` are those of the results in the list. -/
structure ResponsePointers where
  url : Option ℕ
  results : Option ℕ
  bounds : List (Option ℕ)

/-- The response as `{0}`. -/
def ResponsePointers.null : ResponsePointers := ⟨none, none, []⟩

/-- The blocks are freed in this order. -/
def freePointers (heap : Heap) (pointers : List (Option ℕ)) : Except ApiFault Heap :=
  (heap.frees pointers).mapError .notLive

/-- `ocgeo_init`. -/
def ocgeoInitMemory (heap : Heap) : ApiPointers × Heap :=
  let (self, heap) := heap.malloc
  let (api_key, heap) := heap.malloc
  let (server, heap) := heap.malloc
  (⟨self, api_key, server⟩, heap)

/-- The pointers that `ocgeo_close` frees. -/
def ApiPointers.pointers (api : ApiPointers) : List (Option ℕ) :=
  [some api.server, some api.api_key, some api.self]

/-- `ocgeo_close`. -/
def ocgeoCloseMemory (heap : Heap) : Option ApiPointers → Except ApiFault Heap
  | none => .ok heap
  | some api => freePointers heap api.pointers

/-- The pointers that `ocgeo_response_cleanup` frees. -/
def ResponsePointers.pointers (r : ResponsePointers) : List (Option ℕ) :=
  r.url :: (r.bounds ++ [r.results])

/-- `ocgeo_response_cleanup`. The first slot of the results is read even if there is no result. -/
def ocgeoResponseCleanup (heap : Heap) (r : ResponsePointers) :
    Except ApiFault (ResponsePointers × Heap) :=
  if r.results.isSome ∧ r.bounds = [] then .error .uninitialised
  else do
    let heap ← freePointers heap r.pointers
    .ok (.null, heap)

mutual

/-- The blocks of a tree of cJSON: a node each, and the strings in them. -/
def CJson.blockCount : CJson → ℕ
  | .null | .bool _ | .number _ => 1
  | .string _ => 2
  | .array elements => 1 + elementsBlockCount elements
  | .object members => 1 + membersBlockCount members

/-- The blocks of the elements of an array. -/
def elementsBlockCount : List CJson → ℕ
  | [] => 0
  | e :: elements => e.blockCount + elementsBlockCount elements

/-- The blocks of the members of an object, with their names. -/
def membersBlockCount : List (CString × CJson) → ℕ
  | [] => 0
  | (_, e) :: members => 1 + e.blockCount + membersBlockCount members

end

/-- The results in the slots that were written. -/
def OcgeoResponse.written (response : OcgeoResponse) : List OcgeoResult :=
  response.results.block.filterMap id

/-- `calloc` for the bounds of each result that has some. -/
def allocateBounds : List OcgeoResult → Heap → List (Option ℕ) × Heap
  | [], heap => ([], heap)
  | result :: results, heap =>
      match result.bounds with
      | none =>
          let (bounds, heap) := allocateBounds results heap
          (none :: bounds, heap)
      | some _ =>
          let (block, heap) := heap.malloc
          let (bounds, heap) := allocateBounds results heap
          (some block :: bounds, heap)

/-- What `parse_response_json` allocates for a response that it fills in: nothing if `results` stays
`NULL`. -/
def allocateResults (heap : Heap) (url : Option ℕ) (response : OcgeoResponse) :
    ResponsePointers × Heap :=
  match response.results.head with
  | none => (⟨url, none, []⟩, heap)
  | some _ =>
      let (results, heap) := heap.malloc
      let (bounds, heap) := allocateBounds response.written heap
      (⟨url, some results, bounds⟩, heap)

/-- `do_request` with the handle of libcurl, on the pointers of the response: the new ones, and the
blocks that nothing points to any more. A `reply` is the tree that was parsed, if any, and `memory`
what there is for its results. -/
def doRequestMemory (heap : Heap) (curl : ℕ) (response : Option ResponsePointers)
    (memory : ReplyMemory) (reply : Option CJson) :
    Except ApiFault (Option ResponsePointers × Multiset ℕ × Heap) :=
  match response with
  | none => .ok (none, {curl}, heap)
  | some r => do
      let (url, heap) := heap.malloc
      let (q_escaped, heap) := heap.malloc
      -- the URL of an earlier request is freed, its results are not
      let heap ← freePointers heap [some q_escaped, r.url]
      let (data, heap) := heap.malloc
      let (user_agent, heap) := heap.malloc
      let heap ← freePointers heap [some curl, some user_agent]
      match reply with
      | none => do
          let heap ← freePointers heap [some data]
          .ok (some { r with url := some url }, 0, heap)
      | some json => do
          -- nothing frees the tree: the results point into it
          let (tree, heap) := heap.mallocs json.blockCount
          let heap ← freePointers heap [some data]
          match parseResponseJson memory json (.zeroed none) with
          | .error fault => .error (.parse fault)
          | .ok parsed =>
              let (r', heap) := allocateResults heap (some url) parsed
              .ok (some r', (tree : Multiset ℕ) + blocks (r.bounds ++ [r.results]), heap)

/-- `ocgeo_forward` and `ocgeo_reverse`, which has its query in a block. -/
def ocgeoRequestMemory (heap : Heap) (is_fwd : Bool) (response : Option ResponsePointers)
    (memory : ReplyMemory) (reply : Option CJson) :
    Except ApiFault (Option ResponsePointers × Multiset ℕ × Heap) := do
  let (curl, heap) := heap.malloc
  if is_fwd then doRequestMemory heap curl response memory reply
  else
    let (q, heap) := heap.malloc
    let (response, lost, heap) ← doRequestMemory heap curl response memory reply
    let heap ← freePointers heap [some q]
    .ok (response, lost, heap)

/-! ## What a call owns -/

/-- The fault is another than the use of a block that is not live. -/
def FreesLive (fault : ApiFault) : Prop := ∀ block, fault ≠ .notLive block

/-- Reading the reply is the only fault of a request. -/
def ReplyFails (memory : ReplyMemory) (reply : Option CJson) (fault : ApiFault) : Prop :=
  ∃ json f, reply = some json ∧ parseResponseJson memory json (.zeroed none) = .error f ∧
    fault = .parse f

theorem ReplyFails.freesLive {memory : ReplyMemory} {reply : Option CJson} {fault : ApiFault}
    (h : ReplyFails memory reply fault) : FreesLive fault := by
  obtain ⟨json, f, -, -, rfl⟩ := h
  intro block hblock
  cases hblock

/-- The blocks of a handle, if there is one. -/
def openBlocks (api : Option ApiPointers) : Multiset ℕ := blocks (api.elim [] ApiPointers.pointers)

/-- Pointers that are owned are freed. -/
theorem freePointers_ends {heap : Heap} {pointers : List (Option ℕ)} {owned : Multiset ℕ}
    (h : heap.Owned (blocks pointers + owned)) {F : ApiFault → Prop} :
    (freePointers heap pointers).Ends (·.Owned owned) F := by
  obtain ⟨heap', hfrees, howned⟩ := h.frees
  rw [freePointers, hfrees]
  exact howned

/-- After pointers that are owned are freed, the rest is owned. -/
theorem freePointers_bind {β : Type} {heap : Heap} {pointers : List (Option ℕ)}
    {owned : Multiset ℕ} (rest : Multiset ℕ) (h : heap.Owned owned)
    (heq : owned = blocks pointers + rest) {f : Heap → Except ApiFault β} {Q : β → Prop}
    {F : ApiFault → Prop} (hf : ∀ heap' : Heap, heap'.Owned rest → (f heap').Ends Q F) :
    (freePointers heap pointers >>= f).Ends Q F :=
  (freePointers_ends (h.congr heq)).bind hf

/-- A handle is owned. -/
theorem ocgeoInitMemory_owned {heap : Heap} {owned : Multiset ℕ} (h : heap.Owned owned) :
    (ocgeoInitMemory heap).2.Owned (blocks (ocgeoInitMemory heap).1.pointers + owned) := by
  refine h.malloc.malloc.malloc.congr ?_
  rw [ApiPointers.pointers, blocks_cons, blocks_cons (some _) [_], blocks_some, blocks_some,
    blocks_some, add_assoc, add_assoc]
  rfl

/-- The bounds are owned. -/
theorem allocateBounds_owned {results : List OcgeoResult} {heap : Heap} {owned : Multiset ℕ}
    (h : heap.Owned owned) :
    (allocateBounds results heap).2.Owned (blocks (allocateBounds results heap).1 + owned) := by
  induction results generalizing heap owned with
  | nil => simpa [allocateBounds] using h
  | cons result results ih =>
      rw [allocateBounds]
      cases result.bounds with
      | none => exact (ih h).congr (by rw [blocks_cons, blocks_none, zero_add])
      | some bounds =>
          refine (ih h.malloc).congr ?_
          show _ = blocks (some heap.malloc.1 :: (allocateBounds results heap.malloc.2).1) + owned
          rw [blocks_cons, blocks_some]
          abel

/-- What is allocated for the results is owned. -/
theorem allocateResults_owned {heap : Heap} {url : Option ℕ} {response : OcgeoResponse}
    {owned : Multiset ℕ} (h : heap.Owned (blocks [url] + owned)) :
    (allocateResults heap url response).2.Owned
      (blocks (allocateResults heap url response).1.pointers + owned) := by
  rw [allocateResults]
  cases response.results.head with
  | none =>
      refine h.congr ?_
      rw [ResponsePointers.pointers, List.nil_append, blocks_cons url [none], blocks_none, add_zero]
  | some slot =>
      refine (allocateBounds_owned h.malloc).congr ?_
      show _ = blocks (url :: ((allocateBounds response.written heap.malloc.2).1 ++
        [some heap.malloc.1])) + owned
      rw [blocks_cons url (_ ++ _), blocks_append, blocks_some]
      abel

/-- The blocks of a response, if there is one. -/
def heldBy (response : Option ResponsePointers) : Multiset ℕ :=
  response.elim 0 fun r => blocks r.pointers

/-- **A request** owns what the new response points to, besides what is lost. -/
theorem doRequestMemory_ends {heap : Heap} {curl : ℕ} {response : Option ResponsePointers}
    {memory : ReplyMemory} {reply : Option CJson} {owned : Multiset ℕ}
    (h : heap.Owned ({curl} + (heldBy response + owned))) :
    (doRequestMemory heap curl response memory reply).Ends
      (fun result => result.1.isSome = response.isSome ∧
        result.2.2.Owned (heldBy result.1 + (result.2.1 + owned))) (ReplyFails memory reply) := by
  cases response with
  | none =>
      refine ⟨rfl, h.congr ?_⟩
      show _ = 0 + ({curl} + owned)
      rw [heldBy, Option.elim_none, zero_add, zero_add]
  | some r =>
      have hheld : heldBy (some r) = blocks [r.url] + blocks (r.bounds ++ [r.results]) :=
        blocks_cons _ _
      rw [hheld] at h
      rw [doRequestMemory]
      generalize hdata : blocks (r.bounds ++ [r.results]) = old at h ⊢
      refine freePointers_bind ({heap.malloc.1} + ({curl} + (old + owned))) h.malloc.malloc ?_ ?_
      · rw [blocks_cons (some _) [_], blocks_some]
        show {heap.malloc.2.malloc.1} + _ = {heap.malloc.2.malloc.1} + _ + _
        abel
      intro heap1 h1
      refine freePointers_bind ({heap1.malloc.1} + ({heap.malloc.1} + (old + owned)))
        h1.malloc.malloc ?_ ?_
      · rw [blocks_cons (some _) [_], blocks_some, blocks_some]
        show {heap1.malloc.2.malloc.1} + _ = _ + {heap1.malloc.2.malloc.1} + _
        abel
      intro heap2 h2
      cases reply with
      | none =>
          refine freePointers_bind ({heap.malloc.1} + (old + owned)) h2 rfl fun heap3 h3 => ?_
          refine ⟨rfl, h3.congr ?_⟩
          show _ = blocks (some heap.malloc.1 :: (r.bounds ++ [r.results])) + (0 + owned)
          rw [blocks_cons, blocks_some, hdata, zero_add, add_assoc]
      | some json =>
          have htree := h2.mallocs (n := json.blockCount)
          refine freePointers_bind (((Heap.mallocs json.blockCount heap2).1 : Multiset ℕ) +
            ({heap.malloc.1} + (old + owned))) htree ?_ fun heap3 h3 => ?_
          · rw [blocks_some]
            show _ + ({heap1.malloc.1} + _) = {heap1.malloc.1} + _
            abel
          cases hparse : parseResponseJson memory json (.zeroed none) with
          | error fault => exact ⟨json, fault, rfl, hparse, rfl⟩
          | ok parsed =>
              have howned : heap3.Owned (blocks [some heap.malloc.1] +
                  (((Heap.mallocs json.blockCount heap2).1 : Multiset ℕ) + old + owned)) := by
                refine h3.congr ?_
                rw [blocks_some]
                abel
              exact ⟨rfl, allocateResults_owned howned⟩

/-- The same with the handle of libcurl and the query of a reverse request. -/
theorem ocgeoRequestMemory_ends {heap : Heap} {is_fwd : Bool} {response : Option ResponsePointers}
    {memory : ReplyMemory} {reply : Option CJson} {owned : Multiset ℕ}
    (h : heap.Owned (heldBy response + owned)) :
    (ocgeoRequestMemory heap is_fwd response memory reply).Ends
      (fun result => result.1.isSome = response.isSome ∧
        result.2.2.Owned (heldBy result.1 + (result.2.1 + owned))) (ReplyFails memory reply) := by
  rw [ocgeoRequestMemory]
  cases is_fwd with
  | true => exact doRequestMemory_ends h.malloc
  | false =>
      have hquery : heap.malloc.2.malloc.2.Owned ({heap.malloc.1} +
          (heldBy response + ({heap.malloc.2.malloc.1} + owned))) := by
        refine h.malloc.malloc.congr ?_
        abel
      refine (doRequestMemory_ends hquery).bind fun result hresult => ?_
      refine freePointers_bind (heldBy result.1 + (result.2.1 + owned)) hresult.2 ?_
        fun heap' h' => ⟨hresult.1, h'⟩
      rw [blocks_some]
      show _ = {heap.malloc.2.malloc.1} + _
      abel

/-! ## What a call leaves of the heap -/

/-- The bounds are new blocks. -/
theorem allocateBounds_later (results : List OcgeoResult) (heap : Heap) :
    heap.Later (allocateBounds results heap).2 := by
  induction results generalizing heap with
  | nil => exact .refl heap
  | cons result results ih =>
      rw [allocateBounds]
      cases result.bounds with
      | none => exact ih heap
      | some bounds => exact (later_malloc heap).trans (ih heap.malloc.2)

/-- The results are new blocks. -/
theorem allocateResults_later (heap : Heap) (url : Option ℕ) (response : OcgeoResponse) :
    heap.Later (allocateResults heap url response).2 := by
  rw [allocateResults]
  cases response.results.head with
  | none => exact .refl heap
  | some slot => exact (later_malloc heap).trans (allocateBounds_later _ _)

/-- Freeing brings no block back. -/
theorem freePointers_later (heap : Heap) (pointers : List (Option ℕ)) :
    (freePointers heap pointers).Ends heap.Later fun _ => True := by
  rw [freePointers]
  cases hfrees : heap.frees pointers with
  | error block => trivial
  | ok heap' => exact later_of_frees hfrees

/-- A request brings no block back. -/
theorem doRequestMemory_later (heap : Heap) (curl : ℕ) (response : Option ResponsePointers)
    (memory : ReplyMemory) (reply : Option CJson) :
    (doRequestMemory heap curl response memory reply).Ends (fun out => heap.Later out.2.2)
      fun _ => True := by
  cases response with
  | none => exact .refl heap
  | some r =>
      rw [doRequestMemory]
      refine (freePointers_later _ _).bind fun heap1 h1 => ?_
      have hlater1 : heap.Later heap1 := (later_malloc heap).trans ((later_malloc _).trans h1)
      refine (freePointers_later _ _).bind fun heap2 h2 => ?_
      have hlater2 : heap.Later heap2 :=
        hlater1.trans ((later_malloc heap1).trans ((later_malloc _).trans h2))
      cases reply with
      | none => exact (freePointers_later _ _).bind fun heap3 h3 => hlater2.trans h3
      | some json =>
          refine (freePointers_later _ _).bind fun heap3 h3 => ?_
          have hlater3 : heap.Later heap3 := hlater2.trans ((later_mallocs _ heap2).trans h3)
          cases parseResponseJson memory json (.zeroed none) with
          | error fault => trivial
          | ok parsed => exact hlater3.trans (allocateResults_later heap3 _ parsed)

/-- The same for a request of either kind. -/
theorem ocgeoRequestMemory_later (heap : Heap) (is_fwd : Bool) (response : Option ResponsePointers)
    (memory : ReplyMemory) (reply : Option CJson) :
    (ocgeoRequestMemory heap is_fwd response memory reply).Ends (fun out => heap.Later out.2.2)
      fun _ => True := by
  rw [ocgeoRequestMemory]
  cases is_fwd with
  | true =>
      exact (doRequestMemory_later _ _ _ _ _).mono (fun _ h => (later_malloc heap).trans h)
        fun _ h => h
  | false =>
      refine (doRequestMemory_later _ _ _ _ _).bind fun out hout => ?_
      exact (freePointers_later _ _).bind fun heap' h' =>
        (later_malloc heap).trans ((later_malloc _).trans (hout.trans h'))

/-! ## What is lost -/

/-- The blocks of the tree of a reply. -/
def treeBlocks (reply : Option CJson) : ℕ := reply.elim 0 CJson.blockCount

/-- The blocks that the response to a request points to: the URL, the block of the results and the
bounds in it. -/
def keptBlocks (memory : ReplyMemory) (reply : Option CJson) : ℕ :=
  match reply with
  | none => 1
  | some json =>
      match parseResponseJson memory json (.zeroed none) with
      | .error _ => 0
      | .ok response =>
          1 + if response.results.head = none then 0
            else 1 + response.written.countP fun result => result.bounds.isSome

/-- The bounds that are allocated. -/
theorem card_allocateBounds (results : List OcgeoResult) (heap : Heap) :
    (blocks (allocateBounds results heap).1).card =
      results.countP fun result => result.bounds.isSome := by
  induction results generalizing heap with
  | nil => rfl
  | cons result results ih =>
      rw [allocateBounds, List.countP_cons]
      cases result.bounds with
      | none => exact ih heap
      | some bounds =>
          show (blocks (some _ :: (allocateBounds results heap.malloc.2).1)).card = _
          rw [blocks_cons, Multiset.card_add, ih]
          exact Nat.add_comm _ _

/-- What is allocated for the results, and the URL. -/
theorem card_allocateResults (heap : Heap) (url : ℕ) (response : OcgeoResponse) :
    (blocks (allocateResults heap (some url) response).1.pointers).card =
      1 + if response.results.head = none then 0
        else 1 + response.written.countP fun result => result.bounds.isSome := by
  rw [allocateResults]
  cases response.results.head with
  | none => rfl
  | some slot =>
      show (blocks (some url :: ((allocateBounds response.written heap.malloc.2).1 ++
        [some heap.malloc.1]))).card = _
      rw [blocks_cons, blocks_append, Multiset.card_add, Multiset.card_add, card_allocateBounds]
      exact congrArg (1 + ·) (Nat.add_comm _ _)

/-- **A request with an empty response**: what the response points to afterwards, and the tree, which
is lost. -/
theorem card_of_doRequestMemory {heap heap' : Heap} {curl : ℕ} {memory : ReplyMemory}
    {reply : Option CJson} {response : Option ResponsePointers} {lost : Multiset ℕ}
    (h : doRequestMemory heap curl (some .null) memory reply = .ok (response, lost, heap')) :
    (heldBy response).card = keptBlocks memory reply ∧ lost.card = treeBlocks reply := by
  rw [doRequestMemory] at h
  obtain ⟨heap1, -, h⟩ := Except.bind_eq_ok_iff.mp h
  obtain ⟨heap2, -, h⟩ := Except.bind_eq_ok_iff.mp h
  cases reply with
  | none =>
      obtain ⟨heap3, -, h⟩ := Except.bind_eq_ok_iff.mp h
      obtain ⟨rfl, hrest⟩ := Prod.mk.inj (Except.ok.inj h)
      obtain ⟨rfl, -⟩ := Prod.mk.inj hrest
      exact ⟨rfl, rfl⟩
  | some json =>
      obtain ⟨heap3, -, h⟩ := Except.bind_eq_ok_iff.mp h
      rw [keptBlocks]
      cases hparse : parseResponseJson memory json (.zeroed none) with
      | error fault =>
          rw [hparse] at h
          cases h
      | ok parsed =>
          rw [hparse] at h
          obtain ⟨rfl, hrest⟩ := Prod.mk.inj (Except.ok.inj h)
          obtain ⟨rfl, -⟩ := Prod.mk.inj hrest
          refine ⟨card_allocateResults heap3 heap.malloc.1 parsed, ?_⟩
          show (((Heap.mallocs json.blockCount heap2).1 : Multiset ℕ) + blocks [none]).card = _
          rw [Multiset.card_add, Multiset.coe_card, length_mallocs]
          rfl

/-- The same for a request of either kind. -/
theorem card_of_ocgeoRequestMemory {heap heap' : Heap} {is_fwd : Bool} {memory : ReplyMemory}
    {reply : Option CJson} {response : Option ResponsePointers} {lost : Multiset ℕ}
    (h : ocgeoRequestMemory heap is_fwd (some .null) memory reply = .ok (response, lost, heap')) :
    (heldBy response).card = keptBlocks memory reply ∧ lost.card = treeBlocks reply := by
  rw [ocgeoRequestMemory] at h
  cases is_fwd with
  | true => exact card_of_doRequestMemory h
  | false =>
      obtain ⟨⟨response', lost', heap1⟩, hrequest, h⟩ := Except.bind_eq_ok_iff.mp h
      obtain ⟨heap2, -, h⟩ := Except.bind_eq_ok_iff.mp h
      obtain ⟨rfl, hrest⟩ := Prod.mk.inj (Except.ok.inj h)
      obtain ⟨rfl, -⟩ := Prod.mk.inj hrest
      exact card_of_doRequestMemory hrequest

/-- The reply of a request, if there is one, is read without a fault. -/
def ReadsReply (memory : ReplyMemory) (reply : Option CJson) : Prop :=
  ∀ json, reply = some json → (parseResponseJson memory json (.zeroed none)).Completes

/-- **A request with an empty response** whose reply is read adds these blocks to the heap. -/
theorem ocgeoRequestMemory_adds {heap : Heap} {is_fwd : Bool} {memory : ReplyMemory}
    {reply : Option CJson} {owned : Multiset ℕ} (h : heap.Owned owned)
    (hreads : ReadsReply memory reply) :
    ∃ response lost heap', ocgeoRequestMemory heap is_fwd (some .null) memory reply =
        .ok (some response, lost, heap') ∧
      heap'.live.card = heap.live.card + (keptBlocks memory reply + treeBlocks reply) := by
  have hheld : heap.Owned (heldBy (some .null) + owned) := h.congr (zero_add owned).symm
  have hends : (ocgeoRequestMemory heap is_fwd (some .null) memory reply).Ends _ _ :=
    ocgeoRequestMemory_ends hheld
  cases hrequest : ocgeoRequestMemory heap is_fwd (some .null) memory reply with
  | error fault =>
      rw [hrequest] at hends
      obtain ⟨json, f, hreply, hparse, -⟩ := hends
      obtain ⟨parsed, hparsed⟩ := hreads json hreply
      rw [hparse] at hparsed
      cases hparsed
  | ok result =>
      obtain ⟨response, lost, heap'⟩ := result
      rw [hrequest] at hends
      obtain ⟨hsome, howned⟩ := hends
      obtain ⟨response, rfl⟩ : ∃ r, response = some r := Option.isSome_iff_exists.mp hsome
      obtain ⟨hkept, htree⟩ := card_of_ocgeoRequestMemory hrequest
      refine ⟨response, lost, heap', rfl, ?_⟩
      rw [howned.live_eq, h.live_eq, Multiset.card_add, Multiset.card_add, hkept, htree]
      omega

/-- A handle has three blocks. -/
theorem card_openBlocks (api : Option ApiPointers) :
    (openBlocks api).card = if api.isSome then 3 else 0 := by
  cases api <;> rfl

/-- Closing a handle takes its blocks from the heap. -/
theorem ocgeoCloseMemory_frees {heap : Heap} {api : Option ApiPointers} {owned : Multiset ℕ}
    (h : heap.Owned (openBlocks api + owned)) :
    ∃ heap', ocgeoCloseMemory heap api = .ok heap' ∧
      heap'.live.card + (if api.isSome then 3 else 0) = heap.live.card := by
  have hcard : heap.live.card = (openBlocks api).card + owned.card := by
    rw [h.live_eq, Multiset.card_add]
  rw [card_openBlocks] at hcard
  cases api with
  | none => exact ⟨heap, rfl, rfl⟩
  | some api =>
      have howned : heap.Owned (blocks api.pointers + owned) := h
      obtain ⟨heap', hfrees, howned'⟩ := howned.frees
      refine ⟨heap', ?_, ?_⟩
      · rw [ocgeoCloseMemory, freePointers, hfrees]
        rfl
      · rw [hcard, howned'.live_eq]
        exact Nat.add_comm _ _

/-- A new handle adds three blocks. -/
theorem card_ocgeoInitMemory (heap : Heap) :
    (ocgeoInitMemory heap).2.live.card = heap.live.card + 3 := by
  show ((_ ::ₘ _ ::ₘ _ ::ₘ heap.live : Multiset ℕ)).card = _
  rw [Multiset.card_cons, Multiset.card_cons, Multiset.card_cons]

end OcgeoFdw
