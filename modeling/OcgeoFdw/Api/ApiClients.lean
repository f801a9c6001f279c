import Mathlib.Algebra.BigOperators.Group.Finset.Piecewise
import OcgeoFdw.Api.AnnouncedResults
import OcgeoFdw.Api.Lifecycle
import OcgeoFdw.Foundation.EventRuns

/-! # Clients of the API

A client keeps any number of handles and responses in variables and calls the functions of
`ocgeo_api.c` in any order. `ocgeo_close` gets the pointer and not the variable, which keeps it. A
client that does not use a closed handle never frees or reads a block that is not live; one that does
never gets beyond it. -/

namespace OcgeoFdw

open CString Heap

/-! ## A client -/

section Client

variable {α ρ : Type}

/-- A variable for a handle: the pointer in it, and whether the handle is closed, which the program
does not know. -/
structure ApiVariable where
  pointer : Option ApiPointers
  closed : Bool

/-- `NULL`. -/
def ApiVariable.null : ApiVariable := ⟨none, false⟩

/-- A variable whose handle was closed keeps the pointer. -/
def ApiVariable.close (v : ApiVariable) : ApiVariable := { v with closed := v.pointer.isSome }

/-- The handle in a variable, if it is open. -/
def ApiVariable.held (v : ApiVariable) : Option ApiPointers := if v.closed then none else v.pointer

/-- The heap, and the variables that a client keeps handles and responses in. -/
structure ApiClient (α ρ : Type) where
  heap : Heap
  apis : α → ApiVariable
  responses : ρ → ResponsePointers

/-- A client before any call. -/
def ApiClient.start : ApiClient α ρ := ⟨.empty, fun _ => .null, fun _ => .null⟩

/-- A call of one of the functions. A client may also set a handle to `NULL` or a response to `{0}`. -/
inductive ApiUse (α ρ : Type)
  | init (a : α)
  | request (a : α) (is_fwd : Bool) (r : Option ρ) (memory : ReplyMemory) (reply : Option CJson)
  | cleanup (r : ρ)
  | close (a : α)
  | forget (a : α)
  | discard (r : ρ)

variable [DecidableEq α] [DecidableEq ρ]

/-- A variable gets another value. -/
def ApiClient.setResponse (c : ApiClient α ρ) (r : Option ρ) (value : Option ResponsePointers) :
    ρ → ResponsePointers :=
  match r, value with
  | some r, some value => Function.update c.responses r value
  | _, _ => c.responses

/-- A call, with the blocks that are lost by it. -/
def ApiClient.step (c : ApiClient α ρ) : ApiUse α ρ → Except ApiFault (Multiset ℕ × ApiClient α ρ)
  | .init a =>
      let (api, heap) := ocgeoInitMemory c.heap
      .ok (openBlocks (c.apis a).held,
        { c with heap := heap, apis := Function.update c.apis a ⟨some api, false⟩ })
  | .request a is_fwd r memory reply =>
      match (c.apis a).pointer with
      | none => .error .nullApi
      | some api =>
          -- the key and the server are read from the block of the handle
          if api.self ∈ c.heap.live then do
            let (response, lost, heap) ←
              ocgeoRequestMemory c.heap is_fwd (r.map c.responses) memory reply
            .ok (lost, { c with heap := heap, responses := c.setResponse r response })
          else .error (.notLive ⟨api.self⟩)
  | .cleanup r => do
      let (response, heap) ← ocgeoResponseCleanup c.heap (c.responses r)
      .ok (0, { c with heap := heap, responses := Function.update c.responses r response })
  | .close a => do
      let heap ← ocgeoCloseMemory c.heap (c.apis a).pointer
      .ok (0, { c with heap := heap, apis := Function.update c.apis a (c.apis a).close })
  | .forget a =>
      .ok (openBlocks (c.apis a).held, { c with apis := Function.update c.apis a .null })
  | .discard r =>
      .ok (blocks (c.responses r).pointers,
        { c with responses := Function.update c.responses r .null })

/-- The call uses the handle in a variable. -/
def ApiUse.Uses (a : α) : ApiUse α ρ → Prop
  | .request b _ _ _ _ | .close b => b = a
  | _ => False

/-- The call sets a variable. -/
def ApiUse.Sets (a : α) : ApiUse α ρ → Prop
  | .init b | .forget b => b = a
  | _ => False

/-- Somewhere in these calls a handle is used that was opened, closed, and is still in its variable. -/
def UsesClosed (calls : List (ApiUse α ρ)) : Prop :=
  ∃ a front opened closed use back,
    calls = front ++ .init a :: (opened ++ .close a :: (closed ++ use :: back)) ∧
      (∀ call ∈ opened ++ closed, ¬ call.Sets a) ∧ use.Uses a

end Client

/-! ## What a call does -/

section Calls

variable {α ρ : Type} [DecidableEq α] [DecidableEq ρ]

/-- The handle of a variable that was not closed. -/
theorem ApiVariable.held_of_open {v : ApiVariable} (hopen : v.closed = false) :
    v.held = v.pointer := by
  rw [held, hopen]
  rfl

/-- A closed variable holds no handle. -/
theorem ApiVariable.held_close (v : ApiVariable) : v.close.held = none := by
  rw [held, close]
  cases v.pointer <;> rfl

/-- The blocks of a handle. -/
@[simp] theorem mem_blocks_pointers {api : ApiPointers} {block : ℕ} :
    block ∈ blocks api.pointers ↔ block = api.server ∨ block = api.api_key ∨ block = api.self := by
  simp [blocks, ApiPointers.pointers]

/-- **A request that returns** has a handle that is live. -/
theorem ApiClient.request_eq_ok {c c' : ApiClient α ρ} {a : α} {is_fwd : Bool} {r : Option ρ}
    {memory : ReplyMemory} {reply : Option CJson} {lost : Multiset ℕ}
    (h : c.step (.request a is_fwd r memory reply) = .ok (lost, c')) :
    ∃ api response heap, (c.apis a).pointer = some api ∧ api.self ∈ c.heap.live ∧
      ocgeoRequestMemory c.heap is_fwd (r.map c.responses) memory reply =
        .ok (response, lost, heap) ∧
      c' = { c with heap := heap, responses := c.setResponse r response } := by
  rw [ApiClient.step] at h
  cases hpointer : (c.apis a).pointer with
  | none =>
      rw [hpointer] at h
      cases h
  | some api =>
      rw [hpointer] at h
      simp only at h
      split_ifs at h with hlive
      obtain ⟨⟨response, lost', heap⟩, hrequest, h⟩ := Except.bind_eq_ok_iff.mp h
      obtain ⟨rfl, rfl⟩ := Prod.mk.inj (Except.ok.inj h)
      exact ⟨api, response, heap, rfl, hlive, hrequest, rfl⟩

/-- No call brings a block back. -/
theorem ApiClient.step_later (c : ApiClient α ρ) (call : ApiUse α ρ) :
    (c.step call).Ends (fun out => c.heap.Later out.2.heap) fun _ => True := by
  cases call with
  | init a => exact (later_malloc _).trans ((later_malloc _).trans (later_malloc _))
  | request a is_fwd r memory reply =>
      rw [step]
      cases (c.apis a).pointer with
      | none => trivial
      | some api =>
          simp only
          split_ifs
          · exact (ocgeoRequestMemory_later _ _ _ _ _).bind fun out hlater => hlater
          · trivial
  | cleanup r =>
      rw [step, ocgeoResponseCleanup]
      split_ifs
      · trivial
      · refine Except.Ends.bind ?_ fun out hlater => hlater
        exact (freePointers_later _ _).bind fun heap' hlater => hlater
  | close a =>
      rw [step]
      cases (c.apis a).pointer with
      | none => exact .refl _
      | some api => exact (freePointers_later _ _).bind fun heap' hlater => hlater
  | forget a => exact .refl _
  | discard r => exact .refl _

/-- **What a call does to a variable for a handle.** -/
theorem ApiClient.apis_of_step {c c' : ApiClient α ρ} {call : ApiUse α ρ} {lost : Multiset ℕ}
    (h : c.step call = .ok (lost, c')) (a : α) :
    (∃ api, call = .init a ∧ c'.apis a = ⟨some api, false⟩) ∨
      (call = .forget a ∧ c'.apis a = .null) ∨
      (call = .close a ∧ c'.apis a = (c.apis a).close) ∨
      (¬ call.Sets a ∧ call ≠ .close a ∧ c'.apis a = c.apis a) := by
  cases call with
  | init b =>
      obtain ⟨-, rfl⟩ := Prod.mk.inj (Except.ok.inj h)
      by_cases hb : b = a
      · subst hb
        exact .inl ⟨_, rfl, Function.update_self _ _ _⟩
      · exact .inr (.inr (.inr ⟨hb, by simp, Function.update_of_ne (Ne.symm hb) _ _⟩))
  | request b is_fwd r memory reply =>
      obtain ⟨api, response, heap, -, -, -, rfl⟩ := request_eq_ok h
      exact .inr (.inr (.inr ⟨id, by simp, rfl⟩))
  | cleanup r =>
      obtain ⟨out, -, h⟩ := Except.bind_eq_ok_iff.mp h
      obtain ⟨-, rfl⟩ := Prod.mk.inj (Except.ok.inj h)
      exact .inr (.inr (.inr ⟨id, by simp, rfl⟩))
  | close b =>
      obtain ⟨heap, -, h⟩ := Except.bind_eq_ok_iff.mp h
      obtain ⟨-, rfl⟩ := Prod.mk.inj (Except.ok.inj h)
      by_cases hb : b = a
      · subst hb
        exact .inr (.inr (.inl ⟨rfl, Function.update_self _ _ _⟩))
      · exact .inr (.inr (.inr ⟨id, by simpa using hb, Function.update_of_ne (Ne.symm hb) _ _⟩))
  | forget b =>
      obtain ⟨-, rfl⟩ := Prod.mk.inj (Except.ok.inj h)
      by_cases hb : b = a
      · subst hb
        exact .inr (.inl ⟨rfl, Function.update_self _ _ _⟩)
      · exact .inr (.inr (.inr ⟨hb, by simp, Function.update_of_ne (Ne.symm hb) _ _⟩))
  | discard r =>
      obtain ⟨-, rfl⟩ := Prod.mk.inj (Except.ok.inj h)
      exact .inr (.inr (.inr ⟨id, by simp, rfl⟩))

/-- A call that does not set a variable keeps the pointer in it, and a closed handle stays closed. -/
theorem ApiClient.keeps_of_step {c c' : ApiClient α ρ} {call : ApiUse α ρ} {lost : Multiset ℕ}
    (h : c.step call = .ok (lost, c')) {a : α} (hset : ¬ call.Sets a) {api : ApiPointers}
    (hpointer : (c.apis a).pointer = some api) :
    (c'.apis a).pointer = some api ∧
      ((c.apis a).closed = true ∨ call = .close a → (c'.apis a).closed = true) := by
  obtain ⟨_, rfl, -⟩ | ⟨rfl, -⟩ | ⟨-, heq⟩ | ⟨-, hclose, heq⟩ := apis_of_step h a
  · exact absurd rfl hset
  · exact absurd rfl hset
  · rw [heq, ApiVariable.close, hpointer]
    exact ⟨rfl, fun _ => rfl⟩
  · rw [heq]
    exact ⟨hpointer, fun h => h.resolve_right hclose⟩

end Calls

/-! ## Clients that keep to the rules -/

section Tidy

variable {α ρ : Type} [DecidableEq α] [DecidableEq ρ]

/-- A use that keeps to the rules: a handle is closed before another takes its place, and a response
is cleaned up before it is used again. Only an open handle is closed. -/
def TidyUse (c : ApiClient α ρ) : ApiUse α ρ → Prop
  | .init a | .forget a => (c.apis a).held = none
  | .request _ _ r _ _ => ∃ r', r = some r' ∧ c.responses r' = .null
  | .discard r => c.responses r = .null
  | .close a => (c.apis a).held ≠ none
  | .cleanup _ => True

/-- The blocks of the tree that a call reads. -/
def ApiUse.treeBlocks : ApiUse α ρ → ℕ
  | .request _ _ _ _ reply => OcgeoFdw.treeBlocks reply
  | _ => 0

/-- **A use that keeps to the rules** loses the tree of the reply, and nothing else. -/
theorem card_lost_of_step {c c' : ApiClient α ρ} {call : ApiUse α ρ} {lost : Multiset ℕ}
    (htidy : TidyUse c call) (h : c.step call = .ok (lost, c')) : lost.card = call.treeBlocks := by
  cases call with
  | init a =>
      obtain ⟨rfl, -⟩ := Prod.mk.inj (Except.ok.inj h)
      have hclosed : (c.apis a).held = none := htidy
      rw [hclosed]
      rfl
  | request a is_fwd r memory reply =>
      obtain ⟨r', rfl, hnull⟩ := htidy
      obtain ⟨api, response, heap, -, -, hrequest, -⟩ := ApiClient.request_eq_ok h
      rw [Option.map_some, hnull] at hrequest
      exact (card_of_ocgeoRequestMemory hrequest).2
  | cleanup r =>
      obtain ⟨result, -, h⟩ := Except.bind_eq_ok_iff.mp h
      obtain ⟨rfl, -⟩ := Prod.mk.inj (Except.ok.inj h)
      rfl
  | close a =>
      obtain ⟨heap, -, h⟩ := Except.bind_eq_ok_iff.mp h
      obtain ⟨rfl, -⟩ := Prod.mk.inj (Except.ok.inj h)
      rfl
  | forget a =>
      obtain ⟨rfl, -⟩ := Prod.mk.inj (Except.ok.inj h)
      have hclosed : (c.apis a).held = none := htidy
      rw [hclosed]
      rfl
  | discard r =>
      obtain ⟨rfl, -⟩ := Prod.mk.inj (Except.ok.inj h)
      have hnull : c.responses r = .null := htidy
      rw [hnull]
      rfl

end Tidy

/-! ## Runs of calls -/

section Runs

variable {α ρ : Type} [Fintype α] [Fintype ρ] [DecidableEq α] [DecidableEq ρ]

/-- The client owns the blocks of its open handles and its responses, and it lost some. The pointers
to closed handles dangle. -/
structure ApiClient.Owns (c : ApiClient α ρ) (lost : Multiset ℕ) : Prop where
  owned : c.heap.Owned
    (∑ a, openBlocks (c.apis a).held + ∑ r, blocks (c.responses r).pointers + lost)
  dangling : ∀ a, (c.apis a).closed = true → ∃ api, (c.apis a).pointer = some api ∧
    ∀ block ∈ blocks api.pointers, block < c.heap.next ∧ block ∉ c.heap.live

/-- One of the variables, and the others. -/
theorem sum_split {ι β : Type} [Fintype ι] [DecidableEq ι] (f : ι → β) (g : β → Multiset ℕ)
    (i : ι) : ∑ x, g (f x) = g (f i) + ∑ x ∈ Finset.univ \ {i}, g (f x) :=
  Finset.sum_eq_add_sum_sdiff_singleton_of_mem (Finset.mem_univ i) _

/-- When a variable gets a value, the others keep theirs. -/
theorem sum_update {ι β : Type} [Fintype ι] [DecidableEq ι] (f : ι → β) (g : β → Multiset ℕ)
    (i : ι) (value : β) :
    ∑ x, g (Function.update f i value x) = g value + ∑ x ∈ Finset.univ \ {i}, g (f x) := by
  rw [sum_split (Function.update f i value) g i, Function.update_self]
  congr 1
  refine Finset.sum_congr rfl fun x hx => ?_
  have hne : x ≠ i := by simpa using hx
  rw [Function.update_of_ne hne]

/-- Cleaning up a response frees its blocks. -/
theorem ocgeoResponseCleanup_ends {heap : Heap} {r : ResponsePointers} {owned : Multiset ℕ}
    (h : heap.Owned (blocks r.pointers + owned)) :
    (ocgeoResponseCleanup heap r).Ends
      (fun result => result.1 = .null ∧ result.2.Owned owned) FreesLive := by
  rw [ocgeoResponseCleanup]
  split_ifs
  · intro block hblock
    cases hblock
  · exact freePointers_bind owned h rfl fun heap' h' => ⟨rfl, h'⟩

/-- Closing a handle frees its blocks. -/
theorem ocgeoCloseMemory_ends {heap : Heap} {api : Option ApiPointers} {owned : Multiset ℕ}
    (h : heap.Owned (openBlocks api + owned)) :
    (ocgeoCloseMemory heap api).Ends (·.Owned owned) FreesLive := by
  cases api with
  | none => exact h.congr (zero_add owned)
  | some api => exact freePointers_ends h

/-- The fault that a call may end with: it is another than the use of a block that is not live, unless
the call uses a closed handle. -/
def ApiUse.MayFail (c : ApiClient α ρ) (call : ApiUse α ρ) (fault : ApiFault) : Prop :=
  FreesLive fault ∨ ∃ a, call.Uses a ∧ (c.apis a).closed = true

omit [DecidableEq ρ] in
/-- The blocks of an open handle are live. -/
theorem ApiClient.Owns.live_of_open {c : ApiClient α ρ} {lost : Multiset ℕ} (h : c.Owns lost)
    {a : α} {api : ApiPointers} (hopen : (c.apis a).closed = false)
    (hpointer : (c.apis a).pointer = some api) {block : ℕ} (hblock : block ∈ blocks api.pointers) :
    block ∈ c.heap.live := by
  have howned := h.owned
  rw [sum_split c.apis (fun v => openBlocks v.held) a, ApiVariable.held_of_open hopen, hpointer]
    at howned
  rw [howned.live_eq, add_assoc, add_assoc]
  exact Multiset.mem_add.mpr (.inl hblock)

omit [DecidableEq α] [DecidableEq ρ] in
/-- The blocks of a closed handle are not live. -/
theorem ApiClient.Owns.not_live_of_closed {c : ApiClient α ρ} {lost : Multiset ℕ} (h : c.Owns lost)
    {a : α} {api : ApiPointers} (hclosed : (c.apis a).closed = true)
    (hpointer : (c.apis a).pointer = some api) {block : ℕ} (hblock : block ∈ blocks api.pointers) :
    block ∉ c.heap.live := by
  obtain ⟨api', hpointer', hdead⟩ := h.dangling a hclosed
  obtain rfl := Option.some.inj (hpointer.symm.trans hpointer')
  exact (hdead block hblock).2

/-- Closing a closed handle frees a block that is not live. -/
theorem ocgeoCloseMemory_of_not_live {heap : Heap} {api : ApiPointers}
    (hdead : api.server ∉ heap.live) :
    ocgeoCloseMemory heap (some api) = .error (.notLive ⟨api.server⟩) := by
  rw [ocgeoCloseMemory, freePointers, Heap.frees, ApiPointers.pointers, List.foldlM_cons, Heap.free,
    if_neg hdead]
  rfl

/-- Every call keeps account of the blocks. -/
theorem ApiClient.step_owned {c : ApiClient α ρ} {lost : Multiset ℕ} (howns : c.Owns lost)
    (call : ApiUse α ρ) :
    (c.step call).Ends (fun out => out.2.heap.Owned (∑ a, openBlocks (out.2.apis a).held +
      ∑ r, blocks (out.2.responses r).pointers + (out.1 + lost))) (call.MayFail c) := by
  have h := howns.owned
  cases call with
  | init a =>
      -- the blocks of the handle that was in the variable are lost
      rw [sum_split c.apis (fun v => openBlocks v.held) a] at h
      refine (ocgeoInitMemory_owned h).congr ?_
      show openBlocks (some (ocgeoInitMemory c.heap).1) + _ = ∑ x, openBlocks
        (Function.update c.apis a ⟨some (ocgeoInitMemory c.heap).1, false⟩ x).held + _ +
          (openBlocks (c.apis a).held + lost)
      rw [sum_update c.apis fun v => openBlocks v.held]
      show _ = openBlocks (some _) + _ + _ + _
      abel
  | request a is_fwd r memory reply =>
      rw [step]
      cases hpointer : (c.apis a).pointer with
      | none =>
          refine .inl fun block hblock => ?_
          cases hblock
      | some api =>
          by_cases hlive : api.self ∈ c.heap.live
          swap
          -- only a closed handle is not live
          · simp only [if_neg hlive]
            refine .inr ⟨a, rfl, ?_⟩
            by_contra hopen
            exact hlive (howns.live_of_open (Bool.not_eq_true _ ▸ hopen) hpointer (by simp))
          simp only [if_pos hlive]
          cases r with
          | none =>
              have hheld : c.heap.Owned (heldBy (Option.map c.responses none) +
                  (∑ a, openBlocks (c.apis a).held + ∑ r, blocks (c.responses r).pointers +
                    lost)) :=
                h.congr (zero_add _).symm
              refine ((ocgeoRequestMemory_ends hheld).mono (fun _ h => h) fun _ h =>
                .inl h.freesLive).bind fun result hresult => ?_
              obtain ⟨hsome, howned⟩ := hresult
              have hnone : result.1 = none := by simpa using hsome
              refine howned.congr ?_
              rw [hnone]
              show 0 + _ = ∑ a, openBlocks (c.apis a).held +
                ∑ r, blocks (c.responses r).pointers + _
              abel
          | some r =>
              -- the call owns the blocks of this response; those of the others are framed
              rw [sum_split c.responses (fun r => blocks r.pointers) r] at h
              have hheld : c.heap.Owned (heldBy (Option.map c.responses (some r)) +
                  (∑ a, openBlocks (c.apis a).held +
                    ∑ x ∈ Finset.univ \ {r}, blocks (c.responses x).pointers + lost)) := by
                refine h.congr ?_
                show _ = blocks (c.responses r).pointers + _
                abel
              refine ((ocgeoRequestMemory_ends hheld).mono (fun _ h => h) fun _ h =>
                .inl h.freesLive).bind fun result hresult => ?_
              obtain ⟨hsome, howned⟩ := hresult
              obtain ⟨value, hvalue⟩ : ∃ value, result.1 = some value :=
                Option.isSome_iff_exists.mp hsome
              refine howned.congr ?_
              rw [hvalue]
              show blocks value.pointers + _ = ∑ a, openBlocks (c.apis a).held +
                ∑ x, blocks (Function.update c.responses r value x).pointers + _
              rw [sum_update c.responses fun r => blocks r.pointers]
              abel
  | cleanup r =>
      rw [sum_split c.responses (fun r => blocks r.pointers) r] at h
      have hheld : c.heap.Owned (blocks (c.responses r).pointers +
          (∑ a, openBlocks (c.apis a).held +
            ∑ x ∈ Finset.univ \ {r}, blocks (c.responses x).pointers + lost)) := by
        refine h.congr ?_
        abel
      refine ((ocgeoResponseCleanup_ends hheld).mono (fun _ h => h) fun _ h => .inl h).bind
        fun result hresult => ?_
      obtain ⟨hnull, howned⟩ := hresult
      refine howned.congr ?_
      rw [hnull]
      show _ = ∑ a, openBlocks (c.apis a).held +
        ∑ x, blocks (Function.update c.responses r .null x).pointers + (0 + lost)
      rw [sum_update c.responses fun r => blocks r.pointers]
      show _ = _ + (0 + _) + (0 + lost)
      abel
  | close a =>
      by_cases hclosed : (c.apis a).closed = true
      · obtain ⟨api, hpointer, -⟩ := howns.dangling a hclosed
        have hdead : api.server ∉ c.heap.live := howns.not_live_of_closed hclosed hpointer (by simp)
        rw [step, hpointer, ocgeoCloseMemory_of_not_live hdead]
        exact .inr ⟨a, rfl, hclosed⟩
      · rw [sum_split c.apis (fun v => openBlocks v.held) a, add_assoc, add_assoc,
          ApiVariable.held_of_open (Bool.not_eq_true _ ▸ hclosed)] at h
        refine ((ocgeoCloseMemory_ends h).mono (fun _ h => h) fun _ h => .inl h).bind
          fun heap' h' => h'.congr ?_
        show _ = ∑ x, openBlocks (Function.update c.apis a (c.apis a).close x).held + _ + (0 + lost)
        rw [sum_update c.apis fun v => openBlocks v.held]
        rw [ApiVariable.held_close]
        show _ = 0 + _ + _ + (0 + lost)
        abel
  | forget a =>
      -- nothing is freed: what the variable pointed to is lost
      rw [sum_split c.apis (fun v => openBlocks v.held) a] at h
      refine h.congr ?_
      show _ = ∑ x, openBlocks (Function.update c.apis a .null x).held + _ +
        (openBlocks (c.apis a).held + lost)
      rw [sum_update c.apis fun v => openBlocks v.held]
      show _ = 0 + _ + _ + _
      abel
  | discard r =>
      rw [sum_split c.responses (fun r => blocks r.pointers) r] at h
      refine h.congr ?_
      show _ = ∑ a, openBlocks (c.apis a).held +
        ∑ x, blocks (Function.update c.responses r .null x).pointers +
          (blocks (c.responses r).pointers + lost)
      rw [sum_update c.responses fun r => blocks r.pointers]
      show _ = _ + (0 + _) + _
      abel

/-- Closing an open handle leaves none of its blocks. -/
theorem ApiClient.dangling_of_close {c c' : ApiClient α ρ} {lost lost' : Multiset ℕ}
    (howns : c.Owns lost) {a : α} (h : c.step (.close a) = .ok (lost', c')) {api : ApiPointers}
    (hpointer : (c.apis a).pointer = some api) :
    ∀ block ∈ blocks api.pointers, block < c'.heap.next ∧ block ∉ c'.heap.live := by
  have hopen : (c.apis a).closed = false := by
    by_contra hclosed
    have hdead : api.server ∉ c.heap.live :=
      howns.not_live_of_closed (by simpa using hclosed) hpointer (by simp)
    rw [step, hpointer, ocgeoCloseMemory_of_not_live hdead] at h
    cases h
  have howned := howns.owned
  rw [sum_split c.apis (fun v => openBlocks v.held) a, ApiVariable.held_of_open hopen, hpointer,
    add_assoc, add_assoc] at howned
  have hends : (ocgeoCloseMemory c.heap (some api)).Ends _ _ := ocgeoCloseMemory_ends howned
  obtain ⟨heap, hclose, h⟩ := Except.bind_eq_ok_iff.mp h
  obtain ⟨-, rfl⟩ := Prod.mk.inj (Except.ok.inj h)
  rw [hpointer] at hclose
  have hlater : (ocgeoCloseMemory c.heap (some api)).Ends c.heap.Later fun _ => True :=
    freePointers_later _ _
  rw [hclose] at hends hlater
  intro block hblock
  refine ⟨(howned.fresh block (Multiset.mem_add.mpr (.inl hblock))).trans_le hlater.next_le, ?_⟩
  show block ∉ heap.live
  rw [hends.live_eq]
  exact Multiset.disjoint_left.mp (Multiset.nodup_add.mp howned.nodup).2.2 hblock

/-- **Every call** keeps account of the blocks, and lets the pointers to closed handles dangle. -/
theorem ApiClient.step_ends {c : ApiClient α ρ} {lost : Multiset ℕ} (howns : c.Owns lost)
    (call : ApiUse α ρ) :
    (c.step call).Ends (fun out => out.2.Owns (out.1 + lost)) (call.MayFail c) := by
  have hends := (step_owned howns call).and (step_later c call)
  cases hstep : c.step call with
  | error fault =>
      rw [hstep] at hends
      exact hends
  | ok out =>
      obtain ⟨lost', c'⟩ := out
      rw [hstep] at hends
      obtain ⟨howned, hlater⟩ := hends
      refine ⟨howned, fun a hclosed => ?_⟩
      obtain ⟨api, rfl, heq⟩ | ⟨rfl, heq⟩ | ⟨rfl, heq⟩ | ⟨-, -, heq⟩ := apis_of_step hstep a
      · rw [heq] at hclosed
        cases hclosed
      · rw [heq] at hclosed
        cases hclosed
      · rw [heq] at hclosed ⊢
        obtain ⟨api, hpointer⟩ := Option.isSome_iff_exists.mp hclosed
        exact ⟨api, hpointer, dangling_of_close howns hstep hpointer⟩
      · rw [heq] at hclosed ⊢
        obtain ⟨api, hpointer, hdead⟩ := howns.dangling a hclosed
        refine ⟨api, hpointer, fun block hblock => ?_⟩
        obtain ⟨hlt, hnot⟩ := hdead block hblock
        exact ⟨hlt.trans_le hlater.next_le, fun hlive => hnot (hlater.live_of_lt block hlt hlive)⟩

/-- A run of calls keeps account of the blocks. -/
theorem ApiClient.run_owns {c : ApiClient α ρ} {lost : Multiset ℕ} (h : c.Owns lost)
    (calls : List (ApiUse α ρ)) :
    (EventRun.run ApiClient.step c calls).Ends
      (fun out => out.2.Owns (out.1.foldl (fun lost out => out + lost) lost)) fun _ => True :=
  EventRun.run_ends (J := ApiClient.Owns)
    (fun call h => (ApiClient.step_ends h call).mono (fun _ h => h) fun _ _ => trivial) h calls

/-- What is lost in a run is added up. -/
theorem foldl_lost (outs : List (Multiset ℕ)) (lost : Multiset ℕ) :
    outs.foldl (fun lost out => out + lost) lost = outs.sum + lost := by
  induction outs generalizing lost with
  | nil => exact (zero_add lost).symm
  | cons out outs ih =>
      rw [List.foldl_cons, ih, List.sum_cons]
      abel

omit [DecidableEq α] [DecidableEq ρ] in
/-- A client owns nothing before any call. -/
theorem ApiClient.start_owns : (ApiClient.start : ApiClient α ρ).Owns 0 where
  owned := by
    refine owned_empty.congr ?_
    show 0 = ∑ _a : α, (0 : Multiset ℕ) + ∑ _r : ρ, 0 + 0
    simp
  dangling := fun _ h => by cases h

/-- **Any client** that starts without blocks owns what is live afterwards, but for what it lost. -/
theorem ApiClient.owns_of_run {calls : List (ApiUse α ρ)} {outs : List (Multiset ℕ)}
    {c : ApiClient α ρ} (h : EventRun.run ApiClient.step ApiClient.start calls = .ok (outs, c)) :
    c.Owns outs.sum := by
  have howns := ApiClient.run_owns (ApiClient.start_owns (α := α) (ρ := ρ)) calls
  rw [h] at howns
  have hsum : c.Owns (outs.foldl (fun lost out => out + lost) 0) := howns
  rw [foldl_lost, add_zero] at hsum
  exact hsum

/-! ## Closed handles -/

omit [Fintype α] [Fintype ρ] in
/-- Where a handle comes from, and where it was closed. -/
theorem ApiClient.history_of_run {calls : List (ApiUse α ρ)} {outs : List (Multiset ℕ)}
    {c : ApiClient α ρ} (h : EventRun.run ApiClient.step ApiClient.start calls = .ok (outs, c))
    (a : α) :
    ((c.apis a).pointer.isSome = true → ∃ front opened, calls = front ++ .init a :: opened ∧
        ∀ call ∈ opened, ¬ call.Sets a) ∧
      ((c.apis a).closed = true → ∃ front opened closed,
        calls = front ++ .init a :: (opened ++ .close a :: closed) ∧
          ∀ call ∈ opened ++ closed, ¬ call.Sets a) := by
  induction calls using List.reverseRecOn generalizing outs c with
  | nil =>
      obtain ⟨-, rfl⟩ := Prod.mk.inj (Except.ok.inj h)
      exact ⟨fun h => (by cases h), fun h => by cases h⟩
  | append_singleton calls call ih =>
      obtain ⟨outs₁, c₁, outs₂, hfirst, hlast, -⟩ := EventRun.exists_of_run_append h
      obtain ⟨lost, c', _, hstep, hnil, -⟩ := EventRun.exists_of_run_cons hlast
      obtain ⟨-, rfl⟩ := Prod.mk.inj (Except.ok.inj hnil)
      obtain ⟨hpointer, hclosed⟩ := ih hfirst
      have hsnoc : ∀ {middle : List (ApiUse α ρ)}, (∀ call ∈ middle, ¬ call.Sets a) →
          ¬ call.Sets a → ∀ call' ∈ middle ++ [call], ¬ call'.Sets a := by
        intro middle hmiddle hcall call' hmem
        rcases List.mem_append.mp hmem with hmem | hmem
        · exact hmiddle call' hmem
        · rwa [List.mem_singleton.mp hmem]
      obtain ⟨api, rfl, heq⟩ | ⟨rfl, heq⟩ | ⟨rfl, heq⟩ | ⟨hset, -, heq⟩ := apis_of_step hstep a
      · rw [heq]
        exact ⟨fun _ => ⟨calls, [], rfl, by simp⟩, fun h => by cases h⟩
      · rw [heq]
        exact ⟨fun h => (by cases h), fun h => by cases h⟩
      · rw [heq]
        refine ⟨fun h => ?_, fun h => ?_⟩
        · obtain ⟨front, opened, rfl, hopened⟩ := hpointer h
          exact ⟨front, opened ++ [.close a], by simp, hsnoc hopened id⟩
        · obtain ⟨front, opened, rfl, hopened⟩ := hpointer h
          exact ⟨front, opened, [], by simp, by simpa using hopened⟩
      · rw [heq]
        refine ⟨fun h => ?_, fun h => ?_⟩
        · obtain ⟨front, opened, rfl, hopened⟩ := hpointer h
          exact ⟨front, opened ++ [call], by simp, hsnoc hopened hset⟩
        · obtain ⟨front, opened, closed, rfl, hmiddle⟩ := hclosed h
          refine ⟨front, opened, closed ++ [call], by simp, ?_⟩
          rw [← List.append_assoc]
          exact hsnoc hmiddle hset

omit [Fintype α] [Fintype ρ] in
/-- Calls that do not set a variable keep the pointer in it, and a closed handle stays closed. -/
theorem ApiClient.keeps_of_run {calls : List (ApiUse α ρ)} {outs : List (Multiset ℕ)}
    {c c' : ApiClient α ρ} (h : EventRun.run ApiClient.step c calls = .ok (outs, c')) {a : α}
    (hset : ∀ call ∈ calls, ¬ call.Sets a) {api : ApiPointers}
    (hpointer : (c.apis a).pointer = some api) :
    (c'.apis a).pointer = some api ∧ ((c.apis a).closed = true → (c'.apis a).closed = true) := by
  induction calls generalizing c outs with
  | nil =>
      obtain ⟨-, rfl⟩ := Prod.mk.inj (Except.ok.inj h)
      exact ⟨hpointer, id⟩
  | cons call calls ih =>
      obtain ⟨lost, c₁, outs', hstep, hrest, -⟩ := EventRun.exists_of_run_cons h
      obtain ⟨hcall, hcalls⟩ := List.forall_mem_cons.mp hset
      obtain ⟨hpointer₁, hclosed₁⟩ := keeps_of_step hstep hcall hpointer
      obtain ⟨hpointer', hclosed'⟩ := ih hrest hcalls hpointer₁
      exact ⟨hpointer', fun h => hclosed' (hclosed₁ (.inl h))⟩

/-- A closed handle cannot be used. -/
theorem ApiClient.not_completes_of_closed {c : ApiClient α ρ} {lost : Multiset ℕ}
    (howns : c.Owns lost) {a : α} (hclosed : (c.apis a).closed = true) {use : ApiUse α ρ}
    (huses : use.Uses a) : ¬ (c.step use).Completes := by
  obtain ⟨api, hpointer, -⟩ := howns.dangling a hclosed
  rintro ⟨⟨lost', c'⟩, hstep⟩
  cases use with
  | request b is_fwd r memory reply =>
      obtain rfl : b = a := huses
      obtain ⟨api', response, heap, hpointer', hlive, -⟩ := request_eq_ok hstep
      exact howns.not_live_of_closed hclosed hpointer' (by simp) hlive
  | close b =>
      obtain rfl : b = a := huses
      have hdead : api.server ∉ c.heap.live := howns.not_live_of_closed hclosed hpointer (by simp)
      rw [step, hpointer, ocgeoCloseMemory_of_not_live hdead] at hstep
      cases hstep
  | init b | cleanup r | forget b | discard r => exact huses.elim

/-- Calls that come to an end use no closed handle. -/
theorem ApiClient.not_usesClosed_of_run {calls : List (ApiUse α ρ)} {outs : List (Multiset ℕ)}
    {c : ApiClient α ρ} (h : EventRun.run ApiClient.step ApiClient.start calls = .ok (outs, c)) :
    ¬ UsesClosed calls := by
  rintro ⟨a, front, opened, closed, use, back, rfl, hset, huses⟩
  have hsplit : front ++ .init a :: (opened ++ .close a :: (closed ++ use :: back)) =
      (front ++ .init a :: (opened ++ .close a :: closed)) ++ use :: back := by simp
  rw [hsplit] at h
  obtain ⟨outs₁, c₁, outs₂, hbefore, hafter, -⟩ := EventRun.exists_of_run_append h
  obtain ⟨lost, c₂, outs₃, huse, -, -⟩ := EventRun.exists_of_run_cons hafter
  -- the pointer from the opening is still there when the handle is used
  obtain ⟨_, c₃, _, -, hinit, -⟩ := EventRun.exists_of_run_append hbefore
  obtain ⟨_, c₄, _, hstart, hopened, -⟩ := EventRun.exists_of_run_cons hinit
  obtain ⟨_, c₅, _, hopen, hclose, -⟩ := EventRun.exists_of_run_append hopened
  obtain ⟨_, c₆, _, hstop, hclosed, -⟩ := EventRun.exists_of_run_cons hclose
  obtain ⟨hset₁, hset₂⟩ := List.forall_mem_append.mp hset
  obtain ⟨api, -, heq⟩ | ⟨hinit, -⟩ | ⟨hinit, -⟩ | ⟨hinit, -⟩ := apis_of_step hstart a
  · have hpointer : (c₄.apis a).pointer = some api := by rw [heq]
    have hpointer₅ := (keeps_of_run hopen hset₁ hpointer).1
    have hkeeps := keeps_of_step hstop id hpointer₅
    have hclosed₁ := (keeps_of_run hclosed hset₂ hkeeps.1).2 (hkeeps.2 (.inr rfl))
    exact not_completes_of_closed (owns_of_run hbefore) hclosed₁ huses ⟨_, huse⟩
  · cases hinit
  · cases hinit
  · exact hinit rfl

/-- **The blocks of any client.** Whatever a client calls, in whatever order: no block is freed or read
that is not live, unless the client uses a handle that it closed, which never ends well. What is live
afterwards is what its open handles and its responses point to and what was lost. -/
theorem clients_free_live (calls : List (ApiUse α ρ)) :
    (EventRun.run ApiClient.step ApiClient.start calls).Ends
      (fun out => ¬ UsesClosed calls ∧
        out.2.heap.live = ∑ a, openBlocks (out.2.apis a).held +
          ∑ r, blocks (out.2.responses r).pointers + out.1.sum ∧ out.2.heap.live.Nodup)
      (fun fault => FreesLive fault ∨ UsesClosed calls) := by
  cases hrun : EventRun.run ApiClient.step ApiClient.start calls with
  | ok out =>
      obtain ⟨outs, c⟩ := out
      have howned := (ApiClient.owns_of_run hrun).owned
      exact ⟨ApiClient.not_usesClosed_of_run hrun, howned.live_eq, howned.live_eq ▸ howned.nodup⟩
  | error fault =>
      obtain ⟨front, call, back, outs, c, rfl, hfront, hstep⟩ := EventRun.exists_of_run_error hrun
      have hends := ApiClient.step_ends (ApiClient.owns_of_run hfront) call
      rw [hstep] at hends
      refine hends.imp_right ?_
      rintro ⟨a, huses, hclosed⟩
      obtain ⟨before, opened, closed, rfl, hset⟩ := (ApiClient.history_of_run hfront a).2 hclosed
      exact ⟨a, before, opened, closed, call, back, by simp, hset, huses⟩

/-- The second close frees the server again. -/
example : EventRun.run (ApiClient.step (α := Unit) (ρ := Unit)) .start
    [.init (), .close (), .close ()] = .error (.notLive ⟨2⟩) := rfl

/-- **A client that keeps to the rules** and has closed its handles and cleaned up its responses
still holds the trees of all replies that it received. -/
theorem card_live_of_tidy {calls : List (ApiUse α ρ)} {outs : List (Multiset ℕ)}
    {c : ApiClient α ρ} (htidy : EventRun.Along ApiClient.step TidyUse ApiClient.start calls)
    (hrun : EventRun.run ApiClient.step ApiClient.start calls = .ok (outs, c))
    (hclosed : ∀ a, (c.apis a).held = none) (hclean : ∀ r, c.responses r = .null) :
    c.heap.live.card = (calls.map ApiUse.treeBlocks).sum := by
  have hlive : c.heap.live = outs.sum := by
    rw [(ApiClient.owns_of_run hrun).owned.live_eq]
    have hapis : ∑ a, openBlocks (c.apis a).held = 0 :=
      Finset.sum_eq_zero fun a _ => by rw [hclosed a]; rfl
    have hresponses : ∑ r, blocks (c.responses r).pointers = 0 :=
      Finset.sum_eq_zero fun r _ => by rw [hclean r]; rfl
    rw [hapis, hresponses, add_zero, zero_add]
  rw [hlive, ← EventRun.map_outputs card_lost_of_step htidy hrun]
  exact map_list_sum Multiset.cardHom outs

/-- A client asks once, cleans the response up, asks again without getting a reply, cleans up again and
closes its handle: the tree stays. -/
theorem card_live_of_tidy_twice :
    ∃ outs c, EventRun.run (ApiClient.step (α := Unit) (ρ := Unit)) ApiClient.start
        [.init (), .request () false (some ()) smallMemory
            (some (announces 2 [boundedResult, bareResult])),
          .cleanup (), .request () true (some ()) .unlimited none, .cleanup (), .close ()] =
          .ok (outs, c) ∧ c.heap.live.card = 35 := by
  obtain ⟨outs, c, hrun, hclosed, hclean⟩ : ∃ outs c,
      EventRun.run (ApiClient.step (α := Unit) (ρ := Unit)) ApiClient.start
        [.init (), .request () false (some ()) smallMemory
            (some (announces 2 [boundedResult, bareResult])),
          .cleanup (), .request () true (some ()) .unlimited none, .cleanup (), .close ()] =
          .ok (outs, c) ∧ (c.apis ()).held = none ∧ c.responses () = .null :=
    ⟨_, _, rfl, rfl, rfl⟩
  refine ⟨outs, c, hrun, card_live_of_tidy ?_ hrun (fun _ => hclosed) fun _ => hclean⟩
  refine EventRun.along_cons_of_ok rfl rfl (EventRun.along_cons_of_ok ⟨(), rfl, rfl⟩ rfl ?_)
  refine EventRun.along_cons_of_ok trivial rfl (EventRun.along_cons_of_ok ⟨(), rfl, rfl⟩ rfl ?_)
  exact EventRun.along_cons_of_ok trivial rfl
    (EventRun.along_cons_of_ok (Option.some_ne_none _) rfl trivial)

end Runs

end OcgeoFdw
