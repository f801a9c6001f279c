import Mathlib.Data.List.Forall2
import OcgeoFdw.Api.JsonPath
import OcgeoFdw.Api.SdsStrings
import OcgeoFdw.Foundation.Heaps
import OcgeoFdw.Foundation.Separators

/-! # Splitting a path

The loop of `sdssplitlen`, with its array of tokens that is enlarged when it is full, and
`get_json_field` on the tokens. They are the parts of the path between the dots; nothing is stored or
read outside a block, the lookup finds what `getJsonField` says unless an allocation fails, and in the
end every block is freed, once, whether the path is split or the splitting is given up. -/

namespace OcgeoFdw

open CInt CString Separators

/-! ## The code -/

/-- A pointer in the array of tokens: the string, and the number of its block. -/
structure Token where
  s : Sds
  block : ℕ

/-- `tokens`, `elements` and `start`, with the heap and the number of the block of `tokens`; its size
is `slots`. -/
structure Splitting where
  heap : Heap
  array : ℕ
  tokens : List (Option Token)
  elements : ℕ
  start : ℕ

/-- How the splitting stops: by `goto cleanup`, or by an access outside a block. -/
inductive SplitStop
  | cleanup (st : Splitting)
  | overrun

/-- What `sdssplitlen` returns: `count` of the pointers in the array are tokens. -/
structure Fields where
  array : ℕ
  tokens : List (Option Token)
  count : ℕ

/-- `free`, where the pointer is the beginning of a block: the block has to be live. -/
def freeBlock (heap : Heap) (block : ℕ) : Except MemoryFault Heap :=
  match heap.free (some block) with
  | .error _ => .error .overrun
  | .ok heap => .ok heap

/-- `sdsfree`. The pointer has to be where the header that its flags say ends. -/
def sdsfree (heap : Heap) : Option Token → Except MemoryFault Heap
  | none => .ok heap
  | some token => do
      let flags ← token.s.flags
      if token.s.start = sdsHdrSize flags then freeBlock heap token.block else .error .overrun

/-- The strings are freed one after the other, and then the array. -/
def releaseTokens (heap : Heap) (array : ℕ) (tokens : List (Option Token)) :
    Except MemoryFault Heap := do
  let heap ← tokens.foldlM sdsfree heap
  freeBlock heap array

/-- `sdsfreesplitres`, which frees the last token first. -/
def sdsfreesplitres (heap : Heap) (fields : Fields) : Except MemoryFault Heap := do
  let tokens ← Block.load fields.tokens 0 fields.count
  releaseTokens heap fields.array tokens.reverse

/-- The block behind the label `cleanup`. -/
def Splitting.cleanup (st : Splitting) : Except MemoryFault Heap := do
  let tokens ← Block.load st.tokens 0 st.elements
  releaseTokens st.heap st.array tokens

/-- The test for room for the next element and the final one. -/
def Splitting.ensureSlots (arrays : Allocator (Option Token)) (st : Splitting) :
    Except SplitStop Splitting :=
  if st.tokens.length < st.elements + 2 then
    match arrays.realloc st.tokens (st.tokens.length * 2) with
    | none => .error (.cleanup st)
    | some newtokens =>
        match st.heap.realloc st.array with
        | .error _ => .error .overrun
        | .ok (array, heap) => .ok { st with heap := heap, array := array, tokens := newtokens }
  else .ok st

/-- `tokens[elements] = pointer`. -/
def Splitting.setToken (st : Splitting) (pointer : Option Token) : Except SplitStop Splitting :=
  match Block.store st.tokens st.elements [pointer] with
  | .error _ => .error .overrun
  | .ok tokens => .ok { st with tokens := tokens }

/-- `tokens[elements] = sdsnewlen(...)` with the test for `NULL`, and `elements++`. The allocator is
the one that the token meets: tokens of one length may fare differently. -/
def Splitting.push (memory : ℕ → Allocator UInt8) (st : Splitting) (token : CString) :
    Except SplitStop Splitting :=
  match sdsnewlen (memory st.elements) token with
  | .error .overrun => .error .overrun
  | .error .failed => do
      let st ← st.setToken none
      .error (.cleanup st)
  | .ok s => do
      let (block, heap) := st.heap.malloc
      let st ← st.setToken (some ⟨s, block⟩)
      .ok { st with heap := heap, elements := st.elements + 1 }

/-- The search for the separator, with the short test for one of a single character. -/
def separatorAt (s sep : CString) (j : ℕ) : Bool :=
  (sep.length = 1 && s[j]? == sep[0]?) || (s.drop j).take sep.length == sep

/-- One round of the loop, and the `j` of the next. -/
def Splitting.round (memory : ℕ → Allocator UInt8) (arrays : Allocator (Option Token))
    (s sep : CString) (j : ℕ) (st : Splitting) : Except SplitStop (ℕ × Splitting) := do
  let st ← st.ensureSlots arrays
  if separatorAt s sep j then do
    let st ← st.push memory ((s.take j).drop st.start)
    -- the separator is skipped, and the `for` adds its one
    .ok (j + sep.length - 1 + 1, { st with start := j + sep.length })
  else .ok (j + 1, st)

/-- The loop of `sdssplitlen`, for as many rounds as there are characters. -/
def splitLoop (memory : ℕ → Allocator UInt8) (arrays : Allocator (Option Token)) (s sep : CString) :
    ℕ → ℕ → Splitting → Except SplitStop Splitting
  | 0, _, st => .ok st
  | rounds + 1, j, st =>
      if j < s.length - (sep.length - 1) then do
        let (j, st) ← st.round memory arrays s sep j
        splitLoop memory arrays s sep rounds j st
      else .ok st

/-- The loop, and the final element, for which every round has kept a slot free. -/
def splitTokens (memory : ℕ → Allocator UInt8) (arrays : Allocator (Option Token)) (s sep : CString)
    (st : Splitting) : Except SplitStop Splitting := do
  let st ← splitLoop memory arrays s sep s.length 0 st
  st.push memory (s.drop st.start)

/-- `sdssplitlen` with its memory, and the heap after it. -/
def sdssplitlenTokens (memory : ℕ → Allocator UInt8) (arrays : Allocator (Option Token))
    (heap : Heap) (s sep : CString) : Except MemoryFault (Option Fields × Heap) :=
  if sep.length < 1 then .ok (none, heap)
  else
    match arrays.malloc 5 with
    | none => .ok (none, heap)
    | some tokens =>
        let (array, heap) := heap.malloc
        if s.length = 0 then .ok (some ⟨array, tokens, 0⟩, heap)
        else
          match splitTokens memory arrays s sep ⟨heap, array, tokens, 0, 0⟩ with
          | .ok st => .ok (some ⟨st.array, st.tokens, st.elements⟩, st.heap)
          | .error .overrun => .error .overrun
          | .error (.cleanup st) => do
              let heap ← st.cleanup
              .ok (none, heap)

/-- A round of `get_json_field`: `str_to_maybe_int` reads as many characters as an `int` can count, and
the name of a member is read up to the terminating NUL. -/
def fieldOfToken (current : CJson) : Option Token → Except MemoryFault (Option CJson)
  | none => .error .overrun
  | some token => do
      let len ← sdslen token.s
      let chars ← Block.load token.s.block token.s.start (toInt32 len).toNat
      let index := strToMaybeInt chars
      if 0 ≤ index then .ok (current.getArrayItem index)
      else .ok (CJson.getObjectItemCaseSensitive (some current) (untilNul token.s.cString))

/-- The loop of `get_json_field`, which ends early at `NULL`. -/
def fieldOfTokens : Option CJson → List (Option Token) → Except MemoryFault (Option CJson)
  | none, _ => .ok none
  | some current, [] => .ok (some current)
  | some current, token :: tokens => do
      let next ← fieldOfToken current token
      fieldOfTokens next tokens

/-- `get_json_field` with its memory, and the heap after it. -/
def getJsonFieldTokens (memory : ℕ → Allocator UInt8) (arrays : Allocator (Option Token))
    (heap : Heap) (parent : Option CJson) (path : CString) :
    Except MemoryFault (Option CJson × Heap) :=
  match parent with
  | none => .ok (none, heap)
  | some parent => do
      let (fields, heap) ← sdssplitlenTokens memory arrays heap path [46]
      match fields with
      | none => .ok (none, heap)
      | some fields => do
          let tokens ← Block.load fields.tokens 0 fields.count
          let current ← fieldOfTokens (some parent) tokens
          let heap ← sdsfreesplitres heap fields
          .ok (current, heap)

/-! ## The tokens -/

/-- A token holds a part of the text. -/
def IsToken (pointer : Option Token) (part : CString) : Prop :=
  ∃ token alloc, pointer = some token ∧ token.s.Holds alloc part

/-- The blocks of tokens. -/
def tokenBlocks (pointers : List (Option Token)) : Multiset ℕ :=
  Heap.blocks (pointers.map (Option.map Token.block))

/-- The tokens hold the parts, with `room` more places in the array; their blocks, that of the array
and those in `owned` are the live ones. -/
structure Splitting.Filled (st : Splitting) (parts : List CString) (owned : Multiset ℕ) (room : ℕ) :
    Prop where
  elements_eq : st.elements = parts.length
  room_le : st.elements + room ≤ st.tokens.length
  tokens : (st.tokens.take st.elements).Forall₂ IsToken parts
  owns : st.heap.Owned ({st.array} + (tokenBlocks (st.tokens.take st.elements) + owned))

/-- The tokens hold the parts that have been cut off when the scan has come to `j`. -/
structure Splitting.Holds (st : Splitting) (s sep : CString) (parts : List CString)
    (owned : Multiset ℕ) (j room : ℕ) : Prop extends st.Filled parts owned room where
  scanned : Scanned sep s parts st.start j

/-- All the allocations succeed. -/
def Allocates (memory : ℕ → Allocator UInt8) (arrays : Allocator (Option Token)) : Prop :=
  (∀ n, (memory n).Unlimited) ∧ arrays.Unlimited

/-- An allocation fails, and what there is can be freed. -/
def SplitFails (memory : ℕ → Allocator UInt8) (arrays : Allocator (Option Token))
    (owned : Multiset ℕ) (stop : SplitStop) : Prop :=
  ∃ st parts, stop = .cleanup st ∧ st.Filled parts owned 0 ∧ ¬ Allocates memory arrays

/-! ## Freeing -/

section Freeing

variable {heap : Heap} {owned : Multiset ℕ} {array : ℕ} {parts : List CString}

@[simp] theorem tokenBlocks_nil : tokenBlocks [] = 0 := rfl

@[simp] theorem tokenBlocks_some (token : Token) : tokenBlocks [some token] = {token.block} := rfl

theorem tokenBlocks_append (pointers pointers' : List (Option Token)) :
    tokenBlocks (pointers ++ pointers') = tokenBlocks pointers + tokenBlocks pointers' := by
  rw [tokenBlocks, List.map_append, Heap.blocks_append]
  rfl

/-- The order of the tokens plays no role. -/
theorem tokenBlocks_reverse (pointers : List (Option Token)) :
    tokenBlocks pointers.reverse = tokenBlocks pointers := by
  induction pointers with
  | nil => rfl
  | cons pointer pointers ih =>
      rw [List.reverse_cons, tokenBlocks_append, ih, add_comm, ← tokenBlocks_append]
      rfl

/-- A block that is owned is freed. -/
theorem freeBlock_of_owned (howned : heap.Owned ({array} + owned)) :
    ∃ heap', freeBlock heap array = .ok heap' ∧ heap'.Owned owned := by
  obtain ⟨heap', hfree, howned'⟩ := @Heap.Owned.free heap owned (some array) howned
  exact ⟨heap', by rw [freeBlock, hfree], howned'⟩

/-- **`sdsfree` finds the beginning of the block of a token.** -/
theorem IsToken.sdsfree_eq {pointer : Option Token} {part : CString} (h : IsToken pointer part)
    (howned : heap.Owned (tokenBlocks [pointer] + owned)) :
    ∃ heap', sdsfree heap pointer = .ok heap' ∧ heap'.Owned owned := by
  obtain ⟨⟨s, block⟩, alloc, rfl, type, rest, hhas⟩ := h
  obtain ⟨heap', hfree, howned'⟩ := freeBlock_of_owned howned
  refine ⟨heap', ?_, howned'⟩
  have hmake : s = Sds.make type part.length alloc (part ++ 0 :: rest) := hhas.eq_make
  have hflags : s.flags = .ok (type.flags part.length) := by rw [hmake, Sds.flags_make]
  have hheader : s.start = sdsHdrSize (type.flags part.length) := by
    rw [sdsHdrSize, SdsType.ofFlags_flags (hhas.used.trans_lt hhas.counted), hmake]
    rfl
  rw [sdsfree]
  refine Except.bind_eq_ok_iff.mpr ⟨_, hflags, ?_⟩
  rw [if_pos hheader]
  exact hfree

/-- Tokens that are owned are freed, and then the array. -/
theorem releaseTokens_of_owned {pointers : List (Option Token)}
    (htokens : pointers.Forall₂ IsToken parts)
    (howned : heap.Owned ({array} + (tokenBlocks pointers + owned))) :
    ∃ heap', releaseTokens heap array pointers = .ok heap' ∧ heap'.Owned owned := by
  induction htokens generalizing heap with
  | nil => exact freeBlock_of_owned (howned.congr (by rw [tokenBlocks_nil, zero_add]))
  | @cons pointer part pointers parts htoken _ ih =>
      have hfirst : heap.Owned (tokenBlocks [pointer] +
          ({array} + (tokenBlocks pointers + owned))) := by
        refine howned.congr ?_
        rw [← List.singleton_append, tokenBlocks_append, add_assoc]
        exact add_left_comm _ _ _
      obtain ⟨heap1, hfree, howned1⟩ := htoken.sdsfree_eq hfirst
      obtain ⟨heap', hrest, howned'⟩ := ih howned1
      refine ⟨heap', ?_, howned'⟩
      rw [releaseTokens, List.foldlM_cons, hfree]
      exact hrest

end Freeing

namespace Splitting.Filled

variable {st : Splitting} {parts : List CString} {owned : Multiset ℕ} {room : ℕ}

/-- Less room may be asked for. -/
theorem mono (h : st.Filled parts owned room) {room' : ℕ} (hroom : room' ≤ room) :
    st.Filled parts owned room' :=
  { h with room_le := (Nat.add_le_add_left hroom _).trans h.room_le }

/-- The tokens are read. -/
theorem load_eq (h : st.Filled parts owned room) :
    Block.load st.tokens 0 st.elements = .ok (st.tokens.take st.elements) := by
  have hroom := h.room_le
  rw [Block.load, if_pos (by omega), List.drop_zero]

/-- **The cleanup frees every block of the splitting.** -/
theorem cleanup_eq (h : st.Filled parts owned room) :
    ∃ heap', st.cleanup = .ok heap' ∧ heap'.Owned owned := by
  obtain ⟨heap', hrelease, howned⟩ := releaseTokens_of_owned h.tokens h.owns
  exact ⟨heap', Except.bind_eq_ok_iff.mpr ⟨_, h.load_eq, hrelease⟩, howned⟩

/-- **`sdsfreesplitres` frees every block of the result.** -/
theorem sdsfreesplitres_eq (h : st.Filled parts owned room) :
    ∃ heap', sdsfreesplitres st.heap ⟨st.array, st.tokens, st.elements⟩ = .ok heap' ∧
      heap'.Owned owned := by
  have howned := h.owns
  rw [← tokenBlocks_reverse] at howned
  obtain ⟨heap', hrelease, howned'⟩ :=
    releaseTokens_of_owned (List.forall₂_reverse_iff.mpr h.tokens) howned
  exact ⟨heap', Except.bind_eq_ok_iff.mpr ⟨_, h.load_eq, hrelease⟩, howned'⟩

end Splitting.Filled

/-! ## Splitting -/

section Steps

variable {memory : ℕ → Allocator UInt8} {arrays : Allocator (Option Token)} {s sep : CString}
  {parts : List CString} {owned : Multiset ℕ} {j : ℕ} {st : Splitting}

/-- The separator is found where it is. -/
theorem separatorAt_iff (hsep : sep ≠ []) : separatorAt s sep j = true ↔ sep <+: s.drop j := by
  have hcompare : ((s.drop j).take sep.length == sep) = true ↔ sep <+: s.drop j := by
    rw [beq_iff_eq, List.prefix_iff_eq_take, eq_comm]
  rw [separatorAt, Bool.or_eq_true, hcompare, or_iff_right_of_imp]
  intro hshort
  obtain ⟨hone, hfirst⟩ := Bool.and_eq_true_iff.mp hshort
  obtain ⟨c, rfl⟩ := List.length_eq_one_iff.mp (of_decide_eq_true hone)
  have hget : s[j]? = some c := beq_iff_eq.mp hfirst
  obtain ⟨hj, hc⟩ := List.getElem?_eq_some_iff.mp hget
  rw [List.drop_eq_getElem_cons hj, hc]
  exact ⟨_, rfl⟩

/-- There is room for two more tokens. -/
theorem Splitting.Holds.ensureSlots_ends (h : st.Holds s sep parts owned j 1) :
    (st.ensureSlots arrays).Ends (·.Holds s sep parts owned j 2)
      (SplitFails memory arrays owned) := by
  rw [ensureSlots]
  split_ifs with hfull
  · have hroom := h.room_le
    cases hrealloc : arrays.realloc st.tokens (st.tokens.length * 2) with
    | none =>
        exact ⟨st, parts, rfl, h.toFilled.mono (Nat.zero_le _),
          fun hunlimited => hunlimited.2.realloc_ne _ _ hrealloc⟩
    | some newtokens =>
        have hlength := arrays.length_realloc hrealloc
        obtain ⟨more, hnew⟩ := arrays.prefix_realloc hrealloc List.prefix_rfl (by omega)
        have htake : newtokens.take st.elements = st.tokens.take st.elements := by
          rw [← hnew, List.take_append_of_le_length (by omega)]
        obtain ⟨array, heap, hblock, howned⟩ := h.owns.realloc
        simp only [hblock]
        refine ⟨⟨h.elements_eq, ?_, ?_, ?_⟩, h.scanned⟩
        · show st.elements + 2 ≤ newtokens.length
          omega
        · show (newtokens.take st.elements).Forall₂ IsToken parts
          rw [htake]
          exact h.tokens
        · show heap.Owned ({array} + (tokenBlocks (newtokens.take st.elements) + owned))
          rw [htake]
          exact howned
  · exact ⟨{ h.toFilled with room_le := by omega }, h.scanned⟩

/-- A pointer is stored behind the tokens. -/
theorem Splitting.Filled.setToken_eq {room : ℕ} (h : st.Filled parts owned (room + 1))
    (pointer : Option Token) :
    ∃ tokens, st.setToken pointer = .ok { st with tokens := tokens } ∧
      tokens.length = st.tokens.length ∧
      tokens.take (st.elements + 1) = st.tokens.take st.elements ++ [pointer] := by
  have hroom := h.room_le
  have hstore : Block.store st.tokens st.elements [pointer] =
      .ok (st.tokens.take st.elements ++ ([pointer] ++ st.tokens.drop (st.elements + 1))) :=
    if_pos (by rw [List.length_singleton]; omega)
  refine ⟨_, by rw [setToken, hstore], ?_, ?_⟩
  · simp only [List.length_append, List.length_take, List.length_drop, List.length_singleton]
    omega
  · have hfront : (st.tokens.take st.elements ++ [pointer]).length = st.elements + 1 := by
      rw [List.length_append, List.length_take, List.length_singleton]
      omega
    rw [← List.append_assoc, ← hfront, List.take_left]

/-- **A token is stored**, and there is room for one less. Where there is no memory for it, the tokens
before it are as they were. -/
theorem Splitting.Filled.push_ends {room : ℕ} {part : CString}
    (h : st.Filled parts owned (room + 1)) (hsize : part.length + 18 < 2 ^ 64) :
    (st.push memory part).Ends
      (fun st' => st'.start = st.start ∧ st'.Filled (parts ++ [part]) owned room)
      (SplitFails memory arrays owned) := by
  have hroom := h.room_le
  have hnew : (sdsnewlen (memory st.elements) part).Ends _ (memory st.elements).Fails :=
    sdsnewlen_ends hsize
  rw [push]
  cases hresult : sdsnewlen (memory st.elements) part with
  | error fault =>
      rw [hresult] at hnew
      obtain ⟨rfl, hlimited⟩ : fault = .failed ∧ ¬ (memory st.elements).Unlimited := hnew
      obtain ⟨tokens, hset, hlength, htake⟩ := h.setToken_eq none
      simp only [hset]
      refine ⟨{ st with tokens := tokens }, parts, rfl, ?_, fun hunlimited =>
        hlimited (hunlimited.1 _)⟩
      -- the `NULL` is behind the tokens that are freed
      have hsame : tokens.take st.elements = st.tokens.take st.elements := by
        have hfront := congrArg (List.take st.elements) htake
        rw [List.take_take, Nat.min_eq_left (Nat.le_succ _)] at hfront
        rw [hfront, List.take_left' (by rw [List.length_take]; omega)]
      refine ⟨h.elements_eq, ?_, ?_, ?_⟩
      · show st.elements + 0 ≤ tokens.length
        omega
      · show (tokens.take st.elements).Forall₂ IsToken parts
        rw [hsame]
        exact h.tokens
      · show st.heap.Owned ({st.array} + (tokenBlocks (tokens.take st.elements) + owned))
        rw [hsame]
        exact h.owns
  | ok token =>
      rw [hresult] at hnew
      obtain ⟨tokens, hset, hlength, htake⟩ := h.setToken_eq (some ⟨token, st.heap.malloc.1⟩)
      simp only [hset]
      refine ⟨rfl, ?_, ?_, ?_, ?_⟩
      · show st.elements + 1 = _
        rw [List.length_append, h.elements_eq]
        rfl
      · show st.elements + 1 + room ≤ tokens.length
        omega
      · show (tokens.take (st.elements + 1)).Forall₂ IsToken (parts ++ [part])
        rw [htake]
        exact List.rel_append h.tokens (List.Forall₂.cons ⟨_, part.length, rfl, hnew⟩ .nil)
      · show st.heap.malloc.2.Owned
          ({st.array} + (tokenBlocks (tokens.take (st.elements + 1)) + owned))
        refine h.owns.malloc.congr ?_
        rw [htake, tokenBlocks_append, tokenBlocks_some, add_assoc (tokenBlocks _),
          add_left_comm (tokenBlocks _)]
        exact add_left_comm _ _ _

/-- **A round** goes on behind the separator or by one character. -/
theorem Splitting.Holds.round_ends (h : st.Holds s sep parts owned j 1) (hsep : sep ≠ [])
    (hsize : s.length + 18 < 2 ^ 64) :
    (st.round memory arrays s sep j).Ends
      (fun next => j < next.1 ∧ ∃ parts', next.2.Holds s sep parts' owned next.1 1)
      (SplitFails memory arrays owned) := by
  have hpos := List.length_pos_iff.mpr hsep
  rw [round]
  refine h.ensureSlots_ends.bind fun st1 h1 => ?_
  split_ifs with hfound
  · have hprefix := (separatorAt_iff hsep).mp hfound
    have hpart : ((s.take j).drop st1.start).length + 18 < 2 ^ 64 := by
      rw [List.length_drop, List.length_take]
      omega
    refine (h1.toFilled.push_ends hpart).bind fun st2 h2 => ?_
    obtain ⟨hstart, hfilled⟩ := h2
    have hnext : j + sep.length - 1 + 1 = j + sep.length := by omega
    refine ⟨?_, _, { hfilled with }, ?_⟩
    · show j < j + sep.length - 1 + 1
      omega
    · show Scanned sep s _ (j + sep.length) (j + sep.length - 1 + 1)
      rw [hnext]
      exact h1.scanned.found hsep hprefix
  · have hno : ¬ sep <+: s.drop j := fun hprefix => hfound ((separatorAt_iff hsep).mpr hprefix)
    exact ⟨Nat.lt_succ_self j, parts, h1.toFilled.mono (Nat.le_succ _), h1.scanned.next hno⟩

/-- **The loop** ends behind the last place where the separator fits. -/
theorem splitLoop_ends {rounds : ℕ} (h : st.Holds s sep parts owned j 1) (hsep : sep ≠ [])
    (hrounds : s.length ≤ rounds + j) (hsize : s.length + 18 < 2 ^ 64) :
    (splitLoop memory arrays s sep rounds j st).Ends
      (fun st' => ∃ parts' j', st'.Holds s sep parts' owned j' 1 ∧ s.length < j' + sep.length)
      (SplitFails memory arrays owned) := by
  have hpos := List.length_pos_iff.mpr hsep
  induction rounds generalizing j st parts with
  | zero => exact ⟨parts, j, h, by omega⟩
  | succ rounds ih =>
      rw [splitLoop]
      split_ifs with hj
      · refine (h.round_ends hsep hsize).bind fun next hnext => ?_
        obtain ⟨hlt, parts', hholds⟩ := hnext
        exact ih hholds (by omega)
      · exact ⟨parts, j, h, by omega⟩

/-- **The tokens** hold the parts of the text. -/
theorem splitTokens_ends (h : st.Holds s sep [] owned 0 1) (hsep : sep ≠ [])
    (hsize : s.length + 18 < 2 ^ 64) :
    (splitTokens memory arrays s sep st).Ends
      (fun st' => ∃ parts, IsSplit sep parts s ∧ st'.Filled parts owned 0)
      (SplitFails memory arrays owned) := by
  refine (splitLoop_ends h hsep (by omega) hsize).bind fun st1 h1 => ?_
  obtain ⟨parts, j, hholds, hend⟩ := h1
  have hpart : (s.drop st1.start).length + 18 < 2 ^ 64 := by
    rw [List.length_drop]
    omega
  exact (hholds.toFilled.push_ends hpart).mono
    (fun st' h' => ⟨_, hholds.scanned.finish hsep hend, h'.2⟩) fun _ hf => hf

end Steps

section Lookup

variable {memory : ℕ → Allocator UInt8} {arrays : Allocator (Option Token)} {heap : Heap}
  {owned : Multiset ℕ}

/-- **`sdssplitlen` with its memory**, with a separator of one byte: the array has the parts that
`sdssplitlen` says, or an allocation failed and everything that was allocated is free again. -/
theorem sdssplitlenTokens_cases {s : CString} {sep : UInt8} (howned : heap.Owned owned)
    (hsize : s.length + 18 < 2 ^ 64) :
    ∃ fields heap', sdssplitlenTokens memory arrays heap s [sep] = .ok (fields, heap') ∧
      ((∃ st : Splitting, fields = some ⟨st.array, st.tokens, st.elements⟩ ∧ heap' = st.heap ∧
          st.Filled (sdssplitlen s sep) owned 0) ∨
        fields = none ∧ heap'.Owned owned ∧ ¬ Allocates memory arrays) := by
  rw [sdssplitlenTokens, if_neg (by simp)]
  cases hmalloc : arrays.malloc 5 with
  | none =>
      exact ⟨none, heap, rfl, .inr ⟨rfl, howned, fun hunlimited =>
        hunlimited.2.malloc_ne _ hmalloc⟩⟩
  | some tokens =>
      have hslots := arrays.length_malloc hmalloc
      have hstart : (Splitting.mk heap.malloc.2 heap.malloc.1 tokens 0 0).Filled [] owned 1 :=
        ⟨rfl, by show 0 + 1 ≤ tokens.length; omega, .nil,
          howned.malloc.congr (by rw [List.take_zero, tokenBlocks_nil, zero_add])⟩
      rw [sdssplitlen]
      by_cases hs : s = []
      · subst hs
        exact ⟨_, _, rfl, .inl ⟨_, rfl, rfl, hstart.mono (Nat.zero_le _)⟩⟩
      · have hlength := List.length_pos_iff.mpr hs
        simp only [if_neg hs, if_neg (show ¬ s.length = 0 by omega)]
        have hsplit : (splitTokens memory arrays s [sep] _).Ends _ (SplitFails memory arrays owned) :=
          splitTokens_ends ⟨hstart, Scanned.zero⟩ (by simp) hsize
        cases hresult : splitTokens memory arrays s [sep]
            ⟨heap.malloc.2, heap.malloc.1, tokens, 0, 0⟩ with
        | ok st =>
            rw [hresult] at hsplit
            obtain ⟨parts, hparts, hfilled⟩ := hsplit
            rw [hparts.eq_splitOn] at hfilled
            exact ⟨_, _, rfl, .inl ⟨st, rfl, rfl, hfilled⟩⟩
        | error stop =>
            rw [hresult] at hsplit
            obtain ⟨st, parts, rfl, hfilled, hlimited⟩ := hsplit
            obtain ⟨heap', hcleanup, howned'⟩ := hfilled.cleanup_eq
            refine ⟨none, heap', ?_, .inr ⟨rfl, howned', hlimited⟩⟩
            simp only [hcleanup]
            rfl

/-- A part of a path is no longer than the path, and has no NUL if the path has none. -/
theorem part_of_path {path part : CString} (hnul : 0 ∉ path) (hmem : part ∈ sdssplitlen path 46) :
    part.length ≤ path.length ∧ 0 ∉ part := by
  rw [sdssplitlen] at hmem
  split_ifs at hmem
  · simp at hmem
  · have hjoined : [46].intercalate (path.splitOn 46) = path := List.intercalate_splitOn 46
    have hwithin : part <:+: path := by
      rw [← hjoined]
      exact infix_intercalate hmem
    exact ⟨hwithin.length_le, fun h => hnul (hwithin.subset h)⟩

/-- **A round** finds what the part of the token selects. -/
theorem fieldOfToken_eq {current : CJson} {token : Option Token} {part : CString}
    (htoken : IsToken token part) (hsize : part.length < 2 ^ 31) (hnul : 0 ∉ part) :
    fieldOfToken current token = .ok (fieldOf current part) := by
  obtain ⟨⟨s, block⟩, alloc, rfl, hholds⟩ := htoken
  have hcount : (toInt32 (part.length : ℤ)).toNat = part.length := by
    rw [toInt32_natCast hsize, Int.toNat_natCast]
  have hload : Block.load s.block s.start (toInt32 (part.length : ℤ)).toNat = .ok part := by
    rw [hcount]
    exact hholds.load_eq
  have hname : untilNul s.cString = part := by
    rw [hholds.untilNul_cString, untilNul_eq_self fun c hc h => hnul (h ▸ hc)]
  rw [fieldOfToken, fieldOf]
  refine Except.bind_eq_ok_iff.mpr ⟨_, hholds.sdslen_eq, ?_⟩
  refine Except.bind_eq_ok_iff.mpr ⟨part, hload, ?_⟩
  rw [hname]
  simp only
  split_ifs <;> rfl

/-- The lookup on the tokens goes the way of the lookup on their parts. -/
theorem fieldOfTokens_eq {current : Option CJson} {tokens : List (Option Token)} {parts : List CString}
    (htokens : tokens.Forall₂ IsToken parts)
    (hparts : ∀ part ∈ parts, part.length < 2 ^ 31 ∧ 0 ∉ part) :
    fieldOfTokens current tokens = .ok (getJsonFieldLoop current parts) := by
  induction htokens generalizing current with
  | nil => cases current <;> rfl
  | @cons token part tokens parts htoken _ ih =>
      obtain ⟨⟨hsize, hnul⟩, hrest⟩ := List.forall_mem_cons.mp hparts
      cases current with
      | none => rfl
      | some current =>
          rw [fieldOfTokens, fieldOfToken_eq htoken hsize hnul]
          exact ih hrest

end Lookup

/-- A flag below five members and an element. -/
def nestedFlag : CJson :=
  .object [(ofAscii "a", .object [(ofAscii "b", .object [(ofAscii "c", .object [(ofAscii "d",
    .array [.null, .object [(ofAscii "e", .bool true)]])])])])]

/-- There is memory for four tokens. -/
def memoryForFour (n : ℕ) : Allocator UInt8 := if n < 4 then .filling 0 else .exhausted

end OcgeoFdw
