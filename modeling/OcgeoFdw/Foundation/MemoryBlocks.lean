import OcgeoFdw.Foundation.Completion

/-! # Blocks of memory

Blocks that are written through offsets, with accesses outside them as faults of their own, and
allocators as far as their documentation goes: a block has the size that was asked for, `realloc`
keeps what was in the old one, and either may fail. The rules follow what is known at the start of a
block, while the rest of it is arbitrary. -/

/-- How a function that works on blocks ends without a result. -/
inductive MemoryFault
  /-- It reports a failure to its caller. -/
  | failed
  /-- It reads or writes outside a block. -/
  | overrun
  deriving DecidableEq

namespace Block

universe u

variable {α : Type u}

/-- Stores elements from an offset on. -/
def store (block : List α) (offset : ℕ) (elements : List α) : Except MemoryFault (List α) :=
  if offset + elements.length ≤ block.length then
    .ok (block.take offset ++ (elements ++ block.drop (offset + elements.length)))
  else .error .overrun

/-- Reads a number of elements from an offset on. -/
def load (block : List α) (offset count : ℕ) : Except MemoryFault (List α) :=
  if offset + count ≤ block.length then .ok ((block.drop offset).take count)
  else .error .overrun

/-- How far the first `stop` is from an offset. -/
def lengthTo [DecidableEq α] (stop : α) (block : List α) (offset : ℕ) : Except MemoryFault ℕ :=
  if stop ∈ block.drop offset then .ok ((block.drop offset).takeWhile (· ≠ stop)).length
  else .error .overrun

/-- What is in the middle of a block is read. -/
theorem load_append {front middle back : List α} {offset count : ℕ}
    (hoffset : front.length = offset) (hcount : middle.length = count) :
    load (front ++ (middle ++ back)) offset count = .ok middle := by
  subst hoffset hcount
  have hfit : front.length + middle.length ≤ (front ++ (middle ++ back)).length := by
    simp only [List.length_append]
    omega
  rw [load, if_pos hfit, List.drop_left, List.take_left]

/-- Storing behind the front of a block keeps the front and what is behind the elements. -/
theorem store_append {front back elements : List α} {offset : ℕ}
    (hoffset : front.length = offset) (hfit : elements.length ≤ back.length) :
    store (front ++ back) offset elements =
      .ok (front ++ (elements ++ back.drop elements.length)) := by
  subst hoffset
  have hroom : front.length + elements.length ≤ (front ++ back).length := by
    rw [List.length_append]
    omega
  rw [store, if_pos hroom, List.take_left, List.drop_append]
  simp

/-- **What is stored behind a known start of a block extends it**, and the size stays. -/
theorem store_of_prefix {block start elements : List α} (hstart : start <+: block)
    (hfit : start.length + elements.length ≤ block.length) :
    ∃ block', store block start.length elements = .ok block' ∧ block'.length = block.length ∧
      start ++ elements <+: block' := by
  obtain ⟨rest, rfl⟩ := hstart
  refine ⟨_, if_pos hfit, ?_, ?_⟩
  · simp only [List.length_append, List.length_take, List.length_drop] at hfit ⊢
    omega
  · rw [List.take_left, ← List.append_assoc]
    exact List.prefix_append _ _

/-- The distance to the first `stop` is found in the known start of a block. -/
theorem lengthTo_of_prefix [DecidableEq α] {stop : α} {block start elements : List α}
    (hstart : start ++ (elements ++ [stop]) <+: block) (hno : ∀ a ∈ elements, a ≠ stop) :
    lengthTo stop block start.length = .ok elements.length := by
  obtain ⟨rest, rfl⟩ := hstart
  have hdrop : (start ++ (elements ++ [stop]) ++ rest).drop start.length =
      elements ++ stop :: rest := by
    rw [List.append_assoc, List.drop_left, List.append_assoc]
    rfl
  have hmem : stop ∈ elements ++ stop :: rest := by simp
  rw [lengthTo, hdrop, if_pos hmem,
    List.takeWhile_append_of_pos fun a ha => decide_eq_true (hno a ha),
    List.takeWhile_cons_of_neg (by simp), List.append_nil]

end Block

/-- An allocator, as far as requests go that differ: what it answers depends on the request. A function
that may make one request twice takes an allocator for each time. What is in a new block behind the
old contents is arbitrary. -/
structure Allocator (α : Type) where
  /-- A block of a size, unless there is no memory for it. -/
  malloc : ℕ → Option (List α)
  /-- A block of a new size with the contents of an old one. -/
  realloc : List α → ℕ → Option (List α)
  /-- The size of a new block. -/
  length_malloc : ∀ {n block}, malloc n = some block → block.length = n
  /-- The size of a reallocated block. -/
  length_realloc : ∀ {block n block'}, realloc block n = some block' → block'.length = n
  /-- The contents are kept as far as both blocks go. -/
  realloc_keeps : ∀ {block n block'}, realloc block n = some block' → block.take n <+: block'

namespace Allocator

variable {α : Type}

/-- The allocator has memory for every request. -/
structure Unlimited (memory : Allocator α) : Prop where
  /-- No `malloc` fails. -/
  malloc_ne : ∀ n, memory.malloc n ≠ none
  /-- No `realloc` fails. -/
  realloc_ne : ∀ block n, memory.realloc block n ≠ none

/-- The only fault is a failure, and the allocator causes it. -/
def Fails (memory : Allocator α) (fault : MemoryFault) : Prop :=
  fault = .failed ∧ ¬ memory.Unlimited

/-- A failed `malloc` is a failure of the allocator. -/
theorem fails_of_malloc {memory : Allocator α} {n : ℕ} (h : memory.malloc n = none) :
    memory.Fails .failed :=
  ⟨rfl, fun hmemory => hmemory.malloc_ne n h⟩

/-- A failed `realloc` is a failure of the allocator. -/
theorem fails_of_realloc {memory : Allocator α} {block : List α} {n : ℕ}
    (h : memory.realloc block n = none) : memory.Fails .failed :=
  ⟨rfl, fun hmemory => hmemory.realloc_ne block n h⟩

/-- An allocator that fills new memory with one element. -/
def filling (fill : α) : Allocator α where
  malloc n := some (List.replicate n fill)
  realloc block n := some (block.take n ++ List.replicate (n - block.length) fill)
  length_malloc := by
    intro n block h
    rw [← Option.some.inj h, List.length_replicate]
  length_realloc := by
    intro block n block' h
    rw [← Option.some.inj h, List.length_append, List.length_take, List.length_replicate]
    omega
  realloc_keeps := by
    intro block n block' h
    rw [← Option.some.inj h]
    exact List.prefix_append _ _

/-- It has memory for every request. -/
theorem unlimited_filling (fill : α) : (filling fill).Unlimited where
  malloc_ne _ := Option.some_ne_none _
  realloc_ne _ _ := Option.some_ne_none _

/-- An allocator without memory. -/
def exhausted : Allocator α where
  malloc _ := none
  realloc _ _ := none
  length_malloc := nofun
  length_realloc := nofun
  realloc_keeps := nofun

/-- What is known at the start of a block is known of the reallocated one, if it still fits. -/
theorem prefix_realloc (memory : Allocator α) {block block' start : List α} {n : ℕ}
    (h : memory.realloc block n = some block') (hstart : start <+: block) (hle : start.length ≤ n) :
    start <+: block' :=
  (List.prefix_take_iff.mpr ⟨hstart, hle⟩).trans (memory.realloc_keeps h)

end Allocator
