import Mathlib.Algebra.Order.Group.Multiset
import OcgeoFdw.Foundation.Completion

/-! # Heaps and who owns their blocks

A heap as the blocks that are live, each with a number of its own. Freeing a block that is not live
is a fault. The rules follow which blocks a program owns: an allocation adds one, and what is owned
can be freed once. No operation brings a block back that was freed. -/

/-- The live blocks, and the number of the next. -/
structure Heap where
  live : Multiset ℕ
  next : ℕ

/-- The use of something that is not a live block. -/
structure NotLive where
  block : ℕ

namespace Heap

/-- A heap without blocks. -/
def empty : Heap := ⟨0, 0⟩

/-- A new block. -/
def malloc (h : Heap) : ℕ × Heap := (h.next, ⟨h.next ::ₘ h.live, h.next + 1⟩)

/-- New blocks, as many as asked for. -/
def mallocs : ℕ → Heap → List ℕ × Heap
  | 0, h => ([], h)
  | n + 1, h =>
      let (block, h) := h.malloc
      let (blocks, h) := mallocs n h
      (block :: blocks, h)

/-- `free`: nothing happens to `NULL`. -/
def free (h : Heap) : Option ℕ → Except NotLive Heap
  | none => .ok h
  | some block =>
      if block ∈ h.live then .ok { h with live := h.live.erase block } else .error ⟨block⟩

/-- `realloc` of a block: it is freed, and a new one takes its place. -/
def realloc (h : Heap) (block : ℕ) : Except NotLive (ℕ × Heap) :=
  match h.free (some block) with
  | .error e => .error e
  | .ok h => .ok h.malloc

/-- Pointers are freed one after the other. -/
def frees (h : Heap) (pointers : List (Option ℕ)) : Except NotLive Heap := pointers.foldlM free h

/-- The blocks that pointers point to. -/
def blocks (pointers : List (Option ℕ)) : Multiset ℕ := (pointers.filterMap id : Multiset ℕ)

/-- The live blocks are the owned ones, all different, and the next number is new. -/
structure Owned (h : Heap) (owned : Multiset ℕ) : Prop where
  live_eq : h.live = owned
  nodup : owned.Nodup
  fresh : ∀ block ∈ owned, block < h.next

variable {h h' : Heap} {owned : Multiset ℕ}

@[simp] theorem blocks_nil : blocks [] = 0 := rfl

@[simp] theorem blocks_none : blocks [none] = 0 := rfl

@[simp] theorem blocks_some (block : ℕ) : blocks [some block] = {block} := rfl

theorem blocks_append (pointers pointers' : List (Option ℕ)) :
    blocks (pointers ++ pointers') = blocks pointers + blocks pointers' := by
  rw [blocks, List.filterMap_append, ← Multiset.coe_add]
  rfl

theorem blocks_cons (pointer : Option ℕ) (pointers : List (Option ℕ)) :
    blocks (pointer :: pointers) = blocks [pointer] + blocks pointers :=
  blocks_append [pointer] pointers

/-- Nothing is owned in the empty heap. -/
theorem owned_empty : empty.Owned 0 := ⟨rfl, Multiset.nodup_zero, by simp⟩

/-- The owned blocks may be written in another order. -/
theorem Owned.congr {owned' : Multiset ℕ} (howned : h.Owned owned) (heq : owned = owned') :
    h.Owned owned' :=
  heq ▸ howned

/-- **A new block is owned** besides the others. -/
theorem Owned.malloc (howned : h.Owned owned) : h.malloc.2.Owned ({h.malloc.1} + owned) where
  live_eq := congrArg (h.next ::ₘ ·) howned.live_eq
  nodup := Multiset.nodup_cons.mpr ⟨fun hmem => (howned.fresh _ hmem).false, howned.nodup⟩
  fresh := by
    intro block hblock
    rcases Multiset.mem_cons.mp hblock with rfl | hblock
    · exact Nat.lt_succ_self _
    · exact (howned.fresh block hblock).trans (Nat.lt_succ_self _)

/-- **What is owned can be freed**, and then the rest is owned. -/
theorem Owned.free {pointer : Option ℕ} (howned : h.Owned (blocks [pointer] + owned)) :
    ∃ h', h.free pointer = .ok h' ∧ h'.Owned owned := by
  cases pointer with
  | none => exact ⟨h, rfl, by simpa using howned⟩
  | some block =>
      have howned' : h.Owned (block ::ₘ owned) := howned
      have hmem : block ∈ h.live := by
        rw [howned'.live_eq]
        exact Multiset.mem_cons_self _ _
      refine ⟨_, if_pos hmem, ?_, (Multiset.nodup_cons.mp howned'.nodup).2, ?_⟩
      · show h.live.erase block = owned
        rw [howned'.live_eq, Multiset.erase_cons_head]
      · exact fun b hb => howned'.fresh b (Multiset.mem_cons_of_mem hb)

/-- What is owned can be reallocated, and then the new block is owned in its place. -/
theorem Owned.realloc {block : ℕ} (howned : h.Owned ({block} + owned)) :
    ∃ block' h', h.realloc block = .ok (block', h') ∧ h'.Owned ({block'} + owned) := by
  obtain ⟨h1, hfree, howned1⟩ := @Owned.free _ _ (some block) howned
  refine ⟨h1.malloc.1, h1.malloc.2, ?_, howned1.malloc⟩
  rw [Heap.realloc, hfree]

/-- Several pointers can be freed. -/
theorem Owned.frees {pointers : List (Option ℕ)} (howned : h.Owned (blocks pointers + owned)) :
    ∃ h', h.frees pointers = .ok h' ∧ h'.Owned owned := by
  induction pointers generalizing h with
  | nil => exact ⟨h, rfl, by simpa using howned⟩
  | cons pointer pointers ih =>
      rw [blocks_cons, add_assoc] at howned
      obtain ⟨h1, hfree, howned1⟩ := howned.free
      obtain ⟨h2, hfrees, howned2⟩ := ih howned1
      refine ⟨h2, ?_, howned2⟩
      rw [Heap.frees, List.foldlM_cons, hfree]
      exact hfrees

/-- There are as many new blocks as asked for. -/
theorem length_mallocs (n : ℕ) (h : Heap) : (mallocs n h).1.length = n := by
  induction n generalizing h with
  | zero => rfl
  | succ n ih => exact congrArg (· + 1) (ih h.malloc.2)

/-- New blocks are owned. -/
theorem Owned.mallocs {n : ℕ} (howned : h.Owned owned) :
    (Heap.mallocs n h).2.Owned (((Heap.mallocs n h).1 : Multiset ℕ) + owned) := by
  induction n generalizing h owned with
  | zero => simpa [Heap.mallocs] using howned
  | succ n ih =>
      refine (ih howned.malloc).congr ?_
      show _ = (((h.malloc.1 :: (Heap.mallocs n h.malloc.2).1 : List ℕ) : Multiset ℕ) + owned)
      rw [← Multiset.cons_coe, ← Multiset.singleton_add, ← add_assoc, add_comm {h.malloc.1}]

/-! ## Later heaps -/

/-- A heap that a program may have later: no block of before is live again. -/
structure Later (h h' : Heap) : Prop where
  next_le : h.next ≤ h'.next
  live_of_lt : ∀ block < h.next, block ∈ h'.live → block ∈ h.live

theorem Later.refl (h : Heap) : h.Later h := ⟨le_rfl, fun _ _ hlive => hlive⟩

theorem Later.trans {h'' : Heap} (hfirst : h.Later h') (hrest : h'.Later h'') : h.Later h'' where
  next_le := hfirst.next_le.trans hrest.next_le
  live_of_lt := fun block hlt hlive =>
    hfirst.live_of_lt block hlt (hrest.live_of_lt block (hlt.trans_le hfirst.next_le) hlive)

/-- A new block has a number of its own. -/
theorem later_malloc (h : Heap) : h.Later h.malloc.2 where
  next_le := Nat.le_succ _
  live_of_lt := by
    intro block hlt hlive
    rcases Multiset.mem_cons.mp hlive with rfl | hlive
    · exact absurd hlt (lt_irrefl _)
    · exact hlive

theorem later_mallocs (n : ℕ) (h : Heap) : h.Later (mallocs n h).2 := by
  induction n generalizing h with
  | zero => exact .refl h
  | succ n ih => exact (later_malloc h).trans (ih h.malloc.2)

theorem later_of_free {pointer : Option ℕ} (hfree : h.free pointer = .ok h') : h.Later h' := by
  cases pointer with
  | none =>
      obtain rfl := Except.ok.inj hfree
      exact .refl h
  | some block =>
      rw [free] at hfree
      split_ifs at hfree
      obtain rfl := Except.ok.inj hfree
      exact ⟨le_rfl, fun _ _ hlive => Multiset.mem_of_mem_erase hlive⟩

theorem later_of_frees {pointers : List (Option ℕ)} (hfrees : h.frees pointers = .ok h') :
    h.Later h' := by
  induction pointers generalizing h with
  | nil =>
      obtain rfl := Except.ok.inj hfrees
      exact .refl h
  | cons pointer pointers ih =>
      rw [Heap.frees, List.foldlM_cons] at hfrees
      obtain ⟨h1, hfree, hrest⟩ := Except.bind_eq_ok_iff.mp hfrees
      exact (later_of_free hfree).trans (ih hrest)

end Heap
