import Mathlib.Data.Nat.Size
import OcgeoFdw.Api.SdsStrings
import OcgeoFdw.Foundation.EventRuns

/-! # Runs of appends

A string that grows by `sdscatlen`. However the bytes are cut into pieces, the string holds all of
them; its free space stays below its length, and the number of allocations grows with the length only
by one in a mebibyte. -/

namespace OcgeoFdw

open Sds

/-- The pointer that a function returned is assigned without a check: a failure is a `NULL`. -/
def orNull : Except MemoryFault Sds → Except MemoryFault (Option Sds)
  | .ok s => .ok (some s)
  | .error .failed => .ok none
  | .error .overrun => .error .overrun

/-- `s = append(s)`, where the append reads in front of `s` even if it is `NULL`. -/
def reassign (append : Sds → Except MemoryFault Sds) : Option Sds → Except MemoryFault (Option Sds)
  | none => .error .overrun
  | some s => orNull (append s)

/-- `write_callback`, for a transfer whose data is `data`. -/
def writeCallback (memory : Allocator UInt8) (data : Option Sds) (ptr : CString) :
    Except MemoryFault (Option Sds) :=
  reassign (fun s => sdscatlen memory s ptr) data

/-- One append, and whether `sdsMakeRoomFor` allocates in it. -/
def appendStep (memory : Allocator UInt8) (s : Sds) (t : CString) :
    Except MemoryFault (Bool × Sds) := do
  let avail ← sdsavail s
  let s' ← sdscatlen memory s t
  .ok (decide (avail < t.length), s')

variable {memory : Allocator UInt8}

/-! ## Without checks -/

/-- **The callbacks of a transfer** leave all the bytes behind, however they are cut. Otherwise an
allocation failed: if that was the last callback the pointer is `NULL`, and if it was not, the next
one reads in front of `NULL`. -/
theorem writeCallbacks_cases {s : Sds} {alloc : ℕ} {text : CString} (h : s.Holds alloc text)
    {chunks : List CString}
    (hsize : text.length + chunks.flatten.length + sdsMaxPrealloc + 18 < 2 ^ 64) :
    (∃ s' alloc', chunks.foldlM (writeCallback memory) (some s) = .ok (some s') ∧
      s'.Holds alloc' (text ++ chunks.flatten)) ∨
    ¬ memory.Unlimited ∧ ∃ front ptr back s', chunks = front ++ ptr :: back ∧
      front.foldlM (writeCallback memory) (some s) = .ok (some s') ∧
      sdscatlen memory s' ptr = .error .failed ∧
      chunks.foldlM (writeCallback memory) (some s) =
        if back = [] then .ok none else .error .overrun := by
  induction chunks generalizing s alloc text with
  | nil => exact Or.inl ⟨s, alloc, rfl, by simpa using h⟩
  | cons ptr chunks ih =>
      rw [List.flatten_cons, List.length_append] at hsize
      have hstep : (sdscatlen memory s ptr).Ends _ memory.Fails := sdscatlen_ends h (by omega)
      cases happend : sdscatlen memory s ptr with
      | error fault =>
          rw [happend] at hstep
          obtain ⟨rfl, hlimited⟩ : fault = .failed ∧ ¬ memory.Unlimited := hstep
          -- the failed append leaves NULL, which a further piece would be appended to
          have hfirst : writeCallback memory (some s) ptr = .ok none := by
            simp only [writeCallback, reassign, orNull, happend]
          refine Or.inr ⟨hlimited, [], ptr, chunks, s, rfl, rfl, happend, ?_⟩
          rw [List.foldlM_cons, hfirst]
          cases chunks with
          | nil => rfl
          | cons next chunks => rfl
      | ok s1 =>
          rw [happend] at hstep
          have hfirst : writeCallback memory (some s) ptr = .ok (some s1) := by
            simp only [writeCallback, reassign, orNull, happend]
          have hcons : ∀ rest : List CString, (ptr :: rest).foldlM (writeCallback memory) (some s) =
              rest.foldlM (writeCallback memory) (some s1) := by
            intro rest
            rw [List.foldlM_cons, hfirst]
            rfl
          have hrest := ih (s := s1) hstep (by rw [List.length_append]; omega)
          rw [List.append_assoc] at hrest
          rw [hcons, List.flatten_cons]
          refine hrest.imp_right ?_
          rintro ⟨hlimited, front, last, back, s', rfl, hfront, hlast, hresult⟩
          exact ⟨hlimited, ptr :: front, last, back, s', rfl, (hcons front).trans hfront, hlast,
            hresult⟩

/-! ## Allocations -/

/-- A step appends the bytes, and it allocates where they do not fit. -/
theorem appendStep_holds {s s' : Sds} {alloc : ℕ} {text t : CString} {grew : Bool}
    (h : s.Holds alloc text) (hsize : text.length + t.length + sdsMaxPrealloc + 18 < 2 ^ 64)
    (hstep : appendStep memory s t = .ok (grew, s')) :
    s'.Holds (sdsAllocFor alloc (text.length + t.length)) (text ++ t) ∧
      grew = decide (alloc < text.length + t.length) := by
  have hused : text.length ≤ alloc := by
    obtain ⟨type, rest, hhas⟩ := h
    exact hhas.used
  have havail : sdsavail s = .ok (alloc - text.length) := by
    obtain ⟨type, rest, hhas⟩ := h
    rw [hhas.eq_make, sdsavail_make hhas.used hhas.counted hhas.exact]
  have happend : (sdscatlen memory s t).Ends _ memory.Fails := sdscatlen_ends h hsize
  obtain ⟨avail, havail', hrest⟩ := Except.bind_eq_ok_iff.mp hstep
  obtain rfl := Except.ok.inj (havail.symm.trans havail')
  obtain ⟨s1, hs1, hresult⟩ := Except.bind_eq_ok_iff.mp hrest
  obtain ⟨rfl, rfl⟩ := Prod.mk.inj (Except.ok.inj hresult)
  rw [hs1] at happend
  refine ⟨happend, ?_⟩
  congr 1
  apply propext
  omega

/-- What allocations raise: the number of binary digits up to a mebibyte, then the number of
mebibytes. -/
def growth (alloc : ℕ) : ℕ :=
  min alloc.size 21 + (alloc - sdsMaxPrealloc) / sdsMaxPrealloc

/-- A number has fewer binary digits than the double of a larger one. -/
theorem size_lt_size_double {a b : ℕ} (h : a < b) : a.size < (b * 2).size := by
  rw [Nat.lt_size]
  rcases Nat.eq_zero_or_pos a with rfl | hpos
  · rw [Nat.size_zero]
    omega
  · have hdigits : 2 ^ (a.size - 1) ≤ a := by
      rw [← Nat.lt_size]
      have := Nat.size_pos.mpr hpos
      omega
    have hdouble : 2 ^ a.size = 2 ^ (a.size - 1) * 2 := by
      rw [← pow_succ, Nat.sub_add_cancel (Nat.size_pos.mpr hpos)]
    omega

/-- **Every allocation raises it.** -/
theorem growth_lt {alloc needed : ℕ} (h : alloc < needed)
    (hsize : needed + sdsMaxPrealloc + 18 < 2 ^ 64) : growth alloc < growth (sdsGrown needed) := by
  have hmax : sdsMaxPrealloc = 2 ^ 20 := rfl
  rw [sdsGrown]
  split_ifs with hsmall
  · -- the double has one binary digit more
    have hdouble : sizeT (needed * 2) = needed * 2 := Nat.mod_eq_of_lt (by omega)
    have hdigits : alloc.size ≤ 20 := Nat.size_le.mpr (by omega)
    have hmore := size_lt_size_double h
    have hnone : alloc - sdsMaxPrealloc = 0 := by omega
    have hless : min alloc.size 21 < min (needed * 2).size 21 := by omega
    rw [hdouble, growth, growth, hnone, Nat.zero_div]
    exact Nat.add_lt_add_of_lt_of_le hless (Nat.zero_le _)
  · -- there is one mebibyte more
    have hadd : sizeT (needed + sdsMaxPrealloc) = needed + sdsMaxPrealloc :=
      Nat.mod_eq_of_lt (by omega)
    have hdigits : alloc.size ≤ (needed + sdsMaxPrealloc).size := Nat.size_le_size (by omega)
    have hmore : (alloc - sdsMaxPrealloc) / sdsMaxPrealloc < needed / sdsMaxPrealloc := by
      rw [hmax] at hsmall ⊢
      omega
    rw [hadd, growth, growth, Nat.add_sub_cancel]
    omega

/-- The free space is neither longer than the text nor than a mebibyte. -/
def Tight (alloc length : ℕ) : Prop := alloc ≤ length + min length sdsMaxPrealloc

/-- An append keeps it so. -/
theorem Tight.append {alloc length addlen : ℕ} (h : Tight alloc length)
    (hsize : length + addlen + sdsMaxPrealloc + 18 < 2 ^ 64) :
    Tight (sdsAllocFor alloc (length + addlen)) (length + addlen) := by
  rw [Tight] at h ⊢
  rw [sdsAllocFor]
  split_ifs with henough
  · omega
  · rw [sdsGrown]
    split_ifs with hsmall
    · have hdouble : sizeT ((length + addlen) * 2) = (length + addlen) * 2 :=
        Nat.mod_eq_of_lt (by omega)
      omega
    · have hadd : sizeT (length + addlen + sdsMaxPrealloc) = length + addlen + sdsMaxPrealloc :=
        Nat.mod_eq_of_lt (by omega)
      omega

/-- Along a run of appends the text grows by the pieces, the free space stays small, and the
allocations are paid by what they raise. -/
theorem appendSteps_hold {s s' : Sds} {alloc : ℕ} {text : CString} {pieces : List CString}
    {grew : List Bool} (h : s.Holds alloc text) (htight : Tight alloc text.length)
    (hsize : text.length + pieces.flatten.length + sdsMaxPrealloc + 18 < 2 ^ 64)
    (hrun : EventRun.run (appendStep memory) s pieces = .ok (grew, s')) :
    ∃ alloc', s'.Holds alloc' (text ++ pieces.flatten) ∧
      Tight alloc' (text ++ pieces.flatten).length ∧
      grew.count true + growth alloc ≤ growth alloc' := by
  induction pieces generalizing s alloc text grew with
  | nil =>
      obtain ⟨rfl, rfl⟩ : [] = grew ∧ s = s' := by simpa using hrun
      exact ⟨alloc, by simpa using h, by simpa using htight, by simp⟩
  | cons t pieces ih =>
      obtain ⟨first, s1, rest, hstep, hrest, rfl⟩ := EventRun.exists_of_run_cons hrun
      rw [List.flatten_cons, List.length_append] at hsize
      obtain ⟨hholds, hfirst⟩ := appendStep_holds h (by omega) hstep
      have hlength : (text ++ t).length = text.length + t.length := List.length_append
      have htight1 : Tight (sdsAllocFor alloc (text.length + t.length)) (text ++ t).length := by
        rw [hlength]
        exact htight.append (by omega)
      obtain ⟨alloc', hholds', htight', hcount⟩ := ih hholds htight1 (by omega) hrest
      rw [List.append_assoc] at hholds' htight'
      refine ⟨alloc', hholds', htight', ?_⟩
      rw [List.count_cons]
      -- a reallocation is paid for by the growth of the allocation
      have hpaid : growth alloc + (if first = true then 1 else 0) ≤
          growth (sdsAllocFor alloc (text.length + t.length)) := by
        rw [sdsAllocFor]
        by_cases hgrow : alloc < text.length + t.length
        · rw [hfirst, if_pos (decide_eq_true hgrow), if_neg (by omega)]
          exact growth_lt hgrow (by omega)
        · rw [hfirst, if_neg (by simpa using hgrow), if_pos (by omega), Nat.add_zero]
      simp only [beq_iff_eq]
      omega

/-- **A string that starts empty** holds the pieces after any run of appends. Its free space is
neither longer than the text nor than a mebibyte, and there were at most 21 allocations and one in
every mebibyte of the text. -/
theorem appends_of_empty {s s' : Sds} {pieces : List CString} {grew : List Bool}
    (hempty : sdsempty memory = .ok s) (hsize : pieces.flatten.length + sdsMaxPrealloc + 18 < 2 ^ 64)
    (hrun : EventRun.run (appendStep memory) s pieces = .ok (grew, s')) :
    ∃ alloc, s'.Holds alloc pieces.flatten ∧
      alloc ≤ pieces.flatten.length + min pieces.flatten.length sdsMaxPrealloc ∧
      grew.count true ≤ 21 + pieces.flatten.length / sdsMaxPrealloc := by
  have hnew : (sdsempty memory).Ends _ memory.Fails := sdsnewlen_ends (by decide)
  rw [hempty] at hnew
  have hzero : Tight 0 0 := Nat.zero_le _
  obtain ⟨alloc, hholds, htight, hcount⟩ := appendSteps_hold hnew hzero (by simpa using hsize) hrun
  refine ⟨alloc, hholds, htight, ?_⟩
  -- the potential of the last allocation bounds the number of all
  have hspace : alloc - sdsMaxPrealloc ≤ pieces.flatten.length := by
    have : alloc ≤ pieces.flatten.length + min pieces.flatten.length sdsMaxPrealloc := htight
    omega
  have hdiv : (alloc - sdsMaxPrealloc) / sdsMaxPrealloc ≤ pieces.flatten.length / sdsMaxPrealloc :=
    Nat.div_le_div_right hspace
  have hbound : growth alloc ≤ 21 + pieces.flatten.length / sdsMaxPrealloc :=
    Nat.add_le_add (min_le_right _ _) hdiv
  exact (Nat.le_add_right _ _).trans (hcount.trans hbound)

/-- Two pieces. -/
theorem appends_of_empty_two :
    ∃ s grew s' alloc, sdsempty (Allocator.filling 0) = .ok s ∧
      EventRun.run (appendStep (Allocator.filling 0)) s [[97], [98]] = .ok (grew, s') ∧
      s'.Holds alloc [97, 98] ∧ alloc ≤ 4 := by
  obtain ⟨s, grew, s', hempty, hrun⟩ : ∃ s grew s', sdsempty (Allocator.filling 0) = .ok s ∧
      EventRun.run (appendStep (Allocator.filling 0)) s [[97], [98]] = .ok (grew, s') :=
    ⟨_, _, _, rfl, rfl⟩
  have hsize : ([[97], [98]] : List CString).flatten.length + sdsMaxPrealloc + 18 < 2 ^ 64 := by
    decide
  obtain ⟨alloc, hholds, hle, -⟩ := appends_of_empty hempty hsize hrun
  exact ⟨s, grew, s', alloc, hempty, hrun, hholds, hle.trans (by decide)⟩

end OcgeoFdw
