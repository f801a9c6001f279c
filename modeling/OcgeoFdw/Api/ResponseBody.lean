import OcgeoFdw.Api.JsonParser
import OcgeoFdw.Api.SdsAppends

/-! # The body of a reply

How `do_request` receives a body: the transfer calls `write_callback` with one piece after the other,
and what is there at the end is parsed. -/

namespace OcgeoFdw

/-- `do_request` from `r.data = sdsempty()` to `cJSON_Parse(r.data)`, for a transfer that calls
`write_callback` with these pieces: `NULL` is no JSON text. -/
def receiveResponse (memory : Allocator UInt8) (chunks : List CString) :
    Except MemoryFault (Option CJsonItem) := do
  let data ← orNull (sdsempty memory)
  let data ← chunks.foldlM (writeCallback memory) data
  .ok (data.bind fun s => CJsonItem.parse s.cString)

/-- **The tree of a body does not depend on how the transfer cuts it.** Where an allocation fails,
there is no tree, or a callback reads in front of `NULL`. -/
theorem receiveResponse_cases {memory : Allocator UInt8} {chunks : List CString}
    (hsize : chunks.flatten.length + sdsMaxPrealloc + 18 < 2 ^ 64) :
    receiveResponse memory chunks = .ok (CJsonItem.parse chunks.flatten) ∨
      ¬ memory.Unlimited ∧ (receiveResponse memory chunks = .ok none ∨
        receiveResponse memory chunks = .error .overrun) := by
  have hempty : (sdsempty memory).Ends _ memory.Fails := sdsnewlen_ends (by decide)
  rw [receiveResponse]
  cases hnew : sdsempty memory with
  | error fault =>
      rw [hnew] at hempty
      obtain ⟨rfl, hlimited⟩ : fault = .failed ∧ ¬ memory.Unlimited := hempty
      -- the first callback reads in front of `NULL`
      refine Or.inr ⟨hlimited, ?_⟩
      cases chunks with
      | nil => exact Or.inl rfl
      | cons ptr chunks => exact Or.inr rfl
  | ok s =>
      rw [hnew] at hempty
      have hcases : (∃ s' alloc', chunks.foldlM (writeCallback memory) (some s) = .ok (some s') ∧
          _) ∨ _ := writeCallbacks_cases hempty (by simpa using hsize)
      show (chunks.foldlM (writeCallback memory) (some s) >>= fun data => Except.ok _) = _ ∨ _ ∧
        ((chunks.foldlM (writeCallback memory) (some s) >>= fun data => Except.ok _) = _ ∨
          (chunks.foldlM (writeCallback memory) (some s) >>= fun data => Except.ok _) = _)
      rcases hcases with ⟨s', alloc', hrun, hholds⟩ | ⟨hlimited, front, ptr, back, s', -, -, -, hrun⟩
      · rw [hrun]
        exact Or.inl (congrArg Except.ok (CJsonItem.parse_congr hholds.untilNul_cString))
      · rw [hrun]
        refine Or.inr ⟨hlimited, ?_⟩
        split_ifs
        · exact Or.inl rfl
        · exact Or.inr rfl

/-- A body that is cut within a word. -/
theorem receiveResponse_cases_true :
    receiveResponse (.filling 0) [CString.ofAscii "tr", CString.ofAscii "ue"] =
      .ok (some (.bool true)) := by
  have hsize : [CString.ofAscii "tr", CString.ofAscii "ue"].flatten.length + sdsMaxPrealloc + 18 <
      2 ^ 64 := by decide
  have hcases : receiveResponse (.filling 0) _ = _ ∨ _ := receiveResponse_cases hsize
  rcases hcases with h | ⟨hlimited, -⟩
  · rw [h]
    rfl
  · exact absurd (Allocator.unlimited_filling 0) hlimited

end OcgeoFdw
