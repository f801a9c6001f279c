import Mathlib.Data.List.Basic
import OcgeoFdw.Api.Json

/-! # Replies of the geocoding API

The records of `ocgeo_api.h` that a request fills in. The results of a reply live in one allocated
block, linked into a list; a slot of the block is `none` until the parser writes it. -/

/-! ## Linked lists inside a block of slots -/

namespace SlotChain

variable {α : Type*} {next : α → Option ℕ} {block : List (Option α)}

/-- `Follows next block head cells`: following `next` from `head` visits `cells` in order, each in
an initialised slot of the block, and then reads `NULL`. There is no derivation when the reader meets
an uninitialised slot, leaves the block or never ends. -/
inductive Follows (next : α → Option ℕ) (block : List (Option α)) : Option ℕ → List α → Prop
  /-- `NULL` ends the list. -/
  | nil : Follows next block none []
  /-- A pointer to an initialised slot visits its cell and goes on with the cell's successor. -/
  | cons {k : ℕ} {a : α} {as : List α} (hcell : block[k]? = some (some a))
      (hrest : Follows next block (next a) as) : Follows next block (some k) (a :: as)

/-- A pointer to a slot that was never written leads nowhere. -/
theorem not_follows_of_uninitialised {k : ℕ} (h : block[k]? = some none) (as : List α) :
    ¬ Follows next block (some k) as := by
  intro hf
  cases hf with
  | cons hcell _ => simp [h] at hcell

end SlotChain

/-! ## The records -/

namespace OcgeoFdw

/-- `OCGEO_CODE_OK`. -/
def ocgeoCodeOk : ℤ := 200

/-- `ocgeo_status_t`: the returned status. -/
structure OcgeoStatus where
  code : ℤ
  message : Option CString

/-- `ocgeo_rate_info_t`: the rate information, all zero if not returned. -/
structure OcgeoRateInfo where
  limit : ℤ
  remaining : ℤ
  reset : ℤ
  deriving DecidableEq

/-- `ocgeo_latlng_t`: a point in decimal degrees. -/
structure OcgeoLatlng where
  lat : ℚ
  lng : ℚ
  deriving DecidableEq

/-- `ocgeo_latlng_bounds_t`: a bounding box. -/
structure OcgeoLatlngBounds where
  northeast : OcgeoLatlng
  southwest : OcgeoLatlng
  deriving DecidableEq

/-- `ocgeo_result_t`: one result. `next` is the slot of the following result in the block and
`internal` the JSON value the result was read from. -/
structure OcgeoResult where
  bounds : Option OcgeoLatlngBounds
  geometry : OcgeoLatlng
  confidence : ℤ
  next : Option ℕ
  internal : CJson

/-- The pointer `results` together with the block it points into. -/
structure ResultList where
  block : List (Option OcgeoResult)
  head : Option ℕ

/-- `ocgeo_response_t`. -/
structure OcgeoResponse where
  status : OcgeoStatus
  url : Option CString
  rateInfo : OcgeoRateInfo
  total_results : ℤ
  results : ResultList

/-- `ocgeo_invalid_point`: coordinates outside the valid ranges. -/
def ocgeoInvalidPoint : OcgeoLatlng := ⟨-91, -181⟩

/-- No rate information. -/
def OcgeoRateInfo.zero : OcgeoRateInfo := ⟨0, 0, 0⟩

/-- The `NULL` result list. -/
def ResultList.null : ResultList := ⟨[], none⟩

/-- A zeroed response, as `memset` leaves it, around a given `url`. -/
def OcgeoResponse.zeroed (url : Option CString) : OcgeoResponse :=
  ⟨⟨0, none⟩, url, .zero, 0, .null⟩

/-- `ocgeo_response_ok`: the status is 200. -/
def ocgeoResponseOk (response : OcgeoResponse) : Bool := response.status.code = ocgeoCodeOk

/-- Following `response->results` through `next` visits `visited` and then ends in `NULL`. -/
def ResultList.Visits (results : ResultList) (visited : List OcgeoResult) : Prop :=
  SlotChain.Follows OcgeoResult.next results.block results.head visited

end OcgeoFdw
