import Mathlib.Data.Rat.Floor
import OcgeoFdw.Foundation.CIntegers
import OcgeoFdw.Foundation.CStrings

/-! # The JSON tree and its lookups

The part of `cJSON` the API code reads: a parsed value, its children, and the lookups by member
name. A pointer to a node is an `Option CJson`, with `none` for `NULL`. -/

namespace OcgeoFdw

open CInt

/-- A JSON value as `cJSON_Parse` builds it. A finite `double` is the rational it denotes. -/
inductive CJson
  /-- `null`. -/
  | null
  /-- `true` or `false`. -/
  | bool (value : Bool)
  /-- A number, by the node's `valuedouble`. -/
  | number (valuedouble : ℚ)
  /-- A string, by the node's `valuestring`. -/
  | string (valuestring : CString)
  /-- An array with its elements. -/
  | array (elements : List CJson)
  /-- An object with its members in the order of the text. -/
  | object (members : List (CString × CJson))

namespace CJson

/-- The `child` list of a node. Each child carries its `string`, the member name, which is `NULL`
for the elements of an array. -/
def child : CJson → List (Option CString × CJson)
  | .array elements => elements.map fun e => (none, e)
  | .object members => members.map fun m => (some m.1, m.2)
  | _ => []

/-- `valueint` of a number: the double truncated towards zero, saturated at the `int` limits. -/
def saturatedInt (number : ℚ) : ℤ :=
  if (intMax : ℚ) ≤ number then intMax
  else if number ≤ (intMin : ℚ) then intMin
  else number.num.tdiv number.den

/-- The field `valueint`: nodes that are not numbers keep the `0` of the zeroed allocation, except
`true`, for which the parser stores `1`. -/
def valueint : CJson → ℤ
  | .number valuedouble => saturatedInt valuedouble
  | .bool true => 1
  | _ => 0

/-- The field `valuedouble`, `0` on nodes that are not numbers. -/
def valuedouble : CJson → ℚ
  | .number valuedouble => valuedouble
  | _ => 0

/-- `cJSON_IsNull`. -/
def isNull : CJson → Bool
  | .null => true
  | _ => false

/-- The loop of `get_object_item` with case-sensitive names: a child without a name ends it. -/
def findCaseSensitive (name : CString) : List (Option CString × CJson) → Option CJson
  | [] => none
  | (none, _) :: _ => none
  | (some key, item) :: rest => if name = key then some item else findCaseSensitive name rest

/-- The loop of `get_object_item` ignoring case: a child without a name never matches. -/
def findIgnoringCase (name : CString) : List (Option CString × CJson) → Option CJson
  | [] => none
  | (none, _) :: rest => findIgnoringCase name rest
  | (some key, item) :: rest =>
      if CString.EqIgnoringCase name key then some item else findIgnoringCase name rest

/-- `cJSON_GetObjectItemCaseSensitive`. -/
def getObjectItemCaseSensitive (object : Option CJson) (name : CString) : Option CJson :=
  object.bind fun node => findCaseSensitive name node.child

/-- `cJSON_GetObjectItem`. -/
def getObjectItem (object : Option CJson) (name : CString) : Option CJson :=
  object.bind fun node => findIgnoringCase name node.child

/-- `cJSON_GetStringValue`, `NULL` unless the item is a string. -/
def getStringValue : Option CJson → Option CString
  | some (.string valuestring) => some valuestring
  | _ => none

@[simp] theorem child_array (elements : List CJson) :
    (CJson.array elements).child = elements.map fun e => (none, e) := rfl

/-- The saturated value is an `int`. -/
theorem saturatedInt_fits (number : ℚ) :
    intMin ≤ saturatedInt number ∧ saturatedInt number ≤ intMax := by
  rw [saturatedInt]
  have hlimits : intMin ≤ intMax := by decide
  split
  · exact ⟨hlimits, le_rfl⟩
  · rename_i hhigh
    split
    · exact ⟨le_rfl, hlimits⟩
    · rename_i hlow
      have hden : (0 : ℤ) < number.den := by exact_mod_cast number.den_pos
      have hhigh' : number.num ≤ intMax * number.den := by
        have h := not_le.mp hhigh
        rw [← number.num_div_den, div_lt_iff₀ (by exact_mod_cast number.den_pos)] at h
        exact_mod_cast h.le
      have hlow' : intMin * number.den ≤ number.num := by
        have h := not_le.mp hlow
        rw [← number.num_div_den, lt_div_iff₀ (by exact_mod_cast number.den_pos)] at h
        exact_mod_cast h.le
      rcases le_or_gt 0 number.num with hpos | hneg
      · rw [tdiv_of_nonneg hpos]
        constructor
        · exact le_trans (by decide) (Int.ediv_nonneg hpos hden.le)
        · exact Int.ediv_le_of_le_mul hden hhigh'
      · rw [tdiv_of_neg hneg]
        constructor
        · have := Int.ediv_le_of_le_mul hden (by linarith : -number.num ≤ -intMin * number.den)
          linarith
        · have := Int.ediv_nonneg (by omega : 0 ≤ -number.num) hden.le
          exact le_trans (by omega) (by decide : (0 : ℤ) ≤ intMax)

/-- The value of an integer is cut to the `int` limits. -/
theorem saturatedInt_intCast (z : ℤ) : saturatedInt z = max intMin (min intMax z) := by
  simp only [saturatedInt, Int.cast_le, Rat.num_intCast, Rat.den_intCast]
  have hlimits : intMin ≤ intMax := by decide
  split
  · rename_i hhigh
    rw [min_eq_left hhigh, max_eq_right hlimits]
  · rename_i hhigh
    rw [min_eq_right (not_le.mp hhigh).le]
    split
    · rename_i hlow
      rw [max_eq_left hlow]
    · rename_i hlow
      rw [max_eq_right (not_le.mp hlow).le, Nat.cast_one, Int.tdiv_one]

/-- `valueint` is an `int`. -/
theorem valueint_fits (json : CJson) : intMin ≤ json.valueint ∧ json.valueint ≤ intMax := by
  cases json with
  | number valuedouble => exact saturatedInt_fits valuedouble
  | bool value => cases value <;> decide
  | _ => exact (by decide : intMin ≤ 0 ∧ 0 ≤ intMax)

/-- The nodes of an array's `child` list are its elements. -/
theorem child_array_map_snd (elements : List CJson) :
    (CJson.array elements).child.map Prod.snd = elements := by
  simp [Function.comp_def]

end CJson

end OcgeoFdw
