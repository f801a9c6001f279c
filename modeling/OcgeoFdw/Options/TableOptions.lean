import OcgeoFdw.Foundation.Strtol

/-! # Options of a foreign table

The options a user writes on the foreign table, the server and the user mapping, and how
`ocgeoGetOptions` reads them: the three lists one after the other, a later occurrence of a name
overwriting an earlier one. `lastValue` names the text that counts, and the lemmas below give every
field of the result in terms of it. -/

namespace OcgeoFdw

open CString

/-- A PostgreSQL object identifier. -/
abbrev Oid := ℕ

/-- One `name 'value'` pair of an `OPTIONS` list. -/
structure DefElem where
  defname : CString
  arg : CString
  deriving DecidableEq

/-- `URI_OPTION`. -/
def uriOption : CString := ofAscii "uri"

/-- `API_KEY_OPTION`. -/
def apiKeyOption : CString := ofAscii "api_key"

/-- `MAX_REQS_SEC_OPTION`. -/
def maxReqsSecOption : CString := ofAscii "max_reqs_sec"

/-- `MAX_REQS_DAY_OPTION`. -/
def maxReqsDayOption : CString := ofAscii "max_reqs_day"

/-- `ocgeoTableOptions`. The two pointers are `none` until the loop of `ocgeoGetOptions` sets
them. -/
structure OcgeoTableOptions where
  server_id : Oid
  user_id : Oid
  uri : Option CString
  api_key : Option CString
  max_reqs_sec : ℤ
  max_reqs_day : ℤ
  deriving DecidableEq

/-- The body of the loop of `ocgeoGetOptions`: four independent name tests. -/
def readOption (table_options : OcgeoTableOptions) (d : DefElem) : OcgeoTableOptions :=
  { table_options with
    uri := if d.defname = uriOption then some d.arg else table_options.uri
    api_key := if d.defname = apiKeyOption then some d.arg else table_options.api_key
    max_reqs_sec :=
      if d.defname = maxReqsSecOption then atoi d.arg else table_options.max_reqs_sec
    max_reqs_day :=
      if d.defname = maxReqsDayOption then atoi d.arg else table_options.max_reqs_day }

/-- The values of the free plan, before any option is read. -/
def defaultOptions (server_id user_id : Oid) : OcgeoTableOptions :=
  ⟨server_id, user_id, none, none, 1, 2500⟩

/-- `ocgeoGetOptions`, on the option lists of the table, its server and the user mapping. -/
def ocgeoGetOptions (server_id user_id : Oid) (table server mapping : List DefElem) :
    OcgeoTableOptions :=
  (table ++ server ++ mapping).foldl readOption (defaultOptions server_id user_id)

/-- The value of the last option with the given name. -/
def lastValue (name : CString) : List DefElem → Option CString
  | [] => none
  | d :: options => (lastValue name options).or (if d.defname = name then some d.arg else none)

/-! ## What the loop leaves behind -/

theorem lastValue_append (name : CString) (xs ys : List DefElem) :
    lastValue name (xs ++ ys) = (lastValue name ys).or (lastValue name xs) := by
  induction xs with
  | nil => simp [lastValue]
  | cons d xs ih => simp [lastValue, ih, Option.or_assoc]

/-- Without an option of that name there is no last value. -/
theorem lastValue_eq_none {name : CString} {options : List DefElem}
    (h : ∀ d ∈ options, d.defname ≠ name) : lastValue name options = none := by
  induction options with
  | nil => rfl
  | cons d options ih =>
      rw [lastValue, ih fun e he => h e (List.mem_cons_of_mem d he),
        if_neg (h d List.mem_cons_self)]
      rfl

/-- The last value belongs to an option of that name in the list. -/
theorem exists_mem_of_lastValue {name value : CString} {options : List DefElem}
    (h : lastValue name options = some value) : ⟨name, value⟩ ∈ options := by
  induction options with
  | nil => simp [lastValue] at h
  | cons d options ih =>
      rw [lastValue, Option.or_eq_some_iff] at h
      rcases h with h | ⟨-, h⟩
      · exact List.mem_cons_of_mem d (ih h)
      · split at h
        · rename_i hname
          obtain rfl : d.arg = value := by simpa using h
          rw [← hname]
          exact List.mem_cons_self
        · simp at h

/-- The fields after the loop, each by the last value of its option. -/
theorem foldl_readOption (table_options : OcgeoTableOptions) (options : List DefElem) :
    options.foldl readOption table_options =
      { table_options with
        uri := (lastValue uriOption options).or table_options.uri
        api_key := (lastValue apiKeyOption options).or table_options.api_key
        max_reqs_sec :=
          ((lastValue maxReqsSecOption options).map atoi).getD table_options.max_reqs_sec
        max_reqs_day :=
          ((lastValue maxReqsDayOption options).map atoi).getD table_options.max_reqs_day } := by
  induction options generalizing table_options with
  | nil => simp [lastValue]
  | cons d options ih =>
      rw [List.foldl_cons, ih]
      simp only [lastValue, readOption]
      congr 1
      · cases lastValue uriOption options <;> split <;> rfl
      · cases lastValue apiKeyOption options <;> split <;> rfl
      · cases lastValue maxReqsSecOption options <;> split <;> rfl
      · cases lastValue maxReqsDayOption options <;> split <;> rfl

end OcgeoFdw
