import OcgeoFdw.RateLimiting.Limiter

/-! # The statistics of a user

What the counters of a user record of its requests, and the row that `ocgeo_stats` builds of them.
The fields `calls` and `success_calls` are `int`s that are raised by one: they are the numbers of
requests and of successes, narrowed. -/

namespace OcgeoFdw

open CInt

/-- The values of a row of `ocgeo_stats`. The total is in milliseconds, which the function prints as
seconds. -/
structure StatsRow where
  nbr_calls : ℤ
  nbr_failed : ℤ
  total_time_ms : ℤ
  rate_limit : ℤ
  rate_remaining : ℤ
  rate_reset : Option ℤ
  deriving DecidableEq

/-- The row that `ocgeo_stats` builds for an entry. A reset that is not positive is `NULL`. -/
def ocgeoStatsRow (counters : Counters) : StatsRow where
  nbr_calls := counters.calls
  nbr_failed := toInt32 (counters.calls - counters.success_calls)
  total_time_ms := counters.total_time
  rate_limit := counters.rate_info.limit
  rate_remaining := counters.rate_info.remaining
  rate_reset := if 0 < counters.rate_info.reset then some counters.rate_info.reset else none

/-- A field of the entry of a user is `n`, narrowed. A user without an entry has none. -/
def Session.Records (field : Counters → ℤ) (s : Session) (user_id : Oid) (n : ℕ) : Prop :=
  match s.counters user_id with
  | none => n = 0
  | some counters => field counters = toInt32 n

section Records

variable {field : Counters → ℤ} {s s' : Session} {user_id : Oid} {call : Call} {e : Sent} {n : ℕ}

/-- Nothing is recorded before the first request. -/
theorem Session.records_start (field : Counters → ℤ) (clock : List Timeval) (user_id : Oid) :
    (Session.start clock).Records field user_id 0 :=
  rfl

/-- Sessions with the same entry of a user record the same of it. -/
theorem Session.Records.of_counters_eq (h : s.Records field user_id n)
    (hcounters : s'.counters user_id = s.counters user_id) : s'.Records field user_id n := by
  rw [Session.Records]
  rw [hcounters]
  exact h

/-- A request that adds `k` to a field records `k` more. -/
theorem Session.Records.request {k : ℕ} (h : s.Records field call.table_options.user_id n)
    (hrequest : OcgeoFdw.request s call = .ok (e, s')) (hnew : ∀ tokens ts, field (.new tokens ts) = 0)
    (hfield : ∀ stats admission end_time, field stats = toInt32 n →
      field (stats.afterRequest call.table_options.max_reqs_sec admission call.forward end_time) =
        toInt32 (n + k : ℕ)) :
    s'.Records field call.table_options.user_id (n + k) := by
  obtain ⟨stats, s₁, admission, end_time, hget, -, hstored, -⟩ := request_cases hrequest
  rw [Session.Records]
  rw [hstored]
  refine hfield stats admission end_time ?_
  rw [Session.Records] at h
  rcases (ocgeoGetCounters_cases hget).2 with ⟨hfound, -⟩ | ⟨hnone, ts, -, rfl⟩
  · rw [hfound] at h
    exact h
  -- a new entry starts with zero
  · rw [hnone] at h
    rw [hnew, h]
    rfl

/-- Every request is a call. -/
theorem Session.Records.request_calls
    (h : s.Records Counters.calls call.table_options.user_id n)
    (hrequest : OcgeoFdw.request s call = .ok (e, s')) :
    s'.Records Counters.calls call.table_options.user_id (n + 1) := by
  refine h.request hrequest (fun _ _ => rfl) fun stats admission end_time hstats => ?_
  have hcalls : (stats.afterRequest call.table_options.max_reqs_sec admission call.forward
      end_time).calls = toInt32 (stats.calls + 1) := rfl
  rw [hcalls, hstats, toInt32_toInt32_add, Nat.cast_add, Nat.cast_one]

/-- A request is a success if the transfer is and the response is good. -/
theorem Session.Records.request_success_calls
    (h : s.Records Counters.success_calls call.table_options.user_id n)
    (hrequest : OcgeoFdw.request s call = .ok (e, s')) :
    s'.Records Counters.success_calls call.table_options.user_id
      (n + if (call.forward.ok && ocgeoResponseOk call.forward.response) = true then 1 else 0) := by
  refine h.request hrequest (fun _ _ => rfl) fun stats admission end_time hstats => ?_
  rw [Counters.afterRequest]
  simp only
  split
  · rw [hstats, toInt32_toInt32_add, Nat.cast_add, Nat.cast_one]
  · exact hstats

end Records

end OcgeoFdw
