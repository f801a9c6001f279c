import OcgeoFdw.Api.Response
import OcgeoFdw.Foundation.EventRuns
import OcgeoFdw.Options.TableOptions
import OcgeoFdw.RateLimiting.Clock
import Mathlib.Logic.Function.Basic

/-! # The rate limiter

`submitRequestWithRateLimiter` and the per-session table of counters it works on. A session carries
the table and the clock readings still to come; every `gettimeofday` takes the next one, so a run of
requests is a run of `request` over a list of calls. The inversion lemmas say once what a request
does; the bounds are derived from them. -/

namespace OcgeoFdw

open CInt

/-! ## Counters -/

/-- `Counters`: the statistics of a user and the state of its bucket. -/
structure Counters where
  calls : ℤ
  success_calls : ℤ
  total_time : ℤ
  rate_info : OcgeoRateInfo
  ts : Timeval
  tokens : ℤ
  deriving DecidableEq

/-- The counters of a new entry: all zero but for the bucket. -/
def Counters.new (tokens : ℤ) (ts : Timeval) : Counters := ⟨0, 0, 0, .zero, ts, tokens⟩

/-- `ocgeo_hash`: the counters by user, created on the first use. -/
abbrev OcgeoHash := Oid → Option Counters

/-- The state of a session: `ocgeo_hash`, which starts out `NULL`, and the clock readings to
come. -/
structure Session where
  ocgeo_hash : Option OcgeoHash
  clock : List Timeval

/-- A session before any request. -/
def Session.start (clock : List Timeval) : Session := ⟨none, clock⟩

/-- The entry of a user, if the session has one. -/
def Session.counters (s : Session) (user_id : Oid) : Option Counters :=
  s.ocgeo_hash.bind fun ocgeo_hash => ocgeo_hash user_id

/-- Why a request does not complete: a division by zero kills the backend, and a run ends with the
clock readings it was given. -/
inductive LimiterFault
  | divisionByZero
  | clockExhausted
  deriving DecidableEq

/-- `ocgeoGetCounters`: find the entry of the mapping's user or create it, with the limit as its
first tokens. -/
def ocgeoGetCounters (table_options : OcgeoTableOptions) (s : Session) :
    Except LimiterFault (Counters × Session) :=
  let ocgeo_hash := s.ocgeo_hash.getD fun _ => none
  match ocgeo_hash table_options.user_id with
  | some counters => .ok (counters, ⟨some ocgeo_hash, s.clock⟩)
  | none =>
      match s.clock with
      | [] => .error .clockExhausted
      | ts :: clock =>
          let counters := Counters.new table_options.max_reqs_sec ts
          .ok (counters,
            ⟨some (Function.update ocgeo_hash table_options.user_id (some counters)), clock⟩)

/-! ## The limiter -/

/-- `max_reqs_per_sec`: a limit that is not positive means 1000. -/
def maxReqsPerSec (max_reqs_per_second : ℤ) : ℤ :=
  if 0 < max_reqs_per_second then max_reqs_per_second else 1000

/-- `period`: the milliseconds that earn one token. -/
def period (max_reqs_per_second : ℤ) : ℤ := (1000 : ℤ).tdiv (maxReqsPerSec max_reqs_per_second)

/-- `stats->tokens + tokens_since_last_req`, as a `long`. -/
def permitsLong (period : ℤ) (stats : Counters) (start_time : Timeval) : ℤ :=
  stats.tokens + (timevalDiff start_time stats.ts).tdiv period

/-- `permits`: the sum narrowed to an `int`. -/
def permitsAt (period : ℤ) (stats : Counters) (start_time : Timeval) : ℤ :=
  toInt32 (permitsLong period stats start_time)

/-- How the loop was left: the sleeps it took, in microseconds, the reading it stopped at and the
permits computed there. -/
structure Admission where
  sleeps : List ℤ
  start_time : Timeval
  permits : ℤ
  deriving DecidableEq

/-- The loop of `submitRequestWithRateLimiter`: read the clock and sleep until there are permits.
The `Assert` on `ival` is empty in a production build. -/
def rateLoop (period : ℤ) (stats : Counters) :
    List Timeval → Except LimiterFault (Admission × List Timeval)
  | [] => .error .clockExhausted
  | start_time :: clock =>
      if period = 0 then .error .divisionByZero
      else if permitsAt period stats start_time = 0 then
        let delay := period - timevalDiff start_time stats.ts
        match rateLoop period stats clock with
        | .error e => .error e
        | .ok (admission, rest) =>
            .ok ({ admission with sleeps := delay * 1000 :: admission.sleeps }, rest)
      else .ok (⟨[], start_time, permitsAt period stats start_time⟩, clock)

/-- What `ocgeo_forward` returned and left in the response. -/
structure Forwarded where
  ok : Bool
  response : OcgeoResponse

/-- The counters after an admitted request that ended at `end_time`. -/
def Counters.afterRequest (stats : Counters) (max_reqs_per_second : ℤ) (admission : Admission)
    (forward : Forwarded) (end_time : Timeval) : Counters :=
  let ok := forward.ok && ocgeoResponseOk forward.response
  { calls := toInt32 (stats.calls + 1)
    success_calls := if ok then toInt32 (stats.success_calls + 1) else stats.success_calls
    total_time := stats.total_time + timevalDiff end_time admission.start_time
    rate_info := if ok then forward.response.rateInfo else stats.rate_info
    ts := admission.start_time
    tokens := toInt32 (min (maxReqsPerSec max_reqs_per_second) admission.permits - 1) }

/-- A request as the limiter sent it, with the bucket it left. -/
structure Sent where
  server_id : Oid
  user_id : Oid
  sleeps : List ℤ
  ts : Timeval
  permits : ℤ
  tokens : ℤ
  ok : Bool
  deriving DecidableEq

/-- `submitRequestWithRateLimiter`, given the outcome of the request it submits: the admission, the
new counters, the value returned and the clock readings left. -/
def submitRequestWithRateLimiter (max_reqs_per_second : ℤ) (stats : Counters)
    (forward : Forwarded) (clock : List Timeval) :
    Except LimiterFault (Admission × Counters × Bool × List Timeval) :=
  match rateLoop (period max_reqs_per_second) stats clock with
  | .error e => .error e
  | .ok (_, []) => .error .clockExhausted
  | .ok (admission, end_time :: rest) =>
      .ok (admission, stats.afterRequest max_reqs_per_second admission forward end_time,
        forward.ok && ocgeoResponseOk forward.response, rest)

/-- One scan that sends a request: the options of its table and what the service answers. -/
structure Call where
  table_options : OcgeoTableOptions
  forward : Forwarded

/-- The request of `ocgeoBeginForeignScan`: fetch the counters and submit. -/
def request (s : Session) (call : Call) : Except LimiterFault (Sent × Session) :=
  match ocgeoGetCounters call.table_options s with
  | .error e => .error e
  | .ok (stats, s) =>
      match submitRequestWithRateLimiter call.table_options.max_reqs_sec stats call.forward
          s.clock with
      | .error e => .error e
      | .ok (admission, stats, ok, rest) =>
          .ok (⟨call.table_options.server_id, call.table_options.user_id, admission.sleeps,
              admission.start_time, admission.permits, stats.tokens, ok⟩,
            ⟨s.ocgeo_hash.map fun ocgeo_hash =>
              Function.update ocgeo_hash call.table_options.user_id (some stats), rest⟩)

/-! ## What a request does -/

/-- The readings the loop evaluates: those without a permit and the first one with. -/
def evaluated (period : ℤ) (stats : Counters) : List Timeval → List Timeval
  | [] => []
  | start_time :: clock =>
      start_time ::
        if permitsAt period stats start_time = 0 then evaluated period stats clock else []

/-- `P` holds of the period, the counters and every reading that a request evaluates. -/
def AtEveryReading (P : ℤ → Counters → Timeval → Prop) (s : Session) (call : Call) : Prop :=
  ∀ stats s₁, ocgeoGetCounters call.table_options s = .ok (stats, s₁) →
    ∀ t ∈ evaluated (period call.table_options.max_reqs_sec) stats s₁.clock,
      P (period call.table_options.max_reqs_sec) stats t

/-- The counters found are those of the session, or new ones that took the next reading. -/
theorem ocgeoGetCounters_cases {table_options : OcgeoTableOptions} {s s₁ : Session}
    {stats : Counters} (h : ocgeoGetCounters table_options s = .ok (stats, s₁)) :
    (∃ ocgeo_hash, s₁.ocgeo_hash = some ocgeo_hash) ∧
      ((s.counters table_options.user_id = some stats ∧ s₁.clock = s.clock) ∨
        (s.counters table_options.user_id = none ∧ ∃ ts, s.clock = ts :: s₁.clock ∧
          stats = .new table_options.max_reqs_sec ts)) := by
  have hentry : (s.ocgeo_hash.getD fun _ => none) table_options.user_id =
      s.counters table_options.user_id := by
    rw [Session.counters]
    cases s.ocgeo_hash <;> rfl
  rw [ocgeoGetCounters] at h
  simp only [hentry] at h
  cases hfound : s.counters table_options.user_id with
  | some counters =>
      simp only [hfound, Except.ok.injEq, Prod.mk.injEq] at h
      obtain ⟨rfl, rfl⟩ := h
      exact ⟨⟨_, rfl⟩, Or.inl ⟨rfl, rfl⟩⟩
  | none =>
      cases hclock : s.clock with
      | nil => simp [hfound, hclock] at h
      | cons ts clock =>
          simp only [hfound, hclock, Except.ok.injEq, Prod.mk.injEq] at h
          obtain ⟨rfl, rfl⟩ := h
          exact ⟨⟨_, rfl⟩, Or.inr ⟨rfl, ts, rfl, rfl⟩⟩

/-- The loop stops at the first reading with permits; all readings before it have none. -/
theorem rateLoop_cases {p : ℤ} {stats : Counters} {clock rest : List Timeval}
    {admission : Admission} (h : rateLoop p stats clock = .ok (admission, rest)) :
    p ≠ 0 ∧ admission.permits = permitsAt p stats admission.start_time ∧ admission.permits ≠ 0 ∧
      ∃ skipped, clock = skipped ++ admission.start_time :: rest ∧
        evaluated p stats clock = skipped ++ [admission.start_time] ∧
        ∀ t ∈ skipped, permitsAt p stats t = 0 := by
  induction clock generalizing admission rest with
  | nil => simp [rateLoop] at h
  | cons t clock ih =>
      by_cases hp : p = 0
      · simp [rateLoop, hp] at h
      · by_cases hpermits : permitsAt p stats t = 0
        · cases hloop : rateLoop p stats clock with
          | error e => simp [rateLoop, hp, hpermits, hloop] at h
          | ok q =>
              obtain ⟨admission', rest'⟩ := q
              simp only [rateLoop, if_neg hp, if_pos hpermits, hloop, Except.ok.injEq,
                Prod.mk.injEq] at h
              obtain ⟨rfl, rfl⟩ := h
              -- the loop slept at `t`, and the rest of it stops as the induction says
              obtain ⟨-, heq, hne, skipped, rfl, heval, hzero⟩ := ih hloop
              refine ⟨hp, heq, hne, t :: skipped, rfl, ?_, ?_⟩
              · rw [evaluated, if_pos hpermits, heval]
                rfl
              · exact List.forall_mem_cons.mpr ⟨hpermits, hzero⟩
        · simp only [rateLoop, if_neg hp, if_neg hpermits, Except.ok.injEq, Prod.mk.injEq] at h
          obtain ⟨rfl, rfl⟩ := h
          exact ⟨hp, rfl, hpermits, [], rfl, by rw [evaluated, if_neg hpermits]; rfl, by simp⟩

/-- A loop that never sleeps stops at its first reading. -/
theorem clock_eq_of_awake {p : ℤ} {stats : Counters} {clock rest : List Timeval}
    {admission : Admission} (h : rateLoop p stats clock = .ok (admission, rest))
    (hawake : admission.sleeps = []) : clock = admission.start_time :: rest := by
  cases clock with
  | nil => cases h
  | cons t clock =>
      rw [rateLoop] at h
      split at h
      · cases h
      · split at h
        · -- a reading without a permit adds a sleep
          split at h
          · cases h
          · obtain ⟨rfl, -⟩ := Prod.mk.inj (Except.ok.inj h)
            cases hawake
        · obtain ⟨rfl, rfl⟩ := Prod.mk.inj (Except.ok.inj h)
          rfl

/-- **What a request does.** It fetches the counters, runs the loop, and stores the bucket the
admission leaves. -/
theorem request_cases {s s' : Session} {call : Call} {e : Sent}
    (h : request s call = .ok (e, s')) :
    ∃ stats s₁ admission end_time,
      ocgeoGetCounters call.table_options s = .ok (stats, s₁) ∧
      rateLoop (period call.table_options.max_reqs_sec) stats s₁.clock =
        .ok (admission, end_time :: s'.clock) ∧
      s'.counters call.table_options.user_id =
        some (stats.afterRequest call.table_options.max_reqs_sec admission call.forward end_time) ∧
      e = ⟨call.table_options.server_id, call.table_options.user_id, admission.sleeps,
        admission.start_time, admission.permits,
        toInt32 (min (maxReqsPerSec call.table_options.max_reqs_sec) admission.permits - 1),
        call.forward.ok && ocgeoResponseOk call.forward.response⟩ := by
  cases hget : ocgeoGetCounters call.table_options s with
  | error fault => simp [request, hget] at h
  | ok p =>
      obtain ⟨stats, s₁⟩ := p
      cases hloop : rateLoop (period call.table_options.max_reqs_sec) stats s₁.clock with
      | error fault => simp [request, hget, submitRequestWithRateLimiter, hloop] at h
      | ok q =>
          obtain ⟨admission, _ | ⟨end_time, rest⟩⟩ := q
          · simp [request, hget, submitRequestWithRateLimiter, hloop] at h
          · simp only [request, hget, submitRequestWithRateLimiter, hloop, Except.ok.injEq,
              Prod.mk.injEq] at h
            obtain ⟨rfl, rfl⟩ := h
            obtain ⟨⟨ocgeo_hash, hhash⟩, -⟩ := ocgeoGetCounters_cases hget
            refine ⟨stats, s₁, admission, end_time, rfl, hloop, ?_, rfl⟩
            simp [Session.counters, hhash]

/-- A request leaves the entries of other users as they are. -/
theorem request_counters_of_ne {s s' : Session} {call : Call} {e : Sent} {user_id : Oid}
    (h : request s call = .ok (e, s')) (hne : user_id ≠ call.table_options.user_id) :
    s'.counters user_id = s.counters user_id := by
  rw [request] at h
  split at h
  · cases h
  · rename_i stats s₁ hget
    -- the entry is found or made for the user of the call only
    have hfound : s₁.counters user_id = s.counters user_id := by
      have hhash : s.counters user_id = (s.ocgeo_hash.getD fun _ => none) user_id := by
        rw [Session.counters]
        cases s.ocgeo_hash <;> rfl
      rw [hhash]
      rw [ocgeoGetCounters] at hget
      simp only at hget
      split at hget
      · obtain ⟨-, rfl⟩ := Prod.mk.inj (Except.ok.inj hget)
        rfl
      · split at hget
        · cases hget
        · obtain ⟨-, rfl⟩ := Prod.mk.inj (Except.ok.inj hget)
          exact Function.update_of_ne hne _ _
    split at h
    · cases h
    · obtain ⟨-, rfl⟩ := Prod.mk.inj (Except.ok.inj h)
      rw [← hfound]
      unfold Session.counters
      cases s₁.ocgeo_hash with
      | none => rfl
      | some ocgeo_hash => exact Function.update_of_ne hne _ _

/-- The server and the user of a request are those of the table. -/
theorem request_ids {s s' : Session} {call : Call} {e : Sent} (h : request s call = .ok (e, s')) :
    e.server_id = call.table_options.server_id ∧ e.user_id = call.table_options.user_id := by
  obtain ⟨stats, s₁, admission, end_time, -, -, -, rfl⟩ := request_cases h
  exact ⟨rfl, rfl⟩

/-- A request returns whether the transfer succeeded and the response is good. -/
theorem request_ok {s s' : Session} {call : Call} {e : Sent} (h : request s call = .ok (e, s')) :
    e.ok = (call.forward.ok && ocgeoResponseOk call.forward.response) := by
  obtain ⟨stats, s₁, admission, end_time, -, -, -, rfl⟩ := request_cases h
  rfl

/-! ## The period -/

/-- A positive limit is used as it is. -/
theorem maxReqsPerSec_of_pos {M : ℤ} (h : 0 < M) : maxReqsPerSec M = M := if_pos h

/-- The period of a positive limit. -/
theorem period_of_pos {M : ℤ} (h : 0 < M) : period M = 1000 / M := by
  rw [period, maxReqsPerSec_of_pos h]
  exact tdiv_of_nonneg (by norm_num)

/-- The effective limit is positive. -/
theorem maxReqsPerSec_pos (M : ℤ) : 0 < maxReqsPerSec M := by
  rw [maxReqsPerSec]
  split <;> omega

/-- The period is positive exactly for the limits up to 1000. -/
theorem period_pos_iff (M : ℤ) : 1 ≤ period M ↔ M ≤ 1000 := by
  rw [period, tdiv_of_nonneg (by norm_num), Int.le_ediv_iff_mul_le (maxReqsPerSec_pos M), one_mul]
  rw [maxReqsPerSec]
  split <;> omega

/-- The period is never negative. -/
theorem period_nonneg (M : ℤ) : 0 ≤ period M := by
  rw [period, tdiv_of_nonneg (by norm_num)]
  exact Int.ediv_nonneg (by norm_num) (maxReqsPerSec_pos M).le

end OcgeoFdw
