import OcgeoFdw.Options.ValidatedOptions
import OcgeoFdw.RateLimiting.Limiter

/-! # Requests without a permit

The loop is left as soon as the permits differ from zero, so a negative count sends the request
too. `permits_of_run_iff` gives the readings and buckets from which a run never does this, for every
configuration and every clock, with the `int` arithmetic of the code. -/

namespace OcgeoFdw

open CInt CString

/-- A reading from which the permits are not negative: the whole periods passed since the bucket was
stored neither undercut its tokens, nor, up to whole multiples of `2 ^ 32`, overflow an `int`
together with them. -/
def Admissible (period : ℤ) (stats : Counters) (start_time : Timeval) : Prop :=
  ∃ k : ℤ, 2 ^ 32 * k - stats.tokens ≤ (timevalDiff start_time stats.ts).tdiv period ∧
    (timevalDiff start_time stats.ts).tdiv period < 2 ^ 32 * k + 2 ^ 31 - stats.tokens

/-- The permits at a reading are not negative exactly when it is admissible. -/
theorem permitsAt_nonneg_iff {p : ℤ} {stats : Counters} {t : Timeval} :
    0 ≤ permitsAt p stats t ↔ Admissible p stats t := by
  rw [permitsAt, toInt32_nonneg_iff]
  rw [permitsLong, Admissible]
  constructor
  · rintro ⟨k, hlow, hhigh⟩
    exact ⟨k, by omega, by omega⟩
  · rintro ⟨k, hlow, hhigh⟩
    exact ⟨k, by omega, by omega⟩

/-- The bucket stored after an admission with a permit is not overdrawn. -/
theorem toInt32_min_sub_one_nonneg {M permits : ℤ} (hpos : 1 ≤ permits) (hint : permits ≤ intMax) :
    0 ≤ toInt32 (min (maxReqsPerSec M) permits - 1) := by
  have hM := maxReqsPerSec_pos M
  rw [toInt32_of_fits (by norm_num [intMin]; omega) (by omega)]
  omega

/-- **One request.** It has a permit and leaves no debt exactly when every reading that its loop
evaluates is admissible. -/
theorem permits_of_request_iff {s s' : Session} {call : Call} {e : Sent}
    (h : request s call = .ok (e, s')) :
    (1 ≤ e.permits ∧ 0 ≤ e.tokens) ↔ AtEveryReading Admissible s call := by
  obtain ⟨stats, s₁, admission, end_time, hget, hloop, -, rfl⟩ := request_cases h
  obtain ⟨-, hpermits, hne, skipped, -, heval, hzero⟩ := rateLoop_cases hloop
  have hexit : 1 ≤ admission.permits ↔
      Admissible (period call.table_options.max_reqs_sec) stats admission.start_time := by
    rw [← permitsAt_nonneg_iff, ← hpermits]
    omega
  constructor
  · rintro ⟨hpos, -⟩ stats' s₂ hget' t ht
    obtain ⟨rfl, rfl⟩ : stats = stats' ∧ s₁ = s₂ := by simpa [hget] using hget'
    rw [heval] at ht
    rcases List.mem_append.mp ht with ht | ht
    · -- a reading that sends the loop to sleep has zero permits
      exact permitsAt_nonneg_iff.mp (hzero t ht).ge
    · rw [List.mem_singleton.mp ht]
      exact hexit.mp hpos
  · intro hadmissible
    have hpos := hexit.mpr (hadmissible stats s₁ hget _ (by rw [heval]; simp))
    refine ⟨hpos, toInt32_min_sub_one_nonneg hpos ?_⟩
    rw [hpermits]
    exact (toInt32_fits _).2

/-- **Runs.** Whatever the options of the tables, the session and its clock: every request of a run
has a permit and leaves no debt exactly when all readings that its loops evaluate are
admissible. -/
theorem permits_of_run_iff {s t : Session} {calls : List Call} {log : List Sent}
    (hrun : EventRun.run request s calls = .ok (log, t)) :
    (∀ e ∈ log, 1 ≤ e.permits ∧ 0 ≤ e.tokens) ↔
      EventRun.Along request (AtEveryReading Admissible) s calls :=
  EventRun.forall_mem_outputs_iff_along permits_of_request_iff hrun

/-- The options of a user whose mapping has an API key only, for tables of the server `X`. -/
def keyOnlyOptions (X : Oid) : OcgeoTableOptions :=
  ocgeoGetOptions X 2 [] [⟨uriOption, ofAscii "u"⟩] [⟨apiKeyOption, ofAscii "k"⟩]

/-- Three requests of one user over two servers: the second is answered with the status 402, and the
third gets no reply. -/
def keyOnlyCalls : List Call :=
  [⟨keyOnlyOptions 1, ⟨true, { OcgeoResponse.zeroed none with status := ⟨200, none⟩ }⟩⟩,
    ⟨keyOnlyOptions 3, ⟨false, { OcgeoResponse.zeroed none with status := ⟨402, none⟩ }⟩⟩,
    ⟨keyOnlyOptions 1, ⟨false, .zeroed none⟩⟩]

/-- Readings for the three requests: the second has to sleep for 600 ms, the third comes seconds
later. -/
def keyOnlyClock : List Timeval :=
  [⟨0, 0⟩, ⟨0, 0⟩, ⟨0, 90000⟩, ⟨0, 400000⟩, ⟨1, 0⟩, ⟨1, 200000⟩, ⟨5, 500000⟩, ⟨5, 600000⟩]

/-- Three requests under the default limit, a sleep before the second, have their permits. -/
theorem permits_of_run_default :
    ∃ (t : Session) (log : List Sent),
      EventRun.run request (.start keyOnlyClock) keyOnlyCalls = .ok (log, t) ∧
        ∀ e ∈ log, 1 ≤ e.permits ∧ 0 ≤ e.tokens := by
  obtain ⟨t, log, hrun⟩ : ∃ (t : Session) (log : List Sent),
      EventRun.run request (.start keyOnlyClock) keyOnlyCalls = .ok (log, t) := ⟨_, _, rfl⟩
  refine ⟨t, log, hrun, (permits_of_run_iff hrun).mpr ?_⟩
  refine EventRun.along_cons_of_ok ?_ rfl (EventRun.along_cons_of_ok ?_ rfl
    (EventRun.along_cons_of_ok ?_ rfl trivial))
  all_goals
    intro stats s₁ hget t ht
    obtain ⟨rfl, rfl⟩ := Prod.mk.inj (Except.ok.inj hget)
    refine permitsAt_nonneg_iff.mp ?_
    revert t
    decide

/-- The validator accepts `max_reqs_sec '-5'`, read as -5: the first request is sent at once with -5
permits and leaves a debt of six. -/
theorem permits_negative_limit :
    ocgeoFdwValidator [⟨uriOption, ofAscii "u"⟩] foreignServerRelationId = .ok () ∧
      ocgeoFdwValidator [⟨apiKeyOption, ofAscii "k"⟩, ⟨maxReqsSecOption, ofAscii "-5"⟩]
        userMappingRelationId = .ok () ∧
      (ocgeoGetOptions 1 2 [] [⟨uriOption, ofAscii "u"⟩]
        [⟨apiKeyOption, ofAscii "k"⟩, ⟨maxReqsSecOption, ofAscii "-5"⟩]).max_reqs_sec ≤ 1000 ∧
      ∃ (t : Session) (log : List Sent),
        EventRun.run request (.start [⟨0, 0⟩, ⟨0, 0⟩, ⟨0, 0⟩])
          [⟨ocgeoGetOptions 1 2 [] [⟨uriOption, ofAscii "u"⟩]
            [⟨apiKeyOption, ofAscii "k"⟩, ⟨maxReqsSecOption, ofAscii "-5"⟩],
            ⟨false, .zeroed none⟩⟩] = .ok (log, t) ∧
        log = [⟨1, 2, [], ⟨0, 0⟩, -5, -6, false⟩] ∧
        ¬ ∀ e ∈ log, 1 ≤ e.permits ∧ 0 ≤ e.tokens :=
  ⟨by decide, by decide, by decide, _, _, rfl, rfl, by decide⟩

end OcgeoFdw
