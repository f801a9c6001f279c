import OcgeoFdw.Options.ValidatedOptions
import OcgeoFdw.RateLimiting.Limiter

/-! # The division of the limiter

The period `1000 / max_reqs_per_sec` is a divisor. It is zero for every limit above 1000, which the
validator lets through; `period_defined_iff` relates this to the text of the option. -/

namespace OcgeoFdw

open CString

/-- The loop divides by zero only when the period is zero. -/
theorem rateLoop_ne_divisionByZero {p : ℤ} (hp : p ≠ 0) (stats : Counters)
    (clock : List Timeval) : rateLoop p stats clock ≠ .error .divisionByZero := by
  induction clock with
  | nil => simp [rateLoop]
  | cons t clock ih =>
      intro h
      by_cases hpermits : permitsAt p stats t = 0
      · cases hloop : rateLoop p stats clock with
        | ok q => simp [rateLoop, hp, hpermits, hloop] at h
        | error e =>
            simp only [rateLoop, if_neg hp, if_pos hpermits, hloop, Except.error.injEq] at h
            exact ih (hloop.trans (congrArg Except.error h))
      · simp [rateLoop, hp, hpermits] at h

/-- A request with a limit of at most 1000 does not divide by zero, whatever the session. -/
theorem request_ne_divisionByZero {s : Session} {call : Call}
    (h : call.table_options.max_reqs_sec ≤ 1000) : request s call ≠ .error .divisionByZero := by
  intro hfault
  have hp : period call.table_options.max_reqs_sec ≠ 0 := by
    have := (period_pos_iff call.table_options.max_reqs_sec).mpr h
    omega
  rw [request] at hfault
  split at hfault
  · rename_i fault hget
    obtain rfl := Except.error.inj hfault
    -- fetching the counters only fails for want of a clock reading
    rw [ocgeoGetCounters] at hget
    simp only at hget
    split at hget
    · cases hget
    · split at hget <;> cases hget
  · rename_i stats s₁ hget
    split at hfault
    · rename_i fault hsubmit
      obtain rfl := Except.error.inj hfault
      rw [submitRequestWithRateLimiter] at hsubmit
      split at hsubmit
      · rename_i fault hloop
        obtain rfl := Except.error.inj hsubmit
        exact rateLoop_ne_divisionByZero hp stats s₁.clock hloop
      · cases hsubmit
      · cases hsubmit
    · cases hfault

/-- **The divisor is positive, and no run divides by zero, exactly for the texts that `atoi` reads
as at most 1000.** -/
theorem period_defined_iff {server_id user_id : Oid} {table server mapping : List DefElem}
    (htable : ocgeoFdwValidator table foreignTableRelationId = .ok ())
    (hserver : ocgeoFdwValidator server foreignServerRelationId = .ok ())
    (hmapping : ocgeoFdwValidator mapping userMappingRelationId = .ok ()) :
    (1 ≤ period (ocgeoGetOptions server_id user_id table server mapping).max_reqs_sec ∧
      ∀ (s : Session) (calls : List Call),
        (∀ call ∈ calls,
          call.table_options = ocgeoGetOptions server_id user_id table server mapping) →
        EventRun.run request s calls ≠ .error .divisionByZero) ↔
      ∀ text, lastValue maxReqsSecOption mapping = some text → atoi text ≤ 1000 := by
  have hlimit : (ocgeoGetOptions server_id user_id table server mapping).max_reqs_sec ≤ 1000 ↔
      ∀ text, lastValue maxReqsSecOption mapping = some text → atoi text ≤ 1000 := by
    rw [ocgeoGetOptions_eq htable hserver hmapping]
    -- without the option the limit is the default of one request a second
    cases lastValue maxReqsSecOption mapping <;> simp
  rw [← hlimit, period_pos_iff]
  apply and_iff_left_of_imp
  intro hle s calls hcalls
  refine EventRun.run_ne_error (P := fun _ call => call.table_options.max_reqs_sec ≤ 1000)
    request_ne_divisionByZero (EventRun.along_of_forall_mem (fun call hcall => ?_) s)
  rw [hcalls call hcall]
  exact hle

/-- The default limit has a positive period. -/
theorem period_defined_default :
    1 ≤ period (ocgeoGetOptions 1 2 [] [⟨uriOption, ofAscii "u"⟩]
        [⟨apiKeyOption, ofAscii "k"⟩]).max_reqs_sec ∧
      ∀ (s : Session) (calls : List Call),
        (∀ call ∈ calls, call.table_options =
          ocgeoGetOptions 1 2 [] [⟨uriOption, ofAscii "u"⟩] [⟨apiKeyOption, ofAscii "k"⟩]) →
        EventRun.run request s calls ≠ .error .divisionByZero := by
  refine (period_defined_iff (by decide) (by decide) (by decide)).mpr fun text htext => ?_
  have hnone : lastValue maxReqsSecOption [⟨apiKeyOption, ofAscii "k"⟩] = none := by decide
  rw [hnone] at htext
  cases htext

/-- The validator accepts `max_reqs_sec '2000'`; the period is zero and the first request divides by
it. -/
theorem period_undefined_two_thousand :
    ocgeoFdwValidator [⟨uriOption, ofAscii "u"⟩] foreignServerRelationId = .ok () ∧
      ocgeoFdwValidator [⟨apiKeyOption, ofAscii "k"⟩, ⟨maxReqsSecOption, ofAscii "2000"⟩]
        userMappingRelationId = .ok () ∧
      ¬ 1 ≤ period (ocgeoGetOptions 1 2 [] [⟨uriOption, ofAscii "u"⟩]
        [⟨apiKeyOption, ofAscii "k"⟩, ⟨maxReqsSecOption, ofAscii "2000"⟩]).max_reqs_sec ∧
      EventRun.run request (.start [⟨0, 0⟩, ⟨0, 0⟩, ⟨0, 0⟩])
        [⟨ocgeoGetOptions 1 2 [] [⟨uriOption, ofAscii "u"⟩]
          [⟨apiKeyOption, ofAscii "k"⟩, ⟨maxReqsSecOption, ofAscii "2000"⟩],
          ⟨false, .zeroed none⟩⟩] = .error .divisionByZero := by
  refine ⟨by decide, by decide, by decide, ?_⟩
  rfl

end OcgeoFdw
