import OcgeoFdw.RateLimiting.Bucket
import Mathlib.Algebra.BigOperators.Ring.Finset

/-! # The rate of the refill

A request is credited with the tokens that the periods since the last request put into the bucket.
The period is a truncated quotient and the time is measured by `TIMEVALDIFF`, so a period may be
counted before the limit has earned it. `refill_iff` states along which runs the credits stay within
the configured rate. -/

namespace OcgeoFdw

open CInt

/-- The credit of the request after the `k`-th one of a user: its permits up to the limit, less the
tokens stored before it. -/
def creditAfter (M : ℤ) (log : List Sent) (k : ℕ) : ℤ :=
  match log[k]?, log[k + 1]? with
  | some a, some b => min M b.permits - a.tokens
  | _, _ => 0

/-- Between any two requests the limiter credits no more than `M` tokens a second. -/
def RefillBounded (M : ℤ) (log : List Sent) : Prop :=
  ∀ (i j : ℕ) (hi : i < log.length) (hj : j < log.length), i < j →
    1000000 * ∑ k ∈ Finset.Ico i j, creditAfter M log k ≤
      M * (log[j].ts.micros - log[i].ts.micros)

/-- The periods counted at a reading, as far as the bucket has room for them, take no longer at `M`
tokens a second than the time elapsed. -/
def WithinRate (M period : ℤ) (stats : Counters) (t : Timeval) : Prop :=
  1000000 * min (M - stats.tokens) ((timevalDiff t stats.ts).tdiv period) ≤
    M * (t.micros - stats.ts.micros)

instance (M period : ℤ) (stats : Counters) (t : Timeval) :
    Decidable (WithinRate M period stats t) := inferInstanceAs (Decidable (_ ≤ _))

/-- `P` holds of the period, the counters and the reading that a request is admitted at: the last one
its loop evaluates. -/
def AtAdmission (P : ℤ → Counters → Timeval → Prop) (s : Session) (call : Call) : Prop :=
  ∀ stats s₁, ocgeoGetCounters call.table_options s = .ok (stats, s₁) →
    ∀ t ∈ (evaluated (period call.table_options.max_reqs_sec) stats s₁.clock).getLast?,
      P (period call.table_options.max_reqs_sec) stats t

/-! ## One reading -/

section Reading

variable {M : ℤ} {stats : Counters} {t : Timeval}

/-- The milliseconds measured are less than one above the time elapsed. -/
theorem mul_timevalDiff_lt {start end_ : Timeval} :
    1000 * timevalDiff end_ start < end_.micros - start.micros + 1000 := by
  unfold Timeval.micros timevalDiff
  by_cases hwrap : end_.tv_usec - start.tv_usec < 0
  · rw [tdiv_of_neg hwrap]
    omega
  · rw [tdiv_of_nonneg (not_lt.mp hwrap)]
    omega

/-- The periods of a second, in milliseconds, make up more than half of it. -/
theorem lt_mul_div {M : ℤ} (hM : 1 ≤ M) (hM' : M ≤ 1000) : 500 < M * (1000 / M) := by
  have hperiod : 1 ≤ 1000 / M := one_le_div_of_le hM hM'
  by_cases hlarge : M ≤ 500
  · have hrest := Int.lt_ediv_add_one_mul_self 1000 (by omega : 0 < M)
    linarith
  · calc (500 : ℤ) < M := not_le.mp hlarge
      _ = M * 1 := (mul_one M).symm
      _ ≤ M * (1000 / M) := mul_le_mul_of_nonneg_left hperiod (by omega)

/-- Permits that overflow an `int` are far fewer than the time elapsed earned. -/
theorem withinRate_of_overflow (hM : 1 ≤ M) (hM' : M ≤ 1000) (hlow : intMin ≤ stats.tokens)
    (hival : 0 ≤ timevalDiff t stats.ts)
    (hover : intMax < permitsLong (period M) stats t) : WithinRate M (period M) stats t := by
  have hperiod : period M = 1000 / M := period_of_pos (by omega)
  have hpos : 1 ≤ 1000 / M := one_le_div_of_le hM hM'
  rw [WithinRate]
  rw [permitsLong] at hover
  rw [tdiv_of_nonneg hival, hperiod] at hover ⊢
  set n := timevalDiff t stats.ts / (1000 / M) with hn
  have hn₀ : 0 ≤ n := Int.ediv_nonneg hival (by omega)
  norm_num [intMin, intMax] at hlow hover
  -- the periods counted last `n * (1000 / M)` milliseconds, less one for the rounding
  have hwhole : 1000 / M * n ≤ timevalDiff t stats.ts := Int.mul_ediv_self_le (by omega)
  have helapsed : 1000 * (1000 / M * n) - 999 ≤ t.micros - stats.ts.micros := by
    have hdiff : 1000 * timevalDiff t stats.ts < t.micros - stats.ts.micros + 1000 :=
      mul_timevalDiff_lt
    omega
  have hrate : 501 * n ≤ M * (1000 / M) * n :=
    mul_le_mul_of_nonneg_right (lt_mul_div hM hM') hn₀
  calc 1000000 * min (M - stats.tokens) n
      ≤ 1000000 * (M - stats.tokens) := by
        have := min_le_left (M - stats.tokens) n
        omega
    _ ≤ 1000 * (501 * n) - 999 * M := by omega
    _ ≤ 1000 * (M * (1000 / M) * n) - 999 * M := by omega
    _ = M * (1000 * (1000 / M * n) - 999) := by ring
    _ ≤ M * (t.micros - stats.ts.micros) := mul_le_mul_of_nonneg_left helapsed (by omega)

/-- **The credit at a reading** stays within the rate exactly when the periods counted do. -/
theorem credit_le_iff (hM : 1 ≤ M) (hM' : M ≤ 1000) (hlow : intMin ≤ stats.tokens)
    (hival : 0 ≤ timevalDiff t stats.ts) :
    1000000 * (min M (permitsAt (period M) stats t) - stats.tokens) ≤
        M * (t.micros - stats.ts.micros) ↔ WithinRate M (period M) stats t := by
  have hearned : 0 ≤ (timevalDiff t stats.ts).tdiv (period M) := by
    rw [tdiv_of_nonneg hival]
    exact Int.ediv_nonneg hival (period_nonneg M)
  have hlow' : intMin ≤ permitsLong (period M) stats t := by
    rw [permitsLong]
    omega
  by_cases hover : intMax < permitsLong (period M) stats t
  -- narrowing only takes permits away
  · have hwithin := withinRate_of_overflow hM hM' hlow hival hover
    refine iff_of_true ?_ hwithin
    have hle : permitsAt (period M) stats t ≤ permitsLong (period M) stats t := toInt32_le hlow'
    refine le_trans ?_ hwithin
    rw [permitsLong] at hle
    omega
  · have hexact : permitsAt (period M) stats t = permitsLong (period M) stats t :=
      toInt32_of_fits hlow' (not_lt.mp hover)
    have hcredit : min M (permitsAt (period M) stats t) - stats.tokens =
        min (M - stats.tokens) ((timevalDiff t stats.ts).tdiv (period M)) := by
      rw [hexact, permitsLong]
      omega
    rw [hcredit]
    rfl

/-- When the limit divides a second and no rounding takes place, the periods counted are earned. -/
theorem withinRate_of_dvd (hM : 1 ≤ M) (hdvd : M ∣ 1000) (hival : 0 ≤ timevalDiff t stats.ts)
    (hexact : 1000 * timevalDiff t stats.ts ≤ t.micros - stats.ts.micros) :
    WithinRate M (period M) stats t := by
  have hM' : M ≤ 1000 := Int.le_of_dvd (by norm_num) hdvd
  rw [WithinRate]
  rw [tdiv_of_nonneg hival, period_of_pos (by omega)]
  have hpos : 1 ≤ 1000 / M := one_le_div_of_le hM hM'
  set n := timevalDiff t stats.ts / (1000 / M) with hn
  have hwhole : 1000 / M * n ≤ timevalDiff t stats.ts := Int.mul_ediv_self_le (by omega)
  calc 1000000 * min (M - stats.tokens) n
      ≤ 1000000 * n := by
        have := min_le_right (M - stats.tokens) n
        omega
    _ = M * (1000 * (1000 / M * n)) := by
        have hcancel : M * (1000 / M) = 1000 := Int.mul_ediv_cancel' hdvd
        calc 1000000 * n = 1000 * (1000 * n) := by ring
          _ = 1000 * (M * (1000 / M) * n) := by rw [hcancel]
          _ = M * (1000 * (1000 / M * n)) := by ring
    _ ≤ M * (t.micros - stats.ts.micros) := mul_le_mul_of_nonneg_left (by omega) (by omega)

end Reading

/-! ## Runs -/

section Runs

variable {M : ℤ} {user_id : Oid} {s s' : Session} {call : Call} {a b : Sent} {log : List Sent}

/-- The bound over all windows is the bound over neighbours. -/
theorem refillBounded_iff_isChain :
    RefillBounded M log ↔ log.IsChain fun a b =>
      1000000 * (min M b.permits - a.tokens) ≤ M * (b.ts.micros - a.ts.micros) := by
  have hwindows := Amortized.sum_Ico_le_sub_iff (f := fun k => 1000000 * creditAfter M log k)
    (w := fun k => M * ((log[k]?.map fun e => e.ts.micros).getD 0)) (n := log.length)
  rw [List.isChain_iff_getElem]
  constructor
  · intro h k hk
    have hstep := hwindows.mp ?_ k hk
    · simpa [creditAfter, List.getElem?_eq_getElem hk, mul_sub,
        List.getElem?_eq_getElem (Nat.lt_of_succ_lt hk)] using hstep
    · intro i j hij hj
      have hwindow := h i j (hij.trans hj) hj hij
      rw [Finset.mul_sum] at hwindow
      simpa [List.getElem?_eq_getElem hj, List.getElem?_eq_getElem (hij.trans hj), mul_sub]
        using hwindow
  · intro h i j hi hj hij
    have hwindow := hwindows.mpr ?_ i j hij hj
    · rw [Finset.mul_sum]
      simpa [List.getElem?_eq_getElem hj, List.getElem?_eq_getElem hi, mul_sub]
        using hwindow
    · intro k hk
      have hstep := h k hk
      simpa [creditAfter, List.getElem?_eq_getElem hk, mul_sub,
        List.getElem?_eq_getElem (Nat.lt_of_succ_lt hk)] using hstep

/-- What ties a request to the state it left: the bucket is stored, in its range, and the readings to
come do not precede it. -/
structure Leaves (user_id : Oid) (e : Sent) (s : Session) : Prop where
  holds : Holds user_id e s
  tokens : intMin ≤ e.tokens
  clock : OrderedClock (e.ts :: s.clock)

/-- Every request over an ordered clock leaves its bucket. -/
theorem leaves_of_request (hclock : OrderedClock s.clock) (h : request s call = .ok (a, s')) :
    Leaves call.table_options.user_id a s' where
  holds := (request_reads hclock h).2.2
  tokens := by
    obtain ⟨stats, s₁, admission, end_time, -, -, -, rfl⟩ := request_cases h
    exact (toInt32_fits _).1
  clock := orderedClock_of_request hclock h

/-- **The next request**: its credit stays within the rate exactly when the reading it is admitted at
does. -/
theorem credit_of_request_iff (hM : 1 ≤ M) (hM' : M ≤ 1000)
    (hlimit : call.table_options.max_reqs_sec = M) (hleaves : Leaves call.table_options.user_id a s)
    (h : request s call = .ok (b, s')) :
    1000000 * (min M b.permits - a.tokens) ≤ M * (b.ts.micros - a.ts.micros) ↔
      AtAdmission (WithinRate M) s call := by
  subst hlimit
  obtain ⟨stored, hstored, htokens, hts⟩ := hleaves.holds
  have hafter := orderedClock_of_request (hleaves.clock.sublist (List.sublist_cons_self _ _)) h
  obtain ⟨stats, s₁, admission, end_time, hget, hloop, -, rfl⟩ := request_cases h
  obtain ⟨-, hpermits, -, skipped, hreadings, heval, -⟩ := rateLoop_cases hloop
  -- the entry found is the one the previous request stored
  obtain ⟨rfl, hsame⟩ : stats = stored ∧ s₁.clock = s.clock := by
    rcases ocgeoGetCounters_cases hget with ⟨-, ⟨hfound, hsame⟩ | ⟨hnone, -⟩⟩
    · exact ⟨Option.some.inj (hfound.symm.trans hstored), hsame⟩
    · rw [hnone] at hstored
      cases hstored
  have hival : 0 ≤ timevalDiff admission.start_time stats.ts := by
    have hclock := hleaves.clock
    rw [← hsame, hreadings, ← hts] at hclock
    exact (hclock.timevalDiff_le (by simp)).1
  rw [← htokens, ← hts, hpermits,
    credit_le_iff hM hM' (by rw [htokens]; exact hleaves.tokens) hival]
  constructor
  · intro hwithin stats' s₁' hget' t ht
    obtain ⟨rfl, rfl⟩ := Prod.mk.inj (Except.ok.inj (hget.symm.trans hget'))
    rw [heval, List.getLast?_concat, Option.mem_some_iff] at ht
    exact ht ▸ hwithin
  · intro hadmission
    exact hadmission stats s₁ hget admission.start_time (by rw [heval, List.getLast?_concat]; rfl)

end Runs

/-- **The rate of the refill.** For a limit `M` in range, the credits of a run stay within `M` tokens
a second, between any two of its requests, if and only if every request after the first is admitted
at a reading where the periods counted are within the rate. -/
theorem refill_iff {M : ℤ} (hM : 1 ≤ M) (hM' : M ≤ 1000) (user_id : Oid) {s s₁ t : Session}
    {first : Call} {rest : List Call} {e : Sent} {log : List Sent} (hclock : OrderedClock s.clock)
    (hcalls : ∀ call ∈ first :: rest, CallOf user_id (fun _ => M) call)
    (hfirst : request s first = .ok (e, s₁)) (hrun : EventRun.run request s₁ rest = .ok (log, t)) :
    RefillBounded M (e :: log) ↔ EventRun.Along request (AtAdmission (WithinRate M)) s₁ rest := by
  rw [refillBounded_iff_isChain]
  obtain ⟨rfl, -⟩ := hcalls first List.mem_cons_self
  have hleaves := leaves_of_request hclock hfirst
  have hrest : EventRun.Along request (fun _ => CallOf first.table_options.user_id fun _ => M) s₁
      rest :=
    EventRun.along_of_forall_mem (fun call hcall => hcalls call (List.mem_cons_of_mem first hcall))
      s₁
  constructor
  · refine EventRun.along_of_isChain_cons_outputs (L := Leaves first.table_options.user_id) ?_
      hleaves hrest hrun
    rintro a s call b s' hleaves ⟨hid, hlimit⟩ hstep hab
    rw [← hid] at hleaves ⊢
    exact ⟨(credit_of_request_iff hM hM' hlimit hleaves hstep).mp hab,
      leaves_of_request (hleaves.clock.sublist (List.sublist_cons_self _ _)) hstep⟩
  · intro halong
    refine EventRun.isChain_cons_outputs (L := Leaves first.table_options.user_id) ?_ hleaves
      (halong.and hrest) hrun
    rintro a s call b s' hleaves ⟨hadmission, hid, hlimit⟩ hstep
    rw [← hid] at hleaves ⊢
    exact ⟨(credit_of_request_iff hM hM' hlimit hleaves hstep).mpr hadmission,
      leaves_of_request (hleaves.clock.sublist (List.sublist_cons_self _ _)) hstep⟩

/-- A request of user 10 under limit `M` that gets no reply. -/
def failedCall (M : ℤ) : Call := ⟨⟨1, 10, none, none, M, 2500⟩, ⟨false, .zeroed none⟩⟩

/-- Two requests under limit one, a whole second apart. -/
theorem refill_one_second :
    ∃ e s₁ log t,
      request (.start [⟨0, 0⟩, ⟨0, 0⟩, ⟨0, 0⟩, ⟨1, 0⟩, ⟨1, 0⟩]) (failedCall 1) = .ok (e, s₁) ∧
      EventRun.run request s₁ [failedCall 1] = .ok (log, t) ∧
      (RefillBounded 1 (e :: log) ↔
        EventRun.Along request (AtAdmission (WithinRate 1)) s₁ [failedCall 1]) := by
  obtain ⟨log, t, hrun⟩ : ∃ log t, EventRun.run request
      (.start [⟨0, 0⟩, ⟨0, 0⟩, ⟨0, 0⟩, ⟨1, 0⟩, ⟨1, 0⟩]) [failedCall 1, failedCall 1] = .ok (log, t) :=
    ⟨_, _, rfl⟩
  obtain ⟨e, s₁, rest, hfirst, hrest, -⟩ := EventRun.exists_of_run_cons hrun
  refine ⟨e, s₁, rest, t, hfirst, hrest, refill_iff (by norm_num) (by norm_num) 10
    ⟨by decide, by decide⟩ ?_ hfirst hrest⟩
  intro call hcall
  obtain rfl : call = failedCall 1 := by simpa using hcall
  exact ⟨rfl, rfl⟩

/-- Under limit one, a request 999.001 ms after the last one is credited with a token, because the
difference is rounded up to a second. Under limit three, one 333 ms after it is, because the period
is truncated. -/
theorem not_refillBounded :
    (∃ log t, EventRun.run request
        (.start [⟨0, 999⟩, ⟨0, 999⟩, ⟨0, 999⟩, ⟨1, 0⟩, ⟨1, 0⟩])
        [failedCall 1, failedCall 1] = .ok (log, t) ∧ ¬ RefillBounded 1 log) ∧
      ∃ log t, EventRun.run request
        (.start [⟨0, 0⟩, ⟨0, 0⟩, ⟨0, 0⟩, ⟨0, 333000⟩, ⟨0, 333000⟩])
        [failedCall 3, failedCall 3] = .ok (log, t) ∧ ¬ RefillBounded 3 log := by
  constructor
  · refine ⟨_, _, rfl, fun h => ?_⟩
    exact absurd (h 0 1 (by decide) (by decide) (by decide)) (by decide)
  · refine ⟨_, _, rfl, fun h => ?_⟩
    exact absurd (h 0 1 (by decide) (by decide) (by decide)) (by decide)

end OcgeoFdw
