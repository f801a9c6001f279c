import OcgeoFdw.RateLimiting.Bucket

/-! # Feasible schedules

The bounds of the limiter are sharp only if runs exist that reach them. This file builds such runs:
a request whose first clock reading finds a permit is sent at that reading, and a bucket with `k`
tokens sends `k` requests at any given instants. -/

namespace OcgeoFdw

open CInt

/-- The readings of a new user's requests at the given instants: one for the new entry, then one at
the start and one at the end of each request. -/
def clockFor (first : Timeval) (times : List Timeval) : List Timeval :=
  first :: (first :: times).flatMap fun t => [t, t]

/-- The readings of ordered instants are ordered. -/
theorem orderedClock_clockFor {first : Timeval} {times : List Timeval}
    (h : OrderedClock (first :: times)) : OrderedClock (clockFor first times) := by
  have hmem : ∀ t, t ∈ (first :: times).flatMap (fun t => [t, t]) ↔ t ∈ first :: times := by
    intro t
    simp [List.mem_flatMap]
  have hfirst : ∀ t ∈ first :: times, first.micros ≤ t.micros := by
    intro t ht
    rcases List.mem_cons.mp ht with rfl | ht
    · exact le_rfl
    · exact List.rel_of_pairwise_cons h.sorted ht
  refine ⟨?_, ?_⟩
  · intro t ht
    rcases List.mem_cons.mp ht with rfl | ht
    · exact h.normalized t List.mem_cons_self
    · exact h.normalized t ((hmem t).mp ht)
  · refine List.pairwise_cons.mpr ⟨fun t ht => hfirst t ((hmem t).mp ht), ?_⟩
    refine List.pairwise_flatMap.mpr ⟨fun t _ => by simp, h.sorted.imp fun {a b} hab => ?_⟩
    simpa using hab

/-- The session holds a bucket of the user with `tokens` stored at `ts`, and reads `clock` next. -/
def BucketAt (user_id : Oid) (s : Session) (tokens : ℤ) (ts : Timeval) (clock : List Timeval) :
    Prop :=
  (∃ stats, s.counters user_id = some stats ∧ stats.tokens = tokens ∧ stats.ts = ts) ∧
    s.clock = clock

/-- The run from `s` sends exactly the given requests, by server and time, without sleeping and with
permits that fit an `int`, and ends in `s'`. -/
def Sends (s : Session) (calls : List Call) (sends : List (Oid × Timeval)) (s' : Session) : Prop :=
  (∃ log, EventRun.run request s calls = .ok (log, s') ∧
    log.map (fun e => (e.server_id, e.ts)) = sends ∧ ∀ e ∈ log, e.sleeps = []) ∧
    PermitsFitAlong s calls

namespace Sends

variable {s s' s'' : Session} {calls calls' : List Call} {sends sends' : List (Oid × Timeval)}

/-- Nothing sent. -/
theorem nil (s : Session) : Sends s [] [] s :=
  ⟨⟨[], rfl, rfl, fun _ he => absurd he List.not_mem_nil⟩, trivial⟩

/-- One request. -/
theorem single {call : Call} {e : Sent} {t : Timeval}
    (h : request s call = .ok (e, s')) (hts : e.ts = t) (hawake : e.sleeps = [])
    (hfit : AtEveryReading PermitsFit s call) :
    Sends s [call] [(call.table_options.server_id, t)] s' := by
  refine ⟨⟨[e], EventRun.run_cons_of_ok h (EventRun.run_nil s'), ?_, ?_⟩,
    EventRun.along_cons_of_ok hfit h trivial⟩
  · rw [List.map_singleton, (request_ids h).1, hts]
  · intro e' he'
    rw [List.mem_singleton.mp he']
    exact hawake

/-- One run after another. -/
theorem append (h : Sends s calls sends s') (h' : Sends s' calls' sends' s'') :
    Sends s (calls ++ calls') (sends ++ sends') s'' := by
  obtain ⟨⟨log, hrun, rfl, hawake⟩, hfit⟩ := h
  obtain ⟨⟨log', hrun', rfl, hawake'⟩, hfit'⟩ := h'
  exact ⟨⟨log ++ log', EventRun.run_append_of_ok hrun hrun', List.map_append,
    List.forall_mem_append.mpr ⟨hawake, hawake'⟩⟩, EventRun.along_append_of_ok hfit hrun hfit'⟩

end Sends

section Immediate

variable {M : ℤ} {call : Call} {user_id : Oid} {s : Session} {t end_time : Timeval}
  {rest : List Timeval}

/-- A request whose first reading finds permits is sent at that reading. -/
theorem sends_of_permits {stats : Counters} {s₁ : Session} (hM : 1 ≤ M) (hM' : M ≤ 1000)
    (huser : call.table_options.user_id = user_id) (hlimit : call.table_options.max_reqs_sec = M)
    (hget : ocgeoGetCounters call.table_options s = .ok (stats, s₁))
    (hclock : s₁.clock = t :: end_time :: rest) (hpos : 1 ≤ permitsLong (period M) stats t)
    (hint : permitsLong (period M) stats t ≤ intMax) :
    ∃ s', Sends s [call] [(call.table_options.server_id, t)] s' ∧
      BucketAt user_id s' (min M (permitsLong (period M) stats t) - 1) t rest := by
  subst hlimit huser
  have hfits : PermitsFit (period call.table_options.max_reqs_sec) stats t := by
    refine ⟨?_, hint⟩
    norm_num [intMin]
    omega
  have hpermits : permitsAt (period call.table_options.max_reqs_sec) stats t =
      permitsLong (period call.table_options.max_reqs_sec) stats t :=
    toInt32_of_fits hfits.1 hfits.2
  have hne : permitsAt (period call.table_options.max_reqs_sec) stats t ≠ 0 := by omega
  have hp : period call.table_options.max_reqs_sec ≠ 0 := by
    have := (period_pos_iff call.table_options.max_reqs_sec).mpr hM'
    omega
  have hloop : rateLoop (period call.table_options.max_reqs_sec) stats s₁.clock =
      .ok (⟨[], t, permitsAt (period call.table_options.max_reqs_sec) stats t⟩,
        end_time :: rest) := by
    rw [hclock, rateLoop, if_neg hp, if_neg hne]
  obtain ⟨⟨ocgeo_hash, hhash⟩, -⟩ := ocgeoGetCounters_cases hget
  -- the step computes; what it stores is read off below
  refine ⟨_, Sends.single (by
    simp only [request, hget, submitRequestWithRateLimiter, hloop]
    rfl) rfl rfl ?_, ⟨⟨stats.afterRequest call.table_options.max_reqs_sec
      ⟨[], t, permitsAt (period call.table_options.max_reqs_sec) stats t⟩ call.forward end_time,
      ?_, ?_, rfl⟩, rfl⟩⟩
  · intro stats' s₂ hget' t' ht'
    obtain ⟨rfl, rfl⟩ : stats = stats' ∧ s₁ = s₂ := by simpa [hget] using hget'
    rw [hclock, evaluated, if_neg hne, List.mem_singleton] at ht'
    rw [ht']
    exact hfits
  · simp only [Session.counters, hhash, Option.map_some, Option.bind_some, Function.update_self]
  · show toInt32 (min (maxReqsPerSec _) (permitsAt _ stats t) - 1) = _
    rw [hpermits, maxReqsPerSec_of_pos (by omega)]
    refine toInt32_of_fits ?_ ?_ <;> norm_num [intMin, intMax] <;> omega

/-- The first request of a user finds the whole limit in its bucket. -/
theorem sends_first (hM : 1 ≤ M) (hM' : M ≤ 1000) (huser : call.table_options.user_id = user_id)
    (hlimit : call.table_options.max_reqs_sec = M) (hnew : s.counters user_id = none)
    (hclock : s.clock = t :: t :: t :: rest) :
    ∃ s', Sends s [call] [(call.table_options.server_id, t)] s' ∧
      BucketAt user_id s' (M - 1) t rest := by
  have hget : ∃ s₁, ocgeoGetCounters call.table_options s = .ok (.new M t, s₁) ∧
      s₁.clock = t :: t :: rest := by
    have hnone : (s.ocgeo_hash.getD fun _ => none) call.table_options.user_id = none := by
      rw [huser]
      rw [Session.counters] at hnew
      cases hhash : s.ocgeo_hash with
      | none => rfl
      | some ocgeo_hash =>
          rw [hhash] at hnew
          exact hnew
    rw [ocgeoGetCounters]
    simp only [hnone, hclock, hlimit]
    exact ⟨_, rfl, rfl⟩
  obtain ⟨s₁, hget, hclock₁⟩ := hget
  have hlong : permitsLong (period M) (.new M t) t = M := by
    rw [permitsLong, Counters.new]
    simp
  obtain ⟨s', hsends, hbucket⟩ := sends_of_permits hM hM' huser hlimit hget hclock₁
    (by omega) (by norm_num [hlong, intMax]; omega)
  rw [hlong, min_self] at hbucket
  exact ⟨s', hsends, hbucket⟩

/-- A later request finds the tokens stored and those earned since. -/
theorem sends_next {tokens : ℤ} {ts : Timeval} (hM : 1 ≤ M) (hM' : M ≤ 1000)
    (huser : call.table_options.user_id = user_id) (hlimit : call.table_options.max_reqs_sec = M)
    (hbucket : BucketAt user_id s tokens ts (t :: end_time :: rest))
    (hpos : 1 ≤ tokens + (timevalDiff t ts).tdiv (period M))
    (hint : tokens + (timevalDiff t ts).tdiv (period M) ≤ intMax) :
    ∃ s', Sends s [call] [(call.table_options.server_id, t)] s' ∧
      BucketAt user_id s' (min M (tokens + (timevalDiff t ts).tdiv (period M)) - 1) t rest := by
  obtain ⟨⟨stats, hstats, rfl, rfl⟩, hclock⟩ := hbucket
  have hget : ∃ s₁, ocgeoGetCounters call.table_options s = .ok (stats, s₁) ∧
      s₁.clock = t :: end_time :: rest := by
    rw [Session.counters] at hstats
    cases hhash : s.ocgeo_hash with
    | none => simp [hhash] at hstats
    | some ocgeo_hash =>
        have hfound : ocgeo_hash call.table_options.user_id = some stats := by
          rw [huser]
          simpa [hhash] using hstats
        rw [ocgeoGetCounters]
        simp only [hhash, Option.getD_some, hfound]
        exact ⟨_, rfl, hclock⟩
  obtain ⟨s₁, hget, hclock₁⟩ := hget
  exact sends_of_permits hM hM' huser hlimit hget hclock₁ hpos hint

end Immediate

/-! ## Bursts -/

section Burst

variable {M : ℤ} {call : Call} {user_id : Oid}

/-- Within one second of the clock, the difference to a later reading is less than 1000 ms. -/
theorem timevalDiff_of_same_second {t ts : Timeval} (hts : ts.Normalized) (ht : t.Normalized)
    (hsec : t.tv_sec = ts.tv_sec) (hle : ts.micros ≤ t.micros) :
    0 ≤ timevalDiff t ts ∧ timevalDiff t ts ≤ 1000 := by
  refine ⟨timevalDiff_nonneg hts ht hle, ?_⟩
  obtain ⟨hts₀, -⟩ := hts
  obtain ⟨-, ht₁⟩ := ht
  unfold Timeval.micros at hle
  rw [timevalDiff, hsec, tdiv_of_nonneg (by omega)]
  omega

/-- A bucket with a token for each of some instants of its second sends a request at each. -/
theorem sends_burst (hM : 1 ≤ M) (hM' : M ≤ 1000)
    (huser : call.table_options.user_id = user_id) (hlimit : call.table_options.max_reqs_sec = M)
    {times rest : List Timeval} {s : Session} {tokens : ℤ} {ts : Timeval}
    (hbucket : BucketAt user_id s tokens ts (times.flatMap (fun t => [t, t]) ++ rest))
    (hclock : OrderedClock (ts :: times)) (hsec : ∀ t ∈ times, t.tv_sec = ts.tv_sec)
    (hlow : times.length ≤ tokens) (hhigh : tokens ≤ 1000) (hcap : times.length ≤ M) :
    ∃ s' tokens', Sends s (times.map fun _ => call)
        (times.map fun t => (call.table_options.server_id, t)) s' ∧
      0 ≤ tokens' ∧ tokens' ≤ 1000 ∧
      BucketAt user_id s' tokens' ((ts :: times).getLast (List.cons_ne_nil ts times)) rest := by
  induction times generalizing s tokens ts with
  | nil => exact ⟨s, tokens, Sends.nil s, hlow, hhigh, hbucket⟩
  | cons t times ih =>
      have hts := hclock.normalized ts List.mem_cons_self
      have ht := hclock.normalized t (List.mem_cons_of_mem ts List.mem_cons_self)
      have hle := List.rel_of_pairwise_cons hclock.sorted List.mem_cons_self
      obtain ⟨hival₀, hival₁⟩ :=
        timevalDiff_of_same_second hts ht (hsec t List.mem_cons_self) hle
      have hperiod := (period_pos_iff M).mpr hM'
      have hearned₀ : 0 ≤ (timevalDiff t ts).tdiv (period M) := by
        rw [tdiv_of_nonneg hival₀]
        exact Int.ediv_nonneg hival₀ (by omega)
      have hearned₁ : (timevalDiff t ts).tdiv (period M) ≤ 1000 := by
        rw [tdiv_of_nonneg hival₀]
        exact (Int.ediv_le_self _ hival₀).trans hival₁
      simp only [List.length_cons, Nat.cast_add, Nat.cast_one] at hlow hcap
      rw [List.flatMap_cons] at hbucket
      obtain ⟨s₁, hfirst, hbucket₁⟩ := sends_next hM hM' huser hlimit hbucket (by omega)
        (by norm_num [intMax]; omega)
      -- the token taken leaves one for each of the remaining instants
      obtain ⟨s', tokens', hrest, hlow', hhigh', hbucket'⟩ := ih hbucket₁
        (hclock.sublist (List.sublist_cons_self ts (t :: times)))
        (fun t' ht' => (hsec t' (List.mem_cons_of_mem t ht')).trans
          (hsec t List.mem_cons_self).symm)
        (by omega) (by omega) (by omega)
      refine ⟨s', tokens', ?_, hlow', hhigh', ?_⟩
      · rw [List.map_cons, List.map_cons]
        exact hfirst.append hrest
      · rw [List.getLast_cons_cons]
        exact hbucket'

end Burst

end OcgeoFdw
