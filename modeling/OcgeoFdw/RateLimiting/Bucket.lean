import OcgeoFdw.Foundation.TokenBucket
import OcgeoFdw.RateLimiting.Limiter

/-! # The bucket of a user

What a request does to the bucket when the clock does not go backwards and the permits fit an
`int`: the tokens stay between zero and the limit, and every token beyond those stored was earned by
a period of credited time. The bound over arbitrary windows follows by the accounting of a token
bucket. -/

namespace OcgeoFdw

open CInt

/-- The permits computed at a reading fit an `int`. -/
def PermitsFit (period : ℤ) (stats : Counters) (start_time : Timeval) : Prop :=
  intMin ≤ permitsLong period stats start_time ∧ permitsLong period stats start_time ≤ intMax

instance (p : ℤ) (stats : Counters) (t : Timeval) : Decidable (PermitsFit p stats t) :=
  inferInstanceAs (Decidable (_ ∧ _))

/-- The readings to come are ordered, and the bucket of the user, if there is one, is not overdrawn
and was stored before them. -/
structure BucketReady (user_id : Oid) (s : Session) : Prop where
  clock : OrderedClock s.clock
  bucket : ∀ stats, s.counters user_id = some stats →
    0 ≤ stats.tokens ∧ OrderedClock (stats.ts :: s.clock)

/-- The session holds the bucket that a request left. -/
def Holds (user_id : Oid) (e : Sent) (s : Session) : Prop :=
  ∃ stats, s.counters user_id = some stats ∧ stats.tokens = e.tokens ∧ stats.ts = e.ts

/-- A request under limit `M` from a bucket with `tokens` stored at `ts`: it has a permit, the
bucket is capped before the permit is taken, and the permits beyond `tokens` were earned. -/
structure Admits (M tokens : ℤ) (ts : Timeval) (e : Sent) : Prop where
  permits_pos : 1 ≤ e.permits
  tokens_eq : e.tokens = min M e.permits - 1
  tokens_le : tokens ≤ e.permits
  earned : 1000 * (1000 / M) * (e.permits - tokens) ≤ e.ts.credited - ts.credited

namespace Admits

variable {M tokens : ℤ} {ts : Timeval} {e : Sent}

/-- The tokens left are between zero and `M - 1`. -/
theorem tokens_mem (h : Admits M tokens ts e) (hM : 1 ≤ M) : 0 ≤ e.tokens ∧ e.tokens ≤ M - 1 := by
  have := h.permits_pos
  rw [h.tokens_eq]
  omega

/-- The tokens left are at most one less than the permits. -/
theorem tokens_le_permits (h : Admits M tokens ts e) : e.tokens ≤ e.permits - 1 := by
  rw [h.tokens_eq]
  omega

end Admits

/-! ## One request -/

section Step

variable {M : ℤ} {s s' : Session} {call : Call} {e : Sent}

/-- The loop, from a bucket that is not overdrawn: the permits at its exit are the tokens and the
whole periods earned since. -/
theorem rateLoop_earned {stats : Counters} {clock rest : List Timeval} {admission : Admission}
    (htokens : 0 ≤ stats.tokens) (hclock : OrderedClock (stats.ts :: clock)) (hM : 1 ≤ M)
    (hfit : ∀ t ∈ evaluated (period M) stats clock, PermitsFit (period M) stats t)
    (h : rateLoop (period M) stats clock = .ok (admission, rest)) :
    1 ≤ admission.permits ∧ stats.tokens ≤ admission.permits ∧
      1000 * (1000 / M) * (admission.permits - stats.tokens) ≤
        admission.start_time.credited - stats.ts.credited ∧
      OrderedClock (admission.start_time :: rest) := by
  obtain ⟨hp, hpermits, hne, skipped, rfl, heval, -⟩ := rateLoop_cases h
  obtain ⟨hlow, hhigh⟩ := hfit admission.start_time (by rw [heval]; simp)
  obtain ⟨hival, hcredit⟩ := hclock.timevalDiff_le (t := admission.start_time) (by simp)
  rw [permitsAt, toInt32_of_fits hlow hhigh, permitsLong, tdiv_of_nonneg hival] at hpermits
  have hperiod : 0 ≤ period M := period_nonneg M
  have hearned : 0 ≤ timevalDiff admission.start_time stats.ts / period M :=
    Int.ediv_nonneg hival hperiod
  refine ⟨by omega, by omega, ?_, ?_⟩
  -- whole periods cost no more than the credited time
  · rw [← period_of_pos (by omega : 0 < M), hpermits, add_sub_cancel_left, mul_assoc]
    have hwhole := Int.mul_ediv_self_le (x := timevalDiff admission.start_time stats.ts) hp
    linarith
  · refine hclock.sublist ((List.sublist_append_right skipped _).cons stats.ts)

/-- **One request under limit `M`**, on the bucket stored or on a new one with `M` tokens. -/
theorem request_admits (hM : 1 ≤ M) (hM' : M ≤ 1000) (hlimit : call.table_options.max_reqs_sec = M)
    (hready : BucketReady call.table_options.user_id s) (hfit : AtEveryReading PermitsFit s call)
    (h : request s call = .ok (e, s')) :
    ∃ stats, (s.counters call.table_options.user_id = some stats ∨
        s.counters call.table_options.user_id = none ∧ stats.tokens = M) ∧
      Admits M stats.tokens stats.ts e ∧ BucketReady call.table_options.user_id s' ∧
      Holds call.table_options.user_id e s' := by
  subst hlimit
  obtain ⟨stats, s₁, admission, end_time, hget, hloop, hstored, rfl⟩ := request_cases h
  -- the bucket the loop starts from is in order in both cases
  have hbucket : 0 ≤ stats.tokens ∧ OrderedClock (stats.ts :: s₁.clock) ∧
      (s.counters call.table_options.user_id = some stats ∨
        s.counters call.table_options.user_id = none ∧
          stats.tokens = call.table_options.max_reqs_sec) := by
    rcases ocgeoGetCounters_cases hget with ⟨-, ⟨hfound, hclock⟩ | ⟨hnone, ts, hclock, hnew⟩⟩
    · obtain ⟨htokens, hordered⟩ := hready.bucket stats hfound
      rw [hclock]
      exact ⟨htokens, hordered, Or.inl hfound⟩
    -- a new entry took the first reading and holds the whole limit
    · have hordered := hready.clock
      rw [hclock] at hordered
      rw [hnew]
      exact ⟨by show 0 ≤ call.table_options.max_reqs_sec; omega, hordered, Or.inr ⟨hnone, rfl⟩⟩
  obtain ⟨htokens, hclock, hsource⟩ := hbucket
  obtain ⟨hpos, hle, hearned, hrest⟩ :=
    rateLoop_earned htokens hclock hM (hfit stats s₁ hget) hloop
  have hleft : toInt32 (min (maxReqsPerSec call.table_options.max_reqs_sec) admission.permits - 1) =
      min call.table_options.max_reqs_sec admission.permits - 1 := by
    rw [maxReqsPerSec_of_pos (by omega)]
    refine toInt32_of_fits ?_ ?_ <;> norm_num [intMin, intMax] <;> omega
  have hrest' : OrderedClock (admission.start_time :: s'.clock) :=
    hrest.sublist ((List.sublist_cons_self end_time s'.clock).cons_cons admission.start_time)
  refine ⟨stats, hsource, ⟨hpos, hleft, hle, hearned⟩, ⟨?_, ?_⟩, ⟨_, hstored, rfl, rfl⟩⟩
  · exact hrest'.sublist (List.sublist_cons_self _ _)
  · intro stats' hstats'
    obtain rfl := Option.some.inj (hstored.symm.trans hstats')
    refine ⟨?_, hrest'⟩
    show 0 ≤ toInt32 _
    rw [hleft]
    omega

/-- A request is sent at one of the readings to come, stores it, and leaves an ordered clock. -/
theorem request_reads (hclock : OrderedClock s.clock) (h : request s call = .ok (e, s')) :
    (∃ skipped end_time, s.clock = skipped ++ e.ts :: end_time :: s'.clock) ∧
      OrderedClock s'.clock ∧ Holds call.table_options.user_id e s' := by
  obtain ⟨stats, s₁, admission, end_time, hget, hloop, hstored, rfl⟩ := request_cases h
  obtain ⟨-, -, -, skipped, hreadings, -, -⟩ := rateLoop_cases hloop
  have hsplit : ∃ skipped, s.clock = skipped ++ admission.start_time :: end_time :: s'.clock := by
    rcases ocgeoGetCounters_cases hget with ⟨-, ⟨-, hsame⟩ | ⟨-, ts, hnext, -⟩⟩
    · exact ⟨skipped, by rw [← hsame, hreadings]⟩
    -- a new entry takes one reading more
    · exact ⟨ts :: skipped, by rw [hnext, hreadings]; rfl⟩
  obtain ⟨skipped, hsplit⟩ := hsplit
  refine ⟨⟨skipped, end_time, hsplit⟩, ?_, ⟨_, hstored, rfl, rfl⟩⟩
  apply hclock.sublist
  rw [hsplit]
  exact ((List.suffix_cons _ _).trans
    ((List.suffix_cons _ _).trans (List.suffix_append skipped _))).sublist

/-- The readings left after a request do not precede the one it was sent at. -/
theorem orderedClock_of_request (hclock : OrderedClock s.clock) (h : request s call = .ok (e, s')) :
    OrderedClock (e.ts :: s'.clock) := by
  obtain ⟨⟨skipped, end_time, hsplit⟩, -⟩ := request_reads hclock h
  apply hclock.sublist
  rw [hsplit]
  exact ((List.sublist_cons_self end_time _).cons_cons e.ts).trans
    (List.sublist_append_right skipped _)

end Step

/-! ## Runs of one user -/

section Runs

variable {user_id : Oid} {limit : Oid → ℤ} {s t : Session} {calls : List Call} {log : List Sent}

/-- A call of the user through a server with the given limit. -/
def CallOf (user_id : Oid) (limit : Oid → ℤ) (call : Call) : Prop :=
  call.table_options.user_id = user_id ∧
    call.table_options.max_reqs_sec = limit call.table_options.server_id

instance (user_id : Oid) (limit : Oid → ℤ) (call : Call) : Decidable (CallOf user_id limit call) :=
  inferInstanceAs (Decidable (_ ∧ _))

/-- The permits fit an `int` at every reading that a request of the run evaluates. -/
def PermitsFitAlong (s : Session) (calls : List Call) : Prop :=
  EventRun.Along request (AtEveryReading PermitsFit) s calls

/-- A session without an entry for the user, under an ordered clock. -/
theorem BucketReady.of_no_entry (hnone : s.counters user_id = none)
    (hclock : OrderedClock s.clock) : BucketReady user_id s :=
  ⟨hclock, fun stats hstats => by rw [hnone] at hstats; cases hstats⟩

/-- The premises of `request_admits`, along a run. -/
theorem along_callOf (hcalls : ∀ call ∈ calls, CallOf user_id limit call)
    (hfit : PermitsFitAlong s calls) :
    EventRun.Along request
      (fun s call => AtEveryReading PermitsFit s call ∧ CallOf user_id limit call) s calls :=
  EventRun.Along.and hfit (EventRun.along_of_forall_mem hcalls s)

/-- After every request of a run the tokens are between zero and one less than the limit of its
server. -/
theorem tokens_of_run (hlimit : ∀ X, 1 ≤ limit X ∧ limit X ≤ 1000)
    (hready : BucketReady user_id s) (hcalls : ∀ call ∈ calls, CallOf user_id limit call)
    (hfit : PermitsFitAlong s calls) (hrun : EventRun.run request s calls = .ok (log, t)) :
    ∀ e ∈ log, 0 ≤ e.tokens ∧ e.tokens ≤ limit e.server_id - 1 := by
  refine EventRun.forall_mem_outputs (I := BucketReady user_id) ?_ hready
    (along_callOf hcalls hfit) hrun
  rintro s call e s' hready ⟨hfit, rfl, hmax⟩ hstep
  obtain ⟨hM, hM'⟩ := hlimit call.table_options.server_id
  obtain ⟨stats, -, hadmits, hready', -⟩ := request_admits hM hM' hmax hready hfit hstep
  rw [(request_ids hstep).1]
  exact ⟨hadmits.tokens_mem hM, hready'⟩

/-- Consecutive requests of a run: the second is admitted from the bucket the first left. -/
theorem isChain_admits (hlimit : ∀ X, 1 ≤ limit X ∧ limit X ≤ 1000)
    (hready : BucketReady user_id s) (hcalls : ∀ call ∈ calls, CallOf user_id limit call)
    (hfit : PermitsFitAlong s calls) (hrun : EventRun.run request s calls = .ok (log, t)) :
    log.IsChain fun a b => Admits (limit b.server_id) a.tokens a.ts b := by
  refine EventRun.isChain_outputs (I := BucketReady user_id)
    (L := fun e s => BucketReady user_id s ∧ Holds user_id e s) ?_ ?_ hready
    (along_callOf hcalls hfit) hrun
  · rintro s call e s' hready ⟨hfit, rfl, hmax⟩ hstep
    obtain ⟨hM, hM'⟩ := hlimit call.table_options.server_id
    obtain ⟨stats, -, -, hready', hholds⟩ := request_admits hM hM' hmax hready hfit hstep
    exact ⟨hready', hholds⟩
  · rintro a s call b s' ⟨hready, stored, hstored, htokens, hts⟩ ⟨hfit, rfl, hmax⟩ hstep
    obtain ⟨hM, hM'⟩ := hlimit call.table_options.server_id
    rcases request_admits hM hM' hmax hready hfit hstep with
      ⟨stats, hfound | ⟨hnone, -⟩, hadmits, hready', hholds⟩
    -- the entry found is the one the previous request stored
    · obtain rfl := Option.some.inj (hstored.symm.trans hfound)
      rw [htokens, hts] at hadmits
      rw [(request_ids hstep).1]
      exact ⟨hadmits, hready', hholds⟩
    · rw [hnone] at hstored
      cases hstored

end Runs

/-! ## The bound over arbitrary windows -/

/-- The period of a limit in range is at least a millisecond. -/
theorem one_le_div_of_le {M : ℤ} (hM : 1 ≤ M) (hM' : M ≤ 1000) : 1 ≤ 1000 / M := by
  rw [← period_of_pos (by omega)]
  exact (period_pos_iff M).mpr hM'

/-- **Bucket bound.** Under a constant limit `M`, from a user without an entry: after every request
`0 ≤ tokens ≤ M - 1`, and between the `i`-th and the `j`-th request at most
`M - 1 + ⌊(E + 999 D) / (1000 P)⌋` requests were sent, where `E` is the time between them in
microseconds and `D` the difference of their second fields. -/
theorem bucket_bound {M : ℤ} (hM : 1 ≤ M) (hM' : M ≤ 1000) (user_id : Oid) {s t : Session}
    {calls : List Call} {log : List Sent} (hnew : s.counters user_id = none)
    (hclock : OrderedClock s.clock) (hcalls : ∀ call ∈ calls, CallOf user_id (fun _ => M) call)
    (hfit : PermitsFitAlong s calls) (hrun : EventRun.run request s calls = .ok (log, t)) :
    (∀ e ∈ log, 0 ≤ e.tokens ∧ e.tokens ≤ M - 1) ∧
      ∀ (i j : ℕ) (hij : i < j) (hj : j < log.length),
        (j : ℤ) - i ≤ (M - 1) + ((log[j].ts.micros - log[i].ts.micros) +
          999 * (log[j].ts.tv_sec - log[i].ts.tv_sec)) / (1000 * (1000 / M)) := by
  have hready : BucketReady user_id s := .of_no_entry hnew hclock
  have hlimit : ∀ X : Oid, 1 ≤ (fun _ => M : Oid → ℤ) X ∧ (fun _ => M : Oid → ℤ) X ≤ 1000 :=
    fun _ => ⟨hM, hM'⟩
  have htokens := tokens_of_run hlimit hready hcalls hfit hrun
  refine ⟨htokens, fun i j hij hj => ?_⟩
  have hcost : 0 < 1000 * (1000 / M) := mul_pos (by norm_num) (one_le_div_of_le hM hM')
  have hchain : log.IsChain fun a b => 1000 * (1000 / M) * (b.tokens + if true then 1 else 0) ≤
      1000 * (1000 / M) * a.tokens + (b.ts.credited - a.ts.credited) :=
    (isChain_admits hlimit hready hcalls hfit hrun).imp fun a b hab => by
      have hspent := mul_le_mul_of_nonneg_left hab.tokens_le_permits hcost.le
      have hearned := hab.earned
      rw [if_pos rfl]
      linarith
  have hbound := TokenBucket.sub_le_of_isChain (p := fun _ => true) hcost hchain
    (fun e he _ => (htokens e he).1) (fun e he _ => (htokens e he).2) hij.le
    (by rw [List.filter_true]; omega) (by rw [List.filter_true]; exact hj)
  simp only [List.filter_true, Timeval.credited] at hbound
  convert hbound using 3
  ring

/-- Two requests of a user with limit two, 300 ms apart. -/
theorem bucket_bound_two :
    ∃ (t : Session) (log : List Sent),
      EventRun.run request (.start [⟨0, 0⟩, ⟨0, 0⟩, ⟨0, 0⟩, ⟨0, 300000⟩, ⟨0, 300000⟩])
        (List.replicate 2 ⟨⟨1, 10, none, none, 2, 2500⟩, ⟨false, .zeroed none⟩⟩) = .ok (log, t) ∧
      (∀ e ∈ log, 0 ≤ e.tokens ∧ e.tokens ≤ 2 - 1) ∧
      ∀ (i j : ℕ) (hij : i < j) (hj : j < log.length),
        (j : ℤ) - i ≤ (2 - 1) + ((log[j].ts.micros - log[i].ts.micros) +
          999 * (log[j].ts.tv_sec - log[i].ts.tv_sec)) / (1000 * (1000 / 2)) := by
  have hclock : OrderedClock [⟨0, 0⟩, ⟨0, 0⟩, ⟨0, 0⟩, ⟨0, 300000⟩, ⟨0, 300000⟩] :=
    ⟨by decide, by decide⟩
  obtain ⟨t, log, hrun⟩ : ∃ (t : Session) (log : List Sent), EventRun.run request
      (.start [⟨0, 0⟩, ⟨0, 0⟩, ⟨0, 0⟩, ⟨0, 300000⟩, ⟨0, 300000⟩])
      (List.replicate 2 ⟨⟨1, 10, none, none, 2, 2500⟩, ⟨false, .zeroed none⟩⟩) = .ok (log, t) :=
    ⟨_, _, rfl⟩
  refine ⟨t, log, hrun, bucket_bound (by norm_num) (by norm_num) 10 rfl hclock ?_ ?_ hrun⟩
  · intro call hcall
    rw [List.eq_of_mem_replicate hcall]
    exact ⟨rfl, rfl⟩
  · refine EventRun.along_cons_of_ok ?_ rfl (EventRun.along_cons_of_ok ?_ rfl trivial)
    all_goals
      intro stats s₁ hget t ht
      obtain ⟨rfl, rfl⟩ := Prod.mk.inj (Except.ok.inj hget)
      revert t
      decide

end OcgeoFdw
