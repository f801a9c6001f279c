import Mathlib.Algebra.BigOperators.Group.Finset.Piecewise
import OcgeoFdw.RateLimiting.Bucket

/-! # The time that requests take

The counter `total_time` adds up what `TIMEVALDIFF` says of every request. `total_time_le` states that
all users together are charged no more than the time that has passed and 999 microseconds for every
second boundary in it. -/

namespace OcgeoFdw

/-- The total time of a user, zero without an entry. -/
def Session.totalTime (s : Session) (user_id : Oid) : ℤ :=
  (s.counters user_id).elim 0 Counters.total_time

section Time

variable {s s' t : Session} {call : Call} {calls : List Call} {e : Sent} {log : List Sent}
  {mark : Timeval}

/-- **A request charges its user** no more than what lies between the mark and the last reading that it
takes, and nobody else. -/
theorem request_charges (hclock : OrderedClock (mark :: s.clock))
    (h : request s call = .ok (e, s')) :
    ∃ taken mark' time, s.clock = taken ++ mark' :: s'.clock ∧ 0 ≤ time ∧
      1000 * time ≤ mark'.credited - mark.credited ∧
      ∀ user_id, s'.totalTime user_id =
        s.totalTime user_id + if call.table_options.user_id = user_id then time else 0 := by
  obtain ⟨stats, s₁, admission, end_time, hget, hloop, hstored, -⟩ := request_cases h
  obtain ⟨-, -, -, skipped, hreadings, -, -⟩ := rateLoop_cases hloop
  have hfound : (∃ taken, s.clock = taken ++ s₁.clock) ∧
      stats.total_time = s.totalTime call.table_options.user_id := by
    rcases (ocgeoGetCounters_cases hget).2 with ⟨hfound, hsame⟩ | ⟨hnone, ts, hnext, rfl⟩
    · rw [Session.totalTime, hfound]
      exact ⟨⟨[], hsame.symm⟩, rfl⟩
    · rw [Session.totalTime, hnone]
      exact ⟨⟨[ts], hnext⟩, rfl⟩
  obtain ⟨⟨taken, htaken⟩, htotal⟩ := hfound
  -- the request starts at one reading to come and ends at the next one
  have hsplit : s.clock = (taken ++ skipped) ++ admission.start_time :: end_time :: s'.clock := by
    rw [htaken, hreadings, List.append_assoc]
  rw [hsplit] at hclock
  have hstart : OrderedClock (admission.start_time :: end_time :: s'.clock) :=
    hclock.sublist ((List.sublist_append_right _ _).cons mark)
  obtain ⟨hnonneg, hle⟩ := hstart.timevalDiff_le (t := end_time) List.mem_cons_self
  obtain ⟨hwaited, hcredit⟩ := hclock.timevalDiff_le (t := admission.start_time) (by simp)
  refine ⟨taken ++ skipped ++ [admission.start_time], end_time,
    timevalDiff end_time admission.start_time, ?_, hnonneg, by linarith, fun user_id => ?_⟩
  · rw [hsplit, List.append_assoc _ [admission.start_time]]
    rfl
  split_ifs with huser
  · subst huser
    rw [Session.totalTime, hstored, ← htotal]
    rfl
  · rw [Session.totalTime, Session.totalTime, request_counters_of_ne h (Ne.symm huser), add_zero]

/-- No user is charged less than nothing. -/
theorem totalTime_nonneg_of_run (hclock : OrderedClock (mark :: s.clock))
    (hrun : EventRun.run request s calls = .ok (log, t)) {user_id : Oid}
    (h : 0 ≤ s.totalTime user_id) : 0 ≤ t.totalTime user_id := by
  induction calls generalizing s log mark with
  | nil =>
      obtain ⟨-, rfl⟩ : [] = log ∧ s = t := by simpa using hrun
      exact h
  | cons call calls ih =>
      obtain ⟨e, s', log', hstep, hrest, -⟩ := EventRun.exists_of_run_cons hrun
      obtain ⟨taken, mark', time, hleft, htime, -, htotal⟩ := request_charges hclock hstep
      have hlater : (mark' :: s'.clock).Sublist s.clock :=
        hleft ▸ List.sublist_append_right taken _
      refine ih (hclock.sublist (hlater.cons mark)) hrest ?_
      rw [htotal]
      split_ifs <;> omega

/-- The last of some readings and a first one. -/
theorem getLastD_append_cons (front back : List Timeval) (mark mark' : Timeval) :
    (front ++ mark' :: back).getLastD mark = back.getLastD mark' := by
  rw [List.getLastD_eq_getLast?, List.getLast?_append_cons, List.getLast?_cons, Option.getD_some,
    ← List.getLastD_eq_getLast?]

/-- **What a run charges** to some users is no more than the time credited from the mark to the last
reading that it takes. -/
theorem charged_of_run (users : Finset Oid) (hclock : OrderedClock (mark :: s.clock))
    (hrun : EventRun.run request s calls = .ok (log, t)) :
    ∃ taken, s.clock = taken ++ t.clock ∧ 1000 * ∑ user_id ∈ users, t.totalTime user_id ≤
      1000 * ∑ user_id ∈ users, s.totalTime user_id +
        ((taken.getLastD mark).credited - mark.credited) := by
  induction calls generalizing s log mark with
  | nil =>
      obtain ⟨-, rfl⟩ : [] = log ∧ s = t := by simpa using hrun
      exact ⟨[], rfl, by simp⟩
  | cons call calls ih =>
      obtain ⟨e, s', log', hstep, hrest, -⟩ := EventRun.exists_of_run_cons hrun
      obtain ⟨front, mark', time, hleft, htime, hle, htotal⟩ := request_charges hclock hstep
      have hlater : (mark' :: s'.clock).Sublist s.clock :=
        hleft ▸ List.sublist_append_right front _
      obtain ⟨back, hback, hcharged⟩ := ih (hclock.sublist (hlater.cons mark)) hrest
      refine ⟨front ++ mark' :: back, ?_, ?_⟩
      · rw [hleft, hback, List.append_assoc, List.cons_append]
      · rw [getLastD_append_cons]
        have hstepped : ∑ user_id ∈ users, s'.totalTime user_id ≤
            ∑ user_id ∈ users, s.totalTime user_id + time := by
          simp only [htotal, Finset.sum_add_distrib, Finset.sum_ite_eq]
          split_ifs <;> omega
        linarith

/-- **The total time of all users** of a session is no more than the time from the first reading of the
clock to the last one that its requests took, but for the rounding of `TIMEVALDIFF`. -/
theorem total_time_le {first : Timeval} {clock : List Timeval} (users : Finset Oid)
    (hclock : OrderedClock (first :: clock))
    (hrun : EventRun.run request (.start (first :: clock)) calls = .ok (log, t)) :
    (∀ user_id, 0 ≤ t.totalTime user_id) ∧
      ∃ taken, first :: clock = taken ++ t.clock ∧
        1000 * ∑ user_id ∈ users, t.totalTime user_id ≤
          ((taken.getLastD first).micros - first.micros) +
            999 * ((taken.getLastD first).tv_sec - first.tv_sec) := by
  have hmarked : OrderedClock (first :: first :: clock) := by
    refine ⟨List.forall_mem_cons.mpr ⟨hclock.normalized first List.mem_cons_self,
      hclock.normalized⟩, List.pairwise_cons.mpr ⟨?_, hclock.sorted⟩⟩
    exact List.forall_mem_cons.mpr ⟨le_rfl, fun r hr => List.rel_of_pairwise_cons hclock.sorted hr⟩
  refine ⟨fun user_id => totalTime_nonneg_of_run hmarked hrun le_rfl, ?_⟩
  obtain ⟨taken, htaken, hcharged⟩ := charged_of_run users hmarked hrun
  refine ⟨taken, htaken, ?_⟩
  have hnone : ∑ user_id ∈ users, (Session.start (first :: clock)).totalTime user_id = 0 :=
    Finset.sum_eq_zero fun _ _ => rfl
  rw [hnone, Timeval.credited, Timeval.credited] at hcharged
  linarith

/-- Two users take a second and a half between them, which is the time to the last of the six readings
that they take. -/
theorem total_time_le_two :
    ∃ log t, EventRun.run request
        (.start [⟨0, 0⟩, ⟨0, 0⟩, ⟨1, 0⟩, ⟨1, 0⟩, ⟨1, 0⟩, ⟨1, 500000⟩, ⟨9, 0⟩])
        [⟨⟨1, 10, none, none, 2, 2500⟩, ⟨false, .zeroed none⟩⟩,
          ⟨⟨1, 11, none, none, 2, 2500⟩, ⟨false, .zeroed none⟩⟩] = .ok (log, t) ∧
      t.totalTime 10 = 1000 ∧ t.totalTime 11 = 500 ∧
      1000 * ∑ user_id ∈ ({10, 11} : Finset Oid), t.totalTime user_id ≤
        (1500000 - 0) + 999 * (1 - 0) := by
  have hrun : ∃ log t, EventRun.run request
      (.start [⟨0, 0⟩, ⟨0, 0⟩, ⟨1, 0⟩, ⟨1, 0⟩, ⟨1, 0⟩, ⟨1, 500000⟩, ⟨9, 0⟩])
      [⟨⟨1, 10, none, none, 2, 2500⟩, ⟨false, .zeroed none⟩⟩,
        ⟨⟨1, 11, none, none, 2, 2500⟩, ⟨false, .zeroed none⟩⟩] = .ok (log, t) ∧
      t.totalTime 10 = 1000 ∧ t.totalTime 11 = 500 ∧ t.clock = [⟨9, 0⟩] :=
    ⟨_, _, rfl, rfl, rfl, rfl⟩
  obtain ⟨log, t, hrun, hten, heleven, hclock⟩ := hrun
  obtain ⟨-, taken, htaken, hle⟩ := total_time_le {10, 11} ⟨by decide, by decide⟩ hrun
  obtain rfl : [⟨0, 0⟩, ⟨0, 0⟩, ⟨1, 0⟩, ⟨1, 0⟩, ⟨1, 0⟩, ⟨1, 500000⟩] = taken := by
    rw [hclock] at htaken
    exact List.append_cancel_right htaken
  exact ⟨log, t, hrun, hten, heleven, hle⟩

end Time

end OcgeoFdw
