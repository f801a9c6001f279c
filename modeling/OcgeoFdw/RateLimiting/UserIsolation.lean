import OcgeoFdw.RateLimiting.Limiter

/-! # The users of a session

Every user has a bucket of its own. `run_alone` states that the requests of a user, in any
interleaving with those of others, go as they would in a session without the others, with the clock
readings that they took. -/

namespace OcgeoFdw

/-! ## What an operation reads -/

section Locality

variable {s s₁ s' : Session} {call : Call} {e : Sent} {stats : Counters}
  {table_options : OcgeoTableOptions}

/-- The loop reads no further than it has to. -/
theorem rateLoop_local {p : ℤ} {clock rest : List Timeval} {admission : Admission}
    (h : rateLoop p stats clock = .ok (admission, rest)) :
    ∃ taken, clock = taken ++ rest ∧
      ∀ rest', rateLoop p stats (taken ++ rest') = .ok (admission, rest') := by
  induction clock generalizing admission rest with
  | nil => cases h
  | cons t clock ih =>
      rw [rateLoop] at h
      split at h
      · cases h
      · rename_i hp
        split at h
        · rename_i hpermits
          split at h
          · cases h
          -- the loop slept at `t`
          · rename_i admission' rest' hloop
            obtain ⟨rfl, rfl⟩ := Prod.mk.inj (Except.ok.inj h)
            obtain ⟨taken, rfl, hlocal⟩ := ih hloop
            refine ⟨t :: taken, rfl, fun rest' => ?_⟩
            rw [List.cons_append, rateLoop, if_neg hp, if_pos hpermits, hlocal rest']
        · rename_i hpermits
          obtain ⟨rfl, rfl⟩ := Prod.mk.inj (Except.ok.inj h)
          refine ⟨[t], rfl, fun rest' => ?_⟩
          rw [List.singleton_append, rateLoop, if_neg hp, if_neg hpermits]

/-- The entry of a user that has one is found. -/
theorem ocgeoGetCounters_of_some (h : s.counters table_options.user_id = some stats) :
    ∃ s₁, ocgeoGetCounters table_options s = .ok (stats, s₁) ∧ s₁.clock = s.clock := by
  have hentry : (s.ocgeo_hash.getD fun _ => none) table_options.user_id = some stats := by
    rw [← h, Session.counters]
    cases s.ocgeo_hash <;> rfl
  refine ⟨⟨some (s.ocgeo_hash.getD fun _ => none), s.clock⟩, ?_, rfl⟩
  rw [ocgeoGetCounters]
  simp only [hentry]

/-- The entry of a user that has none takes a reading. -/
theorem ocgeoGetCounters_of_none {ts : Timeval} {clock : List Timeval}
    (h : s.counters table_options.user_id = none) (hclock : s.clock = ts :: clock) :
    ∃ s₁, ocgeoGetCounters table_options s = .ok (.new table_options.max_reqs_sec ts, s₁) ∧
      s₁.clock = clock := by
  have hentry : (s.ocgeo_hash.getD fun _ => none) table_options.user_id = none := by
    rw [← h, Session.counters]
    cases s.ocgeo_hash <;> rfl
  refine ⟨⟨some (Function.update (s.ocgeo_hash.getD fun _ => none) table_options.user_id
    (some (.new table_options.max_reqs_sec ts))), clock⟩, ?_, rfl⟩
  rw [ocgeoGetCounters]
  simp only [hentry, hclock]

/-- **The counters of a user** depend on its own entry, and on a reading if there is none. -/
theorem ocgeoGetCounters_local (h : ocgeoGetCounters table_options s = .ok (stats, s₁)) :
    ∃ taken, s.clock = taken ++ s₁.clock ∧ ∀ (s₂ : Session) (rest : List Timeval),
      s₂.counters table_options.user_id = s.counters table_options.user_id →
      s₂.clock = taken ++ rest →
        ∃ s₃, ocgeoGetCounters table_options s₂ = .ok (stats, s₃) ∧ s₃.clock = rest := by
  rcases (ocgeoGetCounters_cases h).2 with ⟨hfound, hclock⟩ | ⟨hnone, ts, hclock, rfl⟩
  · refine ⟨[], hclock.symm, fun s₂ rest hsame hrest => ?_⟩
    obtain ⟨s₃, hget, hs₃⟩ := ocgeoGetCounters_of_some (hsame.trans hfound)
    exact ⟨s₃, hget, hs₃.trans hrest⟩
  · refine ⟨[ts], hclock, fun s₂ rest hsame hrest => ?_⟩
    exact ocgeoGetCounters_of_none (hsame.trans hnone) hrest

/-- A request whose loop comes to an end is sent. -/
theorem request_of_rateLoop {admission : Admission} {end_time : Timeval} {rest : List Timeval}
    (hget : ocgeoGetCounters call.table_options s = .ok (stats, s₁))
    (hloop : rateLoop (period call.table_options.max_reqs_sec) stats s₁.clock =
      .ok (admission, end_time :: rest)) :
    ∃ e s', request s call = .ok (e, s') ∧ s'.clock = rest := by
  cases hrequest : request s call with
  | error fault => simp [request, hget, submitRequestWithRateLimiter, hloop] at hrequest
  | ok out =>
      obtain ⟨e, s'⟩ := out
      obtain ⟨stats', s₂, admission', end_time', hget', hloop', -⟩ := request_cases hrequest
      obtain ⟨rfl, rfl⟩ := Prod.mk.inj (Except.ok.inj (hget.symm.trans hget'))
      obtain ⟨-, htimes⟩ := Prod.mk.inj (Except.ok.inj (hloop.symm.trans hloop'))
      exact ⟨e, s', rfl, (List.cons.inj htimes).2.symm⟩

/-- **A request** depends on the entry of its user and on the readings it takes. -/
theorem request_local (h : request s call = .ok (e, s')) :
    ∃ taken, s.clock = taken ++ s'.clock ∧ ∀ (s₂ : Session) (rest : List Timeval),
      s₂.counters call.table_options.user_id = s.counters call.table_options.user_id →
      s₂.clock = taken ++ rest →
        ∃ s₃, request s₂ call = .ok (e, s₃) ∧ s₃.clock = rest ∧
          s₃.counters call.table_options.user_id = s'.counters call.table_options.user_id := by
  obtain ⟨stats, s₁, admission, end_time, hget, hloop, hstored, rfl⟩ := request_cases h
  obtain ⟨found, hfound, hget'⟩ := ocgeoGetCounters_local hget
  obtain ⟨read, hread, hloop'⟩ := rateLoop_local hloop
  refine ⟨found ++ read ++ [end_time], ?_, fun s₂ rest hsame hrest => ?_⟩
  · rw [hfound, hread, List.append_assoc, List.append_assoc]
    rfl
  · obtain ⟨s₃, hget₂, hclock₃⟩ := hget' s₂ (read ++ end_time :: rest) hsame (by simp [hrest])
    have hloop₂ := hloop' (end_time :: rest)
    rw [← hclock₃] at hloop₂
    obtain ⟨e₂, s₄, hrequest, hclock₄⟩ := request_of_rateLoop hget₂ hloop₂
    obtain ⟨stats₂, s₅, admission₂, end_time₂, hget₅, hloop₅, hstored₅, rfl⟩ :=
      request_cases hrequest
    -- both requests went the same way
    obtain ⟨rfl, rfl⟩ := Prod.mk.inj (Except.ok.inj (hget₂.symm.trans hget₅))
    obtain ⟨rfl, htimes⟩ := Prod.mk.inj (Except.ok.inj (hloop₂.symm.trans hloop₅))
    obtain ⟨rfl, -⟩ := List.cons.inj htimes
    exact ⟨s₄, hrequest, hclock₄, hstored₅.trans hstored.symm⟩

end Locality

/-! ## Runs -/

section Runs

variable {user_id : Oid} {s t : Session} {calls : List Call} {log : List Sent}

/-- The calls of a user. -/
def callsOf (user_id : Oid) (calls : List Call) : List Call :=
  calls.filter fun call => decide (call.table_options.user_id = user_id)

/-- The requests of a user. -/
def sentBy (user_id : Oid) (log : List Sent) : List Sent :=
  log.filter fun e => decide (e.user_id = user_id)

/-- **The requests of a user in a run** depend on its entry and on the readings they take. -/
theorem run_local (hrun : EventRun.run request s calls = .ok (log, t)) :
    ∃ taken, taken.Sublist s.clock ∧ ∀ (s₂ : Session) (rest : List Timeval),
      s₂.counters user_id = s.counters user_id → s₂.clock = taken ++ rest →
        ∃ t₂, EventRun.run request s₂ (callsOf user_id calls) = .ok (sentBy user_id log, t₂) ∧
          t₂.counters user_id = t.counters user_id := by
  induction calls generalizing s log with
  | nil =>
      obtain ⟨rfl, rfl⟩ : [] = log ∧ s = t := by simpa using hrun
      exact ⟨[], List.nil_sublist _, fun s₂ rest hsame _ => ⟨s₂, rfl, hsame⟩⟩
  | cons call calls ih =>
      obtain ⟨e, s', log', hstep, hrest, rfl⟩ := EventRun.exists_of_run_cons hrun
      obtain ⟨later, hlater, hruns⟩ := ih hrest
      obtain ⟨now, hnow, hlocal⟩ := request_local hstep
      have hid : e.user_id = call.table_options.user_id := (request_ids hstep).2
      by_cases huser : call.table_options.user_id = user_id
      · subst huser
        refine ⟨now ++ later, ?_, fun s₂ rest hsame hclock => ?_⟩
        · rw [hnow]
          exact (List.append_sublist_append_left now).mpr hlater
        · obtain ⟨s₃, hrequest, hclock₃, hsame₃⟩ :=
            hlocal s₂ (later ++ rest) hsame (hclock.trans (List.append_assoc _ _ _))
          obtain ⟨t₂, hrun₂, hsame₂⟩ := hruns s₃ rest hsame₃ hclock₃
          refine ⟨t₂, ?_, hsame₂⟩
          rw [callsOf, sentBy, List.filter_cons_of_pos (by simp),
            List.filter_cons_of_pos (by simp [hid])]
          exact EventRun.run_cons_of_ok hrequest hrun₂
      -- a request of another user keeps the entry, and takes other readings
      · have hkept : s'.counters user_id = s.counters user_id :=
          request_counters_of_ne hstep (Ne.symm huser)
        refine ⟨later, ?_, fun s₂ rest hsame hclock => ?_⟩
        · rw [hnow]
          exact hlater.trans (List.sublist_append_right now _)
        · rw [callsOf, sentBy, List.filter_cons_of_neg (by simpa using huser),
            List.filter_cons_of_neg (by simpa [hid] using huser)]
          exact hruns s₂ rest (hsame.trans hkept.symm) hclock

/-- **Users do not interfere.** In any interleaving with the requests of other users, the requests of a
user are admitted, sleep and count as in a session of their own, with the readings that they took. -/
theorem run_alone {clock : List Timeval}
    (hrun : EventRun.run request (.start clock) calls = .ok (log, t)) (user_id : Oid) :
    ∃ clock' t', clock'.Sublist clock ∧
      EventRun.run request (.start clock') (callsOf user_id calls) = .ok (sentBy user_id log, t') ∧
      t'.counters user_id = t.counters user_id := by
  obtain ⟨taken, htaken, hlocal⟩ := run_local hrun
  obtain ⟨t', hrun', hsame⟩ := hlocal (.start taken) [] rfl (List.append_nil taken).symm
  exact ⟨taken, t', htaken, hrun', hsame⟩

/-- Two users take turns: the second request of user 10 is the second one of a session of its own. -/
theorem run_alone_two :
    ∃ log t clock' t', EventRun.run request
        (.start [⟨0, 0⟩, ⟨0, 0⟩, ⟨0, 0⟩, ⟨0, 1⟩, ⟨0, 1⟩, ⟨0, 1⟩, ⟨0, 2⟩, ⟨0, 2⟩])
        [⟨⟨1, 10, none, none, 2, 2500⟩, ⟨false, .zeroed none⟩⟩,
          ⟨⟨1, 11, none, none, 1, 2500⟩, ⟨false, .zeroed none⟩⟩,
          ⟨⟨1, 10, none, none, 2, 2500⟩, ⟨false, .zeroed none⟩⟩] = .ok (log, t) ∧
      EventRun.run request (.start clock')
        (List.replicate 2 ⟨⟨1, 10, none, none, 2, 2500⟩, ⟨false, .zeroed none⟩⟩) =
          .ok (sentBy 10 log, t') ∧
      t'.counters 10 = t.counters 10 := by
  have hrun : ∃ log t, EventRun.run request
      (.start [⟨0, 0⟩, ⟨0, 0⟩, ⟨0, 0⟩, ⟨0, 1⟩, ⟨0, 1⟩, ⟨0, 1⟩, ⟨0, 2⟩, ⟨0, 2⟩])
      [⟨⟨1, 10, none, none, 2, 2500⟩, ⟨false, .zeroed none⟩⟩,
        ⟨⟨1, 11, none, none, 1, 2500⟩, ⟨false, .zeroed none⟩⟩,
        ⟨⟨1, 10, none, none, 2, 2500⟩, ⟨false, .zeroed none⟩⟩] = .ok (log, t) := ⟨_, _, rfl⟩
  obtain ⟨log, t, hrun⟩ := hrun
  obtain ⟨clock', t', -, halone, hsame⟩ := run_alone hrun 10
  exact ⟨log, t, clock', t', hrun, halone, hsame⟩

end Runs

end OcgeoFdw
