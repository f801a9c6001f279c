import OcgeoFdw.RateLimiting.StatsFunction
import OcgeoFdw.Scanning.ApiCalls

/-! # The statistics after a run

`ocgeo_stats` over the tables of counters that API calls lead to. `statsComplete_iff_showsDate` states
after which calls it returns its rows: the last good reply to every user has to carry a reset whose
date can be shown. -/

namespace OcgeoFdw

open Calendar CInt CJson CString

/-- The entries of the table of a session, each once, in the order in which `hash_seq_search` finds
them. Before the first request there is no table. -/
structure Session.Scans (s : Session) (ht : Option (List (Oid × Counters))) : Prop where
  created : ht = none ↔ s.ocgeo_hash = none
  nodup : ((ht.getD []).map Prod.fst).Nodup
  entries : ∀ user_id counters,
    (user_id, counters) ∈ ht.getD [] ↔ s.counters user_id = some counters

/-- The fields of the entries are `int`s. -/
def Session.AreInts (s : Session) : Prop :=
  ∀ user_id counters, s.counters user_id = some counters → counters.AreInts

section Runs

variable {services : StatsServices} {s s' : Session} {call : ApiCall} {sent : Sent}
  {clock : List Timeval} {calls : List ApiCall} {outputs : List Sent}
  {ht : Option (List (Oid × Counters))}

/-- A field of the rate information of a reply is an `int`. -/
theorem rateField_fits (rate : CJson) (name : CString) :
    intMin ≤ rateField rate name ∧ rateField rate name ≤ intMax := by
  rw [rateField]
  cases getObjectItemCaseSensitive (some rate) name with
  | none => exact (by decide : intMin ≤ 0 ∧ 0 ≤ intMax)
  | some item => exact valueint_fits item

/-- The rate information of a reply consists of `int`s, and so does that of an entry that takes it. -/
theorem Counters.AreInts.withRate {counters : Counters} (h : counters.AreInts) (json : CJson) :
    { counters with rate_info := rateCarried json }.AreInts := by
  have hzero : intMin ≤ 0 ∧ 0 ≤ intMax := by decide
  cases hrate : getObjectItem (some json) (ofAscii "rate") with
  | none =>
      have hcarried : rateCarried json = .zero := by rw [rateCarried, hrate]
      rw [hcarried]
      exact ⟨h.calls, hzero, hzero, hzero⟩
  | some rate =>
      have hcarried : rateCarried json = ⟨rateField rate (ofAscii "limit"),
          rateField rate (ofAscii "remaining"), rateField rate (ofAscii "reset")⟩ := by
        rw [rateCarried, hrate]
      rw [hcarried]
      exact ⟨h.calls, rateField_fits _ _, rateField_fits _ _, rateField_fits _ _⟩

/-- The counters after a request are `int`s. -/
theorem Counters.AreInts.afterRequest {stats : Counters} {forward : Forwarded}
    {memory : ReplyMemory} {url : CString} {before : OcgeoResponse} (h : stats.AreInts)
    (hforwards : Forwards memory call.reply url before forward) (max_reqs_per_second : ℤ)
    (admission : Admission) (end_time : Timeval) :
    (stats.afterRequest max_reqs_per_second admission forward end_time).AreInts := by
  have hcalls := toInt32_fits (stats.calls + 1)
  cases hforwards with
  | noReply hnone => exact ⟨hcalls, h.limit, h.remaining, h.reset⟩
  | @parsed json response hjson hparse =>
      have hrate := h.withRate json
      rw [← rateInfo_of_parse hparse] at hrate
      rcases hok : ocgeoResponseOk response with _ | _
      · refine ⟨hcalls, ?_, ?_, ?_⟩ <;> simp only [Counters.afterRequest, hok, Bool.and_false]
        · exact h.limit
        · exact h.remaining
        · exact h.reset
      · refine ⟨hcalls, ?_, ?_, ?_⟩ <;> simp only [Counters.afterRequest, hok, Bool.and_true]
        · exact hrate.limit
        · exact hrate.remaining
        · exact hrate.reset

/-- A call keeps the entries `int`s. -/
theorem Session.AreInts.submitApiCall (h : s.AreInts)
    (hcall : OcgeoFdw.submitApiCall s call = .ok (sent, s')) : s'.AreInts := by
  obtain ⟨forward, hforwards, hrequest⟩ := submitApiCall_eq_ok hcall
  intro user_id counters hcounters
  by_cases huser : user_id = call.table_options.user_id
  · subst huser
    obtain ⟨stats, s₁, admission, end_time, hget, -, hstored, -⟩ := request_cases hrequest
    obtain rfl := Option.some.inj (hstored.symm.trans hcounters)
    refine Counters.AreInts.afterRequest ?_ hforwards _ _ _
    rcases (ocgeoGetCounters_cases hget).2 with ⟨hfound, -⟩ | ⟨-, ts, -, rfl⟩
    · exact h _ _ hfound
    -- a new entry is all zero
    · have hzero : intMin ≤ 0 ∧ 0 ≤ intMax := by decide
      exact ⟨hzero, hzero, hzero, hzero⟩
  · rw [request_counters_of_ne hrequest huser] at hcounters
    exact h _ _ hcounters

/-- The entries of every table are `int`s. -/
theorem areInts_of_run
    (hrun : EventRun.run submitApiCall (.start clock) calls = .ok (outputs, s)) : s.AreInts :=
  EventRun.invariant_of_run (fun hinv hstep => Session.AreInts.submitApiCall hinv hstep)
    (fun _ _ h => by cases h) hrun

/-- The users with an entry are those that made a call. -/
theorem exists_counters_iff
    (hrun : EventRun.run submitApiCall (.start clock) calls = .ok (outputs, s)) (user_id : Oid) :
    (∃ counters, s.counters user_id = some counters) ↔
      ∃ call ∈ calls, call.table_options.user_id = user_id := by
  have hfound : (s.counters user_id).isSome = calls.foldl
      (fun found call => found || decide (call.table_options.user_id = user_id)) false := by
    refine EventRun.value_of_run (f := fun s => (s.counters user_id).isSome) ?_ hrun
    intro s call sent s' hstep
    obtain ⟨forward, -, hrequest⟩ := submitApiCall_eq_ok hstep
    by_cases huser : call.table_options.user_id = user_id
    · subst huser
      obtain ⟨_, _, _, _, -, -, hstored, -⟩ := request_cases hrequest
      simp [hstored]
    · simp [huser, request_counters_of_ne hrequest (Ne.symm huser)]
  have hany : ∀ (found : Bool), calls.foldl
      (fun found call => found || decide (call.table_options.user_id = user_id)) found =
        (found || calls.any fun call => decide (call.table_options.user_id = user_id)) := by
    clear hrun hfound
    induction calls with
    | nil => simp
    | cons call calls ih =>
        intro found
        rw [List.foldl_cons, ih, List.any_cons, Bool.or_assoc]
  rw [← Option.isSome_iff_exists, hfound, hany, Bool.false_or, List.any_eq_true]
  simp only [decide_eq_true_eq]

/-- **After which calls the statistics are returned.** Iterating `ocgeo_stats` returns a row for every
user and comes to its end exactly if for every user that made a call the last reply with status 200
carries a reset that shows a date. -/
theorem statsComplete_iff_showsDate (hservices : services.Documented)
    (hrun : EventRun.run submitApiCall (.start clock) calls = .ok (outputs, s))
    (hscan : s.Scans ht) :
    StatsComplete services ht ↔
      ∀ call ∈ calls, ShowsDate (latestStored call.table_options.user_id calls).reset := by
  rw [statsComplete_iff]
  have hentry : ∀ user_id counters, s.counters user_id = some counters →
      (Returns services (statsValues services counters) ↔
        ShowsDate (latestStored user_id calls).reset) := by
    intro user_id counters hcounters
    rw [returns_statsValues_iff hservices (areInts_of_run hrun user_id counters hcounters),
      ← rateInfo_of_run hrun user_id, Session.rateInfo, hcounters]
    rfl
  constructor
  · intro hreturns call hcall
    obtain ⟨counters, hcounters⟩ := (exists_counters_iff hrun _).mpr ⟨call, hcall, rfl⟩
    exact (hentry _ _ hcounters).mp (hreturns (_, counters) ((hscan.entries _ _).mpr hcounters))
  · rintro hshows ⟨user_id, counters⟩ hmem
    have hcounters := (hscan.entries _ _).mp hmem
    obtain ⟨call, hcall, rfl⟩ := (exists_counters_iff hrun user_id).mp ⟨counters, hcounters⟩
    exact (hentry _ _ hcounters).mpr (hshows call hcall)

end Runs

/-! ## Two tables -/

/-- The table after calls of the users in it, with what the session has for each. -/
theorem scans_of_entries {s : Session} {clock : List Timeval} {calls : List ApiCall}
    {outputs : List Sent} {entries : List (Oid × Counters)}
    (hrun : EventRun.run submitApiCall (.start clock) calls = .ok (outputs, s))
    (hne : entries ≠ []) (hnodup : (entries.map Prod.fst).Nodup)
    (hentries : ∀ entry ∈ entries, s.counters entry.1 = some entry.2)
    (hcalls : ∀ call ∈ calls, call.table_options.user_id ∈ entries.map Prod.fst) :
    s.Scans (some entries) := by
  refine ⟨iff_of_false nofun ?_, hnodup, ?_⟩
  · intro hnone
    obtain ⟨entry, hentry⟩ := List.exists_mem_of_ne_nil entries hne
    have hfound := hentries entry hentry
    rw [Session.counters, hnone] at hfound
    cases hfound
  · intro user_id counters
    rw [Option.getD_some]
    constructor
    · exact hentries (user_id, counters)
    · intro hcounters
      obtain ⟨call, hcall, rfl⟩ := (exists_counters_iff hrun user_id).mp ⟨counters, hcounters⟩
      obtain ⟨⟨user_id, counters'⟩, hmem, rfl⟩ := List.mem_map.mp (hcalls call hcall)
      obtain rfl := Option.some.inj ((hentries _ hmem).symm.trans hcounters)
      exact hmem

/-- Two users get replies with a reset, and the quota of the first ends after it. -/
def ratedCalls : List ApiCall :=
  [repliedCall (ratedReply 200 2500 2499 1594771200), otherCall (ratedReply 200 100 99 1594857600),
    repliedCall (ratedReply 402 2500 0 0)]

/-- After these calls the statistics have a row for each of the two users. -/
theorem statsComplete_rated :
    ∃ outputs s ht, EventRun.run submitApiCall (.start mixedClock) ratedCalls = .ok (outputs, s) ∧
      s.Scans ht ∧ (ht.getD []).length = 2 ∧ StatsComplete calendarServices ht := by
  have hrun : ∃ outputs s counters counters', EventRun.run submitApiCall (.start mixedClock)
      ratedCalls = .ok (outputs, s) ∧ s.counters 10 = some counters ∧
        s.counters 11 = some counters' := ⟨_, _, _, _, rfl, rfl, rfl⟩
  obtain ⟨outputs, s, counters, counters', hrun, hfirst, hsecond⟩ := hrun
  have hscan : s.Scans (some [(10, counters), (11, counters')]) := by
    refine scans_of_entries hrun nofun (show [10, 11].Nodup by decide) ?_
      (show ∀ call ∈ ratedCalls, call.table_options.user_id ∈ [10, 11] by decide)
    intro entry hentry
    rcases List.mem_pair.mp hentry with rfl | rfl
    · exact hfirst
    · exact hsecond
  refine ⟨outputs, s, _, hrun, hscan, rfl, ?_⟩
  refine (statsComplete_iff_showsDate documented_calendarServices hrun hscan).mpr ?_
  decide

/-- A reply with status 200 and no rate information. -/
def unratedReply : CJson :=
  .object [(ofAscii "status", .object [(ofAscii "code", .number 200)]),
    (ofAscii "total_results", .number 0)]

/-- After a reply without rate information the first call of `ocgeo_stats` frees `NULL`. -/
theorem not_statsComplete_unrated :
    ∃ outputs s ht, EventRun.run submitApiCall (.start [⟨0, 0⟩, ⟨0, 0⟩, ⟨0, 0⟩])
        [repliedCall unratedReply] = .ok (outputs, s) ∧ s.Scans ht ∧
      ocgeoStats calendarServices (ocgeoStatsFirstCall ht) () = .error .pfreeNull ∧
      ¬ StatsComplete calendarServices ht := by
  have hrun : ∃ outputs s counters, EventRun.run submitApiCall
      (.start [⟨0, 0⟩, ⟨0, 0⟩, ⟨0, 0⟩]) [repliedCall unratedReply] = .ok (outputs, s) ∧
        s.counters 10 = some counters ∧ ocgeoStats calendarServices
          (ocgeoStatsFirstCall (some [(10, counters)])) () = .error .pfreeNull :=
    ⟨_, _, _, rfl, rfl, rfl⟩
  obtain ⟨outputs, s, counters, hrun, hcounters, hfault⟩ := hrun
  refine ⟨outputs, s, some [(10, counters)], hrun, scans_of_entries hrun nofun
    (List.nodup_singleton _) ?_ (show ∀ call ∈ [repliedCall unratedReply],
      call.table_options.user_id ∈ [10] by decide), hfault, ?_⟩
  · intro entry hentry
    obtain rfl := List.mem_singleton.mp hentry
    exact hcounters
  · rintro ⟨rows, funcctx, hcalls, -⟩
    obtain ⟨_, _, _, hfirst, -, -⟩ := EventRun.exists_of_run_cons hcalls
    rw [hfault] at hfirst
    cases hfirst

end OcgeoFdw
