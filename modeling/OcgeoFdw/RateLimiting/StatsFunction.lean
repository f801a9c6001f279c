import OcgeoFdw.Foundation.Completion
import OcgeoFdw.RateLimiting.ResetTime

/-! # The function `ocgeo_stats`

`ocgeo_stats` returns the rows of the statistics one by one: PostgreSQL calls it until it reports
that it is done. Every call takes the next entry of the table of counters, builds a row of its
`values` and frees them. `statsComplete_iff` states for which tables the calls come to their end. -/

namespace OcgeoFdw

open Calendar CInt CString

/-! ## The calls -/

/-- How a call of `ocgeo_stats` goes wrong. -/
inductive StatsFault
  /-- The input function of a column raises an error for its text. -/
  | invalidInput (typeid : Oid) (text : CString)
  /-- `pfree` is applied to a `NULL` pointer. -/
  | pfreeNull
  deriving DecidableEq

/-- `FuncCallContext`. Its `user_fctx` is the scan of the table, with the entries still to come, or
`NULL` if there is no table. -/
structure FuncCallContext where
  call_cntr : ℕ
  max_calls : ℕ
  user_fctx : Option (List (Oid × Counters))

/-- What a call returns: the next row, or that there is none. -/
inductive SrfResult
  | next (values : StatsValues)
  | done

/-- The columns of a row, with the types that `ocgeo_stats` is declared with. -/
def StatsValues.columns (values : StatsValues) : List (Oid × Option CString) :=
  [(23, some values.nbr_calls), (23, some values.nbr_failed), (701, some values.total_time),
    (23, some values.rate_limit), (23, some values.rate_remaining), (1184, values.rate_reset)]

/-- `BuildTupleFromCStrings`: the input function of its type reads the text of every column that is
not `NULL`. -/
def buildTupleFromCStrings (services : StatsServices) :
    List (Oid × Option CString) → Except StatsFault Unit
  | [] => .ok ()
  | (_, none) :: columns => buildTupleFromCStrings services columns
  | (typeid, some text) :: columns =>
      if services.acceptsInput typeid text then buildTupleFromCStrings services columns
      else .error (.invalidInput typeid text)

/-- `pfree` on the pointers one after the other. -/
def pfreeAll : List (Option CString) → Except StatsFault Unit
  | [] => .ok ()
  | none :: _ => .error .pfreeNull
  | some _ :: pointers => pfreeAll pointers

/-- What `ocgeo_stats` does on its first call only. The table is given by its entries, in the order
in which the scan finds them. -/
def ocgeoStatsFirstCall (ht : Option (List (Oid × Counters))) : FuncCallContext where
  call_cntr := 0
  max_calls := (ht.map List.length).getD 0
  user_fctx := ht

/-- What `ocgeo_stats` does on every call. -/
def ocgeoStats (services : StatsServices) (funcctx : FuncCallContext) (_ : Unit) :
    Except StatsFault (SrfResult × FuncCallContext) :=
  match funcctx.user_fctx with
  | some (hentry :: rest) => do
      let values := statsValues services hentry.2
      buildTupleFromCStrings services values.columns
      pfreeAll (values.columns.map Prod.snd)
      return (.next values, ⟨funcctx.call_cntr + 1, funcctx.max_calls, some rest⟩)
  -- the scan itself is freed only if there is one
  | _ => .ok (.done, funcctx)

/-! ## Iterating to the end -/

/-- A row for an entry: its values, with no reset exactly if the one recorded is not positive. -/
structure RowFor (services : StatsServices) (hentry : Oid × Counters) (values : StatsValues) :
    Prop where
  values_eq : values = statsValues services hentry.2
  rate_reset : values.rate_reset = none ↔ hentry.2.rate_info.reset ≤ 0

/-- Iterating `ocgeo_stats` over the table returns one row for every entry and then reports that it
is done. No call fails. -/
def StatsComplete (services : StatsServices) (ht : Option (List (Oid × Counters))) : Prop :=
  ∃ rows funcctx,
    EventRun.run (ocgeoStats services) (ocgeoStatsFirstCall ht)
        (List.replicate ((ht.getD []).length + 1) ()) =
      .ok (rows.map .next ++ [.done], funcctx) ∧
    List.Forall₂ (RowFor services) (ht.getD []) rows

/-- A row is built of the values, and all of them can be freed. -/
structure Returns (services : StatsServices) (values : StatsValues) : Prop where
  accepted : ∀ column ∈ values.columns, ∀ text, column.2 = some text →
    services.acceptsInput column.1 text = true
  allocated : ∀ column ∈ values.columns, column.2 ≠ none

section Iterating

variable {services : StatsServices} {funcctx funcctx' : FuncCallContext} {hentry : Oid × Counters}
  {entries rest : List (Oid × Counters)} {result : SrfResult} {results : List SrfResult}

theorem completes_buildTupleFromCStrings_iff {columns : List (Oid × Option CString)} :
    (buildTupleFromCStrings services columns).Completes ↔
      ∀ column ∈ columns, ∀ text, column.2 = some text →
        services.acceptsInput column.1 text = true := by
  induction columns with
  | nil => exact iff_of_true ⟨(), rfl⟩ (by simp)
  | cons column columns ih =>
      obtain ⟨typeid, _ | text⟩ := column
      · rw [buildTupleFromCStrings, ih]
        simp
      · rw [buildTupleFromCStrings, List.forall_mem_cons]
        split
        · rename_i haccepts
          rw [ih]
          simp [haccepts]
        · rename_i hrejects
          simp [hrejects]

theorem completes_pfreeAll_iff {pointers : List (Option CString)} :
    (pfreeAll pointers).Completes ↔ ∀ pointer ∈ pointers, pointer ≠ none := by
  induction pointers with
  | nil => exact iff_of_true ⟨(), rfl⟩ (by simp)
  | cons pointer pointers ih =>
      cases pointer with
      | none => simp [pfreeAll]
      | some text =>
          rw [pfreeAll, ih]
          simp

/-- **What a call does** with the next entry: it returns the values of the entry if a row can be
built of them and all can be freed, and goes on with the other entries. -/
theorem ocgeoStats_eq_ok_iff (hentries : funcctx.user_fctx = some (hentry :: rest)) :
    ocgeoStats services funcctx () = .ok (result, funcctx') ↔
      Returns services (statsValues services hentry.2) ∧
        result = .next (statsValues services hentry.2) ∧
        funcctx' = ⟨funcctx.call_cntr + 1, funcctx.max_calls, some rest⟩ := by
  have hreturns : Returns services (statsValues services hentry.2) ↔
      (buildTupleFromCStrings services (statsValues services hentry.2).columns).Completes ∧
        (pfreeAll ((statsValues services hentry.2).columns.map Prod.snd)).Completes := by
    rw [completes_buildTupleFromCStrings_iff, completes_pfreeAll_iff, List.forall_mem_map]
    exact ⟨fun h => ⟨h.accepted, h.allocated⟩, fun h => ⟨h.1, h.2⟩⟩
  rw [hreturns]
  rw [ocgeoStats]
  simp only [hentries]
  rw [Except.bind_eq_ok_iff]
  constructor
  · rintro ⟨_, hbuilt, h⟩
    obtain ⟨_, hfreed, h⟩ := Except.bind_eq_ok_iff.mp h
    obtain ⟨rfl, rfl⟩ := Prod.mk.inj (Except.ok.inj h)
    exact ⟨⟨⟨_, hbuilt⟩, ⟨_, hfreed⟩⟩, rfl, rfl⟩
  · rintro ⟨⟨⟨_, hbuilt⟩, ⟨_, hfreed⟩⟩, rfl, rfl⟩
    exact ⟨_, hbuilt, Except.bind_eq_ok_iff.mpr ⟨_, hfreed, rfl⟩⟩

/-- Without a further entry a call reports that it is done. -/
theorem ocgeoStats_done (hentries : funcctx.user_fctx.getD [] = []) :
    ocgeoStats services funcctx () = .ok (.done, funcctx) := by
  rw [ocgeoStats]
  cases hscan : funcctx.user_fctx with
  | none => rfl
  | some entries =>
      rw [hscan, Option.getD_some] at hentries
      rw [hentries]

/-- **The calls over a table** return the values of its entries, if each of them returns. -/
theorem run_ocgeoStats_iff (hentries : funcctx.user_fctx.getD [] = entries) :
    (∃ funcctx', EventRun.run (ocgeoStats services) funcctx
        (List.replicate (entries.length + 1) ()) = .ok (results, funcctx')) ↔
      (∀ hentry ∈ entries, Returns services (statsValues services hentry.2)) ∧
        results = (entries.map fun hentry => .next (statsValues services hentry.2)) ++ [.done] := by
  induction entries generalizing funcctx results with
  | nil =>
      have hdone : ocgeoStats services funcctx () = .ok (.done, funcctx) :=
        ocgeoStats_done hentries
      constructor
      · rintro ⟨funcctx', hrun⟩
        obtain ⟨o, s', os, hstep, hrest, rfl⟩ := EventRun.exists_of_run_cons hrun
        obtain ⟨rfl, rfl⟩ := Prod.mk.inj (Except.ok.inj (hdone.symm.trans hstep))
        obtain ⟨rfl, -⟩ := Prod.mk.inj (Except.ok.inj hrest)
        exact ⟨fun _ hmem => absurd hmem List.not_mem_nil, rfl⟩
      · rintro ⟨-, rfl⟩
        exact ⟨funcctx, EventRun.run_cons_of_ok hdone rfl⟩
  | cons hentry rest ih =>
      have hscan : funcctx.user_fctx = some (hentry :: rest) := by
        cases hscan : funcctx.user_fctx with
        | none =>
            rw [hscan] at hentries
            cases hentries
        | some entries => rw [← hentries, hscan, Option.getD_some]
      rw [List.length_cons, List.replicate_succ, List.forall_mem_cons, List.map_cons,
        List.cons_append]
      constructor
      · rintro ⟨funcctx', hrun⟩
        obtain ⟨o, s', os, hstep, hrest, rfl⟩ := EventRun.exists_of_run_cons hrun
        obtain ⟨hreturns, rfl, rfl⟩ := (ocgeoStats_eq_ok_iff hscan).mp hstep
        obtain ⟨hothers, rfl⟩ := (ih rfl).mp ⟨funcctx', hrest⟩
        exact ⟨⟨hreturns, hothers⟩, rfl⟩
      · rintro ⟨⟨hreturns, hothers⟩, rfl⟩
        have hrest : ∃ funcctx', EventRun.run (ocgeoStats services)
            ⟨funcctx.call_cntr + 1, funcctx.max_calls, some rest⟩
            (List.replicate (rest.length + 1) ()) = .ok (_, funcctx') := (ih rfl).mpr ⟨hothers, rfl⟩
        obtain ⟨funcctx', hrest⟩ := hrest
        have hstep := (ocgeoStats_eq_ok_iff hscan).mpr ⟨hreturns, rfl, rfl⟩
        exact ⟨funcctx', EventRun.run_cons_of_ok hstep hrest⟩

/-- A reset that is not positive has no text. -/
theorem rate_reset_eq_none_iff {counters : Counters} :
    (statsValues services counters).rate_reset = none ↔ counters.rate_info.reset ≤ 0 := by
  rw [statsValues, rateResetText]
  simp only
  split
  · rename_i hpos
    exact iff_of_false (Option.some_ne_none _) (not_le.mpr hpos)
  · rename_i hnonpos
    exact iff_of_true rfl (not_lt.mp hnonpos)

/-- **Which tables are iterated to the end**: those whose entries all return. -/
theorem statsComplete_iff (ht : Option (List (Oid × Counters))) :
    StatsComplete services ht ↔
      ∀ hentry ∈ ht.getD [], Returns services (statsValues services hentry.2) := by
  have hfirst : (ocgeoStatsFirstCall ht).user_fctx.getD [] = ht.getD [] := rfl
  constructor
  · rintro ⟨rows, funcctx, hrun, -⟩
    exact ((run_ocgeoStats_iff hfirst).mp ⟨funcctx, hrun⟩).1
  · intro hreturns
    obtain ⟨funcctx, hrun⟩ := (run_ocgeoStats_iff hfirst).mpr ⟨hreturns, rfl⟩
    refine ⟨(ht.getD []).map fun hentry => statsValues services hentry.2, funcctx, ?_, ?_⟩
    · rw [List.map_map]
      exact hrun
    · rw [List.forall₂_map_right_iff, List.forall₂_same]
      exact fun hentry _ => ⟨rfl, rate_reset_eq_none_iff⟩

end Iterating

/-! ## Which entries return -/

/-- The library functions as they are documented. The texts are those that `ocgeo_stats` prints. -/
structure StatsServices.Documented (services : StatsServices) : Prop where
  /-- `pg_gmtime` returns the date-time in UTC. -/
  gmtime : IsGmtime services.pg_gmtime
  /-- The input function of `int4` reads what `%d` prints. -/
  int4 : ∀ n, intMin ≤ n → n ≤ intMax → services.acceptsInput 23 (showInt n) = true
  /-- The input function of `float8` reads what `%.2lf` prints. -/
  float8 : ∀ total_time_ms,
    services.acceptsInput 701 (snprintf 20 (services.showSeconds total_time_ms)) = true
  /-- The input function of `timestamptz` reads the date-times of the calendar. -/
  timestamptz : ∀ year month day hour minute second : ℕ, 1 ≤ year → year < 10 ^ 4 →
    month < 10 ^ 2 → day < 10 ^ 2 → hour < 24 → minute < 60 → second < 60 →
    (services.acceptsInput 1184 (formatReset year month day hour minute second) = true ↔
      (⟨year, month, day, hour, minute, second⟩ : DateTime).Valid)

/-- The fields of an entry that are printed are `int`s. -/
structure Counters.AreInts (counters : Counters) : Prop where
  calls : intMin ≤ counters.calls ∧ counters.calls ≤ intMax
  limit : intMin ≤ counters.rate_info.limit ∧ counters.rate_info.limit ≤ intMax
  remaining : intMin ≤ counters.rate_info.remaining ∧ counters.rate_info.remaining ≤ intMax
  reset : intMin ≤ counters.rate_info.reset ∧ counters.rate_info.reset ≤ intMax

/-- The reset is positive, and its date is one of the calendar with the number of the previous month
too: the month is not January, and the previous month has the day. -/
def ShowsDate (reset : ℤ) : Prop :=
  0 < reset ∧ 1 < (ofInstant reset).month ∧
    (ofInstant reset).day ≤ daysInMonth (ofInstant reset).year ((ofInstant reset).month - 1)

instance (reset : ℤ) : Decidable (ShowsDate reset) := inferInstanceAs (Decidable (_ ∧ _ ∧ _))

section Entries

variable {services : StatsServices} {counters : Counters}

/-- The text of a number is read. -/
theorem StatsServices.Documented.accepts_showInt (h : services.Documented) {n : ℤ}
    (hn : intMin ≤ n ∧ n ≤ intMax) : services.acceptsInput 23 (snprintf 16 (showInt n)) = true := by
  have hlength := length_toString_int_le hn.1 hn.2
  rw [snprintf_of_length_lt (by unfold showInt; omega)]
  exact h.int4 n hn.1 hn.2

/-- The text of a reset is read exactly if it shows a date. -/
theorem accepts_rateResetText_iff (h : services.Documented) {reset : ℤ} (hpos : 0 < reset)
    (hint : reset ≤ intMax) :
    (∀ text, rateResetText services reset = some text → services.acceptsInput 1184 text = true) ↔
      ShowsDate reset := by
  obtain ⟨d, hvalid, rfl, htext, hlow, hhigh⟩ := exists_rateResetText h.gmtime hpos hint
  have hyear : ((d.year.toNat : ℕ) : ℤ) = d.year := by omega
  have := hvalid.month_pos
  have := hvalid.month_le
  have := hvalid.day_pos
  have := hvalid.day_le_thirtyOne
  rw [htext]
  simp only [Option.some.injEq, forall_eq']
  rw [h.timestamptz _ _ _ _ _ _ (by omega) (by omega) (by omega) (by omega)
    hvalid.hour_lt hvalid.minute_lt hvalid.second_lt, DateTime.valid_iff, hyear]
  rw [ShowsDate]
  rw [ofInstant_instant hvalid]
  simp only [hvalid.hour_lt, hvalid.minute_lt, hvalid.second_lt, and_true, hpos, true_and]
  omega

/-- **Which entries return**: those whose reset shows a date. -/
theorem returns_statsValues_iff (h : services.Documented) (hints : counters.AreInts) :
    Returns services (statsValues services counters) ↔ ShowsDate counters.rate_info.reset := by
  constructor
  · intro hreturns
    have hmem : (1184, (statsValues services counters).rate_reset) ∈
        (statsValues services counters).columns := by simp [StatsValues.columns]
    have hpos : 0 < counters.rate_info.reset := by
      by_contra hnonpos
      exact hreturns.allocated _ hmem (rate_reset_eq_none_iff.mpr (not_lt.mp hnonpos))
    exact (accepts_rateResetText_iff h hpos hints.reset.2).mp fun text htext =>
      hreturns.accepted _ hmem text htext
  · intro hshows
    constructor
    · rw [StatsValues.columns]
      simp only [List.forall_mem_cons, Option.some.injEq, forall_eq', List.not_mem_nil,
        IsEmpty.forall_iff, implies_true, and_true]
      exact ⟨h.accepts_showInt hints.calls, h.accepts_showInt (toInt32_fits _), h.float8 _,
        h.accepts_showInt hints.limit, h.accepts_showInt hints.remaining,
        (accepts_rateResetText_iff h hshows.1 hints.reset.2).mpr hshows⟩
    · rw [StatsValues.columns]
      simp only [List.forall_mem_cons, ne_eq, reduceCtorEq, not_false_eq_true, true_and,
        rate_reset_eq_none_iff, not_le]
      exact ⟨hshows.1, fun _ hmem => absurd hmem List.not_mem_nil⟩

end Entries

/-- The calendar services are as documented. -/
theorem documented_calendarServices : calendarServices.Documented where
  gmtime := isGmtime_calendarServices
  int4 _ _ _ := rfl
  float8 _ := rfl
  timestamptz year month day hour minute second _ _ _ _ _ _ _ := by
    rw [calendarServices, formatReset]
    simp only
    rw [readDateTime_eq_some]
    simp

end OcgeoFdw
