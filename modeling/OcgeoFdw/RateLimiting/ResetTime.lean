import OcgeoFdw.Api.Request
import OcgeoFdw.Foundation.DateTexts
import OcgeoFdw.RateLimiting.Stats

/-! # The reset time in the statistics

The `values` array of `ocgeo_stats`, with the text it builds for `rate_reset`. The format prints
`tm_mon`, which counts the months from zero: `not_denotes_rate_reset` states that no text denotes the
reset that was recorded. -/

namespace OcgeoFdw

open Calendar CInt CString

/-- `struct pg_tm`. -/
structure PgTm where
  tm_sec : ℤ
  tm_min : ℤ
  tm_hour : ℤ
  tm_mday : ℤ
  tm_mon : ℤ
  tm_year : ℤ

/-- The date-time in the convention of C: `tm_year` counts from 1900 and `tm_mon` from zero. -/
def PgTm.ofDateTime (t : DateTime) : PgTm where
  tm_sec := t.second
  tm_min := t.minute
  tm_hour := t.hour
  tm_mday := t.day
  tm_mon := t.month - 1
  tm_year := t.year - 1900

/-- `pg_gmtime` as it is documented: at a time after 1970 it returns the date-time in UTC, in the
convention of C. -/
def IsGmtime (pg_gmtime : ℤ → PgTm) : Prop :=
  ∀ t, 0 < t → ∃ d : DateTime, d.Valid ∧ d.instant = t ∧ pg_gmtime t = .ofDateTime d

/-- The format `%04d-%02d-%02d %02d:%02d:%0dZ`. -/
def formatReset (year mon mday hour min sec : ℤ) : CString :=
  showPadded 4 year ++ 45 :: (showPadded 2 mon ++ 45 :: (showPadded 2 mday ++ 32 ::
    (showPadded 2 hour ++ 58 :: (showPadded 2 min ++ 58 :: (showPadded 0 sec ++ [90])))))

/-- The library functions that `ocgeo_stats` calls: `pg_gmtime`, `%.2lf` of a time in milliseconds as
seconds, and whether the input function of a type accepts a text. -/
structure StatsServices where
  pg_gmtime : ℤ → PgTm
  showSeconds : ℤ → CString
  acceptsInput : Oid → CString → Bool

/-- The `values` of a row. -/
structure StatsValues where
  nbr_calls : CString
  nbr_failed : CString
  total_time : CString
  rate_limit : CString
  rate_remaining : CString
  rate_reset : Option CString

/-- `values[5]`. The reset is cast to a pointer to 64 bits; the padding behind it in the entry is
zero, so that the value read is the reset. -/
def rateResetText (services : StatsServices) (reset : ℤ) : Option CString :=
  if 0 < reset then
    let reset_timestamp := services.pg_gmtime reset
    some (snprintf 30 (formatReset (reset_timestamp.tm_year + 1900) reset_timestamp.tm_mon
      reset_timestamp.tm_mday reset_timestamp.tm_hour reset_timestamp.tm_min
      reset_timestamp.tm_sec))
  else none

/-- The `values` of the row for an entry. -/
def statsValues (services : StatsServices) (counters : Counters) : StatsValues where
  nbr_calls := snprintf 16 (showInt counters.calls)
  nbr_failed := snprintf 16 (showInt (toInt32 (counters.calls - counters.success_calls)))
  total_time := snprintf 20 (services.showSeconds counters.total_time)
  rate_limit := snprintf 16 (showInt counters.rate_info.limit)
  rate_remaining := snprintf 16 (showInt counters.rate_info.remaining)
  rate_reset := rateResetText services counters.rate_info.reset

/-- The text, read as a date-time of the calendar in UTC, denotes the instant. -/
def Denotes (text : CString) (instant : ℤ) : Prop :=
  ∃ d, readDateTime text = some d ∧ d.Valid ∧ d.instant = instant

section Reset

variable {services : StatsServices} {reset : ℤ} {d : DateTime}

/-- The years of the instants that are positive `int`s. -/
theorem year_of_instant (hvalid : d.Valid) (hlow : 0 < d.instant) (hhigh : d.instant ≤ intMax) :
    1970 ≤ d.year ∧ d.year ≤ 2038 := by
  have hdays : 0 ≤ d.days - epochDay ∧ d.days - epochDay ≤ 24855 := by
    have := hvalid.hour_lt
    have := hvalid.minute_lt
    have := hvalid.second_lt
    norm_num [intMax] at hhigh
    rw [DateTime.instant] at hlow hhigh
    omega
  have hinYear := daysBeforeMonth_add_lt hvalid
  have hstart : daysBeforeYear 1970 = 719162 := by decide
  have hend : daysBeforeYear 2038 + (monthLengths 2038).sum = 744364 := by decide
  rw [DateTime.days, epochDay] at hdays
  constructor
  · by_contra hyear
    have := daysBeforeYear_lt (not_le.mp hyear)
    omega
  · by_contra hyear
    have := daysBeforeYear_lt (not_le.mp hyear)
    omega

/-- **What the format prints**: the date-time with the number of the previous month. -/
theorem formatReset_ofDateTime (hvalid : d.Valid) (hlow : 1970 ≤ d.year) :
    formatReset ((PgTm.ofDateTime d).tm_year + 1900) (PgTm.ofDateTime d).tm_mon
      (PgTm.ofDateTime d).tm_mday (PgTm.ofDateTime d).tm_hour (PgTm.ofDateTime d).tm_min
      (PgTm.ofDateTime d).tm_sec =
    formatReset (d.year.toNat : ℕ) ((d.month - 1 : ℕ) : ℤ) d.day d.hour d.minute d.second := by
  have hmonth := hvalid.month_pos
  have hyear : d.year - 1900 + 1900 = (d.year.toNat : ℕ) := by omega
  have hmon : (d.month : ℤ) - 1 = ((d.month - 1 : ℕ) : ℤ) := by omega
  rw [PgTm.ofDateTime]
  simp only
  rw [hyear, hmon]

/-- The text of a reset has room in its buffer. -/
theorem length_formatReset_lt {year mon mday hour min sec : ℕ} (hyear : year < 10 ^ 4)
    (hmon : mon < 10 ^ 2) (hmday : mday < 10 ^ 2) (hhour : hour < 10 ^ 2) (hmin : min < 10 ^ 2)
    (hsec : sec < 10 ^ 2) : (formatReset year mon mday hour min sec).length < 30 := by
  have := length_showPadded_le 4 (by norm_num) hyear
  have := length_showPadded_le 2 (by norm_num) hmon
  have := length_showPadded_le 2 (by norm_num) hmday
  have := length_showPadded_le 2 (by norm_num) hhour
  have := length_showPadded_le 2 (by norm_num) hmin
  have := length_showPadded_le 0 (by norm_num) hsec
  rw [formatReset]
  simp only [List.length_append, List.length_cons, List.length_nil]
  omega

/-- **The text of a reset** is read as its date-time with the number of the previous month. -/
theorem exists_rateResetText (hgmtime : IsGmtime services.pg_gmtime) (hpos : 0 < reset)
    (hint : reset ≤ intMax) :
    ∃ d : DateTime, d.Valid ∧ d.instant = reset ∧
      rateResetText services reset = some (formatReset (d.year.toNat : ℕ)
        ((d.month - 1 : ℕ) : ℤ) d.day d.hour d.minute d.second) ∧
      (1970 ≤ d.year ∧ d.year ≤ 2038) := by
  obtain ⟨d, hvalid, hinstant, htm⟩ := hgmtime reset hpos
  subst hinstant
  obtain ⟨hlow, hhigh⟩ := year_of_instant hvalid hpos hint
  refine ⟨d, hvalid, rfl, ?_, hlow, hhigh⟩
  have := hvalid.day_le_thirtyOne
  have := hvalid.month_le
  have := hvalid.hour_lt
  have := hvalid.minute_lt
  have := hvalid.second_lt
  rw [rateResetText]
  rw [if_pos hpos]
  simp only
  rw [htm, formatReset_ofDateTime hvalid hlow, snprintf_of_length_lt]
  exact length_formatReset_lt (by omega) (by omega) (by omega) (by omega) (by omega) (by omega)

/-- **The reported reset time.** The text built for a reset never denotes the instant of the
reset. -/
theorem not_denotes_rate_reset {counters : Counters} (hgmtime : IsGmtime services.pg_gmtime)
    (hpos : 0 < counters.rate_info.reset) (hint : counters.rate_info.reset ≤ intMax) :
    ∃ text, (statsValues services counters).rate_reset = some text ∧
      ¬ Denotes text counters.rate_info.reset := by
  obtain ⟨d, hvalid, hinstant, htext, hlow, -⟩ := exists_rateResetText hgmtime hpos hint
  refine ⟨_, htext, ?_⟩
  rintro ⟨printed, hread, hprinted, heq⟩
  rw [formatReset] at hread
  rw [readDateTime_eq_some] at hread
  obtain rfl := Option.some.inj hread
  -- a valid date-time of the same instant is the same
  have hsame := hprinted.eq_of_instant_eq hvalid (heq.trans hinstant.symm)
  have hmonth : d.month - 1 = d.month := congrArg DateTime.month hsame
  have := hvalid.month_pos
  omega

end Reset

/-! ## An entry -/

/-- The services with the calendar for `pg_gmtime`, which accept every text that they are given for
numbers, and the texts of date-times of the calendar for `rate_reset`. -/
def calendarServices : StatsServices where
  pg_gmtime t := .ofDateTime (ofInstant t)
  showSeconds total_time_ms := showInt (total_time_ms / 1000)
  acceptsInput typeid text :=
    typeid ≠ 1184 || (readDateTime text).any fun d => decide d.Valid

/-- The calendar is a `pg_gmtime`. -/
theorem isGmtime_calendarServices : IsGmtime calendarServices.pg_gmtime :=
  fun t _ => ⟨ofInstant t, valid_ofInstant t, instant_ofInstant t, rfl⟩

/-- An entry with a reset at 2020-07-15 00:00. -/
def resetInJuly : Counters := ⟨1, 1, 0, ⟨2500, 2499, 1594771200⟩, ⟨0, 0⟩, 0⟩

/-- The text for the entry does not denote the reset. -/
theorem not_denotes_resetInJuly :
    (0 : ℤ) < 1594771200 ∧ ∃ text, (statsValues calendarServices resetInJuly).rate_reset =
      some text ∧ ¬ Denotes text 1594771200 :=
  ⟨by decide, not_denotes_rate_reset isGmtime_calendarServices (by decide) (by decide)⟩

/-- It reads 2020-06-15. -/
theorem rate_reset_resetInJuly :
    (statsValues calendarServices resetInJuly).rate_reset =
        some (ofAscii "2020-06-15 00:00:0Z") ∧
      ¬ Denotes (ofAscii "2020-06-15 00:00:0Z") 1594771200 := by
  constructor
  · decide
  · rintro ⟨d, hread, -, hinstant⟩
    obtain rfl : (⟨2020, 6, 15, 0, 0, 0⟩ : DateTime) = d := by
      have h : readDateTime (ofAscii "2020-06-15 00:00:0Z") = some ⟨2020, 6, 15, 0, 0, 0⟩ := by
        decide
      exact Option.some.inj (h.symm.trans hread)
    exact absurd hinstant (by decide)

end OcgeoFdw
