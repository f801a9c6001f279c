import Mathlib.Algebra.BigOperators.Group.List.Basic
import Mathlib.Tactic.Linarith
import Mathlib.Tactic.Ring

/-! # The Gregorian calendar

Date-times of the proleptic Gregorian calendar in UTC, and the instants they denote, in seconds since
1970. `instant_ofInstant` and `ofInstant_instant` state that the two determine each other: every
instant is that of exactly one valid date-time. -/

namespace Calendar

/-! ## Segments -/

/-- The segment that a position falls into, in a line of segments of the given lengths, and the
position within it. -/
def locate : List ℕ → ℕ → ℕ × ℕ
  | [], n => (0, n)
  | length :: lengths, n =>
      if n < length then (0, n)
      else ((locate lengths (n - length)).1 + 1, (locate lengths (n - length)).2)

/-- A position in the line lies in a segment. -/
theorem locate_spec {lengths : List ℕ} {n : ℕ} (h : n < lengths.sum) :
    (lengths.take (locate lengths n).1).sum + (locate lengths n).2 = n ∧
      ∃ length, lengths[(locate lengths n).1]? = some length ∧ (locate lengths n).2 < length := by
  induction lengths generalizing n with
  | nil => simp at h
  | cons length lengths ih =>
      rw [locate]
      by_cases hn : n < length
      · rw [if_pos hn]
        exact ⟨by simp, length, rfl, hn⟩
      · rw [if_neg hn]
        rw [List.sum_cons] at h
        obtain ⟨hsum, found, hfound, hlt⟩ := ih (show n - length < lengths.sum by omega)
        refine ⟨?_, found, hfound, hlt⟩
        simp only [List.take_succ_cons, List.sum_cons]
        omega

/-- A position determines its segment and its place there. -/
theorem locate_eq {lengths : List ℕ} {i r length : ℕ} (hi : lengths[i]? = some length)
    (hr : r < length) : locate lengths ((lengths.take i).sum + r) = (i, r) := by
  induction lengths generalizing i with
  | nil => simp at hi
  | cons first lengths ih =>
      rw [locate]
      cases i with
      | zero =>
          obtain rfl : first = length := by simpa using hi
          simp [hr]
      | succ i =>
          have htail := ih (by simpa using hi : lengths[i]? = some length)
          rw [List.take_succ_cons, List.sum_cons, if_neg (by omega)]
          have hsub : first + (lengths.take i).sum + r - first = (lengths.take i).sum + r := by omega
          rw [hsub, htail]

/-- A place in a segment lies in the line. -/
theorem sum_take_add_lt {lengths : List ℕ} {i r length : ℕ} (hi : lengths[i]? = some length)
    (hr : r < length) : (lengths.take i).sum + r < lengths.sum := by
  obtain ⟨hlt, rfl⟩ := List.getElem?_eq_some_iff.mp hi
  have hsplit := List.sum_take_add_sum_drop lengths i
  rw [List.drop_eq_getElem_cons hlt, List.sum_cons] at hsplit
  omega

/-! ## Years and months -/

/-- A leap year. -/
def IsLeapYear (year : ℤ) : Prop := 4 ∣ year ∧ (100 ∣ year → 400 ∣ year)

instance (year : ℤ) : Decidable (IsLeapYear year) := inferInstanceAs (Decidable (_ ∧ (_ → _)))

/-- The days of the months of a year. -/
def monthLengths (year : ℤ) : List ℕ :=
  [31, if IsLeapYear year then 29 else 28, 31, 30, 31, 30, 31, 31, 30, 31, 30, 31]

/-- The days of a month, which is counted from 1. -/
def daysInMonth (year : ℤ) (month : ℕ) : ℕ := ((monthLengths year)[month - 1]?).getD 0

/-- The days from the beginning of year 1 to that of the year. -/
def daysBeforeYear (year : ℤ) : ℤ :=
  365 * (year - 1) + (year - 1) / 4 - (year - 1) / 100 + (year - 1) / 400

/-- The days of the year before the month. -/
def daysBeforeMonth (year : ℤ) (month : ℕ) : ℕ := ((monthLengths year).take (month - 1)).sum

/-- The days of a year. -/
theorem sum_monthLengths (year : ℤ) :
    (monthLengths year).sum = if IsLeapYear year then 366 else 365 := by
  rw [monthLengths]
  split <;> rfl

/-- The days before a year that is split into cycles of 400, 100, 4 and 1 years. -/
theorem daysBeforeYear_eq {a b c d : ℤ} (hb : 0 ≤ b ∧ b ≤ 3) (hc : 0 ≤ c ∧ c ≤ 24)
    (hd : 0 ≤ d ∧ d ≤ 3) :
    daysBeforeYear (400 * a + 100 * b + 4 * c + d + 1) =
      146097 * a + 36524 * b + 1461 * c + 365 * d := by
  have hyears : 400 * a + 100 * b + 4 * c + d + 1 - 1 = 400 * a + 100 * b + 4 * c + d := by ring
  have hfour : (400 * a + 100 * b + 4 * c + d) / 4 = 100 * a + 25 * b + c := by omega
  have hcentury : (400 * a + 100 * b + 4 * c + d) / 100 = 4 * a + b := by omega
  have hcycle : (400 * a + 100 * b + 4 * c + d) / 400 = a := by omega
  rw [daysBeforeYear]
  rw [hyears, hfour, hcentury, hcycle]
  ring

/-- Of the years of a cycle the last one of four is a leap year, but for the last one of a century
that does not end the cycle. -/
theorem isLeapYear_iff {a b c d : ℤ} (hb : 0 ≤ b ∧ b ≤ 3) (hc : 0 ≤ c ∧ c ≤ 24)
    (hd : 0 ≤ d ∧ d ≤ 3) :
    IsLeapYear (400 * a + 100 * b + 4 * c + d + 1) ↔ d = 3 ∧ (c = 24 → b = 3) := by
  rw [IsLeapYear]
  omega

/-- The next year begins after the days of this one. -/
theorem daysBeforeYear_succ (year : ℤ) :
    daysBeforeYear (year + 1) = daysBeforeYear year + (monthLengths year).sum := by
  rw [sum_monthLengths]
  unfold daysBeforeYear
  by_cases hleap : IsLeapYear year
  · rw [if_pos hleap]
    rw [IsLeapYear] at hleap
    omega
  · rw [if_neg hleap]
    rw [IsLeapYear] at hleap
    omega

/-- Later years begin later. -/
theorem daysBeforeYear_lt {year year' : ℤ} (h : year < year') :
    daysBeforeYear year + (monthLengths year).sum ≤ daysBeforeYear year' := by
  rw [← daysBeforeYear_succ]
  unfold daysBeforeYear
  omega

/-- The year of a day, which is counted from the beginning of year 1. -/
def yearOfDay (day : ℤ) : ℤ :=
  let inCycle := day % 146097
  let century := min 3 (inCycle / 36524)
  let inCentury := inCycle - 36524 * century
  let four := inCentury / 1461
  400 * (day / 146097) + 100 * century + 4 * four + min 3 ((inCentury - 1461 * four) / 365) + 1

/-- The day falls into its year. -/
theorem yearOfDay_spec (day : ℤ) :
    daysBeforeYear (yearOfDay day) ≤ day ∧
      day < daysBeforeYear (yearOfDay day) + (monthLengths (yearOfDay day)).sum := by
  unfold yearOfDay
  simp only
  obtain ⟨b, hb⟩ : ∃ b, b = min 3 (day % 146097 / 36524) := ⟨_, rfl⟩
  rw [← hb]
  obtain ⟨c, hc⟩ : ∃ c, c = (day % 146097 - 36524 * b) / 1461 := ⟨_, rfl⟩
  rw [← hc]
  obtain ⟨d, hd⟩ : ∃ d, d = min 3 ((day % 146097 - 36524 * b - 1461 * c) / 365) := ⟨_, rfl⟩
  rw [← hd]
  have hb' : 0 ≤ b ∧ b ≤ 3 := by omega
  have hc' : 0 ≤ c ∧ c ≤ 24 := by omega
  have hd' : 0 ≤ d ∧ d ≤ 3 := by omega
  rw [daysBeforeYear_eq hb' hc' hd', sum_monthLengths]
  by_cases hleap : d = 3 ∧ (c = 24 → b = 3)
  · rw [if_pos ((isLeapYear_iff hb' hc' hd').mpr hleap)]
    omega
  · rw [if_neg fun h => hleap ((isLeapYear_iff hb' hc' hd').mp h)]
    omega

/-- A day falls into one year only. -/
theorem yearOfDay_eq {year day : ℤ} (hlow : daysBeforeYear year ≤ day)
    (hhigh : day < daysBeforeYear year + (monthLengths year).sum) : yearOfDay day = year := by
  obtain ⟨hlow', hhigh'⟩ := yearOfDay_spec day
  rcases lt_trichotomy (yearOfDay day) year with hlt | heq | hgt
  · have := daysBeforeYear_lt hlt
    omega
  · exact heq
  · have := daysBeforeYear_lt hgt
    omega

/-! ## Date-times -/

/-- A date-time in UTC. -/
structure DateTime where
  year : ℤ
  month : ℕ
  day : ℕ
  hour : ℕ
  minute : ℕ
  second : ℕ
  deriving DecidableEq

/-- A date-time of the calendar. -/
structure DateTime.Valid (t : DateTime) : Prop where
  month_pos : 1 ≤ t.month
  month_le : t.month ≤ 12
  day_pos : 1 ≤ t.day
  day_le : t.day ≤ daysInMonth t.year t.month
  hour_lt : t.hour < 24
  minute_lt : t.minute < 60
  second_lt : t.second < 60

/-- The bounds of a valid date-time, one after the other. -/
theorem DateTime.valid_iff (t : DateTime) :
    t.Valid ↔ 1 ≤ t.month ∧ t.month ≤ 12 ∧ 1 ≤ t.day ∧ t.day ≤ daysInMonth t.year t.month ∧
      t.hour < 24 ∧ t.minute < 60 ∧ t.second < 60 :=
  ⟨fun h => ⟨h.month_pos, h.month_le, h.day_pos, h.day_le, h.hour_lt, h.minute_lt, h.second_lt⟩,
    fun ⟨h₁, h₂, h₃, h₄, h₅, h₆, h₇⟩ => ⟨h₁, h₂, h₃, h₄, h₅, h₆, h₇⟩⟩

instance (t : DateTime) : Decidable t.Valid := decidable_of_iff' _ t.valid_iff

/-- The days from the beginning of year 1. -/
def DateTime.days (t : DateTime) : ℤ :=
  daysBeforeYear t.year + (daysBeforeMonth t.year t.month + (t.day - 1) : ℕ)

/-- The day of 1970-01-01. -/
def epochDay : ℤ := 719162

/-- The instant: the seconds since the beginning of 1970. -/
def DateTime.instant (t : DateTime) : ℤ :=
  86400 * (t.days - epochDay) + 3600 * t.hour + 60 * t.minute + t.second

/-- The date-time of an instant. -/
def ofInstant (instant : ℤ) : DateTime :=
  let day := instant / 86400 + epochDay
  let time := (instant % 86400).toNat
  let year := yearOfDay day
  let located := locate (monthLengths year) (day - daysBeforeYear year).toNat
  ⟨year, located.1 + 1, located.2 + 1, time / 3600, time / 60 % 60, time % 60⟩

/-- The length of the month of a valid date. -/
theorem DateTime.Valid.exists_monthLength {t : DateTime} (h : t.Valid) :
    ∃ length, (monthLengths t.year)[t.month - 1]? = some length ∧ t.day - 1 < length := by
  have hlt : t.month - 1 < (monthLengths t.year).length := by
    have := h.month_le
    have := h.month_pos
    show t.month - 1 < 12
    omega
  have hday := h.day_le
  rw [daysInMonth] at hday
  rw [List.getElem?_eq_getElem hlt, Option.getD_some] at hday
  have := h.day_pos
  exact ⟨_, List.getElem?_eq_getElem hlt, by omega⟩

/-- No month is longer than 31 days. -/
theorem DateTime.Valid.day_le_thirtyOne {t : DateTime} (h : t.Valid) : t.day ≤ 31 := by
  obtain ⟨length, hlength, hlt⟩ := h.exists_monthLength
  have hlengths : ∀ n ∈ monthLengths t.year, n ≤ 31 := by
    rw [monthLengths]
    split <;> decide
  have := hlengths length (List.mem_of_getElem? hlength)
  omega

/-- The month and the day within a year. -/
theorem locate_monthLengths {t : DateTime} (h : t.Valid) :
    locate (monthLengths t.year) (daysBeforeMonth t.year t.month + (t.day - 1)) =
      (t.month - 1, t.day - 1) := by
  obtain ⟨length, hlength, hlt⟩ := h.exists_monthLength
  exact locate_eq hlength hlt

/-- A valid date lies in its year. -/
theorem daysBeforeMonth_add_lt {t : DateTime} (h : t.Valid) :
    daysBeforeMonth t.year t.month + (t.day - 1) < (monthLengths t.year).sum := by
  obtain ⟨length, hlength, hlt⟩ := h.exists_monthLength
  exact sum_take_add_lt hlength hlt

/-- **Every instant has a date-time.** -/
theorem valid_ofInstant (instant : ℤ) : (ofInstant instant).Valid := by
  unfold ofInstant
  simp only
  obtain ⟨hlow, hhigh⟩ := yearOfDay_spec (instant / 86400 + epochDay)
  generalize instant / 86400 + epochDay = day at *
  obtain ⟨-, length, hlength, hlt⟩ := locate_spec
    (show (day - daysBeforeYear (yearOfDay day)).toNat < (monthLengths (yearOfDay day)).sum by omega)
  have hmonth : (locate (monthLengths (yearOfDay day))
      (day - daysBeforeYear (yearOfDay day)).toNat).1 < 12 :=
    (List.getElem?_eq_some_iff.mp hlength).1
  have htime := Int.emod_lt_of_pos instant (show (0 : ℤ) < 86400 by norm_num)
  refine ⟨by simp, hmonth, by simp, ?_, ?_, ?_, ?_⟩
  · show _ + 1 ≤ daysInMonth _ _
    rw [daysInMonth]
    rw [Nat.add_sub_cancel, hlength, Option.getD_some]
    exact hlt
  all_goals simp only; omega

/-- **The date-time of an instant denotes it.** -/
theorem instant_ofInstant (instant : ℤ) : (ofInstant instant).instant = instant := by
  rw [ofInstant, DateTime.instant, DateTime.days, daysBeforeMonth]
  simp only [Nat.add_sub_cancel]
  obtain ⟨hlow, hhigh⟩ := yearOfDay_spec (instant / 86400 + epochDay)
  generalize hday : instant / 86400 + epochDay = day at *
  obtain ⟨hsum, -⟩ := locate_spec
    (show (day - daysBeforeYear (yearOfDay day)).toNat < (monthLengths (yearOfDay day)).sum by omega)
  rw [hsum]
  omega

/-- **A valid date-time is that of its instant.** -/
theorem ofInstant_instant {t : DateTime} (h : t.Valid) : ofInstant t.instant = t := by
  have hdays : t.instant / 86400 + epochDay = t.days := by
    have := h.hour_lt
    have := h.minute_lt
    have := h.second_lt
    rw [DateTime.instant]
    omega
  have htime : (t.instant % 86400).toNat = 3600 * t.hour + 60 * t.minute + t.second := by
    have := h.hour_lt
    have := h.minute_lt
    have := h.second_lt
    rw [DateTime.instant]
    omega
  have hyear : yearOfDay t.days = t.year := by
    have := daysBeforeMonth_add_lt h
    refine yearOfDay_eq ?_ ?_ <;> unfold DateTime.days <;> omega
  have hinYear : (t.days - daysBeforeYear t.year).toNat =
      daysBeforeMonth t.year t.month + (t.day - 1) := by
    rw [DateTime.days]
    omega
  unfold ofInstant
  simp only
  rw [hdays, hyear, hinYear, locate_monthLengths h, htime]
  have := h.month_pos
  have := h.day_pos
  have := h.minute_lt
  have := h.second_lt
  obtain ⟨year, month, day, hour, minute, second⟩ := t
  simp only [DateTime.mk.injEq, true_and] at *
  omega

/-- Valid date-times of one instant are the same. -/
theorem DateTime.Valid.eq_of_instant_eq {t u : DateTime} (ht : t.Valid) (hu : u.Valid)
    (h : t.instant = u.instant) : t = u := by
  rw [← ofInstant_instant ht, h, ofInstant_instant hu]

/-- A time in 2020, and the last second of a leap day. -/
example : ofInstant 1594771200 = ⟨2020, 7, 15, 0, 0, 0⟩ ∧
    ofInstant 951868799 = ⟨2000, 2, 29, 23, 59, 59⟩ := by decide

end Calendar
