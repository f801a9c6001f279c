import OcgeoFdw.RateLimiting.Bucket

/-! # One sufficient sleep

A loop that finds no permit sleeps for what is left of the current period. The difference it
computes the sleep from rounds up when the microsecond field wraps, and the reading after the sleep
may wrap or not; `period_le_timevalDiff_of_slept` shows that the rounding of the first reading never
shows at the second, so that the loop sleeps at most once. -/

namespace OcgeoFdw

open CInt

/-- Along the loop, `pg_usleep` returns no earlier than asked: the reading after a reading without a
permit is later by at least the rest of the period. -/
def SleepsFully (period : ℤ) (stats : Counters) : List Timeval → Prop
  | t :: t' :: clock =>
      permitsAt period stats t = 0 →
        t.micros + 1000 * (period - timevalDiff t stats.ts) ≤ t'.micros ∧
          SleepsFully period stats (t' :: clock)
  | _ => True

/-- **After a sleep for the rest of a period, a whole period is measured.** A period is at most a
second, so a first reading that was rounded up lies behind the next second boundary, and a reading
after the sleep that is not rounded up itself lies a whole second behind the start. -/
theorem period_le_timevalDiff_of_slept {period : ℤ} {ts t t' : Timeval} (hts : ts.Normalized)
    (ht : t.Normalized) (ht' : t'.Normalized) (hle : ts.micros ≤ t.micros) (hperiod : period ≤ 1000)
    (hshort : timevalDiff t ts < period)
    (hslept : t.micros + 1000 * (period - timevalDiff t ts) ≤ t'.micros) :
    period ≤ timevalDiff t' ts := by
  obtain ⟨hts₀, hts₁⟩ := hts
  obtain ⟨ht₀, ht₁⟩ := ht
  obtain ⟨ht'₀, ht'₁⟩ := ht'
  unfold Timeval.micros at hle hslept
  unfold timevalDiff at hshort hslept ⊢
  by_cases hwrap : t.tv_usec - ts.tv_usec < 0
  · rw [tdiv_of_neg hwrap] at hshort hslept
    by_cases hwrap' : t'.tv_usec - ts.tv_usec < 0
    · rw [tdiv_of_neg hwrap']
      omega
    · rw [tdiv_of_nonneg (not_lt.mp hwrap')]
      omega
  · rw [tdiv_of_nonneg (not_lt.mp hwrap)] at hshort hslept
    by_cases hwrap' : t'.tv_usec - ts.tv_usec < 0
    · rw [tdiv_of_neg hwrap']
      omega
    · rw [tdiv_of_nonneg (not_lt.mp hwrap')]
      omega

/-- The period of a limit in range is at most a second. -/
theorem period_le {M : ℤ} (hM : 1 ≤ M) : period M ≤ 1000 := by
  rw [period_of_pos (by omega)]
  exact Int.ediv_le_self M (by norm_num)

section Loop

variable {M : ℤ} {stats : Counters} {t : Timeval}

/-- From a bucket that is not overdrawn, a reading has a permit if a token is stored or a whole
period has passed, and only then. -/
theorem permitsAt_pos_iff (htokens : 0 ≤ stats.tokens) (hM' : M ≤ 1000)
    (hival : 0 ≤ timevalDiff t stats.ts) (hfit : PermitsFit (period M) stats t) :
    1 ≤ permitsAt (period M) stats t ↔ 1 ≤ stats.tokens ∨ period M ≤ timevalDiff t stats.ts := by
  have hpos : 0 < period M := (period_pos_iff M).mpr hM'
  have hearned : 0 ≤ timevalDiff t stats.ts / period M := Int.ediv_nonneg hival hpos.le
  have hone : 1 ≤ timevalDiff t stats.ts / period M ↔ period M ≤ timevalDiff t stats.ts := by
    rw [Int.le_ediv_iff_mul_le hpos, one_mul]
  rw [permitsAt, toInt32_of_fits hfit.1 hfit.2, permitsLong, tdiv_of_nonneg hival, ← hone]
  omega

/-- The permits of a bucket that is not overdrawn are not negative. -/
theorem permitsAt_nonneg (htokens : 0 ≤ stats.tokens) (hival : 0 ≤ timevalDiff t stats.ts)
    (hfit : PermitsFit (period M) stats t) : 0 ≤ permitsAt (period M) stats t := by
  rw [permitsAt, toInt32_of_fits hfit.1 hfit.2, permitsLong, tdiv_of_nonneg hival]
  exact add_nonneg htokens (Int.ediv_nonneg hival (period_nonneg M))

/-- A loop stops at a reading with a permit. -/
theorem rateLoop_of_permit {clock : List Timeval} (hp : period M ≠ 0)
    (hpermit : 1 ≤ permitsAt (period M) stats t) :
    rateLoop (period M) stats (t :: clock) =
      .ok (⟨[], t, permitsAt (period M) stats t⟩, clock) := by
  rw [rateLoop, if_neg hp, if_neg (by omega)]

end Loop

/-- An empty bucket, stored late in a second. -/
def storedLate : Counters :=
  ⟨1, 0, 0, .zero, ⟨0, 900000⟩, 0⟩

/-- Two readings of the next second, and a later one. -/
def wrappedClock : List Timeval :=
  [⟨1, 200000⟩, ⟨1, 400000⟩, ⟨7, 0⟩]

end OcgeoFdw
