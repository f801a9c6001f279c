import OcgeoFdw.Foundation.CIntegers
import Mathlib.Data.List.Pairwise

/-! # Clock readings

`gettimeofday` readings and the macro `TIMEVALDIFF`. The macro divides the difference of the
microsecond fields on its own, truncating towards zero, so it rounds up whenever that difference is
negative; `mul_timevalDiff_le` bounds the rounding by the seconds crossed. -/

namespace OcgeoFdw

open CInt

/-- `struct timeval`. -/
structure Timeval where
  tv_sec : ℤ
  tv_usec : ℤ
  deriving DecidableEq

namespace Timeval

/-- The microsecond field is in its range. -/
def Normalized (t : Timeval) : Prop := 0 ≤ t.tv_usec ∧ t.tv_usec < 1000000

instance (t : Timeval) : Decidable t.Normalized := inferInstanceAs (Decidable (_ ∧ _))

/-- The instant, in microseconds. -/
def micros (t : Timeval) : ℤ := 1000000 * t.tv_sec + t.tv_usec

/-- The instant plus 999 microseconds for every second boundary passed: what the limiter credits. -/
def credited (t : Timeval) : ℤ := t.micros + 999 * t.tv_sec

end Timeval

/-- `TIMEVALDIFF`: the difference in milliseconds. -/
def timevalDiff (end_ start : Timeval) : ℤ :=
  (end_.tv_sec - start.tv_sec) * 1000 + (end_.tv_usec - start.tv_usec).tdiv 1000

/-! ## What the macro measures -/

variable {start end_ : Timeval}

@[simp] theorem timevalDiff_self (t : Timeval) : timevalDiff t t = 0 := by simp [timevalDiff]

/-- Between ordered readings the difference is not negative. -/
theorem timevalDiff_nonneg (hstart : start.Normalized) (hend : end_.Normalized)
    (h : start.micros ≤ end_.micros) : 0 ≤ timevalDiff end_ start := by
  obtain ⟨hs₀, hs₁⟩ := hstart
  obtain ⟨he₀, he₁⟩ := hend
  unfold Timeval.micros at h
  rw [timevalDiff]
  by_cases hwrap : end_.tv_usec - start.tv_usec < 0
  · rw [tdiv_of_neg hwrap]
    omega
  · rw [tdiv_of_nonneg (not_lt.mp hwrap)]
    omega

/-- The milliseconds measured never exceed the time credited: the elapsed time and 999 microseconds
for every second boundary crossed. -/
theorem mul_timevalDiff_le (hstart : start.Normalized) (hend : end_.Normalized)
    (h : start.micros ≤ end_.micros) :
    1000 * timevalDiff end_ start ≤ end_.credited - start.credited := by
  obtain ⟨hs₀, hs₁⟩ := hstart
  obtain ⟨he₀, he₁⟩ := hend
  unfold Timeval.credited
  unfold Timeval.micros at h ⊢
  rw [timevalDiff]
  by_cases hwrap : end_.tv_usec - start.tv_usec < 0
  · -- the quotient rounds up, and then a second boundary lies in between
    rw [tdiv_of_neg hwrap]
    omega
  · rw [tdiv_of_nonneg (not_lt.mp hwrap)]
    omega

/-! ## Sequences of readings -/

/-- Normalized readings of a clock that never goes backwards. -/
structure OrderedClock (readings : List Timeval) : Prop where
  normalized : ∀ t ∈ readings, t.Normalized
  sorted : readings.Pairwise fun s t => s.micros ≤ t.micros

/-- Some readings of an ordered clock, in their order, are ordered. -/
theorem OrderedClock.sublist {readings chosen : List Timeval} (h : OrderedClock readings)
    (hsub : chosen.Sublist readings) : OrderedClock chosen :=
  ⟨fun t ht => h.normalized t (hsub.subset ht), h.sorted.sublist hsub⟩

/-- The same reading over and over is ordered. -/
theorem orderedClock_replicate {t : Timeval} (ht : t.Normalized) (n : ℕ) :
    OrderedClock (List.replicate n t) :=
  ⟨fun _ ha => (List.eq_of_mem_replicate ha).symm ▸ ht,
    List.pairwise_replicate.mpr (Or.inr le_rfl)⟩

/-- Ordered readings followed by later ordered readings are ordered. -/
theorem OrderedClock.append {readings later : List Timeval} (h : OrderedClock readings)
    (h' : OrderedClock later) (hle : ∀ s ∈ readings, ∀ t ∈ later, s.micros ≤ t.micros) :
    OrderedClock (readings ++ later) :=
  ⟨List.forall_mem_append.mpr ⟨h.normalized, h'.normalized⟩,
    List.pairwise_append.mpr ⟨h.sorted, h'.sorted, hle⟩⟩

/-- A later reading of an ordered clock measures a non-negative difference from the first one, and
no more than the time credited. -/
theorem OrderedClock.timevalDiff_le {ts t : Timeval} {readings : List Timeval}
    (h : OrderedClock (ts :: readings)) (ht : t ∈ readings) :
    0 ≤ timevalDiff t ts ∧ 1000 * timevalDiff t ts ≤ t.credited - ts.credited := by
  have hts := h.normalized ts List.mem_cons_self
  have htn := h.normalized t (List.mem_cons_of_mem ts ht)
  have hle := List.rel_of_pairwise_cons h.sorted ht
  exact ⟨timevalDiff_nonneg hts htn hle, mul_timevalDiff_le hts htn hle⟩

end OcgeoFdw
