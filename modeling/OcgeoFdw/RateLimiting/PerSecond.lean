import OcgeoFdw.RateLimiting.Schedules

/-! # Requests per second

The limiter counts periods since the last request, so a full bucket is spent on top of what a second
earns. `atMostPerSecond_iff` states how long after the previous request the next one has to start
for the documented bound of `M` requests in every second to hold. -/

namespace OcgeoFdw

open CInt

/-- At most `M` requests in every half-open window of one second. -/
def AtMostPerSecond (M : ℤ) (log : List Sent) : Prop :=
  ∀ w : ℤ, (log.countP fun e => decide (w ≤ e.ts.micros ∧ e.ts.micros < w + 1000000) : ℤ) ≤ M

/-- Consecutive requests are at least `g` microseconds apart. -/
def SpacedBy (g : ℤ) (log : List Sent) : Prop :=
  log.IsChain fun a b => a.ts.micros + g ≤ b.ts.micros

/-- Requests `g` microseconds apart, with `M * g` at least a second, respect the limit. -/
theorem SpacedBy.atMostPerSecond {M g : ℤ} {log : List Sent} (hM : 1 ≤ M) (hg : 0 ≤ g)
    (h : SpacedBy g log) (hMg : 1000000 ≤ M * g) : AtMostPerSecond M log := by
  intro w
  have hlen : (1000000 : ℤ) ≤ M.toNat • g := by
    rw [nsmul_eq_mul, Int.toNat_of_nonneg (by omega)]
    exact hMg
  have hcount := Amortized.countP_window_le hg h hlen w
  omega

/-! ## Requests that start apart -/

section Arrivals

variable {g : ℤ} {user_id : Oid} {limit : Oid → ℤ} {s s' t : Session} {call : Call} {e : Sent}
  {calls : List Call} {log : List Sent}

/-- The request starts at least `g` microseconds after the time stored for the user: its first clock
reading against `stats->ts`. -/
def ArrivesAfter (g : ℤ) (s : Session) (call : Call) : Prop :=
  ∀ stats start_time, s.counters call.table_options.user_id = some stats →
    s.clock.head? = some start_time → stats.ts.micros + g ≤ start_time.micros

/-- A request that starts `g` microseconds after the previous one is sent no earlier. -/
theorem ArrivesAfter.ts_le {stats : Counters} (harrives : ArrivesAfter g s call)
    (hclock : OrderedClock s.clock) (h : request s call = .ok (e, s'))
    (hstats : s.counters call.table_options.user_id = some stats) :
    stats.ts.micros + g ≤ e.ts.micros := by
  obtain ⟨⟨skipped, end_time, hsplit⟩, -⟩ := request_reads hclock h
  cases skipped with
  -- the request is sent at its first reading
  | nil =>
      apply harrives stats e.ts hstats
      rw [hsplit]
      rfl
  -- or at a later one, after a sleep
  | cons start_time skipped =>
      have hstart := harrives stats start_time hstats (by rw [hsplit]; rfl)
      rw [hsplit] at hclock
      have hle : start_time.micros ≤ e.ts.micros :=
        List.rel_of_pairwise_cons hclock.sorted (List.mem_append_right skipped List.mem_cons_self)
      exact hstart.trans hle

/-- Requests that start apart are sent apart. -/
theorem spacedBy_of_run (hclock : OrderedClock s.clock)
    (hcalls : ∀ call ∈ calls, CallOf user_id limit call)
    (harrives : EventRun.Along request (ArrivesAfter g) s calls)
    (hrun : EventRun.run request s calls = .ok (log, t)) : SpacedBy g log := by
  refine EventRun.isChain_outputs (I := fun s => OrderedClock s.clock)
    (L := fun e s => OrderedClock s.clock ∧ Holds user_id e s) ?_ ?_ hclock
    (harrives.and (EventRun.along_of_forall_mem hcalls s)) hrun
  · rintro s call e s' hclock ⟨-, rfl, -⟩ hstep
    exact (request_reads hclock hstep).2
  · rintro a s call b s' ⟨hclock, stored, hstored, -, hts⟩ ⟨harrives, rfl, -⟩ hstep
    refine ⟨?_, (request_reads hclock hstep).2⟩
    rw [← hts]
    exact harrives.ts_le hclock hstep hstored

/-- A request that does not sleep is sent at its first reading. -/
theorem head_clock_of_awake {stats : Counters} (h : request s call = .ok (e, s'))
    (hstats : s.counters call.table_options.user_id = some stats) (hawake : e.sleeps = []) :
    s.clock.head? = some e.ts := by
  obtain ⟨stats', s₁, admission, end_time, hget, hloop, -, rfl⟩ := request_cases h
  have hsame : s₁.clock = s.clock := by
    rcases ocgeoGetCounters_cases hget with ⟨-, ⟨-, hsame⟩ | ⟨hnone, -⟩⟩
    · exact hsame
    · rw [hnone] at hstats
      cases hstats
  rw [← hsame, clock_eq_of_awake hloop hawake]
  rfl

/-- Requests that are sent apart, without sleeping, start apart. -/
theorem along_arrivesAfter_of_spacedBy (hnew : s.counters user_id = none)
    (hclock : OrderedClock s.clock) (hcalls : ∀ call ∈ calls, CallOf user_id limit call)
    (hrun : EventRun.run request s calls = .ok (log, t)) (hspaced : SpacedBy g log)
    (hawake : ∀ e ∈ log, e.sleeps = []) :
    EventRun.Along request (ArrivesAfter g) s calls := by
  have hchain : log.IsChain fun a b => a.ts.micros + g ≤ b.ts.micros ∧ b.sleeps = [] :=
    hspaced.imp_of_mem_imp fun a b _ hb hab => ⟨hab, hawake b hb⟩
  refine EventRun.along_of_isChain_outputs
    (I := fun s => OrderedClock s.clock ∧ s.counters user_id = none)
    (L := fun e s => OrderedClock s.clock ∧ Holds user_id e s) ?_ ?_ ⟨hclock, hnew⟩
    (EventRun.along_of_forall_mem hcalls s) hrun hchain
  · rintro s call e s' ⟨hclock, hnew⟩ ⟨rfl, -⟩ hstep
    refine ⟨?_, (request_reads hclock hstep).2⟩
    intro stats start_time hstats
    rw [hnew] at hstats
    cases hstats
  · rintro a s call b s' ⟨hclock, stored, hstored, -, hts⟩ ⟨rfl, -⟩ hstep ⟨hab, hawake⟩
    refine ⟨?_, (request_reads hclock hstep).2⟩
    intro stats start_time hstats hhead
    obtain rfl := Option.some.inj (hstored.symm.trans hstats)
    rw [head_clock_of_awake hstep hstored hawake] at hhead
    obtain rfl := Option.some.inj hhead
    rw [hts]
    exact hab

end Arrivals

/-! ## A burst that exceeds the limit -/

section Ticks

variable {g : ℤ} {n : ℕ} {t : Timeval}

/-- The `n` instants after `t`, `g` microseconds apart. -/
def ticks (g : ℤ) : ℕ → Timeval → List Timeval
  | 0, _ => []
  | n + 1, t => ⟨t.tv_sec, t.tv_usec + g⟩ :: ticks g n ⟨t.tv_sec, t.tv_usec + g⟩

@[simp] theorem length_ticks (g : ℤ) (n : ℕ) (t : Timeval) : (ticks g n t).length = n := by
  induction n generalizing t with
  | zero => rfl
  | succ n ih => rw [ticks, List.length_cons, ih]

theorem isChain_ticks (g : ℤ) (n : ℕ) (t : Timeval) :
    (t :: ticks g n t).IsChain fun a b => b = ⟨a.tv_sec, a.tv_usec + g⟩ := by
  induction n generalizing t with
  | zero => exact List.isChain_singleton t
  | succ n ih => exact List.isChain_cons_cons.mpr ⟨rfl, ih _⟩

theorem getLast_ticks (g : ℤ) (n : ℕ) (t : Timeval) :
    (t :: ticks g n t).getLast (List.cons_ne_nil _ _) = ⟨t.tv_sec, t.tv_usec + n * g⟩ := by
  induction n generalizing t with
  | zero => simp [ticks]
  | succ n ih =>
      rw [ticks, List.getLast_cons_cons, ih]
      congr 1
      push_cast
      ring

theorem mem_ticks (hg : 0 ≤ g) {a : Timeval} (ha : a ∈ t :: ticks g n t) :
    a.tv_sec = t.tv_sec ∧ t.tv_usec ≤ a.tv_usec ∧ a.tv_usec ≤ t.tv_usec + n * g := by
  induction n generalizing t with
  | zero =>
      obtain rfl : a = t := by simpa [ticks] using ha
      simp
  | succ n ih =>
      push_cast
      have hgn : 0 ≤ n * g := mul_nonneg (Int.natCast_nonneg n) hg
      rcases List.mem_cons.mp ha with rfl | ha
      · refine ⟨rfl, le_rfl, ?_⟩
        linarith
      · obtain ⟨hsec, hlow, hhigh⟩ := ih ha
        simp only at hsec hlow hhigh
        exact ⟨hsec, by omega, by linarith⟩

/-- The instants of a burst: `n + 1` ticks from the first microsecond of a second, and the next full
second. -/
def burst (g : ℤ) (n : ℕ) : List Timeval := (⟨0, 1⟩ :: ticks g n ⟨0, 1⟩) ++ [⟨1, 0⟩]

/-- The last tick lies within the second. -/
theorem lastTick_lt (hg : 0 ≤ g) (hfits : (n + 1) * g < 1000000) : 1 + n * g < 1000000 := by
  rw [add_mul, one_mul] at hfits
  rcases hg.eq_or_lt with rfl | hg
  · simp
  · omega

/-- The instants of a burst are normalized and lie within one second of the first. -/
theorem mem_burst (hg : 0 ≤ g) (hfits : (n + 1) * g < 1000000) (ht : t ∈ burst g n) :
    t.Normalized ∧ 1 ≤ t.micros ∧ t.micros ≤ 1000000 := by
  have hlast := lastTick_lt hg hfits
  rcases List.mem_append.mp ht with ht | ht
  · obtain ⟨hsec, hlow, hhigh⟩ := mem_ticks hg ht
    simp only at hsec hlow hhigh
    rw [Timeval.Normalized, Timeval.micros]
    omega
  · rw [List.mem_singleton.mp ht]
    norm_num [Timeval.Normalized, Timeval.micros]

/-- The instants of a burst are `g` microseconds apart. -/
theorem isChain_burst (hfits : (n + 1) * g < 1000000) :
    (burst g n).IsChain fun a b => a.micros + g ≤ b.micros := by
  refine List.isChain_append.mpr ⟨(isChain_ticks g n ⟨0, 1⟩).imp ?_, List.isChain_singleton _, ?_⟩
  · rintro a b rfl
    unfold Timeval.micros
    simp only
    omega
  · intro a ha b hb
    rw [List.getLast?_eq_some_getLast (List.cons_ne_nil _ _), getLast_ticks] at ha
    obtain rfl : (⟨0, 1 + n * g⟩ : Timeval) = a := by simpa using ha
    obtain rfl : (⟨1, 0⟩ : Timeval) = b := by simpa using hb
    unfold Timeval.micros
    simp only
    linarith

/-- The instants of a burst are ordered. -/
theorem orderedClock_burst (hg : 0 ≤ g) (hfits : (n + 1) * g < 1000000) :
    OrderedClock (burst g n) := by
  refine ⟨fun t ht => (mem_burst hg hfits ht).1, ?_⟩
  have : Trans (fun a b : Timeval => a.micros ≤ b.micros)
      (fun a b : Timeval => a.micros ≤ b.micros) (fun a b : Timeval => a.micros ≤ b.micros) :=
    ⟨fun hab hbc => le_trans hab hbc⟩
  refine List.isChain_iff_pairwise.mp ((isChain_burst hfits).imp fun a b hab => ?_)
  linarith

/-- Requests sent at the instants of a burst are `g` microseconds apart. -/
theorem spacedBy_of_burst {log : List Sent} (hfits : (n + 1) * g < 1000000)
    (hinstants : log.map Sent.ts = burst g n) : SpacedBy g log := by
  have hchain := isChain_burst hfits
  rw [← hinstants, List.isChain_map] at hchain
  exact hchain

/-- Requests sent at the instants of a burst are `n + 2` within a second. -/
theorem not_atMostPerSecond_of_burst {log : List Sent} (hg : 0 ≤ g) (hfits : (n + 1) * g < 1000000)
    (hinstants : log.map Sent.ts = burst g n) : ¬ AtMostPerSecond (n + 1) log := by
  intro hbound
  -- they all lie in the window that starts with the first
  have hwindow : ∀ e ∈ log, 1 ≤ e.ts.micros ∧ e.ts.micros < 1 + 1000000 := by
    intro e he
    have he' : e.ts ∈ burst g n := hinstants ▸ List.mem_map_of_mem he
    obtain ⟨-, hlow, hhigh⟩ := mem_burst hg hfits he'
    omega
  have hcount := hbound 1
  rw [Amortized.countP_window_eq_length hwindow, ← List.length_map Sent.ts, hinstants] at hcount
  simp only [burst, List.length_append, List.length_cons, length_ticks, List.length_nil] at hcount
  omega

end Ticks

/-- Whatever part of a second a burst of `M` requests took, a period has passed by the next full
second, as the macro measures it. -/
theorem period_le_timevalDiff {M g : ℤ} (hM : 1 ≤ M) (hg : 0 ≤ g) (hMg : M * g < 1000000) :
    1000 / M ≤ timevalDiff ⟨1, 0⟩ ⟨0, 1 + (M - 1) * g⟩ := by
  have hspent : 0 ≤ (M - 1) * g := mul_nonneg (by omega) hg
  have hP : 1000 / M * M ≤ 1000 := Int.ediv_mul_le 1000 (by omega)
  rw [timevalDiff]
  simp only
  rw [tdiv_of_neg (by omega)]
  by_contra hlate
  have hlate' : 1000 * (1001 - 1000 / M) ≤ 1 + (M - 1) * g := by omega
  nlinarith [mul_le_mul_of_nonneg_left hlate' (show 0 ≤ M by omega)]

/-- **A burst beyond the limit.** When `M * g` is less than a second, a user with limit `M` can send
`M` requests that are `g` microseconds apart, and one more at the next full second, all within one
second of the first. -/
theorem exists_burst {M g : ℤ} (hM : 1 ≤ M) (hM' : M ≤ 1000) (hg : 0 ≤ g) (hMg : M * g < 1000000)
    {call : Call} {user_id : Oid} (hcall : CallOf user_id (fun _ => M) call) :
    ∃ (s t : Session) (calls : List Call) (log : List Sent), s.counters user_id = none ∧
      OrderedClock s.clock ∧ (∀ c ∈ calls, CallOf user_id (fun _ => M) c) ∧
      EventRun.run request s calls = .ok (log, t) ∧
      EventRun.Along request (ArrivesAfter g) s calls ∧ ¬ AtMostPerSecond M log := by
  obtain ⟨n, rfl⟩ : ∃ n : ℕ, M = n + 1 := ⟨(M - 1).toNat, by omega⟩
  obtain ⟨huser, hlimit⟩ := hcall
  have hgn : 0 ≤ (n : ℤ) * g := mul_nonneg (Int.natCast_nonneg n) hg
  have hordered := orderedClock_burst hg hMg
  set first : Timeval := ⟨0, 1⟩ with hfirst
  set times := ticks g n first with htimes
  set next : Timeval := ⟨1, 0⟩ with hnext
  have hclock : (Session.start (clockFor first (times ++ [next]))).clock =
      first :: first :: first :: (times.flatMap (fun t => [t, t]) ++ [next, next]) := by
    simp [Session.start, clockFor, List.flatMap_append]
  -- the whole bucket at the ticks, then one more request at the full second
  obtain ⟨s₁, hsends₁, hbucket₁⟩ := sends_first hM hM' huser hlimit rfl hclock
  obtain ⟨s₂, tokens, hsends₂, hlow, hhigh, hbucket₂⟩ := sends_burst hM hM' huser hlimit hbucket₁
    (hordered.sublist (List.sublist_append_left (first :: times) [next]))
    (fun t ht => (mem_ticks hg (List.mem_cons_of_mem first ht)).1)
    (by rw [htimes, length_ticks]; omega) (by omega) (by rw [htimes, length_ticks]; omega)
  rw [htimes, getLast_ticks] at hbucket₂
  have hlate : period (n + 1) ≤ timevalDiff next ⟨0, 1 + n * g⟩ := by
    rw [period_of_pos (by omega)]
    simpa using period_le_timevalDiff hM hg hMg
  have hwithin : timevalDiff next ⟨0, 1 + n * g⟩ ≤ 1000 := by
    rw [hnext, timevalDiff, tdiv_of_neg (by simp only; omega)]
    simp only
    omega
  have hperiod := (period_pos_iff _).mpr hM'
  have hearned : 1 ≤ (timevalDiff next ⟨0, 1 + n * g⟩).tdiv (period (n + 1)) := by
    rw [tdiv_of_nonneg (by omega), Int.le_ediv_iff_mul_le (by omega), one_mul]
    exact hlate
  have hearned' : (timevalDiff next ⟨0, 1 + n * g⟩).tdiv (period (n + 1)) ≤ 1000 := by
    rw [tdiv_of_nonneg (by omega)]
    exact (Int.ediv_le_self _ (by omega)).trans hwithin
  obtain ⟨s₃, hsends₃, -⟩ := sends_next hM hM' huser hlimit hbucket₂ (by
      show 1 ≤ tokens + (timevalDiff next ⟨0, 1 + n * g⟩).tdiv _
      omega) (by
      show tokens + (timevalDiff next ⟨0, 1 + n * g⟩).tdiv _ ≤ intMax
      norm_num [intMax]
      omega)
  obtain ⟨⟨log, hrun, hlog, hawake⟩, -⟩ := (hsends₁.append hsends₂).append hsends₃
  have hinstants : log.map Sent.ts = burst g n := by
    have := congrArg (List.map Prod.snd) hlog
    show log.map (fun e => e.ts) = first :: (times ++ [next])
    simpa [List.map_map, Function.comp_def] using this
  have hcalls : ∀ c ∈ [call] ++ (times.map fun _ => call) ++ [call],
      CallOf user_id (fun _ => (n : ℤ) + 1) c := by
    simp only [List.mem_append, List.mem_singleton, List.mem_map]
    rintro c ((rfl | ⟨-, -, rfl⟩) | rfl) <;> exact ⟨huser, hlimit⟩
  have hreadings := orderedClock_clockFor hordered
  have harrives := along_arrivesAfter_of_spacedBy rfl hreadings hcalls hrun
    (spacedBy_of_burst hMg hinstants) hawake
  exact ⟨_, s₃, _, log, rfl, hreadings, hcalls, hrun, harrives,
    not_atMostPerSecond_of_burst hg hMg hinstants⟩

/-- **Requests per second.** For a limit `M` in range and a spacing `g`: every run of a new user's
requests that each start at least `g` microseconds after the previous one sends at most `M` of them
in every second if and only if `M * g` is at least a second. -/
theorem atMostPerSecond_iff {M g : ℤ} (hM : 1 ≤ M) (hM' : M ≤ 1000) (hg : 0 ≤ g) (user_id : Oid) :
    (∀ (s t : Session) (calls : List Call) (log : List Sent), s.counters user_id = none →
      OrderedClock s.clock → (∀ call ∈ calls, CallOf user_id (fun _ => M) call) →
      EventRun.Along request (ArrivesAfter g) s calls →
      EventRun.run request s calls = .ok (log, t) → AtMostPerSecond M log) ↔
      1000000 ≤ M * g := by
  constructor
  · intro h
    by_contra hMg
    have hcall : CallOf user_id (fun _ => M)
        ⟨⟨0, user_id, none, none, M, 2500⟩, ⟨false, .zeroed none⟩⟩ := ⟨rfl, rfl⟩
    obtain ⟨s, t, calls, log, hnew, hclock, hcalls, hrun, harrives, hburst⟩ :=
      exists_burst hM hM' hg (not_le.mp hMg) hcall
    exact hburst (h s t calls log hnew hclock hcalls harrives hrun)
  · intro hMg s t calls log _ hclock hcalls harrives hrun
    exact (spacedBy_of_run hclock hcalls harrives hrun).atMostPerSecond hM hg hMg

/-- At 25 requests a second, requests 40 ms apart respect the limit. -/
theorem atMostPerSecond_twenty_five :
    (∀ (s t : Session) (calls : List Call) (log : List Sent), s.counters 10 = none →
      OrderedClock s.clock → (∀ call ∈ calls, CallOf 10 (fun _ => 25) call) →
      EventRun.Along request (ArrivesAfter 40000) s calls →
      EventRun.run request s calls = .ok (log, t) → AtMostPerSecond 25 log) ↔
      1000000 ≤ (25 : ℤ) * 40000 :=
  atMostPerSecond_iff (by norm_num) (by norm_num) (by norm_num) 10

/-- With a limit of two, two requests at once and a third half a second later. -/
theorem atMostPerSecond_fails_for_two :
    ∃ (t : Session) (log : List Sent),
      OrderedClock [⟨0, 0⟩, ⟨0, 0⟩, ⟨0, 0⟩, ⟨0, 0⟩, ⟨0, 0⟩, ⟨0, 500000⟩, ⟨0, 500000⟩] ∧
      EventRun.run request
        (.start [⟨0, 0⟩, ⟨0, 0⟩, ⟨0, 0⟩, ⟨0, 0⟩, ⟨0, 0⟩, ⟨0, 500000⟩, ⟨0, 500000⟩])
        (List.replicate 3 ⟨⟨1, 10, none, none, 2, 2500⟩, ⟨false, .zeroed none⟩⟩) = .ok (log, t) ∧
      ¬ AtMostPerSecond 2 log := by
  refine ⟨_, _, ⟨by decide, by decide⟩, rfl, fun h => ?_⟩
  exact absurd (h 0) (by decide)

end OcgeoFdw
