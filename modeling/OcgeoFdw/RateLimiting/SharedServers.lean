import OcgeoFdw.RateLimiting.Schedules

/-! # Two servers, one bucket

The counters are keyed by the user alone, so the requests through two servers of one user draw on
one bucket, each refilling and capping it by its own limit. `ownBounds_iff` states for which pairs
of limits every server still satisfies its own bucket bound under every interleaving. -/

namespace OcgeoFdw

open CInt

/-- The requests through server `X`, taken alone, satisfy the bucket bound of limit `M`. -/
def OwnBound (X : Oid) (M : ℤ) (log : List Sent) : Prop :=
  ∀ (i j : ℕ) (hij : i < j) (hj : j < (log.filter fun e => decide (e.server_id = X)).length),
    (j : ℤ) - i ≤ (M - 1) +
      (((log.filter fun e => decide (e.server_id = X))[j].ts.micros -
          (log.filter fun e => decide (e.server_id = X))[i].ts.micros) +
        999 * ((log.filter fun e => decide (e.server_id = X))[j].ts.tv_sec -
          (log.filter fun e => decide (e.server_id = X))[i].ts.tv_sec)) / (1000 * (1000 / M))

/-- A call of the user through `X` with limit `M_X` or through `Y` with limit `M_Y`. -/
def ThroughEither (user_id X : Oid) (M_X : ℤ) (Y : Oid) (M_Y : ℤ) (call : Call) : Prop :=
  call.table_options.user_id = user_id ∧
    ((call.table_options.server_id = X ∧ call.table_options.max_reqs_sec = M_X) ∨
      (call.table_options.server_id = Y ∧ call.table_options.max_reqs_sec = M_Y))

/-- The order of the two servers does not matter. -/
theorem ThroughEither.symm {user_id X Y : Oid} {M_X M_Y : ℤ} {call : Call}
    (h : ThroughEither user_id X M_X Y M_Y call) : ThroughEither user_id Y M_Y X M_X call :=
  ⟨h.1, h.2.symm⟩

/-! ## When the bound of one server holds -/

section Potential

variable {M_X M_Y P_X P_Y : ℤ}

/-- A request under the own limit pays for its token. -/
theorem own_request_pays {tokens permits work : ℤ} (hP : 0 ≤ P_X) (hle : tokens ≤ permits)
    (hearned : 1000 * P_X * (permits - tokens) ≤ work) :
    1000 * P_X * (min (min M_X permits - 1) M_X + 1) ≤ 1000 * P_X * min tokens M_X + work := by
  have hgain : min (min M_X permits - 1) M_X + 1 ≤ min tokens M_X + (permits - tokens) := by omega
  have := mul_le_mul_of_nonneg_left hgain (mul_nonneg (by norm_num : (0 : ℤ) ≤ 1000) hP)
  linarith

/-- A request under the other limit does not fill the own bucket beyond what the time earns: the
gain is at most `min (M_X + 1) M_Y - 1` tokens, and it took a period of the other server more. -/
theorem other_request_pays {tokens permits work : ℤ} (hPX : 0 < P_X) (hPY : 0 < P_Y)
    (htokens : 0 ≤ tokens) (hle : tokens ≤ permits)
    (hearned : 1000 * P_Y * (permits - tokens) ≤ work)
    (hlimits : min (M_X + 1) M_Y * (P_X - P_Y) ≤ P_X) :
    1000 * P_X * min (min M_Y permits - 1) M_X ≤ 1000 * P_X * min tokens M_X + work := by
  set gain := min (min M_Y permits - 1) M_X - min tokens M_X with hgain
  have hwork : 0 ≤ work :=
    (mul_nonneg (mul_nonneg (by norm_num) hPY.le) (by omega)).trans hearned
  suffices h : 1000 * P_X * gain ≤ work by
    rw [hgain, mul_sub] at h
    linarith
  by_cases hpos : gain ≤ 0
  · exact (mul_nonpos_of_nonneg_of_nonpos (by omega) hpos).trans hwork
  · -- the gain costs one period of the other server more than it is
    have hcost : 1000 * P_Y * (gain + 1) ≤ work :=
      (mul_le_mul_of_nonneg_left (by omega) (by omega)).trans hearned
    have hbound : gain + 1 ≤ min (M_X + 1) M_Y := by omega
    have hratio : P_X * gain ≤ P_Y * (gain + 1) := by
      by_cases hslower : P_X ≤ P_Y
      · nlinarith
      · have := mul_le_mul_of_nonneg_right hbound (by omega : 0 ≤ P_X - P_Y)
        linarith
    linarith

end Potential

/-- If the limits are compatible, server `X` keeps its own bound under every interleaving. -/
theorem ownBound_of_limits {X Y user_id : Oid} {M_X M_Y : ℤ} (hX : 1 ≤ M_X) (hX' : M_X ≤ 1000)
    (hY : 1 ≤ M_Y) (hY' : M_Y ≤ 1000) (hXY : X ≠ Y)
    (hlimits : min (M_X + 1) M_Y * (1000 / M_X - 1000 / M_Y) ≤ 1000 / M_X) {s t : Session}
    {calls : List Call} {log : List Sent} (hnew : s.counters user_id = none)
    (hclock : OrderedClock s.clock)
    (hcalls : ∀ call ∈ calls, ThroughEither user_id X M_X Y M_Y call)
    (hfit : PermitsFitAlong s calls) (hrun : EventRun.run request s calls = .ok (log, t)) :
    OwnBound X M_X log := by
  set limit : Oid → ℤ := fun Z => if Z = X then M_X else M_Y with hlimit
  have hrange : ∀ Z, 1 ≤ limit Z ∧ limit Z ≤ 1000 := by
    intro Z
    simp only [hlimit]
    split <;> omega
  have hcallsOf : ∀ call ∈ calls, CallOf user_id limit call := by
    intro call hcall
    rcases hcalls call hcall with ⟨huser, ⟨hserver, hmax⟩ | ⟨hserver, hmax⟩⟩
    · exact ⟨huser, by rw [hmax, hserver]; exact (if_pos rfl).symm⟩
    · exact ⟨huser, by rw [hmax, hserver]; exact (if_neg hXY.symm).symm⟩
  have hready : BucketReady user_id s := .of_no_entry hnew hclock
  have htokens := tokens_of_run hrange hready hcallsOf hfit hrun
  have hPX := one_le_div_of_le hX hX'
  have hPY := one_le_div_of_le hY hY'
  -- the potential is the bucket as far as `X` can use it
  have hchain : log.IsChain fun a b =>
      1000 * (1000 / M_X) * (min b.tokens M_X + if decide (b.server_id = X) then 1 else 0) ≤
        1000 * (1000 / M_X) * min a.tokens M_X + (b.ts.credited - a.ts.credited) := by
    apply (isChain_admits hrange hready hcallsOf hfit hrun).imp_of_mem_imp
    intro a b ha _ hab
    have hle := hab.tokens_le
    have hearned := hab.earned
    rw [hab.tokens_eq]
    by_cases hserver : b.server_id = X
    · rw [hlimit, hserver] at hearned ⊢
      simp only [if_true, decide_true] at hearned ⊢
      exact own_request_pays (by omega) hle hearned
    · rw [hlimit] at hearned ⊢
      simp only [if_neg hserver, decide_eq_false hserver, Bool.false_eq_true, if_false,
        add_zero] at hearned ⊢
      exact other_request_pays (by omega) (by omega) (htokens a ha).1 hle hearned hlimits
  have hlow : ∀ e ∈ log, decide (e.server_id = X) = true → 0 ≤ min e.tokens M_X := fun e he _ => by
    have := (htokens e he).1
    omega
  have hcap : ∀ e ∈ log, decide (e.server_id = X) = true → min e.tokens M_X ≤ M_X - 1 :=
    fun e he hserver => by
      have := (htokens e he).2
      simp only [hlimit, of_decide_eq_true hserver, if_true] at this
      omega
  intro i j hij hj
  have hbound := TokenBucket.sub_le_of_isChain (show 0 < 1000 * (1000 / M_X) by omega) hchain hlow
    hcap hij.le (by omega) hj
  simp only [Timeval.credited] at hbound
  convert hbound using 3
  ring

/-! ## When it does not -/

section Overdraft

variable {X Y user_id : Oid} {M_X M_Y : ℤ} {n : ℕ}

/-- `n` periods of `P` milliseconds after the epoch. -/
def afterPeriods (n : ℕ) (P : ℤ) : Timeval := ⟨n * P / 1000, n * P % 1000 * 1000⟩

theorem afterPeriods_normalized (n : ℕ) (P : ℤ) : (afterPeriods n P).Normalized := by
  rw [afterPeriods, Timeval.Normalized]
  simp only
  omega

@[simp] theorem timevalDiff_afterPeriods (n : ℕ) (P : ℤ) :
    timevalDiff (afterPeriods n P) ⟨0, 0⟩ = n * P := by
  rw [timevalDiff, afterPeriods]
  simp only [sub_zero]
  rw [tdiv_of_nonneg (by omega)]
  omega

@[simp] theorem micros_afterPeriods (n : ℕ) (P : ℤ) :
    (afterPeriods n P).micros = 1000 * (n * P) := by
  rw [afterPeriods, Timeval.micros]
  simp only
  omega

/-- The requests of an overdraft: `M_X` through `X` at the epoch, one through `Y` after `n` periods
of `Y`, and `n - 1` more through `X` at once. -/
def overdraft (X Y : Oid) (m n : ℕ) (P : ℤ) : List (Oid × Timeval) :=
  (X, ⟨0, 0⟩) :: List.replicate m (X, ⟨0, 0⟩) ++
    ((Y, afterPeriods (n + 1) P) :: List.replicate n (X, afterPeriods (n + 1) P))

/-- An overdraft is feasible as long as the bucket holds the tokens that `Y` earned. -/
theorem exists_overdraft {m : ℕ} (hX : M_X = m + 1) (hX' : M_X ≤ 1000) (hY : 1 ≤ M_Y)
    (hY' : M_Y ≤ 1000) (hnX : n ≤ M_X) (hnY : n + 1 ≤ M_Y) :
    ∃ (s t : Session) (calls : List Call) (log : List Sent), s.counters user_id = none ∧
      OrderedClock s.clock ∧ (∀ call ∈ calls, ThroughEither user_id X M_X Y M_Y call) ∧
      PermitsFitAlong s calls ∧ EventRun.run request s calls = .ok (log, t) ∧
      log.map (fun e => (e.server_id, e.ts)) = overdraft X Y m n (1000 / M_Y) := by
  set callX : Call := ⟨⟨X, user_id, none, none, M_X, 2500⟩, ⟨false, .zeroed none⟩⟩ with hcallX
  set callY : Call := ⟨⟨Y, user_id, none, none, M_Y, 2500⟩, ⟨false, .zeroed none⟩⟩ with hcallY
  have huserX : callX.table_options.user_id = user_id := rfl
  have huserY : callY.table_options.user_id = user_id := rfl
  have hmaxX : callX.table_options.max_reqs_sec = M_X := rfl
  have hmaxY : callY.table_options.max_reqs_sec = M_Y := rfl
  set epoch : Timeval := ⟨0, 0⟩ with hepoch
  set later := afterPeriods (n + 1) (1000 / M_Y) with hlater
  have hPY := one_le_div_of_le hY hY'
  have hepochOk : epoch.Normalized := by norm_num [hepoch, Timeval.Normalized]
  have hlaterOk : later.Normalized := afterPeriods_normalized _ _
  have hordered : OrderedClock
      (epoch :: (List.replicate m epoch ++ later :: List.replicate n later)) := by
    refine (orderedClock_replicate hepochOk (m + 1)).append
      (orderedClock_replicate hlaterOk (n + 1)) fun s hs t ht => ?_
    rw [List.eq_of_mem_replicate (n := m + 1) hs, List.eq_of_mem_replicate (n := n + 1) ht, hlater,
      micros_afterPeriods]
    have : 0 ≤ ((n + 1 : ℕ) : ℤ) * (1000 / M_Y) := mul_nonneg (by omega) (by omega)
    simp only [hepoch, Timeval.micros]
    omega
  set readings := (List.replicate n later).flatMap (fun t => [t, t]) with hreadings
  have hclock : (Session.start (clockFor epoch
      (List.replicate m epoch ++ later :: List.replicate n later))).clock =
      epoch :: epoch :: epoch ::
        ((List.replicate m epoch).flatMap (fun t => [t, t]) ++ later :: later :: readings) := by
    simp [Session.start, clockFor, List.flatMap_append, hreadings]
  -- the own bucket is spent at the epoch
  obtain ⟨s₁, hsends₁, hbucket₁⟩ := sends_first (by omega) hX' huserX hmaxX rfl hclock
  obtain ⟨s₂, tokens, hsends₂, hlow, hhigh, hbucket₂⟩ := sends_burst (by omega) hX' huserX
    hmaxX hbucket₁ (orderedClock_replicate hepochOk (m + 1))
    (fun t ht => by rw [List.eq_of_mem_replicate ht]) (by rw [List.length_replicate]; omega)
    (by omega) (by rw [List.length_replicate]; omega)
  have hlastEpoch : (epoch :: List.replicate m epoch).getLast (List.cons_ne_nil _ _) = epoch :=
    List.eq_of_mem_replicate (n := m + 1) (List.getLast_mem _)
  rw [hlastEpoch] at hbucket₂
  -- the other server refills it by `n + 1` tokens and takes one
  have hearned : (timevalDiff later epoch).tdiv (period M_Y) = n + 1 := by
    rw [hlater, hepoch, timevalDiff_afterPeriods, period_of_pos (by omega)]
    push_cast
    exact Int.mul_tdiv_cancel _ (by omega)
  obtain ⟨s₃, hsends₃, hbucket₃⟩ := sends_next hY hY' huserY hmaxY hbucket₂
    (by rw [hearned]; omega) (by rw [hearned]; norm_num [intMax]; omega)
  rw [hearned] at hbucket₃
  -- the rest goes through the own server at the same instant
  rw [← List.append_nil readings] at hbucket₃
  obtain ⟨s₄, -, hsends₄, -, -, -⟩ := sends_burst (by omega) hX' huserX hmaxX
    hbucket₃ (orderedClock_replicate hlaterOk (n + 1))
    (fun t ht => by rw [List.eq_of_mem_replicate ht]) (by rw [List.length_replicate]; omega)
    (by omega) (by rw [List.length_replicate]; exact hnX)
  obtain ⟨⟨log, hrun, hlog, -⟩, hfit⟩ := ((hsends₁.append hsends₂).append hsends₃).append hsends₄
  refine ⟨_, s₄, _, log, rfl, orderedClock_clockFor hordered, ?_, hfit, hrun, ?_⟩
  · simp only [List.mem_append, List.mem_singleton, List.mem_map]
    rintro call (((rfl | ⟨-, -, rfl⟩) | rfl) | ⟨-, -, rfl⟩)
    · exact ⟨rfl, Or.inl ⟨rfl, rfl⟩⟩
    · exact ⟨rfl, Or.inl ⟨rfl, rfl⟩⟩
    · exact ⟨rfl, Or.inr ⟨rfl, rfl⟩⟩
    · exact ⟨rfl, Or.inl ⟨rfl, rfl⟩⟩
  · rw [hlog]
    simp [overdraft, List.map_replicate, hcallX, hcallY, hepoch, hlater]

/-- The own requests of an overdraft, by time. -/
theorem ownTimes_overdraft {m : ℕ} {P : ℤ} {log : List Sent} (hXY : X ≠ Y)
    (hlog : log.map (fun e => (e.server_id, e.ts)) = overdraft X Y m n P) :
    (log.filter fun e => decide (e.server_id = X)).map Sent.ts =
      List.replicate (m + 1) ⟨0, 0⟩ ++ List.replicate n (afterPeriods (n + 1) P) := by
  have hown : (overdraft X Y m n P).filter (fun p => decide (p.1 = X)) =
      List.replicate (m + 1) (X, ⟨0, 0⟩) ++ List.replicate n (X, afterPeriods (n + 1) P) := by
    simp [overdraft, List.filter_append, hXY.symm, List.replicate_succ]
  rw [← hlog, List.filter_map] at hown
  have htimes := congrArg (List.map Prod.snd) hown
  simpa [List.map_map, Function.comp_def, List.map_append, List.map_replicate] using htimes

/-- An overdraft breaks the own bound when the other server earns `n + 1` tokens before the own one
earns `n`. -/
theorem not_ownBound_of_overdraft {m : ℕ} {P : ℤ} {log : List Sent} (hX : M_X = m + 1)
    (hX' : M_X ≤ 1000) (hXY : X ≠ Y) (hn : 1 ≤ n) (hspan : (n + 1 : ℕ) * P ≤ 1000)
    (hfaster : (n + 1 : ℕ) * P < n * (1000 / M_X))
    (hlog : log.map (fun e => (e.server_id, e.ts)) = overdraft X Y m n P) :
    ¬ OwnBound X M_X log := by
  intro hbound
  rw [OwnBound] at hbound
  have htimes := ownTimes_overdraft hXY hlog
  have hPX := one_le_div_of_le (M := M_X) (by omega) hX'
  set own := log.filter fun e => decide (e.server_id = X)
  have hlen : own.length = m + 1 + n := by
    rw [← List.length_map Sent.ts, htimes]
    simp
  have htime : ∀ (i : ℕ) (hi : i < own.length), (List.replicate (m + 1) ⟨0, 0⟩ ++
      List.replicate n (afterPeriods (n + 1) P))[i]? = some own[i].ts := by
    intro i hi
    rw [← htimes, List.getElem?_map, List.getElem?_eq_getElem hi]
    rfl
  have h₀ : 0 < own.length := by omega
  have hmn : m + n < own.length := by omega
  have hfirst : own[0].ts = ⟨0, 0⟩ := by
    have := htime 0 h₀
    simpa using this.symm
  have hlast : own[m + n].ts = afterPeriods (n + 1) P := by
    have := htime (m + n) hmn
    rw [List.getElem?_append_right (by rw [List.length_replicate]; omega),
      List.getElem?_replicate_of_lt (by rw [List.length_replicate]; omega)] at this
    exact (Option.some.inj this).symm
  have hk := hbound 0 (m + n) (by omega) hmn
  rw [hfirst, hlast, micros_afterPeriods] at hk
  have hspent : (n : ℤ) ≤ (1000 * ((n + 1 : ℕ) * P) + 999 * ((n + 1 : ℕ) * P / 1000)) /
      (1000 * (1000 / M_X)) := by
    simp only [Timeval.micros, afterPeriods] at hk
    push_cast at hk ⊢
    simp only [sub_zero] at hk
    omega
  rw [Int.le_ediv_iff_mul_le (by omega)] at hspent
  -- the second boundary that may lie in between does not make up for the missing periods
  have hboundary : (n + 1 : ℕ) * P / 1000 ≤ 1 := by omega
  have : (n : ℤ) * (1000 * (1000 / M_X)) = 1000 * (n * (1000 / M_X)) := by ring
  omega

end Overdraft

/-! ## The compatible limits -/

/-- The bound of one server holds under every interleaving exactly for the limits that satisfy its
inequality. -/
theorem ownBound_iff {X Y : Oid} {M_X M_Y : ℤ} (hX : 1 ≤ M_X) (hX' : M_X ≤ 1000) (hY : 1 ≤ M_Y)
    (hY' : M_Y ≤ 1000) (hXY : X ≠ Y) (user_id : Oid) :
    (∀ (s t : Session) (calls : List Call) (log : List Sent), s.counters user_id = none →
      OrderedClock s.clock → (∀ call ∈ calls, ThroughEither user_id X M_X Y M_Y call) →
      PermitsFitAlong s calls → EventRun.run request s calls = .ok (log, t) →
      OwnBound X M_X log) ↔
      min (M_X + 1) M_Y * (1000 / M_X - 1000 / M_Y) ≤ 1000 / M_X := by
  constructor
  · intro h
    by_contra hlimits
    obtain ⟨m, hm⟩ : ∃ m : ℕ, M_X = m + 1 := ⟨(M_X - 1).toNat, by omega⟩
    obtain ⟨n, hn⟩ : ∃ n : ℕ, min (M_X + 1) M_Y = n + 1 :=
      ⟨(min (M_X + 1) M_Y - 1).toNat, by omega⟩
    have hPX := one_le_div_of_le hX hX'
    have hspan : (n + 1 : ℕ) * (1000 / M_Y) ≤ 1000 := by
      have hwhole : 1000 / M_Y * M_Y ≤ 1000 := Int.ediv_mul_le 1000 (by omega)
      have hPY := one_le_div_of_le hY hY'
      have hle : ((n + 1 : ℕ) : ℤ) ≤ M_Y := by omega
      nlinarith
    rw [hn, not_le] at hlimits
    have hfaster : (n + 1 : ℕ) * (1000 / M_Y) < n * (1000 / M_X) := by
      push_cast
      linarith
    have hpos : 1 ≤ n := by
      rcases Nat.eq_zero_or_pos n with rfl | hpos
      · simp only [Nat.cast_zero, zero_mul] at hfaster
        have hPY := one_le_div_of_le hY hY'
        push_cast at hfaster
        omega
      · exact hpos
    obtain ⟨s, t, calls, log, hnew, hclock, hcalls, hfit, hrun, hlog⟩ :=
      exists_overdraft (X := X) (Y := Y) (n := n) hm hX' hY hY' (by omega) (by omega)
    exact not_ownBound_of_overdraft hm hX' hXY hpos hspan hfaster hlog
      (h s t calls log hnew hclock hcalls hfit hrun)
  · intro hlimits s t calls log hnew hclock hcalls hfit hrun
    exact ownBound_of_limits hX hX' hY hY' hXY hlimits hnew hclock hcalls hfit hrun

/-- **Two servers of one user.** Along every interleaving in which the permits fit an `int`, the
requests through each server satisfy its own bucket bound, if and only if neither server earns
tokens so much faster than the other that a burst of the other can spend them. -/
theorem ownBounds_iff {A B : Oid} {M_A M_B : ℤ} (hA : 1 ≤ M_A) (hA' : M_A ≤ 1000) (hB : 1 ≤ M_B)
    (hB' : M_B ≤ 1000) (hAB : A ≠ B) (user_id : Oid) :
    (∀ (s t : Session) (calls : List Call) (log : List Sent), s.counters user_id = none →
      OrderedClock s.clock → (∀ call ∈ calls, ThroughEither user_id A M_A B M_B call) →
      PermitsFitAlong s calls → EventRun.run request s calls = .ok (log, t) →
      OwnBound A M_A log ∧ OwnBound B M_B log) ↔
      min (M_A + 1) M_B * (1000 / M_A - 1000 / M_B) ≤ 1000 / M_A ∧
        min (M_B + 1) M_A * (1000 / M_B - 1000 / M_A) ≤ 1000 / M_B := by
  rw [← ownBound_iff hA hA' hB hB' hAB user_id, ← ownBound_iff hB hB' hA hA' hAB.symm user_id]
  constructor
  · intro h
    refine ⟨fun s t calls log hnew hclock hcalls hfit hrun =>
      (h s t calls log hnew hclock hcalls hfit hrun).1, ?_⟩
    intro s t calls log hnew hclock hcalls hfit hrun
    exact (h s t calls log hnew hclock (fun call hcall => (hcalls call hcall).symm) hfit hrun).2
  · rintro ⟨hboundA, hboundB⟩ s t calls log hnew hclock hcalls hfit hrun
    exact ⟨hboundA s t calls log hnew hclock hcalls hfit hrun,
      hboundB s t calls log hnew hclock (fun call hcall => (hcalls call hcall).symm) hfit hrun⟩

/-- Limits 300 and 330 have the same period, so both servers keep their bounds. -/
theorem ownBounds_same_period :
    (∀ (s t : Session) (calls : List Call) (log : List Sent), s.counters 7 = none →
      OrderedClock s.clock → (∀ call ∈ calls, ThroughEither 7 1 300 2 330 call) →
      PermitsFitAlong s calls → EventRun.run request s calls = .ok (log, t) →
      OwnBound 1 300 log ∧ OwnBound 2 330 log) ↔
      min ((300 : ℤ) + 1) 330 * (1000 / 300 - 1000 / 330) ≤ 1000 / 300 ∧
        min ((330 : ℤ) + 1) 300 * (1000 / 330 - 1000 / 300) ≤ 1000 / 330 :=
  ownBounds_iff (by norm_num) (by norm_num) (by norm_num) (by norm_num) (by norm_num) 7

/-- With one request a second through server 1 and ten through server 2, a request through server 2
pays for the second request through server 1 within 200 ms. -/
theorem ownBounds_fails_one_ten :
    ∃ (t : Session) (log : List Sent),
      OrderedClock [⟨0, 0⟩, ⟨0, 0⟩, ⟨0, 0⟩, ⟨0, 200000⟩, ⟨0, 200000⟩, ⟨0, 200000⟩, ⟨0, 200000⟩] ∧
      EventRun.run request (.start
          [⟨0, 0⟩, ⟨0, 0⟩, ⟨0, 0⟩, ⟨0, 200000⟩, ⟨0, 200000⟩, ⟨0, 200000⟩, ⟨0, 200000⟩])
        [⟨⟨1, 7, none, none, 1, 2500⟩, ⟨false, .zeroed none⟩⟩,
          ⟨⟨2, 7, none, none, 10, 2500⟩, ⟨false, .zeroed none⟩⟩,
          ⟨⟨1, 7, none, none, 1, 2500⟩, ⟨false, .zeroed none⟩⟩] = .ok (log, t) ∧
      ¬ OwnBound 1 1 log := by
  refine ⟨_, _, ⟨by decide, by decide⟩, rfl, fun h => ?_⟩
  exact absurd (h 0 1 (by decide) (by decide)) (by decide)

end OcgeoFdw
