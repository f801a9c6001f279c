import Mathlib.Data.List.Chain
import OcgeoFdw.Foundation.Completion

/-! # Runs of a fallible step function

A deterministic component that consumes one input at a time, may stop with an error, and emits one
output for every input it accepts. `run` folds the step over a list of inputs and collects the
outputs; `Along` states that a condition holds at every step a run takes. The rules below lift a
fact about one step to a fact about a whole run: an invariant of the states, a property of every
output, and a relation between consecutive outputs. -/

namespace EventRun

variable {σ ι ε ω : Type*}

/-- Run `step` over the inputs in order, collecting one output a step. The first error ends the
run. -/
def run (step : σ → ι → Except ε (ω × σ)) : σ → List ι → Except ε (List ω × σ)
  | s, [] => .ok ([], s)
  | s, i :: is =>
      match step s i with
      | .error e => .error e
      | .ok (o, s') =>
          match run step s' is with
          | .error e => .error e
          | .ok (os, t) => .ok (o :: os, t)

/-- `P` holds of the state and the input at every step the run from `s` takes. -/
def Along (step : σ → ι → Except ε (ω × σ)) (P : σ → ι → Prop) : σ → List ι → Prop
  | _, [] => True
  | s, i :: is => P s i ∧ ∀ o s', step s i = .ok (o, s') → Along step P s' is

/-- The steps that a run takes: the state, the input and the output of each. -/
def trace (step : σ → ι → Except ε (ω × σ)) : σ → List ι → List (σ × ι × ω)
  | _, [] => []
  | s, i :: is =>
      match step s i with
      | .error _ => []
      | .ok (o, s') => (s, i, o) :: trace step s' is

variable {step : σ → ι → Except ε (ω × σ)} {P : σ → ι → Prop}

/-- The trace of a completed step and of what comes after it. -/
theorem trace_cons_of_ok {s s' : σ} {i : ι} {is : List ι} {o : ω} (hstep : step s i = .ok (o, s')) :
    trace step s (i :: is) = (s, i, o) :: trace step s' is := by
  rw [trace, hstep]

@[simp] theorem run_nil (s : σ) : run step s [] = .ok ([], s) := rfl

/-- A completed run of `i :: is` starts with a completed step. -/
theorem exists_of_run_cons {s t : σ} {i : ι} {is : List ι} {os : List ω}
    (h : run step s (i :: is) = .ok (os, t)) :
    ∃ o s' os', step s i = .ok (o, s') ∧ run step s' is = .ok (os', t) ∧ os = o :: os' := by
  cases hstep : step s i with
  | error e => simp [run, hstep] at h
  | ok p =>
      obtain ⟨o, s'⟩ := p
      cases hrun : run step s' is with
      | error e => simp [run, hstep, hrun] at h
      | ok q =>
          obtain ⟨os', u⟩ := q
          obtain ⟨rfl, rfl⟩ : o :: os' = os ∧ u = t := by simpa [run, hstep, hrun] using h
          exact ⟨o, s', os', rfl, hrun, rfl⟩

/-- One step prepended to a completed run. -/
theorem run_cons_of_ok {s s' t : σ} {i : ι} {is : List ι} {o : ω} {os : List ω}
    (hstep : step s i = .ok (o, s')) (hrun : run step s' is = .ok (os, t)) :
    run step s (i :: is) = .ok (o :: os, t) := by
  simp [run, hstep, hrun]

/-- A run over the inputs completes, and `Q` holds of the state that it ends in. -/
def Reaches (step : σ → ι → Except ε (ω × σ)) (s : σ) (is : List ι) (Q : σ → Prop) : Prop :=
  ∃ os t, run step s is = .ok (os, t) ∧ Q t

theorem reaches_nil {s : σ} {Q : σ → Prop} (hQ : Q s) : Reaches step s [] Q := ⟨[], s, rfl, hQ⟩

/-- One step before. -/
theorem reaches_cons {s s' : σ} {i : ι} {is : List ι} {o : ω} {Q : σ → Prop}
    (hstep : step s i = .ok (o, s')) (hrest : Reaches step s' is Q) : Reaches step s (i :: is) Q := by
  obtain ⟨os, t, hrun, hQ⟩ := hrest
  exact ⟨o :: os, t, run_cons_of_ok hstep hrun, hQ⟩

/-- Less may be said of the state. -/
theorem Reaches.mono {s : σ} {is : List ι} {Q R : σ → Prop} (h : Reaches step s is Q)
    (hQ : ∀ t, Q t → R t) : Reaches step s is R := by
  obtain ⟨os, t, hrun, hq⟩ := h
  exact ⟨os, t, hrun, hQ t hq⟩

/-- Completed runs compose: the outputs are concatenated. -/
theorem run_append_of_ok {s s' t : σ} {is js : List ι} {os ps : List ω}
    (hfirst : run step s is = .ok (os, s')) (hsecond : run step s' js = .ok (ps, t)) :
    run step s (is ++ js) = .ok (os ++ ps, t) := by
  induction is generalizing s os with
  | nil =>
      obtain ⟨rfl, rfl⟩ : [] = os ∧ s = s' := by simpa using hfirst
      exact hsecond
  | cons i is ih =>
      obtain ⟨o, u, os', hstep, hrun, rfl⟩ := exists_of_run_cons hfirst
      exact run_cons_of_ok hstep (ih hrun)

/-- A completed run of `is ++ js` is a completed run of `is` and one of `js` from there. -/
theorem exists_of_run_append {s t : σ} {is js : List ι} {os : List ω}
    (h : run step s (is ++ js) = .ok (os, t)) :
    ∃ os₁ s' os₂, run step s is = .ok (os₁, s') ∧ run step s' js = .ok (os₂, t) ∧
      os = os₁ ++ os₂ := by
  induction is generalizing s os with
  | nil => exact ⟨[], s, os, rfl, h, rfl⟩
  | cons i is ih =>
      obtain ⟨o, s', os', hstep, hrest, rfl⟩ := exists_of_run_cons h
      obtain ⟨os₁, s'', os₂, hfirst, hsecond, rfl⟩ := ih hrest
      exact ⟨o :: os₁, s'', os₂, run_cons_of_ok hstep hfirst, hsecond, rfl⟩

/-- A run that stops has completed the inputs in front of one that stops it. -/
theorem exists_of_run_error {s : σ} {is : List ι} {e : ε} (h : run step s is = .error e) :
    ∃ front i back os s', is = front ++ i :: back ∧ run step s front = .ok (os, s') ∧
      step s' i = .error e := by
  induction is generalizing s with
  | nil => cases h
  | cons i is ih =>
      rw [run] at h
      cases hstep : step s i with
      | error e' =>
          rw [hstep] at h
          obtain rfl := Except.error.inj h
          exact ⟨[], i, is, [], s, rfl, rfl, hstep⟩
      | ok out =>
          obtain ⟨o, s'⟩ := out
          rw [hstep] at h
          simp only at h
          cases hrun : run step s' is with
          | ok rest =>
              rw [hrun] at h
              cases h
          | error e' =>
              rw [hrun] at h
              obtain rfl := Except.error.inj h
              obtain ⟨front, j, back, os, t, rfl, hfront, hj⟩ := ih hrun
              exact ⟨i :: front, j, back, o :: os, t, rfl, run_cons_of_ok hstep hfront, hj⟩

/-- What is reached by a run and by the run after it. -/
theorem Reaches.append {s : σ} {is js : List ι} {Q R : σ → Prop} (hfirst : Reaches step s is Q)
    (hsecond : ∀ t, Q t → Reaches step t js R) : Reaches step s (is ++ js) R := by
  obtain ⟨os, t, hrun, hQ⟩ := hfirst
  obtain ⟨ps, u, hrun', hR⟩ := hsecond t hQ
  exact ⟨os ++ ps, u, run_append_of_ok hrun hrun', hR⟩

/-- A condition along a completed step and along the run after it. -/
theorem along_cons_of_ok {s s' : σ} {i : ι} {is : List ι} {o : ω} (hP : P s i)
    (hstep : step s i = .ok (o, s')) (hrest : Along step P s' is) : Along step P s (i :: is) := by
  refine ⟨hP, fun o₁ s₁ heq => ?_⟩
  obtain ⟨rfl, rfl⟩ : o = o₁ ∧ s' = s₁ := by simpa [hstep] using heq
  exact hrest

/-- A condition along a completed run and along the run after it. -/
theorem along_append_of_ok {s s' : σ} {is js : List ι} {os : List ω} (hfirst : Along step P s is)
    (hrun : run step s is = .ok (os, s')) (hsecond : Along step P s' js) :
    Along step P s (is ++ js) := by
  induction is generalizing s os with
  | nil =>
      obtain ⟨-, rfl⟩ : [] = os ∧ s = s' := by simpa using hrun
      exact hsecond
  | cons i is ih =>
      obtain ⟨o, u, os', hstep, hrest, rfl⟩ := exists_of_run_cons hrun
      exact along_cons_of_ok hfirst.1 hstep (ih (hfirst.2 o u hstep) hrest)

/-- Two conditions that hold along a run hold together along it. -/
theorem Along.and {Q : σ → ι → Prop} {s : σ} {is : List ι} (hP : Along step P s is)
    (hQ : Along step Q s is) : Along step (fun s i => P s i ∧ Q s i) s is := by
  induction is generalizing s with
  | nil => trivial
  | cons i is ih =>
      exact ⟨⟨hP.1, hQ.1⟩, fun o s' hstep => ih (hP.2 o s' hstep) (hQ.2 o s' hstep)⟩

/-- A condition on the inputs alone holds along every run over such inputs. -/
theorem along_of_forall_mem {Q : ι → Prop} {is : List ι} (h : ∀ i ∈ is, Q i) (s : σ) :
    Along step (fun _ i => Q i) s is := by
  induction is generalizing s with
  | nil => trivial
  | cons i is ih =>
      refine ⟨h i List.mem_cons_self, fun _ s' _ => ?_⟩
      exact ih (fun j hj => h j (List.mem_cons_of_mem i hj)) s'

/-! ## From one step to a run -/

section Rules

variable {I : σ → Prop}

/-- **Fault rule.** If no step that meets `P` stops with `fault`, no run along which `P` holds
does. -/
theorem run_ne_error {fault : ε} (hstep : ∀ {s i}, P s i → step s i ≠ .error fault) {s : σ}
    {is : List ι} (halong : Along step P s is) : run step s is ≠ .error fault := by
  induction is generalizing s with
  | nil => simp
  | cons i is ih =>
      intro h
      cases hs : step s i with
      | error e =>
          simp only [run, hs, Except.error.injEq] at h
          exact hstep halong.1 (hs.trans (congrArg Except.error h))
      | ok p =>
          obtain ⟨o, s'⟩ := p
          cases hrest : run step s' is with
          | ok q => simp [run, hs, hrest] at h
          | error e =>
              simp only [run, hs, hrest, Except.error.injEq] at h
              exact ih (halong.2 o s' hs) (hrest.trans (congrArg Except.error h))

/-- **Output rule.** If every step from an invariant state emits an output with `Q`, all outputs of
a run have `Q`. -/
theorem forall_mem_outputs {Q : ω → Prop}
    (hstep : ∀ {s i o s'}, I s → P s i → step s i = .ok (o, s') → Q o ∧ I s')
    {s t : σ} {is : List ι} {os : List ω} (hinv : I s) (halong : Along step P s is)
    (hrun : run step s is = .ok (os, t)) : ∀ o ∈ os, Q o := by
  induction is generalizing s os with
  | nil =>
      obtain ⟨rfl, -⟩ : [] = os ∧ s = t := by simpa using hrun
      simp
  | cons i is ih =>
      obtain ⟨o, s', os', hs, hrest, rfl⟩ := exists_of_run_cons hrun
      obtain ⟨hQ, hinv'⟩ := hstep hinv halong.1 hs
      simp only [List.mem_cons, forall_eq_or_imp]
      exact ⟨hQ, ih hinv' (halong.2 o s' hs) hrest⟩

/-- **Output rule for the inputs.** If every completed step that meets `P` emits an output that its
input determines, so does a run. -/
theorem map_outputs {ν : Type*} {f : ω → ν} {g : ι → ν}
    (hstep : ∀ {s i o s'}, P s i → step s i = .ok (o, s') → f o = g i)
    {s t : σ} {is : List ι} {os : List ω} (halong : Along step P s is)
    (hrun : run step s is = .ok (os, t)) : os.map f = is.map g := by
  induction is generalizing s os with
  | nil =>
      obtain ⟨rfl, -⟩ : [] = os ∧ s = t := by simpa using hrun
      rfl
  | cons i is ih =>
      obtain ⟨o, s', os', hs, hrest, rfl⟩ := exists_of_run_cons hrun
      rw [List.map_cons, List.map_cons, hstep halong.1 hs, ih (halong.2 o s' hs) hrest]

/-- **Invariant rule.** An invariant that every completed step keeps holds after every run. -/
theorem invariant_of_run (hstep : ∀ {s i o s'}, I s → step s i = .ok (o, s') → I s')
    {s t : σ} {is : List ι} {os : List ω} (hinv : I s) (hrun : run step s is = .ok (os, t)) :
    I t := by
  induction is generalizing s os with
  | nil =>
      obtain ⟨-, rfl⟩ : [] = os ∧ s = t := by simpa using hrun
      exact hinv
  | cons i is ih =>
      obtain ⟨o, s', os', hs, hrest, rfl⟩ := exists_of_run_cons hrun
      exact ih (hstep hinv hs) hrest

/-- **Invariant rule along a run.** An invariant that every completed step with `P` keeps holds after
every run along which `P` holds. -/
theorem Along.invariant (hstep : ∀ {s i o s'}, I s → P s i → step s i = .ok (o, s') → I s')
    {s t : σ} {is : List ι} {os : List ω} (hinv : I s) (halong : Along step P s is)
    (hrun : run step s is = .ok (os, t)) : I t := by
  induction is generalizing s os with
  | nil =>
      obtain ⟨-, rfl⟩ : [] = os ∧ s = t := by simpa using hrun
      exact hinv
  | cons i is ih =>
      obtain ⟨o, s', os', hs, hrest, rfl⟩ := exists_of_run_cons hrun
      exact ih (hstep hinv halong.1 hs) (halong.2 o s' hs) hrest

/-- **Account rule.** If every step ends with an invariant that accounts for its output, or with an
error that is allowed, so does a run, with all the outputs accounted for. -/
theorem run_ends {ν : Type*} {J : σ → ν → Prop} {upd : ν → ω → ν} {F : ε → Prop}
    (hstep : ∀ {s n} i, J s n → (step s i).Ends (fun out => J out.2 (upd n out.1)) F)
    {s : σ} {n : ν} (hinv : J s n) (is : List ι) :
    (run step s is).Ends (fun out => J out.2 (out.1.foldl upd n)) F := by
  induction is generalizing s n with
  | nil => exact hinv
  | cons i is ih =>
      have hfirst := hstep i hinv
      rw [run]
      cases hs : step s i with
      | error e =>
          rw [hs] at hfirst
          exact hfirst
      | ok out =>
          obtain ⟨o, s'⟩ := out
          rw [hs] at hfirst
          have hrest := ih hfirst
          simp only
          cases hrun : run step s' is with
          | error e =>
              rw [hrun] at hrest
              exact hrest
          | ok rest =>
              rw [hrun] at hrest
              exact hrest

/-- **Fold rule.** If every completed step changes a value of the state as `upd` says, a run folds
`upd` over its inputs. -/
theorem value_of_run {ν : Type*} {f : σ → ν} {upd : ν → ι → ν}
    (hstep : ∀ {s i o s'}, step s i = .ok (o, s') → f s' = upd (f s) i)
    {s t : σ} {is : List ι} {os : List ω} (hrun : run step s is = .ok (os, t)) :
    f t = is.foldl upd (f s) := by
  induction is generalizing s os with
  | nil =>
      obtain ⟨-, rfl⟩ : [] = os ∧ s = t := by simpa using hrun
      rfl
  | cons i is ih =>
      obtain ⟨o, s', os', hs, hrest, rfl⟩ := exists_of_run_cons hrun
      rw [List.foldl_cons, ← hstep hs]
      exact ih hrest

/-- Two folds over a list agree after every part of it exactly if the two updates agree at each
input, from the value folded before it. -/
theorem foldl_take_eq_iff {ν : Type*} {upd seen : ν → ι → ν} {a : ν} {is : List ι} :
    (∀ n, (is.take n).foldl upd a = (is.take n).foldl seen a) ↔
      ∀ (n : ℕ) (hn : n < is.length),
        upd ((is.take n).foldl upd a) is[n] = seen ((is.take n).foldl upd a) is[n] := by
  constructor
  · intro h n hn
    have hnext := h (n + 1)
    rw [List.take_succ_eq_append_getElem hn, List.foldl_append, List.foldl_append] at hnext
    rw [← h n] at hnext
    exact hnext
  · intro h n
    induction n with
    | zero => rw [List.take_zero]; rfl
    | succ n ih =>
        by_cases hn : n < is.length
        · rw [List.take_succ_eq_append_getElem hn, List.foldl_append, List.foldl_append, ← ih]
          exact h n hn
        · rwa [List.take_of_length_le (by omega), ← List.take_of_length_le (not_lt.mp hn)]

/-- **Tracking rule.** If every completed step changes a value of the state as `upd` says, then the
value is the fold of another update `seen` after every part of a run exactly when the two updates
agree at each input, from the value folded before it. -/
theorem tracks_iff_forall_getElem {ν : Type*} {f : σ → ν} {upd seen : ν → ι → ν}
    (hstep : ∀ {s i o s'}, step s i = .ok (o, s') → f s' = upd (f s) i)
    {s t : σ} {is : List ι} {os : List ω} (hrun : run step s is = .ok (os, t)) :
    (∀ js, js <+: is → ∀ ps u, run step s js = .ok (ps, u) → f u = js.foldl seen (f s)) ↔
      ∀ (n : ℕ) (hn : n < is.length),
        upd ((is.take n).foldl upd (f s)) is[n] = seen ((is.take n).foldl upd (f s)) is[n] := by
  rw [← foldl_take_eq_iff]
  constructor
  · intro h n
    rw [← List.take_append_drop n is] at hrun
    obtain ⟨ps, u, qs, htake, -, -⟩ := exists_of_run_append hrun
    rw [← value_of_run hstep htake]
    exact h _ (List.take_prefix n is) ps u htake
  · intro h js hprefix ps u hjs
    rw [value_of_run hstep hjs]
    have hparts := h js.length
    rwa [← List.prefix_iff_eq_take.mp hprefix] at hparts

/-- **Counting rule.** If a step with `Q` raises what a state counts by one and every other step
keeps it, a run raises it by the number of its steps with `Q`. -/
theorem counts_of_run {Q : σ × ι × ω → Bool} {A : σ → ℕ → Prop}
    (hstep : ∀ {s i o s' n}, A s n → P s i → step s i = .ok (o, s') →
      A s' (if Q (s, i, o) = true then n + 1 else n))
    {s t : σ} {is : List ι} {os : List ω} {n : ℕ} (hcounts : A s n) (halong : Along step P s is)
    (hrun : run step s is = .ok (os, t)) : A t (n + (trace step s is).countP Q) := by
  induction is generalizing s os n with
  | nil =>
      obtain ⟨-, rfl⟩ : [] = os ∧ s = t := by simpa using hrun
      exact hcounts
  | cons i is ih =>
      obtain ⟨o, s', os', hs, hrest, rfl⟩ := exists_of_run_cons hrun
      have htail := ih (hstep hcounts halong.1 hs) (halong.2 o s' hs) hrest
      rw [trace_cons_of_ok hs, List.countP_cons]
      split at htail
      · rename_i hQ
        rw [if_pos hQ, Nat.add_comm _ 1, ← Nat.add_assoc]
        exact htail
      · rename_i hQ
        rw [if_neg hQ]
        exact htail

/-- **Exactness rule.** If at every completed step the output has `Q` exactly when the step meets
`P`, then all outputs of a run have `Q` exactly when `P` holds along it. -/
theorem forall_mem_outputs_iff_along {Q : ω → Prop}
    (hstep : ∀ {s i o s'}, step s i = .ok (o, s') → (Q o ↔ P s i))
    {s t : σ} {is : List ι} {os : List ω} (hrun : run step s is = .ok (os, t)) :
    (∀ o ∈ os, Q o) ↔ Along step P s is := by
  induction is generalizing s os with
  | nil =>
      obtain ⟨rfl, -⟩ : [] = os ∧ s = t := by simpa using hrun
      simp [Along]
  | cons i is ih =>
      obtain ⟨o, s', os', hs, hrest, rfl⟩ := exists_of_run_cons hrun
      simp only [List.mem_cons, forall_eq_or_imp, Along]
      refine and_congr (hstep hs) ((ih hrest).trans ⟨fun h o₁ s₁ heq => ?_, fun h => h o s' hs⟩)
      obtain ⟨rfl, rfl⟩ : o = o₁ ∧ s' = s₁ := by simpa [hs] using heq
      exact h

/-- **Chain rule from a linked state.** `L o s` ties an output to the state its step left behind. If
a step from a linked state emits an output related to the previous one, the outputs of a run from a
linked state continue a chain. -/
theorem isChain_cons_outputs {L : ω → σ → Prop} {R : ω → ω → Prop}
    (hnext : ∀ {o s i o' s'}, L o s → P s i → step s i = .ok (o', s') → R o o' ∧ L o' s')
    {o : ω} {s t : σ} {is : List ι} {os : List ω} (hlink : L o s) (halong : Along step P s is)
    (hrun : run step s is = .ok (os, t)) : (o :: os).IsChain R := by
  induction is generalizing o s os with
  | nil =>
      obtain ⟨rfl, -⟩ : [] = os ∧ s = t := by simpa using hrun
      exact List.isChain_singleton o
  | cons i is ih =>
      obtain ⟨o', s', os', hs, hrest, rfl⟩ := exists_of_run_cons hrun
      obtain ⟨hR, hlink'⟩ := hnext hlink halong.1 hs
      exact List.isChain_cons_cons.mpr ⟨hR, ih hlink' (halong.2 o' s' hs) hrest⟩

/-- **Chain rule.** If the first step of a run leaves a linked state behind, consecutive outputs of
the run are related. -/
theorem isChain_outputs {L : ω → σ → Prop} {R : ω → ω → Prop}
    (hfirst : ∀ {s i o s'}, I s → P s i → step s i = .ok (o, s') → L o s')
    (hnext : ∀ {o s i o' s'}, L o s → P s i → step s i = .ok (o', s') → R o o' ∧ L o' s')
    {s t : σ} {is : List ι} {os : List ω} (hinv : I s) (halong : Along step P s is)
    (hrun : run step s is = .ok (os, t)) : os.IsChain R := by
  cases is with
  | nil =>
      obtain ⟨rfl, -⟩ : [] = os ∧ s = t := by simpa using hrun
      exact List.isChain_nil
  | cons i is =>
      obtain ⟨o, s', os', hs, hrest, rfl⟩ := exists_of_run_cons hrun
      exact isChain_cons_outputs hnext (hfirst hinv halong.1 hs) (halong.2 o s' hs) hrest

/-- **Chain rule from a linked state, backwards.** If a step from a linked state that emits an
output related to the previous one meets `Q`, then `Q` holds along every run from a linked state
whose outputs continue a chain. -/
theorem along_of_isChain_cons_outputs {L : ω → σ → Prop} {R : ω → ω → Prop} {Q : σ → ι → Prop}
    (hnext : ∀ {o s i o' s'}, L o s → P s i → step s i = .ok (o', s') → R o o' →
      Q s i ∧ L o' s')
    {o : ω} {s t : σ} {is : List ι} {os : List ω} (hlink : L o s) (halong : Along step P s is)
    (hrun : run step s is = .ok (os, t)) (hchain : (o :: os).IsChain R) : Along step Q s is := by
  induction is generalizing o s os with
  | nil => trivial
  | cons i is ih =>
      obtain ⟨o', s', os', hs, hrest, rfl⟩ := exists_of_run_cons hrun
      obtain ⟨hR, hchain'⟩ := List.isChain_cons_cons.mp hchain
      obtain ⟨hQ, hlink'⟩ := hnext hlink halong.1 hs hR
      exact along_cons_of_ok hQ hs (ih hlink' (halong.2 o' s' hs) hrest hchain')

/-- **Chain rule, backwards.** The same from the first step of a run on. -/
theorem along_of_isChain_outputs {L : ω → σ → Prop} {R : ω → ω → Prop} {Q : σ → ι → Prop}
    (hfirst : ∀ {s i o s'}, I s → P s i → step s i = .ok (o, s') → Q s i ∧ L o s')
    (hnext : ∀ {o s i o' s'}, L o s → P s i → step s i = .ok (o', s') → R o o' →
      Q s i ∧ L o' s')
    {s t : σ} {is : List ι} {os : List ω} (hinv : I s) (halong : Along step P s is)
    (hrun : run step s is = .ok (os, t)) (hchain : os.IsChain R) : Along step Q s is := by
  cases is with
  | nil => trivial
  | cons i is =>
      obtain ⟨o, s', os', hs, hrest, rfl⟩ := exists_of_run_cons hrun
      obtain ⟨hQ, hlink⟩ := hfirst hinv halong.1 hs
      exact along_cons_of_ok hQ hs
        (along_of_isChain_cons_outputs hnext hlink (halong.2 o s' hs) hrest hchain)

end Rules

end EventRun
