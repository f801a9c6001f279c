import Mathlib.Algebra.Order.Group.Nat
import Mathlib.Algebra.Order.Group.Int
import Mathlib.Algebra.BigOperators.Intervals
import Mathlib.Tactic.Abel
import Mathlib.Algebra.Order.Monoid.Unbundled.Pow
import Mathlib.Data.List.Chain
import Mathlib.Tactic.Linarith
import Mathlib.Tactic.Ring

/-! # Potentials along a list, and token buckets

The accounting behind a rate limiter, over an arbitrary type of admitted requests.

* `add_nsmul_le_of_isChain`: if every step of a list lowers a potential by at least `c`, then `n`
  steps lower it by `n • c`. `isChain_filter` keeps the argument when only some elements pay.
* `countP_window_le`: elements that are at least `g` apart leave at most `n` of them in any
  half-open window of length at most `n • g`.
* `sum_Ico_le_sub_iff`: the steps of all windows stay within a budget exactly when each step does.
* `TokenBucket.sub_le_of_isChain`: a bucket that never holds more than `cap - 1` tokens after a
  request and earns at most one token for `cost` units of work admits at most
  `cap - 1 + work / cost` requests after the first. -/

namespace Amortized

variable {α G : Type*}

section Potential

variable [AddCommMonoid G] [PartialOrder G] [IsOrderedAddMonoid G] {Φ : α → G} {c : G}

/-- Every step pays `c` out of the potential, so the steps from `i` to `j` pay `(j - i) • c`. -/
theorem add_nsmul_le_of_isChain {l : List α} (h : l.IsChain fun a b => Φ b + c ≤ Φ a) {i j : ℕ}
    (hij : i ≤ j) (hi : i < l.length) (hj : j < l.length) : Φ l[j] + (j - i) • c ≤ Φ l[i] := by
  induction j, hij using Nat.le_induction with
  | base => simp
  | succ j hij ih =>
      have hstep : Φ l[j + 1] + c ≤ Φ l[j] := List.isChain_iff_getElem.mp h j hj
      have hih : Φ l[j] + (j - i) • c ≤ Φ l[i] := ih (by omega)
      calc Φ l[j + 1] + (j + 1 - i) • c
          = Φ l[j + 1] + c + (j - i) • c := by
            rw [Nat.succ_sub hij, succ_nsmul', add_assoc]
        _ ≤ Φ l[j] + (j - i) • c := add_le_add_left hstep _
        _ ≤ Φ l[i] := hih

/-- When only the elements with `p` pay and the others do not raise the potential, every step
between consecutive elements with `p` pays. -/
theorem isChain_filter {p : α → Bool} {l : List α} (hc : 0 ≤ c)
    (h : l.IsChain fun a b => Φ b + (if p b then c else 0) ≤ Φ a) :
    (l.filter p).IsChain fun a b => Φ b + c ≤ Φ a := by
  have htrans : Trans (fun a b => Φ b + (if p b then c else 0) ≤ Φ a)
      (fun a b => Φ b + (if p b then c else 0) ≤ Φ a)
      (fun a b => Φ b + (if p b then c else 0) ≤ Φ a) :=
    ⟨fun {a b d} hab hbd => by
      have hpay : (0 : G) ≤ if p b then c else 0 := by split <;> simp [hc]
      exact hbd.trans ((le_add_of_nonneg_right hpay).trans hab)⟩
  have hpair := (List.isChain_iff_pairwise.mp h).filter p
  refine (hpair.imp_of_mem fun {a b} _ hb hab => ?_).isChain
  simpa [(List.mem_filter.mp hb).2] using hab

end Potential

section Telescope

variable [AddCommGroup G] [PartialOrder G] [IsOrderedAddMonoid G]

/-- **Budgets telescope.** The steps of every window stay within what a budget grows by over the
window exactly when each single step does. -/
theorem sum_Ico_le_sub_iff {f w : ℕ → G} {n : ℕ} :
    (∀ i j, i < j → j < n → ∑ k ∈ Finset.Ico i j, f k ≤ w j - w i) ↔
      ∀ k, k + 1 < n → f k ≤ w (k + 1) - w k := by
  constructor
  · intro h k hk
    have hwindow := h k (k + 1) (Nat.lt_succ_self k) hk
    rwa [Nat.Ico_succ_singleton, Finset.sum_singleton] at hwindow
  · intro h i j hij
    induction j, hij using Nat.le_induction with
    | base =>
        intro hn
        rw [Nat.Ico_succ_singleton, Finset.sum_singleton]
        exact h i hn
    | succ j hij ih =>
        intro hn
        rw [Finset.sum_Ico_succ_top (by omega)]
        calc ∑ k ∈ Finset.Ico i j, f k + f j
            ≤ (w j - w i) + (w (j + 1) - w j) := add_le_add (ih (by omega)) (h j hn)
          _ = w (j + 1) - w i := by abel

end Telescope

section Window

variable [AddCommGroup G] [LinearOrder G] {time : α → G} {g len : G}

/-- A list all of whose times lie in the window is counted whole. -/
theorem countP_window_eq_length {l : List α} {w : G}
    (h : ∀ a ∈ l, w ≤ time a ∧ time a < w + len) :
    l.countP (fun a => decide (w ≤ time a ∧ time a < w + len)) = l.length :=
  List.countP_eq_length.mpr fun a ha => decide_eq_true (h a ha)

variable [IsOrderedAddMonoid G]

/-- **Spacing bounds a window.** Elements whose times are at least `g` apart leave at most `n` of
them in a half-open window `[w, w + len)` of length at most `n • g`. -/
theorem countP_window_le {l : List α} (hg : 0 ≤ g)
    (h : l.IsChain fun a b => time a + g ≤ time b) {n : ℕ} (hlen : len ≤ n • g) (w : G) :
    l.countP (fun a => decide (w ≤ time a ∧ time a < w + len)) ≤ n := by
  rw [List.countP_eq_length_filter]
  set inside := l.filter fun a => decide (w ≤ time a ∧ time a < w + len) with hinside
  by_contra hlong
  have hn : n < inside.length := by omega
  have hchain : inside.IsChain fun a b => -time b + g ≤ -time a := by
    refine isChain_filter hg (h.imp fun a b hab => ?_)
    have hle : -time b + g ≤ -time a := by
      rw [neg_add_le_iff_le_add, ← sub_eq_add_neg, le_sub_iff_add_le']
      exact hab
    split
    · exact hle
    · exact (add_le_add_right hg _).trans hle
  have hpay := add_nsmul_le_of_isChain hchain (Nat.zero_le n) (by omega) hn
  rw [Nat.sub_zero, neg_add_le_iff_le_add, ← sub_eq_add_neg, le_sub_iff_add_le'] at hpay
  have hpos : 0 < inside.length := by omega
  have hfirst := (List.mem_filter.mp (List.getElem_mem hpos)).2
  have hlast := (List.mem_filter.mp (List.getElem_mem hn)).2
  simp only [decide_eq_true_eq] at hfirst hlast
  -- the first and the last element of the window are `n • g ≥ len` apart
  have : w + len ≤ time inside[n] := (add_le_add hfirst.1 hlen).trans hpay
  exact absurd hlast.2 (not_lt.mpr this)

end Window

end Amortized

namespace TokenBucket

variable {α : Type*} {level work : α → ℤ} {cap cost : ℤ}

/-- **Bucket bound.** Along the requests, the level never exceeds `cap - 1`, never drops below
zero, and a request that spends a token earned at most one token for `cost` units of work. Then the
requests with `p` after the `i`-th of them, up to the `j`-th, number at most
`cap - 1 + ⌊work done / cost⌋`. The other requests may refill the bucket by their own rule as long
as they too stay below one token for `cost` units of work. -/
theorem sub_le_of_isChain {p : α → Bool} {l : List α} (hcost : 0 < cost)
    (hchain : l.IsChain fun a b =>
      cost * (level b + if p b then 1 else 0) ≤ cost * level a + (work b - work a))
    (hlow : ∀ a ∈ l, p a → 0 ≤ level a) (hcap : ∀ a ∈ l, p a → level a ≤ cap - 1)
    {i j : ℕ} (hij : i ≤ j) (hi : i < (l.filter p).length) (hj : j < (l.filter p).length) :
    (j : ℤ) - i ≤ (cap - 1) + (work (l.filter p)[j] - work (l.filter p)[i]) / cost := by
  have hpaid : (l.filter p).IsChain fun a b =>
      (cost * level b - work b) + cost ≤ cost * level a - work a := by
    refine Amortized.isChain_filter hcost.le (hchain.imp fun a b hab => ?_)
    cases hpb : p b with
    | false => simp only [hpb, Bool.false_eq_true, if_false, add_zero] at hab ⊢; linarith
    | true =>
        simp only [hpb, if_true, mul_add, mul_one] at hab ⊢
        linarith
  have htotal := Amortized.add_nsmul_le_of_isChain
    (Φ := fun a => cost * level a - work a) hpaid hij hi hj
  have hmemi := List.mem_filter.mp (List.getElem_mem hi)
  have hmemj := List.mem_filter.mp (List.getElem_mem hj)
  have hstart := hcap _ hmemi.1 hmemi.2
  have hend := hlow _ hmemj.1 hmemj.2
  have hsub : ((j - i : ℕ) : ℤ) = (j : ℤ) - i := by omega
  rw [nsmul_eq_mul, hsub] at htotal
  -- divide the paid total by the cost of one token
  have hdiv : (j : ℤ) - i - (cap - 1) ≤
      (work (l.filter p)[j] - work (l.filter p)[i]) / cost := by
    rw [Int.le_ediv_iff_mul_le hcost]
    nlinarith [mul_le_mul_of_nonneg_left hstart hcost.le, mul_nonneg hcost.le hend]
  linarith

end TokenBucket
