import Mathlib.Data.List.Infix

/-! # Splitting at a separator

The parts of a list between separators, and the invariant of a scan that cuts one part after the
other off. -/

namespace Separators

universe u

variable {α : Type u}

/-- The parts of a list: joined by the separator they are the list, and none contains the
separator. -/
structure IsSplit (sep : List α) (parts : List (List α)) (l : List α) : Prop where
  joined : sep.intercalate parts = l
  free : ∀ part ∈ parts, ¬ sep <:+: part
  nonempty : parts ≠ []

/-- A scan has come to `j`: the parts end at `start`, and no separator starts between. -/
structure Scanned (sep l : List α) (parts : List (List α)) (start j : ℕ) : Prop where
  joined : parts.flatMap (· ++ sep) = l.take start
  free : ∀ part ∈ parts, ¬ sep <:+: part
  between : ∀ i, start ≤ i → i < j → ¬ sep <+: l.drop i
  start_le : start ≤ j
  inside : start ≤ l.length

variable {sep l : List α} {parts : List (List α)} {start j : ℕ}

/-- Parts that are each followed by a separator, and a last one. -/
theorem intercalate_append_singleton (sep : List α) (parts : List (List α)) (last : List α) :
    sep.intercalate (parts ++ [last]) = parts.flatMap (· ++ sep) ++ last := by
  induction parts with
  | nil => simp [List.intercalate]
  | cons part parts ih =>
      rw [List.flatMap_cons, List.append_assoc, ← ih]
      cases parts with
      | nil => simp [List.intercalate]
      | cons next parts => simp [List.intercalate, List.append_assoc]

/-- A part stands in the list that the parts are joined to. -/
theorem infix_intercalate {part : List α} (h : part ∈ parts) : part <:+: sep.intercalate parts := by
  obtain ⟨i, hi⟩ := List.mem_iff_getElem?.mp h
  exact List.infix_of_mem_flatten
    (List.mem_of_getElem? (List.getElem?_intersperse_two_mul.trans hi))

/-- The text before the first separator and the text behind it. -/
theorem append_cons_inj_of_first {c : α} {s t s' t' : List α} (hs : c ∉ s) (ht : c ∉ t) :
    s ++ c :: s' = t ++ c :: t' ↔ s = t ∧ s' = t' := by
  refine ⟨fun h => ?_, fun h => by rw [h.1, h.2]⟩
  rcases List.append_eq_append_iff.mp h with ⟨a, rfl, hrest⟩ | ⟨a, rfl, hrest⟩
  -- what one text has more would start with the separator
  · cases a with
    | nil => exact ⟨(List.append_nil s).symm, (List.cons.inj hrest).2⟩
    | cons d a => exact absurd (by simp [(List.cons.inj hrest).1]) ht
  · cases a with
    | nil => exact ⟨List.append_nil t, (List.cons.inj hrest).2.symm⟩
    | cons d a => exact absurd (by simp [(List.cons.inj hrest).1]) hs

/-- The text before the last separator and the text behind it. -/
theorem append_cons_inj_of_last {c : α} {s t s' t' : List α} (hs : c ∉ s') (ht : c ∉ t') :
    s ++ c :: s' = t ++ c :: t' ↔ s = t ∧ s' = t' := by
  have hreverse : ∀ a b : List α, (a ++ c :: b).reverse = b.reverse ++ c :: a.reverse := by
    intro a b
    rw [List.reverse_append, List.reverse_cons, List.append_assoc, List.singleton_append]
  rw [← List.reverse_inj, hreverse, hreverse]
  refine (append_cons_inj_of_first (mt List.mem_reverse.mp hs) (mt List.mem_reverse.mp ht)).trans ?_
  rw [List.reverse_inj, List.reverse_inj]
  exact and_comm

/-- A part of the list in which no separator starts has none. -/
theorem not_isInfix_of_between {stop : ℕ} (hsep : sep ≠ [])
    (h : ∀ i, start ≤ i → i + sep.length ≤ stop → ¬ sep <+: l.drop i) :
    ¬ sep <:+: (l.take stop).drop start := by
  rintro ⟨before, after, heq⟩
  have hpos := List.length_pos_iff.mpr hsep
  have hlength := congrArg List.length heq
  simp only [List.length_append, List.length_drop, List.length_take] at hlength
  apply h (start + before.length) (Nat.le_add_right _ _) (by omega)
  have hdrop : (l.take stop).drop (start + before.length) = sep ++ after := by
    rw [← List.drop_drop, ← heq, List.append_assoc, List.drop_left]
  have hprefix : (l.take stop).drop (start + before.length) <+: l.drop (start + before.length) := by
    rw [List.drop_take]
    exact List.take_prefix _ _
  rw [hdrop] at hprefix
  exact (List.prefix_append sep after).trans hprefix

/-- The scan starts without parts. -/
theorem Scanned.zero : Scanned sep l [] 0 0 where
  joined := rfl
  free := by simp
  between := by simp
  start_le := le_rfl
  inside := Nat.zero_le _

/-- The scan goes on where no separator starts. -/
theorem Scanned.next (h : Scanned sep l parts start j) (hno : ¬ sep <+: l.drop j) :
    Scanned sep l parts start (j + 1) where
  joined := h.joined
  free := h.free
  between := by
    intro i hstart hi
    rcases Nat.lt_succ_iff_lt_or_eq.mp hi with hlt | rfl
    · exact h.between i hstart hlt
    · exact hno
  start_le := h.start_le.trans (Nat.le_succ j)
  inside := h.inside

/-- **The scan cuts a part off** in front of a separator. -/
theorem Scanned.found (h : Scanned sep l parts start j) (hne : sep ≠ [])
    (hsep : sep <+: l.drop j) :
    Scanned sep l (parts ++ [(l.take j).drop start]) (j + sep.length) (j + sep.length) where
  joined := by
    obtain ⟨rest, hrest⟩ := hsep
    have htake : l.take (j + sep.length) = l.take j ++ sep := by
      rw [List.take_add, ← hrest, List.take_left]
    have hfront : l.take start ++ (l.take j).drop start = l.take j := by
      have htakes : (l.take j).take start = l.take start := by
        rw [List.take_take, min_eq_left h.start_le]
      rw [← htakes, List.take_append_drop]
    rw [List.flatMap_append, List.flatMap_singleton, h.joined, ← List.append_assoc, hfront, htake]
  free := by
    intro part hpart
    rcases List.mem_append.mp hpart with hpart | hpart
    · exact h.free part hpart
    · rw [List.mem_singleton.mp hpart]
      have hpos := List.length_pos_iff.mpr hne
      exact not_isInfix_of_between hne fun i hi hj => h.between i hi (by omega)
  between := by
    intro i hstart hi
    omega
  start_le := le_rfl
  inside := by
    obtain ⟨rest, hrest⟩ := hsep
    have hlength := congrArg List.length hrest
    rw [List.length_append, List.length_drop] at hlength
    have hpos := List.length_pos_iff.mpr hne
    omega

/-- **At the end the rest is the last part**: no separator fits behind `j`. -/
theorem Scanned.finish (h : Scanned sep l parts start j) (hne : sep ≠ [])
    (hend : l.length < j + sep.length) : IsSplit sep (parts ++ [l.drop start]) l where
  joined := by
    rw [intercalate_append_singleton, h.joined, List.take_append_drop]
  free := by
    intro part hpart
    rcases List.mem_append.mp hpart with hpart | hpart
    · exact h.free part hpart
    · have hrest : l.drop start = (l.take l.length).drop start := by rw [List.take_length]
      rw [List.mem_singleton.mp hpart, hrest]
      exact not_isInfix_of_between hne fun i hi hj => h.between i hi (by omega)
  nonempty := by simp

/-- With a separator of one element, the parts are those of `List.splitOn`. -/
theorem IsSplit.eq_splitOn [DecidableEq α] {x : α} (h : IsSplit [x] parts l) :
    parts = l.splitOn x := by
  have hfree : ∀ part ∈ parts, x ∉ part := by
    intro part hpart hx
    obtain ⟨before, after, rfl⟩ := List.append_of_mem hx
    exact h.free _ hpart ⟨before, after, by simp⟩
  rw [← h.joined, List.splitOn_intercalate x hfree h.nonempty]

end Separators
