import Mathlib.Data.List.Basic

/-! # Computations that may stop with an error

When a sequence of fallible steps completes: the rules take a bind apart into the completion of its
first step and of the rest. `firstError` is the error that ends a loop over a list. -/

namespace Except

universe u v

variable {ε : Type u} {α β : Type v}

/-- The computation returns a value. -/
def Completes (x : Except ε α) : Prop := ∃ a, x = .ok a

@[simp] theorem completes_ok (a : α) : Completes (.ok a : Except ε α) := ⟨a, rfl⟩

@[simp] theorem completes_pure (a : α) : Completes (pure a : Except ε α) := ⟨a, rfl⟩

@[simp] theorem not_completes_error (e : ε) : ¬ Completes (.error e : Except ε α) := by
  rintro ⟨a, h⟩
  cases h

/-- A bind returns a value exactly when its first step does and the rest does from there. -/
theorem bind_eq_ok_iff {x : Except ε α} {f : α → Except ε β} {b : β} :
    (x >>= f) = .ok b ↔ ∃ a, x = .ok a ∧ f a = .ok b := by
  cases x with
  | error e =>
      constructor
      · intro h
        cases h
      · rintro ⟨a, h, -⟩
        cases h
  | ok a =>
      constructor
      · intro h
        exact ⟨a, rfl, h⟩
      · rintro ⟨a', h, hf⟩
        obtain rfl := Except.ok.inj h
        exact hf

/-- A bind completes exactly when its first step does and the rest does from there. -/
theorem completes_bind_iff {x : Except ε α} {f : α → Except ε β} :
    Completes (x >>= f) ↔ ∃ a, x = .ok a ∧ Completes (f a) := by
  unfold Completes
  constructor
  · rintro ⟨b, h⟩
    obtain ⟨a, hx, hf⟩ := bind_eq_ok_iff.mp h
    exact ⟨a, hx, b, hf⟩
  · rintro ⟨a, hx, b, hf⟩
    exact ⟨b, bind_eq_ok_iff.mpr ⟨a, hx, hf⟩⟩

/-- When the completion of the rest does not depend on the value, a bind completes exactly when both
parts do. -/
theorem completes_bind_of_forall {x : Except ε α} {f : α → Except ε β} {p : Prop}
    (h : ∀ a, x = .ok a → (Completes (f a) ↔ p)) : Completes (x >>= f) ↔ Completes x ∧ p := by
  rw [completes_bind_iff]
  constructor
  · rintro ⟨a, hx, hf⟩
    exact ⟨⟨a, hx⟩, (h a hx).mp hf⟩
  · rintro ⟨⟨a, hx⟩, hp⟩
    exact ⟨a, hx, (h a hx).mpr hp⟩

/-! ## Postconditions -/

/-- A value has `Q`, and an error is one that `F` allows. -/
def Ends (Q : α → Prop) (F : ε → Prop) : Except ε α → Prop
  | .ok a => Q a
  | .error e => F e

@[simp] theorem ends_ok {Q : α → Prop} {F : ε → Prop} {a : α} :
    Ends Q F (.ok a : Except ε α) ↔ Q a := Iff.rfl

@[simp] theorem ends_error {Q : α → Prop} {F : ε → Prop} {e : ε} :
    Ends Q F (.error e : Except ε α) ↔ F e := Iff.rfl

/-- Two postconditions of one computation. -/
theorem Ends.and {Q R : α → Prop} {F G : ε → Prop} {x : Except ε α} (hQ : Ends Q F x)
    (hR : Ends R G x) : Ends (fun a => Q a ∧ R a) F x := by
  cases x with
  | error e => exact hQ
  | ok a => exact ⟨hQ, hR⟩

/-- The rest of a bind starts with what its first step ends with. -/
theorem Ends.bind {Q : α → Prop} {R : β → Prop} {F : ε → Prop} {x : Except ε α}
    {f : α → Except ε β} (hx : Ends Q F x) (hf : ∀ a, Q a → Ends R F (f a)) :
    Ends R F (x >>= f) := by
  cases x with
  | error e => exact hx
  | ok a => exact hf a hx

/-- The rest of a bind starts with the value that is known of its first step. -/
theorem Ends.bind_of_eq {R : β → Prop} {F : ε → Prop} {x : Except ε α} {a : α}
    {f : α → Except ε β} (hx : x = .ok a) (hf : Ends R F (f a)) : Ends R F (x >>= f) := by
  rw [hx]
  exact hf

/-- A postcondition may be weakened, and more errors may be allowed. -/
theorem Ends.mono {Q R : α → Prop} {F G : ε → Prop} {x : Except ε α} (hx : Ends Q F x)
    (hQ : ∀ a, Q a → R a) (hF : ∀ e, F e → G e) : Ends R G x := by
  cases x with
  | error e => exact hF e hx
  | ok a => exact hQ a hx

/-! ## Loops -/

/-- The first error of a fallible function over a list. -/
def firstError (f : α → Except ε β) : List α → Option ε
  | [] => none
  | x :: xs =>
      match f x with
      | .error e => some e
      | .ok _ => firstError f xs

/-- The loop ends with the error of an element that it comes to: on those before, the function
returns. -/
theorem firstError_eq_some_iff {f : α → Except ε β} {xs : List α} {e : ε} :
    firstError f xs = some e ↔
      ∃ front x back, xs = front ++ x :: back ∧ (∀ y ∈ front, Completes (f y)) ∧
        f x = .error e := by
  induction xs with
  | nil => simp [firstError]
  | cons x xs ih =>
      rw [firstError]
      cases hx : f x with
      | error e' =>
          constructor
          · intro h
            rw [← Option.some.inj h]
            exact ⟨[], x, xs, rfl, by simp, hx⟩
          · rintro ⟨front, y, back, hxs, hfront, hy⟩
            cases front with
            | nil =>
                obtain ⟨rfl, -⟩ := List.cons.inj hxs
                rw [hx] at hy
                rw [Except.error.inj hy]
            -- an element before would have returned
            | cons z front =>
                obtain ⟨rfl, -⟩ := List.cons.inj hxs
                have hcompletes := hfront x List.mem_cons_self
                rw [hx] at hcompletes
                exact absurd hcompletes (not_completes_error e')
      | ok b =>
          rw [ih]
          constructor
          · rintro ⟨front, y, back, rfl, hfront, hy⟩
            exact ⟨x :: front, y, back, rfl, List.forall_mem_cons.mpr ⟨⟨b, hx⟩, hfront⟩, hy⟩
          · rintro ⟨front, y, back, hxs, hfront, hy⟩
            cases front with
            | nil =>
                obtain ⟨rfl, -⟩ := List.cons.inj hxs
                rw [hx] at hy
                cases hy
            | cons z front =>
                obtain ⟨rfl, rfl⟩ := List.cons.inj hxs
                exact ⟨front, y, back, rfl, (List.forall_mem_cons.mp hfront).2, hy⟩

end Except
