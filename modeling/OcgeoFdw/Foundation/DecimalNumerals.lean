import OcgeoFdw.Foundation.Binary64
import OcgeoFdw.Foundation.Decimals

/-! # Decimal numerals of doubles

`strtod` on decimal numerals, and their grammar: `strtod` takes the numeral at the start of a text,
and a numeral in front of a text that does not prolong it is taken whole. -/

namespace CString

/-! ## Reading: `strtod` -/

/-- The fraction of a numeral: the digits behind a point. -/
def takeFraction : CString → List ℕ × CString
  | [] => ([], [])
  | c :: s => if c = 46 then spanDigits 10 s else ([], c :: s)

/-- The exponent of a numeral, which needs a digit. -/
def takeExponent : CString → ℤ × CString
  | [] => (0, [])
  | c :: s =>
      if c = 101 ∨ c = 69 then
        let signed := takeSign s
        let spanned := spanDigits 10 signed.2
        if spanned.1 = [] then (0, c :: s)
        else
          (if signed.1 then -(magnitude 10 spanned.1 : ℤ) else magnitude 10 spanned.1, spanned.2)
      else (0, c :: s)

/-- A decimal numeral: its sign, its digits and the power of ten of the last digit. -/
structure DecimalNumeral where
  negative : Bool
  digits : List ℕ
  scale : ℤ
  deriving DecidableEq

/-- The magnitude a decimal numeral spells. -/
def DecimalNumeral.magnitude (n : DecimalNumeral) : ℚ :=
  CString.magnitude 10 n.digits * 10 ^ n.scale

/-- The decimal numeral at the start of a text, after white space, and the text behind it. -/
def readDecimal (s : CString) : DecimalNumeral × CString :=
  let signed := takeSign (s.dropWhile isSpace)
  let integral := spanDigits 10 signed.2
  let fraction := takeFraction integral.2
  let exponent := takeExponent fraction.2
  (⟨signed.1, integral.1 ++ fraction.1, exponent.1 - fraction.1.length⟩, exponent.2)

/-- `strtod (s, &endptr)` on decimal numerals: the nearest double and the text at `endptr`, which is
the whole text when there is no numeral. -/
def strtod (s : CString) : CDouble × CString :=
  let numeral := readDecimal s
  if numeral.1.digits = [] then (.finite (FiniteDouble.zero false), s)
  else (CDouble.ofMagnitude numeral.1.negative numeral.1.magnitude, numeral.2)

/-! ## Digits -/

/-- The characters of digits. -/
def digitBytes (ds : List ℕ) : CString := ds.map fun d => (48 + d).toUInt8

/-- The text of digits is as long as the digits. -/
@[simp] theorem length_digitBytes (ds : List ℕ) : (digitBytes ds).length = ds.length :=
  List.length_map _

/-- Digits side by side. -/
@[simp] theorem digitBytes_append (ds es : List ℕ) :
    digitBytes (ds ++ es) = digitBytes ds ++ digitBytes es :=
  List.map_append

/-- The byte of a decimal digit. -/
theorem toNat_digit {d : ℕ} (h : d < 10) : (48 + d).toUInt8.toNat = 48 + d := by
  simp
  omega

/-- The character of a decimal digit has its value. -/
theorem digitValue_digit {d : ℕ} (h : d < 10) : digitValue (48 + d).toUInt8 = some d := by
  rw [digitValue, toNat_digit h, if_pos (by omega), Nat.add_sub_cancel_left]

/-- A character with the value of a decimal digit is that digit. -/
theorem digit_of_digitValue {c : UInt8} {d : ℕ} (h : digitValue c = some d) (hd : d < 10) :
    c = (48 + d).toUInt8 := by
  rw [digitValue] at h
  refine UInt8.toNat.inj ?_
  rw [toNat_digit hd]
  split_ifs at h with h1 h2 h3
  · have := Option.some.inj h
    omega
  · have := Option.some.inj h
    omega
  · have := Option.some.inj h
    omega

/-- A text that does not start with a decimal digit. -/
def EndsDigits (s : CString) : Prop := ∀ c ∈ s.head?, ∀ d ∈ digitValue c, 10 ≤ d

/-- Digits are read whole when the text behind them does not go on with a digit. -/
theorem spanDigits_digitBytes {ds : List ℕ} (hds : ∀ d ∈ ds, d < 10) {rest : CString}
    (hrest : EndsDigits rest) : spanDigits 10 (digitBytes ds ++ rest) = (ds, rest) := by
  induction ds with
  | nil =>
      cases rest with
      | nil => rfl
      | cons c rest =>
          have hc := hrest c rfl
          change spanDigits 10 (c :: rest) = _
          rw [spanDigits]
          cases hd : digitValue c with
          | none => rfl
          | some d =>
              simp only
              rw [if_neg (not_lt.mpr (hc d hd))]
  | cons d ds ih =>
      have hd := hds d List.mem_cons_self
      have ih := ih fun e he => hds e (List.mem_cons_of_mem d he)
      change spanDigits 10 ((48 + d).toUInt8 :: (digitBytes ds ++ rest)) = _
      rw [spanDigits, digitValue_digit hd, ih]
      simp only
      rw [if_pos hd]

/-- The magnitude of digits side by side. -/
theorem magnitude_append (ds es : List ℕ) :
    magnitude 10 (ds ++ es) = magnitude 10 ds * 10 ^ es.length + magnitude 10 es := by
  rw [magnitude, magnitude, magnitude, List.reverse_append, Nat.ofDigits_append,
    List.length_reverse]
  ring

/-- Zeros have no magnitude. -/
@[simp] theorem magnitude_zeros (n : ℕ) : magnitude 10 (List.replicate n 0) = 0 := by
  induction n with
  | zero => rfl
  | succ n ih =>
      rw [List.replicate_succ', magnitude_append, ih]
      rfl

/-- Digits that are read stand at the start of the text. -/
theorem spanDigits_sound {s rest : CString} {ds : List ℕ} (h : spanDigits 10 s = (ds, rest)) :
    s = digitBytes ds ++ rest ∧ ∀ d ∈ ds, d < 10 := by
  have hnil : ∀ d ∈ ([] : List ℕ), d < 10 := fun d hd => absurd hd List.not_mem_nil
  induction s generalizing ds with
  | nil =>
      rw [spanDigits] at h
      obtain ⟨rfl, rfl⟩ := Prod.mk.inj h
      exact ⟨rfl, hnil⟩
  | cons c s ih =>
      rw [spanDigits] at h
      cases hd : digitValue c with
      | none =>
          rw [hd] at h
          obtain ⟨rfl, rfl⟩ := Prod.mk.inj h
          exact ⟨rfl, hnil⟩
      | some d =>
          rw [hd] at h
          simp only at h
          split at h
          · rename_i hlt
            obtain ⟨rfl, rfl⟩ := Prod.mk.inj h
            obtain ⟨hs, hds⟩ := ih rfl
            refine ⟨?_, List.forall_mem_cons.mpr ⟨hlt, hds⟩⟩
            have hc : c = (48 + d).toUInt8 := digit_of_digitValue hd hlt
            rw [hc]
            exact congrArg _ hs
          · obtain ⟨rfl, rfl⟩ := Prod.mk.inj h
            exact ⟨rfl, hnil⟩

/-! ## The grammar of numerals -/

/-- An optional sign: whether it is a minus. -/
inductive IsSign : CString → Bool → Prop
  | none : IsSign [] false
  | plus : IsSign [43] false
  | minus : IsSign [45] true

/-- An optional fraction: a point and its digits. -/
inductive IsFraction : CString → List ℕ → Prop
  | none : IsFraction [] []
  | point {ds : List ℕ} (hds : ∀ d ∈ ds, d < 10) : IsFraction (46 :: digitBytes ds) ds

/-- An optional exponent with at least one digit. -/
inductive IsExponent : CString → ℤ → Prop
  | none : IsExponent [] 0
  | mark {mark : UInt8} {sign : CString} {negative : Bool} {ds : List ℕ}
      (hmark : mark = 101 ∨ mark = 69) (hsign : IsSign sign negative) (hne : ds ≠ [])
      (hds : ∀ d ∈ ds, d < 10) :
      IsExponent (mark :: (sign ++ digitBytes ds))
        (if negative then -(magnitude 10 ds : ℤ) else magnitude 10 ds)

/-- A decimal numeral: an optional sign, digits with an optional point, at least one of them, and an
optional exponent. -/
inductive IsNumeral : CString → DecimalNumeral → Prop
  | intro {sign fraction exponent : CString} {negative : Bool} {integral fractional : List ℕ} {e : ℤ}
      (hsign : IsSign sign negative) (hintegral : ∀ d ∈ integral, d < 10)
      (hfraction : IsFraction fraction fractional) (hexponent : IsExponent exponent e)
      (hne : integral ++ fractional ≠ []) :
      IsNumeral (sign ++ (digitBytes integral ++ (fraction ++ exponent)))
        ⟨negative, integral ++ fractional, e - fractional.length⟩

/-! ## Numerals are read -/

/-- A text that does not prolong a numeral: it starts with no digit, point or exponent. -/
def EndsNumeral (s : CString) : Prop :=
  EndsDigits s ∧ ∀ c ∈ s.head?, c ≠ 46 ∧ c ≠ 101 ∧ c ≠ 69

/-- The end of a text ends a numeral. -/
theorem endsNumeral_nil : EndsNumeral [] := by
  constructor
  · intro c hc
    cases hc
  · intro c hc
    cases hc

/-- A sign is read in front of a character that is no space and no sign. -/
theorem takeSign_of_isSign {sign : CString} {negative : Bool} (hsign : IsSign sign negative)
    {s : CString} (hs : ∀ c ∈ s.head?, isSpace c = false ∧ c ≠ 45 ∧ c ≠ 43) :
    takeSign (sign ++ s) = (negative, s) ∧ (sign ++ s).dropWhile isSpace = sign ++ s := by
  cases hsign with
  | none =>
      cases s with
      | nil => exact ⟨rfl, rfl⟩
      | cons c s =>
          obtain ⟨hspace, hminus, hplus⟩ := hs c rfl
          refine ⟨?_, List.dropWhile_cons_of_neg (by simp [hspace])⟩
          rw [List.nil_append, takeSign, if_neg hminus, if_neg hplus]
  | plus => exact ⟨rfl, rfl⟩
  | minus => exact ⟨rfl, rfl⟩

/-- A digit is no space and no sign. -/
theorem digit_not_space {d : ℕ} (h : d < 10) :
    isSpace (48 + d).toUInt8 = false ∧ (48 + d).toUInt8 ≠ 45 ∧ (48 + d).toUInt8 ≠ 43 := by
  have hbyte := toNat_digit h
  have hne : ∀ c : UInt8, c.toNat < 48 → (48 + d).toUInt8 ≠ c := by
    intro c hc heq
    rw [← heq, hbyte] at hc
    omega
  have hspace : (48 + d).toUInt8 ≠ 32 := hne 32 (by decide)
  refine ⟨?_, hne 45 (by decide), hne 43 (by decide)⟩
  simp only [isSpace, hspace, decide_false, Bool.false_or, hbyte]
  simp
  omega

/-- An exponent is read in front of a text that does not prolong it. -/
theorem takeExponent_of_isExponent {exponent : CString} {e : ℤ} (h : IsExponent exponent e)
    {rest : CString} (hrest : EndsNumeral rest) : takeExponent (exponent ++ rest) = (e, rest) := by
  cases h with
  | none =>
      cases rest with
      | nil => rfl
      | cons c rest =>
          obtain ⟨-, h101, h69⟩ := hrest.2 c rfl
          rw [List.nil_append, takeExponent, if_neg (by simp [h101, h69])]
  | @mark mark sign negative ds hmark hsign hne hds =>
      obtain ⟨d, es, rfl⟩ := List.exists_cons_of_ne_nil hne
      have hhead : ∀ c ∈ (digitBytes (d :: es) ++ rest).head?,
          isSpace c = false ∧ c ≠ 45 ∧ c ≠ 43 := by
        intro c hc
        obtain rfl : (48 + d).toUInt8 = c := Option.some.inj hc
        exact digit_not_space (hds d List.mem_cons_self)
      rw [List.cons_append, List.append_assoc, takeExponent, if_pos hmark,
        (takeSign_of_isSign hsign hhead).1]
      simp only
      rw [spanDigits_digitBytes hds hrest.1]
      simp only
      rw [if_neg hne]

/-- A text that ends a numeral still does so behind an exponent. -/
theorem endsDigits_exponent {exponent : CString} {e : ℤ} (h : IsExponent exponent e)
    {rest : CString} (hrest : EndsNumeral rest) :
    EndsDigits (exponent ++ rest) ∧ (exponent ++ rest).head? ≠ some 46 := by
  cases h with
  | none => exact ⟨hrest.1, fun h => (hrest.2 46 h).1 rfl⟩
  | mark hmark hsign hne hds =>
      constructor
      · intro c hc d hd
        obtain rfl : _ = c := Option.some.inj hc
        have h14 : digitValue 101 = some 14 ∧ digitValue 69 = some 14 := ⟨rfl, rfl⟩
        rcases hmark with rfl | rfl
        · rw [h14.1] at hd
          obtain rfl : 14 = d := Option.some.inj hd
          norm_num
        · rw [h14.2] at hd
          obtain rfl : 14 = d := Option.some.inj hd
          norm_num
      · intro h
        have hmark' := Option.some.inj h
        rcases hmark with rfl | rfl
        · exact absurd hmark' (by decide)
        · exact absurd hmark' (by decide)

/-- A fraction is read in front of a text that does not go on with a digit or a point. -/
theorem takeFraction_of_isFraction {fraction : CString} {fractional : List ℕ}
    (h : IsFraction fraction fractional) {tail : CString} (htail : EndsDigits tail)
    (hpoint : tail.head? ≠ some 46) :
    takeFraction (fraction ++ tail) = (fractional, tail) ∧ EndsDigits (fraction ++ tail) := by
  cases h with
  | none =>
      refine ⟨?_, htail⟩
      cases tail with
      | nil => rfl
      | cons c tail =>
          have hc : c ≠ 46 := fun h => hpoint (by rw [h]; rfl)
          rw [List.nil_append, takeFraction, if_neg hc]
  | point hds =>
      constructor
      · rw [List.cons_append, takeFraction, if_pos rfl]
        exact spanDigits_digitBytes hds htail
      · intro c hc e he
        obtain rfl : 46 = c := Option.some.inj hc
        have hnone : digitValue 46 = none := rfl
        rw [hnone] at he
        exact absurd he (Option.not_mem_none e)

/-- **A numeral in front of a text that does not prolong it is read whole.** -/
theorem readDecimal_of_isNumeral {text rest : CString} {n : DecimalNumeral} (h : IsNumeral text n)
    (hrest : EndsNumeral rest) : readDecimal (text ++ rest) = (n, rest) := by
  obtain @⟨sign, fraction, exponent, negative, integral, fractional, e, hsign, hintegral,
    hfraction, hexponent, hne⟩ := h
  obtain ⟨htail, hpoint⟩ := endsDigits_exponent hexponent hrest
  obtain ⟨hfrac, hends⟩ := takeFraction_of_isFraction hfraction htail hpoint
  -- behind the sign stands a digit or the point, so the sign is read as it is
  have hhead : ∀ c ∈ (digitBytes integral ++ (fraction ++ (exponent ++ rest))).head?,
      isSpace c = false ∧ c ≠ 45 ∧ c ≠ 43 := by
    intro c hc
    cases integral with
    | cons d ds =>
        obtain rfl : (48 + d).toUInt8 = c := Option.some.inj hc
        exact digit_not_space (hintegral d List.mem_cons_self)
    | nil =>
        cases hfraction with
        | none => exact absurd rfl hne
        | point hds =>
            obtain rfl : 46 = c := Option.some.inj hc
            decide
  obtain ⟨htake, hdrop⟩ := takeSign_of_isSign hsign hhead
  have htext : sign ++ (digitBytes integral ++ (fraction ++ exponent)) ++ rest =
      sign ++ (digitBytes integral ++ (fraction ++ (exponent ++ rest))) := by
    simp only [List.append_assoc]
  rw [htext, readDecimal, hdrop, htake]
  simp only
  rw [spanDigits_digitBytes hintegral hends]
  simp only
  rw [hfrac]
  simp only
  rw [takeExponent_of_isExponent hexponent hrest]

/-- A numeral has a digit. -/
theorem IsNumeral.digits_ne_nil {text : CString} {n : DecimalNumeral} (h : IsNumeral text n) :
    n.digits ≠ [] := by
  cases h
  assumption

/-- **`strtod` converts a numeral to the nearest double** and stops behind it. -/
theorem strtod_of_isNumeral {text rest : CString} {n : DecimalNumeral} (h : IsNumeral text n)
    (hrest : EndsNumeral rest) :
    strtod (text ++ rest) = (CDouble.ofMagnitude n.negative n.magnitude, rest) := by
  rw [strtod]
  simp only [readDecimal_of_isNumeral h hrest, if_neg h.digits_ne_nil]

/-! ## The characters of a numeral -/

/-- A character of a decimal numeral: a digit, a sign, a point or the mark of an exponent. -/
def IsNumeralByte (c : UInt8) : Prop :=
  (48 ≤ c.toNat ∧ c.toNat ≤ 57) ∨ c = 43 ∨ c = 45 ∨ c = 101 ∨ c = 69 ∨ c = 46

/-- The text of digits consists of digits. -/
theorem isNumeralByte_digitBytes {ds : List ℕ} (hds : ∀ d ∈ ds, d < 10) :
    ∀ c ∈ digitBytes ds, IsNumeralByte c := by
  intro c hc
  obtain ⟨d, hd, rfl⟩ := List.mem_map.mp hc
  left
  rw [toNat_digit (hds d hd)]
  have := hds d hd
  omega

/-- A sign is a character of numerals. -/
theorem IsSign.isNumeralByte {sign : CString} {negative : Bool} (h : IsSign sign negative) :
    ∀ c ∈ sign, IsNumeralByte c := by
  intro c hc
  cases h with
  | none => exact absurd hc List.not_mem_nil
  | plus => exact Or.inr (Or.inl (List.mem_singleton.mp hc))
  | minus => exact Or.inr (Or.inr (Or.inl (List.mem_singleton.mp hc)))

/-- **A numeral consists of the characters of numerals**, and it is not empty. -/
theorem IsNumeral.isNumeralByte {text : CString} {n : DecimalNumeral} (h : IsNumeral text n) :
    text ≠ [] ∧ ∀ c ∈ text, IsNumeralByte c := by
  obtain @⟨sign, fraction, exponent, negative, integral, fractional, e, hsign, hintegral,
    hfraction, hexponent, hne⟩ := h
  have hfrac : ∀ c ∈ fraction, IsNumeralByte c := by
    intro c hc
    cases hfraction with
    | none => exact absurd hc List.not_mem_nil
    | point hds =>
        rcases List.mem_cons.mp hc with hc | hc
        · exact Or.inr (Or.inr (Or.inr (Or.inr (Or.inr hc))))
        · exact isNumeralByte_digitBytes hds c hc
  have hexp : ∀ c ∈ exponent, IsNumeralByte c := by
    intro c hc
    cases hexponent with
    | none => exact absurd hc List.not_mem_nil
    | mark hmark hsign hne hds =>
        rcases List.mem_cons.mp hc with hc | hc
        · rcases hmark with rfl | rfl
          · exact Or.inr (Or.inr (Or.inr (Or.inl hc)))
          · exact Or.inr (Or.inr (Or.inr (Or.inr (Or.inl hc))))
        · rcases List.mem_append.mp hc with hc | hc
          · exact hsign.isNumeralByte c hc
          · exact isNumeralByte_digitBytes hds c hc
  constructor
  · intro hnil
    simp only [List.append_eq_nil_iff] at hnil
    obtain ⟨-, hint, hfrac, -⟩ := hnil
    refine hne (List.append_eq_nil_iff.mpr ⟨List.map_eq_nil_iff.mp hint, ?_⟩)
    rw [hfrac] at hfraction
    cases hfraction
    rfl
  · intro c hc
    simp only [List.mem_append] at hc
    rcases hc with hc | hc | hc | hc
    · exact hsign.isNumeralByte c hc
    · exact isNumeralByte_digitBytes hintegral c hc
    · exact hfrac c hc
    · exact hexp c hc

/-! ## What is read is a numeral -/

/-- A sign that is read stands at the start of the text. -/
theorem takeSign_sound (s : CString) :
    ∃ sign, IsSign sign (takeSign s).1 ∧ s = sign ++ (takeSign s).2 := by
  cases s with
  | nil => exact ⟨[], .none, rfl⟩
  | cons c s =>
      rw [takeSign]
      split
      · rename_i h
        exact ⟨[45], .minus, by rw [h]; rfl⟩
      · split
        · rename_i h
          exact ⟨[43], .plus, by rw [h]; rfl⟩
        · exact ⟨[], .none, rfl⟩

/-- A fraction that is read stands at the start of the text. -/
theorem takeFraction_sound (s : CString) :
    ∃ fraction, IsFraction fraction (takeFraction s).1 ∧ s = fraction ++ (takeFraction s).2 := by
  cases s with
  | nil => exact ⟨[], .none, rfl⟩
  | cons c s =>
      rw [takeFraction]
      split
      · rename_i h
        obtain ⟨hs, hds⟩ := spanDigits_sound (rfl : spanDigits 10 s = _)
        refine ⟨46 :: digitBytes (spanDigits 10 s).1, .point hds, ?_⟩
        rw [h, List.cons_append, ← hs]
      · exact ⟨[], .none, rfl⟩

/-- An exponent that is read stands at the start of the text. -/
theorem takeExponent_sound (s : CString) :
    ∃ exponent, IsExponent exponent (takeExponent s).1 ∧ s = exponent ++ (takeExponent s).2 := by
  cases s with
  | nil => exact ⟨[], .none, rfl⟩
  | cons c s =>
      rw [takeExponent]
      split
      · rename_i hmark
        obtain ⟨sign, hsign, hs⟩ := takeSign_sound s
        obtain ⟨hdigits, hds⟩ := spanDigits_sound (rfl : spanDigits 10 (takeSign s).2 = _)
        simp only
        split
        · exact ⟨[], .none, rfl⟩
        · rename_i hne
          refine ⟨c :: (sign ++ digitBytes (spanDigits 10 (takeSign s).2).1),
            .mark hmark hsign hne hds, ?_⟩
          rw [List.cons_append, List.append_assoc, ← hdigits, ← hs]
      · exact ⟨[], .none, rfl⟩

/-- **A numeral that is read stands at the start of the text**, if the text does not start with white
space. -/
theorem isNumeral_of_readDecimal {s rest : CString} {n : DecimalNumeral}
    (hspace : s.dropWhile isSpace = s) (h : readDecimal s = (n, rest)) (hne : n.digits ≠ []) :
    ∃ text, IsNumeral text n ∧ s = text ++ rest := by
  rw [readDecimal, hspace] at h
  obtain ⟨rfl, rfl⟩ := Prod.mk.inj h
  obtain ⟨sign, hsign, hs⟩ := takeSign_sound s
  obtain ⟨hdigits, hds⟩ := spanDigits_sound (rfl : spanDigits 10 (takeSign s).2 = _)
  obtain ⟨fraction, hfraction, hf⟩ := takeFraction_sound (spanDigits 10 (takeSign s).2).2
  obtain ⟨exponent, hexponent, he⟩ :=
    takeExponent_sound (takeFraction (spanDigits 10 (takeSign s).2).2).2
  refine ⟨_, .intro hsign hds hfraction hexponent hne, ?_⟩
  rw [List.append_assoc, List.append_assoc, List.append_assoc, ← he, ← hf, ← hdigits, ← hs]

end CString
