import OcgeoFdw.Foundation.DecimalNumerals

/-! # The `%g` conversion

How `printf` writes a double with `P` significant digits. A double printed with seventeen or more is
read back exactly by `strtod`, whatever text follows the numeral. -/

namespace CString

/-! ## Printing: `%g` -/

/-- The decimal digits of a number, most significant first; none for zero. -/
def decimalDigits (n : ℕ) : List ℕ := (Nat.digits 10 n).reverse

/-- The `P` significant digits nearest to a positive number, and the power of ten of the first. -/
def significantDigits (P : ℕ) (x : ℚ) : List ℕ × ℤ :=
  let X := Int.log 10 x
  let m := Rounding.significand 10 (X - (P - 1 : ℤ)) x
  if m < 10 ^ P then (decimalDigits m, X) else (decimalDigits (10 ^ (P - 1)), X + 1)

/-- The digits without the zeros at the end. -/
def stripZeros (ds : List ℕ) : List ℕ := (ds.reverse.dropWhile (· == 0)).reverse

/-- Integral digits and, behind a point, the fraction if there is one. -/
def digitsWithPoint (integral fraction : List ℕ) : CString :=
  digitBytes integral ++ if fraction = [] then [] else 46 :: digitBytes fraction

/-- The digits in the style of `%f`: `X` is the power of ten of the first. -/
def fixedText (ds : List ℕ) (X : ℤ) : CString :=
  if 0 ≤ X then
    let n := X.toNat + 1
    digitsWithPoint (ds.take n ++ List.replicate (n - ds.length) 0) (ds.drop n)
  else digitsWithPoint [0] (List.replicate (-X - 1).toNat 0 ++ ds)

/-- The digits in the style of `%e`, with at least two digits in the exponent. -/
def exponentText (ds : List ℕ) (X : ℤ) : CString :=
  let e := decimalDigits X.natAbs
  digitsWithPoint (ds.take 1) (ds.drop 1) ++ 101 :: (if X < 0 then 45 else 43) ::
    digitBytes (List.replicate (2 - e.length) 0 ++ e)

/-- The digits that `%.{P}g` prints, and the power of ten of the first. -/
def printedDigits (P : ℕ) (d : FiniteDouble) : List ℕ × ℤ :=
  if d.significand = 0 then ([0], 0) else significantDigits P d.magnitude

/-- `%.{P}g` of a finite double: the style of `%e` for exponents below `-4` or from `P` on, and no
zeros at the end of a fraction. -/
def showGeneral (P : ℕ) (d : FiniteDouble) : CString :=
  let ds := stripZeros (printedDigits P d).1
  let X := (printedDigits P d).2
  (if d.negative then [45] else []) ++
    if -4 ≤ X ∧ X < P then fixedText ds X else exponentText ds X

/-! ## Digits -/

/-- The digits of a number spell it. -/
@[simp] theorem magnitude_decimalDigits (n : ℕ) : magnitude 10 (decimalDigits n) = n := by
  rw [magnitude, decimalDigits, List.reverse_reverse, Nat.ofDigits_digits]

/-- The digits of a number are decimal. -/
theorem decimalDigits_lt {n d : ℕ} (h : d ∈ decimalDigits n) : d < 10 :=
  Nat.digits_lt_base (by norm_num) (List.mem_reverse.mp h)

/-- How many digits a number has. -/
theorem length_decimalDigits {n P : ℕ} (hP : 0 < P) (hlow : 10 ^ (P - 1) ≤ n) (hhigh : n < 10 ^ P) :
    (decimalDigits n).length = P := by
  have hle : (Nat.digits 10 n).length ≤ P :=
    (Nat.digits_length_le_iff (by norm_num) n).mpr hhigh
  have hlt : P - 1 < (Nat.digits 10 n).length :=
    (Nat.lt_digits_length_iff (by norm_num) n).mpr hlow
  rw [decimalDigits, List.length_reverse]
  omega

/-- Stripping takes zeros off the end. -/
theorem stripZeros_append (ds : List ℕ) :
    ∃ n, ds = stripZeros ds ++ List.replicate n 0 := by
  refine ⟨(ds.reverse.takeWhile (· == 0)).length, ?_⟩
  have hzeros : ds.reverse.takeWhile (· == 0) =
      List.replicate (ds.reverse.takeWhile (· == 0)).length 0 := by
    refine List.eq_replicate_of_mem fun d hd => ?_
    exact beq_iff_eq.mp (List.all_eq_true.mp List.all_takeWhile d hd)
  have hsplit := congrArg List.reverse (List.takeWhile_append_dropWhile (p := (· == 0))
    (l := ds.reverse))
  rw [List.reverse_append, List.reverse_reverse] at hsplit
  rw [stripZeros, ← List.reverse_replicate, ← hzeros]
  exact hsplit.symm

/-! ## The value of a printed number -/

/-- The number that digits spell when the first stands for `10 ^ X`. -/
def digitsValue (ds : List ℕ) (X : ℤ) : ℚ := magnitude 10 ds * 10 ^ (X + 1 - ds.length)

/-- Zeros at the end of the digits do not change the number. -/
theorem digitsValue_append_zeros (ds : List ℕ) (n : ℕ) (X : ℤ) :
    digitsValue (ds ++ List.replicate n 0) X = digitsValue ds X := by
  have hexp : X + 1 - (ds.length : ℤ) = n + (X + 1 - (ds ++ List.replicate n 0).length) := by
    rw [List.length_append, List.length_replicate]
    push_cast
    ring
  rw [digitsValue, digitsValue, hexp, zpow_add₀ (by norm_num), zpow_natCast, magnitude_append,
    magnitude_zeros, List.length_replicate]
  push_cast
  ring

/-- Stripping zeros does not change the number. -/
theorem digitsValue_stripZeros (ds : List ℕ) (X : ℤ) :
    digitsValue (stripZeros ds) X = digitsValue ds X := by
  obtain ⟨n, hn⟩ := stripZeros_append ds
  rw [← digitsValue_append_zeros (stripZeros ds) n, ← hn]

/-! ## Printed numbers are numerals -/

/-- The sign that is printed in front of a negative number. -/
theorem isSign_printed (negative : Bool) : IsSign (if negative then [45] else []) negative := by
  cases negative with
  | true => exact .minus
  | false => exact .none

/-- The fraction that is printed. -/
theorem isFraction_printed {fraction : List ℕ} (h : ∀ d ∈ fraction, d < 10) :
    IsFraction (if fraction = [] then [] else 46 :: digitBytes fraction) fraction := by
  split
  · rename_i hnil
    rw [hnil]
    exact .none
  · exact .point h

/-- Digits with zeros in front of them are decimal. -/
theorem lt_of_mem_zeros_append {ds : List ℕ} (hds : ∀ d ∈ ds, d < 10) (n : ℕ) :
    ∀ d ∈ List.replicate n 0 ++ ds, d < 10 := by
  intro d hd
  rcases List.mem_append.mp hd with hd | hd
  · rw [List.eq_of_mem_replicate hd]
    norm_num
  · exact hds d hd

/-- Digits with zeros behind them are decimal. -/
theorem lt_of_mem_append_zeros {ds : List ℕ} (hds : ∀ d ∈ ds, d < 10) (n : ℕ) :
    ∀ d ∈ ds ++ List.replicate n 0, d < 10 :=
  fun d hd => lt_of_mem_zeros_append hds n d (List.mem_append.mpr (List.mem_append.mp hd).symm)

/-- The exponent that is printed. -/
theorem isExponent_printed (X : ℤ) :
    IsExponent (101 :: (if X < 0 then 45 else 43) :: digitBytes (List.replicate
      (2 - (decimalDigits X.natAbs).length) 0 ++ decimalDigits X.natAbs)) X := by
  set ds := List.replicate (2 - (decimalDigits X.natAbs).length) 0 ++ decimalDigits X.natAbs with hds
  have hlt : ∀ d ∈ ds, d < 10 := lt_of_mem_zeros_append (fun e he => decimalDigits_lt he) _
  have hne : ds ≠ [] := by
    intro hnil
    have hlen := congrArg List.length hnil
    rw [hds, List.length_append, List.length_replicate, List.length_nil] at hlen
    omega
  have hvalue : magnitude 10 ds = X.natAbs := by
    rw [hds, magnitude_append, magnitude_zeros, magnitude_decimalDigits, zero_mul, zero_add]
  by_cases hX : X < 0
  · have h := IsExponent.mark (Or.inl rfl) IsSign.minus hne hlt
    rw [if_pos rfl, hvalue, Int.ofNat_natAbs_of_nonpos hX.le, neg_neg] at h
    rw [if_pos hX]
    exact h
  · have h := IsExponent.mark (Or.inl rfl) IsSign.plus hne hlt
    rw [if_neg (by decide), hvalue, Int.natAbs_of_nonneg (not_lt.mp hX)] at h
    rw [if_neg hX]
    exact h

/-- The digits in the style of `%f` are a numeral. -/
theorem isNumeral_fixedText (negative : Bool) {ds : List ℕ} (hds : ∀ d ∈ ds, d < 10) (X : ℤ) :
    ∃ n, IsNumeral ((if negative then [45] else []) ++ fixedText ds X) n ∧
      n.negative = negative ∧ n.magnitude = digitsValue ds X := by
  by_cases hX : 0 ≤ X
  · rw [fixedText, if_pos hX]
    simp only
    set n := X.toNat + 1 with hn
    set padding := List.replicate (n - ds.length) 0 with hpadding
    have htake : ∀ d ∈ ds.take n ++ padding, d < 10 :=
      lt_of_mem_append_zeros (fun d hd => hds d (List.mem_of_mem_take hd)) _
    have hdrop : ∀ d ∈ ds.drop n, d < 10 := fun d hd => hds d (List.mem_of_mem_drop hd)
    have hne : ds.take n ++ padding ++ ds.drop n ≠ [] := by
      intro hnil
      have hlen := congrArg List.length hnil
      simp only [hpadding, List.length_append, List.length_take, List.length_replicate,
        List.length_drop, List.length_nil] at hlen
      omega
    have hnumeral := IsNumeral.intro (isSign_printed negative) htake (isFraction_printed hdrop)
      IsExponent.none hne
    rw [List.append_nil] at hnumeral
    refine ⟨_, hnumeral, rfl, ?_⟩
    -- either there is no fraction, or no zero is missing in front of the point
    rw [DecimalNumeral.magnitude]
    simp only
    rcases le_total ds.length n with hlen | hlen
    · rw [List.take_of_length_le hlen, List.drop_of_length_le hlen, List.append_nil, hpadding,
        ← digitsValue_append_zeros ds (n - ds.length), digitsValue]
      congr 2
      rw [List.length_append, List.length_replicate, List.length_nil]
      omega
    · rw [hpadding, Nat.sub_eq_zero_of_le hlen, List.replicate_zero, List.append_nil,
        List.take_append_drop, List.length_drop, digitsValue]
      congr 2
      omega
  · rw [fixedText, if_neg hX]
    have hlt : ∀ d ∈ List.replicate (-X - 1).toNat 0 ++ ds, d < 10 :=
      lt_of_mem_zeros_append hds _
    have hnumeral := IsNumeral.intro (isSign_printed negative) (by simp : ∀ d ∈ [0], d < 10)
      (isFraction_printed hlt) IsExponent.none (List.cons_ne_nil _ _)
    rw [List.append_nil] at hnumeral
    refine ⟨_, hnumeral, rfl, ?_⟩
    have hfirst : magnitude 10 [0] = 0 := rfl
    have hzeros : magnitude 10 ([0] ++ (List.replicate (-X - 1).toNat 0 ++ ds)) =
        magnitude 10 ds := by
      rw [magnitude_append, magnitude_append, magnitude_zeros, hfirst, zero_mul, zero_mul,
        zero_add, zero_add]
    rw [DecimalNumeral.magnitude, digitsValue]
    simp only
    rw [hzeros, List.length_append, List.length_replicate]
    congr 2
    omega

/-- The digits in the style of `%e` are a numeral. -/
theorem isNumeral_exponentText (negative : Bool) {ds : List ℕ} (hne : ds ≠ [])
    (hds : ∀ d ∈ ds, d < 10) (X : ℤ) :
    ∃ n, IsNumeral ((if negative then [45] else []) ++ exponentText ds X) n ∧
      n.negative = negative ∧ n.magnitude = digitsValue ds X := by
  have htake : ∀ d ∈ ds.take 1, d < 10 := fun d hd => hds d (List.mem_of_mem_take hd)
  have hdrop : ∀ d ∈ ds.drop 1, d < 10 := fun d hd => hds d (List.mem_of_mem_drop hd)
  have hne' : ds.take 1 ++ ds.drop 1 ≠ [] := by rwa [List.take_append_drop]
  have hnumeral := IsNumeral.intro (isSign_printed negative) htake (isFraction_printed hdrop)
    (isExponent_printed X) hne'
  rw [exponentText, digitsWithPoint, List.append_assoc]
  refine ⟨_, hnumeral, rfl, ?_⟩
  have hpos := List.length_pos_iff.mpr hne
  rw [DecimalNumeral.magnitude, digitsValue]
  simp only
  rw [List.take_append_drop, List.length_drop]
  congr 2
  omega

/-! ## Significant digits -/

/-- Rounding a positive number to `P` digits gives `P` of them, or carries to the next power of
ten; the number they spell is off by at most half a unit of the last digit. -/
theorem significantDigits_spec {P : ℕ} (hP : 0 < P) {x : ℚ} (hx : 0 < x) :
    (significantDigits P x).1.length = P ∧ (∀ d ∈ (significantDigits P x).1, d < 10) ∧
      |x - digitsValue (significantDigits P x).1 (significantDigits P x).2| ≤
        10 ^ (Int.log 10 x - (P - 1 : ℤ)) / 2 := by
  set k := Int.log 10 x - (P - 1 : ℤ) with hk
  set m := Rounding.significand 10 k x with hm
  have hlow := (Rounding.mem_of_log (b := 10) (by norm_num) hx hP hk).1
  have hhigh := (Rounding.mem_of_log (b := 10) (by norm_num) hx hP hk).2
  have hmem := Rounding.significand_mem (by norm_num) hlow hhigh.le
  have herror := Rounding.abs_sub_significand_le (b := 10) (k := k) (by norm_num) hx.le
  rw [← hm] at hmem herror
  rw [significantDigits, ← hk, ← hm]
  split
  · rename_i hlt
    have hlen := length_decimalDigits hP hmem.1 hlt
    refine ⟨hlen, fun d hd => decimalDigits_lt hd, ?_⟩
    have hexp : Int.log 10 x + 1 - ((decimalDigits m).length : ℤ) = k := by
      rw [hlen, hk]
      ring
    rw [digitsValue, magnitude_decimalDigits, hexp]
    exact_mod_cast herror
  · rename_i hge
    -- rounding has carried to the next power of ten: the digits are a one and zeros
    have hcarry : m = 10 ^ P := le_antisymm hmem.2 (not_lt.mp hge)
    have hlen : (decimalDigits (10 ^ (P - 1))).length = P :=
      length_decimalDigits hP le_rfl (Nat.pow_lt_pow_right (by norm_num) (by omega))
    refine ⟨hlen, fun d hd => decimalDigits_lt hd, ?_⟩
    have hvalue : digitsValue (decimalDigits (10 ^ (P - 1))) (Int.log 10 x + 1) =
        (m : ℚ) * 10 ^ k := by
      have hexp : Int.log 10 x + 1 + 1 - (P : ℤ) = 1 + k := by
        rw [hk]
        ring
      have hpow : (10 : ℚ) ^ P = 10 ^ (P - 1) * 10 := by
        rw [← pow_succ, Nat.sub_add_cancel hP]
      rw [digitsValue, magnitude_decimalDigits, hlen, hexp, hcarry, zpow_add₀ (by norm_num),
        zpow_one]
      push_cast
      rw [hpow]
      ring
    rw [hvalue]
    exact_mod_cast herror

/-- The digits of a positive number spell a positive number. -/
theorem significantDigits_pos {P : ℕ} (hP : 0 < P) {x : ℚ} (hx : 0 < x) :
    0 < digitsValue (significantDigits P x).1 (significantDigits P x).2 := by
  have herror := (significantDigits_spec hP hx).2.2
  have hunit : (0 : ℚ) < 10 ^ (Int.log 10 x - (P - 1 : ℤ)) := zpow_pos (by norm_num) _
  have hlog : (10 : ℚ) ^ Int.log 10 x ≤ x := by
    exact_mod_cast Int.zpow_log_le_self (b := 10) (by norm_num) hx
  have hle : (10 : ℚ) ^ (Int.log 10 x - (P - 1 : ℤ)) ≤ x :=
    le_trans (zpow_le_zpow_right₀ (by norm_num) (by omega)) hlog
  linarith [(abs_le.mp herror).2]

/-! ## Printing and reading back -/

/-- The stripped digits are among the digits. -/
theorem mem_of_mem_stripZeros {ds : List ℕ} {e : ℕ} (he : e ∈ stripZeros ds) : e ∈ ds := by
  obtain ⟨n, hn⟩ := stripZeros_append ds
  rw [hn]
  exact List.mem_append_left _ he

/-- The digits that are printed are decimal. -/
theorem printedDigits_lt {P : ℕ} (hP : 0 < P) (d : FiniteDouble) {e : ℕ}
    (he : e ∈ stripZeros (printedDigits P d).1) : e < 10 := by
  have hmem := mem_of_mem_stripZeros he
  rw [printedDigits] at hmem
  split at hmem
  · rw [List.mem_singleton.mp hmem]
    norm_num
  · rename_i hsig
    exact (significantDigits_spec hP (d.magnitude_pos hsig)).2.1 e hmem

/-- A digit string that is not all zeros keeps a digit when it is stripped. -/
theorem stripZeros_ne_nil {ds : List ℕ} {X : ℤ} (h : digitsValue ds X ≠ 0) : stripZeros ds ≠ [] := by
  intro hnil
  rw [← digitsValue_stripZeros, hnil, digitsValue] at h
  simp at h

/-- What is printed in the style of `%e` is not zero, so it keeps a digit. -/
theorem stripZeros_printedDigits_ne_nil {P : ℕ} (hP : 0 < P) (d : FiniteDouble)
    (hstyle : ¬(-4 ≤ (printedDigits P d).2 ∧ (printedDigits P d).2 < P)) :
    stripZeros (printedDigits P d).1 ≠ [] := by
  have hsig : d.significand ≠ 0 := by
    intro hsig
    rw [printedDigits, if_pos hsig] at hstyle
    refine hstyle ⟨by norm_num, ?_⟩
    change (0 : ℤ) < P
    exact_mod_cast hP
  refine stripZeros_ne_nil (X := (printedDigits P d).2) ?_
  rw [printedDigits, if_neg hsig]
  exact (significantDigits_pos hP (d.magnitude_pos hsig)).ne'

/-- **A printed double is a numeral that spells its digits.** -/
theorem isNumeral_showGeneral {P : ℕ} (hP : 0 < P) (d : FiniteDouble) :
    ∃ n, IsNumeral (showGeneral P d) n ∧ n.negative = d.negative ∧
      n.magnitude = digitsValue (printedDigits P d).1 (printedDigits P d).2 := by
  have hlt : ∀ e ∈ stripZeros (printedDigits P d).1, e < 10 := fun e he => printedDigits_lt hP d he
  rw [← digitsValue_stripZeros, showGeneral]
  by_cases hstyle : -4 ≤ (printedDigits P d).2 ∧ (printedDigits P d).2 < P
  · simp only [if_pos hstyle]
    exact isNumeral_fixedText d.negative hlt _
  · simp only [if_neg hstyle]
    exact isNumeral_exponentText d.negative (stripZeros_printedDigits_ne_nil hP d hstyle) hlt _

/-- A number with a point starts with its first digit. -/
theorem digitsWithPoint_starts {integral : List ℕ} (hne : integral ≠ []) (hlt : ∀ d ∈ integral, d < 10)
    (fraction : List ℕ) (rest : CString) :
    ∃ c tail, digitsWithPoint integral fraction ++ rest = c :: tail ∧ 48 ≤ c.toNat ∧ c.toNat ≤ 57 := by
  obtain ⟨d, ds, rfl⟩ := List.exists_cons_of_ne_nil hne
  have hd := hlt d List.mem_cons_self
  refine ⟨(48 + d).toUInt8, _, rfl, ?_, ?_⟩
  · rw [toNat_digit hd]
    omega
  · rw [toNat_digit hd]
    omega

/-- **A printed double starts with a minus or a digit.** -/
theorem showGeneral_starts {P : ℕ} (hP : 0 < P) (d : FiniteDouble) :
    ∃ c tail, showGeneral P d = c :: tail ∧ (c = 45 ∨ (48 ≤ c.toNat ∧ c.toNat ≤ 57)) := by
  have hlt : ∀ e ∈ stripZeros (printedDigits P d).1, e < 10 := fun e he => printedDigits_lt hP d he
  rw [showGeneral]
  cases d.negative with
  | true => exact ⟨45, _, rfl, Or.inl rfl⟩
  | false =>
      simp only [Bool.false_eq_true, if_false, List.nil_append]
      by_cases hstyle : -4 ≤ (printedDigits P d).2 ∧ (printedDigits P d).2 < P
      · rw [if_pos hstyle, fixedText]
        by_cases hX : 0 ≤ (printedDigits P d).2
        · rw [if_pos hX]
          simp only
          set n := (printedDigits P d).2.toNat + 1 with hn
          have hne : (stripZeros (printedDigits P d).1).take n ++
              List.replicate (n - (stripZeros (printedDigits P d).1).length) 0 ≠ [] := by
            intro hnil
            have hlen := congrArg List.length hnil
            simp only [List.length_append, List.length_take, List.length_replicate,
              List.length_nil] at hlen
            omega
          obtain ⟨c, tail, htext, hc⟩ := digitsWithPoint_starts hne
            (lt_of_mem_append_zeros (fun e he => hlt e (List.mem_of_mem_take he)) _)
            ((stripZeros (printedDigits P d).1).drop n) []
          rw [List.append_nil] at htext
          exact ⟨c, tail, htext, Or.inr hc⟩
        · rw [if_neg hX]
          exact ⟨48, _, rfl, Or.inr (by decide)⟩
      · rw [if_neg hstyle, exponentText]
        have hne := stripZeros_printedDigits_ne_nil hP d hstyle
        obtain ⟨c, tail, htext, hc⟩ := digitsWithPoint_starts
          (by simpa using hne : (stripZeros (printedDigits P d).1).take 1 ≠ [])
          (fun e he => hlt e (List.mem_of_mem_take he)) _ _
        exact ⟨c, tail, htext, Or.inr hc⟩

/-- Reading a printed double rounds the number that its digits spell. -/
theorem strtod_showGeneral {P : ℕ} (hP : 0 < P) (d : FiniteDouble) {rest : CString}
    (hrest : EndsNumeral rest) :
    strtod (showGeneral P d ++ rest) =
      (CDouble.ofMagnitude d.negative
        (digitsValue (printedDigits P d).1 (printedDigits P d).2), rest) := by
  obtain ⟨n, hnumeral, hsign, hmag⟩ := isNumeral_showGeneral hP d
  rw [strtod_of_isNumeral hnumeral hrest, hsign, hmag]

/-- **A double printed with at least seventeen significant digits is read back exactly**, with its
sign, whatever follows the numeral. -/
theorem strtod_showGeneral_eq {P : ℕ} (hP : 17 ≤ P) (d : FiniteDouble) {rest : CString}
    (hrest : EndsNumeral rest) : strtod (showGeneral P d ++ rest) = (.finite d, rest) := by
  rw [strtod_showGeneral (by omega) d hrest]
  congr 1
  rw [printedDigits]
  split
  · rename_i hsig
    have hzero : digitsValue [0] 0 = 0 := by
      norm_num [digitsValue, magnitude]
    rw [hzero, CDouble.ofMagnitude_zero (d.magnitude_eq_zero_iff.mpr hsig)]
  · rename_i hsig
    have hpos := d.magnitude_pos hsig
    have herror := (significantDigits_spec (P := P) (by omega) hpos).2.2
    have hle : (10 : ℚ) ^ Int.log 10 d.magnitude ≤ d.magnitude := by
      exact_mod_cast Int.zpow_log_le_self (b := 10) (by norm_num) hpos
    have hunit : (10 : ℚ) ^ (Int.log 10 d.magnitude - (P - 1 : ℤ)) ≤ d.magnitude / 10 ^ 16 := by
      rw [le_div_iff₀ (by norm_num), ← zpow_natCast, ← zpow_add₀ (by norm_num)]
      exact le_trans (zpow_le_zpow_right₀ (by norm_num) (by omega)) hle
    refine CDouble.ofMagnitude_of_near ?_
    rw [abs_sub_comm]
    calc _ ≤ 10 ^ (Int.log 10 d.magnitude - (P - 1 : ℤ)) / 2 * 2 ^ 54 := by gcongr
      _ ≤ d.magnitude / 10 ^ 16 / 2 * 2 ^ 54 := by gcongr
      _ < d.magnitude := by linarith

/-! ## The length of a printed number -/

/-- The length of digits with a point. -/
theorem length_digitsWithPoint_le (integral fraction : List ℕ) :
    (digitsWithPoint integral fraction).length ≤ integral.length + (fraction.length + 1) := by
  rw [digitsWithPoint, List.length_append, length_digitBytes]
  split
  · simp
  · simp

/-- Three binary digits are less than a decimal one. -/
theorem two_pow_le_ten_pow {n m : ℕ} (h : n ≤ 3 * m) : (2 : ℚ) ^ n ≤ 10 ^ m :=
  calc (2 : ℚ) ^ n ≤ 2 ^ (3 * m) := pow_le_pow_right₀ (by norm_num) h
    _ = (2 ^ 3) ^ m := pow_mul 2 3 m
    _ ≤ 10 ^ m := pow_le_pow_left₀ (by norm_num) (by norm_num) m

/-- The power of ten of the first digit of a double has at most three digits. -/
theorem natAbs_printedDigits_lt {P : ℕ} (d : FiniteDouble) :
    (printedDigits P d).2.natAbs < 1000 := by
  rw [printedDigits]
  split
  · decide
  · rename_i hsig
    have hpos := d.magnitude_pos hsig
    have hunit : (0 : ℚ) < 2 ^ d.exponent := zpow_pos (by norm_num) _
    have hdef : d.magnitude = d.significand * 2 ^ d.exponent := rfl
    -- the smallest double is `2 ^ -1074`, above `10 ^ -998`
    have hlow : (-998 : ℤ) ≤ Int.log 10 d.magnitude := by
      have hone : (1 : ℚ) ≤ d.significand := by exact_mod_cast Nat.one_le_iff_ne_zero.mpr hsig
      have hsmall : (2 : ℚ) ^ (-1074 : ℤ) ≤ d.magnitude := by
        calc (2 : ℚ) ^ (-1074 : ℤ) ≤ 2 ^ d.exponent :=
              zpow_le_zpow_right₀ (by norm_num) d.exponent_ge
          _ = 1 * 2 ^ d.exponent := (one_mul _).symm
          _ ≤ d.magnitude := by
              rw [hdef]
              exact mul_le_mul_of_nonneg_right hone hunit.le
      have hten : ((10 : ℕ) : ℚ) ^ (-998 : ℤ) ≤ (2 : ℚ) ^ (-1074 : ℤ) := by
        have hpow : (2 : ℚ) ^ 1074 ≤ 10 ^ 998 := two_pow_le_ten_pow (by norm_num)
        rw [zpow_neg, zpow_neg, zpow_ofNat, zpow_ofNat, Nat.cast_ofNat]
        exact inv_anti₀ (by positivity) hpow
      exact (Int.zpow_le_iff_le_log (by norm_num) hpos).mp (hten.trans hsmall)
    have hhigh : Int.log 10 d.magnitude < 998 := by
      have hsiglt : (d.significand : ℚ) < 2 ^ 53 := by exact_mod_cast d.significand_lt
      have hlarge : d.magnitude < ((10 : ℕ) : ℚ) ^ (998 : ℤ) := by
        calc d.magnitude < 2 ^ 53 * 2 ^ d.exponent := by
              rw [hdef]
              exact mul_lt_mul_of_pos_right hsiglt hunit
          _ ≤ 2 ^ 53 * 2 ^ (971 : ℤ) :=
              mul_le_mul_of_nonneg_left
                (zpow_le_zpow_right₀ (by norm_num) d.exponent_le) (by positivity)
          _ = 2 ^ (53 + 971) := by rw [pow_add, zpow_ofNat]
          _ ≤ ((10 : ℕ) : ℚ) ^ (998 : ℤ) := by
              rw [zpow_ofNat, Nat.cast_ofNat]
              exact two_pow_le_ten_pow (by norm_num)
      exact (Int.lt_zpow_iff_log_lt (by norm_num) hpos).mp hlarge
    -- a carry moves the exponent by one more
    rw [significantDigits]
    split
    · change (Int.log 10 d.magnitude).natAbs < 1000
      omega
    · change (Int.log 10 d.magnitude + 1).natAbs < 1000
      omega

/-- **A printed double has at most `P + 7` characters.** -/
theorem length_showGeneral_le {P : ℕ} (hP : 0 < P) (d : FiniteDouble) :
    (showGeneral P d).length ≤ P + 7 := by
  have hexp := natAbs_printedDigits_lt (P := P) d
  have hlen : (stripZeros (printedDigits P d).1).length ≤ P := by
    obtain ⟨n, hn⟩ := stripZeros_append (printedDigits P d).1
    have hdigits : (printedDigits P d).1.length ≤ P := by
      rw [printedDigits]
      split
      · exact hP
      · rename_i hsig
        exact (significantDigits_spec hP (d.magnitude_pos hsig)).1.le
    rw [hn, List.length_append] at hdigits
    omega
  set ds := stripZeros (printedDigits P d).1 with hds
  set X := (printedDigits P d).2 with hX
  have hsign : (if d.negative then [45] else [] : CString).length ≤ 1 := by
    split <;> simp
  -- a point and at most five characters of an exponent are added to the digits
  have htext : (if -4 ≤ X ∧ X < P then fixedText ds X else exponentText ds X).length ≤ P + 6 := by
    split
    · rename_i hstyle
      rw [fixedText]
      split
      · have hpoint : ∀ n : ℕ, n ≤ P →
            (digitsWithPoint (ds.take n ++ List.replicate (n - ds.length) 0) (ds.drop n)).length ≤
              P + 1 := by
          intro n hn
          have hle := length_digitsWithPoint_le (ds.take n ++ List.replicate (n - ds.length) 0)
            (ds.drop n)
          simp only [List.length_append, List.length_take, List.length_replicate,
            List.length_drop] at hle
          omega
        exact (hpoint (X.toNat + 1) (by omega)).trans (by omega)
      · have hle := length_digitsWithPoint_le [0] (List.replicate (-X - 1).toNat 0 ++ ds)
        simp only [List.length_append, List.length_replicate, List.length_singleton] at hle
        omega
    · have hle := length_digitsWithPoint_le (ds.take 1) (ds.drop 1)
      have hdigits : (decimalDigits X.natAbs).length ≤ 3 := by
        rw [decimalDigits, List.length_reverse]
        exact (Nat.digits_length_le_iff (by norm_num) _).mpr hexp
      simp only [List.length_take, List.length_drop] at hle
      simp only [exponentText, List.length_append, List.length_cons, length_digitBytes,
        List.length_replicate]
      omega
  rw [showGeneral, List.length_append, ← hds, ← hX]
  omega

end CString
