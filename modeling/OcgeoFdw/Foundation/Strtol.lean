import Mathlib.Data.Nat.Digits.Lemmas
import Mathlib.Tactic.IntervalCases
import Mathlib.Tactic.Ring
import OcgeoFdw.Foundation.CIntegers
import OcgeoFdw.Foundation.CStrings

/-! # `strtol` and `atoi`

The two integer parsers of the C library, over 64-bit `long` and 32-bit `int`: `strtol` with
automatic base, and `atoi`, which is `strtol` in base ten narrowed to an `int`.
`atoi_eq_strtol_iff` decides, for every text that `strtol` with base `0` consumes whole, whether
the two return the same integer. -/

namespace CString

open CInt

/-! ## The parsers -/

/-- The value of a digit or letter in the bases up to 36. -/
def digitValue (c : UInt8) : Option ℕ :=
  if 48 ≤ c.toNat ∧ c.toNat ≤ 57 then some (c.toNat - 48)
  else if 97 ≤ c.toNat ∧ c.toNat ≤ 122 then some (c.toNat - 87)
  else if 65 ≤ c.toNat ∧ c.toNat ≤ 90 then some (c.toNat - 55)
  else none

/-- The longest prefix of digits of the base, most significant first, and the rest. -/
def spanDigits (base : ℕ) : CString → List ℕ × CString
  | [] => ([], [])
  | c :: s =>
      match digitValue c with
      | none => ([], c :: s)
      | some d =>
          if d < base then (d :: (spanDigits base s).1, (spanDigits base s).2)
          else ([], c :: s)

/-- The optional sign: whether it is a minus, and the text after it. -/
def takeSign : CString → Bool × CString
  | [] => (false, [])
  | c :: s => if c = 45 then (true, s) else if c = 43 then (false, s) else (false, c :: s)

/-- `0x` or `0X` followed by a hexadecimal digit. -/
def hasHexPrefix : CString → Bool
  | zero :: x :: c :: _ =>
      zero = 48 && (x = 120 || x = 88) && (digitValue c).any fun d => decide (d < 16)
  | _ => false

/-- The base of the numeral and the text of its digits: base `0` stands for 16 after `0x`, 8 after
another leading `0` and 10 otherwise. -/
def takeBase (base : ℕ) (s : CString) : ℕ × CString :=
  if (base = 0 ∨ base = 16) ∧ hasHexPrefix s then (16, s.drop 2)
  else if base = 0 then (if s.head? = some 48 then 8 else 10, s)
  else (base, s)

/-- A numeral as the text spells it. -/
structure Numeral where
  negative : Bool
  base : ℕ
  digits : List ℕ
  deriving DecidableEq

/-- The magnitude of a numeral read in base `b`. -/
def magnitude (b : ℕ) (digits : List ℕ) : ℕ := Nat.ofDigits b digits.reverse

/-- The limits of a `long`, at which `strtol` saturates. -/
def saturateLong (x : ℤ) : ℤ := max (-2 ^ 63) (min (2 ^ 63 - 1) x)

/-- The `long` a numeral denotes. -/
def Numeral.value (n : Numeral) : ℤ :=
  saturateLong (if n.negative then -(magnitude n.base n.digits : ℤ) else magnitude n.base n.digits)

/-- The numeral at the start of a text, after white space, and the text behind it. -/
def readNumeral (base : ℕ) (s : CString) : Numeral × CString :=
  let signed := takeSign (s.dropWhile isSpace)
  let based := takeBase base signed.2
  let spanned := spanDigits based.1 based.2
  (⟨signed.1, based.1, spanned.1⟩, spanned.2)

/-- `strtol (s, &endptr, base)`: the value and the text at `endptr`, which is the whole text when
there is no numeral. -/
def strtol (s : CString) (base : ℕ) : ℤ × CString :=
  if (readNumeral base s).1.digits = [] then (0, s)
  else ((readNumeral base s).1.value, (readNumeral base s).2)

/-- `atoi`. -/
def atoi (s : CString) : ℤ := toInt32 (strtol s 10).1

/-! ## Digits -/

@[simp] theorem magnitude_nil (b : ℕ) : magnitude b [] = 0 := rfl

/-- Every digit of a span is below the base. -/
theorem lt_base_of_mem_spanDigits {base d : ℕ} {s : CString} (h : d ∈ (spanDigits base s).1) :
    d < base := by
  induction s with
  | nil => simp [spanDigits] at h
  | cons c s ih =>
      rw [spanDigits] at h
      split at h
      · simp at h
      · rename_i e _
        split at h
        · rename_i he
          rcases List.mem_cons.mp h with rfl | hd
          · exact he
          · exact ih hd
        · simp at h

/-- A text that is consumed whole in one base is read the same way in a larger base. -/
theorem spanDigits_mono {base larger : ℕ} (hle : base ≤ larger) {s : CString} {ds : List ℕ}
    (h : spanDigits base s = (ds, [])) : spanDigits larger s = (ds, []) := by
  induction s generalizing ds with
  | nil => simpa [spanDigits] using h
  | cons c s ih =>
      rw [spanDigits] at h ⊢
      cases hd : digitValue c with
      | none => simp [hd] at h
      | some d =>
          simp only [hd] at h ⊢
          by_cases hlt : d < base
          · rw [if_pos hlt] at h
            rw [if_pos (hlt.trans_le hle)]
            obtain ⟨rfl, hrest⟩ := Prod.mk.inj h
            rw [ih (Prod.ext rfl hrest)]
          · rw [if_neg hlt] at h
            simp at h

/-- A `long` in range is not saturated. -/
theorem saturateLong_of_fits {x : ℤ} (hlow : -2 ^ 63 ≤ x) (hhigh : x ≤ 2 ^ 63 - 1) :
    saturateLong x = x := by
  rw [saturateLong, min_eq_right hhigh, max_eq_right hlow]

/-! ## Octal digits read in base ten

A string of octal digits denotes the same number in base eight and in base ten only when it has at
most one significant digit, and narrowing to 32 bits creates no further agreement. -/

/-- The base-ten reading depends on the octal digits only through the number they denote. -/
theorem ofDigits_ten_eq (L : List ℕ) (hL : ∀ d ∈ L, d < 8) :
    Nat.ofDigits 10 L = Nat.ofDigits 10 (Nat.digits 8 (Nat.ofDigits 8 L)) := by
  induction L with
  | nil => simp
  | cons d L ih =>
      have hd : d < 8 := hL d List.mem_cons_self
      have ih := ih fun e he => hL e (List.mem_cons_of_mem d he)
      rw [Nat.ofDigits_cons, Nat.ofDigits_cons]
      by_cases hzero : d = 0 ∧ Nat.ofDigits 8 L = 0
      -- only zeros are left: `Nat.digits` drops them
      · rw [ih, hzero.2, hzero.1]
        simp
      · rw [Nat.digits_add 8 (by norm_num) d _ hd (by tauto), Nat.ofDigits_cons, ← ih]

/-- Whether some digits below eight, one for each coefficient, make the weighted sum `target`. The
remaining digits can reach at most seven times the remaining coefficients. -/
def reachable : List ℕ → ℕ → Bool
  | [], target => target == 0
  | c :: cs, target =>
      (List.range 8).any fun d =>
        decide (d * c ≤ target) && decide (target - d * c ≤ 7 * cs.sum) &&
          reachable cs (target - d * c)

/-- The weighted sum of digits below eight is at most seven times the sum of the weights. -/
theorem sum_zipWith_le (cs ds : List ℕ) (hds : ∀ d ∈ ds, d < 8) :
    (List.zipWith (· * ·) ds cs).sum ≤ 7 * cs.sum := by
  induction ds generalizing cs with
  | nil => simp
  | cons d ds ih =>
      cases cs with
      | nil => simp
      | cons c cs =>
          have hd : d < 8 := hds d List.mem_cons_self
          have htail := ih cs fun e he => hds e (List.mem_cons_of_mem d he)
          have hhead : d * c ≤ 7 * c := Nat.mul_le_mul_right c (by omega)
          simp only [List.zipWith_cons_cons, List.sum_cons, Nat.mul_add]
          omega

/-- The search finds every sum that digits can make. -/
theorem reachable_of_sum_eq (cs ds : List ℕ) (hlen : ds.length = cs.length)
    (hds : ∀ d ∈ ds, d < 8) : reachable cs (List.zipWith (· * ·) ds cs).sum = true := by
  induction ds generalizing cs with
  | nil =>
      obtain rfl : cs = [] := List.length_eq_zero_iff.mp (by simpa using hlen.symm)
      rfl
  | cons d ds ih =>
      obtain ⟨c, cs, rfl⟩ : ∃ c cs', cs = c :: cs' :=
        List.exists_cons_of_length_pos (by simp [← hlen])
      have htail : ∀ e ∈ ds, e < 8 := fun e he => hds e (List.mem_cons_of_mem d he)
      have hrest := ih cs (by simpa using hlen) htail
      have hbound := sum_zipWith_le cs ds htail
      rw [reachable, List.any_eq_true]
      refine ⟨d, List.mem_range.mpr (hds d List.mem_cons_self), ?_⟩
      rw [List.zipWith_cons_cons, List.sum_cons, Nat.add_sub_cancel_left, hrest, Bool.and_true,
        Bool.and_eq_true, decide_eq_true_eq, decide_eq_true_eq]
      exact ⟨Nat.le_add_right _ _, hbound⟩

/-- The differences `10 ^ i - 8 ^ i`, from `i = 9` down to `i = 1`. -/
def baseGaps : List ℕ :=
  [865782272, 83222784, 7902848, 737856, 67232, 5904, 488, 36, 2]

/-- No nine octal digits, behind an eleventh digit `0` or `1`, make the base-ten and the base-eight
reading differ by a positive multiple of `2 ^ 32`. -/
theorem not_reachable_multiple : ∀ top < 2, ∀ k < 4, 0 < k →
    (top * 8926258176 ≤ 4294967296 * k →
      reachable baseGaps (4294967296 * k - top * 8926258176) = false) := by
  decide +kernel

/-- A weighted sum of nine digits, written out. -/
theorem sum_zipWith_nine (a b c d e f g h i a' b' c' d' e' f' g' h' i' : ℕ) :
    (List.zipWith (· * ·) [a, b, c, d, e, f, g, h, i] [a', b', c', d', e', f', g', h', i']).sum
      = a * a' + (b * b' + (c * c' + (d * d' + (e * e' + (f * f' + (g * g' + (h * h'
        + (i * i' + 0)))))))) := rfl

/-- The gap between the two readings of eleven octal digits is not a positive multiple of
`2 ^ 32`. -/
theorem gap_ne_multiple {d1 d2 d3 d4 d5 d6 d7 d8 d9 d10 k : ℕ}
    (hd : ∀ d ∈ [d9, d8, d7, d6, d5, d4, d3, d2, d1], d < 8) (htop : d10 < 2) (hk : k < 4)
    (hpos : 0 < k) :
    8926258176 * d10 + (865782272 * d9 + 83222784 * d8 + 7902848 * d7 + 737856 * d6
      + 67232 * d5 + 5904 * d4 + 488 * d3 + 36 * d2 + 2 * d1) ≠ 4294967296 * k := by
  intro heq
  have hreach := reachable_of_sum_eq baseGaps [d9, d8, d7, d6, d5, d4, d3, d2, d1] rfl hd
  have hsum : (List.zipWith (· * ·) [d9, d8, d7, d6, d5, d4, d3, d2, d1] baseGaps).sum
      = 4294967296 * k - d10 * 8926258176 := by
    rw [baseGaps, sum_zipWith_nine]
    omega
  rw [hsum, not_reachable_multiple d10 htop k hk hpos (by omega)] at hreach
  exact Bool.noConfusion hreach

/-- The base-ten reading of the octal digits of `n`. -/
def decimalReading (n : ℕ) : ℕ := Nat.ofDigits 10 (Nat.digits 8 n)

/-- The reading peels off the last octal digit. -/
theorem decimalReading_eq (n : ℕ) : decimalReading n = n % 8 + 10 * decimalReading (n / 8) := by
  rcases Nat.eq_zero_or_pos n with rfl | hpos
  · simp [decimalReading]
  · rw [decimalReading, Nat.digits_def' (by norm_num) hpos, Nat.ofDigits_cons, decimalReading]

/-- A single octal digit reads as itself. -/
theorem decimalReading_of_lt {n : ℕ} (hn : n < 8) : decimalReading n = n := by
  rw [decimalReading_eq, Nat.div_eq_of_lt hn, Nat.mod_eq_of_lt hn]
  simp [decimalReading]

/-- The digits of an eleven-digit octal number, with its value and its reading in base ten. -/
theorem exists_octal_digits {n : ℕ} (hn : n < 8589934592) :
    ∃ d0 d1 d2 d3 d4 d5 d6 d7 d8 d9 d10 : ℕ,
      (∀ d ∈ [d9, d8, d7, d6, d5, d4, d3, d2, d1], d < 8) ∧ d0 < 8 ∧
      n = d0 + 8 * d1 + 64 * d2 + 512 * d3 + 4096 * d4 + 32768 * d5 + 262144 * d6
        + 2097152 * d7 + 16777216 * d8 + 134217728 * d9 + 1073741824 * d10 ∧
      decimalReading n = d0 + 10 * d1 + 100 * d2 + 1000 * d3 + 10000 * d4 + 100000 * d5
        + 1000000 * d6 + 10000000 * d7 + 100000000 * d8 + 1000000000 * d9
        + 10000000000 * d10 := by
  have peel : ∀ m, ∃ q d, d < 8 ∧ m = d + 8 * q ∧
      decimalReading m = d + 10 * decimalReading q := fun m =>
    ⟨m / 8, m % 8, by omega, by omega, decimalReading_eq m⟩
  obtain ⟨n1, d0, h0, e0, r0⟩ := peel n
  obtain ⟨n2, d1, h1, e1, r1⟩ := peel n1
  obtain ⟨n3, d2, h2, e2, r2⟩ := peel n2
  obtain ⟨n4, d3, h3, e3, r3⟩ := peel n3
  obtain ⟨n5, d4, h4, e4, r4⟩ := peel n4
  obtain ⟨n6, d5, h5, e5, r5⟩ := peel n5
  obtain ⟨n7, d6, h6, e6, r6⟩ := peel n6
  obtain ⟨n8, d7, h7, e7, r7⟩ := peel n7
  obtain ⟨n9, d8, h8, e8, r8⟩ := peel n8
  obtain ⟨n10, d9, h9, e9, r9⟩ := peel n9
  have r10 := decimalReading_of_lt (n := n10) (by omega)
  refine ⟨d0, d1, d2, d3, d4, d5, d6, d7, d8, d9, n10, ?_, h0, by omega, by omega⟩
  simp only [List.mem_cons, List.not_mem_nil, or_false, forall_eq_or_imp, forall_eq]
  exact ⟨h9, h8, h7, h6, h5, h4, h3, h2, h1⟩

/-- **No coincidence modulo `2 ^ 32`.** An `int`-sized number of two or more octal digits never
agrees, modulo `2 ^ 32`, with its digits read in base ten. -/
theorem lt_eight_of_decimalReading_modEq {n : ℕ} (hn : n ≤ 2147483648)
    (h : decimalReading n % 4294967296 = n % 4294967296) : n < 8 := by
  obtain ⟨d0, d1, d2, d3, d4, d5, d6, d7, d8, d9, d10, hd, h0, hoct, hdec⟩ :=
    exists_octal_digits (n := n) (by omega)
  by_contra hbig
  have hgap : decimalReading n = n + (8926258176 * d10 + (865782272 * d9 + 83222784 * d8
      + 7902848 * d7 + 737856 * d6 + 67232 * d5 + 5904 * d4 + 488 * d3 + 36 * d2 + 2 * d1)) := by
    omega
  have hmem := hd
  simp only [List.mem_cons, List.not_mem_nil, or_false, forall_eq_or_imp, forall_eq] at hmem
  by_cases htop : d10 < 2
  · obtain ⟨k, hk⟩ : ∃ k, decimalReading n - n = 4294967296 * k :=
      ⟨(decimalReading n - n) / 4294967296, by omega⟩
    exact gap_ne_multiple (k := k) hd htop (by omega) (by omega) (by omega)
  · -- an `int` leaves only the top digit `2` over ten zeros
    obtain ⟨rfl, rfl, rfl, rfl, rfl, rfl, rfl, rfl, rfl, rfl, rfl⟩ : d10 = 2 ∧ d9 = 0 ∧ d8 = 0 ∧
        d7 = 0 ∧ d6 = 0 ∧ d5 = 0 ∧ d4 = 0 ∧ d3 = 0 ∧ d2 = 0 ∧ d1 = 0 ∧ d0 = 0 := by omega
    omega

/-! ## When the two parsers agree -/

/-- The numeral means the same to a parser that knows only base ten and 32-bit `int`s: it is a
decimal numeral that fits, an octal numeral of one significant digit, or a hexadecimal zero. -/
def Numeral.SameInBaseTen (n : Numeral) : Prop :=
  (n.base = 10 ∧ intMin ≤ n.value ∧ n.value ≤ intMax) ∨
    (n.base = 8 ∧ magnitude 8 n.digits < 8) ∨ (n.base = 16 ∧ magnitude 16 n.digits = 0)

instance (n : Numeral) : Decidable n.SameInBaseTen :=
  inferInstanceAs (Decidable (_ ∨ _ ∨ _))

/-- Reading octal digits in base ten, by the number they denote. -/
theorem magnitude_ten_eq {ds : List ℕ} (hds : ∀ d ∈ ds, d < 8) :
    magnitude 10 ds = decimalReading (magnitude 8 ds) :=
  ofDigits_ten_eq ds.reverse fun d hd => hds d (List.mem_reverse.mp hd)

/-- The base-ten reading of an `int`-sized octal number is far from the limits of a `long`. -/
theorem decimalReading_lt {n : ℕ} (hn : n ≤ 2147483648) : decimalReading n < 100000000000 := by
  obtain ⟨d0, d1, d2, d3, d4, d5, d6, d7, d8, d9, d10, hd, h0, hoct, hdec⟩ :=
    exists_octal_digits (n := n) (by omega)
  simp only [List.mem_cons, List.not_mem_nil, or_false, forall_eq_or_imp, forall_eq] at hd
  omega

/-- Octal digits, read in base ten and narrowed to an `int`, denote the same `long` exactly when
their value is a single digit. -/
theorem toInt32_ten_eq_eight_iff (negative : Bool) {ds : List ℕ} (hds : ∀ d ∈ ds, d < 8) :
    toInt32 (Numeral.value ⟨negative, 10, ds⟩) = Numeral.value ⟨negative, 8, ds⟩ ↔
      magnitude 8 ds < 8 := by
  simp only [Numeral.value, magnitude_ten_eq hds]
  constructor
  · intro h
    -- the octal value is an `int` because the narrowed reading is one
    have hfits := toInt32_fits
      (saturateLong (if negative then -(decimalReading (magnitude 8 ds) : ℤ)
        else decimalReading (magnitude 8 ds)))
    rw [h] at hfits
    have hsmall : magnitude 8 ds ≤ 2147483648 := by
      norm_num [intMin, intMax, saturateLong] at hfits
      cases negative <;> simp at hfits <;> omega
    have hten := decimalReading_lt hsmall
    apply lt_eight_of_decimalReading_modEq hsmall
    have hmod := toInt32_emod
      (saturateLong (if negative then -(decimalReading (magnitude 8 ds) : ℤ)
        else decimalReading (magnitude 8 ds)))
    rw [h] at hmod
    cases negative <;> simp only [Bool.false_eq_true, if_true, if_false] at hmod <;>
      rw [saturateLong_of_fits (by omega) (by omega), saturateLong_of_fits (by omega) (by omega)]
        at hmod <;> omega
  · intro h
    rw [decimalReading_of_lt h]
    refine toInt32_of_fits ?_ ?_ <;> norm_num [intMin, intMax] <;>
      cases negative <;> simp only [Bool.false_eq_true, if_true, if_false] <;>
      rw [saturateLong_of_fits (by omega) (by omega)] <;> omega

/-- The numeral of a text that `strtol` with base `0` consumes whole: its digits are not empty and
nothing is left. -/
theorem readNumeral_of_whole {s : CString} (hs : s ≠ []) (hwhole : (strtol s 0).2 = []) :
    (readNumeral 0 s).1.digits ≠ [] ∧ (readNumeral 0 s).2 = [] ∧
      (strtol s 0).1 = (readNumeral 0 s).1.value := by
  rw [strtol] at hwhole ⊢
  split
  -- without digits `endptr` is the start of the text
  · rename_i hnone
    rw [if_pos hnone] at hwhole
    exact absurd hwhole hs
  · rename_i hsome
    rw [if_neg hsome] at hwhole
    exact ⟨hsome, hwhole, rfl⟩

@[simp] theorem takeBase_ten (s : CString) : takeBase 10 s = (10, s) := by
  simp [takeBase]

/-- The base that automatic detection chooses. -/
theorem takeBase_zero (s : CString) :
    takeBase 0 s = if hasHexPrefix s then (16, s.drop 2)
      else if s.head? = some 48 then (8, s) else (10, s) := by
  simp only [takeBase, true_or, true_and, if_true]
  split
  · rfl
  · split <;> rfl

/-- Read in base ten, a hexadecimal numeral is its leading `0`. -/
theorem spanDigits_ten_of_hasHexPrefix {s : CString} (h : hasHexPrefix s = true) :
    (spanDigits 10 s).1 = [0] := by
  match s with
  | zero :: x :: c :: rest =>
      simp only [hasHexPrefix, Bool.and_eq_true, Bool.or_eq_true, decide_eq_true_eq] at h
      obtain ⟨⟨rfl, rfl | rfl⟩, -⟩ := h <;> rfl

/-- `atoi` by the numeral it reads in base ten; without digits both parsers answer `0`. -/
theorem atoi_eq (s : CString) :
    atoi s = toInt32 (Numeral.value ⟨(takeSign (s.dropWhile isSpace)).1, 10,
      (spanDigits 10 (takeSign (s.dropWhile isSpace)).2).1⟩) := by
  simp only [atoi, strtol, readNumeral, takeBase_ten]
  split
  · rename_i hnone
    rw [hnone]
    simp [Numeral.value, saturateLong]
  · rfl

/-- **Agreement of the two parsers.** On a text that `strtol` with automatic base consumes whole,
`atoi` returns the same integer exactly when the numeral means the same in base ten and fits an
`int`. -/
theorem atoi_eq_strtol_iff {s : CString} (hs : s ≠ []) (hwhole : (strtol s 0).2 = []) :
    atoi s = (strtol s 0).1 ↔ (readNumeral 0 s).1.SameInBaseTen := by
  obtain ⟨-, hrest, hvalue⟩ := readNumeral_of_whole hs hwhole
  rw [hvalue, atoi_eq]
  unfold readNumeral at hrest ⊢
  generalize takeSign (s.dropWhile isSpace) = signed at hrest ⊢
  obtain ⟨negative, text⟩ := signed
  simp only at hrest ⊢
  rw [takeBase_zero] at hrest ⊢
  by_cases hhex : hasHexPrefix text = true
  · -- a hexadecimal numeral: `atoi` stops behind the leading zero
    rw [if_pos hhex] at hrest ⊢
    rw [spanDigits_ten_of_hasHexPrefix hhex]
    have hzero : toInt32 (Numeral.value ⟨negative, 10, [0]⟩) = 0 := by cases negative <;> rfl
    rw [hzero]
    simp only [Numeral.SameInBaseTen, Numeral.value, saturateLong]
    cases negative <;> simp <;> omega
  · rw [if_neg hhex] at hrest ⊢
    by_cases hoct : text.head? = some 48
    · -- an octal numeral: both parsers see the same digits
      rw [if_pos hoct] at hrest ⊢
      have hspan : spanDigits 10 text = ((spanDigits 8 text).1, []) :=
        spanDigits_mono (by norm_num) (Prod.ext rfl hrest)
      rw [hspan, toInt32_ten_eq_eight_iff negative fun d hd => lt_base_of_mem_spanDigits hd]
      simp [Numeral.SameInBaseTen]
    · -- a decimal numeral: the `long` is narrowed
      rw [if_neg hoct]
      simp only [Numeral.SameInBaseTen, true_and]
      constructor
      · intro h
        have hfits := toInt32_fits (Numeral.value ⟨negative, 10, (spanDigits 10 text).1⟩)
        rw [h] at hfits
        exact Or.inl hfits
      · rintro (hfits | ⟨hbase, -⟩ | ⟨hbase, -⟩)
        · exact toInt32_of_fits hfits.1 hfits.2
        · simp at hbase
        · simp at hbase

example : atoi (ofAscii " +25") = 25 ∧ strtol (ofAscii "0x19z") 0 = (25, ofAscii "z") := by decide

end CString
