import OcgeoFdw.Foundation.DecimalNumerals

/-! # Fixed-point texts

`%.kf`: a rational number with `k` decimals, rounded to the nearest, ties to the even one. The text
is a numeral at most half a unit of its last decimal away from the number. -/

namespace CString

open Rounding

/-- `%.kf` for a positive `k`: a sign, the integral part and the decimals. -/
def showFixed (k : ℕ) (x : ℚ) : CString :=
  let scaled := (nearestEven (|x| * 10 ^ k)).toNat
  let decimals := ofAscii (toString (scaled % 10 ^ k))
  (if x < 0 then ofAscii "-" else []) ++ ofAscii (toString (scaled / 10 ^ k)) ++ ofAscii "." ++
    List.replicate (k - decimals.length) 48 ++ decimals

/-- The number that a numeral spells. -/
def DecimalNumeral.value (n : DecimalNumeral) : ℚ :=
  if n.negative then -n.magnitude else n.magnitude

/-- A number that is rounded at the `k`-th decimal: it has `k` decimals, is at most half a unit away,
and is on the same side of every integer. -/
structure IsRounded (k : ℕ) (x y : ℚ) : Prop where
  multiple : ∃ n : ℤ, y = n / 10 ^ k
  near : |y - x| ≤ 1 / 2 / 10 ^ k
  above : ∀ m : ℤ, m ≤ x → m ≤ y
  below : ∀ m : ℤ, x ≤ m → y ≤ m

/-- A text is a numeral that spells a number rounded at the `k`-th decimal. -/
def Spells (k : ℕ) (text : CString) (x : ℚ) : Prop :=
  ∃ n, IsNumeral text n ∧ IsRounded k x n.value

/-! ## The digits of a natural number -/

/-- The digits in the text of a natural number. -/
def spelledDigits (n : ℕ) : List ℕ := (Nat.toDigits 10 n).map fun c => c.toNat - 48

/-- The text consists of these digits. -/
theorem ofAscii_toString_eq_digitBytes (n : ℕ) :
    ofAscii (toString n) = digitBytes (spelledDigits n) := by
  rw [ofAscii_toString_nat, digitBytes, spelledDigits, List.map_map]
  apply List.map_congr_left
  intro c hc
  obtain ⟨-, hlow, -⟩ :=
    toNat_of_isDigit (Nat.isDigit_of_mem_toDigits (by norm_num) (by norm_num) hc)
  show c.toNat.toUInt8 = (48 + (c.toNat - 48)).toUInt8
  rw [Nat.add_sub_cancel' hlow]

/-- They are decimal digits. -/
theorem lt_of_mem_spelledDigits {n d : ℕ} (h : d ∈ spelledDigits n) : d < 10 := by
  obtain ⟨c, hc, rfl⟩ := List.mem_map.mp h
  obtain ⟨-, -, hhigh⟩ :=
    toNat_of_isDigit (Nat.isDigit_of_mem_toDigits (by norm_num) (by norm_num) hc)
  omega

/-- They spell the number. -/
theorem magnitude_spelledDigits (n : ℕ) : magnitude 10 (spelledDigits n) = n := by
  rw [spelledDigits, magnitude_ofDigitChars, Nat.ofDigitChars_ten_toDigits]

/-- There is at least one. -/
theorem spelledDigits_ne_nil (n : ℕ) : spelledDigits n ≠ [] := by
  simp [spelledDigits]

/-- A number below `10 ^ k` has at most `k` digits. -/
theorem length_spelledDigits_le {k n : ℕ} (hk : 0 < k) (h : n < 10 ^ k) :
    (spelledDigits n).length ≤ k := by
  rw [spelledDigits, List.length_map]
  exact Nat.toDigits_length 10 n k hk h

/-! ## The number of a fixed-point text -/

/-- The decimals of a text: zeros and the digits of the rest. -/
def paddedDigits (k m : ℕ) : List ℕ :=
  List.replicate (k - (spelledDigits m).length) 0 ++ spelledDigits m

theorem length_paddedDigits {k m : ℕ} (hk : 0 < k) (h : m < 10 ^ k) :
    (paddedDigits k m).length = k := by
  have := length_spelledDigits_le hk h
  rw [paddedDigits, List.length_append, List.length_replicate]
  omega

theorem magnitude_paddedDigits (k m : ℕ) : magnitude 10 (paddedDigits k m) = m := by
  rw [paddedDigits, magnitude_append, magnitude_zeros, Nat.zero_mul, Nat.zero_add,
    magnitude_spelledDigits]

theorem lt_of_mem_paddedDigits {k m d : ℕ} (h : d ∈ paddedDigits k m) : d < 10 := by
  rcases List.mem_append.mp h with hzero | hdigit
  · rw [List.eq_of_mem_replicate hzero]
    norm_num
  · exact lt_of_mem_spelledDigits hdigit

/-- **A fixed-point text is a numeral**: the sign of the number, and its magnitude rounded at the
last decimal. -/
theorem isNumeral_showFixed {k : ℕ} (hk : 0 < k) (x : ℚ) :
    ∃ n, IsNumeral (showFixed k x) n ∧ n.negative = decide (x < 0) ∧
      n.magnitude = (nearestEven (|x| * 10 ^ k)).toNat / 10 ^ k := by
  set scaled := (nearestEven (|x| * 10 ^ k)).toNat with hscaled
  have hlt : scaled % 10 ^ k < 10 ^ k := Nat.mod_lt _ (by positivity)
  have htext : showFixed k x = (if x < 0 then [45] else []) ++
      (digitBytes (spelledDigits (scaled / 10 ^ k)) ++
        (46 :: digitBytes (paddedDigits k (scaled % 10 ^ k)) ++ [])) := by
    rw [showFixed, ← hscaled]
    simp only [ofAscii_toString_eq_digitBytes, length_digitBytes, paddedDigits, digitBytes_append]
    simp [ofAscii, digitBytes]
  have hsign : IsSign (if x < 0 then [45] else []) (decide (x < 0)) := by
    split
    · rename_i hneg
      rw [decide_eq_true hneg]
      exact .minus
    · rename_i hneg
      rw [decide_eq_false hneg]
      exact .none
  have hnumeral := IsNumeral.intro hsign (fun d hd => lt_of_mem_spelledDigits hd)
    (.point fun d hd => lt_of_mem_paddedDigits hd) .none
    (List.append_ne_nil_of_left_ne_nil (spelledDigits_ne_nil (scaled / 10 ^ k))
      (paddedDigits k (scaled % 10 ^ k)))
  rw [htext]
  refine ⟨_, hnumeral, rfl, ?_⟩
  rw [DecimalNumeral.magnitude]
  simp only
  rw [magnitude_append, magnitude_spelledDigits, magnitude_paddedDigits, length_paddedDigits hk hlt,
    Nat.div_add_mod', zero_sub, zpow_neg, zpow_natCast, div_eq_mul_inv]

/-- Rounding a magnitude at the last decimal. -/
theorem isRounded_nearestEven (k : ℕ) {x : ℚ} (hx : 0 ≤ x) :
    IsRounded k x ((nearestEven (x * 10 ^ k)).toNat / 10 ^ k) := by
  have hpos : (0 : ℚ) < 10 ^ k := by positivity
  have hnonneg : 0 ≤ nearestEven (x * 10 ^ k) := le_nearestEven (by
    rw [Int.cast_zero]
    positivity)
  have hcast : ((nearestEven (x * 10 ^ k)).toNat : ℚ) = nearestEven (x * 10 ^ k) := by
    exact_mod_cast Int.toNat_of_nonneg hnonneg
  rw [hcast]
  refine ⟨⟨_, rfl⟩, ?_, ?_, ?_⟩
  · have hround := abs_sub_nearestEven_le (x * 10 ^ k)
    rw [le_div_iff₀ hpos, ← abs_of_pos hpos, ← abs_mul, abs_of_pos hpos, sub_mul,
      div_mul_cancel₀ _ hpos.ne', abs_sub_comm]
    exact hround
  · intro m hm
    have hle : ((m * 10 ^ k : ℤ) : ℚ) ≤ x * 10 ^ k := by
      push_cast
      gcongr
    rw [le_div_iff₀ hpos]
    exact_mod_cast le_nearestEven hle
  · intro m hm
    have hle : x * 10 ^ k ≤ ((m * 10 ^ k : ℤ) : ℚ) := by
      push_cast
      gcongr
    rw [div_le_iff₀ hpos]
    exact_mod_cast nearestEven_le hle

/-- Rounding commutes with the sign. -/
theorem IsRounded.neg {k : ℕ} {x y : ℚ} (h : IsRounded k x y) : IsRounded k (-x) (-y) where
  multiple := by
    obtain ⟨n, hn⟩ := h.multiple
    refine ⟨-n, ?_⟩
    rw [hn, Int.cast_neg, neg_div]
  near := by
    have heq : -y - -x = -(y - x) := by ring
    rw [heq, abs_neg]
    exact h.near
  above m hm := by
    have hbelow := h.below (-m) (by push_cast; linarith)
    push_cast at hbelow
    linarith
  below m hm := by
    have habove := h.above (-m) (by push_cast; linarith)
    push_cast at habove
    linarith

/-- **A fixed-point text spells its number**, rounded at the last decimal. -/
theorem spells_showFixed {k : ℕ} (hk : 0 < k) (x : ℚ) : Spells k (showFixed k x) x := by
  obtain ⟨n, hnumeral, hnegative, hmagnitude⟩ := isNumeral_showFixed hk x
  refine ⟨n, hnumeral, ?_⟩
  have hrounded := isRounded_nearestEven k (abs_nonneg x)
  rw [← hmagnitude] at hrounded
  rw [DecimalNumeral.value, hnegative]
  by_cases hx : x < 0
  · rw [abs_of_neg hx] at hrounded
    rw [if_pos (decide_eq_true hx), ← neg_neg x]
    exact hrounded.neg
  · rw [abs_of_nonneg (not_lt.mp hx)] at hrounded
    rw [if_neg (by simpa using hx)]
    exact hrounded

/-- Such a text consists of the characters of numerals. -/
theorem Spells.isNumeralByte {k : ℕ} {text : CString} {x : ℚ} (h : Spells k text x) :
    ∀ c ∈ text, IsNumeralByte c := by
  obtain ⟨n, hnumeral, -⟩ := h
  exact hnumeral.isNumeralByte.2

end CString
