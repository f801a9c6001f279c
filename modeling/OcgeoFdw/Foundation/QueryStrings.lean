import Mathlib.Data.UInt
import Mathlib.Tactic.IntervalCases

/-! # Query strings

The part of a URL behind its first `?`: `name=value` pieces joined by `&`, with percent-encoded
values. `parameters_render` is the round trip: whatever the values, as long as no separator shows in
their encoded form, splitting and decoding gives the names and values back. -/

namespace QueryString

/-! ## Percent-encoding -/

/-- Letters, digits, `-`, `.`, `_` and `~`, which are encoded as themselves. -/
def isUnreserved (c : UInt8) : Bool :=
  (48 ≤ c.toNat && c.toNat ≤ 57) || (65 ≤ c.toNat && c.toNat ≤ 90) ||
    (97 ≤ c.toNat && c.toNat ≤ 122) || c = 45 || c = 46 || c = 95 || c = 126

/-- The digit of a value below 16, in capitals. -/
def hexDigit (n : ℕ) : UInt8 := if n < 10 then (48 + n).toUInt8 else (55 + n).toUInt8

/-- The value of a hexadecimal digit in either case. -/
def hexValue (c : UInt8) : Option ℕ :=
  if 48 ≤ c.toNat ∧ c.toNat ≤ 57 then some (c.toNat - 48)
  else if 65 ≤ c.toNat ∧ c.toNat ≤ 70 then some (c.toNat - 55)
  else if 97 ≤ c.toNat ∧ c.toNat ≤ 102 then some (c.toNat - 87)
  else none

/-- Every byte that is not unreserved becomes `%` and its two digits. -/
def percentEncode (s : List UInt8) : List UInt8 :=
  s.flatMap fun c =>
    if isUnreserved c then [c] else [37, hexDigit (c.toNat / 16), hexDigit (c.toNat % 16)]

/-- Every `%` before two hexadecimal digits is the byte of that value. -/
def percentDecode : List UInt8 → List UInt8
  | 37 :: a :: b :: s =>
      match hexValue a, hexValue b with
      | some high, some low => (16 * high + low).toUInt8 :: percentDecode s
      | _, _ => 37 :: percentDecode (a :: b :: s)
  | c :: s => c :: percentDecode s
  | [] => []

theorem hexValue_hexDigit {n : ℕ} (h : n < 16) : hexValue (hexDigit n) = some n := by
  interval_cases n <;> rfl

/-- A digit of an encoded byte is unreserved. -/
theorem isUnreserved_hexDigit {n : ℕ} (h : n < 16) : isUnreserved (hexDigit n) = true := by
  interval_cases n <;> rfl

/-- A byte other than `%` is decoded as itself. -/
theorem percentDecode_cons_of_ne {c : UInt8} (h : c ≠ 37) (s : List UInt8) :
    percentDecode (c :: s) = c :: percentDecode s := by
  rw [percentDecode]
  rintro a b t rfl
  exact absurd rfl h

/-- A text without `%` is decoded as itself. -/
theorem percentDecode_eq_self {s : List UInt8} (h : 37 ∉ s) : percentDecode s = s := by
  induction s with
  | nil => rfl
  | cons c s ih =>
      rw [List.mem_cons, not_or] at h
      rw [percentDecode_cons_of_ne (Ne.symm h.1), ih h.2]

/-- **Decoding inverts encoding**, for every byte string. -/
theorem percentDecode_percentEncode (s : List UInt8) : percentDecode (percentEncode s) = s := by
  induction s with
  | nil => rfl
  | cons c s ih =>
      unfold percentEncode at ih ⊢
      rw [List.flatMap_cons]
      split
      · rename_i hunreserved
        have hne : c ≠ 37 := by
          rintro rfl
          cases hunreserved
        rw [List.singleton_append, percentDecode_cons_of_ne hne, ih]
      · have hc : c.toNat < 256 := c.toNat_lt
        have hbyte : (16 * (c.toNat / 16) + c.toNat % 16).toUInt8 = c := by
          rw [Nat.div_add_mod]
          simp
        simp only [List.cons_append, List.nil_append, percentDecode,
          hexValue_hexDigit (show c.toNat / 16 < 16 by omega),
          hexValue_hexDigit (show c.toNat % 16 < 16 by omega), hbyte, ih]

/-- A byte of an encoded text is unreserved or `%`. -/
theorem of_mem_percentEncode {c : UInt8} {s : List UInt8} (h : c ∈ percentEncode s) :
    isUnreserved c = true ∨ c = 37 := by
  rw [percentEncode] at h
  obtain ⟨d, -, hd⟩ := List.mem_flatMap.mp h
  split at hd
  · rename_i hunreserved
    rw [List.mem_singleton.mp hd]
    exact .inl hunreserved
  · have hbyte : d.toNat < 256 := d.toNat_lt
    simp only [List.mem_cons, List.not_mem_nil, or_false] at hd
    rcases hd with rfl | rfl | rfl
    · exact .inr rfl
    · exact .inl (isUnreserved_hexDigit (by omega))
    · exact .inl (isUnreserved_hexDigit (by omega))

/-- An escaped text has no separator. -/
theorem ne_of_mem_percentEncode {c : UInt8} {s : List UInt8} (h : c ∈ percentEncode s) :
    c ≠ 38 ∧ c ≠ 61 := by
  rcases of_mem_percentEncode h with hunreserved | rfl
  · constructor <;> (rintro rfl; cases hunreserved)
  · decide

/-- Neither does it start a fragment. -/
theorem hash_ne_of_mem_percentEncode {c : UInt8} {s : List UInt8} (h : c ∈ percentEncode s) :
    c ≠ 35 := by
  rcases of_mem_percentEncode h with hunreserved | rfl
  · rintro rfl
    cases hunreserved
  · decide

/-! ## Parameters -/

/-- A parameter as it is written. -/
def piece (p : List UInt8 × List UInt8) : List UInt8 := p.1 ++ 61 :: p.2

/-- The parameters joined by `&`. -/
def render (params : List (List UInt8 × List UInt8)) : List UInt8 :=
  [38].intercalate (params.map piece)

/-- Rendering appends the parameters after the first, each behind a `&`. -/
theorem render_cons (p : List UInt8 × List UInt8) (params : List (List UInt8 × List UInt8)) :
    render (p :: params) = piece p ++ params.flatMap fun p => 38 :: piece p := by
  rw [render]
  induction params generalizing p with
  | nil => simp
  | cons r params ih =>
      rw [List.map_cons, List.map_cons, List.intercalate_cons_cons, ← List.map_cons, ih r,
        List.flatMap_cons]
      simp

/-- The text behind the first `?`. -/
def query (url : List UInt8) : List UInt8 := (url.dropWhile (· ≠ 63)).drop 1

/-- The parameters of a URL: its query split at every `&`, and each piece at every `=`, with the
fields decoded. -/
def parameters (url : List UInt8) : List (List (List UInt8)) :=
  ((query url).splitOn 38).map fun piece => (piece.splitOn 61).map percentDecode

/-- What is sent of a URL: the part in front of its fragment, which starts at the first `#`. -/
def withoutFragment (url : List UInt8) : List UInt8 := url.takeWhile (· ≠ 35)

/-- A text without `#` is sent in front of what is sent of the rest. -/
theorem withoutFragment_append {s : List UInt8} (h : 35 ∉ s) (url : List UInt8) :
    withoutFragment (s ++ url) = s ++ withoutFragment url :=
  List.takeWhile_append_of_pos fun _ hc => decide_eq_true fun heq => h (heq ▸ hc)

/-- A URL without `#` is sent as it is. -/
theorem withoutFragment_eq_self {url : List UInt8} (h : 35 ∉ url) : withoutFragment url = url := by
  have happend := withoutFragment_append h []
  have hnil : withoutFragment [] = [] := rfl
  rwa [List.append_nil, hnil, List.append_nil] at happend

/-- The query is what follows a text without `?`. -/
theorem query_append {base s : List UInt8} (h : 63 ∉ base) : query (base ++ 63 :: s) = s := by
  rw [query]
  rw [List.dropWhile_append_of_pos]
  · rfl
  · intro c hc
    simp only [ne_eq, decide_not, Bool.not_eq_eq_eq_not, Bool.not_true, decide_eq_false_iff_not]
    rintro rfl
    exact h hc

/-- **Round trip.** The parameters of a rendered URL are the names and the decoded values, whatever
these are, if no separator shows in a name or an encoded value. -/
theorem parameters_render {base : List UInt8} {params : List (List UInt8 × List UInt8)}
    (hbase : 63 ∉ base) (hne : params ≠ [])
    (h : ∀ p ∈ params, ∀ c ∈ p.1 ++ p.2, c ≠ 38 ∧ c ≠ 61) :
    parameters (base ++ 63 :: render params) =
      params.map fun p => [percentDecode p.1, percentDecode p.2] := by
  have hpiece : ∀ p ∈ params, 38 ∉ piece p := by
    intro p hp hmem
    rw [piece] at hmem
    rcases List.mem_append.mp hmem with hmem | hmem
    · exact (h p hp 38 (List.mem_append_left _ hmem)).1 rfl
    · rcases List.mem_cons.mp hmem with heq | hmem
      · cases heq
      · exact (h p hp 38 (List.mem_append_right _ hmem)).1 rfl
  rw [parameters]
  rw [query_append hbase, render,
    List.splitOn_intercalate 38 (List.forall_mem_map.mpr hpiece) (by simpa using hne), List.map_map]
  apply List.map_congr_left
  intro p hp
  have hname : 61 ∉ p.1 := fun hmem => (h p hp 61 (List.mem_append_left _ hmem)).2 rfl
  have hvalue : 61 ∉ p.2 := fun hmem => (h p hp 61 (List.mem_append_right _ hmem)).2 rfl
  rw [Function.comp_apply, piece, List.splitOn_append_cons_self, List.splitOn_eq_singleton hname,
    List.splitOn_eq_singleton hvalue]
  rfl

/-- A parameter is split at its `=`. -/
theorem splitOn_piece {p : List UInt8 × List UInt8} (h : ∀ c ∈ p.1 ++ p.2, c ≠ 38 ∧ c ≠ 61) :
    (piece p).splitOn 38 = [piece p] ∧ (piece p).splitOn 61 = [p.1, p.2] := by
  have hname : 61 ∉ p.1 := fun hmem => (h 61 (List.mem_append_left _ hmem)).2 rfl
  have hvalue : 61 ∉ p.2 := fun hmem => (h 61 (List.mem_append_right _ hmem)).2 rfl
  constructor
  · refine List.splitOn_eq_singleton fun hmem => ?_
    rcases List.mem_append.mp hmem with hmem | hmem
    · exact (h 38 (List.mem_append_left _ hmem)).1 rfl
    · rcases List.mem_cons.mp hmem with heq | hmem
      · cases heq
      · exact (h 38 (List.mem_append_right _ hmem)).1 rfl
  · rw [piece, List.splitOn_append_cons_self, List.splitOn_eq_singleton hname,
      List.splitOn_eq_singleton hvalue]
    rfl

/-- A character of a rendered query is a separator, or one of a name or a value. -/
theorem not_mem_render {c : UInt8} {params : List (List UInt8 × List UInt8)} (hamp : c ≠ 38)
    (heq : c ≠ 61) (h : ∀ p ∈ params, c ∉ p.1 ∧ c ∉ p.2) : c ∉ render params := by
  have hpiece : ∀ p ∈ params, c ∉ piece p := by
    intro p hp
    rw [piece, List.mem_append, List.mem_cons]
    exact not_or.mpr ⟨(h p hp).1, not_or.mpr ⟨heq, (h p hp).2⟩⟩
  cases params with
  | nil => exact List.not_mem_nil
  | cons p params =>
      rw [render_cons, List.mem_append, List.mem_flatMap]
      rintro (hmem | ⟨r, hr, hmem⟩)
      · exact hpiece p List.mem_cons_self hmem
      · rcases List.mem_cons.mp hmem with hsep | hmem
        · exact hamp hsep
        · exact hpiece r (List.mem_cons_of_mem p hr) hmem

/-- The first parameter of a URL, whatever is behind it. -/
theorem head?_parameters {base : List UInt8} {p : List UInt8 × List UInt8} (rest : List UInt8)
    (hbase : 63 ∉ base) (h : ∀ c ∈ p.1 ++ p.2, c ≠ 38 ∧ c ≠ 61) :
    (parameters (base ++ 63 :: (piece p ++ 38 :: rest))).head? =
      some [percentDecode p.1, percentDecode p.2] := by
  obtain ⟨hpiece, hfields⟩ := splitOn_piece h
  rw [parameters, query_append hbase, List.splitOn_append_cons_self, hpiece]
  simp only [List.singleton_append, List.map_cons, hfields]
  rfl

/-- The last parameter of a URL, whatever the others are. -/
theorem getLast?_parameters {base : List UInt8} {p : List UInt8 × List UInt8}
    (params : List (List UInt8 × List UInt8)) (hbase : 63 ∉ base)
    (h : ∀ c ∈ p.1 ++ p.2, c ≠ 38 ∧ c ≠ 61) :
    (parameters (base ++ 63 :: render (params ++ [p]))).getLast? =
      some [percentDecode p.1, percentDecode p.2] := by
  obtain ⟨hpiece, hfields⟩ := splitOn_piece h
  have hlast : ((render (params ++ [p])).splitOn 38).getLast? = some (piece p) := by
    cases params with
    | nil =>
        rw [List.nil_append, render_cons, List.flatMap_nil, List.append_nil, hpiece]
        rfl
    | cons r params =>
        rw [List.cons_append, render_cons, List.flatMap_append, List.flatMap_singleton,
          ← List.append_assoc, List.splitOn_append_cons_self, hpiece, List.getLast?_append]
        rfl
  rw [parameters, query_append hbase, List.getLast?_map, hlast, Option.map_some, hfields]
  rfl

end QueryString
