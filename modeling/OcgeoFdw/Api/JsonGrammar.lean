import OcgeoFdw.Api.JsonParser

/-! # The grammar of the JSON texts that cJSON reads

A grammar for what `parse_value` accepts, by the number of arrays and objects that may be inside one
another. Every value of the grammar is read as the item it stands for, whatever follows it, and what
is read is a value of the grammar unless the text has a malformed `\u` escape. -/

namespace OcgeoFdw

open CString

/-! ## White space -/

/-- A run of the characters that are skipped. -/
def IsWhite (text : CString) : Prop := ∀ c ∈ text, c.toNat ≤ 32

/-- No white space. -/
theorem isWhite_nil : IsWhite [] := fun _ hc => absurd hc List.not_mem_nil

/-- White space in front of another character is skipped. -/
theorem skipWhitespace_append {white : CString} (hwhite : IsWhite white) {c : UInt8}
    (hc : 32 < c.toNat) (rest : CString) : skipWhitespace (white ++ c :: rest) = c :: rest := by
  have hdrop : (white ++ c :: rest).dropWhile (fun d => d.toNat ≤ 32) = c :: rest := by
    rw [List.dropWhile_append_of_pos fun d hd => decide_eq_true (hwhite d hd),
      List.dropWhile_cons_of_neg (by simpa using hc)]
  rw [skipWhitespace, hdrop]

/-- What is left behind white space stands behind white space, or the text is at its end. -/
theorem white_of_skipWhitespace (input : CString) :
    skipWhitespace input = [0] ∨
      ∃ white c rest, IsWhite white ∧ 32 < c.toNat ∧ skipWhitespace input = c :: rest ∧
        input = white ++ c :: rest := by
  rw [skipWhitespace]
  cases hdrop : input.dropWhile (fun d => d.toNat ≤ 32) with
  | nil => exact Or.inl rfl
  | cons c rest =>
      refine Or.inr ⟨input.takeWhile (fun d => d.toNat ≤ 32), c, rest, ?_, ?_, rfl, ?_⟩
      · exact fun d hd => of_decide_eq_true (List.all_eq_true.mp List.all_takeWhile d hd)
      · have hhead := List.head?_dropWhile_not (fun d : UInt8 => decide (d.toNat ≤ 32)) input
        rw [hdrop] at hhead
        simpa using hhead
      · rw [← hdrop, List.takeWhile_append_dropWhile]

/-- A malformed escape behind white space was there before. -/
theorem malformed_of_skipWhitespace {input : CString}
    (h : HasMalformedEscape (skipWhitespace input)) : HasMalformedEscape input := by
  rcases white_of_skipWhitespace input with hend | ⟨white, c, rest, -, -, hskip, hinput⟩
  · rw [hend] at h
    obtain ⟨before, behind, htext, -⟩ := h
    have hlen := congrArg List.length htext
    simp at hlen
    omega
  · rw [hskip] at h
    rw [hinput]
    exact h.append_left white

/-! ## Sequences -/

/-- Texts of `R`, separated by commas and with white space around them. -/
inductive IsSequence {α : Type} (R : CString → α → Prop) : CString → List α → Prop
  | last {before text after : CString} {a : α} (hbefore : IsWhite before) (h : R text a)
      (hafter : IsWhite after) : IsSequence R (before ++ (text ++ after)) [a]
  | more {before text after rest : CString} {a : α} {as : List α} (hbefore : IsWhite before)
      (h : R text a) (hafter : IsWhite after) (hrest : IsSequence R rest as) :
      IsSequence R (before ++ (text ++ (after ++ 44 :: rest))) (a :: as)

/-- A text of `R` starts with a character that is no white space and not the closing bracket. -/
def StartsWithout {α : Type} (R : CString → α → Prop) (close : UInt8) : Prop :=
  ∀ ⦃text a⦄, R text a → ∃ c tail, text = c :: tail ∧ 32 < c.toNat ∧ c ≠ close

/-- `parse_one` reads every text of `R` that is followed by no number character. -/
def Reads {α : Type} (parse_one : CString → Option (α × CString)) (R : CString → α → Prop) : Prop :=
  ∀ ⦃text a rest⦄, R text a → EndsNumber rest → parse_one (text ++ rest) = some (a, rest)

/-- What `parse_one` reads is a text of `R`, unless there is a malformed escape. -/
def ReadsOnly {α : Type} (parse_one : CString → Option (α × CString)) (R : CString → α → Prop) :
    Prop :=
  ∀ ⦃input a rest⦄, parse_one input = some (a, rest) →
    (∃ text, R text a ∧ input = text ++ rest) ∨ HasMalformedEscape input

section Sequences

variable {α : Type} {R : CString → α → Prop} {parse_one : CString → Option (α × CString)}
  {close : UInt8}

/-- White space in front of a comma or bracket ends a number. -/
theorem endsNumber_white {after : CString} (hafter : IsWhite after) {c : UInt8}
    (hc : isNumberChar c = false) (rest : CString) : EndsNumber (after ++ c :: rest) := by
  intro d hd
  cases after with
  | nil =>
      obtain rfl : c = d := Option.some.inj hd
      exact hc
  | cons e after =>
      obtain rfl : e = d := Option.some.inj hd
      have hwhite := hafter e List.mem_cons_self
      cases hchar : isNumberChar e with
      | false => rfl
      | true =>
          rcases (isNumberChar_iff e).mp hchar with hdigit | rfl | rfl | rfl | rfl | rfl
          · omega
          all_goals exact absurd hwhite (by decide)

/-- A sequence has no more elements than characters. -/
theorem IsSequence.length_le (hstart : StartsWithout R close) {text : CString} {as : List α}
    (h : IsSequence R text as) : as.length ≤ text.length := by
  induction h with
  | last hbefore h hafter =>
      obtain ⟨c, tail, rfl, -⟩ := hstart h
      simp
      omega
  | more hbefore h hafter hrest ih =>
      simp
      omega

/-- **A sequence of the grammar is read**, up to the closing bracket. -/
theorem parseSequence_of_isSequence (hstart : StartsWithout R close) (hreads : Reads parse_one R)
    (hclose : 32 < close.toNat) (hnumber : isNumberChar close = false) (hcomma : close ≠ 44)
    {text : CString} {as : List α} (h : IsSequence R text as) (rest : CString) {n : ℕ}
    (hn : as.length ≤ n) :
    parseSequence parse_one close n (text ++ close :: rest) = some (as, rest) := by
  induction h generalizing n with
  | @last before text after a hbefore h hafter =>
      obtain ⟨m, rfl⟩ := Nat.exists_eq_succ_of_ne_zero (Nat.one_le_iff_ne_zero.mp hn)
      obtain ⟨c, tail, htext, hc, -⟩ := hstart h
      have hskip : skipWhitespace (before ++ (text ++ after) ++ close :: rest) =
          text ++ (after ++ close :: rest) := by
        rw [List.append_assoc, List.append_assoc, htext]
        exact skipWhitespace_append hbefore hc _
      refine parseSequence_succ_eq_some_iff.mpr ⟨a, after ++ close :: rest, close, rest, ?_,
        skipWhitespace_append hafter hclose rest, .inr ⟨hcomma, rfl, rfl, rfl⟩⟩
      rw [hskip]
      exact hreads h (endsNumber_white hafter hnumber rest)
  | @more before text after tail a as hbefore h hafter hrest ih =>
      rw [List.length_cons] at hn
      obtain ⟨m, rfl⟩ := Nat.exists_eq_succ_of_ne_zero (by omega : n ≠ 0)
      obtain ⟨c, tail', htext, hc, -⟩ := hstart h
      have hskip : skipWhitespace (before ++ (text ++ (after ++ 44 :: tail)) ++ close :: rest) =
          text ++ (after ++ 44 :: (tail ++ close :: rest)) := by
        simp only [List.append_assoc, List.cons_append]
        rw [htext]
        exact skipWhitespace_append hbefore hc _
      refine parseSequence_succ_eq_some_iff.mpr ⟨a, after ++ 44 :: (tail ++ close :: rest), 44,
        tail ++ close :: rest, ?_, skipWhitespace_append hafter (by decide) _,
        .inl ⟨rfl, as, rfl, ih (by omega)⟩⟩
      rw [hskip]
      exact hreads h (endsNumber_white hafter rfl _)

/-- **What is read as a sequence is one of the grammar**, unless there is a malformed escape. -/
theorem isSequence_of_parseSequence (honly : ReadsOnly parse_one R)
    (hstart : StartsWithout R close) (hclose : 32 < close.toNat) {n : ℕ} {input rest : CString}
    {as : List α} (h : parseSequence parse_one close n input = some (as, rest)) :
    (∃ text, IsSequence R text as ∧ input = text ++ close :: rest) ∨ HasMalformedEscape input := by
  induction n generalizing input as with
  | zero => cases h
  | succ n ih =>
      obtain ⟨a, behind, c, left, hone, hskip, hcases⟩ := parseSequence_succ_eq_some_iff.mp h
      rcases honly hone with ⟨text, htext, hinput⟩ | hmalformed
      · -- the text that is read stands behind white space
        obtain ⟨first, tail, hcons, hfirst, -⟩ := hstart htext
        rcases white_of_skipWhitespace input with hend |
          ⟨before, d, more, hbefore, hd, hskip₁, hbegin⟩
        · rw [hend, hcons] at hinput
          have hzero := (List.cons.inj hinput).1
          rw [← hzero] at hfirst
          exact absurd hfirst (by decide)
        have hsource : input = before ++ (text ++ behind) := by
          rw [← hinput, hskip₁, ← hbegin]
        rcases white_of_skipWhitespace behind with hend |
          ⟨after, e, left', hafter, he, hskip₂, hbehind⟩
        · -- the NUL at the end of the text is neither a comma nor the bracket
          rw [hend] at hskip
          obtain ⟨rfl, -⟩ := List.cons.inj hskip
          rcases hcases with ⟨hcomma, -⟩ | ⟨-, rfl, -⟩
          · exact absurd hcomma (by decide)
          · exact absurd hclose (by decide)
        rw [hskip₂] at hskip
        obtain ⟨rfl, rfl⟩ := List.cons.inj hskip
        rcases hcases with ⟨rfl, bs, rfl, hseq⟩ | ⟨-, rfl, rfl, rfl⟩
        · rcases ih hseq with ⟨text', htext', hleft⟩ | hmalformed
          · refine Or.inl ⟨_, .more hbefore htext hafter htext', ?_⟩
            rw [hsource, hbehind, hleft]
            simp
          · -- a malformed escape in what is left is one in the input
            refine Or.inr ?_
            rw [hsource, hbehind]
            exact (((hmalformed.append_left [44]).append_left after).append_left text).append_left
              before
        · refine Or.inl ⟨_, .last hbefore htext hafter, ?_⟩
          rw [hsource, hbehind]
          simp
      · exact Or.inr (malformed_of_skipWhitespace hmalformed)

/-! ## Arrays and objects -/

/-- The text of an array or object: its brackets with nothing but white space between them, or with a
sequence. -/
inductive IsContainer (start close : UInt8) (R : CString → α → Prop) (build : List α → CJsonItem) :
    CString → CJsonItem → Prop
  | empty {white : CString} (hwhite : IsWhite white) :
      IsContainer start close R build (start :: (white ++ [close])) (build [])
  | full {text : CString} {as : List α} (h : IsSequence R text as) :
      IsContainer start close R build (start :: (text ++ [close])) (build as)

/-- A sequence starts with white space and a character that is not the closing bracket. -/
theorem IsSequence.starts (hstart : StartsWithout R close) {text : CString} {as : List α}
    (h : IsSequence R text as) :
    ∃ white c tail, text = white ++ c :: tail ∧ IsWhite white ∧ 32 < c.toNat ∧ c ≠ close ∧
      IsSequence R (c :: tail) as := by
  cases h with
  | @last before text after a hbefore h hafter =>
      obtain ⟨c, tail, rfl, hc, hclose⟩ := hstart h
      exact ⟨before, c, tail ++ after, rfl, hbefore, hc, hclose, .last isWhite_nil h hafter⟩
  | @more before text after rest a as hbefore h hafter hrest =>
      obtain ⟨c, tail, rfl, hc, hclose⟩ := hstart h
      exact ⟨before, c, tail ++ (after ++ 44 :: rest), rfl, hbefore, hc, hclose,
        .more isWhite_nil h hafter hrest⟩

/-- White space in front of a sequence belongs to it. -/
theorem IsSequence.white_append {white text : CString} {as : List α} (hwhite : IsWhite white)
    (h : IsSequence R text as) : IsSequence R (white ++ text) as := by
  have hboth : ∀ {before : CString}, IsWhite before → IsWhite (white ++ before) := by
    intro before hbefore c hc
    rcases List.mem_append.mp hc with hc | hc
    · exact hwhite c hc
    · exact hbefore c hc
  cases h with
  | last hbefore h hafter =>
      rw [← List.append_assoc]
      exact .last (hboth hbefore) h hafter
  | more hbefore h hafter hrest =>
      rw [← List.append_assoc]
      exact .more (hboth hbefore) h hafter hrest

/-- **An array or object of the grammar is read.** -/
theorem parseContainer_of_isContainer {start : UInt8} {build : List α → CJsonItem}
    (hstart : StartsWithout R close) (hreads : Reads parse_one R) (hclose : 32 < close.toNat)
    (hnumber : isNumberChar close = false) (hcomma : close ≠ 44) {text : CString}
    {item : CJsonItem} (h : IsContainer start close R build text item) (rest : CString) :
    parseContainer start close parse_one build (text ++ rest) = some (item, rest) := by
  cases h with
  | @empty white hwhite =>
      have htext : start :: (white ++ [close]) ++ rest = start :: (white ++ close :: rest) := by
        simp
      rw [htext]
      exact parseContainer_eq_some_iff.mpr
        ⟨_, close, rest, rfl, skipWhitespace_append hwhite hclose rest, .inl ⟨rfl, rfl, rfl⟩⟩
  | @full text as h =>
      obtain ⟨white, c, tail, hwhole, hwhite, hc, hne, hseq⟩ := h.starts hstart
      have htext : start :: (text ++ [close]) ++ rest =
          start :: (white ++ c :: (tail ++ close :: rest)) := by
        simp [hwhole]
      have hlen := hseq.length_le hstart
      have hread := parseSequence_of_isSequence hstart hreads hclose hnumber hcomma hseq rest
        (n := (c :: (tail ++ close :: rest)).length) (by simp at hlen ⊢; omega)
      rw [htext]
      exact parseContainer_eq_some_iff.mpr
        ⟨_, c, _, rfl, skipWhitespace_append hwhite hc _, .inr ⟨hne, _, rfl, hread⟩⟩

/-- **What is read as an array or object is one of the grammar**, unless there is a malformed
escape. -/
theorem isContainer_of_parseContainer {start : UInt8} {build : List α → CJsonItem}
    (honly : ReadsOnly parse_one R) (hstart : StartsWithout R close) (hclose : 32 < close.toNat) :
    ReadsOnly (parseContainer start close parse_one build) (IsContainer start close R build) := by
  intro input item rest h
  obtain ⟨inside, d, behind, rfl, hskip, hcases⟩ := parseContainer_eq_some_iff.mp h
  rcases white_of_skipWhitespace inside with hend | ⟨white, e, behind', hwhite, he, hskip', hinside⟩
  · rw [hend] at hskip
    obtain ⟨rfl, rfl⟩ := List.cons.inj hskip
    rcases hcases with ⟨rfl, -⟩ | ⟨-, as, -, hseq⟩
    · exact absurd hclose (by decide)
    rcases isSequence_of_parseSequence honly hstart hclose hseq with
      ⟨text, htext, hnul⟩ | ⟨before, behind, htext, -⟩
    · -- a sequence does not start at the end of the text
      obtain ⟨white, c, tail, rfl, hwhite, hc, -, -⟩ := htext.starts hstart
      have hlen := congrArg List.length hnul
      simp at hlen
      omega
    · have hlen := congrArg List.length htext
      simp at hlen
      omega
  · rw [hskip'] at hskip
    obtain ⟨rfl, rfl⟩ := List.cons.inj hskip
    rcases hcases with ⟨rfl, rfl, rfl⟩ | ⟨-, as, rfl, hseq⟩
    · refine Or.inl ⟨_, .empty hwhite, ?_⟩
      rw [hinside]
      simp
    · rcases isSequence_of_parseSequence honly hstart hclose hseq with
        ⟨text, htext, hbehind⟩ | hmalformed
      · refine Or.inl ⟨_, .full (htext.white_append hwhite), ?_⟩
        rw [hinside, hbehind]
        simp
      · refine Or.inr ?_
        rw [hinside]
        exact (hmalformed.append_left white).append_left [start]

end Sequences

/-! ## Values -/

/-- A value without children. A numeral has at most 63 characters and does not start with a plus or
a point. -/
inductive IsScalar : CString → CJsonItem → Prop
  | null : IsScalar (ofAscii "null") .null
  | bool (value : Bool) : IsScalar (ofAscii (if value then "true" else "false")) (.bool value)
  | number {text : CString} {n : DecimalNumeral} (h : IsNumeral text n) (hlen : text.length ≤ 63)
      (hfirst : ∀ c ∈ text.head?, c = 45 ∨ (48 ≤ c.toNat ∧ c.toNat ≤ 57)) :
      IsScalar text (.number (CDouble.ofMagnitude n.negative n.magnitude))
  | string {text decoded : CString} (h : IsStringBody text decoded) :
      IsScalar (34 :: (text ++ [34])) (.string (untilNul decoded))

/-- A member of an object: its name, a colon and a value of `R`. -/
inductive IsMember (R : CString → CJsonItem → Prop) : CString → CString × CJsonItem → Prop
  | intro {name decoded before after text : CString} {item : CJsonItem}
      (hname : IsStringBody name decoded) (hbefore : IsWhite before) (hafter : IsWhite after)
      (h : R text item) :
      IsMember R (34 :: (name ++ 34 :: (before ++ 58 :: (after ++ text)))) (untilNul decoded, item)

/-- The text of a value with at most `levels` arrays and objects inside one another, and the item it
stands for. -/
def IsValue : ℕ → CString → CJsonItem → Prop
  | 0 => IsScalar
  | levels + 1 => fun text item =>
      IsScalar text item ∨ IsContainer 91 93 (IsValue levels) .array text item ∨
        IsContainer 123 125 (IsMember (IsValue levels)) .object text item

/-- A value without children is a value at any level. -/
theorem IsScalar.isValue {text : CString} {item : CJsonItem} (h : IsScalar text item) (levels : ℕ) :
    IsValue levels text item := by
  cases levels with
  | zero => exact h
  | succ levels => exact Or.inl h

/-- The characters that values start with: quotes, a minus or digit, brackets, and the first letters
of the literals. -/
def IsValueStart (c : UInt8) : Prop :=
  c = 34 ∨ c = 45 ∨ (48 ≤ c.toNat ∧ c.toNat ≤ 57) ∨ c = 91 ∨ c = 102 ∨ c = 110 ∨ c = 116 ∨ c = 123

/-- They are ASCII characters, no white space and no closing brackets. -/
theorem IsValueStart.ascii {c : UInt8} (h : IsValueStart c) :
    32 < c.toNat ∧ c.toNat < 128 ∧ c ≠ 93 := by
  rcases h with rfl | rfl | ⟨hlow, hhigh⟩ | rfl | rfl | rfl | rfl | rfl
  case inr.inr.inl =>
    refine ⟨by omega, by omega, ?_⟩
    rintro rfl
    exact absurd hhigh (by decide)
  all_goals decide

/-- A value starts with one of these characters. -/
theorem IsValue.starts {levels : ℕ} {text : CString} {item : CJsonItem}
    (h : IsValue levels text item) : ∃ c tail, text = c :: tail ∧ IsValueStart c := by
  have hscalar : IsScalar text item → ∃ c tail, text = c :: tail ∧ IsValueStart c := by
    intro h
    cases h with
    | null => exact ⟨110, ofAscii "ull", rfl, by simp [IsValueStart]⟩
    | bool value =>
        cases value with
        | true => exact ⟨116, ofAscii "rue", rfl, by simp [IsValueStart]⟩
        | false => exact ⟨102, ofAscii "alse", rfl, by simp [IsValueStart]⟩
    | number hnumeral hlen hfirst =>
        obtain ⟨c, tail, rfl⟩ := List.exists_cons_of_ne_nil hnumeral.isNumeralByte.1
        refine ⟨c, tail, rfl, ?_⟩
        rcases hfirst c rfl with hminus | hdigit
        · exact Or.inr (Or.inl hminus)
        · exact Or.inr (Or.inr (Or.inl hdigit))
    | string h => exact ⟨34, _, rfl, Or.inl rfl⟩
  cases levels with
  | zero => exact hscalar h
  | succ levels =>
      rcases h with h | h | h
      · exact hscalar h
      · cases h with
        | empty hwhite => exact ⟨91, _, rfl, by simp [IsValueStart]⟩
        | full h => exact ⟨91, _, rfl, by simp [IsValueStart]⟩
      · cases h with
        | empty hwhite => exact ⟨123, _, rfl, by simp [IsValueStart]⟩
        | full h => exact ⟨123, _, rfl, by simp [IsValueStart]⟩

/-- A value starts with a character that is no white space and no closing bracket. -/
theorem isValue_startsWithout (levels : ℕ) : StartsWithout (IsValue levels) 93 := by
  intro text item h
  obtain ⟨c, tail, htext, hc⟩ := h.starts
  exact ⟨c, tail, htext, hc.ascii.1, hc.ascii.2.2⟩

/-- A value starts with a character that is no white space. -/
theorem isValue_starts (levels : ℕ) ⦃text : CString⦄ ⦃item : CJsonItem⦄
    (h : IsValue levels text item) : ∃ c tail, text = c :: tail ∧ 32 < c.toNat := by
  obtain ⟨c, tail, htext, hc⟩ := h.starts
  exact ⟨c, tail, htext, hc.ascii.1⟩

/-- A member starts with a quote. -/
theorem isMember_starts (R : CString → CJsonItem → Prop) : StartsWithout (IsMember R) 125 := by
  intro text member h
  cases h
  exact ⟨34, _, rfl, by decide, by decide⟩

/-! ## Values of the grammar are read -/

/-- Behind the literals, the first character decides. -/
theorem parseValueWith_cons {parse_array parse_object : CString → Option (CJsonItem × CString)}
    {c : UInt8} (hnull : c ≠ 110) (hfalse : c ≠ 102) (htrue : c ≠ 116) (rest : CString) :
    parseValueWith parse_array parse_object (c :: rest) =
      if c = 34 then (parseString (c :: rest)).map fun parsed => (.string parsed.1, parsed.2)
      else if c = 45 ∨ (48 ≤ c.toNat ∧ c.toNat ≤ 57) then parseNumber (c :: rest)
      else if c = 91 then parse_array (c :: rest)
      else if c = 123 then parse_object (c :: rest)
      else none := by
  have hprefix : ∀ (d : UInt8) (literal : CString), c ≠ d →
      (d :: literal).isPrefixOf (c :: rest) = false := by
    intro d literal hne
    rw [List.isPrefixOf, beq_eq_false_iff_ne.mpr (Ne.symm hne), Bool.false_and]
  have h1 : (ofAscii "null").isPrefixOf (c :: rest) = false := hprefix 110 (ofAscii "ull") hnull
  have h2 : (ofAscii "false").isPrefixOf (c :: rest) = false := hprefix 102 (ofAscii "alse") hfalse
  have h3 : (ofAscii "true").isPrefixOf (c :: rest) = false := hprefix 116 (ofAscii "rue") htrue
  rw [parseValueWith, h1, h2, h3]
  rfl

/-- A value without children is read, whatever the parsers of arrays and objects are. Only a number
must not go on behind it. -/
theorem parseValueWith_of_isScalar {parse_array parse_object : CString → Option (CJsonItem × CString)}
    {text rest : CString} {item : CJsonItem} (h : IsScalar text item)
    (hrest : ∀ d, item = .number d → EndsNumber rest) :
    parseValueWith parse_array parse_object (text ++ rest) = some (item, rest) := by
  cases h with
  | null => rfl
  | bool value =>
      cases value with
      | true => rfl
      | false => rfl
  | @number text n h hlen hfirst =>
      obtain ⟨c, tail, rfl⟩ := List.exists_cons_of_ne_nil h.isNumeralByte.1
      have hc := hfirst c rfl
      have hletter : c ≠ 110 ∧ c ≠ 102 ∧ c ≠ 116 ∧ c ≠ 34 := by
        refine ⟨?_, ?_, ?_, ?_⟩
        all_goals
          rintro rfl
          exact absurd hc (by decide)
      rw [List.cons_append, parseValueWith_cons hletter.1 hletter.2.1 hletter.2.2.1,
        if_neg hletter.2.2.2, if_pos hc, ← List.cons_append]
      exact parseNumber_of_isNumeral h hlen (hrest _ rfl)
  | @string text decoded h =>
      have htext : 34 :: (text ++ [34]) ++ rest = 34 :: (text ++ 34 :: rest) := by simp
      rw [htext, parseValueWith_cons (by decide) (by decide) (by decide), if_pos rfl,
        parseString_of_body h]
      rfl

/-- A member is read when its value is. -/
theorem parseMember_of_isMember {R : CString → CJsonItem → Prop}
    {parse_value : CString → Option (CJsonItem × CString)} (hreads : Reads parse_value R)
    (hstart : ∀ ⦃text item⦄, R text item → ∃ c tail, text = c :: tail ∧ 32 < c.toNat) :
    Reads (parseMember parse_value) (IsMember R) := by
  intro text member rest h hrest
  cases h with
  | @intro name decoded before after text item hname hbefore hafter h =>
      obtain ⟨c, tail, htext, hc⟩ := hstart h
      have hwhole : 34 :: (name ++ 34 :: (before ++ 58 :: (after ++ text))) ++ rest =
          34 :: (name ++ 34 :: (before ++ 58 :: (after ++ (text ++ rest)))) := by
        simp
      have hskip : skipWhitespace (after ++ (text ++ rest)) = text ++ rest := by
        rw [htext]
        exact skipWhitespace_append hafter hc _
      rw [hwhole]
      refine parseMember_eq_some_iff.mpr ⟨_, _, parseString_of_body hname _,
        skipWhitespace_append hbefore (by decide) _, ?_⟩
      rw [hskip]
      exact hreads h hrest

/-- **Every value of the grammar is read as the item it stands for**, whatever is behind it. Only a
number must not go on with a number character. -/
theorem parseValue_append (levels : ℕ) {text rest : CString} {item : CJsonItem}
    (h : IsValue levels text item) (hrest : ∀ d, item = .number d → EndsNumber rest) :
    parseValue levels (text ++ rest) = some (item, rest) := by
  induction levels generalizing text rest item with
  | zero => exact parseValueWith_of_isScalar h hrest
  | succ levels ih =>
      have hreads : Reads (parseValue levels) (IsValue levels) :=
        fun text item rest h hrest => ih h fun _ _ => hrest
      rcases h with h | h | h
      · exact parseValueWith_of_isScalar h hrest
      · have hread := parseContainer_of_isContainer (isValue_startsWithout levels) hreads
          (by decide) (by decide) (by decide) h rest
        obtain ⟨tail, rfl⟩ : ∃ tail, text = 91 :: tail := by
          cases h with
          | empty => exact ⟨_, rfl⟩
          | full => exact ⟨_, rfl⟩
        rw [parseValue, List.cons_append, parseValueWith_cons (by decide) (by decide) (by decide),
          if_neg (by decide), if_neg (by decide), if_pos rfl, ← List.cons_append]
        exact hread
      · have hmember := parseMember_of_isMember hreads (isValue_starts levels)
        have hread := parseContainer_of_isContainer (isMember_starts (IsValue levels)) hmember
          (by decide) (by decide) (by decide) h rest
        obtain ⟨tail, rfl⟩ : ∃ tail, text = 123 :: tail := by
          cases h with
          | empty => exact ⟨_, rfl⟩
          | full => exact ⟨_, rfl⟩
        rw [parseValue, List.cons_append, parseValueWith_cons (by decide) (by decide) (by decide),
          if_neg (by decide), if_neg (by decide), if_neg (by decide), if_pos rfl,
          ← List.cons_append]
        exact hread

theorem parseValue_of_isValue (levels : ℕ) : Reads (parseValue levels) (IsValue levels) :=
  fun _ _ _ h hrest => parseValue_append levels h fun _ _ => hrest

/-! ## What is read is a value of the grammar -/

/-- What is read without the parsers of arrays and objects is a value without children. -/
theorem isScalar_of_parseValueWith
    {parse_array parse_object : CString → Option (CJsonItem × CString)} {input rest : CString}
    {item : CJsonItem} (h : parseValueWith parse_array parse_object input = some (item, rest)) :
    (∃ text, IsScalar text item ∧ input = text ++ rest) ∨ HasMalformedEscape input ∨
      parse_array input = some (item, rest) ∨ parse_object input = some (item, rest) := by
  rcases parseValueWith_eq_some h with ⟨hinput, rfl⟩ | ⟨value, hinput, rfl⟩ |
    ⟨value, hstring, rfl⟩ | ⟨hfirst, hnumber⟩ | hcontainer
  · exact .inl ⟨_, .null, hinput⟩
  · exact .inl ⟨_, .bool value, hinput⟩
  · rcases body_of_parseString hstring with ⟨text, decoded, htext, hinput, rfl⟩ | hmalformed
    · exact .inl ⟨_, .string htext, by rw [hinput]; simp⟩
    · exact .inr (.inl hmalformed)
  · obtain ⟨text, n, hnumeral, hlen, hinput, rfl⟩ := isNumeral_of_parseNumber hnumber
    refine .inl ⟨text, .number hnumeral hlen fun c hc => hfirst c ?_, hinput⟩
    -- a numeral is not empty: its first character is that of the input
    obtain ⟨e, tail, rfl⟩ := List.exists_cons_of_ne_nil hnumeral.isNumeralByte.1
    rw [hinput]
    exact hc
  · exact .inr (.inr hcontainer)

/-- What is read as a member is one, unless there is a malformed escape. -/
theorem isMember_of_parseMember {R : CString → CJsonItem → Prop}
    {parse_value : CString → Option (CJsonItem × CString)} (honly : ReadsOnly parse_value R)
    (hstart : ∀ ⦃text item⦄, R text item → ∃ c tail, text = c :: tail ∧ 32 < c.toNat) :
    ReadsOnly (parseMember parse_value) (IsMember R) := by
  intro input member rest h
  obtain ⟨behind, left, hname, hskip, hvalue⟩ := parseMember_eq_some_iff.mp h
  obtain ⟨string, item⟩ := member
  rcases body_of_parseString hname with ⟨name, decoded, hbody, hinput, rfl⟩ | hmalformed
  · rcases white_of_skipWhitespace behind with hend |
      ⟨before, c, left', hbefore, hc, hskip', hbehind⟩
    · -- the NUL at the end of the text is no colon
      rw [hend] at hskip
      exact absurd (List.cons.inj hskip).1 (by decide)
    rw [hskip'] at hskip
    obtain ⟨rfl, rfl⟩ := List.cons.inj hskip
    rcases honly hvalue with ⟨text, htext, hleft⟩ | hmalformed
    · obtain ⟨d, tail, hcons, hd⟩ := hstart htext
      rcases white_of_skipWhitespace left' with hend |
        ⟨after, e, more, hafter, he, hskip', hbegin⟩
      · rw [hend, hcons] at hleft
        have hzero := (List.cons.inj hleft).1
        rw [← hzero] at hd
        exact absurd hd (by decide)
      refine Or.inl ⟨_, .intro hbody hbefore hafter htext, ?_⟩
      rw [hinput, hbehind, hbegin, ← hskip', hleft]
      simp
    · refine Or.inr ?_
      rw [hinput, hbehind]
      have hmalformed' := malformed_of_skipWhitespace hmalformed
      have h1 := (hmalformed'.append_left [58]).append_left before
      have h2 := ((h1.append_left [34]).append_left name).append_left [34]
      exact h2
  · exact Or.inr hmalformed

/-- **What is read as a value is one of the grammar**, unless there is a malformed escape. -/
theorem isValue_of_parseValue (levels : ℕ) : ReadsOnly (parseValue levels) (IsValue levels) := by
  induction levels with
  | zero =>
      intro input item rest h
      rcases isScalar_of_parseValueWith h with h | h | h | h
      · exact Or.inl h
      · exact Or.inr h
      · cases h
      · cases h
  | succ levels ih =>
      intro input item rest h
      rcases isScalar_of_parseValueWith h with ⟨text, htext, hinput⟩ | h | h | h
      · exact Or.inl ⟨text, Or.inl htext, hinput⟩
      · exact Or.inr h
      · have honly : ReadsOnly (parseArray (parseValue levels))
            (IsContainer 91 93 (IsValue levels) .array) :=
          isContainer_of_parseContainer ih (isValue_startsWithout levels) (by decide)
        rcases honly h with ⟨text, htext, hinput⟩ | hmalformed
        · exact Or.inl ⟨text, Or.inr (Or.inl htext), hinput⟩
        · exact Or.inr hmalformed
      · have hmember := isMember_of_parseMember ih (isValue_starts levels)
        have honly : ReadsOnly (parseObject (parseValue levels))
            (IsContainer 123 125 (IsMember (IsValue levels)) .object) :=
          isContainer_of_parseContainer hmember (isMember_starts (IsValue levels)) (by decide)
        rcases honly h with ⟨text, htext, hinput⟩ | hmalformed
        · exact Or.inl ⟨text, Or.inr (Or.inr htext), hinput⟩
        · exact Or.inr hmalformed

end OcgeoFdw
