import OcgeoFdw.Api.JsonGrammar
import OcgeoFdw.Api.JsonLevels

/-! # The texts of JSON items

What the text of an item is, in one line or on several lines with tabs, and what is read from it: the
item itself, with `null` for its infinities and its strings cut at the first NUL. -/

namespace OcgeoFdw

open CString

/-- Texts with commas between them: `front` before each, `space` behind each comma, and `back` behind
the last. -/
def joinTexts (front space back : CString) : List CString → CString
  | [] => []
  | [text] => front ++ (text ++ back)
  | text :: texts => front ++ (text ++ (44 :: (space ++ joinTexts front space back texts)))

/-- A comma is behind a text that is not the last. -/
theorem joinTexts_cons {front space back text : CString} {texts : List CString} (h : texts ≠ []) :
    joinTexts front space back (text :: texts) =
      front ++ (text ++ (44 :: (space ++ joinTexts front space back texts))) := by
  cases texts with
  | nil => exact absurd rfl h
  | cons text' texts => rfl

namespace CJsonItem

mutual

/-- The text of an item at a depth; `format` is on for several lines. -/
def text (format : Bool) : CJsonItem → ℕ → CString
  | .null, _ => ofAscii "null"
  | .bool value, _ => ofAscii (if value then "true" else "false")
  | .number valuedouble, _ => numberBuffer valuedouble
  | .string valuestring, _ => stringText valuestring
  | .array elements, depth =>
      91 :: (joinTexts [] (if format then [32] else []) [] (textsOfElements format elements (depth + 1))
        ++ [93])
  | .object members, depth =>
      let line : CString := if format then [10] else []
      let tabs (n : ℕ) : CString := if format then List.replicate n 9 else []
      123 :: (line ++ (joinTexts (tabs (depth + 1)) line line
        (textsOfMembers format members (depth + 1)) ++ (tabs depth ++ [125])))

/-- The texts of the elements of an array. -/
def textsOfElements (format : Bool) : List CJsonItem → ℕ → List CString
  | [], _ => []
  | e :: elements, depth => text format e depth :: textsOfElements format elements depth

/-- The texts of the members of an object. -/
def textsOfMembers (format : Bool) : List (CString × CJsonItem) → ℕ → List CString
  | [], _ => []
  | (key, e) :: members, depth =>
      (stringText key ++ 58 :: ((if format then [9] else []) ++ text format e depth)) ::
        textsOfMembers format members depth

end

mutual

/-- The item that is read from the text of an item. -/
def reread : CJsonItem → CJsonItem
  | .number (.infinite _) => .null
  | .string valuestring => .string (untilNul valuestring)
  | .array elements => .array (rereadElements elements)
  | .object members => .object (rereadMembers members)
  | item => item

/-- The elements that are read from their texts. -/
def rereadElements : List CJsonItem → List CJsonItem
  | [] => []
  | e :: elements => reread e :: rereadElements elements

/-- The members that are read from their texts. -/
def rereadMembers : List (CString × CJsonItem) → List (CString × CJsonItem)
  | [] => []
  | (key, e) :: members => (untilNul key, reread e) :: rereadMembers members

end

/-- The text of a member. -/
def memberText (format : Bool) (depth : ℕ) (member : CString × CJsonItem) : CString :=
  stringText member.1 ++ 58 :: ((if format then [9] else []) ++ member.2.text format depth)

/-- The member that is read from the text of a member. -/
def rereadMember (member : CString × CJsonItem) : CString × CJsonItem :=
  (untilNul member.1, member.2.reread)

/-- The texts of elements are those of each. -/
theorem textsOfElements_eq (format : Bool) (elements : List CJsonItem) (depth : ℕ) :
    textsOfElements format elements depth = elements.map fun e => e.text format depth := by
  induction elements with
  | nil => simp [textsOfElements]
  | cons e elements ih => simp [textsOfElements, ih]

/-- The texts of members are those of each. -/
theorem textsOfMembers_eq (format : Bool) (members : List (CString × CJsonItem)) (depth : ℕ) :
    textsOfMembers format members depth = members.map (memberText format depth) := by
  induction members with
  | nil => simp [textsOfMembers]
  | cons member members ih => simp [textsOfMembers, memberText, ih]

/-- The elements are read one by one. -/
theorem rereadElements_eq (elements : List CJsonItem) :
    rereadElements elements = elements.map reread := by
  induction elements with
  | nil => simp [rereadElements]
  | cons e elements ih => simp [rereadElements, ih]

/-- The members are read one by one. -/
theorem rereadMembers_eq (members : List (CString × CJsonItem)) :
    rereadMembers members = members.map rereadMember := by
  induction members with
  | nil => simp [rereadMembers]
  | cons member members ih => simp [rereadMembers, rereadMember, ih]

end CJsonItem

/-! ## Texts are texts of the grammar -/

/-- White space before white space is white space. -/
theorem IsWhite.append {before after : CString} (hbefore : IsWhite before) (hafter : IsWhite after) :
    IsWhite (before ++ after) := by
  intro c hc
  rcases List.mem_append.mp hc with hc | hc
  · exact hbefore c hc
  · exact hafter c hc

/-- Joined texts are a sequence. -/
theorem isSequence_joinTexts {α : Type} {R : CString → α → Prop} {f : α → CString} {g : α → α}
    {front space back after : CString} (hfront : IsWhite front) (hspace : IsWhite space)
    (hback : IsWhite back) (hafter : IsWhite after) {as : List α} (hne : as ≠ [])
    (h : ∀ a ∈ as, R (f a) (g a)) {before : CString} (hbefore : IsWhite before) :
    IsSequence R (before ++ (joinTexts front space back (as.map f) ++ after)) (as.map g) := by
  induction as generalizing before with
  | nil => exact absurd rfl hne
  | cons a as ih =>
      have hfirst := h a List.mem_cons_self
      cases as with
      | nil =>
          have hlast := IsSequence.last (hbefore.append hfront) hfirst (hback.append hafter)
          simpa [joinTexts] using hlast
      | cons b bs =>
          have hrest := ih (List.cons_ne_nil b bs) (fun c hc => h c (List.mem_cons_of_mem a hc))
            hspace
          have hmore := IsSequence.more (hbefore.append hfront) hfirst isWhite_nil hrest
          simpa [joinTexts] using hmore

/-- A run of one white character. -/
theorem isWhite_replicate (n : ℕ) {c : UInt8} (hc : c.toNat ≤ 32) : IsWhite (List.replicate n c) := by
  intro d hd
  rw [List.eq_of_mem_replicate hd]
  exact hc

/-- White space that depends on the format. -/
theorem isWhite_ite (format : Bool) {white : CString} (h : IsWhite white) :
    IsWhite (if format then white else []) := by
  cases format with
  | true => exact h
  | false => exact isWhite_nil

/-- The text of a member is a member of the grammar when the text of its value is a value. -/
theorem isMember_memberText {R : CString → CJsonItem → Prop} (format : Bool)
    {member : CString × CJsonItem} {depth : ℕ}
    (h : R (member.2.text format depth) member.2.reread) :
    IsMember R (CJsonItem.memberText format depth member) (CJsonItem.rereadMember member) := by
  have hname := isStringBody_flatMap (untilNul member.1)
  have htab : IsWhite (if format then [9] else []) :=
    isWhite_ite format (isWhite_replicate 1 (by decide : (9 : UInt8).toNat ≤ 32))
  have hmember := IsMember.intro hname isWhite_nil htab h
  rw [untilNul_untilNul] at hmember
  rw [CJsonItem.memberText, stringText, CJsonItem.rereadMember]
  simpa using hmember

/-- **The text of an item is a value of the grammar**, with the levels that the item is nested. -/
theorem isValue_text (format : Bool) (item : CJsonItem) {levels : ℕ} (hlevels : item.nesting ≤ levels)
    (depth : ℕ) : IsValue levels (item.text format depth) item.reread := by
  induction item using CJsonItem.induct generalizing levels depth with
  | null => exact IsScalar.null.isValue levels
  | bool value => exact (IsScalar.bool value).isValue levels
  | number d =>
      cases d with
      | infinite s => exact IsScalar.null.isValue levels
      | finite d =>
          obtain ⟨n, hnumeral, hlen, hvalue⟩ := isNumeral_numberBuffer d
          have hscalar := IsScalar.number hnumeral hlen (numberBuffer_starts d)
          rw [hvalue] at hscalar
          exact hscalar.isValue levels
  | string s =>
      have hscalar := IsScalar.string (isStringBody_flatMap (untilNul s))
      rw [untilNul_untilNul] at hscalar
      exact hscalar.isValue levels
  | array elements ih =>
      -- a container takes one of the levels
      obtain ⟨n, rfl⟩ : ∃ n, levels = n + 1 := by
        rw [CJsonItem.nesting] at hlevels
        exact Nat.exists_eq_succ_of_ne_zero (by omega)
      rw [CJsonItem.nesting, Nat.add_le_add_iff_right, CJsonItem.nestingOfElements_le] at hlevels
      refine Or.inr (Or.inl ?_)
      rw [CJsonItem.text, CJsonItem.reread, CJsonItem.textsOfElements_eq,
        CJsonItem.rereadElements_eq]
      cases elements with
      | nil => exact .empty isWhite_nil
      | cons e elements =>
          have hseq := isSequence_joinTexts isWhite_nil
            (isWhite_ite format (isWhite_replicate 1 (by decide : (32 : UInt8).toNat ≤ 32)))
            isWhite_nil isWhite_nil (List.cons_ne_nil e elements)
            (fun e he => ih e he (hlevels e he) (depth + 1)) isWhite_nil
          rw [List.nil_append, List.append_nil] at hseq
          exact .full hseq
  | object members ih =>
      obtain ⟨n, rfl⟩ : ∃ n, levels = n + 1 := by
        rw [CJsonItem.nesting] at hlevels
        exact Nat.exists_eq_succ_of_ne_zero (by omega)
      rw [CJsonItem.nesting, Nat.add_le_add_iff_right, CJsonItem.nestingOfMembers_le] at hlevels
      refine Or.inr (Or.inr ?_)
      rw [CJsonItem.text, CJsonItem.reread, CJsonItem.textsOfMembers_eq,
        CJsonItem.rereadMembers_eq]
      simp only
      -- without the format both are empty, which is white space as well
      have hline : IsWhite (if format then [10] else []) :=
        isWhite_ite format (isWhite_replicate 1 (by decide : (10 : UInt8).toNat ≤ 32))
      have htabs : ∀ n, IsWhite (if format then List.replicate n 9 else []) :=
        fun n => isWhite_ite format (isWhite_replicate n (by decide : (9 : UInt8).toNat ≤ 32))
      cases members with
      | nil =>
          have hempty : IsContainer 123 125 (IsMember (IsValue n)) .object _ _ :=
            .empty (hline.append (htabs depth))
          simpa [joinTexts] using hempty
      | cons m members =>
          have hseq := isSequence_joinTexts (htabs (depth + 1)) hline hline (htabs depth)
            (List.cons_ne_nil m members)
            (fun m hm => isMember_memberText format (ih m hm (hlevels m hm) (depth + 1))) hline
          have hfull : IsContainer 123 125 (IsMember (IsValue n)) .object _ _ := .full hseq
          simpa using hfull

/-! ## Texts have no NUL -/

/-- The NUL is not a character of a text. -/
theorem ne_zero_of_mem {text : CString} (h : (0 : UInt8) ∉ text) : ∀ c ∈ text, c ≠ 0 := by
  rintro c hc rfl
  exact h hc

/-- Joined texts have no NUL when their parts have none. -/
theorem ne_zero_of_mem_joinTexts {front space back : CString} (hfront : ∀ c ∈ front, c ≠ 0)
    (hspace : ∀ c ∈ space, c ≠ 0) (hback : ∀ c ∈ back, c ≠ 0) {texts : List CString}
    (h : ∀ text ∈ texts, ∀ c ∈ text, c ≠ 0) : ∀ c ∈ joinTexts front space back texts, c ≠ 0 := by
  induction texts with
  | nil => exact fun c hc => absurd hc List.not_mem_nil
  | cons text texts ih =>
      obtain ⟨hfirst, hrest⟩ := List.forall_mem_cons.mp h
      cases texts with
      | nil =>
          rw [joinTexts]
          simp only [List.forall_mem_append]
          exact ⟨hfront, hfirst, hback⟩
      | cons text' texts =>
          rw [joinTexts]
          simp only [List.forall_mem_append, List.forall_mem_cons]
          exact ⟨hfront, hfirst, by decide, hspace, ih hrest⟩
          all_goals exact List.cons_ne_nil _ _

/-- A printed string has no NUL. -/
theorem ne_zero_of_mem_stringText {s : CString} : ∀ c ∈ stringText s, c ≠ 0 := by
  have hbytes : ∀ c ∈ (untilNul s).flatMap escapeByte, c ≠ 0 := by
    intro c hc
    obtain ⟨b, -, hmem⟩ := List.mem_flatMap.mp hc
    rintro rfl
    exact absurd (escapeByte_printable b 0 hmem) (by decide)
  rw [stringText]
  simp only [List.forall_mem_cons, List.forall_mem_append]
  exact ⟨by decide, hbytes, by decide, by simp⟩

/-- White space that depends on the format has no NUL. -/
theorem ne_zero_of_mem_ite (format : Bool) {white : CString} (h : (0 : UInt8) ∉ white) :
    ∀ c ∈ (if format then white else []), c ≠ 0 := by
  cases format with
  | true => exact ne_zero_of_mem h
  | false => exact fun c hc => absurd hc List.not_mem_nil

/-- **The text of an item has no NUL.** -/
theorem ne_zero_of_mem_text (format : Bool) (item : CJsonItem) (depth : ℕ) :
    ∀ c ∈ item.text format depth, c ≠ 0 := by
  induction item using CJsonItem.induct generalizing depth with
  | null => exact (ne_zero_of_mem (by decide) : ∀ c ∈ ofAscii "null", c ≠ 0)
  | bool value =>
      cases value with
      | true => exact (ne_zero_of_mem (by decide) : ∀ c ∈ ofAscii "true", c ≠ 0)
      | false => exact (ne_zero_of_mem (by decide) : ∀ c ∈ ofAscii "false", c ≠ 0)
  | number d =>
      cases d with
      | infinite s => exact (ne_zero_of_mem (by decide) : ∀ c ∈ ofAscii "null", c ≠ 0)
      | finite d =>
          obtain ⟨n, hnumeral, -, -⟩ := isNumeral_numberBuffer d
          rintro c hc rfl
          exact absurd (hnumeral.isNumeralByte.2 0 hc) (by simp [IsNumeralByte])
  | string s => exact ne_zero_of_mem_stringText
  | array elements ih =>
      rw [CJsonItem.text, CJsonItem.textsOfElements_eq]
      have hspace := ne_zero_of_mem_ite format (by decide : (0 : UInt8) ∉ [32])
      have hnil : ∀ c ∈ ([] : CString), c ≠ 0 := fun c hc => absurd hc List.not_mem_nil
      have hjoin := ne_zero_of_mem_joinTexts hnil hspace hnil
        (List.forall_mem_map.mpr fun e he => ih e he (depth + 1))
      simp only [List.forall_mem_cons, List.forall_mem_append]
      exact ⟨by decide, hjoin, by decide, hnil⟩
  | object members ih =>
      rw [CJsonItem.text, CJsonItem.textsOfMembers_eq]
      simp only
      have hline := ne_zero_of_mem_ite format (by decide : (0 : UInt8) ∉ [10])
      have htab := ne_zero_of_mem_ite format (by decide : (0 : UInt8) ∉ [9])
      have htabs : ∀ n, ∀ c ∈ (if format then List.replicate n 9 else [] : CString), c ≠ 0 := by
        intro n
        refine ne_zero_of_mem_ite format fun hmem => ?_
        exact absurd (List.eq_of_mem_replicate hmem) (by decide)
      have hmembers : ∀ text ∈ members.map (CJsonItem.memberText format (depth + 1)),
          ∀ c ∈ text, c ≠ 0 := by
        refine List.forall_mem_map.mpr fun m hm => ?_
        rw [CJsonItem.memberText]
        simp only [List.forall_mem_append, List.forall_mem_cons]
        exact ⟨ne_zero_of_mem_stringText, by decide, htab, ih m hm (depth + 1)⟩
      have hjoin := ne_zero_of_mem_joinTexts (htabs (depth + 1)) hline hline hmembers
      simp only [List.forall_mem_cons, List.forall_mem_append]
      exact ⟨by decide, hline, hjoin, htabs depth, by decide, fun c hc => absurd hc List.not_mem_nil⟩

end OcgeoFdw
