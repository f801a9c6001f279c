import OcgeoFdw.Api.JsonDocuments
import OcgeoFdw.Api.Request

/-! # Trees that can be printed

The API code keeps a part of the tree of a reply for each result, and a `jsonb` column is filled from
its text. Every tree that `cJSON_Parse` builds without infinities, and every part of it, has texts
that are read back as the same tree. -/

namespace OcgeoFdw

open CString

/-! ## Items with the same tree -/

/-- An item with the tree of an array is an array. -/
theorem CJsonItem.toCJson_eq_array {item : CJsonItem} {jsons : List CJson}
    (h : item.toCJson = some (.array jsons)) :
    ∃ elements, item = .array elements ∧
      List.Forall₂ (fun e json => e.toCJson = some json) elements jsons := by
  cases item with
  | array elements =>
      obtain ⟨jsons', hjsons, heq⟩ := Option.map_eq_some_iff.mp h
      obtain rfl : jsons' = jsons := CJson.array.inj heq
      exact ⟨elements, rfl, CJsonItem.elementsToCJson_eq_some hjsons⟩
  | object members =>
      obtain ⟨jsons', -, heq⟩ := Option.map_eq_some_iff.mp h
      cases heq
  | number d =>
      cases d with
      | finite d => cases h
      | infinite s => cases h
  | null => cases h
  | bool value => cases h
  | string s => cases h

/-- An item with the tree of an object is an object. -/
theorem CJsonItem.toCJson_eq_object {item : CJsonItem} {jsons : List (CString × CJson)}
    (h : item.toCJson = some (.object jsons)) :
    ∃ members, item = .object members ∧
      List.Forall₂ (fun m json => m.1 = json.1 ∧ m.2.toCJson = some json.2) members jsons := by
  cases item with
  | object members =>
      obtain ⟨jsons', hjsons, heq⟩ := Option.map_eq_some_iff.mp h
      obtain rfl : jsons' = jsons := CJson.object.inj heq
      exact ⟨members, rfl, CJsonItem.membersToCJson_eq_some hjsons⟩
  | array elements =>
      obtain ⟨jsons', -, heq⟩ := Option.map_eq_some_iff.mp h
      cases heq
  | number d =>
      cases d with
      | finite d => cases h
      | infinite s => cases h
  | null => cases h
  | bool value => cases h
  | string s => cases h

/-- What is read from the texts of elements is what each is, if that is so for the array. -/
theorem CJsonItem.reread_array_iff {elements : List CJsonItem} :
    (CJsonItem.array elements).reread = .array elements ↔ ∀ e ∈ elements, e.reread = e := by
  rw [CJsonItem.reread, CJsonItem.rereadElements_eq, CJsonItem.array.injEq]
  constructor
  · intro h
    exact List.map_inj_left.mp (h.trans (List.map_id _).symm)
  · intro h
    exact (List.map_congr_left h).trans (List.map_id _)

/-- What is read from the texts of members is what each is, if that is so for the object. -/
theorem CJsonItem.reread_object_iff {members : List (CString × CJsonItem)} :
    (CJsonItem.object members).reread = .object members ↔
      ∀ m ∈ members, CJsonItem.rereadMember m = m := by
  rw [CJsonItem.reread, CJsonItem.rereadMembers_eq, CJsonItem.object.injEq]
  constructor
  · intro h
    exact List.map_inj_left.mp (h.trans (List.map_id _).symm)
  · intro h
    exact (List.map_congr_left h).trans (List.map_id _)

/-- An item with the tree of a leaf is a leaf, and it is what is read from its text if its string has
no NUL. -/
theorem CJsonItem.leaf_of_toCJson {item : CJsonItem} {json : CJson} (h : item.toCJson = some json)
    (harray : ∀ jsons, json ≠ .array jsons) (hobject : ∀ jsons, json ≠ .object jsons)
    (hstring : ∀ s, json = .string s → untilNul s = s) :
    item.reread = item ∧ item.nesting = 0 := by
  cases item with
  | null => exact ⟨rfl, rfl⟩
  | bool value => exact ⟨rfl, rfl⟩
  | number d =>
      cases d with
      | finite d => exact ⟨rfl, rfl⟩
      | infinite s => cases h
  | string s =>
      rw [CJsonItem.reread, hstring s (Option.some.inj h).symm]
      exact ⟨rfl, rfl⟩
  | array elements =>
      obtain ⟨jsons, -, heq⟩ := Option.map_eq_some_iff.mp h
      exact absurd heq.symm (harray jsons)
  | object members =>
      obtain ⟨jsons, -, heq⟩ := Option.map_eq_some_iff.mp h
      exact absurd heq.symm (hobject jsons)

/-- Items with the same tree differ in nothing but the signs of zeros: they are nested alike, and
both are what is read from their texts or neither. -/
theorem CJsonItem.same_tree (item : CJsonItem) :
    ∀ {item' : CJsonItem} {json : CJson}, item.toCJson = some json → item'.toCJson = some json →
      item.reread = item → item'.reread = item' ∧ item'.nesting ≤ item.nesting := by
  induction item using CJsonItem.induct with
  | null =>
      intro item' json hitem hitem' _
      obtain rfl := Option.some.inj hitem
      have hleaf := CJsonItem.leaf_of_toCJson hitem' (by simp) (by simp) (by simp)
      exact ⟨hleaf.1, hleaf.2.le⟩
  | bool value =>
      intro item' json hitem hitem' _
      obtain rfl := Option.some.inj hitem
      have hleaf := CJsonItem.leaf_of_toCJson hitem' (by simp) (by simp) (by simp)
      exact ⟨hleaf.1, hleaf.2.le⟩
  | number d =>
      intro item' json hitem hitem' _
      cases d with
      | infinite s => cases hitem
      | finite d =>
          obtain rfl := Option.some.inj hitem
          have hleaf := CJsonItem.leaf_of_toCJson hitem' (by simp) (by simp) (by simp)
          exact ⟨hleaf.1, hleaf.2.le⟩
  | string s =>
      intro item' json hitem hitem' hreread
      obtain rfl := Option.some.inj hitem
      have hs : untilNul s = s := CJsonItem.string.inj hreread
      have hleaf := CJsonItem.leaf_of_toCJson hitem' (by simp) (by simp)
        (fun s' hs' => CJson.string.inj hs' ▸ hs)
      exact ⟨hleaf.1, hleaf.2.le⟩
  | array elements ih =>
      intro item' json hitem hitem' hreread
      obtain ⟨jsons, hjsons, rfl⟩ := Option.map_eq_some_iff.mp hitem
      obtain ⟨elements', rfl, hforall⟩ := CJsonItem.toCJson_eq_array hitem'
      -- the elements of the two correspond through the tree that both stand for
      have hsame : ∀ e' ∈ elements', ∃ e ∈ elements, e'.reread = e' ∧ e'.nesting ≤ e.nesting := by
        intro e' he'
        obtain ⟨json, hjson, hvalue'⟩ := exists_right_of_forall₂ hforall he'
        obtain ⟨e, he, hvalue⟩ :=
          exists_left_of_forall₂ (CJsonItem.elementsToCJson_eq_some hjsons) hjson
        exact ⟨e, he, ih e he hvalue hvalue' (CJsonItem.reread_array_iff.mp hreread e he)⟩
      rw [CJsonItem.reread_array_iff, CJsonItem.nesting, CJsonItem.nesting,
        Nat.add_le_add_iff_right, CJsonItem.nestingOfElements_le]
      constructor
      · intro e' he'
        obtain ⟨e, -, hread, -⟩ := hsame e' he'
        exact hread
      · intro e' he'
        obtain ⟨e, he, -, hle⟩ := hsame e' he'
        exact hle.trans (CJsonItem.nestingOfElements_le.mp le_rfl e he)
  | object members ih =>
      intro item' json hitem hitem' hreread
      obtain ⟨jsons, hjsons, rfl⟩ := Option.map_eq_some_iff.mp hitem
      obtain ⟨members', rfl, hforall⟩ := CJsonItem.toCJson_eq_object hitem'
      have hsame : ∀ m' ∈ members', ∃ m ∈ members,
          CJsonItem.rereadMember m' = m' ∧ m'.2.nesting ≤ m.2.nesting := by
        intro m' hm'
        obtain ⟨json, hjson, hkey', hvalue'⟩ := exists_right_of_forall₂ hforall hm'
        obtain ⟨m, hm, hkey, hvalue⟩ :=
          exists_left_of_forall₂ (CJsonItem.membersToCJson_eq_some hjsons) hjson
        have hread := CJsonItem.reread_object_iff.mp hreread m hm
        obtain ⟨hread', hle⟩ := ih m hm hvalue hvalue' (congrArg Prod.snd hread)
        refine ⟨m, hm, Prod.ext ?_ hread', hle⟩
        have hname : untilNul m.1 = m.1 := congrArg Prod.fst hread
        change untilNul m'.1 = m'.1
        rw [hkey', ← hkey, hname]
      rw [CJsonItem.reread_object_iff, CJsonItem.nesting, CJsonItem.nesting,
        Nat.add_le_add_iff_right, CJsonItem.nestingOfMembers_le]
      constructor
      · intro m' hm'
        obtain ⟨m, -, hread, -⟩ := hsame m' hm'
        exact hread
      · intro m' hm'
        obtain ⟨m, hm, -, hle⟩ := hsame m' hm'
        exact hle.trans (CJsonItem.nestingOfMembers_le.mp le_rfl m hm)

/-! ## Trees that can be printed -/

/-- A tree that has a text which is read back as the tree. -/
def CJson.Printable (json : CJson) : Prop :=
  ∃ item : CJsonItem, item.toCJson = some json ∧ item.reread = item ∧ item.nesting ≤ nestingLimit

/-- What `cJSON_Parse` builds can be printed, whatever the text was. -/
theorem printable_of_parse {value : CString} {item : CJsonItem} {json : CJson}
    (h : CJsonItem.parse value = some item) (hjson : item.toCJson = some json) : json.Printable := by
  rw [CJsonItem.parse_eq] at h
  obtain ⟨⟨read, behind⟩, hvalue, heq⟩ := Option.map_eq_some_iff.mp h
  obtain rfl : read = item := heq
  exact ⟨read, hjson, reread_of_parseValue nestingLimit hvalue json hjson,
    nesting_of_parseValue nestingLimit hvalue⟩

/-- **The text of any item with a printable tree is read back** as the item. -/
theorem CJson.Printable.parse_printed {json : CJson} (h : json.Printable) {item : CJsonItem}
    (hitem : item.toCJson = some json) (format : Bool) :
    CJsonItem.parse (item.text format 0) = some item := by
  obtain ⟨item₀, hitem₀, hreread₀, hnesting₀⟩ := h
  obtain ⟨hreread, hnesting⟩ := CJsonItem.same_tree item₀ hitem₀ hitem hreread₀
  rw [parse_text_alone format (hnesting.trans hnesting₀), hreread]

/-- The children of a printable tree can be printed. -/
theorem CJson.Printable.child {json : CJson} (h : json.Printable) {c : Option CString × CJson}
    (hc : c ∈ json.child) : c.2.Printable := by
  obtain ⟨item, hitem, hreread, hnesting⟩ := h
  cases json with
  | array jsons =>
      obtain ⟨json, hjson, rfl⟩ := List.mem_map.mp hc
      obtain ⟨elements, rfl, hforall⟩ := CJsonItem.toCJson_eq_array hitem
      obtain ⟨e, he, hvalue⟩ := exists_left_of_forall₂ hforall hjson
      rw [CJsonItem.nesting] at hnesting
      have hle := CJsonItem.nestingOfElements_le.mp le_rfl e he
      exact ⟨e, hvalue, CJsonItem.reread_array_iff.mp hreread e he, by omega⟩
  | object jsons =>
      obtain ⟨json, hjson, rfl⟩ := List.mem_map.mp hc
      obtain ⟨members, rfl, hforall⟩ := CJsonItem.toCJson_eq_object hitem
      obtain ⟨m, hm, -, hvalue⟩ := exists_left_of_forall₂ hforall hjson
      rw [CJsonItem.nesting] at hnesting
      have hle := CJsonItem.nestingOfMembers_le.mp le_rfl m hm
      have hread : m.2.reread = m.2 :=
        congrArg Prod.snd (CJsonItem.reread_object_iff.mp hreread m hm)
      exact ⟨m.2, hvalue, hread, by omega⟩
  | null => cases hc
  | bool value => cases hc
  | number d => cases hc
  | string s => cases hc

/-! ## An item for a tree -/

mutual

/-- An item with the tree, if there is one: zero gets no sign. -/
def CJson.toItem : CJson → CJsonItem
  | .null => .null
  | .bool value => .bool value
  | .number valuedouble => .number (CDouble.ofMagnitude (valuedouble < 0) |valuedouble|)
  | .string valuestring => .string valuestring
  | .array elements => .array (CJson.itemsOfElements elements)
  | .object members => .object (CJson.itemsOfMembers members)

/-- The items of elements. -/
def CJson.itemsOfElements : List CJson → List CJsonItem
  | [] => []
  | e :: elements => CJson.toItem e :: CJson.itemsOfElements elements

/-- The items of members. -/
def CJson.itemsOfMembers : List (CString × CJson) → List (CString × CJsonItem)
  | [] => []
  | (key, e) :: members => (key, CJson.toItem e) :: CJson.itemsOfMembers members

end

/-- A double is the one nearest to its value, up to the sign of zero. -/
theorem toCJson_ofMagnitude (d : FiniteDouble) :
    (CJsonItem.number (CDouble.ofMagnitude (d.value < 0) |d.value|)).toCJson =
      some (.number d.value) := by
  rw [d.abs_value]
  by_cases hzero : d.magnitude = 0
  · have hvalue : d.value = 0 := by
      rw [FiniteDouble.value, hzero, neg_zero, ite_self]
    rw [hvalue, hzero, CDouble.ofMagnitude, if_pos le_rfl]
    simp [CJsonItem.toCJson, FiniteDouble.value, FiniteDouble.zero, FiniteDouble.magnitude]
  · have hpos : 0 < d.magnitude := lt_of_le_of_ne d.magnitude_nonneg (Ne.symm hzero)
    have hsign : decide (d.value < 0) = d.negative := by
      rw [FiniteDouble.value]
      cases d.negative with
      | true => simpa using hpos
      | false => simpa using hpos.le
    rw [hsign, CDouble.ofMagnitude_magnitude]
    rfl

/-- **The item of a tree has the tree**, if any item has it. -/
theorem CJsonItem.toCJson_toItem (item : CJsonItem) {json : CJson}
    (h : item.toCJson = some json) : json.toItem.toCJson = some json := by
  induction item using CJsonItem.induct generalizing json with
  | null =>
      rw [← Option.some.inj h]
      rfl
  | bool value =>
      rw [← Option.some.inj h]
      rfl
  | number d =>
      cases d with
      | infinite s => cases h
      | finite d =>
          rw [← Option.some.inj h]
          exact toCJson_ofMagnitude d
  | string s =>
      rw [← Option.some.inj h]
      rfl
  | array elements ih =>
      obtain ⟨jsons, hjsons, rfl⟩ := Option.map_eq_some_iff.mp h
      have hforall := CJsonItem.elementsToCJson_eq_some hjsons
      have hitems : CJsonItem.elementsToCJson (CJson.itemsOfElements jsons) = some jsons := by
        clear h hjsons
        induction hforall with
        | nil => rfl
        | cons hvalue hrest ih' =>
            obtain ⟨hfirst, hothers⟩ := List.forall_mem_cons.mp ih
            rw [CJson.itemsOfElements, CJsonItem.elementsToCJson, hfirst hvalue, ih' hothers]
            rfl
      rw [CJson.toItem, CJsonItem.toCJson, hitems]
      rfl
  | object members ih =>
      obtain ⟨jsons, hjsons, rfl⟩ := Option.map_eq_some_iff.mp h
      have hforall := CJsonItem.membersToCJson_eq_some hjsons
      have hitems : CJsonItem.membersToCJson (CJson.itemsOfMembers jsons) = some jsons := by
        clear h hjsons
        induction hforall with
        | nil => rfl
        | @cons m json members jsons hvalue hrest ih' =>
            obtain ⟨hfirst, hothers⟩ := List.forall_mem_cons.mp ih
            obtain ⟨key, json⟩ := json
            rw [CJson.itemsOfMembers, CJsonItem.membersToCJson, hfirst hvalue.2, ih' hothers]
            rfl
      rw [CJson.toItem, CJsonItem.toCJson, hitems]
      rfl

end OcgeoFdw
