import Mathlib.Data.List.Forall2
import OcgeoFdw.Api.Json
import OcgeoFdw.Foundation.Binary64

/-! # The items of cJSON

The tree that the parser builds and the printer reads, with every double an item can hold: an
infinity, which a numeral that is too large is read as, and both zeros. `toCJson` is the tree that
the rest of the API code looks at. -/

namespace OcgeoFdw

/-- An element of one list has a partner in the other. -/
theorem exists_right_of_forall₂ {α β : Type} {R : α → β → Prop} {as : List α} {bs : List β}
    (h : List.Forall₂ R as bs) {a : α} (ha : a ∈ as) : ∃ b ∈ bs, R a b := by
  induction h with
  | nil => cases ha
  | cons hab hrest ih =>
      rcases List.mem_cons.mp ha with rfl | ha
      · exact ⟨_, List.mem_cons_self, hab⟩
      · obtain ⟨b, hb, hab⟩ := ih ha
        exact ⟨b, List.mem_cons_of_mem _ hb, hab⟩

/-- An element of the other list has a partner in the one. -/
theorem exists_left_of_forall₂ {α β : Type} {R : α → β → Prop} {as : List α} {bs : List β}
    (h : List.Forall₂ R as bs) {b : β} (hb : b ∈ bs) : ∃ a ∈ as, R a b :=
  exists_right_of_forall₂ (R := fun b a => R a b) h.flip hb

/-- A `cJSON` item with its children. -/
inductive CJsonItem
  /-- `null`. -/
  | null
  /-- `true` or `false`. -/
  | bool (value : Bool)
  /-- A number, by its `valuedouble`. -/
  | number (valuedouble : CDouble)
  /-- A string, by its `valuestring`. -/
  | string (valuestring : CString)
  /-- An array with its elements. -/
  | array (elements : List CJsonItem)
  /-- An object with its members. -/
  | object (members : List (CString × CJsonItem))

namespace CJsonItem

/-- Induction over items: an array or object from its children. -/
@[elab_as_elim] theorem induct {motive : CJsonItem → Prop} (null : motive .null)
    (bool : ∀ value, motive (.bool value)) (number : ∀ d, motive (.number d))
    (string : ∀ s, motive (.string s))
    (array : ∀ elements, (∀ e ∈ elements, motive e) → motive (.array elements))
    (object : ∀ members : List (CString × CJsonItem), (∀ m ∈ members, motive m.2) →
      motive (.object members)) (item : CJsonItem) : motive item :=
  @CJsonItem.rec motive (fun elements => ∀ e ∈ elements, motive e)
    (fun members => ∀ m ∈ members, motive m.2) (fun m => motive m.2)
    null bool number string array object
    (fun _ h => absurd h List.not_mem_nil)
    (fun _ _ hhead htail => List.forall_mem_cons.mpr ⟨hhead, htail⟩)
    (fun _ h => absurd h List.not_mem_nil)
    (fun _ _ hhead htail => List.forall_mem_cons.mpr ⟨hhead, htail⟩)
    (fun _ _ h => h) item

mutual

/-- How deeply arrays and objects are nested in an item. -/
def nesting : CJsonItem → ℕ
  | .array elements => nestingOfElements elements + 1
  | .object members => nestingOfMembers members + 1
  | _ => 0

/-- The deepest nesting among elements. -/
def nestingOfElements : List CJsonItem → ℕ
  | [] => 0
  | e :: elements => max (nesting e) (nestingOfElements elements)

/-- The deepest nesting among members. -/
def nestingOfMembers : List (CString × CJsonItem) → ℕ
  | [] => 0
  | (_, e) :: members => max (nesting e) (nestingOfMembers members)

end

mutual

/-- The tree that the API code reads, for an item without infinities. -/
def toCJson : CJsonItem → Option CJson
  | .null => some .null
  | .bool value => some (.bool value)
  | .number (.finite d) => some (.number d.value)
  | .number (.infinite _) => none
  | .string valuestring => some (.string valuestring)
  | .array elements => (elementsToCJson elements).map .array
  | .object members => (membersToCJson members).map .object

/-- The elements of an array as the API code reads them. -/
def elementsToCJson : List CJsonItem → Option (List CJson)
  | [] => some []
  | e :: elements =>
      (toCJson e).bind fun json => (elementsToCJson elements).map (json :: ·)

/-- The members of an object as the API code reads them. -/
def membersToCJson : List (CString × CJsonItem) → Option (List (CString × CJson))
  | [] => some []
  | (key, e) :: members =>
      (toCJson e).bind fun json => (membersToCJson members).map ((key, json) :: ·)

end

/-- The nesting of the elements bounds the nesting of each. -/
theorem nestingOfElements_le {elements : List CJsonItem} {n : ℕ} :
    nestingOfElements elements ≤ n ↔ ∀ e ∈ elements, e.nesting ≤ n := by
  induction elements with
  | nil => simp [nestingOfElements]
  | cons e elements ih => simp [nestingOfElements, ih]

/-- The nesting of the members bounds the nesting of each. -/
theorem nestingOfMembers_le {members : List (CString × CJsonItem)} {n : ℕ} :
    nestingOfMembers members ≤ n ↔ ∀ m ∈ members, m.2.nesting ≤ n := by
  induction members with
  | nil => simp [nestingOfMembers]
  | cons m members ih => simp [nestingOfMembers, ih]

/-- Elements are read by the API code one by one. -/
theorem elementsToCJson_eq_some {elements : List CJsonItem} {jsons : List CJson}
    (h : elementsToCJson elements = some jsons) :
    List.Forall₂ (fun e json => e.toCJson = some json) elements jsons := by
  induction elements generalizing jsons with
  | nil =>
      rw [← Option.some.inj h]
      exact .nil
  | cons e elements ih =>
      rw [elementsToCJson] at h
      obtain ⟨json, hjson, hrest⟩ := Option.bind_eq_some_iff.mp h
      obtain ⟨jsons', hjsons', rfl⟩ := Option.map_eq_some_iff.mp hrest
      exact .cons hjson (ih hjsons')

/-- Members are read by the API code one by one. -/
theorem membersToCJson_eq_some {members : List (CString × CJsonItem)}
    {jsons : List (CString × CJson)} (h : membersToCJson members = some jsons) :
    List.Forall₂ (fun m json => m.1 = json.1 ∧ m.2.toCJson = some json.2) members jsons := by
  induction members generalizing jsons with
  | nil =>
      rw [← Option.some.inj h]
      exact .nil
  | cons m members ih =>
      rw [membersToCJson] at h
      obtain ⟨json, hjson, hrest⟩ := Option.bind_eq_some_iff.mp h
      obtain ⟨jsons', hjsons', rfl⟩ := Option.map_eq_some_iff.mp hrest
      exact .cons ⟨rfl, hjson⟩ (ih hjsons')

end CJsonItem

end OcgeoFdw
