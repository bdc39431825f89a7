import TemplateExpr.Proofs.Documents.RoundTrip
import TemplateExpr.Proofs.Filters.Searching
import TemplateExpr.Proofs.Values.Address
import TemplateExpr.Value.Json

/-!
# Values that went through a document

A value that is written as a document and read again is a value that documents can hold: what they
have no place for is gone from objects and is null everywhere else. Nothing else is changed, so a value
comes back as it was exactly if there is nothing of that kind in it, and going through a document a
second time changes nothing more.
-/

namespace TemplateExpr.Value

/-- The value that is read from the document of a value. -/
def normal (value : Value) : Value := ofJson value.toJson

/-- Whether a document can hold a value, whatever is inside. -/
def HasDocument : Value → Prop
  | .undefined | .function _ => False
  | .float x => x.isFinite = true
  | _ => True

variable {value inner : Value} {items : List Value} {fields : List (String × Value)}

section Recursion

/-- The items of an array are read back one by one. -/
theorem ofItems_toItems (items : List Value) : ofItems (toItems items) = items.map normal := by
  induction items with
  | nil => rfl
  | cons item rest ih => rw [toItems, ofItems, ih, List.map_cons, normal]

/-- Of the fields of an object those are read back that have a document. -/
theorem ofMembers_toMembers (fields : List (String × Value)) :
    ofMembers (toMembers fields) =
      (fields.filter (·.2.isDocumented)).map fun field => (field.1, field.2.normal) := by
  induction fields with
  | nil => rfl
  | cons field rest ih =>
    obtain ⟨name, value⟩ := field
    rw [toMembers, List.filter_cons]
    split
    · rw [ofMembers, ih, List.map_cons, normal]
    · exact ih

/-- An array keeps all its places. -/
@[simp]
theorem normal_array (items : List Value) : normal (.array items) = .array (items.map normal) := by
  rw [normal, toJson, ofJson, ofItems_toItems]

/-- An object keeps the fields that have a document. -/
@[simp]
theorem normal_object (fields : List (String × Value)) :
    normal (.object fields) =
      .object ((fields.filter (·.2.isDocumented)).map fun field => (field.1, field.2.normal)) := by
  rw [normal, toJson, ofJson, ofMembers_toMembers]

/-- A float that is not finite has no document. -/
theorem normal_float (x : Binary64) :
    normal (.float x) = if x.isFinite = true then .float x else .null := by
  rw [normal, toJson]
  split
  case isTrue h => rw [Json.ofBinary64_of_isFinite h, ofJson]
  case isFalse h => simp [Json.ofBinary64, Json.float?, h, ofJson]

/-- Whatever is read from a document is kept by objects. -/
theorem isDocumented_normal (value : Value) : value.normal.isDocumented = true := by
  cases value with
  | float x => rw [normal_float]; split <;> rfl
  | _ => rfl

end Recursion

section Fixed

/-- What documents can hold is kept by objects. -/
theorem HasDocument.isDocumented (h : value.HasDocument) : value.isDocumented = true := by
  cases value <;> first | rfl | exact h.elim

/-- A value with nothing inside comes back as it was if documents can hold it. -/
theorem normal_eq_self_iff_of_leaf (harray : ∀ items, value ≠ .array items)
    (hobject : ∀ fields, value ≠ .object fields) : value.normal = value ↔ value.HasDocument := by
  cases value with
  | array items => exact absurd rfl (harray items)
  | object fields => exact absurd rfl (hobject fields)
  | float x => rw [normal_float, HasDocument]; split <;> simp [*]
  | _ => simp [normal, toJson, ofJson, HasDocument]

/-- An array comes back as it was if each of its items does. -/
theorem normal_array_eq_self_iff :
    normal (.array items) = .array items ↔ ∀ item ∈ items, item.normal = item := by
  have h := List.map_inj_left (f := normal) (g := id) (l := items)
  rw [List.map_id] at h
  rw [normal_array, array.injEq, h]
  rfl

/-- An object comes back as it was if each of its fields is kept and has its value. -/
theorem normal_object_eq_self_iff :
    normal (.object fields) = .object fields ↔
      ∀ item ∈ fields.map Prod.snd, item.isDocumented = true ∧ item.normal = item := by
  have hmap := List.map_inj_left (f := fun field : String × Value => (field.1, field.2.normal))
    (g := id) (l := fields)
  rw [List.map_id] at hmap
  rw [normal_object, object.injEq, List.forall_mem_map]
  constructor
  · intro h
    -- A lost field would leave a shorter list.
    have hkept : fields.filter (·.2.isDocumented) = fields := by
      refine List.filter_sublist.eq_of_length ?_
      rw [← List.length_map, h]
    rw [hkept] at h
    exact fun field hfield => ⟨List.filter_eq_self.mp hkept field hfield,
      congrArg Prod.snd (hmap.mp h field hfield)⟩
  · intro h
    rw [List.filter_eq_self.mpr fun field hfield => (h field hfield).1]
    exact hmap.mpr fun field hfield => Prod.ext rfl (h field hfield).2

/-- A value comes back as it was exactly if documents can hold everything in it. -/
theorem normal_eq_self_iff (value : Value) :
    value.normal = value ↔ ∀ inner : Value, inner.Inside value → inner.HasDocument := by
  induction value using Value.induction with
  | leaf value harray hobject =>
    simp only [inside_leaf harray hobject, forall_eq]
    exact normal_eq_self_iff_of_leaf harray hobject
  | array items ih =>
    rw [normal_array_eq_self_iff]
    constructor
    · intro h inner hinside
      obtain rfl | ⟨item, hitem, hinner⟩ := inside_array.mp hinside
      · trivial
      · exact (ih item hitem).mp (h item hitem) inner hinner
    · exact fun h item hitem =>
        (ih item hitem).mpr fun inner hinner => h inner (inside_array.mpr (.inr ⟨item, hitem, hinner⟩))
  | object fields ih =>
    rw [normal_array_eq_self_iff] at ih
    rw [normal_object_eq_self_iff]
    constructor
    · intro h inner hinside
      obtain rfl | hinside := inside_object.mp hinside
      · trivial
      · exact ih.mp (fun item hitem => (h item hitem).2) inner (inside_array.mpr (.inr hinside))
    · intro h item hitem
      constructor
      · exact (h item (inside_object.mpr (.inr ⟨item, hitem, .self item⟩))).isDocumented
      · refine ih.mpr (fun inner hinside => ?_) item hitem
        obtain rfl | hinside := inside_array.mp hinside
        · trivial
        · exact h inner (inside_object.mpr (.inr hinside))

/-- What was read from a document comes back as it was. -/
theorem normal_normal (value : Value) : value.normal.normal = value.normal := by
  induction value using Value.induction with
  | leaf value harray hobject =>
    cases value with
    | array items => exact absurd rfl (harray items)
    | object fields => exact absurd rfl (hobject fields)
    | float x =>
      rw [normal_float]
      split
      case isTrue h => rw [normal_float, if_pos h]
      case isFalse => rfl
    | _ => rfl
  | array items ih =>
    rw [normal_array, normal_array_eq_self_iff, List.forall_mem_map]
    exact ih
  | object fields ih =>
    rw [normal_array, normal_array_eq_self_iff] at ih
    rw [normal_object, normal_object_eq_self_iff]
    simp only [List.forall_mem_map] at ih ⊢
    exact fun field hfield =>
      ⟨isDocumented_normal field.2, ih field (List.mem_of_mem_filter hfield)⟩

end Fixed

section Places

/-- What stands under a name of an object stands there when it comes back, if it has a document. -/
theorem get?_normal {name : String} (h : Fields.get? fields name = some inner)
    (hinner : inner.isDocumented = true) :
    Fields.get? ((fields.filter (·.2.isDocumented)).map fun field => (field.1, field.2.normal)) name =
      some inner.normal := by
  induction fields with
  | nil => cases h
  | cons field rest ih =>
    obtain ⟨other, value⟩ := field
    rw [Fields.get?_cons] at h
    rw [List.filter_cons]
    split at h
    case isTrue hname =>
      cases h
      rw [if_pos hinner, List.map_cons, Fields.get?_cons, if_pos hname]
    case isFalse hname =>
      split
      · rw [List.map_cons, Fields.get?_cons, if_neg hname, ih h]
      · exact ih h

/-- What stands at some place stands there when the value comes back, if it has a document. -/
theorem at?_normal {address : List Step} (h : value.at? address = some inner)
    (hinner : inner.isDocumented = true) : value.normal.at? address = some inner.normal := by
  induction address generalizing value with
  | nil =>
    cases h
    rfl
  | cons step rest ih =>
    obtain ⟨middle, hmiddle, hrest⟩ := at?_cons_eq_some.mp h
    refine at?_cons_eq_some.mpr ⟨middle.normal, ?_, ih hrest⟩
    unfold inner? at hmiddle
    split at hmiddle
    case h_1 items index => rw [normal_array, inner?, List.getElem?_map, hmiddle, Option.map_some]
    case h_2 fields name =>
      -- What has something inside has a document, so its field is kept.
      have hdocumented : middle.isDocumented = true := by
        cases rest with
        | nil => cases hrest; exact hinner
        | cons next rest =>
          obtain ⟨_, hnext, _⟩ := at?_cons_eq_some.mp hrest
          cases middle <;> first | rfl | (simp [inner?] at hnext)
      rw [normal_object, inner?]
      exact get?_normal hmiddle hdocumented
    case h_3 => cases hmiddle

end Places

/-- Undefined is lost as a field and null as an item, and an integer stays one. -/
example :
    normal (.object [("a", .undefined), ("b", .array [.undefined, .integer 1]), ("c", .null)]) =
      .object [("b", .array [.null, .integer 1]), ("c", .null)] := rfl

end TemplateExpr.Value
