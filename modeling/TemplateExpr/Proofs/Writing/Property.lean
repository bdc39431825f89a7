import TemplateExpr.Value.Property

/-!
# Laws of a single write

Reading and writing one property obey the laws of a lens, as far as the write succeeds: the second
of two writes wins, writing what is there changes nothing, and a write leaves the other properties
alone. The one exception is the length of an array that had to be made longer.
-/

namespace TemplateExpr

namespace Fields

variable {α : Type}

/-- The second of two replacements wins. -/
theorem replace_replace (name : String) (first second : α) (fields : Fields α) :
    replace name second (replace name first fields) = replace name second fields := by
  induction fields with
  | nil => rfl
  | cons entry rest ih =>
    obtain ⟨other, kept⟩ := entry
    by_cases hname : name = other
    · simp [replace, hname]
    · simp [replace, hname, ih]

/-- Replacing an entry that was just added adds it with the other value. -/
theorem replace_place {fields : Fields α} {name : String} (first second : α)
    (h : get? fields name = none) :
    replace name second (place name first fields) = place name second fields := by
  induction fields with
  | nil => simp [place, replace]
  | cons entry rest ih =>
    obtain ⟨other, kept⟩ := entry
    rw [get?_cons] at h
    by_cases hname : name = other
    · simp [hname] at h
    rw [if_neg hname] at h
    by_cases hless : name < other
    · simp [place, replace, hless]
    · simp [place, replace, hless, hname, ih h]

/-- The second of two insertions wins. -/
theorem insert_insert (name : String) (first second : α) (fields : Fields α) :
    insert name second (insert name first fields) = insert name second fields := by
  have hpresent : (get? (insert name first fields) name).isSome := by simp
  unfold insert at hpresent ⊢
  rw [if_pos hpresent]
  split
  case isTrue => exact replace_replace name first second fields
  case isFalse habsent => exact replace_place first second (by simpa using habsent)

/-- Replacing an entry by what it is changes nothing. -/
theorem replace_of_get? {fields : Fields α} {name : String} {value : α}
    (h : get? fields name = some value) : replace name value fields = fields := by
  induction fields with
  | nil => rfl
  | cons entry rest ih =>
    obtain ⟨other, kept⟩ := entry
    rw [get?_cons] at h
    by_cases hname : name = other
    · subst hname
      simp only [if_true, Option.some.injEq] at h
      simp [replace, h]
    · rw [if_neg hname] at h
      simp [replace, hname, ih h]

/-- Inserting the entry that is there changes nothing. -/
theorem insert_of_get? {fields : Fields α} {name : String} {value : α}
    (h : get? fields name = some value) : insert name value fields = fields := by
  rw [insert, if_pos (by simp [h]), replace_of_get? h]

end Fields

/-- Two keys that spell one index are the same. -/
theorem eq_of_arrayIndex? {key key' : String} {index : Nat} (h : arrayIndex? key = some index)
    (h' : arrayIndex? key' = some index) : key = key' := by
  have spells {key : String} (h : arrayIndex? key = some index) : toString index = key := by
    simp only [arrayIndex?] at h
    split at h
    case isTrue hdigits =>
      simp only [Option.some.injEq] at h
      simp only [Bool.and_eq_true, decide_eq_true_eq] at hdigits
      rw [← h]
      exact hdigits.2
    case isFalse => simp at h
  rw [← spells h, ← spells h']

/-- An array is made ready for a key that spells an index, which is inside it or not too far past
its end. -/
theorem arrayPlace_eq_ok {items grown : List Value} {key : String} {index : Nat} :
    arrayPlace items key = .ok (index, grown) ↔ arrayIndex? key = some index ∧
      index < items.length + maxArrayGrowth ∧
      grown = items ++ List.replicate (index + 1 - items.length) .undefined := by
  unfold arrayPlace
  cases arrayIndex? key with
  | none => simp
  | some place =>
    simp only [Option.some.injEq]
    split
    case isTrue hinside =>
      have hnone : place + 1 - items.length = 0 := by omega
      simp only [Except.ok.injEq, Prod.mk.injEq]
      constructor
      · rintro ⟨rfl, rfl⟩
        exact ⟨rfl, by omega, by simp [hnone]⟩
      · rintro ⟨rfl, -, rfl⟩
        exact ⟨rfl, by simp [hnone]⟩
    case isFalse houtside =>
      split
      case isTrue hfar =>
        simp only [reduceCtorEq, false_iff]
        rintro ⟨rfl, hnear, -⟩
        omega
      case isFalse hnear =>
        simp only [Except.ok.injEq, Prod.mk.injEq]
        constructor
        · rintro ⟨rfl, rfl⟩
          exact ⟨rfl, by omega, rfl⟩
        · rintro ⟨rfl, -, rfl⟩
          exact ⟨rfl, rfl⟩

/-- The places that are added to an array read as before. -/
theorem getD_append_undefined (items : List Value) (added index : Nat) :
    (items ++ List.replicate added Value.undefined)[index]?.getD .undefined =
      items[index]?.getD .undefined := by
  by_cases hinside : index < items.length
  · rw [List.getElem?_append_left hinside]
  · rw [List.getElem?_append_right (by omega), List.getElem?_replicate,
      List.getElem?_eq_none (by omega)]
    split <;> rfl

namespace Value

/-- The value is an array that was made longer. -/
def GrewTo (before after : Value) : Prop :=
  ∃ items grown, before = .array items ∧ after = .array grown ∧ items.length < grown.length

/-- An array whose place is written has the new value there. -/
theorem set_array_eq_ok {items : List Value} {key : String} {new written : Value} :
    (array items).set key new = .ok written ↔ ∃ index grown,
      arrayPlace items key = .ok (index, grown) ∧ .array (grown.set index new) = written := by
  simp only [set, bind, Except.bind, pure, Except.pure]
  cases arrayPlace items key with
  | error fault => simp
  | ok place =>
    constructor
    · intro h
      exact ⟨place.1, place.2, rfl, Except.ok.inj h⟩
    · rintro ⟨index, grown, hplace, rfl⟩
      cases hplace
      rfl

/-- A missing value is written like an empty object. -/
theorem set_orObject (value : Value) (key : String) (new : Value) :
    value.orObject.set key new = value.set key new := by
  cases value <;> rfl

/-- A missing value reads like an empty object. -/
theorem get_orObject (value : Value) (key : String) : value.orObject.get key = value.get key := by
  cases value <;> rfl

/-- The second of two writes wins. -/
theorem set_set {value written first : Value} {key : String} (second : Value)
    (h : value.set key first = .ok written) : written.set key second = value.set key second := by
  cases value with
  | undefined | null =>
    cases h
    simp [set, Fields.insert, Fields.get?_cons, Fields.replace]
  | object fields =>
    cases h
    simp [set, Fields.insert_insert]
  | array items =>
    obtain ⟨index, grown, hplace, rfl⟩ := set_array_eq_ok.mp h
    have hinside := (inside_of_arrayPlace hplace).2
    have hagain : arrayPlace (grown.set index first) key = .ok (index, grown.set index first) := by
      refine arrayPlace_eq_ok.mpr ⟨(inside_of_arrayPlace hplace).1, ?_, ?_⟩
      · rw [List.length_set]
        omega
      · have hnone : index + 1 - grown.length = 0 := by omega
        simp [hnone]
    simp [set, hplace, hagain, bind, Except.bind]
  | _ => simp [set] at h

/-- Why a property cannot be written does not depend on the new value. -/
theorem set_eq_error {value first : Value} {key : String} {fault : TypeFault} (second : Value)
    (h : value.set key first = .error fault) : value.set key second = .error fault := by
  cases value with
  | undefined | null | object => cases h
  | array items =>
    simp only [set, bind, Except.bind] at h ⊢
    cases hplace : arrayPlace items key with
    | error fault' => simpa [hplace] using h
    | ok place => simp [hplace, pure, Except.pure] at h
  | _ => exact h

/-- Whether a property can be written does not depend on the new value. -/
theorem exists_set {value written first : Value} {key : String} (second : Value)
    (h : value.set key first = .ok written) : ∃ other, value.set key second = .ok other := by
  cases hsecond : value.set key second with
  | ok other => exact ⟨other, rfl⟩
  | error fault => simp [set_eq_error first hsecond] at h

/-- Writing what is there changes nothing. -/
theorem set_get {value written new : Value} {key : String} (h : value.set key new = .ok written)
    (hpresent : (value.get key).isNullish = false) : value.set key (value.get key) = .ok value := by
  cases value with
  | undefined | null => simp [get, property?, isNullish] at hpresent
  | object fields =>
    cases hfound : Fields.get? fields key with
    | none => simp [get, property?, hfound, isNullish] at hpresent
    | some found => simp [get, property?, set, hfound, Fields.insert_of_get? hfound]
  | array items =>
    obtain ⟨index, grown, hplace, -⟩ := set_array_eq_ok.mp h
    obtain ⟨hindex, -, hgrown⟩ := arrayPlace_eq_ok.mp hplace
    have hlength : key ≠ "length" := by
      rintro rfl
      simp [arrayIndex?_length] at hindex
    have hget : (array items).get key = items[index]?.getD .undefined := by
      simp [get, property?, hlength, hindex]
    rw [hget] at hpresent ⊢
    have hinside : index < items.length := by
      refine Nat.lt_of_not_le fun houtside => ?_
      simp [List.getElem?_eq_none houtside, isNullish] at hpresent
    have hnone : index + 1 - items.length = 0 := by omega
    refine set_array_eq_ok.mpr ⟨index, grown, hplace, ?_⟩
    simp [hgrown, hnone, hinside]
  | _ => simp [set] at h

/-- A write leaves the other properties alone, but for the length of an array that it made
longer. -/
theorem get_of_set_of_ne {value written new : Value} {key other : String}
    (h : value.set key new = .ok written) (hne : other ≠ key) :
    written.get other = value.get other ∨ other = "length" ∧ value.GrewTo written := by
  cases value with
  | undefined | null =>
    cases h
    simp [get, property?, Fields.get?_cons, hne]
  | object fields =>
    cases h
    simp [get, property?, Fields.get?_insert_of_ne fields hne]
  | array items =>
    obtain ⟨index, grown, hplace, rfl⟩ := set_array_eq_ok.mp h
    obtain ⟨hindex, -, rfl⟩ := arrayPlace_eq_ok.mp hplace
    by_cases hlength : other = "length"
    · by_cases hinside : index < items.length
      · have hnone : index + 1 - items.length = 0 := by omega
        simp [get, property?, hlength, hnone]
      · refine .inr ⟨hlength, items, _, rfl, rfl, ?_⟩
        simp
        omega
    left
    simp only [get, property?, if_neg hlength]
    cases hother : arrayIndex? other with
    | none => rfl
    | some place =>
      have hplace : index ≠ place := by
        rintro rfl
        exact hne (eq_of_arrayIndex? hother hindex)
      rw [Option.bind_some, Option.bind_some, List.getElem?_set_ne hplace, getD_append_undefined]
  | _ => simp [set] at h

/-- A slot is made ready by writing to it what it has to hold. -/
theorem openSlot_eq (value : Value) (key : String) :
    value.openSlot key = (value.set key (value.get key).orObject).map
      fun opened => (opened, (value.get key).orObject) := by
  cases value with
  | undefined | null | object => rfl
  | array items =>
    simp only [openSlot, set, bind, Except.bind, pure, Except.pure]
    cases hplace : arrayPlace items key with
    | error fault => rfl
    | ok place =>
      obtain ⟨index, grown⟩ := place
      obtain ⟨hindex, -, hgrown⟩ := arrayPlace_eq_ok.mp hplace
      have hlength : key ≠ "length" := by
        rintro rfl
        simp [arrayIndex?_length] at hindex
      have hget : (array items).get key = grown[index]?.getD .undefined := by
        rw [hgrown, getD_append_undefined]
        simp [get, property?, hlength, hindex]
      simp only [hget, Except.map]
  | _ => rfl

end Value

end TemplateExpr
