import TemplateExpr.Number.Numeral
import TemplateExpr.Value.Basic
import TemplateExpr.Value.Fault

/-!
# Properties

Reading and writing by key. Objects are keyed by any text, arrays and strings by their indices
and `length`. A write makes the containers it passes through where there are none, and what it
has written is read back (`Value.get_of_set`).
-/

namespace TemplateExpr

/-- The array index that a key spells: decimal digits without a sign or leading zeros. -/
def arrayIndex? (key : String) : Option Nat :=
  let index := decimalValue key.toList
  if key.toList.all Char.isDigit && index < 0x10000000000000000 && toString index = key then
    some index
  else none

/-- How many places one write may add at the end of an array. -/
def maxArrayGrowth : Nat := 65536

/-- The place that a key means in an array, and the array made long enough to have it. -/
def arrayPlace (items : List Value) (key : String) : Except TypeFault (Nat × List Value) :=
  match arrayIndex? key with
  | none => .error (.notIndex key)
  | some index =>
    if index < items.length then .ok (index, items)
    else if maxArrayGrowth ≤ index - items.length then
      .error (.indexOutOfRange index items.length)
    else .ok (index, items ++ List.replicate (index + 1 - items.length) .undefined)

/-- The length of an array is not one of its indices. -/
theorem arrayIndex?_length : arrayIndex? "length" = none := by decide

/-- The place of a key is in the array made ready for it. -/
theorem inside_of_arrayPlace {items grown : List Value} {key : String} {index : Nat}
    (h : arrayPlace items key = .ok (index, grown)) :
    arrayIndex? key = some index ∧ index < grown.length := by
  unfold arrayPlace at h
  split at h
  · simp at h
  case h_2 place found =>
    split at h
    · simp at h; obtain ⟨rfl, rfl⟩ := h; exact ⟨found, by assumption⟩
    · split at h
      · simp at h
      · simp at h
        obtain ⟨rfl, rfl⟩ := h
        refine ⟨found, ?_⟩
        simp
        omega

namespace Value

/-- The property of a key, if the value has it. -/
def property? : Value → String → Option Value
  | .object fields, key => Fields.get? fields key
  | .array items, key =>
    if key = "length" then some (.integer (Int64.ofNat items.length))
    else (arrayIndex? key).bind fun index => items[index]?
  | .string text, key =>
    if key = "length" then some (.integer (Int64.ofNat text.toList.length))
    else (arrayIndex? key).bind fun index =>
      text.toList[index]?.map fun c => .string (String.singleton c)
  | _, _ => none

/-- The property of a key; a missing one reads as `undefined`. -/
def get (value : Value) (key : String) : Value := (value.property? key).getD .undefined

/-- Whether the value has the property. -/
def has (value : Value) (key : String) : Bool := (value.property? key).isSome

/-- The value at the end of a chain of keys. -/
def follow (value : Value) (keys : List String) : Value := keys.foldl get value

/-- The value with a property written. A missing value becomes an object. -/
def set (value : Value) (key : String) (new : Value) : Except TypeFault Value :=
  match value with
  | .undefined | .null => .ok (.object [(key, new)])
  | .object fields => .ok (.object (Fields.insert key new fields))
  | .array items => do
    let (index, items) ← arrayPlace items key
    return .array (items.set index new)
  | other => .error (.notWritable key other.kind)

/-- A property reads back as what was written. -/
theorem get_of_set {value written new : Value} {key : String}
    (h : value.set key new = .ok written) : written.get key = new := by
  cases value with
  | undefined | null =>
    simp only [set, Except.ok.injEq] at h
    subst h
    simp [get, property?, Fields.get?_cons]
  | object fields =>
    simp only [set, Except.ok.injEq] at h
    subst h
    simp [get, property?]
  | array items =>
    simp only [set, bind, Except.bind] at h
    split at h
    · simp at h
    case h_2 place found =>
      obtain ⟨index, grown⟩ := place
      obtain ⟨spelled, inside⟩ := inside_of_arrayPlace found
      have notLength : key ≠ "length" := by
        rintro rfl
        simp [arrayIndex?_length] at spelled
      simp only [pure, Except.pure, Except.ok.injEq] at h
      subst h
      simp [get, property?, notLength, spelled, inside]
  | _ => simp [set] at h

/-- The object in place of a missing value, and any other value itself. -/
def orObject (value : Value) : Value := if value.isNullish then .object [] else value

/-- The value with a slot for the key made ready, and what is in the slot.

A missing value becomes an object, and so does a missing value in the slot. -/
def openSlot (value : Value) (key : String) : Except TypeFault (Value × Value) :=
  match value with
  | .undefined | .null => .ok (.object [(key, .object [])], .object [])
  | .object fields =>
    let slot := ((Fields.get? fields key).getD .undefined).orObject
    .ok (.object (Fields.insert key slot fields), slot)
  | .array items => do
    let (index, items) ← arrayPlace items key
    let slot := (items[index]?.getD .undefined).orObject
    return (.array (items.set index slot), slot)
  | other => .error (.notWritable key other.kind)

/-- Write at the end of the chain `key`, `rest`, …, making ready each slot on the way. The value
is what the steps leave behind, also when one of them fails. -/
def write (value : Value) (key : String) :
    (rest : List String) → Value → Value × Except TypeFault Unit
  | [], new =>
    match value.set key new with
    | .ok written => (written, .ok ())
    | .error fault => (value, .error fault)
  | next :: rest, new =>
    match value.openSlot key with
    | .error fault => (value, .error fault)
    | .ok (opened, slot) =>
      let (slot, outcome) := write slot next rest new
      ((opened.set key slot).toOption.getD opened, outcome)

end Value

end TemplateExpr
