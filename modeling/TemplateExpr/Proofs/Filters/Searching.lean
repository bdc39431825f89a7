import TemplateExpr.Filter.Search
import TemplateExpr.Proofs.Operations.Equality
import TemplateExpr.Proofs.Text.Lowercase

/-!
# Searching for a text

Given a text, `filter` keeps the items that mention it: some text, number or truth value inside the item
contains it once both are in lowercase. An item that holds the text as it stands should be among them.
It is unless the lowercase of the text depends on what stands around it, and this is so for a capital
sigma that begins or ends a word of the text but not of the item.
-/

namespace TemplateExpr

/-- Whether a value is another one or stands inside it, as an item or in a field, at any depth. -/
inductive Value.Inside : Value → Value → Prop
  | self (value : Value) : Inside value value
  | item {inner item : Value} {items : List Value} (hitem : item ∈ items)
    (hinner : Inside inner item) : Inside inner (.array items)
  | field {inner : Value} {field : String × Value} {fields : List (String × Value)}
    (hfield : field ∈ fields) (hinner : Inside inner field.2) : Inside inner (.object fields)

/-- Whether a value is a text, a number or a truth value. -/
def Value.IsText (value : Value) : Prop :=
  value.kind = .string ∨ value.kind = .number ∨ value.kind = .boolean

/-- Whether the text of a value or of one inside contains a needle, both in lowercase. -/
def Value.Mentions (item : Value) (needle : String) : Prop :=
  ∃ value : Value, value.Inside item ∧ value.IsText ∧
    (Text.lowercase needle).toList <:+: (Text.lowercase value.display).toList

/-- Whether a value is a text that contains a needle, or has such a text inside. -/
def Value.Holds (item : Value) (needle : String) : Prop :=
  ∃ text : String, (Value.string text).Inside item ∧ needle.toList <:+: text.toList

namespace Value

variable {inner item : Value} {items : List Value} {fields : List (String × Value)}

/-- Inside an array are the array and what is inside its items. -/
theorem inside_array :
    inner.Inside (.array items) ↔ inner = .array items ∨ ∃ item ∈ items, inner.Inside item := by
  constructor
  · intro h
    cases h with
    | self => exact .inl rfl
    | item hitem hinner => exact .inr ⟨_, hitem, hinner⟩
  · rintro (rfl | ⟨item, hitem, hinner⟩)
    · exact .self _
    · exact .item hitem hinner

/-- Inside an object are the object and what is inside its values. -/
theorem inside_object :
    inner.Inside (.object fields) ↔
      inner = .object fields ∨ ∃ item ∈ fields.map Prod.snd, inner.Inside item := by
  constructor
  · intro h
    cases h with
    | self => exact .inl rfl
    | field hfield hinner => exact .inr ⟨_, List.mem_map_of_mem hfield, hinner⟩
  · rintro (rfl | ⟨item, hitem, hinner⟩)
    · exact .self _
    · obtain ⟨field, hfield, rfl⟩ := List.mem_map.mp hitem
      exact .field hfield hinner

/-- Nothing is inside a value that is neither an array nor an object. -/
theorem inside_leaf (harray : ∀ items, item ≠ .array items) (hobject : ∀ fields, item ≠ .object fields) :
    inner.Inside item ↔ inner = item := by
  constructor
  · intro h
    cases h with
    | self => rfl
    | item => exact absurd rfl (harray _)
    | field => exact absurd rfl (hobject _)
  · rintro rfl
    exact .self _

/-- A value without a text of its own mentions what one of the values right inside it does. -/
theorem mentions_of_inside {outer : Value} (htext : ¬outer.IsText)
    (hinside : ∀ inner : Value, inner.Inside outer ↔ inner = outer ∨ ∃ item ∈ items, inner.Inside item)
    (needle : String) : outer.Mentions needle ↔ ∃ item ∈ items, item.Mentions needle := by
  simp only [Mentions, hinside]
  constructor
  · rintro ⟨value, rfl | ⟨item, hitem, hinner⟩, hvalue, hcontains⟩
    · exact absurd hvalue htext
    · exact ⟨item, hitem, value, hinner, hvalue, hcontains⟩
  · rintro ⟨item, hitem, value, hinner, hvalue, hcontains⟩
    exact ⟨value, .inr ⟨item, hitem, hinner⟩, hvalue, hcontains⟩

/-- An array mentions what one of its items does. -/
theorem mentions_array (items : List Value) (needle : String) :
    (Value.array items).Mentions needle ↔ ∃ item ∈ items, item.Mentions needle :=
  mentions_of_inside (by simp [IsText, kind]) (fun _ => inside_array) needle

/-- An object mentions what one of its values does. -/
theorem mentions_object (fields : List (String × Value)) (needle : String) :
    (Value.object fields).Mentions needle ↔
      ∃ item ∈ fields.map Prod.snd, item.Mentions needle :=
  mentions_of_inside (by simp [IsText, kind]) (fun _ => inside_object) needle

/-- A value with nothing inside mentions what is in its own text. -/
theorem mentions_leaf (harray : ∀ items, item ≠ .array items)
    (hobject : ∀ fields, item ≠ .object fields) (needle : String) :
    item.Mentions needle ↔ item.IsText ∧
      (Text.lowercase needle).toList <:+: (Text.lowercase item.display).toList := by
  simp only [Mentions, inside_leaf harray hobject, exists_eq_left]

end Value

namespace Search

variable {host : Host} {needle : Value} {accepts : Value → Bool}

/-- The needle occurs in a text that contains it. -/
theorem occursIn_iff (needle text : List Char) : occursIn needle text = true ↔ needle <:+: text := by
  induction text with
  | nil => rw [occursIn, List.isEmpty_iff, List.infix_nil]
  | cons c rest ih => rw [occursIn, Bool.or_eq_true, List.isPrefixOf_iff_prefix, ih, List.infix_cons_iff]

/-- The items are searched one after the other. -/
theorem anyContains_eq (needle : String) (items : List Value) :
    anyContains needle items = items.any (contains needle) := by
  induction items with
  | nil => rfl
  | cons item rest ih => rw [anyContains, ih, List.any_cons]

/-- Fields are searched for their values alone. -/
theorem anyFieldContains_eq (needle : String) (fields : List (String × Value)) :
    anyFieldContains needle fields = (fields.map Prod.snd).any (contains needle) := by
  induction fields with
  | nil => rfl
  | cons field rest ih => rw [anyFieldContains, ih, List.map_cons, List.any_cons]

/-- The search finds what a value mentions. -/
theorem contains_iff (needle : String) (item : Value) :
    contains (Text.lowercase needle) item = true ↔ item.Mentions needle := by
  induction item using Value.induction with
  | leaf item harray hobject =>
    rw [Value.mentions_leaf harray hobject, ← occursIn_iff]
    cases item with
    | array items => exact absurd rfl (harray items)
    | object fields => exact absurd rfl (hobject fields)
    | _ => simp [contains, textContains, Value.IsText, Value.kind, Value.display]
  | array items ih =>
    rw [Value.mentions_array, contains, anyContains_eq, List.any_eq_true]
    exact exists_congr fun item => and_congr_right fun hitem => ih item hitem
  | object fields ih =>
    rw [Value.mentions_object, ← Value.mentions_array, ← ih, contains, contains, anyFieldContains_eq,
      anyContains_eq]

instance (needle : String) : DecidablePred fun item : Value => item.Mentions needle :=
  fun item => decidable_of_iff _ (contains_iff needle item)

/-- A needle that decides without failing keeps the items it accepts, wherever they stand. -/
theorem keep_eq_filter
    (h : ∀ item index, isMatch host needle item index = .ok (accepts item)) (index : Nat)
    (items : List Value) : keep host needle index items = .ok (items.filter accepts) := by
  induction items generalizing index with
  | nil => rfl
  | cons item rest ih =>
    rw [keep, ih, h, List.filter_cons]
    rfl

/-- With such a needle the filter gives the items that are accepted, in their order. -/
theorem apply_eq_filter (hneedle : needle.isNullish = false)
    (h : ∀ item index, isMatch host needle item index = .ok (accepts item)) (items more : List Value) :
    apply host (.array items :: needle :: more) = .ok (.array (items.filter accepts)) := by
  simp only [apply, argument, List.getElem?_cons_zero, List.getElem?_cons_succ, Option.getD_some,
    hneedle, keep_eq_filter h]
  rfl

/-- Given a text, the filter keeps the items that mention it, in their order and each as often as it
stands there. Those that hold the text as it is are among them, whatever they are, exactly if the form
of each of its capital sigmas is settled. -/
theorem apply_string (host : Host) (needle : String) (more : List Value) :
    (∀ items, apply host (.array items :: .string needle :: more) =
        .ok (.array (items.filter fun item => item.Mentions needle))) ∧
      ((∀ item : Value, item.Holds needle → item.Mentions needle) ↔
        Text.SigmasAreSettled needle.toList) := by
  constructor
  · intro items
    refine apply_eq_filter rfl (fun item index => ?_) items more
    have hmatch : isMatch host (.string needle) item index =
        .ok (contains (Text.lowercase needle) item) := rfl
    rw [hmatch, Except.ok.injEq, Bool.eq_iff_iff, contains_iff, decide_eq_true_iff]
  · rw [← Text.isInfix_lowercase_iff]
    constructor
    · intro h text hcontains
      have hmentions := h (.string text) ⟨text, .self _, hcontains⟩
      exact ((Value.mentions_leaf (by simp) (by simp) needle).mp hmentions).2
    · rintro h item ⟨text, hinside, hcontains⟩
      exact ⟨.string text, hinside, .inl rfl, h text hcontains⟩

/-- The sigma that ends the needle has a form of its own, which the one in the item does not have. -/
theorem apply_string_misses :
    let host : Host := fun _ _ _ => .ok .undefined
    (Value.string "ΑΣΑ").Holds "ΑΣ" ∧
      apply host [.array [.string "ΑΣΑ"], .string "ΑΣ"] = .ok (.array []) := by
  intro host
  exact ⟨⟨"ΑΣΑ", .self _, ⟨[], ['Α'], rfl⟩⟩, rfl⟩

end Search

end TemplateExpr
