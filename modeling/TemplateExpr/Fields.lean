/-!
# Fields

Named entries in the order of their names, each name at most once. Entries are only ever added
by insertion, which keeps the order, so that two collections with the same entries are equal:
`Fields.get?_insert_self` and `Fields.get?_insert_of_ne` say what an insertion does, and
`Fields.Ordered.ext` why nothing else matters.
-/

namespace TemplateExpr

/-- Entries in the order of their names. -/
abbrev Fields (α : Type) := List (String × α)

namespace Fields

variable {α : Type}

/-- The entry of a name. -/
def get? (fields : Fields α) (name : String) : Option α := fields.lookup name

/-- Change the entry of a name; without one, nothing changes. -/
def replace (name : String) (value : α) : Fields α → Fields α
  | [] => []
  | (other, kept) :: rest =>
    if name = other then (name, value) :: rest else (other, kept) :: replace name value rest

/-- Add an entry before the first one with a greater name. -/
def place (name : String) (value : α) : Fields α → Fields α
  | [] => [(name, value)]
  | (other, kept) :: rest =>
    if name < other then (name, value) :: (other, kept) :: rest
    else (other, kept) :: place name value rest

/-- Give a name an entry, in place of the one it had. -/
def insert (name : String) (value : α) (fields : Fields α) : Fields α :=
  if (get? fields name).isSome then replace name value fields else place name value fields

/-- The fields of a list of entries; of several entries of one name the last one counts. -/
def ofEntries (entries : List (String × α)) : Fields α :=
  entries.foldl (fun fields (name, value) => fields.insert name value) []

/-- No name has an entry in an empty collection. -/
@[simp]
theorem get?_nil (name : String) : get? ([] : Fields α) name = none := rfl

/-- The entry of a name is the first one listed under it. -/
theorem get?_cons (fields : Fields α) (name other : String) (value : α) :
    get? ((other, value) :: fields) name =
      if name = other then some value else get? fields name := by
  by_cases h : name = other
  · simp [get?, h]
  · rw [get?, List.lookup_cons, beq_false_of_ne h, if_neg h, get?]

/-- A replaced entry reads back as the new value. -/
theorem get?_replace_self {fields : Fields α} {name : String} (value : α)
    (h : (get? fields name).isSome) : get? (replace name value fields) name = some value := by
  induction fields with
  | nil => simp at h
  | cons entry rest ih =>
    obtain ⟨other, kept⟩ := entry
    by_cases same : name = other <;> simp_all [replace, get?_cons]

/-- Replacing an entry leaves the other names alone. -/
theorem get?_replace_of_ne {name name' : String} (h : name' ≠ name) (value : α)
    (fields : Fields α) : get? (replace name value fields) name' = get? fields name' := by
  induction fields with
  | nil => rfl
  | cons entry rest ih =>
    obtain ⟨other, kept⟩ := entry
    by_cases same : name = other
    · subst same; simp [replace, get?_cons, h]
    · simp [replace, get?_cons, same, ih]

/-- An added entry reads back as its value. -/
theorem get?_place_self {fields : Fields α} {name : String} (value : α)
    (h : get? fields name = none) : get? (place name value fields) name = some value := by
  induction fields with
  | nil => simp [place, get?_cons]
  | cons entry rest ih =>
    obtain ⟨other, kept⟩ := entry
    rw [get?_cons] at h
    by_cases same : name = other
    · simp [same] at h
    · rw [if_neg same] at h
      rw [place]
      split
      · simp [get?_cons]
      · rw [get?_cons, if_neg same, ih h]

/-- Adding an entry leaves the other names alone. -/
theorem get?_place_of_ne {name name' : String} (h : name' ≠ name) (value : α)
    (fields : Fields α) : get? (place name value fields) name' = get? fields name' := by
  induction fields with
  | nil => simp [place, get?_cons, h]
  | cons entry rest ih =>
    obtain ⟨other, kept⟩ := entry
    rw [place]
    split
    · rw [get?_cons, if_neg h]
    · rw [get?_cons, get?_cons, ih]

/-- A name has the entry that it was given last. -/
@[simp]
theorem get?_insert_self (fields : Fields α) (name : String) (value : α) :
    get? (insert name value fields) name = some value := by
  unfold insert
  split
  case isTrue h => exact get?_replace_self value h
  case isFalse h => exact get?_place_self value (by simpa using h)

/-- Giving a name an entry leaves the other names alone. -/
theorem get?_insert_of_ne (fields : Fields α) {name name' : String} (h : name' ≠ name)
    (value : α) : get? (insert name value fields) name' = get? fields name' := by
  unfold insert
  split
  · exact get?_replace_of_ne h value fields
  · exact get?_place_of_ne h value fields

/-- The names stand in increasing order. -/
def Ordered (fields : Fields α) : Prop := fields.Pairwise fun a b => a.1 < b.1

/-- Only the added entry is new. -/
theorem mem_place {entry : String × α} {name : String} {value : α} {fields : Fields α}
    (h : entry ∈ place name value fields) : entry = (name, value) ∨ entry ∈ fields := by
  induction fields with
  | nil => simpa [place] using h
  | cons first rest ih =>
    rw [place] at h
    split at h
    · simpa using h
    · rcases List.mem_cons.1 h with rfl | h
      · simp
      · rcases ih h with h | h <;> simp [h]

/-- Replacing an entry keeps the names. -/
theorem map_fst_replace (name : String) (value : α) (fields : Fields α) :
    (replace name value fields).map Prod.fst = fields.map Prod.fst := by
  induction fields with
  | nil => rfl
  | cons entry rest ih =>
    obtain ⟨other, kept⟩ := entry
    rw [replace]
    split
    case isTrue h => simp [h]
    case isFalse h => simp [ih]

/-- Replacing an entry keeps the order. -/
theorem Ordered.replace {fields : Fields α} (h : fields.Ordered) (name : String) (value : α) :
    (Fields.replace name value fields).Ordered := by
  have names (list : Fields α) : list.Ordered ↔ (list.map Prod.fst).Pairwise (· < ·) :=
    List.pairwise_map.symm
  rw [names, map_fst_replace, ← names]
  exact h

/-- Adding the entry of a new name keeps the order. -/
theorem Ordered.place {fields : Fields α} (h : fields.Ordered) {name : String} (value : α)
    (absent : get? fields name = none) : (Fields.place name value fields).Ordered := by
  induction fields with
  | nil => simp [Fields.place, Ordered]
  | cons entry rest ih =>
    obtain ⟨other, kept⟩ := entry
    obtain ⟨first, later⟩ := List.pairwise_cons.1 h
    rw [get?_cons] at absent
    by_cases same : name = other
    · simp [same] at absent
    rw [if_neg same] at absent
    rw [Fields.place]
    split
    case isTrue less =>
      refine List.pairwise_cons.2 ⟨fun next member => ?_, h⟩
      rcases List.mem_cons.1 member with rfl | member
      · exact less
      · exact String.lt_trans less (first next member)
    case isFalse notLess =>
      refine List.pairwise_cons.2 ⟨fun next member => ?_, ih later absent⟩
      rcases mem_place member with rfl | member
      · exact Std.lt_of_le_of_ne (String.not_lt.1 notLess) (Ne.symm same)
      · exact first next member

/-- Insertion keeps the order. -/
theorem Ordered.insert {fields : Fields α} (h : fields.Ordered) (name : String) (value : α) :
    (Fields.insert name value fields).Ordered := by
  unfold Fields.insert
  split
  · exact h.replace name value
  case isFalse absent => exact h.place value (by simpa using absent)

/-- A name before all others has no entry. -/
theorem get?_eq_none_of_lt {fields : Fields α} {name : String}
    (h : ∀ entry ∈ fields, name < entry.1) : get? fields name = none := by
  induction fields with
  | nil => rfl
  | cons entry rest ih =>
    obtain ⟨other, kept⟩ := entry
    have less : name < other := h _ List.mem_cons_self
    have different : name ≠ other := fun same => String.lt_irrefl other (by rwa [same] at less)
    rw [get?_cons, if_neg different]
    exact ih fun next member => h next (List.mem_cons_of_mem _ member)

/-- Ordered collections with the same entries are equal. -/
theorem Ordered.ext {a b : Fields α} (ha : a.Ordered) (hb : b.Ordered)
    (h : ∀ name, get? a name = get? b name) : a = b := by
  induction a generalizing b with
  | nil =>
    cases b with
    | nil => rfl
    | cons entry rest =>
      obtain ⟨name, value⟩ := entry
      simpa [get?_cons] using h name
  | cons entry rest ih =>
    obtain ⟨name, value⟩ := entry
    cases b with
    | nil => simpa [get?_cons] using h name
    | cons entry' rest' =>
      obtain ⟨name', value'⟩ := entry'
      obtain ⟨first, later⟩ := List.pairwise_cons.1 ha
      obtain ⟨first', later'⟩ := List.pairwise_cons.1 hb
      have missing : get? rest name = none := get?_eq_none_of_lt first
      have missing' : get? rest' name' = none := get?_eq_none_of_lt first'
      have same : name = name' := by
        rcases Std.lt_trichotomy name name' with less | same | less
        · have absent : get? ((name', value') :: rest') name = none :=
            get?_eq_none_of_lt fun next member => by
              rcases List.mem_cons.1 member with rfl | member
              · exact less
              · exact String.lt_trans less (first' next member)
          simp [← h name, get?_cons] at absent
        · exact same
        · have absent : get? ((name, value) :: rest) name' = none :=
            get?_eq_none_of_lt fun next member => by
              rcases List.mem_cons.1 member with rfl | member
              · exact less
              · exact String.lt_trans less (first next member)
          simp [h name', get?_cons] at absent
      subst same
      have values : value = value' := by simpa [get?_cons] using h name
      subst values
      congr 1
      refine ih later later' fun other => ?_
      by_cases same : other = name
      · rw [same, missing, missing']
      · simpa [get?_cons, same] using h other

/-- Fields made of a list of entries are in order. -/
theorem ordered_ofEntries (entries : List (String × α)) : (ofEntries entries).Ordered := by
  suffices h : ∀ fields : Fields α, fields.Ordered →
      (entries.foldl (fun fields (name, value) => fields.insert name value) fields).Ordered from
    h [] List.Pairwise.nil
  induction entries with
  | nil => exact fun fields h => h
  | cons entry rest ih => exact fun fields h => ih _ (h.insert entry.1 entry.2)

/-- Of several entries of one name the last one counts. -/
theorem get?_ofEntries (entries : List (String × α)) (name : String) :
    get? (ofEntries entries) name = get? entries.reverse name := by
  rw [ofEntries, ← List.foldr_reverse]
  induction entries.reverse with
  | nil => rfl
  | cons entry rest ih =>
    obtain ⟨other, value⟩ := entry
    rw [List.foldr_cons, get?_cons]
    by_cases hname : name = other
    · rw [if_pos hname, hname, get?_insert_self]
    · rw [if_neg hname, get?_insert_of_ne _ hname, ih]

end Fields

end TemplateExpr
