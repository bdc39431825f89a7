import TemplateExpr.Proofs.Operations.Relations

/-!
# The laws of equality

Values that are strictly equal are loosely equal, and both equalities go both ways. Strict equality
holds of a value and itself unless something inside is not a number. It is not transitive: integers
are compared exactly with one another but as doubles with a double, so that two integers may be equal
to a double that both are rounded to. Nothing else is wrong with it.
-/

namespace TemplateExpr

namespace Number

/-- Numbers are equal if they are so as doubles, and two integers have to be one integer. -/
theorem order?_eq_some_eq_iff {m n : Number} :
    m.order? n = some .eq ↔ m.toBinary64.same n.toBinary64 = true ∧
      ∀ i j, m = .integer i → n = .integer j → i = j := by
  cases m <;> cases n
  case integer.integer i j =>
    rw [order?, Option.some.injEq, Int.compare_eq_eq, Int64.toInt_inj]
    constructor
    · rintro rfl
      refine ⟨Binary64.same_self_iff.mpr (by simp [toBinary64, Binary64.ofInt, Binary64.ofUnits]), ?_⟩
      rintro _ _ ⟨⟩ ⟨⟩
      rfl
    · exact fun h => h.2 i j rfl rfl
  all_goals
    rw [Binary64.same, beq_iff_eq]
    exact ⟨fun h => ⟨h, by simp⟩, And.left⟩

end Number

namespace Value

attribute [local simp] strictEquals itemsEqual fieldsEqual

/-- What holds of an array if it holds of its items, and of an object if it holds of the array of its
values, holds of every value. -/
theorem induction {motive : Value → Prop}
    (leaf : ∀ a, (∀ items, a ≠ .array items) → (∀ fields, a ≠ .object fields) → motive a)
    (array : ∀ items, (∀ item ∈ items, motive item) → motive (.array items))
    (object : ∀ fields, motive (.array (fields.map Prod.snd)) → motive (.object fields))
    (a : Value) : motive a := by
  cases a with
  | array items => exact array items fun item _ => induction leaf array object item
  | object fields =>
    refine object fields (array _ fun value hvalue => ?_)
    obtain ⟨field, hfield, rfl⟩ := List.mem_map.mp hvalue
    exact induction leaf array object field.2
  | _ => exact leaf _ (by simp) (by simp)
termination_by sizeOf a
decreasing_by
  · have hitem := List.sizeOf_lt_of_mem ‹item ∈ items›
    rw [Value.array.sizeOf_spec]
    omega
  · have hlist := List.sizeOf_lt_of_mem hfield
    have hpair : sizeOf field = 1 + sizeOf field.1 + sizeOf field.2 := rfl
    rw [Value.object.sizeOf_spec]
    omega

/-- Arrays are equal if they are of one length and equal item by item. -/
theorem strictEquals_array {items items' : List Value} :
    strictEquals (.array items) (.array items') = true ↔ items.length = items'.length ∧
      ∀ (n : Nat) (a b : Value), items[n]? = some a → items'[n]? = some b →
        a.strictEquals b = true := by
  rw [strictEquals]
  induction items generalizing items' with
  | nil => cases items' <;> simp
  | cons first rest ih =>
    cases items' with
    | nil => simp
    | cons first' rest' =>
      rw [itemsEqual, Bool.and_eq_true, ih]
      constructor
      · rintro ⟨hfirst, hlength, hrest⟩
        refine ⟨congrArg Nat.succ hlength, fun n a b ha hb => ?_⟩
        cases n with
        | zero =>
          cases ha
          cases hb
          exact hfirst
        | succ n => exact hrest n a b ha hb
      · rintro ⟨hlength, hall⟩
        exact ⟨hall 0 _ _ rfl rfl, Nat.succ.inj hlength, fun n => hall (n + 1)⟩

/-- Objects are equal if they have the same names and equal values in the same order. -/
theorem strictEquals_object {fields fields' : List (String × Value)} :
    strictEquals (.object fields) (.object fields') = true ↔
      fields.map Prod.fst = fields'.map Prod.fst ∧
        strictEquals (.array (fields.map Prod.snd)) (.array (fields'.map Prod.snd)) = true := by
  simp only [strictEquals]
  induction fields generalizing fields' with
  | nil => cases fields' <;> simp
  | cons first rest ih =>
    obtain ⟨name, value⟩ := first
    cases fields' with
    | nil => simp
    | cons first' rest' =>
      obtain ⟨name', value'⟩ := first'
      simp only [fieldsEqual, itemsEqual, Bool.and_eq_true, beq_iff_eq, ih, List.map_cons,
        List.cons.injEq]
      exact and_and_and_comm

/-- What is equal to a number is a number. -/
theorem exists_toValue_of_strictEquals {n : Number} {b : Value}
    (h : strictEquals n.toValue b = true) : ∃ k : Number, b = k.toValue := by
  cases b with
  | integer j => exact ⟨.integer j, rfl⟩
  | float y => exact ⟨.float y, rfl⟩
  | _ => cases n <;> cases h

/-- What is neither an array nor an object is strictly equal to itself alone, unless it is a number. -/
theorem eq_or_number_of_strictEquals {a b : Value} (harray : ∀ items, a ≠ .array items)
    (hobject : ∀ fields, a ≠ .object fields) (h : a.strictEquals b = true) :
    a = b ∨ ∃ m n : Number, a = m.toValue ∧ b = n.toValue := by
  cases a with
  | array items => exact absurd rfl (harray items)
  | object fields => exact absurd rfl (hobject fields)
  | integer i =>
    obtain ⟨k, hk⟩ := exists_toValue_of_strictEquals (n := .integer i) h
    exact .inr ⟨.integer i, k, rfl, hk⟩
  | float x =>
    obtain ⟨k, hk⟩ := exists_toValue_of_strictEquals (n := .float x) h
    exact .inr ⟨.float x, k, rfl, hk⟩
  | _ =>
    left
    cases b <;> simp_all

/-- Only an array is equal to an array. -/
theorem exists_array_of_strictEquals {items : List Value} {b : Value}
    (h : strictEquals (.array items) b = true) : ∃ items', b = .array items' := by
  cases b with
  | array items' => exact ⟨items', rfl⟩
  | _ => cases h

/-- Only an object is equal to an object. -/
theorem exists_object_of_strictEquals {fields : List (String × Value)} {b : Value}
    (h : strictEquals (.object fields) b = true) : ∃ fields', b = .object fields' := by
  cases b with
  | object fields' => exact ⟨fields', rfl⟩
  | _ => cases h

/-- Strict equality goes both ways. -/
theorem strictEquals_symm {a b : Value} (h : a.strictEquals b = true) : b.strictEquals a = true := by
  induction a using induction generalizing b with
  | leaf a harray hobject =>
    rcases eq_or_number_of_strictEquals harray hobject h with rfl | ⟨m, n, rfl, rfl⟩
    · exact h
    · rw [strictEquals_toValue] at h ⊢
      rw [Number.order?_swap, h]
      rfl
  | array items ih =>
    obtain ⟨items', rfl⟩ := exists_array_of_strictEquals h
    obtain ⟨hlength, hitems⟩ := strictEquals_array.mp h
    refine strictEquals_array.mpr ⟨hlength.symm, fun n a b ha hb => ?_⟩
    exact ih b (List.mem_of_getElem? hb) (hitems n b a hb ha)
  | object fields ih =>
    obtain ⟨fields', rfl⟩ := exists_object_of_strictEquals h
    obtain ⟨hnames, hvalues⟩ := strictEquals_object.mp h
    exact strictEquals_object.mpr ⟨hnames.symm, ih hvalues⟩

/-- What is not a number, or anything that holds it. -/
inductive HoldsNaN : Value → Prop where
  | nan : HoldsNaN (.float .nan)
  | item {items : List Value} {item : Value} :
    item ∈ items → HoldsNaN item → HoldsNaN (.array items)
  | values {fields : List (String × Value)} :
    HoldsNaN (.array (fields.map Prod.snd)) → HoldsNaN (.object fields)

/-- A value is strictly equal to itself unless something inside is not a number. -/
theorem strictEquals_self_iff {a : Value} : a.strictEquals a = true ↔ ¬a.HoldsNaN := by
  induction a using induction with
  | leaf a harray hobject =>
    cases a with
    | array items => exact absurd rfl (harray items)
    | object fields => exact absurd rfl (hobject fields)
    | float x =>
      rw [strictEquals, Binary64.same_self_iff]
      refine ⟨fun h hholds => ?_, fun h hnan => h (hnan ▸ .nan)⟩
      cases hholds
      exact h rfl
    | _ =>
      refine ⟨fun _ hholds => ?_, fun _ => by simp⟩
      cases hholds
  | array items ih =>
    constructor
    · intro h hholds
      cases hholds with
      | item hmem hitem =>
        obtain ⟨n, hn⟩ := List.mem_iff_getElem?.mp hmem
        exact (ih _ hmem).mp ((strictEquals_array.mp h).2 n _ _ hn hn) hitem
    · intro hholds
      refine strictEquals_array.mpr ⟨rfl, fun n a b ha hb => ?_⟩
      cases ha.symm.trans hb
      have hmem := List.mem_of_getElem? ha
      exact (ih a hmem).mpr fun hitem => hholds (.item hmem hitem)
  | object fields ih =>
    rw [strictEquals_object, ih]
    constructor
    · rintro ⟨-, hvalues⟩ hholds
      cases hholds with
      | values hholds => exact hvalues hholds
    · exact fun hholds => ⟨rfl, fun hvalues => hholds (.values hvalues)⟩

/-- Whether the first value merges the two others: at some place it holds a double where the others
hold different integers. -/
inductive Merges : (b a c : Value) → Prop where
  | number {x : Binary64} {i j : Int64} : i ≠ j → Merges (.float x) (.integer i) (.integer j)
  | item {as bs cs : List Value} {a b c : Value} (n : Nat) :
    bs[n]? = some b → as[n]? = some a → cs[n]? = some c → Merges b a c →
      Merges (.array bs) (.array as) (.array cs)
  | values {as bs cs : List (String × Value)} :
    Merges (.array (bs.map Prod.snd)) (.array (as.map Prod.snd)) (.array (cs.map Prod.snd)) →
      Merges (.object bs) (.object as) (.object cs)

/-- Values that are merged by another one are not equal. -/
theorem Merges.strictEquals_ne {a b c : Value} (h : b.Merges a c) : a.strictEquals c ≠ true := by
  induction h with
  | number hdifferent => exact fun h => hdifferent (beq_iff_eq.mp h)
  | item n _ ha hc _ ih => exact fun h => ih ((strictEquals_array.mp h).2 n _ _ ha hc)
  | values _ ih => exact fun h => ih (strictEquals_object.mp h).2

/-- Values that are equal to a third one are equal unless this one merges them. -/
theorem strictEquals_trans {a b c : Value} (hab : a.strictEquals b = true)
    (hbc : b.strictEquals c = true) (hmerges : ¬b.Merges a c) : a.strictEquals c = true := by
  induction a using induction generalizing b c with
  | leaf a harray hobject =>
    rcases eq_or_number_of_strictEquals harray hobject hab with rfl | ⟨m, n, rfl, rfl⟩
    · exact hbc
    · obtain ⟨k, rfl⟩ := exists_toValue_of_strictEquals hbc
      rw [strictEquals_toValue, Number.order?_eq_some_eq_iff] at hab hbc ⊢
      refine ⟨Binary64.same_trans hab.1 hbc.1, ?_⟩
      rintro i j rfl rfl
      cases n with
      | integer l => exact (hab.2 i l rfl rfl).trans (hbc.2 l j rfl rfl)
      | float x => exact Decidable.byContradiction fun hdifferent => hmerges (.number hdifferent)
  | array items ih =>
    obtain ⟨items', rfl⟩ := exists_array_of_strictEquals hab
    obtain ⟨items'', rfl⟩ := exists_array_of_strictEquals hbc
    obtain ⟨hlength, hitems⟩ := strictEquals_array.mp hab
    obtain ⟨hlength', hitems'⟩ := strictEquals_array.mp hbc
    refine strictEquals_array.mpr ⟨hlength.trans hlength', fun n a c ha hc => ?_⟩
    have hn : n < items'.length := hlength ▸ (List.getElem?_eq_some_iff.mp ha).1
    have hb : items'[n]? = some items'[n] := List.getElem?_eq_getElem hn
    exact ih a (List.mem_of_getElem? ha) (hitems n _ _ ha hb) (hitems' n _ _ hb hc)
      fun h => hmerges (.item n hb ha hc h)
  | object fields ih =>
    obtain ⟨fields', rfl⟩ := exists_object_of_strictEquals hab
    obtain ⟨fields'', rfl⟩ := exists_object_of_strictEquals hbc
    obtain ⟨hnames, hvalues⟩ := strictEquals_object.mp hab
    obtain ⟨hnames', hvalues'⟩ := strictEquals_object.mp hbc
    exact strictEquals_object.mpr
      ⟨hnames.trans hnames', ih hvalues hvalues' fun h => hmerges (.values h)⟩

/-- Strict equality is symmetric. -/
theorem strictEquals_comm (a b : Value) : b.strictEquals a = a.strictEquals b :=
  Bool.eq_iff_iff.mpr ⟨strictEquals_symm, strictEquals_symm⟩

/-- Apart from missing values and two scalars, loose equality is strict. -/
theorem looseEquals_eq_strictEquals {a b : Value} (hnullish : (a.isNullish || b.isNullish) = false)
    (hscalar : (a.isScalar && b.isScalar) = false) : a.looseEquals b = a.strictEquals b := by
  unfold looseEquals
  rw [hnullish, if_neg Bool.false_ne_true]
  split
  case h_1 | h_2 => rfl
  case h_3 => rw [hscalar, if_neg Bool.false_ne_true]

/-- Loose equality is symmetric. -/
theorem looseEquals_comm (a b : Value) : b.looseEquals a = a.looseEquals b := by
  cases hnullish : a.isNullish || b.isNullish with
  | true =>
    unfold looseEquals
    rw [Bool.or_comm, hnullish, if_pos rfl, if_pos rfl, Bool.and_comm]
  | false =>
    cases hscalar : a.isScalar && b.isScalar with
    | true =>
      obtain ⟨ha, hb⟩ := Bool.and_eq_true_iff.mp hscalar
      rw [Bool.eq_iff_iff, looseEquals_iff_order? ha hb, looseEquals_iff_order? hb ha, order?_eq_comm]
    | false =>
      rw [looseEquals_eq_strictEquals hnullish hscalar, strictEquals_comm,
        ← looseEquals_eq_strictEquals (Bool.or_comm _ _ ▸ hnullish) (Bool.and_comm _ _ ▸ hscalar)]

/-- Numbers are loosely equal if they are strictly equal. -/
theorem looseEquals_toValue (m n : Number) :
    m.toValue.looseEquals n.toValue = m.toValue.strictEquals n.toValue := by
  cases m <;> cases n <;> rfl

/-- What is neither an array nor an object nor a number is loosely equal to itself. -/
theorem looseEquals_self {a : Value} (h : a.isNumber = false) (harray : ∀ items, a ≠ .array items)
    (hobject : ∀ fields, a ≠ .object fields) : a.looseEquals a = true := by
  cases a with
  | undefined | null => rfl
  | boolean truth =>
    have hnumber : (Value.boolean truth).toNumber ≠ .nan := by
      simp [toNumber, Binary64.ofInt, Binary64.ofUnits]
    exact Binary64.same_self_iff.mpr hnumber
  | string | function => exact beq_self_eq_true _
  | integer | float => cases h
  | array items => exact absurd rfl (harray items)
  | object fields => exact absurd rfl (hobject fields)

/-- Strictly equal values are loosely equal. -/
theorem looseEquals_of_strictEquals {a b : Value} (h : a.strictEquals b = true) :
    a.looseEquals b = true := by
  cases a with
  | array items =>
    obtain ⟨items', rfl⟩ := exists_array_of_strictEquals h
    exact h
  | object fields =>
    obtain ⟨fields', rfl⟩ := exists_object_of_strictEquals h
    exact h
  | integer i =>
    obtain ⟨n, rfl⟩ := exists_toValue_of_strictEquals (n := .integer i) h
    exact (looseEquals_toValue (.integer i) n).trans h
  | float x =>
    obtain ⟨n, rfl⟩ := exists_toValue_of_strictEquals (n := .float x) h
    exact (looseEquals_toValue (.float x) n).trans h
  | _ =>
    rcases eq_or_number_of_strictEquals (by simp) (by simp) h with rfl | ⟨m, n, hm, -⟩
    · exact looseEquals_self rfl (by simp) (by simp)
    · cases m <;> cases hm

/-- Both equalities go both ways, and the strict one implies the loose one. A value is strictly equal
to itself unless something inside is not a number, and values that are equal to a third one are equal
unless this one merges them. -/
theorem equality_laws (a b c : Value) :
    (a.strictEquals a = true ↔ ¬a.HoldsNaN) ∧ b.strictEquals a = a.strictEquals b ∧
    (a.strictEquals b = true → b.strictEquals c = true →
      (a.strictEquals c = true ↔ ¬b.Merges a c)) ∧
    (a.strictEquals b = true → a.looseEquals b = true) ∧ b.looseEquals a = a.looseEquals b :=
  ⟨strictEquals_self_iff, strictEquals_comm a b,
    fun hab hbc => ⟨fun hac hmerges => hmerges.strictEquals_ne hac, strictEquals_trans hab hbc⟩,
    looseEquals_of_strictEquals, looseEquals_comm a b⟩

/-- Two lists of one integer each that are both equal to the list of one double are merged by it. -/
theorem equality_laws_of_rounded :
    ((Value.array [.integer 9007199254740993]).strictEquals
        (.array [.float (.ofInt 9007199254740992)]) = true ∧
      (Value.array [.float (.ofInt 9007199254740992)]).strictEquals
        (.array [.integer 9007199254740992]) = true) ∧
    ((Value.array [.integer 9007199254740993]).strictEquals
        (.array [.integer 9007199254740992]) = true ↔
      ¬(Value.array [.float (.ofInt 9007199254740992)]).Merges
        (.array [.integer 9007199254740993]) (.array [.integer 9007199254740992])) ∧
    (Value.array [.integer 9007199254740993]).looseEquals
      (.array [.float (.ofInt 9007199254740992)]) = true := by
  have hlaws := equality_laws (.array [.integer 9007199254740993])
    (.array [.float (.ofInt 9007199254740992)]) (.array [.integer 9007199254740992])
  have hleft : (Value.array [.integer 9007199254740993]).strictEquals
      (.array [.float (.ofInt 9007199254740992)]) = true := by decide +kernel
  have hright : (Value.array [.float (.ofInt 9007199254740992)]).strictEquals
      (.array [.integer 9007199254740992]) = true := by decide +kernel
  exact ⟨⟨hleft, hright⟩, hlaws.2.2.1 hleft hright, hlaws.2.2.2.1 hleft⟩

/-- Two integers that are rounded to one double are both equal to it, and not to one another. -/
theorem strictEquals_not_transitive :
    (¬(Value.integer 9007199254740993).HoldsNaN ∧
      ¬(Value.float (.ofInt 9007199254740992)).HoldsNaN ∧
      ¬(Value.integer 9007199254740992).HoldsNaN) ∧
    (Value.integer 9007199254740993).strictEquals (.float (.ofInt 9007199254740992)) = true ∧
    (Value.float (.ofInt 9007199254740992)).strictEquals (.integer 9007199254740992) = true ∧
    (Value.integer 9007199254740993).strictEquals (.integer 9007199254740992) = false := by
  refine ⟨?_, by decide +kernel⟩
  simp only [← strictEquals_self_iff]
  decide +kernel

end Value

end TemplateExpr
