import TemplateExpr.Filter.Sorting
import TemplateExpr.Proofs.Number.Order

/-!
# The order of sort keys

Keys of different kinds are ordered by the names of their kinds, texts by their lower case, and
other keys by the numbers that they stand for. That is an order as far as numbers are compared as
what they are. But integers are compared exactly with one another and as doubles with a double, and
what is not a number is equal to all numbers: so between two numbers of which one is greater there
may be a third that is equal to both. Nothing else is wrong with the order.
-/

namespace TemplateExpr

namespace Number

/-- The place on the line of the double that stands for a number, if it is one. -/
def place? (n : Number) : Option Int := n.toBinary64.place?

/-- The order of two places, of which a missing one is equal to all. -/
def placesOrder (a b : Option Int) : Ordering :=
  (a.bind fun p => b.map fun q => compare p q).getD .eq

/-- The order of two places turns around with them. -/
theorem placesOrder_swap (a b : Option Int) : placesOrder b a = (placesOrder a b).swap := by
  cases a <;> cases b <;> first | rfl | exact Std.OrientedOrd.eq_swap

/-- A place is equal to itself. -/
theorem placesOrder_self (a : Option Int) : placesOrder a a = .eq := by
  cases a <;> first | rfl | exact Std.compare_self

/-- One place is greater than another one if both are there. -/
theorem placesOrder_eq_gt_iff {a b : Option Int} :
    placesOrder a b = .gt ↔ ∃ p q, a = some p ∧ b = some q ∧ q < p := by
  cases a <;> cases b <;> simp [placesOrder, Int.compare_eq_gt]

/-- The order of two numbers: integers are compared exactly, other numbers by their places. -/
def keyOrder (m n : Number) : Ordering :=
  match m, n with
  | .integer m, .integer n => compare m.toInt n.toInt
  | m, n => placesOrder m.place? n.place?

/-- The order of two numbers turns around with them. -/
theorem keyOrder_swap (m n : Number) : n.keyOrder m = (m.keyOrder n).swap := by
  cases m <;> cases n
  case integer.integer => exact Std.OrientedOrd.eq_swap
  all_goals exact placesOrder_swap _ _

/-- A number is equal to itself. -/
theorem keyOrder_self (n : Number) : n.keyOrder n = .eq := by
  cases n with
  | integer n => exact Std.compare_self
  | float x => exact placesOrder_self _

/-- What has a greater place is greater. -/
theorem keyOrder_of_place_lt {m n : Number} {p q : Int} (hp : m.place? = some p)
    (hq : n.place? = some q) (h : q < p) : m.keyOrder n = .gt := by
  cases m <;> cases n
  case integer.integer i j =>
    -- Rounding keeps order, so that integers are in the order of different places.
    refine Int.compare_eq_gt.mpr (Int.not_le.mp fun hle => ?_)
    have hmono := Binary64.placeOfInt_mono hle
    rw [place?, toBinary64, Binary64.place?_ofInt, Option.some.injEq] at hp hq
    omega
  all_goals exact placesOrder_eq_gt_iff.mpr ⟨p, q, hp, hq, h⟩

/-- What is greater has a place that is not smaller, and the same place only if it is an integer like
what it is compared with. -/
theorem place_of_keyOrder_eq_gt {m n : Number} (h : m.keyOrder n = .gt) :
    ∃ p q, m.place? = some p ∧ n.place? = some q ∧ q ≤ p ∧
      (p = q → ∃ i j, m = .integer i ∧ n = .integer j) := by
  cases m <;> cases n
  case integer.integer i j =>
    have hle := Int.le_of_lt (Int.compare_eq_gt.mp h)
    exact ⟨_, _, rfl, rfl, Binary64.placeOfInt_mono hle, fun _ => ⟨i, j, rfl, rfl⟩⟩
  all_goals
    obtain ⟨p, q, hp, hq, hless⟩ := placesOrder_eq_gt_iff.mp h
    exact ⟨p, q, hp, hq, Int.le_of_lt hless, fun hsame => absurd hsame (by omega)⟩

/-- Whether a number is equal to two others whatever their order is: it is not a number, or it is a
double that two integers are rounded to. -/
def Blurs (n m k : Number) : Prop :=
  n = .float .nan ∨ ∃ x i j, n = .float x ∧ m = .integer i ∧ k = .integer j ∧
    (Binary64.ofInt i.toInt).same x = true ∧ (Binary64.ofInt j.toInt).same x = true

/-- A number that blurs two others is equal to both. -/
theorem Blurs.keyOrder_eq {n m k : Number} (h : n.Blurs m k) :
    m.keyOrder n = .eq ∧ n.keyOrder k = .eq := by
  rcases h with rfl | ⟨x, i, j, rfl, rfl, rfl, hi, hj⟩
  · have hnan (m : Number) : m.keyOrder (.float .nan) = .eq := by
      cases m with
      | integer i => rfl
      | float x => cases x <;> rfl
    refine ⟨hnan m, ?_⟩
    rw [keyOrder_swap, hnan k]
    rfl
  · obtain ⟨p, hp, hx⟩ := Binary64.same_iff.mp hi
    obtain ⟨q, hq, hx'⟩ := Binary64.same_iff.mp hj
    simp only [keyOrder, place?, toBinary64, hp, hq, hx]
    cases hx.symm.trans hx'
    exact ⟨placesOrder_self _, placesOrder_self _⟩

/-- A number that lies between two numbers in the wrong order blurs them. -/
theorem blurs_of_keyOrder {m n k : Number} (hmn : m.keyOrder n ≠ .gt) (hnk : n.keyOrder k ≠ .gt)
    (hmk : m.keyOrder k = .gt) : n.Blurs m k := by
  obtain ⟨p, r, hp, hr, hle, hintegers⟩ := place_of_keyOrder_eq_gt hmk
  cases hq : n.place? with
  | none =>
    cases n with
    | integer j => cases hq
    | float x =>
      cases x with
      | nan => exact .inl rfl
      | signed => cases hq
  | some q =>
    -- Then all three have one place, and the outer ones are integers.
    have hpq : ¬q < p := fun hless => hmn (keyOrder_of_place_lt hp hq hless)
    have hqr : ¬r < q := fun hless => hnk (keyOrder_of_place_lt hq hr hless)
    obtain rfl : p = q := by omega
    obtain rfl : p = r := by omega
    obtain ⟨i, j, rfl, rfl⟩ := hintegers rfl
    cases n with
    | integer l =>
      have hil := mt Int.compare_eq_gt.mpr hmn
      have hlj := mt Int.compare_eq_gt.mpr hnk
      have hij := Int.compare_eq_gt.mp hmk
      omega
    | float x => exact .inr ⟨x, i, j, rfl, rfl, rfl, Binary64.same_iff.mpr ⟨p, hp, hq⟩,
        Binary64.same_iff.mpr ⟨p, hr, hq⟩⟩

end Number

/-- Kinds are told apart by their names. -/
theorem Kind.eq_of_name {kind kind' : Kind} (h : kind.name = kind'.name) : kind = kind' := by
  cases kind <;> cases kind' <;> first | rfl | simp [name] at h

namespace Sorting

/-- Keys of different kinds are ordered by the names of their kinds. -/
theorem keyOrder_of_kind_ne {a b : Value} (hkind : a.kind ≠ b.kind) :
    keyOrder a b = compare a.kind.name b.kind.name := by
  unfold keyOrder
  split
  case h_1 => exact absurd rfl hkind
  case h_2 => exact if_neg hkind

/-- Keys of one kind other than texts are ordered as the numbers that they stand for. -/
theorem keyOrder_of_kind {a b : Value} (hkind : a.kind = b.kind) (hstring : a.kind ≠ .string) :
    keyOrder a b = (Number.ofValue a).keyOrder (Number.ofValue b) := by
  cases a <;> cases b <;> cases hkind
  case string.string => exact absurd rfl hstring
  case integer.float | float.integer | float.float =>
    simp only [keyOrder, Value.kind, if_true, Value.order?, Number.ofValue, Number.keyOrder,
      Number.placesOrder, Number.place?, Number.toBinary64, Binary64.order_eq]
  all_goals rfl

/-- What is of the kind of texts is a text. -/
theorem exists_string_of_kind {a : Value} (h : a.kind = .string) : ∃ text, a = .string text := by
  cases a <;> cases h
  exact ⟨_, rfl⟩

/-- The order of two keys turns around with them. -/
theorem keyOrder_swap (a b : Value) : keyOrder b a = (keyOrder a b).swap := by
  by_cases hkind : a.kind = b.kind
  · by_cases hstring : a.kind = .string
    · obtain ⟨text, rfl⟩ := exists_string_of_kind hstring
      obtain ⟨other, rfl⟩ := exists_string_of_kind (hkind.symm.trans hstring)
      exact Std.OrientedOrd.eq_swap
    · rw [keyOrder_of_kind hkind hstring, keyOrder_of_kind hkind.symm (hkind ▸ hstring)]
      exact Number.keyOrder_swap _ _
  · rw [keyOrder_of_kind_ne hkind, keyOrder_of_kind_ne (Ne.symm hkind)]
    exact Std.OrientedOrd.eq_swap

/-- A key is equal to itself. -/
theorem keyOrder_self (a : Value) : keyOrder a a = .eq := by
  by_cases hstring : a.kind = .string
  · obtain ⟨text, rfl⟩ := exists_string_of_kind hstring
    exact Std.compare_self
  · rw [keyOrder_of_kind rfl hstring]
    exact Number.keyOrder_self _

/-- Keys are in the order of the names of their kinds. -/
theorem isLE_name_of_keyOrder {a b : Value} (h : keyOrder a b ≠ .gt) :
    (compare a.kind.name b.kind.name).isLE = true := by
  by_cases hkind : a.kind = b.kind
  · rw [hkind, Std.compare_self]
    rfl
  · rw [keyOrder_of_kind_ne hkind] at h
    exact Ordering.isLE_iff_ne_gt.mpr h

/-- Keys that are in the order of the names of their kinds both ways are of one kind. -/
theorem kind_eq_of_isLE {a b : Value} (h : (compare a.kind.name b.kind.name).isLE = true)
    (h' : (compare b.kind.name a.kind.name).isLE = true) : a.kind = b.kind :=
  Kind.eq_of_name (Std.LawfulEqOrd.eq_of_compare (Std.OrientedCmp.isLE_antisymm h h'))

/-- Three keys that are not in one order are of one kind. -/
theorem kind_eq_of_keyOrder {a b c : Value} (hab : keyOrder a b ≠ .gt) (hbc : keyOrder b c ≠ .gt)
    (hac : keyOrder a c = .gt) : a.kind = b.kind ∧ b.kind = c.kind := by
  have hca : keyOrder c a ≠ .gt := by
    rw [keyOrder_swap, hac]
    decide
  have hab := isLE_name_of_keyOrder hab
  have hbc := isLE_name_of_keyOrder hbc
  have hca := isLE_name_of_keyOrder hca
  exact ⟨kind_eq_of_isLE hab (Std.TransOrd.isLE_trans hbc hca),
    kind_eq_of_isLE hbc (Std.TransOrd.isLE_trans hca hab)⟩

/-- Whether a key is a number that is equal to two other numbers whatever their order is. -/
def Blurs (b a c : Value) : Prop :=
  a.kind = .number ∧ b.kind = .number ∧ c.kind = .number ∧
    (Number.ofValue b).Blurs (Number.ofValue a) (Number.ofValue c)

/-- Of keys that are no texts, numbers alone can be blurred by one of the same kind. -/
theorem kind_eq_number_of_blurs {a b c : Value} (hkind : a.kind = b.kind) (hstring : a.kind ≠ .string)
    (hblurs : (Number.ofValue b).Blurs (Number.ofValue a) (Number.ofValue c))
    (hac : (Number.ofValue a).keyOrder (Number.ofValue c) = .gt) : a.kind = .number := by
  obtain ⟨p, -, hp, -⟩ := Number.place_of_keyOrder_eq_gt hac
  cases a with
  | integer | float => rfl
  | string => exact absurd rfl hstring
  | undefined | array | object | function => cases hp
  | null | boolean =>
    cases b <;> cases hkind
    rcases hblurs with hnan | ⟨x, i, j, hfloat, -⟩
    · cases hnan
    · cases hfloat

/-- Texts are ordered. -/
theorem keyOrder_trans_of_string {a b c : Value} (ha : a.kind = .string) (hb : b.kind = .string)
    (hc : c.kind = .string) (hab : keyOrder a b ≠ .gt) (hbc : keyOrder b c ≠ .gt) :
    keyOrder a c ≠ .gt := by
  obtain ⟨text, rfl⟩ := exists_string_of_kind ha
  obtain ⟨text', rfl⟩ := exists_string_of_kind hb
  obtain ⟨text'', rfl⟩ := exists_string_of_kind hc
  exact Ordering.isLE_iff_ne_gt.mp <|
    Std.TransOrd.isLE_trans (Ordering.isLE_iff_ne_gt.mpr hab) (Ordering.isLE_iff_ne_gt.mpr hbc)

/-- A key that lies between two keys in the wrong order blurs them. -/
theorem blurs_of_keyOrder {a b c : Value} (hab : keyOrder a b ≠ .gt) (hbc : keyOrder b c ≠ .gt)
    (hac : keyOrder a c = .gt) : Blurs b a c := by
  obtain ⟨hkind, hkind'⟩ := kind_eq_of_keyOrder hab hbc hac
  have hkinds := hkind.trans hkind'
  have hstring : a.kind ≠ .string := fun ha =>
    keyOrder_trans_of_string ha (hkind ▸ ha) (hkinds ▸ ha) hab hbc hac
  rw [keyOrder_of_kind hkind hstring] at hab
  rw [keyOrder_of_kind hkind' (hkind ▸ hstring)] at hbc
  rw [keyOrder_of_kind hkinds hstring] at hac
  have hblurs := Number.blurs_of_keyOrder hab hbc hac
  have hnumber := kind_eq_number_of_blurs hkind hstring hblurs hac
  exact ⟨hnumber, hkind ▸ hnumber, hkinds ▸ hnumber, hblurs⟩

/-- A key that blurs two keys lies between them. -/
theorem Blurs.keyOrder_ne_gt {a b c : Value} (h : Blurs b a c) :
    keyOrder a b ≠ .gt ∧ keyOrder b c ≠ .gt := by
  obtain ⟨ha, hb, hc, hblurs⟩ := h
  obtain ⟨hab, hbc⟩ := hblurs.keyOrder_eq
  rw [keyOrder_of_kind (ha.trans hb.symm) (by simp [ha]),
    keyOrder_of_kind (hb.trans hc.symm) (by simp [hb]), hab, hbc]
  decide

/-- The order of keys turns around with them, a key is equal to itself, and the order is transitive
except where a number is equal to two others of which one is greater.

Such a number is none, or a double that two integers are rounded to. -/
theorem keyOrder_laws (a b c : Value) :
    keyOrder b a = (keyOrder a b).swap ∧ keyOrder a a = .eq ∧
      (keyOrder a b ≠ .gt ∧ keyOrder b c ≠ .gt ∧ keyOrder a c = .gt ↔
        Blurs b a c ∧ keyOrder a c = .gt) := by
  refine ⟨keyOrder_swap a b, keyOrder_self a, ?_, ?_⟩
  · rintro ⟨hab, hbc, hac⟩
    exact ⟨blurs_of_keyOrder hab hbc hac, hac⟩
  · rintro ⟨hblurs, hac⟩
    obtain ⟨hab, hbc⟩ := hblurs.keyOrder_ne_gt
    exact ⟨hab, hbc, hac⟩

/-- What is not a number is equal to 21 and to 12, and a double is equal to two integers that are
rounded to it. So an array with 21 before 12 is taken to be in order. -/
theorem keyOrder_not_transitive :
    (keyOrder (.integer 21) (.float .nan) ≠ .gt ∧ keyOrder (.float .nan) (.integer 12) ≠ .gt ∧
      keyOrder (.integer 21) (.integer 12) = .gt) ∧
    (keyOrder (.integer 1152921504606847088) (.float (.ofInt 1152921504606846976)) ≠ .gt ∧
      keyOrder (.float (.ofInt 1152921504606846976)) (.integer 1152921504606846988) ≠ .gt ∧
      keyOrder (.integer 1152921504606847088) (.integer 1152921504606846988) = .gt) ∧
    apply (fun _ _ _ => .ok .undefined) (fun _ => none)
        [.array [.integer 21, .float .nan, .integer 12]] =
      .ok (.array [.integer 21, .float .nan, .integer 12]) :=
  ⟨by decide, by decide +kernel, rfl⟩

end Sorting

end TemplateExpr
