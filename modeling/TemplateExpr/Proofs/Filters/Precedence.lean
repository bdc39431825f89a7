import TemplateExpr.Proofs.Filters.KeyOrder
import TemplateExpr.Proofs.Number.Sizes

/-!
# What comes before what

Sorted numbers stand in the order of their exact values, texts in that of their lower case, false before
true, and values of different kinds in the order of the names of their kinds; other values are not told
apart. A criterion may turn this around, and of several criteria the first that tells two rows of keys
apart decides.

That is how keys and rows are compared, as long as every number among them is compared as what it is:
what is not a number has no place in the order, and beyond `2 ^ 53` a double may be equal to integers
that are not its value.
-/

namespace TemplateExpr

namespace Value

/-- The exact value of a number in units. -/
def exactValue? : Value → Option (WithBot (WithTop Int))
  | .integer n => some (Binary64.exactInt n.toInt)
  | .float x => x.exactValue?
  | _ => none

/-- Whether a value comes before another one when they are sorted. -/
inductive SortsBefore : Value → Value → Prop
  | number {a b : Value} {v w : WithBot (WithTop Int)} (ha : a.exactValue? = some v)
      (hb : b.exactValue? = some w) (h : v < w) : SortsBefore a b
  | boolean : SortsBefore (.boolean false) (.boolean true)
  | text {a b : String} (h : Text.lowercase a < Text.lowercase b) :
      SortsBefore (.string a) (.string b)
  | kind {a b : Value} (h : a.kind.name < b.kind.name) : SortsBefore a b

/-- Whether two values are not told apart when they are sorted. -/
def SortsWith (a b : Value) : Prop := ¬a.SortsBefore b ∧ ¬b.SortsBefore a

/-- What has an exact value is a number. -/
theorem kind_of_exactValue? {a : Value} {v : WithBot (WithTop Int)} (h : a.exactValue? = some v) :
    a.kind = .number := by
  cases a <;> first | rfl | cases h

/-- Values of one kind are not told apart by the name of it. -/
theorem not_name_lt {a b : Value} (h : a.kind = b.kind) : ¬a.kind.name < b.kind.name := by
  rw [h]
  exact String.lt_irrefl _

/-- Numbers come before one another by their exact values. -/
theorem sortsBefore_number {a b : Value} {v w : WithBot (WithTop Int)} (ha : a.exactValue? = some v)
    (hb : b.exactValue? = some w) : a.SortsBefore b ↔ v < w := by
  refine ⟨fun h => ?_, .number ha hb⟩
  cases h with
  | number hv hw h =>
    cases ha.symm.trans hv
    cases hb.symm.trans hw
    exact h
  | boolean | text => cases ha
  | kind h => exact absurd h (not_name_lt ((kind_of_exactValue? ha).trans (kind_of_exactValue? hb).symm))

/-- Texts come before one another by their lower case. -/
theorem sortsBefore_text {a b : String} :
    (string a).SortsBefore (string b) ↔ Text.lowercase a < Text.lowercase b := by
  refine ⟨fun h => ?_, .text⟩
  cases h with
  | number ha => cases ha
  | text h => exact h
  | kind h => exact absurd h (not_name_lt rfl)

/-- False alone comes before true. -/
theorem sortsBefore_boolean {a b : Bool} :
    (boolean a).SortsBefore (boolean b) ↔ a = false ∧ b = true := by
  refine ⟨fun h => ?_, fun ⟨ha, hb⟩ => ha ▸ hb ▸ .boolean⟩
  cases h with
  | number ha => cases ha
  | boolean => exact ⟨rfl, rfl⟩
  | kind h => exact absurd h (not_name_lt rfl)

/-- Values of different kinds come before one another by the names of their kinds. -/
theorem sortsBefore_of_kind_ne {a b : Value} (hkind : a.kind ≠ b.kind) :
    a.SortsBefore b ↔ a.kind.name < b.kind.name := by
  refine ⟨fun h => ?_, .kind⟩
  cases h with
  | number ha hb => exact absurd ((kind_of_exactValue? ha).trans (kind_of_exactValue? hb).symm) hkind
  | boolean | text => exact absurd rfl hkind
  | kind h => exact h

end Value

namespace Number

/-- One place is smaller than another one if both are there. -/
theorem placesOrder_eq_lt_iff {a b : Option Int} :
    placesOrder a b = .lt ↔ ∃ p q, a = some p ∧ b = some q ∧ p < q := by
  cases a <;> cases b <;> simp [placesOrder, Int.compare_eq_lt]

/-- The places of doubles stand in the order of their exact values. -/
theorem placesOrder_place? {x y : Binary64} {v w : WithBot (WithTop Int)} (hv : x.exactValue? = some v)
    (hw : y.exactValue? = some w) : placesOrder x.place? y.place? = .lt ↔ v < w := by
  have hplace {x : Binary64} {v : WithBot (WithTop Int)} (h : x.exactValue? = some v) :
      ∃ p, x.place? = some p := by
    cases x with
    | nan => cases h
    | signed negative m => exact ⟨_, rfl⟩
  obtain ⟨p, hp⟩ := hplace hv
  obtain ⟨q, hq⟩ := hplace hw
  rw [← Binary64.place_lt_iff hp hq hv hw, hp, hq, placesOrder_eq_lt_iff]
  simp

end Number

namespace Sorting

/-- Whether a key is compared as what it is. A double is unless it is not a number, and an integer is
as long as no smaller one is rounded to the same double. -/
def IsSharp : Value → Prop
  | .integer n => n.toInt.natAbs ≤ 0x20000000000000
  | .float x => x ≠ .nan
  | _ => True

variable {a b : Value}

/-- A number that is compared as what it is has an exact value, and so has the double that stands for
it. -/
theorem IsSharp.exists_exact (ha : IsSharp a) (hnumber : a.kind = .number) :
    ∃ v, a.exactValue? = some v ∧ (Number.ofValue a).toBinary64.exactValue? = some v := by
  cases a with
  | integer n => exact ⟨_, rfl, Binary64.exactValue?_ofInt ha⟩
  | float x =>
    obtain ⟨v, hv⟩ := Binary64.exists_exact ha
    exact ⟨v, hv, hv⟩
  | _ => cases hnumber

/-- Numbers are ordered by their exact values. -/
theorem keyOrder_of_exact {v w : WithBot (WithTop Int)} (ha : IsSharp a) (hb : IsSharp b)
    (hv : a.exactValue? = some v) (hw : b.exactValue? = some w) : keyOrder a b = .lt ↔ v < w := by
  have hnumber := Value.kind_of_exactValue? hv
  have hnumber' := Value.kind_of_exactValue? hw
  obtain ⟨v', hv', hdouble⟩ := ha.exists_exact hnumber
  obtain ⟨w', hw', hdouble'⟩ := hb.exists_exact hnumber'
  cases hv.symm.trans hv'
  cases hw.symm.trans hw'
  rw [keyOrder_of_kind (hnumber.trans hnumber'.symm) (by rw [hnumber]; decide)]
  cases a with
  | integer i =>
    cases b with
    | integer j =>
      -- Integers are compared with one another without doubles.
      cases hv
      cases hw
      rw [Binary64.exactInt, Binary64.exactInt, WithBot.coe_lt_coe, WithTop.coe_lt_coe,
        Int.mul_lt_mul_right (Int.natCast_pos.mpr Magnitude.unitsPerOne_pos)]
      exact Int.compare_eq_lt
    | float y => exact Number.placesOrder_place? hdouble hdouble'
    | _ => cases hnumber'
  | float x =>
    cases b with
    | integer | float => exact Number.placesOrder_place? hdouble hdouble'
    | _ => cases hnumber'
  | _ => cases hnumber

/-- Texts are compared by their characters. -/
theorem compare_eq_lt_iff {s t : String} : compare s t = .lt ↔ s < t := compareOfLessAndEq_eq_lt

/-- Keys of one kind are told apart if they are numbers, truths or texts. -/
theorem keyOrder_of_same_kind (ha : IsSharp a) (hb : IsSharp b) (hkind : a.kind = b.kind) :
    keyOrder a b = .lt ↔ a.SortsBefore b := by
  by_cases hnumber : a.kind = .number
  · obtain ⟨v, hv, -⟩ := ha.exists_exact hnumber
    obtain ⟨w, hw, -⟩ := hb.exists_exact (hkind ▸ hnumber)
    exact (keyOrder_of_exact ha hb hv hw).trans (Value.sortsBefore_number hv hw).symm
  cases a with
  | integer | float => exact absurd rfl hnumber
  | string s =>
    obtain ⟨t, rfl⟩ := exists_string_of_kind hkind.symm
    exact Iff.trans compare_eq_lt_iff Value.sortsBefore_text.symm
  | boolean x =>
    cases b with
    | boolean y =>
      rw [Value.sortsBefore_boolean]
      cases x <;> cases y <;> decide
    | _ => cases hkind
  | _ =>
    -- The others are equal to one another.
    cases b <;> cases hkind
    refine iff_of_false nofun fun h => ?_
    cases h with
    | number hv => cases hv
    | kind h => exact Value.not_name_lt rfl h

/-- Keys that are compared as what they are stand in the order that is meant. -/
theorem keyOrder_eq_lt_iff (ha : IsSharp a) (hb : IsSharp b) :
    keyOrder a b = .lt ↔ a.SortsBefore b := by
  by_cases hkind : a.kind = b.kind
  · exact keyOrder_of_same_kind ha hb hkind
  · rw [keyOrder_of_kind_ne hkind, compare_eq_lt_iff, Value.sortsBefore_of_kind_ne hkind]

/-- Keys that are compared as what they are are equal if they are not told apart. -/
theorem keyOrder_eq_eq_iff (ha : IsSharp a) (hb : IsSharp b) :
    keyOrder a b = .eq ↔ a.SortsWith b := by
  rw [Value.SortsWith, ← keyOrder_eq_lt_iff ha hb, ← keyOrder_eq_lt_iff hb ha, keyOrder_swap a b]
  cases keyOrder a b <;> decide

end Sorting

end TemplateExpr
