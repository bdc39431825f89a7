import Mathlib.Logic.ExistsUnique
import TemplateExpr.Operation
import TemplateExpr.Proofs.Number.Exactness

/-!
# Relations between scalars

The order of two booleans, numbers or texts and their loose equality are computed in different ways:
integers meet exactly, a boolean is an integer in the order and a double in the equality, and two
texts are never read as numbers. They agree all the same, as rounding keeps the integers that stand
for booleans apart from all others.
-/

namespace TemplateExpr

namespace Binary64

/-- The order of two doubles turns around with them. -/
theorem order_swap (x y : Binary64) : y.order x = (x.order y).map Ordering.swap := by
  cases x <;> cases y
  case signed.signed => exact congrArg some Std.OrientedOrd.eq_swap
  all_goals rfl

/-- Two doubles have an order unless one of them is not a number. -/
theorem order_eq_none_iff {x y : Binary64} : x.order y = none ↔ x = .nan ∨ y = .nan := by
  cases x <;> cases y <;> simp [order]

end Binary64

namespace Number

/-- The order of two numbers: integers are compared exactly, and other numbers as doubles. -/
def order? (m n : Number) : Option Ordering :=
  match m, n with
  | .integer m, .integer n => some (compare m.toInt n.toInt)
  | m, n => m.toBinary64.order n.toBinary64

/-- The order of two numbers turns around with them. -/
theorem order?_swap (m n : Number) : n.order? m = (m.order? n).map Ordering.swap := by
  cases m <;> cases n
  case integer.integer => exact congrArg some Std.OrientedOrd.eq_swap
  all_goals exact Binary64.order_swap _ _

/-- Two numbers have an order unless one of them is not a number as a double. -/
theorem order?_eq_none_iff {m n : Number} :
    m.order? n = none ↔ m.toBinary64 = .nan ∨ n.toBinary64 = .nan := by
  cases m <;> cases n
  case integer.integer => simp [order?, toBinary64, Binary64.ofInt, Binary64.ofUnits]
  all_goals exact Binary64.order_eq_none_iff

/-- Values that are not both texts are ordered as the numbers that they stand for. -/
theorem order?_ofValue {a b : Value} (h : ¬(a.kind = .string ∧ b.kind = .string)) :
    a.order? b = (ofValue a).order? (ofValue b) := by
  unfold Value.order?
  split
  case h_1 => exact absurd ⟨rfl, rfl⟩ h
  case h_2 =>
    cases ofValue a <;> cases ofValue b <;> rfl

/-- A scalar is the same double as a number and as an operand. -/
theorem toBinary64_ofValue {a : Value} (ha : a.isScalar = true) :
    (ofValue a).toBinary64 = a.toNumber := by
  cases a with
  | boolean truth => cases truth <;> rfl
  | integer | float | string => rfl
  | _ => cases ha

/-- A truth value stands for an integer of one bit, which is a double of its own. -/
theorem same_boolean (truth : Bool) (n : Int64) :
    (Binary64.ofInt (if truth then 1 else 0)).same (.ofInt n.toInt) = true ↔
      (ofValue (.boolean truth)).order? (.integer n) = some .eq := by
  have hsmall : (if truth then 1 else 0 : Int).natAbs < 2 * Magnitude.binade := by
    cases truth <;> decide
  rw [Binary64.same_ofInt hsmall, ofValue, order?, Option.some.injEq, Int.compare_eq_eq]
  cases truth <;> rfl

end Number

namespace Value

/-- The order of two values turns around with them. -/
theorem order?_swap (a b : Value) : b.order? a = (a.order? b).map Ordering.swap := by
  by_cases h : a.kind = .string ∧ b.kind = .string
  · obtain ⟨ha, hb⟩ := h
    cases a <;> cases ha
    cases b <;> cases hb
    exact congrArg some Std.OrientedOrd.eq_swap
  · rw [Number.order?_ofValue h, Number.order?_ofValue (mt And.symm h)]
    exact Number.order?_swap _ _

/-- Two values are equal in the order both ways. -/
theorem order?_eq_comm {a b : Value} : b.order? a = some .eq ↔ a.order? b = some .eq := by
  rw [order?_swap, Option.map_eq_some_iff]
  simp only [Ordering.swap_eq_eq, exists_eq_right]

/-- Numbers are strictly equal if neither comes before the other one in the order. -/
theorem strictEquals_toValue (m n : Number) :
    strictEquals m.toValue n.toValue = true ↔ m.order? n = some .eq := by
  cases m <;> cases n
  case integer.integer i j =>
    exact beq_iff_eq.trans (Int64.toInt_inj.symm.trans
      (Int.compare_eq_eq.symm.trans Option.some_inj.symm))
  all_goals exact beq_iff_eq

/-- Scalars are loosely equal if neither comes before the other one in the order. -/
theorem looseEquals_iff_order? {a b : Value} (ha : a.isScalar = true) (hb : b.isScalar = true) :
    a.looseEquals b = true ↔ a.order? b = some .eq := by
  cases a <;> simp only [isScalar, kind, Bool.false_eq_true] at ha <;>
    cases b <;> simp only [isScalar, kind, Bool.false_eq_true] at hb
  case string.string text other =>
    rw [order?, Option.some.injEq, Std.compare_eq_iff_eq]
    exact beq_iff_eq
  case integer.integer m n => exact strictEquals_toValue (.integer m) (.integer n)
  case boolean.boolean truth other =>
    cases other
    case false => exact Number.same_boolean truth 0
    case true => exact Number.same_boolean truth 1
  case boolean.integer truth n => exact Number.same_boolean truth n
  case integer.boolean n truth =>
    rw [order?_eq_comm]
    exact (Bool.eq_iff_iff.mp (Binary64.same_comm _ _)).trans (Number.same_boolean truth n)
  case boolean.float truth x | boolean.string truth x => cases truth <;> exact beq_iff_eq
  case float.boolean x truth | string.boolean x truth => cases truth <;> exact beq_iff_eq
  all_goals exact beq_iff_eq

/-- Whether two values have an order: they are two texts, or both can be read as numbers. -/
def Comparable (a b : Value) : Prop :=
  (a.kind = .string ∧ b.kind = .string) ∨ (a.toNumber ≠ .nan ∧ b.toNumber ≠ .nan)

/-- Scalars have an order if they can be compared. -/
theorem order?_eq_none_iff {a b : Value} (ha : a.isScalar = true) (hb : b.isScalar = true) :
    a.order? b = none ↔ ¬a.Comparable b := by
  by_cases h : a.kind = .string ∧ b.kind = .string
  · obtain ⟨ha, hb⟩ := h
    cases a <;> cases ha
    cases b <;> cases hb
    simp [order?, Comparable, kind]
  · rw [Number.order?_ofValue h, Number.order?_eq_none_iff, Number.toBinary64_ofValue ha,
      Number.toBinary64_ofValue hb, Comparable, or_iff_right h, Decidable.not_and_iff_not_or_not,
      Decidable.not_not, Decidable.not_not]

end Value

namespace BinaryOperator

/-- Whether an operator says that two values are related. -/
def relates (operator : BinaryOperator) (a b : Value) : Bool := (operator.apply a b).isTruthy

/-- The relation that holds between values in an order. -/
def ofOrder : Ordering → BinaryOperator
  | .lt => .less
  | .eq => .equal
  | .gt => .greater

/-- The three relations are those of the three orders. -/
theorem mem_relations_iff {operator : BinaryOperator} :
    operator ∈ [BinaryOperator.less, .equal, .greater] ↔ ∃ order, ofOrder order = operator := by
  constructor
  · intro h
    simp only [List.mem_cons, List.not_mem_nil, or_false] at h
    rcases h with rfl | rfl | rfl
    · exact ⟨.lt, rfl⟩
    · exact ⟨.eq, rfl⟩
    · exact ⟨.gt, rfl⟩
  · rintro ⟨order, rfl⟩
    cases order <;> decide

/-- Each of the three relations holds between scalars in its order. -/
theorem relates_ofOrder {a b : Value} (ha : a.isScalar = true) (hb : b.isScalar = true)
    (order : Ordering) : (ofOrder order).relates a b = (a.order? b == some order) := by
  cases order with
  | lt | gt => rfl
  | eq =>
    rw [Bool.eq_iff_iff, beq_iff_eq, ← Value.looseEquals_iff_order? ha hb]
    rfl

/-- Of two scalars that can be compared one is less than the other one, or they are equal, and no two
of this hold; between other scalars none of it holds. `<=` and `>=` are made of these relations, and
`<` is `>` turned around. -/
theorem relations_agree {a b : Value} (ha : a.isScalar = true) (hb : b.isScalar = true) :
    (a.Comparable b → ∃! operator : BinaryOperator,
      operator ∈ [BinaryOperator.less, .equal, .greater] ∧ operator.relates a b = true) ∧
    (¬a.Comparable b → ∀ operator ∈ [BinaryOperator.less, .equal, .greater],
      operator.relates a b = false) ∧
    BinaryOperator.lessEqual.apply a b =
      .boolean (BinaryOperator.less.relates a b || BinaryOperator.equal.relates a b) ∧
    BinaryOperator.greaterEqual.apply a b =
      .boolean (BinaryOperator.greater.relates a b || BinaryOperator.equal.relates a b) ∧
    BinaryOperator.less.apply a b = BinaryOperator.greater.apply b a := by
  have hrelates := relates_ofOrder ha hb
  have hnone := Value.order?_eq_none_iff ha hb
  refine ⟨fun hcomparable => ?_, fun hincomparable => ?_, ?_, ?_, ?_⟩
  · obtain ⟨order, horder⟩ := Option.ne_none_iff_exists'.mp fun h => hnone.mp h hcomparable
    refine ⟨ofOrder order, ⟨mem_relations_iff.mpr ⟨order, rfl⟩, ?_⟩, ?_⟩
    · rw [hrelates, horder, beq_self_eq_true]
    · rintro other ⟨hmem, hother⟩
      obtain ⟨order', rfl⟩ := mem_relations_iff.mp hmem
      rw [hrelates, horder, beq_iff_eq, Option.some.injEq] at hother
      rw [hother]
  · intro operator hmem
    obtain ⟨order, rfl⟩ := mem_relations_iff.mp hmem
    rw [hrelates, hnone.mpr hincomparable]
    rfl
  · rw [show BinaryOperator.equal = ofOrder .eq from rfl, hrelates]
    rfl
  · rw [show BinaryOperator.equal = ofOrder .eq from rfl, hrelates]
    rfl
  · rw [apply, apply, Value.order?_swap a b]
    cases a.order? b with
    | none => rfl
    | some order => cases order <;> rfl

/-- The greatest integer and the text of the next number have an order, and a truth value and a text
that is no number have none. -/
theorem relations_agree_with_texts :
    ((Value.integer 9223372036854775807).Comparable (.string "9223372036854775808") ∧
      ∃! operator : BinaryOperator, operator ∈ [BinaryOperator.less, .equal, .greater] ∧
        operator.relates (.integer 9223372036854775807) (.string "9223372036854775808") = true) ∧
    (¬(Value.boolean true).Comparable (.string "yes") ∧
      ∀ operator ∈ [BinaryOperator.less, .equal, .greater],
        operator.relates (.boolean true) (.string "yes") = false) := by
  have hcomparable : (Value.integer 9223372036854775807).Comparable
      (.string "9223372036854775808") := .inr (by decide +kernel)
  have hincomparable : ¬(Value.boolean true).Comparable (.string "yes") := by
    rintro (⟨hkind, -⟩ | ⟨-, hnumber⟩)
    · cases hkind
    · exact hnumber (by decide +kernel)
  exact ⟨⟨hcomparable, (relations_agree rfl rfl).1 hcomparable⟩,
    hincomparable, (relations_agree rfl rfl).2.1 hincomparable⟩

end BinaryOperator

end TemplateExpr
