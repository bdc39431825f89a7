import TemplateExpr.Operation

/-!
# Integer arithmetic

An operator between two integers gives the integer that is the exact result whenever there is one
in range, and otherwise what doubles give. One result is missed: the least integer leaves zero when
divided by minus one, but as the quotient is not in range the remainder is taken in doubles, where
it is a negative zero.
-/

namespace TemplateExpr.Arithmetic

/-- The operator that stands for an operation. -/
def operator : Arithmetic → BinaryOperator
  | .add => .add
  | .subtract => .subtract
  | .multiply => .multiply
  | .divide => .divide
  | .remainder => .remainder

/-- Whether a whole number is the exact result of an operation. A quotient has to leave nothing, and a
remainder is smaller than the divisor and has the sign of the dividend. -/
def Gives (operation : Arithmetic) (a b result : Int) : Prop :=
  match operation with
  | .add => result = a + b
  | .subtract => result = a - b
  | .multiply => result = a * b
  | .divide => b ≠ 0 ∧ result * b = a
  | .remainder => (∃ quotient, a = quotient * b + result) ∧ result.natAbs < b.natAbs ∧
      (0 ≤ a → 0 ≤ result) ∧ (a ≤ 0 → result ≤ 0)

/-- The remainder of a truncating division is one. -/
theorem gives_tmod (a : Int) {b : Int} (h : b ≠ 0) : Gives .remainder a b (a.tmod b) := by
  refine ⟨⟨a.tdiv b, (Int.tdiv_mul_add_tmod a b).symm⟩, ?_, Int.tmod_nonneg b, fun hnegative => ?_⟩
  · rw [Int.natAbs_tmod]
    exact Nat.mod_lt _ (Int.natAbs_pos.mpr h)
  · have hopposite := Int.tmod_nonneg b (Int.neg_nonneg_of_nonpos hnegative)
    rw [Int.neg_tmod] at hopposite
    omega

/-- There is one remainder only. -/
theorem eq_of_gives_remainder {a b r s : Int} (hr : Gives .remainder a b r)
    (hs : Gives .remainder a b s) : r = s := by
  obtain ⟨⟨p, hp⟩, hrsmall, hrpositive, hrnegative⟩ := hr
  obtain ⟨⟨q, hq⟩, hssmall, hspositive, hsnegative⟩ := hs
  -- They differ by a multiple of the divisor, and by less than the divisor as their signs agree.
  have hdvd : b ∣ r - s := ⟨q - p, by grind⟩
  have hsmall : (r - s).natAbs < b.natAbs := by omega
  have hzero := Int.eq_zero_of_dvd_of_natAbs_lt_natAbs hdvd hsmall
  omega

/-- The remainder is that of a truncating division. -/
theorem gives_remainder_iff {a b result : Int} :
    Gives .remainder a b result ↔ b ≠ 0 ∧ result = a.tmod b := by
  constructor
  · intro h
    have hdivisor : b ≠ 0 := by
      rintro rfl
      exact absurd h.2.1 (Nat.not_lt_zero _)
    exact ⟨hdivisor, eq_of_gives_remainder h (gives_tmod a hdivisor)⟩
  · rintro ⟨hdivisor, rfl⟩
    exact gives_tmod a hdivisor

/-- The quotient is that of a truncating division that leaves nothing. -/
theorem gives_divide_iff {a b result : Int} :
    Gives .divide a b result ↔ b ≠ 0 ∧ a.tmod b = 0 ∧ result = a.tdiv b := by
  constructor
  · rintro ⟨hdivisor, rfl⟩
    exact ⟨hdivisor, Int.mul_tmod_left result b, (Int.mul_tdiv_cancel result hdivisor).symm⟩
  · rintro ⟨hdivisor, hrest, rfl⟩
    exact ⟨hdivisor, Int.tdiv_mul_cancel (Int.dvd_of_tmod_eq_zero hrest)⟩

/-- An integer is missing only for numbers out of range. -/
theorem isSome_int64?_iff {n : Int} :
    (int64? n).isSome = true ↔ -0x8000000000000000 ≤ n ∧ n < 0x8000000000000000 := by
  unfold int64?
  split <;> simp_all

/-- A quotient of integers is out of range only if the least one is divided by minus one. -/
theorem isSome_int64?_tdiv (a : Int64) {b : Int64} (h : b.toInt ≠ 0) :
    (int64? (a.toInt.tdiv b.toInt)).isSome = true ↔ ¬(a = Int64.minValue ∧ b = -1) := by
  have hlow := a.le_toInt
  have hhigh := a.toInt_lt
  have hleast : a = Int64.minValue ↔ a.toInt = -0x8000000000000000 := Int64.toInt_inj.symm
  have hminus : b = -1 ↔ b.toInt = -1 := Int64.toInt_inj.symm
  rw [isSome_int64?_iff, hleast, hminus]
  by_cases hunit : b.toInt.natAbs = 1
  · rcases Int.natAbs_eq_iff.mp hunit with hone | hone
    · rw [hone, Int.ofNat_one, Int.tdiv_one]
      omega
    · rw [hone, Int.ofNat_one, Int.tdiv_neg, Int.tdiv_one]
      omega
  · have hsize := Int.natAbs_tdiv a.toInt b.toInt
    have hhalf : a.toInt.natAbs.div b.toInt.natAbs ≤ a.toInt.natAbs / 2 :=
      Nat.div_le_div_left (by omega) Nat.two_pos
    omega

/-- An operation on integers has the exact results, except for the remainder whose quotient is out of
range. -/
theorem integers?_eq_some_iff (operation : Arithmetic) (a b r : Int64) :
    operation.integers? a.toInt b.toInt = some r ↔
      operation.Gives a.toInt b.toInt r.toInt ∧
        ¬(operation = .remainder ∧ a = Int64.minValue ∧ b = -1) := by
  cases operation with
  | add | subtract | multiply =>
    simp only [integers?, int64?_eq_some_iff, Gives, reduceCtorEq, false_and, not_false_eq_true,
      and_true]
  | divide =>
    rw [gives_divide_iff, integers?, Option.ite_none_right_eq_some, int64?_eq_some_iff]
    simp only [Bool.and_eq_true, bne_iff_ne, beq_iff_eq, and_assoc, reduceCtorEq, false_and,
      not_false_eq_true, and_true]
  | remainder =>
    rw [gives_remainder_iff, integers?, Option.ite_none_right_eq_some, int64?_eq_some_iff]
    simp only [Bool.and_eq_true, bne_iff_ne, true_and]
    constructor
    · rintro ⟨⟨hdivisor, hquotient⟩, hrest⟩
      exact ⟨⟨hdivisor, hrest⟩, (isSome_int64?_tdiv a hdivisor).mp hquotient⟩
    · rintro ⟨⟨hdivisor, hrest⟩, hquotient⟩
      exact ⟨⟨hdivisor, (isSome_int64?_tdiv a hdivisor).mpr hquotient⟩, hrest⟩

/-- An operator between two integers gives an integer exactly if that is the exact result, the
remainder of the least integer by minus one apart, and otherwise gives what doubles give. -/
theorem apply_integers (operation : Arithmetic) (a b : Int64) :
    (∀ r : Int64, operation.operator.apply (.integer a) (.integer b) = .integer r ↔
      operation.Gives a.toInt b.toInt r.toInt ∧
        ¬(operation = .remainder ∧ a = Int64.minValue ∧ b = -1)) ∧
    ((∃ r : Int64, operation.operator.apply (.integer a) (.integer b) = .integer r) ∨
      operation.operator.apply (.integer a) (.integer b) =
        .float (operation.floats (.ofInt a.toInt) (.ofInt b.toInt))) := by
  have happly : operation.operator.apply (.integer a) (.integer b) =
      (operation.apply (.integer a) (.integer b)).toValue := by
    cases operation <;> rfl
  simp only [happly, Arithmetic.apply, ← integers?_eq_some_iff]
  cases operation.integers? a.toInt b.toInt with
  | some n => simp [Number.toValue]
  | none => simp [Number.toValue]

/-- The least integer leaves zero when it is divided by minus one, and the remainder is a negative zero
among the doubles. -/
theorem apply_remainder_of_least :
    Gives .remainder Int64.minValue.toInt (-1) 0 ∧
      BinaryOperator.remainder.apply (.integer Int64.minValue) (.integer (-1)) =
        .float (.signed true .zero) := by
  refine ⟨gives_tmod _ (by decide), ?_⟩
  have hzero : floats .remainder (.ofInt Int64.minValue.toInt) (.ofInt (Int64.toInt (-1))) =
      .signed true .zero := by decide +kernel
  exact congrArg Value.float hzero

end TemplateExpr.Arithmetic
