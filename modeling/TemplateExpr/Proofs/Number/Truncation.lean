import TemplateExpr.Proofs.Number.PowersOfTen

/-!
# Cutting off fractions

The whole number left of a double without its fraction is there for finite doubles only. What stands in
for it otherwise is zero for what is not a number, and for the infinities it is far out of the range of
integers.
-/

namespace TemplateExpr.Binary64

open Magnitude

variable {x : Binary64} {n : Int}

/-- The whole number left of a finite double when its fraction is cut off. -/
def whole? (x : Binary64) : Option Int := x.units?.map (·.tdiv unitsPerOne)

/-- The whole number of a finite double is found by dividing its size. -/
theorem truncate_of_whole? (h : x.whole? = some n) : x.truncate = n := by
  obtain ⟨units, hunits, rfl⟩ := Option.map_eq_some_iff.mp h
  cases x with
  | nan => cases hunits
  | signed negative m =>
    obtain ⟨-, hunits⟩ := Option.ite_none_left_eq_some.mp hunits
    cases hunits
    cases negative with
    | false => exact Int.ofNat_tdiv m.units unitsPerOne
    | true =>
      change -((m.units / unitsPerOne : Nat) : Int) = (-(m.units : Int)).tdiv unitsPerOne
      rw [Int.neg_tdiv, Int.ofNat_tdiv]

/-- What has no whole number is infinite or not a number. -/
theorem whole?_eq_none_iff :
    x.whole? = none ↔ x = .nan ∨ x = .infinity ∨ x = infinity.neg := by
  rw [whole?, Option.map_eq_none_iff]
  cases x with
  | nan => simp [units?]
  | signed negative m => cases negative <;> simp [units?, infinity, neg]

/-- The finite doubles are those that have a whole number. -/
theorem isFinite_eq : x.isFinite = x.whole?.isSome := Option.isSome_map.symm

/-- The infinities are far out of the range of integers. -/
theorem two_pow_le_truncate_infinity : 2 ^ 94 ≤ infinity.truncate := by
  have hmany : 2 ^ 94 ≤ Magnitude.infinity.units / unitsPerOne :=
    (Nat.le_div_iff_mul_le unitsPerOne_pos).mpr (Nat.le_of_lt lt_units_infinity)
  exact Int.ofNat_le.mpr hmany

/-- Less than zero is what has a minus sign and is not zero. -/
theorem order_zero_eq_lt_iff :
    x.order .zero = some .lt ↔ ∃ m, x = .signed true m ∧ m ≠ .zero := by
  cases x with
  | nan => simp [order]
  | signed negative m =>
    have hplace : (signed negative m).order .zero = some .lt ↔ place negative m < 0 := by
      rw [← Int.compare_eq_lt]
      exact Option.some_inj
    have hzero : m ≠ .zero ↔ 0 < m.val := by rw [Nat.pos_iff_ne_zero, ne_eq, Fin.ext_iff]; rfl
    rw [hplace, place]
    cases negative <;> simp [hzero]

/-- What is less than zero is not above zero without its fraction. -/
theorem truncate_nonpos (hless : x.order .zero = some .lt) : x.truncate ≤ 0 := by
  obtain ⟨m, rfl, -⟩ := order_zero_eq_lt_iff.mp hless
  exact Int.neg_nonpos_of_nonneg (Int.natCast_nonneg (m.units / unitsPerOne))

/-- What is not less than zero is not below zero without its fraction. -/
theorem truncate_nonneg (hless : x.order .zero ≠ some .lt) : 0 ≤ x.truncate := by
  cases x with
  | nan => exact Int.le_refl 0
  | signed negative m =>
    cases negative with
    | false => exact Int.natCast_nonneg (m.units / unitsPerOne)
    | true =>
      have hzero : m = .zero := by
        by_contra hpositive
        exact hless (order_zero_eq_lt_iff.mpr ⟨m, rfl, hpositive⟩)
      have hunits : m.units / unitsPerOne = 0 :=
        Nat.div_eq_of_lt (Nat.lt_of_le_of_lt (Nat.le_of_eq (congrArg units hzero)) unitsPerOne_pos)
      change 0 ≤ -((m.units / unitsPerOne : Nat) : Int)
      rw [hunits]
      exact Int.le_refl 0

end TemplateExpr.Binary64
