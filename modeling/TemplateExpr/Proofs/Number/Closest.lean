import Mathlib.Algebra.Order.Field.Rat
import Mathlib.Tactic.FieldSimp
import Mathlib.Tactic.Positivity
import Mathlib.Tactic.Ring
import TemplateExpr.Proofs.Number.Exactness

/-!
# The closest double

The double of a decimal is the one that is closest to it, and the even one of two that are equally
close. Infinity takes part as the first number that is out of range. Very large and very small decimals
are settled without a division, but they are no exception.
-/

namespace TemplateExpr

namespace Magnitude

/-- The number that a magnitude stands for; for infinity, the first one that is out of range. -/
def toRat (m : Magnitude) : ℚ := m.units / unitsPerOne

/-- No magnitude is closer to the number, and another one is as close only if this one is even. -/
def IsClosest (m : Magnitude) (number : ℚ) : Prop :=
  ∀ other : Magnitude, |m.toRat - number| ≤ |other.toRat - number| ∧
    (other ≠ m → |m.toRat - number| = |other.toRat - number| → m.val % 2 = 0)

/-- The distance of two natural numbers. -/
def gap (a b : Nat) : Nat := (a - b) + (b - a)

/-- Later magnitudes are larger. -/
theorem unitsAt_strictMono {n n' : Nat} (h : n < n') : unitsAt n < unitsAt n' :=
  Nat.lt_of_lt_of_le (unitsAt_lt_succ n) (unitsAt_mono h)

/-- Between two magnitudes a number is rounded to the first one in the lower half, to the second one in
the upper half, and to the even one halfway. -/
theorem nearest_cases {num den n : Nat} (hden : 0 < den) (hlow : unitsAt n * den ≤ num)
    (hhigh : num < unitsAt (n + 1) * den) (hrange : n < 0x7FF0000000000000) :
    let below := num - unitsAt n * den
    let above := unitsAt (n + 1) * den - num
    (below < above ∧ (nearest num den).val = n) ∨
      (above < below ∧ (nearest num den).val = n + 1) ∨
      (below = above ∧ (nearest num den).val = n + n % 2) := by
  dsimp only
  have hval := val_nearest hden hlow hhigh
  have hparts := exponentAt_mul_add n
  have hparity := significandAt_mod_two n
  rw [unitsAt_mul] at hlow
  rw [unitsAt_succ_mul] at hhigh
  rw [unitsAt_mul, unitsAt_succ_mul]
  generalize den * 2 ^ exponentAt n = power at *
  generalize (nearest num den).val = val at *
  generalize exponentAt n * binade = first at *
  generalize significandAt n = significand at *
  obtain ⟨rest, rfl⟩ := Nat.exists_eq_add_of_le hlow
  have hnext : (significand + 1) * power = significand * power + power := Nat.succ_mul _ _
  rw [divideNearest_mul_add (by omega)] at hval
  split at hval
  case isTrue =>
    rw [hparts, Nat.min_eq_left (Nat.le_of_lt hrange)] at hval
    exact .inl ⟨by omega, hval⟩
  case isFalse =>
    split at hval
    case isTrue =>
      rw [← Nat.add_assoc, hparts, Nat.min_eq_left hrange] at hval
      exact .inr (.inl ⟨by omega, hval⟩)
    case isFalse =>
      rw [← Nat.add_assoc, hparts, hparity, Nat.min_eq_left (by omega)] at hval
      exact .inr (.inr ⟨by omega, hval⟩)

/-- A quotient is rounded to the magnitude that it is closest to, in units. -/
theorem gap_nearest_le (num : Nat) {den : Nat} (hden : 0 < den) (other : Magnitude) :
    gap ((nearest num den).units * den) num ≤ gap (other.units * den) num ∧
      (other ≠ nearest num den →
        gap ((nearest num den).units * den) num = gap (other.units * den) num →
          (nearest num den).val % 2 = 0) := by
  obtain ⟨n, hlow, hhigh⟩ := exists_unitsAt_mul_le_lt num hden
  have hlimit : other.val ≤ 0x7FF0000000000000 := Nat.le_of_lt_succ other.isLt
  have hless {a b : Nat} (h : a < b) : unitsAt a * den < unitsAt b * den :=
    Nat.mul_lt_mul_of_pos_right (unitsAt_strictMono h) hden
  have hle {a b : Nat} (h : a ≤ b) : unitsAt a * den ≤ unitsAt b * den :=
    Nat.mul_le_mul_right den (unitsAt_mono h)
  rcases Nat.lt_or_ge n 0x7FF0000000000000 with hrange | hlarge
  · have hcases := nearest_cases hden hlow hhigh hrange
    dsimp only at hcases
    simp only [units, gap, ne_eq, Fin.ext_iff]
    have hfar : other.val ≤ n ∧ unitsAt other.val * den ≤ unitsAt n * den ∨
        n + 1 ≤ other.val ∧ unitsAt (n + 1) * den ≤ unitsAt other.val * den := by
      rcases Nat.lt_or_ge n other.val with hafter | hbefore
      · exact .inr ⟨hafter, hle hafter⟩
      · exact .inl ⟨hbefore, hle hbefore⟩
    rcases hcases with ⟨hhalf, hval⟩ | ⟨hhalf, hval⟩ | ⟨hhalf, hval⟩
    · rw [hval]
      refine ⟨by omega, fun hne _ => ?_⟩
      have hstrict (hbefore : other.val ≤ n) := hless (Nat.lt_of_le_of_ne hbefore hne)
      omega
    · rw [hval]
      refine ⟨by omega, fun hne _ => ?_⟩
      have hstrict (hafter : n + 1 ≤ other.val) : unitsAt (n + 1) * den < unitsAt other.val * den :=
        hless (Nat.lt_of_le_of_ne hafter (Ne.symm hne))
      omega
    · refine ⟨?_, fun _ _ => by omega⟩
      rw [hval]
      rcases Nat.mod_two_eq_zero_or_one n with heven | hodd
      · rw [heven, Nat.add_zero]
        omega
      · rw [hodd]
        omega
  · have hval : (nearest num den).val = 0x7FF0000000000000 := by
      have h := nearest_between hden hlow hhigh
      omega
    have hbelow := hle hlarge
    simp only [units, gap, hval, ne_eq, Fin.ext_iff]
    have hother := hle hlimit
    refine ⟨by omega, fun hne _ => ?_⟩
    have hstrict := hless (Nat.lt_of_le_of_ne hlimit hne)
    omega

/-- The distance of two natural numbers is that of the rational numbers. -/
theorem gap_cast (a b : Nat) : (gap a b : ℚ) = |(a : ℚ) - b| := by
  rcases Nat.le_total a b with h | h
  · have hgap : gap a b = b - a := by
      simp only [gap]
      omega
    rw [hgap, Nat.cast_sub h, abs_sub_comm, abs_of_nonneg (sub_nonneg.mpr (Nat.cast_le.mpr h))]
  · have hgap : gap a b = a - b := by
      simp only [gap]
      omega
    rw [hgap, Nat.cast_sub h, abs_of_nonneg (sub_nonneg.mpr (Nat.cast_le.mpr h))]

/-- Distances from a quotient of units are measured without dividing. -/
theorem abs_toRat_sub (m : Magnitude) (num : Nat) {den : Nat} (hden : 0 < den) :
    |m.toRat - num / (den * unitsPerOne)| =
      gap (m.units * den) num / (den * unitsPerOne) := by
  have hone : (0 : ℚ) < unitsPerOne := Nat.cast_pos.mpr unitsPerOne_pos
  have hparts : (0 : ℚ) < den := Nat.cast_pos.mpr hden
  have hquotient : m.toRat - num / (den * unitsPerOne) =
      ((m.units * den : Nat) - num : ℚ) / (den * unitsPerOne) := by
    rw [toRat, Nat.cast_mul]
    field_simp
  rw [hquotient, gap_cast, abs_div, abs_of_pos (mul_pos hparts hone)]

/-- A quotient is rounded to the magnitude that is closest to it. -/
theorem isClosest_nearest (num : Nat) {den : Nat} (hden : 0 < den) :
    (nearest num den).IsClosest (num / (den * unitsPerOne)) := by
  intro other
  obtain ⟨hle, heven⟩ := gap_nearest_le num hden other
  have hone : (0 : ℚ) < unitsPerOne := Nat.cast_pos.mpr unitsPerOne_pos
  have hparts : (0 : ℚ) < den := Nat.cast_pos.mpr hden
  have hpositive : (0 : ℚ) < den * unitsPerOne := mul_pos hparts hone
  rw [abs_toRat_sub _ _ hden, abs_toRat_sub _ _ hden, div_le_div_iff_of_pos_right hpositive,
    div_left_inj' (ne_of_gt hpositive), Nat.cast_le, Nat.cast_inj]
  exact ⟨hle, heven⟩

/-- Less than half a unit is rounded to zero. -/
theorem nearest_eq_zero {num den : Nat} (h : 2 * num < den) : nearest num den = zero := by
  have hdiv : num / den = 0 := Nat.div_eq_of_lt (by omega)
  have hround : divideNearest .toEven (0 * den + num) den = 0 := by
    rw [divideNearest_mul_add (by omega), if_pos h]
  rw [Nat.zero_mul, Nat.zero_add] at hround
  simp [nearest, hdiv, hround, zero]

/-- What is as large as infinity is rounded to it. -/
theorem nearest_eq_infinity {num den : Nat} (hden : 0 < den)
    (h : infinity.units * den ≤ num) : nearest num den = infinity := by
  obtain ⟨n, hlow, hhigh⟩ := exists_unitsAt_mul_le_lt num hden
  have hlarge : 0x7FF0000000000000 ≤ n := by
    refine Nat.le_of_not_lt fun hless => ?_
    have hmore : unitsAt (n + 1) * den ≤ infinity.units * den :=
      Nat.mul_le_mul_right den (unitsAt_mono hless)
    omega
  have hval := (nearest_between hden hlow hhigh).1
  rw [Nat.min_eq_right hlarge] at hval
  exact Fin.ext (Nat.le_antisymm (Nat.le_of_lt_succ (nearest num den).isLt) hval)

/-- Infinity is not more than a power of ten that is out of range. -/
theorem units_infinity_le {tens : Nat} (h : 400 < tens) :
    infinity.units ≤ 10 ^ tens * unitsPerOne := by
  obtain ⟨places, hplaces, hone⟩ := unitsPerOne_eq
  obtain ⟨most, hmost, hhigh⟩ := high_neighbourhood_le infinity
  calc infinity.units ≤ infinity.neighbourhood.high := Nat.le_add_right _ _
    _ ≤ 2 ^ most := hhigh
    _ ≤ 2 ^ (3 * tens + places) := Nat.pow_le_pow_right (by decide) (by omega)
    _ = 2 ^ (3 * tens) * unitsPerOne := by rw [Nat.pow_add, hone]
    _ ≤ 10 ^ tens * unitsPerOne :=
        Nat.mul_le_mul_right _ (two_pow_le_ten_pow (Nat.le_refl _))

/-- A decimal that is out of range is less than half a unit. -/
theorem two_mul_units_lt {digits tens : Nat} (h : 400 + digits.log2 < tens) :
    2 * (digits * unitsPerOne) < 10 ^ tens := by
  obtain ⟨places, hplaces, hone⟩ := unitsPerOne_eq
  calc 2 * (digits * unitsPerOne) < 2 * (2 ^ (digits.log2 + 1) * unitsPerOne) :=
        Nat.mul_lt_mul_of_pos_left
          (Nat.mul_lt_mul_of_pos_right Nat.lt_log2_self unitsPerOne_pos) (by decide)
    _ = 2 ^ (1 + (digits.log2 + 1 + places)) := by
        rw [hone, Nat.pow_add 2 1, Nat.pow_add 2 (digits.log2 + 1), Nat.pow_one]
    _ ≤ 10 ^ tens := two_pow_le_ten_pow (by omega)

end Magnitude

namespace Binary64

open Magnitude

/-- Decimals that are out of range are no exception to the rounding of others. -/
theorem ofDecimal_eq (negative : Bool) (digits : Nat) (exponent : Int) :
    ofDecimal negative digits exponent =
      ofUnits negative (digits * Nat.pow 10 exponent.toNat * unitsPerOne)
        (Nat.pow 10 (-exponent).toNat) := by
  unfold ofDecimal ofUnits
  split
  case isTrue hsmall =>
    simp only [Bool.or_eq_true, decide_eq_true_eq] at hsmall
    rcases hsmall with rfl | hsmall
    · rw [Nat.zero_mul, Nat.zero_mul, nearest_eq_zero (Nat.pow_pos (by decide))]
    · have hwhole : exponent.toNat = 0 := by omega
      have hone : digits * Nat.pow 10 0 = digits := Nat.mul_one digits
      have hless : 2 * (digits * unitsPerOne) < Nat.pow 10 (-exponent).toNat :=
        two_mul_units_lt (by omega)
      rw [hwhole, hone, nearest_eq_zero hless]
  case isFalse hsmall =>
    simp only [Bool.or_eq_true, decide_eq_true_eq, not_or] at hsmall
    split
    case isTrue hlarge =>
      have hparts : (-exponent).toNat = 0 := by omega
      have hone : Nat.pow 10 0 = 1 := rfl
      have hsize : Magnitude.infinity.units * 1 ≤
          digits * Nat.pow 10 exponent.toNat * unitsPerOne := by
        rw [Nat.mul_one, Nat.mul_assoc]
        exact Nat.le_trans (units_infinity_le (by omega))
          (Nat.le_mul_of_pos_left _ (Nat.pos_of_ne_zero hsmall.1))
      rw [hparts, hone, nearest_eq_infinity Nat.one_pos hsize]
    case isFalse => rfl

/-- The double of a decimal is the one that is closest to it. -/
theorem ofDecimal_isClosest (negative : Bool) (digits : Nat) (exponent : Int) :
    ∃ m : Magnitude, ofDecimal negative digits exponent = .signed negative m ∧
      m.IsClosest (digits * 10 ^ exponent) := by
  refine ⟨_, ofDecimal_eq negative digits exponent, ?_⟩
  have hvalue : (digits * 10 ^ exponent : ℚ) =
      (digits * Nat.pow 10 exponent.toNat * unitsPerOne : Nat) /
        ((Nat.pow 10 (-exponent).toNat : Nat) * unitsPerOne) := by
    have hone : (unitsPerOne : ℚ) ≠ 0 := Nat.cast_ne_zero.mpr (Nat.ne_of_gt unitsPerOne_pos)
    rw [Nat.cast_mul, mul_div_mul_right _ _ hone, Nat.pow_eq, Nat.pow_eq]
    obtain ⟨n, rfl | rfl⟩ := exponent.eq_nat_or_neg
    · have hparts : (-(n : ℤ)).toNat = 0 := by omega
      rw [Int.toNat_natCast, hparts, zpow_natCast]
      push_cast
      rw [div_one]
    · have hwhole : (-(n : ℤ)).toNat = 0 := by omega
      rw [hwhole, neg_neg, Int.toNat_natCast, zpow_neg, zpow_natCast]
      push_cast
      rw [mul_one, div_eq_mul_inv]
  rw [hvalue]
  exact isClosest_nearest _ (Nat.pow_pos (by decide))

end Binary64

end TemplateExpr
