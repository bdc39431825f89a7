import TemplateExpr.Proofs.Number.Underflow
import TemplateExpr.Proofs.Number.PowersOfTen

/-!
# Whole doubles and their decimals

The double nearest to an integer is a whole number, and it is this integer exactly if the integer has at
most 53 bits before its final zeros. The decimal of a whole double that is not too large is exact and has
no places: the power of two goes into the coefficient, and nothing has to be rounded.
-/

namespace TemplateExpr

namespace Magnitude

/-- Whole numbers up to `2 ^ 94` are not infinite. -/
theorem ne_infinity_of_units_le {m : Magnitude} {k : Nat} (hk : k ≤ 2 ^ 94)
    (h : m.units = k * unitsPerOne) : m ≠ infinity := by
  refine ne_infinity_of_units_lt ?_
  rw [h]
  exact Nat.lt_of_le_of_lt (Nat.mul_le_mul_right _ hk) lt_units_infinity

/-- From `2 ^ 53` on every magnitude is a whole number. -/
theorem unitsPerOne_dvd_units {m : Magnitude} (h : 2 * binade * unitsPerOne ≤ m.units) :
    unitsPerOne ∣ m.units := by
  obtain ⟨places, hplaces, hone⟩ := unitsPerOne_eq
  have hexponent : places ≤ exponentAt m.val := by
    refine Nat.le_of_not_lt fun hless => ?_
    rw [hone, units, unitsAt_eq] at h
    have hmore := Nat.mul_lt_mul_of_lt_of_le (significandAt_lt m.val)
      (Nat.pow_le_pow_right Nat.two_pos (Nat.le_of_lt hless)) (Nat.two_pow_pos places)
    omega
  rw [hone, units, unitsAt_eq]
  exact Nat.dvd_mul_left_of_dvd (Nat.pow_dvd_pow 2 hexponent) _

/-- The double of a whole number up to `2 ^ 94` is a whole number up to there. -/
theorem exists_units_nearest {n : Nat} (h : n ≤ 2 ^ 94) :
    ∃ k ≤ 2 ^ 94, (nearest (n * unitsPerOne) 1).units = k * unitsPerOne := by
  suffices hdvd : unitsPerOne ∣ (nearest (n * unitsPerOne) 1).units by
    obtain ⟨k, hk⟩ := hdvd
    have hle := units_nearest_le h
    rw [hk, Nat.mul_comm unitsPerOne] at hle ⊢
    exact ⟨k, Nat.le_of_mul_le_mul_right hle unitsPerOne_pos, rfl⟩
  have hrange := lt_units_infinity
  rcases Nat.le_total n (2 * binade) with hsmall | hlarge
  · obtain ⟨number, hnumber⟩ := exists_unitsAt_eq hsmall
    have hfinite : n * unitsPerOne < infinity.units :=
      Nat.lt_of_le_of_lt (Nat.mul_le_mul_right _ h) hrange
    rw [units_nearest hnumber hfinite]
    exact Nat.dvd_mul_left unitsPerOne n
  · -- From `2 ^ 53` on every magnitude is a multiple of one.
    obtain ⟨number, hnumber⟩ := exists_unitsAt_eq (Nat.le_refl (2 * binade))
    have hfinite : 2 * binade * unitsPerOne < infinity.units :=
      Nat.lt_of_le_of_lt (Nat.mul_le_mul_right _ (by decide)) hrange
    have hmono : (nearest (2 * binade * unitsPerOne) 1).units ≤ (nearest (n * unitsPerOne) 1).units :=
      unitsAt_mono (nearest_mono Nat.one_pos (Nat.mul_le_mul_right _ hlarge))
    rw [units_nearest hnumber hfinite] at hmono
    exact unitsPerOne_dvd_units hmono

/-- A whole number is the size of a double exactly if it has at most 53 bits before its final zeros. -/
theorem units_nearest_eq_iff {n : Nat} (h : n ≤ 2 ^ 94) :
    (nearest (n * unitsPerOne) 1).units = n * unitsPerOne ↔
      ∃ bits zeros, n = bits * 2 ^ zeros ∧ bits ≤ 2 ^ 53 := by
  obtain ⟨places, hplaces, hone⟩ := unitsPerOne_eq
  have hfinite := Nat.lt_of_le_of_lt (Nat.mul_le_mul_right unitsPerOne h) lt_units_infinity
  constructor
  · generalize nearest (n * unitsPerOne) 1 = m
    intro hunits
    have hbits : significandAt m.val < 2 ^ 53 := significandAt_lt m.val
    rw [units, unitsAt_eq, hone] at hunits
    rcases Nat.le_total places (exponentAt m.val) with hmany | hfew
    · refine ⟨significandAt m.val, exponentAt m.val - places, ?_, Nat.le_of_lt hbits⟩
      rw [← Nat.sub_add_cancel hmany, Nat.pow_add, ← Nat.mul_assoc] at hunits
      exact (Nat.eq_of_mul_eq_mul_right (Nat.two_pow_pos places) hunits).symm
    · refine ⟨n, 0, (Nat.mul_one n).symm, ?_⟩
      rw [← Nat.sub_add_cancel hfew, Nat.pow_add, ← Nat.mul_assoc] at hunits
      have hsame := Nat.eq_of_mul_eq_mul_right (Nat.two_pow_pos _) hunits
      have hle := Nat.le_mul_of_pos_right n (Nat.two_pow_pos (places - exponentAt m.val))
      omega
  · rintro ⟨bits, zeros, rfl, hbits⟩
    obtain ⟨number, hnumber⟩ := exists_unitsAt_mul_two_pow hbits zeros
    exact units_nearest hnumber hfinite

end Magnitude

/-- The double nearest to an integer is a whole number of the same sign, and it is the integer exactly if
this has at most 53 bits before its final zeros. -/
theorem Binary64.exists_ofInt {n : Int} (h : n.natAbs ≤ 2 ^ 94) :
    ∃ (m : Magnitude) (k : Nat), ofInt n = .signed (n < 0) m ∧ k ≤ 2 ^ 94 ∧
      m.units = k * Magnitude.unitsPerOne ∧ (n < 0 → k ≠ 0) ∧
      (k = n.natAbs ↔ ∃ bits zeros, n.natAbs = bits * 2 ^ zeros ∧ bits ≤ 2 ^ 53) := by
  obtain ⟨k, hk, hunits⟩ := Magnitude.exists_units_nearest h
  refine ⟨_, k, rfl, hk, hunits, fun hnegative hzero => ?_, ?_⟩
  · have hmono : (Magnitude.nearest Magnitude.unitsPerOne 1).units ≤
        (Magnitude.nearest (n.natAbs * Magnitude.unitsPerOne) 1).units :=
      Magnitude.unitsAt_mono
        (Magnitude.nearest_mono Nat.one_pos (Nat.le_mul_of_pos_left _ (by omega)))
    have hone := Magnitude.unitsPerOne_pos
    rw [hunits, Magnitude.units_one, hzero, Nat.zero_mul] at hmono
    omega
  · rw [← Magnitude.units_nearest_eq_iff h, hunits,
      Nat.mul_left_inj (Nat.ne_of_gt Magnitude.unitsPerOne_pos)]

namespace Decimal

open Magnitude

/-- Powers of two that a coefficient is a multiple of are moved into the power of ten. -/
theorem raiseFives_mul (fives m : Nat) (tens : Int) :
    raiseFives fives (m * 2 ^ fives) tens = (m, tens + fives) := by
  induction fives generalizing tens with
  | zero => simp [raiseFives]
  | succ fives ih =>
    have heven : m * 2 ^ (fives + 1) = 2 * (m * 2 ^ fives) := by ring
    rw [raiseFives, heven, if_pos (Nat.mul_mod_right 2 _), Nat.mul_div_cancel_left _ Nat.two_pos, ih]
    congr 1
    omega

/-- Powers of two that the coefficient has room for are multiplied in. -/
theorem lowerFives_mul {fives m : Nat} (tens : Int) (h : m * 2 ^ fives < bound) :
    lowerFives fives m tens = (m * 2 ^ fives, tens - fives) := by
  induction fives generalizing m tens with
  | zero => simp [lowerFives]
  | succ fives ih =>
    have hdouble : m * 2 ^ (fives + 1) = 2 * m * 2 ^ fives := by ring
    rw [hdouble] at h ⊢
    have hroom : m < 0x800000000000000000000000 := by
      have hle := Nat.le_mul_of_pos_right (2 * m) (Nat.two_pow_pos fives)
      simp only [bound] at h
      omega
    rw [lowerFives, if_pos hroom, ih (tens - 1) h]
    congr 1
    omega

/-- A coefficient without a power of ten is kept. -/
theorem ofPower?_zero (negative : Bool) {m : Nat} (h : m ≠ 0) :
    ofPower? negative m 0 = some ⟨negative, m, 0⟩ := by
  simp [ofPower?, dropPlaces, dropExcess, normalize, dropZeros, h]

/-- The decimal of a whole double is exact and has no places. -/
theorem ofBinary64?_of_units (negative : Bool) {m : Magnitude} {k : Nat} (hk : k ≤ 2 ^ 94)
    (h : m.units = k * unitsPerOne) :
    ofBinary64? (.signed negative m) = some ⟨negative, k, 0⟩ := by
  have hfinite := ne_infinity_of_units_le hk h
  by_cases hpositive : m = .zero
  · have hzero : k = 0 := by
      rw [hpositive] at h
      exact (Nat.mul_eq_zero.mp h.symm).resolve_right (Nat.ne_of_gt unitsPerOne_pos)
    rw [hpositive, hzero]
    rfl
  obtain ⟨places, hplaces, hone⟩ := unitsPerOne_eq
  rw [units, unitsAt_eq, hone] at h
  have hsome : k ≠ 0 := by
    rintro rfl
    rw [Nat.zero_mul, Nat.mul_eq_zero] at h
    exact h.elim (significandAt_ne_zero hpositive) (Nat.ne_of_gt (Nat.two_pow_pos _))
  rw [ofBinary64?_signed negative hfinite hpositive, ← hplaces]
  split
  case isTrue hfew =>
    have hsignificand : significandAt m.val = k * 2 ^ (places - exponentAt m.val) := by
      refine Nat.eq_of_mul_eq_mul_right (Nat.two_pow_pos (exponentAt m.val)) ?_
      rw [h, Nat.mul_assoc, ← Nat.pow_add, Nat.sub_add_cancel hfew]
    have htens : (exponentAt m.val : Int) - 1074 + (places - exponentAt m.val : Nat) = 0 := by omega
    rw [hsignificand, raiseFives_mul, htens]
    exact ofPower?_zero negative hsome
  case isFalse hmany =>
    have hlarge : significandAt m.val * 2 ^ (exponentAt m.val - places) = k := by
      refine Nat.eq_of_mul_eq_mul_right (Nat.two_pow_pos places) ?_
      rw [← h, Nat.mul_assoc, ← Nat.pow_add, Nat.sub_add_cancel (Nat.le_of_not_le hmany)]
    have htens : (exponentAt m.val : Int) - 1074 - (exponentAt m.val - places : Nat) = 0 := by omega
    have hroom : significandAt m.val * 2 ^ (exponentAt m.val - places) < bound := by
      rw [hlarge]
      exact Nat.lt_of_le_of_lt hk (by decide)
    rw [lowerFives_mul _ hroom, hlarge, htens]
    exact ofPower?_zero negative hsome

/-- The largest double with a decimal is not kept: its coefficient has to be divided by five. -/
example : ofBinary64? (.ofInt (2 ^ 96)) = some ⟨false, 79228162514264337593543950330, 0⟩ := by
  decide +kernel

end Decimal

end TemplateExpr
