import TemplateExpr.Proofs.Number.Order
import TemplateExpr.Proofs.Number.Shortest

/-!
# Integers that are doubles

Every integer up to `2 ^ 53` is a double, so that rounding keeps such integers apart. Larger integers
may share a double, but none of them is rounded to one that stands for a smaller integer.
-/

namespace TemplateExpr

namespace Magnitude

/-- The size of a magnitude is rounded to that magnitude, if it is in range. -/
theorem val_nearest_unitsAt (n : Nat) :
    (nearest (unitsAt n) 1).val = min n 0x7FF0000000000000 := by
  have hround : divideNearest .toEven (unitsAt n) (1 * 2 ^ exponentAt n) = significandAt n := by
    have hpositive := Nat.two_pow_pos (exponentAt n)
    have h := divideNearest_mul_add (n := significandAt n) hpositive
    rw [Nat.add_zero, Nat.mul_zero, if_pos hpositive] at h
    rw [Nat.one_mul, unitsAt_eq, h]
  have hval := val_nearest Nat.one_pos (Nat.le_of_eq (Nat.mul_one (unitsAt n)))
    (by rw [Nat.mul_one]; exact unitsAt_lt_succ n)
  rw [hround, exponentAt_mul_add] at hval
  exact hval

/-- The power of two that a small magnitude is counted in divides one. -/
theorem two_pow_exponentAt_dvd {n : Nat} (h : exponentAt n ≤ 1074) :
    2 ^ exponentAt n ∣ unitsPerOne := by
  obtain ⟨places, hplaces, hone⟩ := unitsPerOne_eq
  rw [hone]
  exact Nat.pow_dvd_pow 2 (hplaces ▸ h)

/-- Other magnitudes have sizes from `2 ^ 53` on. -/
theorem le_unitsAt {n : Nat} (h : 1074 < exponentAt n) : 2 * binade * unitsPerOne ≤ unitsAt n := by
  obtain ⟨places, hplaces, hone⟩ := unitsPerOne_eq
  have hsignificand := le_significandAt (Nat.zero_lt_of_lt h)
  rw [← hplaces] at h
  calc 2 * binade * unitsPerOne = binade * 2 ^ (places + 1) := by rw [hone]; grind
    _ ≤ significandAt n * 2 ^ exponentAt n :=
      Nat.mul_le_mul hsignificand (Nat.pow_le_pow_right Nat.two_pos h)
    _ = unitsAt n := (unitsAt_eq n).symm

/-- A whole number up to `2 ^ 53` is the size of a magnitude. -/
theorem exists_unitsAt_eq {a : Nat} (h : a ≤ 2 * binade) :
    ∃ n, unitsAt n = a * unitsPerOne := by
  obtain ⟨n, hlow, hhigh⟩ := exists_unitsAt_le_lt (a * unitsPerOne)
  refine ⟨n, ?_⟩
  rcases Nat.lt_or_ge 1074 (exponentAt n) with hlarge | hsmall
  · exact Nat.le_antisymm hlow (Nat.le_trans (Nat.mul_le_mul_right unitsPerOne h) (le_unitsAt hlarge))
  · -- Sizes between two magnitudes are no multiples of their power of two.
    obtain ⟨k, hk⟩ : 2 ^ exponentAt n ∣ a * unitsPerOne :=
      Nat.dvd_mul_left_of_dvd (two_pow_exponentAt_dvd hsmall) a
    rw [hk, Nat.mul_comm, unitsAt_eq] at hlow ⊢
    rw [hk, Nat.mul_comm, unitsAt_succ] at hhigh
    have hle := Nat.le_of_mul_le_mul_right hlow (Nat.two_pow_pos _)
    have hlt := Nat.lt_of_mul_lt_mul_right hhigh
    rw [Nat.le_antisymm hle (Nat.le_of_lt_succ hlt)]

/-- Rounding keeps whole numbers up to `2 ^ 53` apart. -/
theorem nearest_lt {a b : Nat} (h : a < b) (hb : b ≤ 2 * binade) :
    (nearest (a * unitsPerOne) 1).val < (nearest (b * unitsPerOne) 1).val := by
  obtain ⟨m, hm⟩ := exists_unitsAt_eq (Nat.le_trans (Nat.le_of_lt h) hb)
  obtain ⟨n, hn⟩ := exists_unitsAt_eq hb
  have hless : m < n := by
    refine Nat.lt_of_not_le fun hge => ?_
    have hmono := unitsAt_mono hge
    rw [hm, hn] at hmono
    exact Nat.not_le.mpr h (Nat.le_of_mul_le_mul_right hmono unitsPerOne_pos)
  have hrange : m < 0x7FF0000000000000 := by
    refine Nat.lt_of_not_le fun hge => ?_
    have hlarge : 1074 < exponentAt m := by
      simp only [exponentAt, binade]
      omega
    have hsize := le_unitsAt hlarge
    rw [hm] at hsize
    exact Nat.not_le.mpr (Nat.lt_of_lt_of_le h hb)
      (Nat.le_of_mul_le_mul_right hsize unitsPerOne_pos)
  rw [← hm, ← hn, val_nearest_unitsAt, val_nearest_unitsAt]
  omega

end Magnitude

namespace Binary64

/-- Rounding keeps integers up to `2 ^ 53` apart. -/
theorem placeOfInt_lt {m n : Int} (h : m < n) (hm : m.natAbs ≤ 2 * Magnitude.binade)
    (hn : n.natAbs ≤ 2 * Magnitude.binade) : placeOfInt m < placeOfInt n := by
  simp only [placeOfInt, place, decide_eq_true_eq]
  by_cases hnegative : n < 0
  · have hsizes := Magnitude.nearest_lt (by omega : n.natAbs < m.natAbs) hm
    rw [if_pos hnegative, if_pos (Int.lt_trans h hnegative)]
    omega
  · rw [if_neg hnegative]
    by_cases hless : m < 0
    · have hsizes := Magnitude.nearest_lt (by omega : 0 < m.natAbs) hm
      rw [if_pos hless]
      omega
    · have hsizes := Magnitude.nearest_lt (by omega : m.natAbs < n.natAbs) hn
      rw [if_neg hless]
      omega

/-- No other integer is rounded to the double of an integer below `2 ^ 53`. -/
theorem placeOfInt_inj {m n : Int} (hm : m.natAbs < 2 * Magnitude.binade) :
    placeOfInt m = placeOfInt n ↔ m = n := by
  refine ⟨fun h => ?_, fun h => h ▸ rfl⟩
  rcases Int.lt_trichotomy m n with hless | hsame | hmore
  · have hnext := placeOfInt_lt (Int.lt_succ m) (Nat.le_of_lt hm) (by omega)
    have hmono := placeOfInt_mono (Int.add_one_le_of_lt hless)
    omega
  · exact hsame
  · have hprevious := placeOfInt_lt (by omega : m - 1 < m) (by omega) (Nat.le_of_lt hm)
    have hmono := placeOfInt_mono (Int.le_sub_one_of_lt hmore)
    omega

/-- An integer below `2 ^ 53` is the same double as another integer only if it is that integer. -/
theorem same_ofInt {m n : Int} (hm : m.natAbs < 2 * Magnitude.binade) :
    (ofInt m).same (ofInt n) = true ↔ m = n := by
  rw [same_iff, ← placeOfInt_inj hm]
  simp only [place?_ofInt, Option.some.injEq, exists_eq_left', eq_comm (a := placeOfInt n)]

end Binary64

end TemplateExpr
