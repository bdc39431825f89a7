import Mathlib.Algebra.Group.Nat.Defs
import TemplateExpr.Number.Shortest

/-!
# Where numbers are rounded to

Magnitudes are evenly spaced between powers of two, so that a magnitude is a significand times a
power of two and the next one is the next significand times the same power. A number between two
magnitudes is rounded to the nearer one, which is the even one if both are as near.
-/

namespace TemplateExpr

/-- A quotient is rounded by what is left of the numerator; a half goes to the even number. -/
theorem divideNearest_mul_add {n rest den : Nat} (h : rest < den) :
    divideNearest .toEven (n * den + rest) den =
      if 2 * rest < den then n else if den < 2 * rest then n + 1 else n + n % 2 := by
  have hden : 0 < den := by omega
  have hdiv : (n * den + rest) / den = n := by
    rw [Nat.mul_comm, Nat.mul_add_div hden, Nat.div_eq_of_lt h, Nat.add_zero]
  have hmod : (n * den + rest) % den = rest := by
    rw [Nat.mul_comm, Nat.mul_add_mod, Nat.mod_eq_of_lt h]
  simp only [divideNearest, hdiv, hmod]

/-- A quotient in the lower half between two whole numbers is rounded down. -/
theorem divideNearest_down {num den n : Nat} (hden : 0 < den) (hfloor : n * den ≤ num)
    (hhalf : 2 * num ≤ (2 * n + 1) * den) (htie : 2 * num = (2 * n + 1) * den → n % 2 = 0) :
    divideNearest .toEven num den = n := by
  have hdouble : (2 * n + 1) * den = 2 * (n * den) + den := by grind
  obtain ⟨rest, rfl⟩ := Nat.exists_eq_add_of_le hfloor
  rw [divideNearest_mul_add (by omega)]
  by_cases hless : 2 * rest < den
  · rw [if_pos hless]
  · have heven := htie (by omega)
    rw [if_neg hless, if_neg (by omega), heven, Nat.add_zero]

/-- A quotient in the upper half between two whole numbers is rounded up. -/
theorem divideNearest_up {num den n : Nat} (hnext : num < (n + 1) * den)
    (hhalf : (2 * n + 1) * den ≤ 2 * num) (htie : 2 * num = (2 * n + 1) * den → n % 2 = 1) :
    divideNearest .toEven num den = n + 1 := by
  have hdouble : (2 * n + 1) * den = 2 * (n * den) + den := by grind
  have hsucc : (n + 1) * den = n * den + den := by grind
  obtain ⟨rest, rfl⟩ := Nat.exists_eq_add_of_le (by omega : n * den ≤ num)
  rw [divideNearest_mul_add (by omega), if_neg (by omega)]
  by_cases hmore : den < 2 * rest
  · rw [if_pos hmore]
  · have hodd := htie (by omega)
    rw [if_neg hmore, hodd]

namespace Magnitude

/-- The power of two that a magnitude is a multiple of. -/
def exponentAt (number : Nat) : Nat := number / binade - 1

/-- How often a magnitude contains its power of two. -/
def significandAt (number : Nat) : Nat := number - exponentAt number * binade

/-- The magnitudes are numbered by their powers of two, then by their significands. -/
theorem exponentAt_mul_add (n : Nat) : exponentAt n * binade + significandAt n = n := by
  simp only [significandAt, exponentAt, binade]
  omega

/-- Significands have at most 53 bits. -/
theorem significandAt_lt (n : Nat) : significandAt n < 2 * binade := by
  simp only [significandAt, exponentAt, binade]
  omega

/-- Significands have 53 bits unless the power of two is the least one. -/
theorem le_significandAt {n : Nat} (h : 0 < exponentAt n) : binade ≤ significandAt n := by
  simp only [significandAt, exponentAt, binade] at h ⊢
  omega

/-- A magnitude is even if its significand is. -/
theorem significandAt_mod_two (n : Nat) : significandAt n % 2 = n % 2 := by
  simp only [significandAt, exponentAt, binade]
  omega

/-- The size of a magnitude is its significand times its power of two. -/
theorem unitsAt_eq (n : Nat) : unitsAt n = significandAt n * 2 ^ exponentAt n := by
  unfold unitsAt
  split
  case isTrue hsmall =>
    have hexponent : exponentAt n = 0 := by
      simp only [exponentAt, binade] at hsmall ⊢
      omega
    simp [significandAt, hexponent]
  case isFalse hlarge =>
    have hsignificand : significandAt n = binade + n % binade := by
      simp only [significandAt, exponentAt, binade] at hlarge ⊢
      omega
    rw [hsignificand]
    rfl

/-- The next magnitude has the next significand, as a multiple of the same power of two. -/
theorem unitsAt_succ (n : Nat) : unitsAt (n + 1) = (significandAt n + 1) * 2 ^ exponentAt n := by
  rw [unitsAt_eq]
  by_cases hsame : exponentAt (n + 1) = exponentAt n
  · have hsignificand : significandAt (n + 1) = significandAt n + 1 := by
      have hhere := exponentAt_mul_add n
      have hnext := exponentAt_mul_add (n + 1)
      rw [hsame] at hnext
      omega
    rw [hsame, hsignificand]
  · have hexponent : exponentAt (n + 1) = exponentAt n + 1 := by
      simp only [exponentAt, binade] at hsame ⊢
      omega
    have hsignificand : significandAt (n + 1) = binade ∧ significandAt n + 1 = 2 * binade := by
      simp only [significandAt, exponentAt, binade] at hsame ⊢
      omega
    rw [hexponent, hsignificand.1, hsignificand.2, Nat.pow_succ]
    grind

/-- Sizes grow. -/
theorem unitsAt_lt_succ (n : Nat) : unitsAt n < unitsAt (n + 1) := by
  rw [unitsAt_succ, unitsAt_eq]
  exact Nat.mul_lt_mul_of_pos_right (Nat.lt_succ_self _) (Nat.two_pow_pos _)

/-- The size of a magnitude is a multiple of its power of two. -/
theorem unitsAt_mul (n den : Nat) :
    unitsAt n * den = significandAt n * (den * 2 ^ exponentAt n) := by
  rw [unitsAt_eq, Nat.mul_assoc, Nat.mul_comm den]

/-- The size of the next magnitude is one more of the same powers of two. -/
theorem unitsAt_succ_mul (n den : Nat) :
    unitsAt (n + 1) * den = (significandAt n + 1) * (den * 2 ^ exponentAt n) := by
  rw [unitsAt_succ, Nat.mul_assoc, Nat.mul_comm den]

/-- The mean of the two sizes is halfway between these multiples. -/
theorem half_mul (n den : Nat) : (2 * significandAt n + 1) * (den * 2 ^ exponentAt n) =
    unitsAt n * den + unitsAt (n + 1) * den := by
  rw [unitsAt_mul, unitsAt_succ_mul, ← Nat.add_mul, Nat.two_mul, Nat.add_assoc]

/-- A size is shifted by the power of two of the magnitude before it. -/
theorem log2_sub_of_between {size n : Nat} (hlow : unitsAt n ≤ size)
    (hhigh : size < unitsAt (n + 1)) : size.log2 - 52 = exponentAt n := by
  have hbits := significandAt_lt n
  have hbinade : 2 * binade = 2 ^ 53 := by decide
  rw [unitsAt_eq] at hlow
  rw [unitsAt_succ] at hhigh
  have hbound : size < 2 ^ (53 + exponentAt n) := by
    rw [Nat.pow_add]
    refine Nat.lt_of_lt_of_le hhigh (Nat.mul_le_mul_right _ ?_)
    omega
  by_cases hexponent : exponentAt n = 0
  · rw [hexponent] at hbound ⊢
    by_cases hzero : size = 0
    · simp [hzero]
    · have := (Nat.log2_lt hzero).mpr hbound
      omega
  · have hlarge := le_significandAt (Nat.pos_of_ne_zero hexponent)
    have hleast : 2 ^ (52 + exponentAt n) ≤ size := by
      rw [Nat.pow_add]
      exact Nat.le_trans (Nat.mul_le_mul_right _ hlarge) hlow
    have hzero : size ≠ 0 := by
      have := Nat.two_pow_pos (52 + exponentAt n)
      omega
    have hless := (Nat.log2_lt hzero).mpr hbound
    have hmore := (Nat.le_log2 hzero).mpr hleast
    omega

/-- The number of the magnitude that a quotient is rounded to is found by rounding a significand. -/
theorem val_nearest {num den n : Nat} (hden : 0 < den) (hlow : unitsAt n * den ≤ num)
    (hhigh : num < unitsAt (n + 1) * den) :
    (nearest num den).val = min (exponentAt n * binade +
      divideNearest .toEven num (den * 2 ^ exponentAt n)) 0x7FF0000000000000 := by
  have hshift := log2_sub_of_between ((Nat.le_div_iff_mul_le hden).mpr hlow)
    ((Nat.div_lt_iff_lt_mul hden).mpr hhigh)
  simp only [nearest, hshift]
  rfl

end Magnitude

/-- Whether a neighbourhood contains the quotient of a number of units. -/
def Magnitude.Neighbourhood.Contains (around : Neighbourhood) (num den : Nat) : Prop :=
  around.low * den ≤ 2 * num ∧ 2 * num ≤ around.high * den ∧
    (around.closed = false → around.low * den ≠ 2 * num ∧ 2 * num ≠ around.high * den)

namespace Magnitude

/-- What the neighbourhood of a magnitude contains is rounded to it. -/
theorem nearest_of_contains {m : Magnitude} (hpositive : m ≠ zero) {num den : Nat}
    (hden : 0 < den) (h : m.neighbourhood.Contains num den) : nearest num den = m := by
  obtain ⟨n, hn⟩ : ∃ n, m.val = n + 1 :=
    Nat.exists_eq_add_one_of_ne_zero fun hzero => hpositive (Fin.ext hzero)
  have hlimit : n + 1 ≤ 0x7FF0000000000000 := by
    have := m.isLt
    omega
  obtain ⟨hlow, hhigh, htie⟩ := h
  simp only [neighbourhood, units, hn, Nat.add_sub_cancel, beq_eq_false_iff_ne, Nat.add_mul]
    at hlow hhigh htie
  rcases Nat.lt_or_ge num (unitsAt (n + 1) * den) with hbelow | habove
  · have hfloor : unitsAt n * den ≤ num := by omega
    have hround : divideNearest .toEven num (den * 2 ^ exponentAt n) = significandAt n + 1 := by
      have hparity := significandAt_mod_two n
      apply divideNearest_up (by rwa [← unitsAt_succ_mul]) (by rwa [half_mul])
      intro hequal
      rw [half_mul] at hequal
      omega
    have hhere := val_nearest hden hfloor hbelow
    rw [hround, ← Nat.add_assoc, exponentAt_mul_add] at hhere
    rw [Fin.ext_iff, hhere, hn]
    exact Nat.min_eq_left hlimit
  · have hwider : unitsAt (n + 1) * den < unitsAt (n + 1 + 1) * den :=
      Nat.mul_lt_mul_of_pos_right (unitsAt_lt_succ (n + 1)) hden
    have hnext : num < unitsAt (n + 1 + 1) * den := by omega
    have hround : divideNearest .toEven num (den * 2 ^ exponentAt (n + 1)) =
        significandAt (n + 1) := by
      have hparity := significandAt_mod_two (n + 1)
      have hpower := Nat.mul_pos hden (Nat.two_pow_pos (exponentAt (n + 1)))
      refine divideNearest_down hpower (by rwa [← unitsAt_mul]) (by rwa [half_mul])
        fun hequal => ?_
      rw [half_mul] at hequal
      omega
    have hhere := val_nearest hden habove hnext
    rw [hround, exponentAt_mul_add] at hhere
    rw [Fin.ext_iff, hhere, hn]
    exact Nat.min_eq_left hlimit

end Magnitude

end TemplateExpr
