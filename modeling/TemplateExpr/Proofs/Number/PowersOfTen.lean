import Mathlib.Tactic.Linarith
import Mathlib.Tactic.Ring
import TemplateExpr.Number.Decimal
import TemplateExpr.Proofs.Number.Exactness

/-!
# Powers of ten among the doubles

A size stays one if it is doubled, so a power of ten is a double as long as the power of five in it has
at most 53 bits. Repeated squaring multiplies only such powers: up to the scale that a decimal can have
it gives the double of the power, the last multiplication being the only one that may round.
-/

namespace TemplateExpr

/-- A quotient of multiples is rounded as the quotient is. -/
theorem divideNearest_mul_right (num den : Nat) {c : Nat} (hc : 0 < c) :
    divideNearest .toEven (num * c) (den * c) = divideNearest .toEven num den := by
  have htwice : 2 * (num * c % (den * c)) = 2 * (num % den) * c := by
    rw [Nat.mul_mod_mul_right, Nat.mul_assoc]
  simp only [divideNearest, htwice, Nat.mul_div_mul_right _ _ hc, Nat.mul_lt_mul_right hc]

namespace Magnitude

/-- A multiple in units of the same multiple is rounded to the same magnitude. -/
theorem nearest_mul_right (num den : Nat) {c : Nat} (hc : 0 < c) :
    nearest (num * c) (den * c) = nearest num den := by
  simp only [nearest, Nat.mul_div_mul_right _ _ hc, Nat.mul_right_comm den c,
    divideNearest_mul_right _ _ hc]

/-- Rounding the size of a magnitude gives back the magnitude. -/
theorem nearest_units (m : Magnitude) : nearest m.units 1 = m := by
  have hle : m.val ≤ 0x7FF0000000000000 := Nat.le_of_lt_succ m.isLt
  exact Fin.ext ((val_nearest_unitsAt m.val).trans (Nat.min_eq_left hle))

/-- Twice a size is a size. -/
theorem exists_unitsAt_two_mul (n : Nat) : ∃ n', unitsAt n' = 2 * unitsAt n := by
  rcases Nat.eq_zero_or_pos (n / binade) with hsmall | hlarge
  · -- The sizes from zero to two binades are the numbers themselves.
    refine ⟨2 * n, ?_⟩
    have hself {k : Nat} (h : k < 2 * binade) : unitsAt k = k := by
      have hexponent : exponentAt k = 0 := by
        simp only [exponentAt, binade] at h ⊢
        omega
      have hparts := exponentAt_mul_add k
      rw [hexponent, Nat.zero_mul, Nat.zero_add] at hparts
      rw [unitsAt_eq, hexponent, hparts, Nat.pow_zero, Nat.mul_one]
    have hless : n < binade := (Nat.div_eq_zero_iff.mp hsmall).resolve_left (by decide)
    rw [hself (by omega), hself (by omega)]
  · refine ⟨n + binade, ?_⟩
    have hexponent : exponentAt (n + binade) = exponentAt n + 1 := by
      simp only [exponentAt, binade] at hlarge ⊢
      omega
    have hhere := exponentAt_mul_add n
    have hnext := exponentAt_mul_add (n + binade)
    rw [hexponent, Nat.succ_mul] at hnext
    have hsignificand : significandAt (n + binade) = significandAt n := by omega
    rw [unitsAt_eq, unitsAt_eq, hexponent, hsignificand, Nat.pow_succ]
    ring

/-- A whole number is the size of a magnitude if it has at most 53 bits before its final zeros. -/
theorem exists_unitsAt_mul_two_pow {a : Nat} (h : a ≤ 2 * binade) (twos : Nat) :
    ∃ n, unitsAt n = a * 2 ^ twos * unitsPerOne := by
  induction twos with
  | zero =>
    rw [Nat.pow_zero, Nat.mul_one]
    exact exists_unitsAt_eq h
  | succ twos ih =>
    obtain ⟨n, hn⟩ := ih
    obtain ⟨n', hn'⟩ := exists_unitsAt_two_mul n
    refine ⟨n', ?_⟩
    rw [hn', hn, Nat.pow_succ]
    ring

/-- The first size that is out of range is far above the powers of ten that decimals need. -/
theorem lt_units_infinity : 2 ^ 94 * unitsPerOne < infinity.units := by
  obtain ⟨places, hplaces, hone⟩ := unitsPerOne_eq
  obtain ⟨exponent, hmost, hexponent⟩ : ∃ exponent, 94 + places < exponent ∧
      exponentAt infinity.val = exponent := ⟨2046, by omega, by decide⟩
  have hsignificand : 0 < significandAt infinity.val := by decide
  calc 2 ^ 94 * unitsPerOne = 2 ^ (94 + places) := by rw [hone, Nat.pow_add]
    _ < 2 ^ exponent := Nat.pow_lt_pow_right (by decide) hmost
    _ ≤ significandAt infinity.val * 2 ^ exponent := Nat.le_mul_of_pos_left _ hsignificand
    _ = infinity.units := by rw [units, unitsAt_eq, hexponent]

/-- What is less than the first size that is out of range is the size of a finite magnitude, or of
none. -/
theorem units_nearest {size n : Nat} (h : unitsAt n = size) (hfinite : size < infinity.units) :
    (nearest size 1).units = size := by
  have hless : n < 0x7FF0000000000000 := by
    refine Nat.lt_of_not_le fun hmost => ?_
    have hmono : infinity.units ≤ unitsAt n := unitsAt_mono hmost
    omega
  rw [← h, units, val_nearest_unitsAt, Nat.min_eq_left (Nat.le_of_lt hless)]

/-- Only infinity has its size. -/
theorem ne_infinity_of_units_lt {m : Magnitude} (h : m.units < infinity.units) : m ≠ infinity := by
  rintro rfl
  exact Nat.lt_irrefl _ h

/-- A power of ten is a double if the power of five in it has at most 53 bits. -/
theorem units_ten_pow {tens : Nat} (h : tens ≤ 22) :
    (nearest (10 ^ tens * unitsPerOne) 1).units = 10 ^ tens * unitsPerOne := by
  have hfives : 5 ^ tens ≤ 2 * binade :=
    Nat.le_trans (Nat.pow_le_pow_right (by decide) h) (by decide)
  obtain ⟨n, hn⟩ := exists_unitsAt_mul_two_pow hfives tens
  rw [← Nat.mul_pow] at hn
  refine units_nearest hn (Nat.lt_of_le_of_lt ?_ lt_units_infinity)
  exact Nat.mul_le_mul_right _ (Nat.le_trans (Nat.pow_le_pow_right (by decide) h) (by decide))

/-- One is a double. -/
theorem units_one : (nearest unitsPerOne 1).units = unitsPerOne := by
  obtain ⟨n, hn⟩ := exists_unitsAt_eq (show 1 ≤ 2 * binade by decide)
  rw [Nat.one_mul] at hn
  refine units_nearest hn (Nat.lt_of_le_of_lt ?_ lt_units_infinity)
  exact Nat.le_mul_of_pos_left _ (Nat.two_pow_pos 94)

/-- The double of a number that is no larger than `2 ^ 94` is no larger either. -/
theorem units_nearest_le {n : Nat} (h : n ≤ 2 ^ 94) :
    (nearest (n * unitsPerOne) 1).units ≤ 2 ^ 94 * unitsPerOne := by
  obtain ⟨most, hmost⟩ := exists_unitsAt_mul_two_pow (show 1 ≤ 2 * binade by decide) 94
  rw [Nat.one_mul] at hmost
  rw [← units_nearest hmost lt_units_infinity]
  exact unitsAt_mono (nearest_mono Nat.one_pos (Nat.mul_le_mul_right _ h))

/-- A size that is not too small loses less than a quarter when it is rounded. -/
theorem three_mul_le_units_nearest {num den : Nat} (hden : 0 < den) (hlow : 3 * den ≤ num)
    (hfinite : num < infinity.units * den) : 3 * num ≤ 4 * ((nearest num den).units * den) := by
  obtain ⟨n, hbelow, habove⟩ := exists_unitsAt_mul_le_lt num hden
  have hrange : n ≤ 0x7FF0000000000000 := by
    refine Nat.le_of_not_lt fun hmost => ?_
    have hmono : infinity.units * den ≤ unitsAt n * den :=
      Nat.mul_le_mul_right den (unitsAt_mono (Nat.le_of_lt hmost))
    omega
  have hround := (nearest_between hden hbelow habove).1
  rw [Nat.min_eq_left hrange] at hround
  have hunits : unitsAt n * den ≤ (nearest num den).units * den :=
    Nat.mul_le_mul_right den (unitsAt_mono hround)
  -- The next size is at most a third larger.
  have hnext : 3 * unitsAt (n + 1) ≤ 4 * unitsAt n := by
    have hmany : 3 < unitsAt (n + 1) := Nat.lt_of_mul_lt_mul_right (Nat.lt_of_le_of_lt hlow habove)
    have hsignificand : 3 ≤ significandAt n := by
      refine Nat.le_of_not_lt fun hfew => ?_
      have hexponent : exponentAt n = 0 := by
        refine Nat.eq_zero_of_not_pos fun hpositive => ?_
        have hlarge := le_significandAt hpositive
        simp only [binade] at hlarge
        omega
      rw [unitsAt_succ, hexponent, Nat.pow_zero, Nat.mul_one] at hmany
      omega
    rw [unitsAt_succ, unitsAt_eq, ← Nat.mul_assoc, ← Nat.mul_assoc]
    exact Nat.mul_le_mul_right _ (by omega)
  calc 3 * num ≤ 3 * (unitsAt (n + 1) * den) := Nat.mul_le_mul_left 3 (Nat.le_of_lt habove)
    _ = 3 * unitsAt (n + 1) * den := (Nat.mul_assoc _ _ _).symm
    _ ≤ 4 * unitsAt n * den := Nat.mul_le_mul_right den hnext
    _ = 4 * (unitsAt n * den) := Nat.mul_assoc _ _ _
    _ ≤ 4 * ((nearest num den).units * den) := Nat.mul_le_mul_left 4 hunits

/-- There are many units in one. -/
theorem le_unitsPerOne : 2 ^ 96 ≤ unitsPerOne := by
  obtain ⟨places, hplaces, hone⟩ := unitsPerOne_eq
  rw [hone]
  exact Nat.pow_le_pow_right (by decide) (by omega)

/-- The last place of a power of ten is not lost on the way back: the inverse of the power times the
power is a half at least. -/
theorem le_units_last_place {ten : Magnitude} (hlow : unitsPerOne ≤ ten.units)
    (hhigh : ten.units ≤ 2 ^ 94 * unitsPerOne) :
    unitsPerOne ≤
      2 * (nearest ((nearest (unitsPerOne * unitsPerOne) ten.units).units * ten.units)
        unitsPerOne).units := by
  have hone := unitsPerOne_pos
  have hten := Nat.lt_of_lt_of_le hone hlow
  have hmany := le_unitsPerOne
  have hrange := lt_units_infinity
  -- The inverse is not larger than one.
  have hplace : (nearest (unitsPerOne * unitsPerOne) ten.units).units ≤ unitsPerOne := by
    have hmono := nearest_mono hten (Nat.mul_le_mul_left unitsPerOne hlow)
    have hcancel := nearest_mul_right unitsPerOne 1 hten
    rw [Nat.one_mul] at hcancel
    rw [hcancel] at hmono
    exact Nat.le_trans (unitsAt_mono hmono) (Nat.le_of_eq units_one)
  have hinverse : 3 * (unitsPerOne * unitsPerOne) ≤
      4 * ((nearest (unitsPerOne * unitsPerOne) ten.units).units * ten.units) :=
    three_mul_le_units_nearest hten (by nlinarith) (by nlinarith)
  generalize nearest (unitsPerOne * unitsPerOne) ten.units = place at *
  have hproduct : 3 * (place.units * ten.units) ≤
      4 * ((nearest (place.units * ten.units) unitsPerOne).units * unitsPerOne) :=
    three_mul_le_units_nearest hone (by nlinarith) (by nlinarith)
  have hcancel : 9 * unitsPerOne * unitsPerOne ≤
      16 * (nearest (place.units * ten.units) unitsPerOne).units * unitsPerOne := by
    linarith
  have hsizes := Nat.le_of_mul_le_mul_right hcancel hone
  omega

end Magnitude

namespace Binary64

open Magnitude

/-- The double of a natural number. -/
theorem ofInt_natCast (n : Nat) :
    ofInt (n : Int) = .signed false (nearest (n * unitsPerOne) 1) := by
  have hsign : decide ((n : Int) < 0) = false := by
    rw [decide_eq_false_iff_not]
    omega
  rw [ofInt, ofUnits, hsign, Int.natAbs_natCast]

/-- The product of finite numbers without a minus sign. -/
theorem mul_finite {m n : Magnitude} (hm : m ≠ .infinity) (hn : n ≠ .infinity) :
    (signed false m).mul (signed false n) =
      .signed false (nearest (m.units * n.units) unitsPerOne) := by
  simp [mul, hm, hn, ofUnits]

/-- The product of two powers of ten that are doubles is the double of the power. -/
theorem ten_pow_mul {i k : Nat} (hi : i ≤ 22) (hk : k ≤ 22) :
    (ofInt (10 ^ i : Nat)).mul (ofInt (10 ^ k : Nat)) = ofInt (10 ^ (i + k) : Nat) := by
  have hfinite {tens : Nat} (h : tens ≤ 22) :
      nearest (10 ^ tens * unitsPerOne) 1 ≠ .infinity := by
    refine ne_infinity_of_units_lt (Nat.lt_of_le_of_lt (units_nearest_le ?_) lt_units_infinity)
    exact Nat.le_trans (Nat.pow_le_pow_right (by decide) h) (by decide)
  have hproduct : nearest (10 ^ i * unitsPerOne * (10 ^ k * unitsPerOne)) unitsPerOne =
      nearest (10 ^ (i + k) * unitsPerOne) 1 := by
    have hcancel := nearest_mul_right (10 ^ (i + k) * unitsPerOne) 1 unitsPerOne_pos
    rw [Nat.one_mul] at hcancel
    have hunits : 10 ^ i * unitsPerOne * (10 ^ k * unitsPerOne) =
        10 ^ (i + k) * unitsPerOne * unitsPerOne := by
      rw [Nat.pow_add, Nat.mul_mul_mul_comm, Nat.mul_assoc (10 ^ i * 10 ^ k)]
    rw [hunits, hcancel]
  rw [ofInt_natCast, ofInt_natCast, ofInt_natCast, ← hproduct]
  rw [mul_finite (hfinite hi) (hfinite hk), units_ten_pow hi, units_ten_pow hk]

end Binary64

namespace Decimal

/-- With the power that is left over multiplied in, repeated squaring gives the double of a power of
ten. Only the last multiplication may round. -/
theorem powerOfDouble_ten_pow {fuel count i k : Nat}
    (hi : i = 1 ∨ i = 2 ∨ i = 4 ∨ i = 8 ∨ i = 16) (hk : k < i) (hcount : 0 < count)
    (hfuel : count ≤ fuel) (hmost : k + i * count ≤ 28) :
    powerOfDouble fuel (.ofInt (10 ^ i : Nat)) (.ofInt (10 ^ k : Nat)) count =
      .ofInt (10 ^ (k + i * count) : Nat) := by
  induction fuel generalizing i k count with
  | zero => omega
  | succ fuel ih =>
    have hhalves := Nat.div_add_mod count 2
    -- The result with the lowest bit of the count taken care of.
    have hstep : (if count % 2 = 1 then
          (Binary64.ofInt (10 ^ k : Nat)).mul (.ofInt (10 ^ i : Nat))
        else .ofInt (10 ^ k : Nat)) = .ofInt (10 ^ (k + i * (count % 2)) : Nat) := by
      rcases Nat.mod_two_eq_zero_or_one count with hbit | hbit
      · rw [hbit, if_neg (by decide), Nat.mul_zero, Nat.add_zero]
      · rw [hbit, if_pos rfl, Nat.mul_one, Binary64.ten_pow_mul (by omega) (by omega)]
    have hsplit : k + i * (count % 2) + (i + i) * (count / 2) = k + i * count := by
      rw [← Nat.two_mul, Nat.mul_comm 2, Nat.mul_assoc, Nat.add_assoc, ← Nat.mul_add,
        Nat.add_comm (count % 2), hhalves]
    rw [powerOfDouble, hstep]
    split
    case isTrue hlast =>
      rw [hlast, Nat.mul_zero, Nat.add_zero] at hsplit
      rw [hsplit]
    case isFalse hmore =>
      have hpositive := Nat.pos_of_ne_zero hmore
      have hless : k + i * (count % 2) < i + i := by
        rcases Nat.mod_two_eq_zero_or_one count with hbit | hbit <;> rw [hbit] <;> omega
      have hsquare : i + i ≤ 28 := by
        have hfew := Nat.le_mul_of_pos_right (i + i) hpositive
        omega
      rw [Binary64.ten_pow_mul (by omega) (by omega),
        ih (by omega) hless hpositive (by omega) (by omega), hsplit]

/-- The double that stands for the power of ten of a scale. -/
theorem powerOfDouble_eq {scale : Nat} (h : scale ≤ 28) :
    powerOfDouble scale (.ofInt 10) (.ofInt 1) scale = .ofInt (10 ^ scale : Nat) := by
  rcases Nat.eq_zero_or_pos scale with rfl | hpositive
  · rw [powerOfDouble, Nat.pow_zero, Int.natCast_one]
  · have hpower := powerOfDouble_ten_pow (.inl rfl) Nat.one_pos hpositive (Nat.le_refl scale)
      (by omega : 0 + 1 * scale ≤ 28)
    rwa [Nat.zero_add, Nat.one_mul] at hpower

end Decimal

end TemplateExpr
