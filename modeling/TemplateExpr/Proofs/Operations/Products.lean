import TemplateExpr.Operation
import TemplateExpr.Proofs.Number.PowersOfTen
import TemplateExpr.Proofs.Number.Underflow

/-!
# Products that vanish

The product of an integer and a double is taken in decimals, if the double has one that is not too
large. It is then zero for every double that is too small for a decimal, however large the integer is.
All other products of nonzero numbers are not zero: neither the places that a large product gives up nor
the way back to a double loses them, and a product of doubles is as large as the double at least.
-/

namespace TemplateExpr

namespace Magnitude

/-- What is at least one unit is not rounded to zero. -/
theorem nearest_ne_zero {num den : Nat} (hden : 0 < den) (h : den ≤ num) : nearest num den ≠ zero := by
  obtain ⟨n, hlow, hhigh⟩ := exists_unitsAt_mul_le_lt num hden
  have hpositive : 0 < n := by
    refine Nat.pos_of_ne_zero fun hzero => ?_
    have hone : unitsAt (0 + 1) = 1 := rfl
    rw [hzero, hone, Nat.one_mul] at hhigh
    omega
  have hround := (nearest_between hden hlow hhigh).1
  intro hzero
  rw [hzero] at hround
  simp only [zero] at hround
  omega

/-- Nothing is rounded to zero. -/
theorem nearest_zero (den : Nat) : nearest 0 den = zero := by
  simp [nearest, divideNearest, zero]

/-- A larger magnitude has more units. -/
theorem units_mono {m n : Magnitude} (h : m ≤ n) : m.units ≤ n.units := unitsAt_mono h

/-- A larger quotient is not rounded to a smaller magnitude. -/
theorem nearest_le_nearest {num num' den : Nat} (hden : 0 < den) (h : num ≤ num') :
    nearest num den ≤ nearest num' den := Fin.le_def.mpr (nearest_mono hden h)

/-- Infinity is the last magnitude. -/
theorem le_infinity (m : Magnitude) : m ≤ infinity := Nat.le_of_lt_succ m.isLt

/-- Only zero has no size. -/
theorem units_pos {m : Magnitude} (h : m ≠ zero) : 0 < m.units := by
  have hval : m.val ≠ 0 := fun hzero => h (Fin.ext hzero)
  have hless := unitsAt_lt_succ (m.val - 1)
  rw [Nat.sub_add_cancel (Nat.pos_of_ne_zero hval)] at hless
  exact Nat.zero_lt_of_lt hless

end Magnitude

namespace Binary64

open Magnitude

/-- A double counts as true if it is a number other than zero. -/
theorem isTruthy_iff {x : Binary64} :
    (Value.float x).isTruthy = true ↔ ∃ negative m, x = .signed negative m ∧ m ≠ .zero := by
  cases x with
  | nan => simp [Value.isTruthy, isNaN]
  | signed negative m => simp [Value.isTruthy, isNaN, isZero]

/-- The units of a finite number without a minus sign. -/
theorem units?_positive {m : Magnitude} (h : m ≠ .infinity) :
    (signed false m).units? = some (m.units : Int) := by
  simp [units?, h]

/-- A sum of numbers without a minus sign is no smaller than either of them. -/
theorem add_positive (m n : Magnitude) :
    ∃ sum, (signed false m).add (signed false n) = .signed false sum ∧ m ≤ sum ∧ n ≤ sum := by
  have hnone : (signed false .infinity).units? = none := rfl
  by_cases hm : m = .infinity
  · subst hm
    refine ⟨.infinity, ?_, Nat.le_refl _, le_infinity n⟩
    by_cases hn : n = .infinity
    · subst hn
      rfl
    · simp only [add, hnone, units?_positive hn]
  · by_cases hn : n = .infinity
    · subst hn
      exact ⟨.infinity, by simp only [add, hnone, units?_positive hm], le_infinity m, Nat.le_refl _⟩
    · have hsum : ((m.units : Int) + n.units).natAbs = m.units + n.units := by omega
      simp only [add, units?_positive hm, units?_positive hn]
      split
      case isTrue hzero =>
        have hzeros {m : Magnitude} (h : m.units = 0) : m = .zero :=
          Decidable.not_not.mp fun hne => Nat.ne_of_gt (units_pos hne) h
        rw [hzeros (by omega : m.units = 0), hzeros (by omega : n.units = 0)]
        exact ⟨.zero, rfl, Nat.le_refl _, Nat.le_refl _⟩
      case isFalse =>
        have hsign : decide ((m.units : Int) + n.units < 0) = false := by
          rw [decide_eq_false_iff_not]
          omega
        have hleft := nearest_le_nearest Nat.one_pos (Nat.le_add_right m.units n.units)
        have hright := nearest_le_nearest Nat.one_pos (Nat.le_add_left n.units m.units)
        rw [nearest_units] at hleft hright
        exact ⟨_, by rw [ofUnits, hsign, hsum], hleft, hright⟩

/-- A product of numbers without a minus sign grows with its first factor. -/
theorem mul_positive {m n factor : Magnitude} (h : m ≤ n) (hfinite : factor ≠ .infinity)
    (hfactor : factor ≠ .zero) :
    ∃ product, (signed false n).mul (signed false factor) = .signed false product ∧
      nearest (m.units * factor.units) unitsPerOne ≤ product := by
  by_cases hn : n = .infinity
  · subst hn
    refine ⟨.infinity, ?_, le_infinity _⟩
    have hzero : Magnitude.infinity ≠ .zero := by decide
    simp [mul, hzero, hfactor]
  · refine ⟨nearest (n.units * factor.units) unitsPerOne, by simp [mul, hn, hfinite, ofUnits], ?_⟩
    exact nearest_le_nearest unitsPerOne_pos (Nat.mul_le_mul_right _ (units_mono h))

/-- A quotient of numbers without a minus sign grows with the dividend. -/
theorem div_positive {m n divisor : Magnitude} (h : m ≤ n) (hfinite : divisor ≠ .infinity)
    (hdivisor : divisor ≠ .zero) :
    ∃ quotient, (signed false n).div (signed false divisor) = .signed false quotient ∧
      nearest (m.units * unitsPerOne) divisor.units ≤ quotient := by
  by_cases hn : n = .infinity
  · subst hn
    exact ⟨.infinity, by simp [div, hfinite], le_infinity _⟩
  · refine ⟨nearest (n.units * unitsPerOne) divisor.units,
      by simp [div, hn, hfinite, hdivisor, ofUnits], ?_⟩
    exact nearest_le_nearest (units_pos hdivisor) (Nat.mul_le_mul_right _ (units_mono h))

/-- The sign makes no difference to what counts as true. -/
theorem isTruthy_neg (x : Binary64) : (Value.float x.neg).isTruthy = (Value.float x).isTruthy := by
  cases x <;> rfl

/-- Multiplication of doubles is commutative. -/
theorem mul_comm (x y : Binary64) : x.mul y = y.mul x := by
  cases x with
  | nan => cases y <;> rfl
  | signed s m =>
    cases y with
    | nan => rfl
    | signed t n =>
      simp only [mul, Nat.mul_comm m.units, Bool.or_comm (decide (m = _)), bne_comm]

/-- A nonzero whole number is no zero among the doubles. -/
theorem nearest_whole_ne_zero {n : Nat} (h : n ≠ 0) : nearest (n * unitsPerOne) 1 ≠ .zero :=
  nearest_ne_zero Nat.one_pos (Nat.le_trans unitsPerOne_pos
    (Nat.le_mul_of_pos_left _ (Nat.pos_of_ne_zero h)))

/-- A nonzero whole number is no smaller than one. -/
theorem one_le_nearest {n : Nat} (h : n ≠ 0) :
    nearest unitsPerOne 1 ≤ nearest (n * unitsPerOne) 1 :=
  nearest_le_nearest Nat.one_pos (Nat.le_mul_of_pos_left unitsPerOne (Nat.pos_of_ne_zero h))

/-- A nonzero whole number has as many units as one at least. -/
theorem le_units_whole {n : Nat} (h : n ≠ 0) :
    unitsPerOne ≤ (nearest (n * unitsPerOne) 1).units := by
  have hmono := units_mono (one_le_nearest h)
  exact Nat.le_trans (Nat.le_of_eq units_one.symm) hmono

/-- A half or more is not rounded down. -/
theorem exists_round_eq {m : Magnitude} (h : unitsPerOne ≤ 2 * m.units) :
    ∃ n : Nat, n ≠ 0 ∧ (signed false m).round = n := by
  refine ⟨divideNearest .up m.units unitsPerOne, ?_, rfl⟩
  have hparts := Nat.div_add_mod m.units unitsPerOne
  have hpositive := unitsPerOne_pos
  unfold divideNearest
  dsimp only
  split
  case isTrue hless =>
    intro hzero
    rw [hzero, Nat.mul_zero] at hparts
    omega
  case isFalse => split <;> exact Nat.succ_ne_zero _

/-- A nonzero integer times a nonzero number is not zero. -/
theorem isTruthy_mul {n : Int} (hn : n ≠ 0) (negative : Bool) {m : Magnitude} (hm : m ≠ .zero) :
    (Value.float ((ofInt n).mul (.signed negative m))).isTruthy = true := by
  have hwhole := nearest_whole_ne_zero (Int.natAbs_ne_zero.mpr hn)
  refine isTruthy_iff.mpr ?_
  simp only [ofInt, ofUnits, mul, Bool.or_eq_true, decide_eq_true_eq, hwhole, hm, or_self,
    if_false]
  split
  case isTrue => exact ⟨_, .infinity, rfl, by decide⟩
  case isFalse =>
    refine ⟨_, _, rfl, nearest_ne_zero unitsPerOne_pos ?_⟩
    exact Nat.le_trans (le_units_whole (Int.natAbs_ne_zero.mpr hn))
      (Nat.le_mul_of_pos_right _ (units_pos hm))

/-- Infinity is perceptible. -/
theorem perceptible_infinity (negative : Bool) : (signed negative .infinity).Perceptible := by
  have hrange := lt_units_infinity
  have hpositive : 0 < 10 ^ Decimal.maxScale := Nat.pow_pos (by decide)
  simp only [Perceptible]
  nlinarith

/-- Zero times a double is zero or no number. -/
theorem isTruthy_zero_mul (x : Binary64) : (Value.float ((ofInt 0).mul x)).isTruthy = false := by
  have hzero : ofInt 0 = .signed false .zero := by
    have hnone : ofInt 0 = .signed false (nearest (0 * unitsPerOne) 1) := ofInt_natCast 0
    rw [hnone, Nat.zero_mul, nearest_zero]
  have hunits : Magnitude.zero.units = 0 := rfl
  have hfinite : Magnitude.zero ≠ .infinity := by decide
  rw [hzero]
  cases x with
  | nan => rfl
  | signed negative m =>
    by_cases hm : m = .infinity
    · simp [mul, hm, Value.isTruthy, isNaN]
    · simp [mul, hm, hfinite, ofUnits, hunits, nearest_zero, Value.isTruthy, isZero]

end Binary64

namespace Decimal

open Magnitude Binary64

/-- What is known of the double of a power of ten: repeated squaring gives it as well, and it keeps the
last place of the scale. -/
theorem exists_ten {scale : Nat} (h : scale ≤ 28) : ∃ ten : Magnitude,
    Binary64.ofInt (Nat.pow 10 scale : Nat) = .signed false ten ∧
    powerOfDouble scale (.ofInt 10) (.ofInt 1) scale = .signed false ten ∧
    ten ≠ .zero ∧ ten ≠ .infinity ∧ ten.units ≤ unitsPerOne * unitsPerOne ∧
    unitsPerOne ≤ 2 * (nearest ((nearest (unitsPerOne * unitsPerOne) ten.units).units *
      ten.units) unitsPerOne).units := by
  have hpositive : 10 ^ scale ≠ 0 := Nat.ne_of_gt (Nat.pow_pos (by decide))
  have hhigh := units_nearest_le
    (Nat.le_trans (Nat.pow_le_pow_right (by decide) h) (by decide) : 10 ^ scale ≤ 2 ^ 94)
  have hsmall : 2 ^ 94 * unitsPerOne ≤ unitsPerOne * unitsPerOne :=
    Nat.mul_le_mul_right _ (Nat.le_trans (by decide) le_unitsPerOne)
  exact ⟨nearest (10 ^ scale * unitsPerOne) 1, ofInt_natCast _,
    (powerOfDouble_eq h).trans (ofInt_natCast _), nearest_whole_ne_zero hpositive,
    ne_infinity_of_units_lt (Nat.lt_of_le_of_lt hhigh lt_units_infinity),
    Nat.le_trans hhigh hsmall, le_units_last_place (le_units_whole hpositive) hhigh⟩

/-- A sum that is no smaller than the last place of a scale is not zero when it has been rounded to the
places of the scale. -/
theorem isTruthy_rounded {whole fraction place ten : Magnitude} (hplace : place ≤ fraction)
    (hzero : ten ≠ .zero) (hfinite : ten ≠ .infinity)
    (hsmall : ten.units ≤ unitsPerOne * unitsPerOne)
    (hlast : unitsPerOne ≤ 2 * (nearest (place.units * ten.units) unitsPerOne).units) :
    (Value.float ((Binary64.ofInt (((Binary64.signed false whole).add (.signed false fraction)).mul
      (.signed false ten)).round).div (.signed false ten))).isTruthy = true := by
  obtain ⟨sum, hsum, -, hfraction⟩ := add_positive whole fraction
  obtain ⟨product, hproduct, hlarge⟩ :=
    mul_positive (Nat.le_trans hplace hfraction) hfinite hzero
  have hhalf : unitsPerOne ≤ 2 * product.units :=
    Nat.le_trans hlast (Nat.mul_le_mul_left 2 (units_mono hlarge))
  obtain ⟨n, hn, hround⟩ := exists_round_eq hhalf
  obtain ⟨quotient, hquotient, hmore⟩ :=
    div_positive (one_le_nearest hn) hfinite hzero
  rw [hsum, hproduct, hround, ofInt_natCast, hquotient]
  refine isTruthy_iff.mpr ⟨false, quotient, rfl, ?_⟩
  rintro rfl
  rw [units_one] at hmore
  exact nearest_ne_zero (units_pos hzero) hsmall (Fin.ext (Nat.le_zero.mp hmore))

/-- The double of a decimal that is not zero is not zero. -/
theorem isTruthy_toBinary64 {d : Decimal} (hd : d.coefficient ≠ 0) (hscale : d.scale ≤ 28) :
    (Value.float d.toBinary64).isTruthy = true := by
  unfold toBinary64
  split
  case isTrue =>
    have hsize : d.signed.natAbs ≠ 0 := by
      unfold signed
      split <;> omega
    exact isTruthy_iff.mpr ⟨_, _, rfl, nearest_whole_ne_zero hsize⟩
  case isFalse =>
    obtain ⟨ten, hten, hpower, htenZero, htenFinite, hsmall, hlast⟩ := exists_ten hscale
    have hparts := Nat.div_add_mod d.coefficient (Nat.pow 10 d.scale)
    have hsign (x : Binary64) : (Value.float (if d.negative then x.neg else x)).isTruthy =
        (Value.float x).isTruthy := by
      split
      · exact isTruthy_neg x
      · rfl
    dsimp only
    rw [hsign, hten, hpower, ofInt_natCast, ofInt_natCast]
    by_cases hfraction : d.coefficient % Nat.pow 10 d.scale = 0
    · have hwhole : d.coefficient / Nat.pow 10 d.scale ≠ 0 := by
        intro hzero
        rw [hfraction, hzero, Nat.mul_zero] at hparts
        exact hd hparts.symm
      have hnone : (Binary64.signed false (nearest (0 * unitsPerOne) 1)).div (.signed false ten) =
          .signed false .zero := by
        have hunits : Magnitude.zero.units = 0 := rfl
        have hfinite : Magnitude.zero ≠ .infinity := by decide
        rw [Nat.zero_mul, nearest_zero]
        simp [Binary64.div, hfinite, htenFinite, htenZero, ofUnits, hunits, nearest_zero]
      rw [hfraction, hnone, if_pos (by rfl)]
      exact isTruthy_iff.mpr ⟨_, _, rfl, nearest_whole_ne_zero hwhole⟩
    · obtain ⟨fraction, hquotient, hplace⟩ :=
        div_positive (one_le_nearest hfraction) htenFinite htenZero
      rw [units_one] at hplace
      rw [hquotient]
      split
      case isTrue hzero =>
        obtain rfl : fraction = .zero := by simpa [isZero] using hzero
        have hunits : Magnitude.zero.units = 0 := rfl
        have hlost : nearest (unitsPerOne * unitsPerOne) ten.units = .zero :=
          Fin.ext (Nat.le_zero.mp hplace)
        rw [hlost, hunits, Nat.zero_mul, nearest_zero, hunits] at hlast
        exact absurd hlast (Nat.not_le.mpr unitsPerOne_pos)
      case isFalse => exact isTruthy_rounded hplace htenZero htenFinite hsmall hlast

/-- A quotient of at least one is not zero, however many places it keeps. -/
theorem fitting?_ne_zero {negative : Bool} {num den scale : Nat} {d : Decimal} (hden : 0 < den)
    (hone : den ≤ num) (h : fitting? negative num den scale = some d) :
    d.coefficient ≠ 0 ∧ d.scale ≤ scale := by
  have hquotient {num : Nat} (h : den ≤ num) : divideNearest .toEven num den ≠ 0 := by
    have hfloor := (divideNearest_between (Nat.div_mul_le_self num den)
      ((Nat.div_lt_iff_lt_mul hden).mp (Nat.lt_succ_self _))).1
    have hpositive := Nat.div_pos h hden
    omega
  induction scale with
  | zero =>
    obtain ⟨-, h⟩ := Option.ite_none_right_eq_some.mp h
    cases h
    exact ⟨hquotient hone, Nat.le_refl _⟩
  | succ scale ih =>
    unfold fitting? at h
    dsimp only at h
    split at h
    case isTrue =>
      cases h
      have hmore : num ≤ num * Nat.pow 10 (scale + 1) :=
        Nat.le_mul_of_pos_right num (Nat.pow_pos (by decide))
      exact ⟨hquotient (Nat.le_trans hone hmore), Nat.le_refl _⟩
    case isFalse =>
      obtain ⟨hcoefficient, hscale⟩ := ih h
      exact ⟨hcoefficient, Nat.le_succ_of_le hscale⟩

/-- A coefficient that fits is kept at its own scale. -/
theorem fitting?_of_lt (negative : Bool) {num : Nat} (scale : Nat) (h : num < bound) :
    fitting? negative num (Nat.pow 10 scale) scale = some ⟨negative, num, scale⟩ := by
  have hexact : divideNearest .toEven (num * Nat.pow 10 scale) (Nat.pow 10 scale) = num := by
    have hpositive : 0 < Nat.pow 10 scale := Nat.pow_pos (by decide)
    have hround := divideNearest_mul_add (n := num) hpositive
    rwa [Nat.add_zero, Nat.mul_zero, if_pos hpositive] at hround
  cases scale with
  | zero =>
    have hone : num * Nat.pow 10 0 = num := Nat.mul_one num
    rw [hone] at hexact
    rw [fitting?, hexact]
    exact if_pos h
  | succ scale =>
    rw [fitting?, hexact]
    exact if_pos h

/-- A product of an integer and a decimal keeps the places of the decimal if it can. -/
theorem mul?_ofInt_eq {n : Int} {d : Decimal} (hscale : d.scale ≤ 28) : ∃ negative,
    (ofInt n).mul? d =
      fitting? negative (n.natAbs * d.coefficient) (Nat.pow 10 d.scale) d.scale := by
  have hsize : ((ofInt n).signed * d.signed).natAbs = n.natAbs * d.coefficient := by
    have hn : (ofInt n).signed.natAbs = n.natAbs := by
      by_cases hsign : n < 0
      · simp only [ofInt, signed, hsign, decide_true, if_true]
        omega
      · simp only [ofInt, signed, hsign, decide_false, Bool.false_eq_true, if_false]
        omega
    have hd : d.signed.natAbs = d.coefficient := by
      unfold signed
      split <;> omega
    rw [Int.natAbs_mul, hn, hd]
  have hplaces : (ofInt n).scale + d.scale = d.scale := Nat.zero_add _
  have hmost : min d.scale maxScale = d.scale := Nat.min_eq_left hscale
  exact ⟨_, by rw [mul?, ofSigned?, hsize, hplaces, hmost]⟩

/-- A product of an integer and a decimal is zero only if one of them is, and it is too large only if
none is. -/
theorem mul?_ofInt_spec {n : Int} {d : Decimal} (hscale : d.scale ≤ 28) :
    ((ofInt n).mul? d = none → n ≠ 0 ∧ d.coefficient ≠ 0) ∧
    ∀ product, (ofInt n).mul? d = some product →
      product.scale ≤ 28 ∧ (product.coefficient ≠ 0 ↔ n ≠ 0 ∧ d.coefficient ≠ 0) := by
  obtain ⟨negative, hproduct⟩ := mul?_ofInt_eq (n := n) hscale
  have hfactors : n.natAbs * d.coefficient ≠ 0 ↔ n ≠ 0 ∧ d.coefficient ≠ 0 := by
    rw [Nat.mul_ne_zero_iff, Int.natAbs_ne_zero]
  rw [hproduct, ← hfactors]
  rcases Nat.lt_or_ge (n.natAbs * d.coefficient) bound with hfits | hlarge
  · rw [fitting?_of_lt _ _ hfits]
    refine ⟨fun hnone => by contradiction, fun product hsome => ?_⟩
    cases hsome
    exact ⟨hscale, Iff.rfl⟩
  · have hpositive : n.natAbs * d.coefficient ≠ 0 :=
      Nat.ne_of_gt (Nat.lt_of_lt_of_le (by decide) hlarge)
    have hten : Nat.pow 10 d.scale ≤ n.natAbs * d.coefficient := calc
      Nat.pow 10 d.scale ≤ Nat.pow 10 28 := Nat.pow_le_pow_right (by decide) hscale
      _ ≤ bound := by decide
      _ ≤ n.natAbs * d.coefficient := hlarge
    refine ⟨fun _ => hpositive, fun product hsome => ?_⟩
    obtain ⟨hcoefficient, hfewer⟩ := fitting?_ne_zero (Nat.pow_pos (by decide)) hten hsome
    exact ⟨Nat.le_trans hfewer hscale, iff_of_true hcoefficient hpositive⟩

/-- Multiplication of decimals is commutative. -/
theorem mul?_comm (a b : Decimal) : a.mul? b = b.mul? a := by
  rw [mul?, mul?, Int.mul_comm, Nat.add_comm]

end Decimal

namespace Arithmetic

/-- The number that a decimal result stands for. -/
def ofDecimal (d : Decimal) : Number :=
  (d.toInt?.bind int64?).elim (.float d.toBinary64) .integer

/-- The number of a decimal result counts as true unless the result is zero. -/
theorem isTruthy_ofDecimal {d : Decimal} (hscale : d.scale ≤ 28) :
    (ofDecimal d).toValue.isTruthy = true ↔ d.coefficient ≠ 0 := by
  have hinteger {n : Int} {r : Int64} (h : int64? n = some r) :
      (Value.integer r).isTruthy = true ↔ n ≠ 0 := by
    rw [← int64?_eq_some_iff.mp h, Value.isTruthy, bne_iff_ne, ne_eq, ne_eq, ← Int64.toInt_zero,
      Int64.toInt_inj]
  have hparts := Nat.div_add_mod d.coefficient (Nat.pow 10 d.scale)
  unfold ofDecimal Decimal.toInt?
  split
  case isTrue hwhole =>
    have hzero : (if d.negative then -((d.coefficient / Nat.pow 10 d.scale : Nat) : Int)
        else (d.coefficient / Nat.pow 10 d.scale : Nat)) ≠ 0 ↔ d.coefficient ≠ 0 := by
      have hquotient : d.coefficient / Nat.pow 10 d.scale = 0 ↔ d.coefficient = 0 := by
        constructor
        · intro hnone
          rw [hnone, hwhole, Nat.mul_zero] at hparts
          exact hparts.symm
        · intro hnone
          rw [hnone, Nat.zero_div]
      split <;> omega
    dsimp only [Option.bind_some]
    cases hint : int64? (if d.negative then -((d.coefficient / Nat.pow 10 d.scale : Nat) : Int)
        else (d.coefficient / Nat.pow 10 d.scale : Nat)) with
    | some r => exact (hinteger hint).trans hzero
    | none =>
      have hlarge : d.coefficient ≠ 0 := by
        refine hzero.mp fun hnone => ?_
        rw [hnone] at hint
        exact absurd hint (by decide)
      exact iff_of_true (Decimal.isTruthy_toBinary64 hlarge hscale) hlarge
  case isFalse hfraction =>
    have hnonzero : d.coefficient ≠ 0 := by
      intro hnone
      rw [hnone, Nat.zero_mod] at hfraction
      exact hfraction rfl
    exact iff_of_true (Decimal.isTruthy_toBinary64 hnonzero hscale) hnonzero

/-- An integer times a double is taken in decimals if the double has one and the result fits, and in
doubles otherwise. -/
theorem multiply_apply (n : Int64) (x : Binary64) :
    multiply.apply (.integer n) (.float x) =
      ((Decimal.ofBinary64? x).bind (Decimal.ofInt n.toInt).mul?).elim
        (.float ((Binary64.ofInt n.toInt).mul x)) ofDecimal := by
  have hmixed : multiply.mixed? (.integer n) (.float x) =
      ((Decimal.ofBinary64? x).bind (Decimal.ofInt n.toInt).mul?).map ofDecimal := by
    unfold mixed?
    cases hx : Decimal.ofBinary64? x with
    | none => simp [Number.toDecimal?, hx]
    | some d =>
      cases hproduct : (Decimal.ofInt n.toInt).mul? d with
      | none => simp [Number.toDecimal?, decimals?, hx, hproduct]
      | some product =>
        simp only [Number.toDecimal?, decimals?, hx, hproduct, Option.bind_eq_bind,
          Option.bind_some, Option.map_some, ofDecimal]
        cases product.toInt?.bind int64? <;> rfl
  simp only [Arithmetic.apply, hmixed]
  cases (Decimal.ofBinary64? x).bind (Decimal.ofInt n.toInt).mul? <;> rfl

/-- A product of an integer and a double does not depend on their order. -/
theorem multiply_comm (n : Int64) (x : Binary64) :
    multiply.apply (.float x) (.integer n) = multiply.apply (.integer n) (.float x) := by
  have hmixed : multiply.mixed? (.float x) (.integer n) =
      multiply.mixed? (.integer n) (.float x) := by
    unfold mixed?
    cases hx : Decimal.ofBinary64? x with
    | none => simp [Number.toDecimal?, hx]
    | some d => simp [Number.toDecimal?, decimals?, hx, Decimal.mul?_comm d]
  simp only [Arithmetic.apply, hmixed, floats, Number.toBinary64, Binary64.mul_comm x]

/-- A product of an integer and a double counts as true exactly if the integer is not zero and the
double is large enough for a decimal. -/
theorem isTruthy_multiply (n : Int64) (x : Binary64) :
    (multiply.apply (.integer n) (.float x)).toValue.isTruthy = true ↔
      n ≠ 0 ∧ x.Perceptible := by
  have hn : n ≠ 0 ↔ n.toInt ≠ 0 := by
    rw [ne_eq, ne_eq, ← Int64.toInt_zero, Int64.toInt_inj]
  have hfloats (negative : Bool) {m : Magnitude} (hm : m ≠ .zero) :
      (Value.float ((Binary64.ofInt n.toInt).mul (.signed negative m))).isTruthy = true ↔
        n.toInt ≠ 0 := by
    refine ⟨fun h hzero => ?_, fun h => Binary64.isTruthy_mul h negative hm⟩
    rw [hzero, Binary64.isTruthy_zero_mul] at h
    contradiction
  rw [multiply_apply, hn]
  cases x with
  | nan =>
    have hdecimal : Decimal.ofBinary64? .nan = none := rfl
    have hnan : (Binary64.ofInt n.toInt).mul .nan = .nan := rfl
    refine iff_of_false (fun h => ?_) (fun h => h.2)
    rw [hdecimal, Option.bind_none, Option.elim_none, hnan] at h
    contradiction
  | signed negative m =>
    have hzero (h : (Binary64.signed negative m).Perceptible) : m ≠ .zero := by
      rintro rfl
      exact Nat.not_lt_zero _ h
    by_cases hinfinite : m = .infinity
    · subst hinfinite
      have hlarge : (Binary64.signed negative .infinity).Perceptible :=
        Binary64.perceptible_infinity negative
      exact (hfloats negative (by decide)).trans (and_iff_left hlarge).symm
    · obtain ⟨hnone, hsome⟩ := Decimal.ofBinary64?_spec negative hinfinite
      cases hx : Decimal.ofBinary64? (.signed negative m) with
      | none => exact (hfloats negative (hzero (hnone hx))).trans (and_iff_left (hnone hx)).symm
      | some d =>
        obtain ⟨hscale, hcoefficient⟩ := hsome d hx
        obtain ⟨hlarge, hproduct⟩ := Decimal.mul?_ofInt_spec (n := n.toInt) hscale
        have hperceptible : d.coefficient ≠ 0 ↔ (Binary64.signed negative m).Perceptible :=
          hcoefficient.not_left
        rw [← hperceptible, Option.bind_some]
        cases hresult : (Decimal.ofInt n.toInt).mul? d with
        | none =>
          obtain ⟨hinteger, hdecimal⟩ := hlarge hresult
          exact (hfloats negative (hzero (hperceptible.mp hdecimal))).trans
            (and_iff_left hdecimal).symm
        | some product =>
          obtain ⟨hfew, hnonzero⟩ := hproduct product hresult
          exact (isTruthy_ofDecimal hfew).trans hnonzero

/-- A product of an integer and a double, in either order, is zero or no number exactly if the integer
is zero or the double is not more than `17/18` of the last place that a decimal can have. -/
theorem product_isTruthy_iff (n : Int64) (x : Binary64) :
    ((BinaryOperator.multiply.apply (.integer n) (.float x)).isTruthy = true ↔
      n ≠ 0 ∧ x.Perceptible) ∧
    ((BinaryOperator.multiply.apply (.float x) (.integer n)).isTruthy = true ↔
      n ≠ 0 ∧ x.Perceptible) := by
  have hleft := isTruthy_multiply n x
  have hright := multiply_comm n x ▸ hleft
  exact ⟨hleft, hright⟩

/-- One times `10 ^ -30` is the integer zero, although neither is zero. -/
theorem product_vanishes : (Binary64.ofDecimal false 1 (-30)).isFinite = true ∧
    (Binary64.ofDecimal false 1 (-30)).isZero = false ∧
    BinaryOperator.multiply.apply (.integer 1) (.float (Binary64.ofDecimal false 1 (-30))) =
      .integer 0 := by
  have hvalues (x : Binary64) : BinaryOperator.multiply.apply (.integer 1) (.float x) =
      (multiply.apply (.integer 1) (.float x)).toValue := rfl
  have hzero : multiply.apply (.integer 1) (.float (Binary64.ofDecimal false 1 (-30))) =
      .integer 0 := by decide +kernel
  refine ⟨by decide +kernel, by decide +kernel, ?_⟩
  rw [hvalues, hzero, Number.toValue]

end Arithmetic

end TemplateExpr
