import Mathlib.Tactic.Linarith
import Mathlib.Tactic.Ring
import TemplateExpr.Number.Decimal
import TemplateExpr.Proofs.Number.Exactness

/-!
# Doubles too small for a decimal

A decimal has 28 places at most. The places of a smaller double are dropped one at a time, and each
half is rounded up, but what is left of a single digit is dropped with it. A double therefore becomes
zero exactly if it is not more than `17/18` of the last place. Bits given up while the power of two is
turned into a power of ten do not matter: no double lies so close above this bound.
-/

namespace TemplateExpr

namespace Decimal

/-- Dropping places leaves nothing of what is not more than `17/18` of the last place kept. -/
theorem dropPlaces_eq_zero_iff (surplus m : Nat) :
    dropPlaces surplus m = 0 ↔ 18 * m ≤ 17 * 10 ^ surplus := by
  induction surplus generalizing m with
  | zero =>
    simp only [dropPlaces, Nat.pow_zero]
    omega
  | succ surplus ih =>
    have hpower : 10 ^ surplus = 1 ∨ 10 ^ surplus % 18 = 10 := by
      clear ih
      induction surplus with
      | zero => exact .inl rfl
      | succ surplus ih =>
        rw [Nat.pow_succ]
        omega
    have hpositive : 0 < 10 ^ surplus := Nat.pow_pos (by decide)
    unfold dropPlaces
    rw [Nat.pow_succ]
    split
    case isTrue => omega
    case isFalse =>
      rw [ih]
      split <;> omega

/-- Turning fives into tens never gains anything, and loses less than one part in `2 ^ 96 / 5` with
each five. -/
theorem raiseFives_spec (fives m : Nat) (tens : Int) :
    ∃ raised halved : Nat, raiseFives fives m tens = (raised, tens + halved) ∧ halved ≤ fives ∧
      raised * 10 ^ halved ≤ m * 5 ^ fives ∧
      m * 5 ^ fives * bound ≤ raised * 10 ^ halved * bound + 5 * fives * (m * 5 ^ fives) := by
  induction fives generalizing m tens with
  | zero => exact ⟨m, 0, by simp [raiseFives], Nat.le_refl _, by simp, by simp⟩
  | succ fives ih =>
    unfold raiseFives
    split
    case isTrue heven =>
      obtain ⟨raised, halved, hraised, hle, hupper, hlower⟩ := ih (m / 2) (tens + 1)
      have hm : m = 2 * (m / 2) := by omega
      generalize m / 2 = half at *
      subst hm
      have hexact : 2 * half * 5 ^ (fives + 1) = 10 * (half * 5 ^ fives) := by ring
      have hraise : raised * 10 ^ (halved + 1) = 10 * (raised * 10 ^ halved) := by ring
      refine ⟨raised, halved + 1, by rw [hraised]; congr 1; omega, by omega, by omega, ?_⟩
      rw [hexact, hraise]
      linarith [Nat.zero_le (half * 5 ^ fives)]
    case isFalse hodd =>
      split
      case isTrue hroom =>
        obtain ⟨raised, halved, hraised, hle, hupper, hlower⟩ := ih (5 * m) tens
        have hexact : 5 * m * 5 ^ fives = m * 5 ^ (fives + 1) := by ring
        rw [hexact] at hupper hlower
        exact ⟨raised, halved, hraised, by omega, hupper,
          by linarith [Nat.zero_le (m * 5 ^ (fives + 1))]⟩
      case isFalse hfull =>
        obtain ⟨raised, halved, hraised, hle, hupper, hlower⟩ := ih (m / 2) (tens + 1)
        have hm : m = 2 * (m / 2) + 1 := by omega
        generalize m / 2 = half at *
        subst hm
        have hexact : (2 * half + 1) * 5 ^ (fives + 1) = 10 * (half * 5 ^ fives) + 5 * 5 ^ fives := by
          ring
        have hraise : raised * 10 ^ (halved + 1) = 10 * (raised * 10 ^ halved) := by ring
        -- The bit that is given up is small as the coefficient has no room for another five.
        have hbit : 5 ^ fives * bound ≤ 5 ^ fives * (5 * (2 * half + 1)) :=
          Nat.mul_le_mul_left _ (Nat.le_of_not_lt hfull)
        refine ⟨raised, halved + 1, by rw [hraised]; congr 1; omega, by omega, by omega, ?_⟩
        rw [hexact, hraise]
        linarith [Nat.zero_le (fives * 5 ^ fives)]

/-- No double is so little above `17/18` of the last place that the bits given up would matter. -/
theorem gap_above_bound {f m : Nat} (hm : m < 2 * Magnitude.binade)
    (hnormal : f < 1074 → Magnitude.binade ≤ m) (h : 17 * 2 ^ f < 18 * 10 ^ 28 * m) :
    17 * 2 ^ f * bound + 5 * f * (18 * 10 ^ 28 * m) < 18 * 10 ^ 28 * m * bound := by
  have hf : f < 147 := by
    refine Nat.lt_of_not_le fun hlarge => ?_
    have hpower : 2 ^ 147 ≤ 2 ^ f := Nat.pow_le_pow_right Nat.two_pos hlarge
    simp only [Magnitude.binade] at hm
    omega
  simp only [Magnitude.binade, bound] at hm hnormal ⊢
  rcases Nat.lt_succ_iff_lt_or_eq.mp hf with hsmall | rfl
  · have hpower : 2 ^ f ≤ 2 ^ 145 := Nat.pow_le_pow_right Nat.two_pos (Nat.le_of_lt_succ hsmall)
    have hlost : 5 * f * (18 * 10 ^ 28 * m) ≤ 725 * (18 * 10 ^ 28 * m) :=
      Nat.mul_le_mul_right _ (by omega)
    have hleast := hnormal (by omega)
    omega
  · omega

/-- What is left of a double after its power of two has been turned into a power of ten is dropped
exactly if the double is not more than `17/18` of the last place. -/
theorem raised_le_iff {f m raised halved : Nat} (hm : m < 2 * Magnitude.binade)
    (hnormal : f < 1074 → Magnitude.binade ≤ m) (hle : halved ≤ f)
    (hupper : raised * 10 ^ halved ≤ m * 5 ^ f)
    (hlower : m * 5 ^ f * bound ≤ raised * 10 ^ halved * bound + 5 * f * (m * 5 ^ f)) :
    18 * 10 ^ 28 * raised ≤ 17 * 10 ^ (f - halved) ↔ 18 * 10 ^ 28 * m ≤ 17 * 2 ^ f := by
  have hten : 10 ^ (f - halved) * 10 ^ halved = 2 ^ f * 5 ^ f := by
    rw [← Nat.pow_add, Nat.sub_add_cancel hle, ← Nat.mul_pow]
  have hhalved : 0 < 10 ^ halved := Nat.pow_pos (by decide)
  have hfives : 0 < 5 ^ f := Nat.pow_pos (by decide)
  constructor
  · intro h
    refine Nat.le_of_not_lt fun hmore => ?_
    have hgap := Nat.mul_lt_mul_of_pos_right (gap_above_bound hm hnormal hmore) hfives
    have hzero := Nat.mul_le_mul_right bound (Nat.mul_le_mul_right (10 ^ halved) h)
    rw [Nat.mul_assoc 17, hten] at hzero
    linarith
  · intro h
    have hless := Nat.mul_le_mul_right (5 ^ f) h
    refine Nat.le_of_mul_le_mul_right ?_ hhalved
    rw [Nat.mul_assoc 17, hten]
    linarith

/-- Places beyond the precision of a double are dropped from large coefficients only. -/
theorem dropExcess_ne_zero (scale : Nat) {m : Nat} (h : m ≠ 0) :
    (dropExcess scale m).1 ≠ 0 ∧ (dropExcess scale m).2 ≤ scale := by
  induction scale generalizing m with
  | zero => exact ⟨h, Nat.le_refl _⟩
  | succ scale ih =>
    unfold dropExcess
    split
    case isTrue hlarge =>
      simp only [Magnitude.binade] at hlarge
      have hkept := ih (m := m / 10 + if 5 ≤ m % 10 then 1 else 0) (by omega)
      exact ⟨hkept.1, Nat.le_succ_of_le hkept.2⟩
    case isFalse => exact ⟨h, Nat.le_refl _⟩

/-- Zero places are dropped from multiples of ten only. -/
theorem dropZeros_ne_zero (scale : Nat) {m : Nat} (h : m ≠ 0) :
    (dropZeros scale m).1 ≠ 0 ∧ (dropZeros scale m).2 ≤ scale := by
  induction scale generalizing m with
  | zero => exact ⟨h, Nat.le_refl _⟩
  | succ scale ih =>
    unfold dropZeros
    split
    case isTrue hten =>
      have hkept := ih (m := m / 10) (by omega)
      exact ⟨hkept.1, Nat.le_succ_of_le hkept.2⟩
    case isFalse => exact ⟨h, Nat.le_refl _⟩

/-- Multiplying by ten leaves zero alone only. -/
theorem raiseTens?_ne_zero {tens m raised : Nat} (hm : m ≠ 0) (h : raiseTens? tens m = some raised) :
    raised ≠ 0 := by
  induction tens generalizing m with
  | zero =>
    cases h
    exact hm
  | succ tens ih =>
    unfold raiseTens? at h
    split at h
    · exact ih (by omega) h
    · contradiction

/-- Turning negative fives into tens leaves something of a coefficient, which is whole as long as the
power of ten is no smaller than that of five. -/
theorem lowerFives_ne_zero {fives m lowered : Nat} {tens tens' : Int} (hm : m ≠ 0)
    (htens : fives ≤ tens) (h : lowerFives fives m tens = (lowered, tens')) :
    lowered ≠ 0 ∧ 0 ≤ tens' := by
  induction fives generalizing m tens with
  | zero =>
    cases h
    exact ⟨hm, htens⟩
  | succ fives ih =>
    unfold lowerFives at h
    split at h
    · exact ih (by omega) (by omega) h
    · exact ih (by omega) (by omega) h

/-- A coefficient with a power of ten becomes a decimal unless it is too large, and this is zero
exactly if all that is left is dropped. -/
theorem ofPower?_spec (negative : Bool) {m : Nat} (tens : Int) (hm : m ≠ 0) :
    (ofPower? negative m tens = none → 0 < tens) ∧
    ∀ d, ofPower? negative m tens = some d → d.scale ≤ 28 ∧
      (d.coefficient = 0 ↔ 18 * 10 ^ 28 * m ≤ 17 * 10 ^ (-tens).toNat) := by
  unfold ofPower?
  split
  case isTrue hpositive =>
    refine ⟨fun _ => hpositive, fun d hd => ?_⟩
    obtain ⟨raised, hraised, rfl⟩ := Option.map_eq_some_iff.mp hd
    have hnone : (-tens).toNat = 0 := by omega
    rw [hnone]
    exact ⟨Nat.zero_le _, iff_of_false (raiseTens?_ne_zero hm hraised) (by omega)⟩
  case isFalse =>
    have hkept : dropPlaces ((-tens).toNat - maxScale) m = 0 ↔
        18 * 10 ^ 28 * m ≤ 17 * 10 ^ (-tens).toNat := by
      rw [dropPlaces_eq_zero_iff]
      rcases Nat.lt_or_ge (-tens).toNat maxScale with hfew | hmany
      · have hnone : (-tens).toNat - maxScale = 0 := by omega
        have hpower : 10 ^ (-tens).toNat < 10 ^ 28 := Nat.pow_lt_pow_right (by decide) hfew
        rw [hnone]
        omega
      · have hpower : 10 ^ (-tens).toNat = 10 ^ ((-tens).toNat - maxScale) * 10 ^ 28 := by
          rw [← Nat.pow_add]
          exact congrArg (10 ^ ·) (Nat.sub_add_cancel hmany).symm
        rw [hpower]
        omega
    dsimp only
    split
    case isTrue hzero =>
      refine ⟨nofun, fun d hd => ?_⟩
      cases hd
      exact ⟨Nat.zero_le _, iff_of_true rfl (hkept.mp hzero)⟩
    case isFalse hleft =>
      refine ⟨nofun, fun d hd => ?_⟩
      cases hd
      obtain ⟨hexcess, hfewer⟩ := dropExcess_ne_zero (min (-tens).toNat maxScale) hleft
      obtain ⟨hzeros, hfewest⟩ := dropZeros_ne_zero _ hexcess
      have hmost : min (-tens).toNat maxScale ≤ 28 := Nat.min_le_right _ _
      exact ⟨Nat.le_trans hfewest (Nat.le_trans hfewer hmost),
        iff_of_false hzeros (mt hkept.mpr hleft)⟩

end Decimal

/-- Whether a double is more than `17/18` of the last place that a decimal can have, so that its
decimal, if there is one, is not zero. -/
def Binary64.Perceptible : Binary64 → Prop
  | .nan => False
  | .signed _ m => 17 * Magnitude.unitsPerOne < 18 * 10 ^ Decimal.maxScale * m.units

namespace Decimal

open Magnitude

/-- A finite double other than zero becomes a decimal by its significand and its power of two. -/
theorem ofBinary64?_signed (negative : Bool) {m : Magnitude} (hfinite : m ≠ infinity)
    (hpositive : m ≠ .zero) :
    ofBinary64? (.signed negative m) =
      if exponentAt m.val ≤ 1074 then
        let (raised, tens) := raiseFives (1074 - exponentAt m.val) (significandAt m.val)
          ((exponentAt m.val : Int) - 1074)
        ofPower? negative raised tens
      else
        let (lowered, tens) := lowerFives (exponentAt m.val - 1074) (significandAt m.val)
          ((exponentAt m.val : Int) - 1074)
        ofPower? negative lowered tens := by
  have hsignificand : (if m.val / binade = 0 then m.val % binade else binade + m.val % binade) =
      significandAt m.val := by
    by_cases hfield : m.val / binade = 0
    · rw [if_pos hfield]
      simp only [significandAt, exponentAt, binade] at hfield ⊢
      omega
    · rw [if_neg hfield]
      simp only [significandAt, exponentAt, binade] at hfield ⊢
      omega
  have hpower : ((max (m.val / binade) 1 : Nat) : Int) - 1075 = (exponentAt m.val : Int) - 1074 := by
    simp only [exponentAt]
    omega
  have hfives : (-((exponentAt m.val : Int) - 1074)).toNat = 1074 - exponentAt m.val := by omega
  have htwos : ((exponentAt m.val : Int) - 1074).toNat = exponentAt m.val - 1074 := by omega
  have hside : (exponentAt m.val : Int) - 1074 ≤ 0 ↔ exponentAt m.val ≤ 1074 := by omega
  simp only [ofBinary64?, if_neg hfinite, if_neg hpositive, hsignificand, hpower, hfives, htwos,
    hside]

/-- The significand of a positive magnitude is positive. -/
theorem significandAt_ne_zero {m : Magnitude} (hpositive : m ≠ .zero) : significandAt m.val ≠ 0 := by
  have hval : m.val ≠ 0 := fun hzero => hpositive (Fin.ext hzero)
  simp only [significandAt, exponentAt, binade]
  omega

/-- A magnitude is perceptible if its significand is more than `17/18` of the last place in its power
of two. -/
theorem perceptible_iff (negative : Bool) (m : Magnitude) :
    (Binary64.signed negative m).Perceptible ↔
      17 * unitsPerOne < 18 * 10 ^ 28 * significandAt m.val * 2 ^ exponentAt m.val := by
  rw [Binary64.Perceptible, units, unitsAt_eq, ← Nat.mul_assoc]
  rfl

/-- The decimal of a double is zero exactly if the double is not perceptible, and only perceptible
doubles have none. -/
theorem ofBinary64?_spec (negative : Bool) {m : Magnitude} (hfinite : m ≠ infinity) :
    (ofBinary64? (.signed negative m) = none → (Binary64.signed negative m).Perceptible) ∧
    ∀ d, ofBinary64? (.signed negative m) = some d → d.scale ≤ 28 ∧
      (d.coefficient = 0 ↔ ¬(Binary64.signed negative m).Perceptible) := by
  by_cases hpositive : m = .zero
  · subst hpositive
    have hzero : ofBinary64? (.signed negative .zero) = some ⟨negative, 0, 0⟩ := rfl
    have hnone : ¬(Binary64.signed negative .zero).Perceptible := Nat.not_lt_zero _
    refine ⟨by simp [hzero], fun d hd => ?_⟩
    rw [hzero] at hd
    cases hd
    exact ⟨Nat.zero_le _, iff_of_true rfl hnone⟩
  obtain ⟨places, hplaces, hone⟩ := unitsPerOne_eq
  have hsignificand := significandAt_ne_zero hpositive
  rw [ofBinary64?_signed negative hfinite hpositive, perceptible_iff]
  split
  case isTrue hsmall =>
    obtain ⟨raised, halved, hraised, hle, hupper, hlower⟩ := raiseFives_spec
      (1074 - exponentAt m.val) (significandAt m.val) ((exponentAt m.val : Int) - 1074)
    have hleft : raised ≠ 0 := by
      rintro rfl
      have hexact : 0 < significandAt m.val * 5 ^ (1074 - exponentAt m.val) :=
        Nat.mul_pos (Nat.pos_of_ne_zero hsignificand) (Nat.pow_pos (by decide))
      have hlost := Nat.mul_le_mul_right (significandAt m.val * 5 ^ (1074 - exponentAt m.val))
        (by omega : 5 * (1074 - exponentAt m.val) ≤ 5370)
      simp only [bound] at hlower
      omega
    have htens : (exponentAt m.val : Int) - 1074 + halved ≤ 0 := by omega
    have hscale : (-((exponentAt m.val : Int) - 1074 + halved)).toNat =
        1074 - exponentAt m.val - halved := by omega
    obtain ⟨hnone, hsome⟩ :=
      ofPower?_spec negative ((exponentAt m.val : Int) - 1074 + halved) hleft
    have hiff := raised_le_iff (significandAt_lt m.val)
      (fun hmore => le_significandAt (by omega)) hle hupper hlower
    have hunits : 18 * 10 ^ 28 * significandAt m.val ≤ 17 * 2 ^ (1074 - exponentAt m.val) ↔
        ¬17 * unitsPerOne < 18 * 10 ^ 28 * significandAt m.val * 2 ^ exponentAt m.val := by
      have hpower : unitsPerOne = 2 ^ (1074 - exponentAt m.val) * 2 ^ exponentAt m.val := by
        rw [hone, hplaces, ← Nat.pow_add, Nat.sub_add_cancel hsmall]
      rw [Nat.not_lt, hpower, ← Nat.mul_assoc]
      exact (Nat.mul_le_mul_right_iff (Nat.two_pow_pos _)).symm
    rw [hraised]
    refine ⟨fun h => absurd (hnone h) (by omega), fun d hd => ?_⟩
    obtain ⟨hfew, hzero⟩ := hsome d hd
    rw [hscale] at hzero
    exact ⟨hfew, hzero.trans (hiff.trans hunits)⟩
  case isFalse hlarge =>
    have hmore : 17 * unitsPerOne < 18 * 10 ^ 28 * significandAt m.val * 2 ^ exponentAt m.val := by
      have hlarge := le_unitsAt (Nat.lt_of_not_le hlarge)
      have hpositive := unitsPerOne_pos
      rw [unitsAt_eq] at hlarge
      rw [Nat.mul_assoc]
      simp only [binade] at hlarge
      omega
    rcases hlowered : lowerFives (exponentAt m.val - 1074) (significandAt m.val)
      ((exponentAt m.val : Int) - 1074) with ⟨lowered, tens⟩
    obtain ⟨hleft, htens⟩ := lowerFives_ne_zero hsignificand (by omega) hlowered
    refine ⟨fun _ => hmore, fun d hd => ?_⟩
    obtain ⟨hfew, hzero⟩ := (ofPower?_spec negative tens hleft).2 d hd
    have hnone : (-tens).toNat = 0 := by omega
    rw [hnone] at hzero
    exact ⟨hfew, hzero.trans (iff_of_false (by omega) (not_not_intro hmore))⟩

end Decimal

end TemplateExpr
