import Mathlib.Algebra.Order.Monoid.Unbundled.WithTop
import Mathlib.Data.Int.ConditionallyCompleteOrder
import TemplateExpr.Proofs.Number.Closest
import TemplateExpr.Proofs.Number.WholeDecimals

/-!
# Exact values

Every finite double is a whole number of units, and the infinities lie beyond all of these. Doubles are
compared by their places on the line, which is to compare these values. An integer is compared with a
double as the double nearest to it, which has the value of the integer up to `2 ^ 53`.
-/

namespace TemplateExpr.Binary64

open Magnitude

/-- The exact size in units of what stands at a place of the line. -/
def sizeAt (place : Int) : Int :=
  if place < 0 then -(unitsAt place.natAbs : Int) else unitsAt place.natAbs

/-- What stands at a later place has a larger size. -/
theorem sizeAt_strictMono : StrictMono sizeAt := by
  intro p q h
  simp only [sizeAt]
  by_cases hq : q < 0
  · have hsizes := unitsAt_strictMono (by omega : q.natAbs < p.natAbs)
    rw [if_pos hq, if_pos (Int.lt_trans h hq)]
    omega
  · rw [if_neg hq]
    by_cases hp : p < 0
    · have hsizes := unitsAt_strictMono (by omega : 0 < p.natAbs)
      rw [if_pos hp]
      omega
    · have hsizes := unitsAt_strictMono (by omega : p.natAbs < q.natAbs)
      rw [if_neg hp]
      omega

/-- What stands at the place of a number has its size. -/
theorem sizeAt_place (negative : Bool) (m : Magnitude) :
    sizeAt (place negative m) = if negative then -(m.units : Int) else m.units := by
  have hnat : (place negative m).natAbs = m.val := by cases negative <;> simp [place]
  rw [sizeAt, hnat, units]
  rcases Nat.eq_zero_or_pos m.val with hzero | hpositive
  · have hnone : unitsAt 0 = 0 := rfl
    rw [hzero, hnone]
    simp
  · have hside : place negative m < 0 ↔ negative = true := by cases negative <;> simp [place, hpositive]
    simp only [hside]

/-- The exact value of a number in units. The infinities are beyond all others. -/
def exactValue? : Binary64 → Option (WithBot (WithTop Int))
  | .nan => none
  | .signed negative m =>
    if m = .infinity then some (if negative then ⊥ else ⊤)
    else
      let size : Int := if negative then -(m.units : Int) else m.units
      some ((size : WithTop Int) : WithBot (WithTop Int))

/-- A finite number has the size of its place as its value. -/
theorem exactValue?_of_ne_infinity (s : Bool) {m : Magnitude} (h : m ≠ .infinity) :
    (signed s m).exactValue? = some ((sizeAt (place s m) : WithTop Int) : WithBot (WithTop Int)) := by
  rw [sizeAt_place]
  exact if_neg h

/-- The infinities are the first and the last value. -/
theorem exactValue?_infinity (s : Bool) :
    (signed s .infinity).exactValue? = some (if s then ⊥ else ⊤) := by
  rw [exactValue?, if_pos rfl]

/-- All doubles have an exact value but what is not a number. -/
theorem exists_exact {x : Binary64} (h : x ≠ .nan) : ∃ v, x.exactValue? = some v := by
  cases x with
  | nan => contradiction
  | signed s m =>
    by_cases hm : m = .infinity
    · exact ⟨_, hm ▸ exactValue?_infinity s⟩
    · exact ⟨_, exactValue?_of_ne_infinity s hm⟩

/-- A finite number is before positive infinity and after negative infinity. -/
theorem place_infinity {s : Bool} {m : Magnitude} (hm : m ≠ .infinity) :
    place true .infinity < place s m ∧ place s m < place false .infinity := by
  have hless : m.val < Magnitude.infinity.val :=
    Nat.lt_of_le_of_ne (Nat.le_of_lt_succ m.isLt) fun hval => hm (Fin.ext hval)
  cases s <;> simp only [place, if_true, Bool.false_eq_true, if_false] <;> omega

/-- Numbers stand in the order of their exact values. -/
theorem place_lt_iff {x y : Binary64} {p q : Int} {v w : WithBot (WithTop Int)}
    (hp : x.place? = some p) (hq : y.place? = some q) (hv : x.exactValue? = some v)
    (hw : y.exactValue? = some w) : p < q ↔ v < w := by
  cases x with
  | nan => cases hp
  | signed s m =>
    cases y with
    | nan => cases hq
    | signed t n =>
      cases hp
      cases hq
      by_cases hm : m = .infinity
      · subst hm
        cases (exactValue?_infinity s).symm.trans hv
        by_cases hn : n = .infinity
        · subst hn
          cases (exactValue?_infinity t).symm.trans hw
          cases s <;> cases t <;> decide
        · cases (exactValue?_of_ne_infinity t hn).symm.trans hw
          obtain ⟨hafter, hbefore⟩ := place_infinity (s := t) hn
          cases s with
          | false => exact iff_of_false (Int.not_lt.mpr (Int.le_of_lt hbefore)) not_top_lt
          | true => exact iff_of_true hafter (WithBot.bot_lt_coe _)
      · cases (exactValue?_of_ne_infinity s hm).symm.trans hv
        by_cases hn : n = .infinity
        · subst hn
          cases (exactValue?_infinity t).symm.trans hw
          obtain ⟨hafter, hbefore⟩ := place_infinity (s := s) hm
          cases t with
          | false => exact iff_of_true hbefore (WithBot.coe_lt_coe.mpr (WithTop.coe_lt_top _))
          | true => exact iff_of_false (Int.not_lt.mpr (Int.le_of_lt hafter)) not_lt_bot
        · cases (exactValue?_of_ne_infinity t hn).symm.trans hw
          rw [WithBot.coe_lt_coe, WithTop.coe_lt_coe]
          exact sizeAt_strictMono.lt_iff_lt.symm

/-- The value of an integer in units. -/
def exactInt (n : Int) : WithBot (WithTop Int) :=
  ((n * Magnitude.unitsPerOne : Int) : WithTop Int)

/-- The double of an integer up to `2 ^ 53` has its value. -/
theorem exactValue?_ofInt {n : Int} (h : n.natAbs ≤ 0x20000000000000) :
    (ofInt n).exactValue? = some (exactInt n) := by
  have hsize : (if decide (n < 0) then -((n.natAbs * Magnitude.unitsPerOne : Nat) : Int)
      else (n.natAbs * Magnitude.unitsPerOne : Nat)) = n * Magnitude.unitsPerOne := by
    rw [Nat.cast_mul]
    by_cases hnegative : n < 0
    · have hminus : -(n.natAbs : Int) = n := by omega
      rw [decide_eq_true hnegative, if_pos rfl, ← Int.neg_mul, hminus]
    · have hplus : (n.natAbs : Int) = n := by omega
      rw [decide_eq_false hnegative, if_neg Bool.false_ne_true, hplus]
  have hrange : n.natAbs ≤ 2 ^ 94 := Nat.le_trans h (by decide)
  obtain ⟨m, k, hdouble, hk, hunits, -, hexact⟩ := exists_ofInt hrange
  obtain rfl : k = n.natAbs := hexact.mpr ⟨n.natAbs, 0, (Nat.mul_one _).symm, h⟩
  rw [hdouble, exactValue?, if_neg (Magnitude.ne_infinity_of_units_le hk hunits), hunits, hsize]
  rfl

end TemplateExpr.Binary64
