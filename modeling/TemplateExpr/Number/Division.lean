import TemplateExpr.Number.Decimal

/-!
# Quotients of decimals

Long division takes up decimal places in rounds of nine, or of as many as there is room for,
and ends when nothing remains or there is no more room. Whole rounds leave zero places at the
end of an exact quotient. They are dropped in coarse steps, which may leave some of them behind:
a quotient is the exact one, rounded once (`Decimal.div?_eq_some`), but has not always the fewest
places.
-/

namespace TemplateExpr.Decimal

/-- How many places a coefficient has room for, at most `limit`. -/
def room (m : Nat) : (limit : Nat) → Nat
  | 0 => 0
  | limit + 1 => if m * Nat.pow 10 (limit + 1) < bound then limit + 1 else room m limit

/-- The scale at which a long division ends that has come to a quotient and a remainder at a
scale, which may still be negative. A division that does not come out even ends at the largest
scale. Each round takes up a place at least. -/
def quotientScale (den : Nat) : (rounds quotient remainder : Nat) → (scale : Int) → Nat
  | 0, _, _, _ => maxScale
  | rounds + 1, quotient, remainder, scale =>
    if remainder = 0 then scale.toNat
    else
      let places := room quotient (min 9 (maxScale - scale).toNat)
      let power := Nat.pow 10 places
      if places = 0 then maxScale
      else
        quotientScale den rounds (quotient * power + remainder * power / den)
          (remainder * power % den) (scale + places)

/-- Whether the last places are there and zero. -/
def endsInZeros (d : Decimal) (places : Nat) : Bool :=
  places ≤ d.scale && d.coefficient % Nat.pow 10 places == 0

/-- The decimal without its last places, which should be zero. -/
def withoutPlaces (d : Decimal) (places : Nat) : Decimal :=
  ⟨d.negative, d.coefficient / Nat.pow 10 places, d.scale - places⟩

/-- Drop the last places if they are zero. -/
def dropZeroStep (d : Decimal) (places : Nat) : Decimal :=
  if d.endsInZeros places then d.withoutPlaces places else d

/-- Drop eight zero places at a time, as long as the coefficient is a multiple of `2 ^ 32`. -/
def dropZeroEights : (steps : Nat) → Decimal → Decimal
  | 0, d => d
  | steps + 1, d =>
    if d.coefficient % 0x100000000 = 0 && d.endsInZeros 8 then
      dropZeroEights steps (d.withoutPlaces 8)
    else d

/-- Drop zero places in steps of eight, and then once in steps of four, two and one. Of more than
seven zero places some stay unless the coefficient admits the large steps. -/
def dropZeroSteps (d : Decimal) : Decimal :=
  (((dropZeroEights d.scale d).dropZeroStep 4).dropZeroStep 2).dropZeroStep 1

/-- One decimal is the other with fewer places and the same value. -/
def Shortens (short d : Decimal) : Prop :=
  short.negative = d.negative ∧ short.scale ≤ d.scale ∧
    short.coefficient * Nat.pow 10 (d.scale - short.scale) = d.coefficient

/-- A decimal shortens itself by no place. -/
theorem Shortens.refl (d : Decimal) : d.Shortens d := by
  simp [Shortens]

/-- Shortening in two steps is shortening. -/
theorem Shortens.trans {a b c : Decimal} (hab : a.Shortens b) (hbc : b.Shortens c) :
    a.Shortens c := by
  obtain ⟨sign, scale, value⟩ := hab
  obtain ⟨sign', scale', value'⟩ := hbc
  refine ⟨sign.trans sign', Nat.le_trans scale scale', ?_⟩
  have places : c.scale - a.scale = (b.scale - a.scale) + (c.scale - b.scale) := by omega
  simp only [Nat.pow_eq] at *
  rw [places, Nat.pow_add, ← Nat.mul_assoc, value, value']

/-- Zero places can go without a change of value. -/
theorem shortens_withoutPlaces {d : Decimal} {places : Nat} (h : d.endsInZeros places) :
    (d.withoutPlaces places).Shortens d := by
  simp only [endsInZeros, Bool.and_eq_true, decide_eq_true_eq, beq_iff_eq] at h
  refine ⟨rfl, Nat.sub_le _ _, ?_⟩
  have gone : d.scale - (d.scale - places) = places := by omega
  simp only [withoutPlaces, gone]
  exact Nat.div_mul_cancel (Nat.dvd_of_mod_eq_zero h.2)

/-- Dropping a step of zero places keeps the value. -/
theorem shortens_dropZeroStep (d : Decimal) (places : Nat) :
    (d.dropZeroStep places).Shortens d := by
  unfold dropZeroStep
  split
  · exact shortens_withoutPlaces ‹_›
  · exact .refl d

/-- Dropping zero places by eights keeps the value. -/
theorem shortens_dropZeroEights (steps : Nat) (d : Decimal) :
    (dropZeroEights steps d).Shortens d := by
  induction steps generalizing d with
  | zero => exact .refl d
  | succ steps ih =>
    unfold dropZeroEights
    split
    case isTrue h =>
      simp only [Bool.and_eq_true] at h
      exact (ih _).trans (shortens_withoutPlaces h.2)
    case isFalse => exact .refl d

/-- Dropping zero places keeps the value of a quotient. -/
theorem shortens_dropZeroSteps (d : Decimal) : d.dropZeroSteps.Shortens d :=
  (shortens_dropZeroStep _ 1).trans <| (shortens_dropZeroStep _ 2).trans <|
    (shortens_dropZeroStep _ 4).trans (shortens_dropZeroEights _ d)

/-- The quotient; absent for a divisor of zero. Only a division that has a remainder at first
takes up places and drops them again. -/
def div? (a b : Decimal) : Option Decimal :=
  if b.coefficient = 0 then none
  else
    let remainder := a.coefficient % b.coefficient
    let scale := quotientScale b.coefficient (2 * maxScale + 1) (a.coefficient / b.coefficient)
      remainder ((a.scale : Int) - b.scale)
    let quotient? := fitting? (a.negative != b.negative) (a.coefficient * Nat.pow 10 b.scale)
      (b.coefficient * Nat.pow 10 a.scale) scale
    if remainder = 0 then quotient? else quotient?.map dropZeroSteps

/-- What fits is rounded once, to the places that it has. -/
theorem fitting?_eq_some {negative : Bool} {num den scale : Nat} {d : Decimal}
    (h : fitting? negative num den scale = some d) :
    d.negative = negative ∧ d.coefficient < bound ∧
      d.coefficient = divideNearest .toEven (num * Nat.pow 10 d.scale) den := by
  induction scale with
  | zero =>
    simp only [fitting?, Option.ite_none_right_eq_some, Option.some.injEq] at h
    obtain ⟨hfits, rfl⟩ := h
    exact ⟨rfl, hfits, by simp⟩
  | succ scale ih =>
    unfold fitting? at h
    simp only at h
    split at h
    case isTrue hfits =>
      cases h
      exact ⟨rfl, hfits, rfl⟩
    case isFalse => exact ih h

/-- A quotient is the exact quotient rounded once, to the even neighbour between two equally near ones;
of the places that this takes some that are zero may be missing. -/
theorem div?_eq_some {a b d : Decimal} (h : div? a b = some d) :
    b.coefficient ≠ 0 ∧ ∃ rounded : Decimal, d.Shortens rounded ∧
      rounded.negative = (a.negative != b.negative) ∧ rounded.coefficient < bound ∧
      rounded.coefficient = divideNearest .toEven
        (a.coefficient * Nat.pow 10 b.scale * Nat.pow 10 rounded.scale)
        (b.coefficient * Nat.pow 10 a.scale) := by
  unfold div? at h
  split at h
  case isTrue => contradiction
  case isFalse hdivisor =>
    refine ⟨hdivisor, ?_⟩
    dsimp only at h
    split at h
    case isTrue => exact ⟨d, .refl d, fitting?_eq_some h⟩
    case isFalse =>
      obtain ⟨rounded, hrounded, rfl⟩ := Option.map_eq_some_iff.mp h
      exact ⟨rounded, shortens_dropZeroSteps rounded, fitting?_eq_some hrounded⟩

end TemplateExpr.Decimal
