import TemplateExpr.Number.Binary64

/-!
# Decimals of bounded precision

A decimal is a sign, a coefficient below `2 ^ 96` and a scale of at most 28 places. Arithmetic
is exact where the result fits; otherwise the result keeps as many places as fit, rounded with
ties to even, and is absent when even its whole part is too large.
-/

namespace TemplateExpr

/-- The number `± coefficient / 10 ^ scale`. -/
structure Decimal where
  negative : Bool
  coefficient : Nat
  scale : Nat
  deriving DecidableEq

namespace Decimal

/-- The first coefficient that is too large. -/
def bound : Nat := 0x1000000000000000000000000

/-- The most places after the point. -/
def maxScale : Nat := 28

/-- The signed coefficient. -/
def signed (d : Decimal) : Int := if d.negative then -(d.coefficient : Int) else d.coefficient

/-- The decimal of a whole number. -/
def ofInt (n : Int) : Decimal := ⟨n < 0, n.natAbs, 0⟩

/-! A double `m * 2 ^ e` becomes a decimal by moving its power of two into a power of ten. -/

/-- Turn `m * 5 ^ -fives * 10 ^ tens` into `m' * 10 ^ tens'`, multiplying by five while the
coefficient has room and otherwise giving up a bit. -/
def raiseFives : (fives : Nat) → (m : Nat) → (tens : Int) → Nat × Int
  | 0, m, tens => (m, tens)
  | fives + 1, m, tens =>
    if m % 2 = 0 then raiseFives fives (m / 2) (tens + 1)
    else if 5 * m < bound then raiseFives fives (5 * m) tens
    else raiseFives fives (m / 2) (tens + 1)

/-- Turn `m * 5 ^ -fives * 10 ^ tens` for negative `fives` into a coefficient and a power of ten,
doubling while the coefficient has room and otherwise dividing by five. -/
def lowerFives : (fives : Nat) → (m : Nat) → (tens : Int) → Nat × Int
  | 0, m, tens => (m, tens)
  | fives + 1, m, tens =>
    if m < 0x800000000000000000000000 then lowerFives fives (2 * m) (tens - 1)
    else lowerFives fives (m / 5) tens

/-- Multiply a coefficient by `10 ^ tens`, as long as it stays in range. -/
def raiseTens? : (tens : Nat) → (m : Nat) → Option Nat
  | 0, m => some m
  | tens + 1, m => if 10 * m < bound then raiseTens? tens (10 * m) else none

/-- Drop `surplus` places one at a time, rounding each half up. -/
def dropPlaces : (surplus : Nat) → (m : Nat) → Nat
  | 0, m => m
  | surplus + 1, m =>
    if m < 10 then 0
    else dropPlaces surplus (m / 10 + if 5 ≤ m % 10 then 1 else 0)

/-- Drop places one at a time while the coefficient has more bits than a double holds. -/
def dropExcess : (scale : Nat) → (m : Nat) → Nat × Nat
  | 0, m => (m, 0)
  | scale + 1, m =>
    if Magnitude.binade ≤ m then dropExcess scale (m / 10 + if 5 ≤ m % 10 then 1 else 0)
    else (m, scale + 1)

/-- Drop the places that are zero. -/
def dropZeros : (scale : Nat) → (m : Nat) → Nat × Nat
  | 0, m => (m, 0)
  | scale + 1, m => if m % 10 = 0 then dropZeros scale (m / 10) else (m, scale + 1)

/-- The decimal without its zero places. -/
def normalize (d : Decimal) : Decimal :=
  let (coefficient, scale) := dropZeros d.scale d.coefficient
  ⟨d.negative, coefficient, scale⟩

/-- The decimal `m * 10 ^ tens`, brought into range and cut to the precision of a double. -/
def ofPower? (negative : Bool) (m : Nat) (tens : Int) : Option Decimal :=
  if 0 < tens then (raiseTens? tens.toNat m).map fun m => ⟨negative, m, 0⟩
  else
    let scale := (-tens).toNat
    let kept := dropPlaces (scale - maxScale) m
    if kept = 0 then some ⟨negative, 0, 0⟩
    else
      let (m, scale) := dropExcess (min scale maxScale) kept
      some (normalize ⟨negative, m, scale⟩)

/-- The decimal that stands for a double; absent when the double is not finite or too large. -/
def ofBinary64? : Binary64 → Option Decimal
  | .nan => none
  | .signed negative magnitude =>
    if magnitude = .infinity then none
    else if magnitude = .zero then some ⟨negative, 0, 0⟩
    else
      let field := magnitude.val / Magnitude.binade
      let fraction := magnitude.val % Magnitude.binade
      let m := if field = 0 then fraction else Magnitude.binade + fraction
      let power := ((max field 1 : Nat) : Int) - 1075
      if power ≤ 0 then
        let (m, tens) := raiseFives (-power).toNat m power
        ofPower? negative m tens
      else
        let (m, tens) := lowerFives power.toNat m power
        ofPower? negative m tens

/-- The decimal nearest to `± num / den` with the most places, up to `scale`, that fit. -/
def fitting? (negative : Bool) (num den : Nat) : (scale : Nat) → Option Decimal
  | 0 =>
    let m := divideNearest .toEven num den
    if m < bound then some ⟨negative, m, 0⟩ else none
  | scale + 1 =>
    let m := divideNearest .toEven (num * Nat.pow 10 (scale + 1)) den
    if m < bound then some ⟨negative, m, scale + 1⟩ else fitting? negative num den scale

/-- The signed coefficient that a decimal has at a larger scale. -/
def atScale (d : Decimal) (scale : Nat) : Int := d.signed * Nat.pow 10 (scale - d.scale)

/-- The decimal of a signed coefficient at a scale, with as many places as fit. -/
def ofSigned? (n : Int) (scale : Nat) : Option Decimal :=
  fitting? (n < 0) n.natAbs (Nat.pow 10 scale) (min scale maxScale)

/-- The sum. -/
def add? (a b : Decimal) : Option Decimal :=
  let scale := max a.scale b.scale
  ofSigned? (a.atScale scale + b.atScale scale) scale

/-- The difference. -/
def sub? (a b : Decimal) : Option Decimal :=
  let scale := max a.scale b.scale
  ofSigned? (a.atScale scale - b.atScale scale) scale

/-- The product. -/
def mul? (a b : Decimal) : Option Decimal :=
  ofSigned? (a.signed * b.signed) (a.scale + b.scale)

/-- The remainder of a truncating division; absent for a divisor of zero. -/
def rem? (a b : Decimal) : Option Decimal :=
  if b.coefficient = 0 then none
  else
    let scale := max a.scale b.scale
    ofSigned? ((a.atScale scale).tmod (b.atScale scale)) scale

/-- The whole number that the decimal equals, if it equals one. -/
def toInt? (d : Decimal) : Option Int :=
  if d.coefficient % Nat.pow 10 d.scale = 0 then
    let whole := d.coefficient / Nat.pow 10 d.scale
    some (if d.negative then -(whole : Int) else whole)
  else none

/-- The powers `base ^ count` in double precision, by repeated squaring. -/
def powerOfDouble (fuel : Nat) (base result : Binary64) (count : Nat) : Binary64 :=
  match fuel with
  | 0 => result
  | fuel + 1 =>
    let result := if count % 2 = 1 then result.mul base else result
    if count / 2 = 0 then result else powerOfDouble fuel (base.mul base) result (count / 2)

/-- The double that stands for a decimal. A fraction is added to the whole part in double
precision, and the sum is rounded again to as many places as the decimal has. -/
def toBinary64 (d : Decimal) : Binary64 :=
  if d.scale = 0 then .ofInt d.signed
  else
    let whole := Binary64.ofInt (d.coefficient / Nat.pow 10 d.scale : Nat)
    let fraction := (Binary64.ofInt (d.coefficient % Nat.pow 10 d.scale : Nat)).div
      (.ofInt (Nat.pow 10 d.scale))
    let size :=
      if fraction.isZero then whole
      else
        let power := powerOfDouble d.scale (.ofInt 10) (.ofInt 1) d.scale
        (Binary64.ofInt (((whole.add fraction).mul power).round)).div power
    if d.negative then size.neg else size

/-- The decimal with at most `places` places, a half rounded away from zero. -/
def roundTo (d : Decimal) (places : Nat) : Decimal :=
  if d.scale ≤ places then d
  else ⟨d.negative, divideNearest .up d.coefficient (Nat.pow 10 (d.scale - places)), places⟩

/-- The digits before and after the point of a decimal, whatever its sign. -/
def digits (d : Decimal) : List Char × List Char :=
  let all := Nat.toDigits 10 d.coefficient
  let padded := List.replicate (d.scale + 1 - all.length) '0' ++ all
  (padded.take (padded.length - d.scale), padded.drop (padded.length - d.scale))

end Decimal

end TemplateExpr
