import TemplateExpr.Number.Rounding

/-!
# Double precision numbers

A double is not a number or a sign with a magnitude. Magnitudes are numbered in increasing
order from zero to infinity, as their bit patterns are, and each finite one is a whole number
of units of `2 ^ -1074`. Arithmetic is exact in these units and rounds once, to the nearest
magnitude with ties to even.
-/

namespace TemplateExpr

/-- Magnitudes in increasing order; the last one is infinity. -/
abbrev Magnitude := Fin 0x7FF0000000000001

namespace Magnitude

/-- How many magnitudes there are between a power of two and the next one. -/
def binade : Nat := 0x10000000000000

/-- The least magnitude. -/
def zero : Magnitude := ⟨0, by decide⟩

/-- The magnitude past all finite ones. -/
def infinity : Magnitude := ⟨0x7FF0000000000000, by decide⟩

/-- How many units there are in one. -/
def unitsPerOne : Nat := Nat.pow 2 1074

/-- The exact size in units of the magnitude of a number. -/
def unitsAt (number : Nat) : Nat :=
  if number < binade then number
  else (binade + number % binade) * Nat.pow 2 (number / binade - 1)

/-- The exact size in units; for infinity, the first size that is out of range. -/
def units (m : Magnitude) : Nat := unitsAt m.val

/-- The magnitude nearest to `num / den` units. -/
def nearest (num den : Nat) : Magnitude :=
  let shift := (num / den).log2 - 52
  let bits := shift * binade + divideNearest .toEven num (den * Nat.pow 2 shift)
  ⟨min bits 0x7FF0000000000000, by omega⟩

end Magnitude

/-- A double precision number; every value that is not a number is the same one. -/
inductive Binary64 where
  | nan
  | signed (negative : Bool) (magnitude : Magnitude)
  deriving DecidableEq

namespace Binary64

/-- The double with the given bits in the interchange format. -/
def ofBits (bits : Nat) : Binary64 :=
  let size := bits % 0x8000000000000000
  if h : size < 0x7FF0000000000001 then .signed (0x8000000000000000 ≤ bits) ⟨size, h⟩ else .nan

/-- The bits of a number in the interchange format; there are many for none. -/
def bits? : Binary64 → Option Nat
  | .nan => none
  | .signed negative m => some (if negative then 0x8000000000000000 + m.val else m.val)

/-- Zero without a minus sign. -/
def zero : Binary64 := .signed false .zero

/-- Positive infinity. -/
def infinity : Binary64 := .signed false .infinity

/-- The double of a sign and a quotient of units. -/
def ofUnits (negative : Bool) (num den : Nat) : Binary64 :=
  .signed negative (Magnitude.nearest num den)

/-- The double nearest to a whole number. -/
def ofInt (n : Int) : Binary64 :=
  ofUnits (n < 0) (n.natAbs * Magnitude.unitsPerOne) 1

/-- The double nearest to `± digits * 10 ^ exponent`.

Exponents that surely leave the range are settled before any power is taken. -/
def ofDecimal (negative : Bool) (digits : Nat) (exponent : Int) : Binary64 :=
  if digits = 0 || exponent + digits.log2 < -400 then .signed negative .zero
  else if 400 < exponent then .signed negative .infinity
  else ofUnits negative (digits * Nat.pow 10 exponent.toNat * Magnitude.unitsPerOne)
    (Nat.pow 10 (-exponent).toNat)

/-- The exact value in units, present for finite numbers. -/
def units? : Binary64 → Option Int
  | .nan => none
  | .signed negative m =>
    if m = .infinity then none
    else some (if negative then -(m.units : Int) else m.units)

/-- Whether the number is neither infinite nor missing. -/
def isFinite (x : Binary64) : Bool := x.units?.isSome

/-- Whether there is no number. -/
def isNaN (x : Binary64) : Bool := x == .nan

/-- Whether the number is zero, of either sign. -/
def isZero : Binary64 → Bool
  | .nan => false
  | .signed _ m => m == .zero

/-- The number with the opposite sign. -/
def neg : Binary64 → Binary64
  | .nan => .nan
  | .signed negative m => .signed (!negative) m

/-- The place of a number on the line; both zeros share one place. -/
def place (negative : Bool) (m : Magnitude) : Int :=
  if negative then -(m.val : Int) else m.val

/-- The order of two numbers, absent when one of them is missing. -/
def order : Binary64 → Binary64 → Option Ordering
  | .signed s m, .signed t n => some (compare (place s m) (place t n))
  | _, _ => none

/-- Numerical equality: both zeros agree, and nothing equals a missing number. -/
def same (x y : Binary64) : Bool := x.order y == some .eq

/-- The rounded sum. A sum of zero is negative only when both terms are. -/
def add : Binary64 → Binary64 → Binary64
  | .signed s m, .signed t n =>
    match (Binary64.signed s m).units?, (Binary64.signed t n).units? with
    | some a, some b =>
      if a + b = 0 then .signed (s && t) .zero else ofUnits (a + b < 0) (a + b).natAbs 1
    | none, none => if s = t then .signed s m else .nan
    | none, some _ => .signed s m
    | some _, none => .signed t n
  | _, _ => .nan

/-- The rounded difference. -/
def sub (x y : Binary64) : Binary64 := x.add y.neg

/-- The rounded product. -/
def mul : Binary64 → Binary64 → Binary64
  | .signed s m, .signed t n =>
    if m = .infinity || n = .infinity then
      if m = .zero || n = .zero then .nan else .signed (s != t) .infinity
    else ofUnits (s != t) (m.units * n.units) Magnitude.unitsPerOne
  | _, _ => .nan

/-- The rounded quotient. -/
def div : Binary64 → Binary64 → Binary64
  | .signed s m, .signed t n =>
    if m = .infinity then if n = .infinity then .nan else .signed (s != t) .infinity
    else if n = .infinity then .signed (s != t) .zero
    else if n = .zero then if m = .zero then .nan else .signed (s != t) .infinity
    else ofUnits (s != t) (m.units * Magnitude.unitsPerOne) n.units
  | _, _ => .nan

/-- The exact remainder of a truncating division, with the sign of the dividend. -/
def rem : Binary64 → Binary64 → Binary64
  | .signed s m, .signed _ n =>
    if m = .infinity || n = .zero then .nan
    else if n = .infinity then .signed s m
    else ofUnits s (m.units % n.units) 1
  | _, _ => .nan

/-- The whole number left when the fraction is cut off; zero when there is no number. -/
def truncate : Binary64 → Int
  | .nan => 0
  | .signed negative m =>
    let whole := m.units / Magnitude.unitsPerOne
    if negative then -(whole : Int) else whole

/-- The nearest whole number, a half going away from zero; zero when there is no number. -/
def round : Binary64 → Int
  | .nan => 0
  | .signed negative m =>
    let whole := divideNearest .up m.units Magnitude.unitsPerOne
    if negative then -(whole : Int) else whole

/-- Whether the number is finite and has no fraction. -/
def isWhole : Binary64 → Bool
  | .nan => false
  | .signed _ m => m != .infinity && m.units % Magnitude.unitsPerOne == 0

end Binary64

end TemplateExpr
