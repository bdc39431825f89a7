import TemplateExpr.Number.Binary64

/-!
# Shortest decimals

Every real number in a small interval around a double rounds to that double. Its shortest
decimal is the one with the fewest digits in this interval, and among those of that length
the nearest. A double has at most two candidates on each decimal grid: the grid points next
to it on either side.
-/

namespace TemplateExpr

/-- The number `digits * 10 ^ exponent`. -/
structure Scaled where
  digits : Nat
  exponent : Int
  deriving DecidableEq

namespace Scaled

/-- Drop the trailing zeros of the digits, at most `count` of them. -/
def trimmed : (count : Nat) → Scaled → Scaled
  | 0, d => d
  | count + 1, d =>
    if d.digits % 10 = 0 then trimmed count ⟨d.digits / 10, d.exponent + 1⟩ else d

end Scaled

namespace Magnitude

/-- The interval that rounds to a magnitude, with its exact size, in half units.

The ends belong to the interval exactly when the magnitude is even. -/
structure Neighbourhood where
  low : Nat
  size : Nat
  high : Nat
  closed : Bool

/-- The neighbourhood of a positive finite magnitude. -/
def neighbourhood (m : Magnitude) : Neighbourhood where
  low := unitsAt (m.val - 1) + m.units
  size := 2 * m.units
  high := m.units + unitsAt (m.val + 1)
  closed := m.val % 2 == 0

/-- The exponent of the first decimal digit of `num / den` below one, at least `-limit`. -/
def exponentBelowOne (limit : Nat) (num den : Nat) : Int :=
  match limit with
  | 0 => 0
  | limit + 1 => if den ≤ num then 0 else exponentBelowOne limit (10 * num) den - 1

/-- The exponent of the first decimal digit of a positive finite magnitude. -/
def leadingExponent (m : Magnitude) : Int :=
  let whole := m.units / unitsPerOne
  if whole = 0 then exponentBelowOne 400 m.units unitsPerOne
  else (Nat.toDigits 10 whole).length - 1

/-- The decimal of the neighbourhood on the grid of multiples of `10 ^ exponent`, if any. -/
def onGrid? (tie : Tie) (around : Neighbourhood) (exponent : Int) : Option Scaled :=
  let scale := Nat.pow 10 (-exponent).toNat
  let den := 2 * unitsPerOne * Nat.pow 10 exponent.toNat
  let inside (digits : Nat) : Bool :=
    if around.closed then around.low * scale ≤ digits * den && digits * den ≤ around.high * scale
    else around.low * scale < digits * den && digits * den < around.high * scale
  let below := around.size * scale / den
  let nearest := divideNearest tie (around.size * scale) den
  if inside nearest then some ⟨nearest, exponent⟩
  else if inside below then some ⟨below, exponent⟩
  else if inside (below + 1) then some ⟨below + 1, exponent⟩
  else none

/-- The first decimal found on the grids with `count`, `count + 1`, … up to `count + more` digits,
for a number whose first digit stands at exponent `leading`. -/
def firstOnGrid (tie : Tie) (around : Neighbourhood) (leading : Int) (count : Nat) :
    (more : Nat) → Scaled
  | 0 => (onGrid? tie around (leading + 1 - count)).getD ⟨0, 0⟩
  | more + 1 =>
    match onGrid? tie around (leading + 1 - count) with
    | some decimal => decimal
    | none => firstOnGrid tie around leading (count + 1) more

/-- The shortest decimal that rounds to a positive finite magnitude. -/
def shortest (tie : Tie) (m : Magnitude) : Scaled :=
  (firstOnGrid tie m.neighbourhood m.leadingExponent 1 16).trimmed 17

end Magnitude

end TemplateExpr
