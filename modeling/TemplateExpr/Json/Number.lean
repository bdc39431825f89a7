import TemplateExpr.Json.Basic
import TemplateExpr.Number.Numeral

/-!
# JSON numbers

A row of digits in the range of 64-bit integers is an integer. Any other number is a double,
found in at most three roundings: the leading digits that fit into 64 bits are converted and
then scaled by powers of ten.
-/

namespace TemplateExpr.Json

/-- Take up digits as long as the number they spell fits into 64 bits; also give how many digits
are left over. -/
def significand (value : Nat) : List Char → Nat × Nat
  | [] => (value, 0)
  | c :: rest =>
    let next := 10 * value + (c.toNat - '0'.toNat)
    if next < 0x10000000000000000 then significand next rest else (value, rest.length + 1)

/-- The double nearest to a power of ten. -/
def powerOfTen (exponent : Nat) : Binary64 := .ofDecimal false 1 exponent

/-- A number below `2 ^ 64` scaled by a power of ten; absent when the power is out of range.

A large negative power is divided out in two parts, and beyond both nothing is left. -/
def scaled? (value : Nat) (exponent : Int) : Option Binary64 :=
  let x := Binary64.ofInt value
  if 0 ≤ exponent then
    if exponent ≤ 308 then some (x.mul (powerOfTen exponent.toNat))
    else if x.isZero then some x else none
  else if -308 ≤ exponent then some (x.div (powerOfTen (-exponent).toNat))
  else if -616 ≤ exponent then
    some ((x.div (powerOfTen 308)).div (powerOfTen (-exponent - 308).toNat))
  else some .zero

/-- The number of the given parts. Integers are those without fraction and exponent. -/
def ofNumeral (n : Numeral) (isRow : Bool) : Option Json :=
  let magnitude := decimalValue n.whole
  if isRow && magnitude < 0x10000000000000000 then
    if n.negative then
      if magnitude = 0 then float? Binary64.zero.neg
      else if magnitude ≤ 0x8000000000000000 then some (.integer (Int64.ofInt (-(magnitude : Int))))
      else float? (Binary64.ofInt magnitude).neg
    else if magnitude < 0x8000000000000000 then some (.integer (Int64.ofNat magnitude))
    else float? (.ofInt magnitude)
  else
    let (whole, dropped) := significand 0 n.whole
    let (value, ignored) := significand whole n.fraction
    let exponent := n.exponent + dropped - (n.fraction.length - ignored : Nat)
    (scaled? value exponent).bind fun x => float? (if n.negative then x.neg else x)

end TemplateExpr.Json
