import TemplateExpr.Number.Binary64

/-!
# Numerals

The decimal numerals that a text may spell: digits with an optional point and an optional
power of ten. Every numeral is read as the double nearest to it.
-/

namespace TemplateExpr

/-- The number that a row of decimal digits spells. -/
def decimalValue (digits : List Char) : Nat :=
  digits.foldl (fun value c => 10 * value + (c.toNat - '0'.toNat)) 0

/-- The parts of a decimal numeral. -/
structure Numeral where
  negative : Bool
  whole : List Char
  fraction : List Char
  exponent : Int

namespace Numeral

/-- The double nearest to the numeral. -/
def toBinary64 (n : Numeral) : Binary64 :=
  Binary64.ofDecimal n.negative (decimalValue (n.whole ++ n.fraction))
    (n.exponent - n.fraction.length)

/-- Split off an optional sign; `true` stands for minus. -/
def splitSign : List Char → Bool × List Char
  | '-' :: rest => (true, rest)
  | '+' :: rest => (false, rest)
  | text => (false, text)

/-- The exponent that an optional exponent part adds, if the text is nothing but that part. -/
def exponent? : List Char → Option Int
  | [] => some 0
  | c :: rest =>
    let (negative, digits) := splitSign rest
    if (c = 'e' || c = 'E') && digits ≠ [] && digits.all Char.isDigit then
      some (if negative then -(decimalValue digits : Int) else decimalValue digits)
    else none

/-- Read a text that is one numeral as a whole: an optional sign, digits on at least one side
of an optional point, and an optional exponent part. -/
def ofText? (text : List Char) : Option Numeral :=
  let (negative, unsigned) := splitSign text
  let (whole, rest) := unsigned.span Char.isDigit
  let (fraction, rest) := match rest with
    | '.' :: rest => rest.span Char.isDigit
    | rest => ([], rest)
  if whole = [] && fraction = [] then none
  else (exponent? rest).map fun exponent => ⟨negative, whole, fraction, exponent⟩

end Numeral

end TemplateExpr
