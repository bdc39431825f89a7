import TemplateExpr.Number.Shortest

/-!
# Number texts

The text of a finite double is its shortest decimal in one of several layouts. A layout says
which exponents are written positionally, how a number without a fraction ends, and how an
exponent is marked.
-/

namespace TemplateExpr

/-- How the digits of a number are set out. -/
structure Layout where
  /-- The exponents of the first digit that are written without an exponent part. -/
  positional : Int → Bool
  /-- What a positional number without a fraction ends with. -/
  wholeEnd : String
  /-- The sign before an exponent that is not negative. -/
  plus : String
  /-- Which of two equally near shortest decimals is written. -/
  tie : Tie

namespace Layout

/-- The digits of a number whose first digit has the given exponent, positionally. -/
def positionalText (layout : Layout) (digits : List Char) (leading : Int) : String :=
  if leading < 0 then
    "0." ++ String.ofList (List.replicate (-leading - 1).toNat '0' ++ digits)
  else
    let whole := leading.toNat + 1
    if digits.length ≤ whole then
      String.ofList (digits ++ List.replicate (whole - digits.length) '0') ++ layout.wholeEnd
    else String.ofList (digits.take whole) ++ "." ++ String.ofList (digits.drop whole)

/-- The digits of a number whose first digit has the given exponent, with an exponent part. -/
def exponentText (layout : Layout) (digits : List Char) (leading : Int) : String :=
  let fraction := match digits.drop 1 with
    | [] => ""
    | rest => "." ++ String.ofList rest
  let sign := if leading < 0 then "-" else layout.plus
  String.ofList (digits.take 1) ++ fraction ++ "e" ++ sign ++ toString leading.natAbs

/-- The text of a finite magnitude. -/
def magnitudeText (layout : Layout) (m : Magnitude) : String :=
  if m = .zero then layout.positionalText ['0'] 0
  else
    let decimal := m.shortest layout.tie
    let digits := Nat.toDigits 10 decimal.digits
    let leading := decimal.exponent + digits.length - 1
    if layout.positional leading then layout.positionalText digits leading
    else layout.exponentText digits leading

/-- The text of a finite double; a missing or infinite one has no digits. -/
def text (layout : Layout) : Binary64 → String
  | .nan => ""
  | .signed negative m =>
    (if negative then "-" else "") ++ if m = .infinity then "" else layout.magnitudeText m

end Layout

end TemplateExpr
