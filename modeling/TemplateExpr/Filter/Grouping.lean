import TemplateExpr.Filter.Argument
import TemplateExpr.Number.Decimal
import TemplateExpr.Value.Conversion

/-!
# Grouped numbers

The filter `number` writes a number with commas between thousands and a rounded fraction. The
number of fraction digits may be asked for; without that at most three are kept, and none that
are zero at the end.
-/

namespace TemplateExpr.Grouping

/-- Digits with a comma before each group of three, counted from the right. -/
def groupThousands : List Char → List Char
  | [] => []
  | [c] => [c]
  | c :: d :: rest =>
    if (rest.length + 1) % 3 = 0 then c :: ',' :: groupThousands (d :: rest)
    else c :: groupThousands (d :: rest)

/-- How many fraction digits an argument asks for, at most twenty. -/
def fractionDigits? : Value → Option Nat
  | .undefined => none
  | other => other.asInteger?.map fun n => min n.toInt.toNat 20

/-- The grouped text of a decimal. -/
def decimalText (d : Decimal) (places : Option Nat) : String :=
  let rounded := d.roundTo (places.getD 3)
  let (whole, fraction) := match places with
    | some places =>
      let (whole, fraction) := rounded.digits
      (whole, fraction ++ List.replicate (places - fraction.length) '0')
    | none => rounded.normalize.digits
  let sign := if rounded.negative && rounded.coefficient != 0 then ['-'] else []
  let point := if fraction.isEmpty then [] else '.' :: fraction
  String.ofList (sign ++ groupThousands whole ++ point)

/-- The grouped text of a double. What is too large for a decimal is not grouped. -/
def numberText (x : Binary64) (places : Option Nat) : String :=
  match x with
  | .nan => ""
  | .signed negative m =>
    if m = .infinity then if negative then "-∞" else "∞"
    else match Decimal.ofBinary64? x with
      | none => Layout.plain.text x
      | some d => decimalText d places

/-- The filter `number`. What is neither a number nor a text is written as nothing. -/
def apply (arguments : List Value) : Value :=
  let input := argument arguments 0
  let number := match input with
    | .integer _ | .float _ | .string _ => input.toNumber
    | _ => .nan
  .string (numberText number (fractionDigits? (argument arguments 1)))

end TemplateExpr.Grouping
