import TemplateExpr.Number.Display
import TemplateExpr.Number.Integer
import TemplateExpr.Number.Numeral
import TemplateExpr.Text.WhiteSpace
import TemplateExpr.Value.Basic

/-!
# Conversions

The numbers and texts that values stand for when an operator or a key needs one.
-/

namespace TemplateExpr

/-- The number that a text reads as. White space around it is ignored, and a blank text is zero. -/
def numberOfText (text : String) : Binary64 :=
  match Text.trim text.toList with
  | [] => .zero
  | trimmed =>
    let word := String.ofList trimmed
    if word = "Infinity" || word = "+Infinity" then .infinity
    else if word = "-Infinity" then Binary64.infinity.neg
    else match Numeral.ofText? trimmed with
      | some numeral => numeral.toBinary64
      | none => .nan

namespace Value

/-- The number that a value stands for; most values stand for none. -/
def toNumber : Value → Binary64
  | .integer value => .ofInt value.toInt
  | .float value => value
  | .boolean value => .ofInt (if value then 1 else 0)
  | .null => .zero
  | .string value => numberOfText value
  | .undefined | .array _ | .object _ | .function _ => .nan

/-- The integer left when the fraction of a finite number is cut off. -/
def finiteInteger? (x : Binary64) : Option Int64 :=
  if x.isFinite then some (int64Clamped x.truncate) else none

/-- The integer that a value stands for, without its fraction, if it stands for a finite number. -/
def asInteger? : Value → Option Int64
  | .integer value => some value
  | .float value => finiteInteger? value
  | .string value => finiteInteger? (numberOfText value)
  | .boolean value => some (if value then 1 else 0)
  | _ => none

mutual

/-- The text of a value inside a string and as a key. -/
def display : Value → String
  | .undefined => "undefined"
  | .null => "null"
  | .boolean value => if value then "true" else "false"
  | .integer value => toString value.toInt
  | .float value => value.display
  | .string value => value
  | .array items => ",".intercalate (displayItems items)
  | .object _ => "[object Object]"
  | .function name => s!"function {name}() \x7b [native code] \x7d"

/-- The texts of the items of an array; missing items are blank. -/
def displayItems : List Value → List String
  | [] => []
  | item :: rest => (if item.isNullish then "" else display item) :: displayItems rest

end

end Value

end TemplateExpr
