import TemplateExpr.Fields
import TemplateExpr.Literal
import TemplateExpr.Value.Kind

/-!
# Values

What expressions compute with. A function is known by its name alone: what it does when it is
called is up to the host.
-/

namespace TemplateExpr

/-- A value of the language. -/
inductive Value where
  | undefined
  | null
  | boolean (value : Bool)
  | integer (value : Int64)
  | float (value : Binary64)
  | string (value : String)
  | array (items : List Value)
  | object (fields : List (String × Value))
  | function (name : String)
  deriving Inhabited

/-- The value of a literal. -/
def Literal.toValue : Literal → Value
  | .undefined => .undefined
  | .null => .null
  | .boolean value => .boolean value
  | .integer value => .integer value
  | .float value => .float value
  | .string value => .string value

namespace Value

/-- The kind of a value. -/
def kind : Value → Kind
  | .undefined => .undefined
  | .null => .null
  | .boolean _ => .boolean
  | .integer _ | .float _ => .number
  | .string _ => .string
  | .array _ => .array
  | .object _ => .object
  | .function _ => .function

/-- Whether the value is `undefined`. -/
def isUndefined : Value → Bool
  | .undefined => true
  | _ => false

/-- Whether the value is `undefined` or `null`. -/
def isNullish : Value → Bool
  | .undefined | .null => true
  | _ => false

/-- Whether the value is a number. -/
def isNumber : Value → Bool
  | .integer _ | .float _ => true
  | _ => false

/-- Whether the value counts as true in a condition. -/
def isTruthy : Value → Bool
  | .undefined | .null => false
  | .boolean value => value
  | .integer value => value != 0
  | .float value => !value.isZero && !value.isNaN
  | .string value => !value.isEmpty
  | .array _ | .object _ | .function _ => true

end Value

end TemplateExpr
