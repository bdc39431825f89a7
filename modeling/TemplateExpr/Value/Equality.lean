import TemplateExpr.Value.Conversion

/-!
# Equality

Strict equality compares numbers across integers and floats, containers by what they hold and
functions by identity. Loose equality also compares texts and truth values as numbers.
-/

namespace TemplateExpr.Value

mutual

/-- Strict equality. -/
def strictEquals : Value → Value → Bool
  | .undefined, .undefined | .null, .null => true
  | .boolean a, .boolean b => a == b
  | .integer a, .integer b => a == b
  | .integer a, .float b => (toNumber (.integer a)).same b
  | .float a, .integer b => a.same (toNumber (.integer b))
  | .float a, .float b => a.same b
  | .string a, .string b => a == b
  | .array a, .array b => itemsEqual a b
  | .object a, .object b => fieldsEqual a b
  | .function a, .function b => a == b
  | _, _ => false

/-- Strict equality of items, one by one. -/
def itemsEqual : List Value → List Value → Bool
  | [], [] => true
  | a :: rest, b :: rest' => strictEquals a b && itemsEqual rest rest'
  | _, _ => false

/-- Strict equality of fields, one by one. -/
def fieldsEqual : List (String × Value) → List (String × Value) → Bool
  | [], [] => true
  | (k, a) :: rest, (k', b) :: rest' => k == k' && strictEquals a b && fieldsEqual rest rest'
  | _, _ => false

end

/-- Whether the value is a boolean, a number or a string. -/
def isScalar (value : Value) : Bool :=
  match value.kind with
  | .boolean | .number | .string => true
  | _ => false

/-- Loose equality. -/
def looseEquals (a b : Value) : Bool :=
  if a.isNullish || b.isNullish then a.isNullish && b.isNullish
  else match a, b with
    | .string a, .string b => a == b
    | .integer a, .integer b => a == b
    | a, b => if a.isScalar && b.isScalar then a.toNumber.same b.toNumber else a.strictEquals b

end TemplateExpr.Value
