import TemplateExpr.Number.Division
import TemplateExpr.Operator
import TemplateExpr.Value.Equality

/-!
# Operations

What the operators do with values. No operation fails: arithmetic without a meaning gives the
double that is not a number. Integers stay integers as long as the exact result is one in
range, and an integer meets a float as a decimal.
-/

namespace TemplateExpr

/-- A number as arithmetic sees it. -/
inductive Number where
  | integer (value : Int64)
  | float (value : Binary64)
  deriving DecidableEq

namespace Number

/-- The number that a value stands for in arithmetic. -/
def ofValue : Value → Number
  | .integer value => .integer value
  | .boolean value => .integer (if value then 1 else 0)
  | .null => .integer 0
  | other => .float other.toNumber

/-- The number as a double. -/
def toBinary64 : Number → Binary64
  | .integer value => .ofInt value.toInt
  | .float value => value

/-- The number as a value. -/
def toValue : Number → Value
  | .integer value => .integer value
  | .float value => .float value

/-- The number as a decimal, if it is one. -/
def toDecimal? : Number → Option Decimal
  | .integer value => some (.ofInt value.toInt)
  | .float value => Decimal.ofBinary64? value

end Number

/-- The arithmetic operations. -/
inductive Arithmetic where
  | add
  | subtract
  | multiply
  | divide
  | remainder
  deriving DecidableEq

namespace Arithmetic

/-- The operation on integers, present if the result is an integer in range. A remainder also
needs the quotient to be in range. -/
def integers? (operation : Arithmetic) (a b : Int) : Option Int64 :=
  match operation with
  | .add => int64? (a + b)
  | .subtract => int64? (a - b)
  | .multiply => int64? (a * b)
  | .divide => if b != 0 && a.tmod b == 0 then int64? (a.tdiv b) else none
  | .remainder => if b != 0 && (int64? (a.tdiv b)).isSome then int64? (a.tmod b) else none

/-- The operation on doubles. -/
def floats : Arithmetic → Binary64 → Binary64 → Binary64
  | .add => .add
  | .subtract => .sub
  | .multiply => .mul
  | .divide => .div
  | .remainder => .rem

/-- The operation on decimals. -/
def decimals? : Arithmetic → Decimal → Decimal → Option Decimal
  | .add => Decimal.add?
  | .subtract => Decimal.sub?
  | .multiply => Decimal.mul?
  | .divide => Decimal.div?
  | .remainder => Decimal.rem?

/-- The operation carried out in decimals; a whole result in range is an integer. -/
def mixed? (operation : Arithmetic) (a b : Number) : Option Number := do
  let result ← operation.decimals? (← a.toDecimal?) (← b.toDecimal?)
  match result.toInt?.bind int64? with
  | some n => return .integer n
  | none => return .float result.toBinary64

/-- The operation on numbers of any sort. -/
def apply (operation : Arithmetic) : Number → Number → Number
  | .integer a, .integer b =>
    match operation.integers? a.toInt b.toInt with
    | some n => .integer n
    | none => .float (operation.floats (.ofInt a.toInt) (.ofInt b.toInt))
  | .float a, .float b => .float (operation.floats a b)
  | a, b =>
    match operation.mixed? a b with
    | some n => n
    | none => .float (operation.floats a.toBinary64 b.toBinary64)

/-- The operation on values. -/
def onValues (operation : Arithmetic) (a b : Value) : Value :=
  (operation.apply (.ofValue a) (.ofValue b)).toValue

end Arithmetic

namespace Value

/-- The order of two values: of two strings that of their characters, otherwise that of the
numbers they stand for. -/
def order? : Value → Value → Option Ordering
  | .string a, .string b => some (compare a b)
  | a, b =>
    match Number.ofValue a, Number.ofValue b with
    | .integer m, .integer n => some (compare m.toInt n.toInt)
    | m, n => m.toBinary64.order n.toBinary64

/-- Whether adding the value means joining texts. -/
def joinsText (value : Value) : Bool :=
  match value.kind with
  | .string | .array | .object | .function => true
  | _ => false

/-- The sum of two values, or their texts joined. Adding `undefined` changes nothing. -/
def plus (a b : Value) : Value :=
  if a.isUndefined then b
  else if b.isUndefined then a
  else if a.joinsText || b.joinsText then .string (a.display ++ b.display)
  else Arithmetic.add.onValues a b

/-- Zero in place of `undefined`. -/
def orZero (value : Value) : Value := if value.isUndefined then .integer 0 else value

end Value

/-- Apply a binary operator. -/
def BinaryOperator.apply (operator : BinaryOperator) (a b : Value) : Value :=
  match operator with
  | .add => a.plus b
  | .subtract => Arithmetic.subtract.onValues a.orZero b.orZero
  | .multiply => Arithmetic.multiply.onValues a b
  | .divide => Arithmetic.divide.onValues a b
  | .remainder => Arithmetic.remainder.onValues a b
  | .less => .boolean (a.order? b == some .lt)
  | .greater => .boolean (a.order? b == some .gt)
  | .lessEqual => .boolean (a.order? b == some .lt || a.order? b == some .eq)
  | .greaterEqual => .boolean (a.order? b == some .gt || a.order? b == some .eq)
  | .equal => .boolean (a.looseEquals b)
  | .notEqual => .boolean (!a.looseEquals b)
  | .strictEqual => .boolean (a.strictEquals b)
  | .strictNotEqual => .boolean (!a.strictEquals b)

/-- The negative of a number; the least integer has none among the integers. -/
def Number.negate : Number → Number
  | .integer n =>
    match int64? (-n.toInt) with
    | some n => .integer n
    | none => .float (Binary64.ofInt n.toInt).neg
  | .float x => .float x.neg

/-- Apply a unary operator. -/
def UnaryOperator.apply (operator : UnaryOperator) (value : Value) : Value :=
  match operator with
  | .not => .boolean !value.isTruthy
  | .plus => (Number.ofValue value.orZero).toValue
  | .minus => (Number.ofValue value.orZero).negate.toValue

end TemplateExpr
