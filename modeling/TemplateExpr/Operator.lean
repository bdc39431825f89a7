import TemplateExpr.Token.Symbol

/-!
# Operators

The operators of the language and the symbols that spell them.
-/

namespace TemplateExpr

/-- The operators that always use both operands. -/
inductive BinaryOperator where
  | add | subtract | multiply | divide | remainder
  | less | greater | lessEqual | greaterEqual
  | equal | notEqual | strictEqual | strictNotEqual
  deriving DecidableEq

/-- The operators that may leave their second operand alone. -/
inductive LogicalOperator where
  | and
  | or
  deriving DecidableEq

/-- The operators before a single operand. -/
inductive UnaryOperator where
  | plus
  | minus
  | not
  deriving DecidableEq

/-- The symbol of a binary operator. -/
def BinaryOperator.symbol : BinaryOperator → Symbol
  | .add => .plus
  | .subtract => .minus
  | .multiply => .times
  | .divide => .divide
  | .remainder => .percent
  | .less => .less
  | .greater => .greater
  | .lessEqual => .lessEqual
  | .greaterEqual => .greaterEqual
  | .equal => .equal
  | .notEqual => .notEqual
  | .strictEqual => .strictEqual
  | .strictNotEqual => .strictNotEqual

/-- The symbol of a logical operator. -/
def LogicalOperator.symbol : LogicalOperator → Symbol
  | .and => .and
  | .or => .or

/-- The symbol of a unary operator. -/
def UnaryOperator.symbol : UnaryOperator → Symbol
  | .plus => .plus
  | .minus => .minus
  | .not => .not

/-- The spelling of a binary operator. -/
def BinaryOperator.text (operator : BinaryOperator) : String := operator.symbol.text

/-- The spelling of a logical operator. -/
def LogicalOperator.text (operator : LogicalOperator) : String := operator.symbol.text

/-- The spelling of a unary operator. -/
def UnaryOperator.text (operator : UnaryOperator) : String := operator.symbol.text

/-- The binary operators. -/
def BinaryOperator.all : List BinaryOperator :=
  [.add, .subtract, .multiply, .divide, .remainder, .less, .greater, .lessEqual, .greaterEqual,
    .equal, .notEqual, .strictEqual, .strictNotEqual]

/-- The binary operator of a spelling. -/
def BinaryOperator.ofText? (text : String) : Option BinaryOperator :=
  BinaryOperator.all.find? (·.text == text)

/-- The logical operator of a spelling. -/
def LogicalOperator.ofText? (text : String) : Option LogicalOperator :=
  [LogicalOperator.and, .or].find? (·.text == text)

/-- The unary operator of a spelling. -/
def UnaryOperator.ofText? (text : String) : Option UnaryOperator :=
  [UnaryOperator.plus, .minus, .not].find? (·.text == text)

/-- The spelling of a binary operator is read back as the operator. -/
theorem BinaryOperator.ofText?_text (operator : BinaryOperator) :
    BinaryOperator.ofText? operator.text = some operator := by
  cases operator <;> decide

/-- The spelling of a logical operator is read back as the operator. -/
theorem LogicalOperator.ofText?_text (operator : LogicalOperator) :
    LogicalOperator.ofText? operator.text = some operator := by
  cases operator <;> decide

/-- The spelling of a unary operator is read back as the operator. -/
theorem UnaryOperator.ofText?_text (operator : UnaryOperator) :
    UnaryOperator.ofText? operator.text = some operator := by
  cases operator <;> decide

end TemplateExpr
