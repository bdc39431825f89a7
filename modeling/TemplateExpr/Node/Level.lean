import TemplateExpr.Node.Basic

/-!
# Precedence levels

The levels of the grammar from the loosest to the tightest. The parser descends through them,
and the printer compares them to decide where parentheses are needed.
-/

namespace TemplateExpr

/-- How tightly an expression binds. -/
inductive Level where
  | filter
  | assignment
  | conditional
  | or
  | and
  | equality
  | relational
  | additive
  | multiplicative
  | unary
  | chain
  deriving DecidableEq

namespace Level

/-- The levels are numbered from the loosest to the tightest. -/
def rank : Level → Nat
  | .filter => 0
  | .assignment => 1
  | .conditional => 2
  | .or => 3
  | .and => 4
  | .equality => 5
  | .relational => 6
  | .additive => 7
  | .multiplicative => 8
  | .unary => 9
  | .chain => 10

/-- The next tighter level; nothing binds tighter than the last one. -/
def next : Level → Level
  | .filter => .assignment
  | .assignment => .conditional
  | .conditional => .or
  | .or => .and
  | .and => .equality
  | .equality => .relational
  | .relational => .additive
  | .additive => .multiplicative
  | .multiplicative => .unary
  | .unary => .chain
  | .chain => .chain

/-- Levels of one rank are one level. -/
theorem rank_injective {a b : Level} (h : a.rank = b.rank) : a = b := by
  cases a <;> cases b <;> first | rfl | simp [rank] at h

end Level

/-- The level of a binary operator. -/
def BinaryOperator.level : BinaryOperator → Level
  | .equal | .notEqual | .strictEqual | .strictNotEqual => .equality
  | .less | .greater | .lessEqual | .greaterEqual => .relational
  | .add | .subtract => .additive
  | .multiply | .divide | .remainder => .multiplicative

/-- The level of a logical operator. -/
def LogicalOperator.level : LogicalOperator → Level
  | .or => .or
  | .and => .and

/-- The level of a tree: how tightly its outermost construct binds. -/
def Node.level : Node → Level
  | .program _ | .statement _ | .filter .. => .filter
  | .assignment .. => .assignment
  | .conditional .. => .conditional
  | .logical operator _ _ => operator.level
  | .binary operator _ _ => operator.level
  | .unary .. => .unary
  | _ => .chain

/-- An operator between two operands. -/
inductive Connective where
  | logical (operator : LogicalOperator)
  | binary (operator : BinaryOperator)
  deriving DecidableEq

namespace Connective

/-- The level of a connective. -/
def level : Connective → Level
  | .logical operator => operator.level
  | .binary operator => operator.level

/-- The symbol of a connective. -/
def symbol : Connective → Symbol
  | .logical operator => operator.symbol
  | .binary operator => operator.symbol

/-- Join two trees. -/
def join : Connective → Node → Node → Node
  | .logical operator => .logical operator
  | .binary operator => .binary operator

/-- The connective that a symbol stands for between two operands. -/
def ofSymbol? : Symbol → Option Connective
  | .or => some (.logical .or)
  | .and => some (.logical .and)
  | .equal => some (.binary .equal)
  | .notEqual => some (.binary .notEqual)
  | .strictEqual => some (.binary .strictEqual)
  | .strictNotEqual => some (.binary .strictNotEqual)
  | .less => some (.binary .less)
  | .greater => some (.binary .greater)
  | .lessEqual => some (.binary .lessEqual)
  | .greaterEqual => some (.binary .greaterEqual)
  | .plus => some (.binary .add)
  | .minus => some (.binary .subtract)
  | .times => some (.binary .multiply)
  | .divide => some (.binary .divide)
  | .percent => some (.binary .remainder)
  | _ => none

/-- The symbol of a connective stands for it. -/
theorem ofSymbol?_symbol (connective : Connective) :
    ofSymbol? connective.symbol = some connective := by
  rcases connective with operator | operator <;> cases operator <;> rfl

/-- A symbol stands for no connective but the one it is the symbol of. -/
theorem symbol_of_ofSymbol? {sign : Symbol} {connective : Connective}
    (h : ofSymbol? sign = some connective) : connective.symbol = sign := by
  cases sign <;> simp [ofSymbol?] at h <;> subst h <;> rfl

end Connective

/-- The operator that a symbol stands for before its operand. -/
def UnaryOperator.ofSymbol? : Symbol → Option UnaryOperator
  | .plus => some .plus
  | .minus => some .minus
  | .not => some .not
  | _ => none

/-- The symbol of a unary operator stands for it. -/
theorem UnaryOperator.ofSymbol?_symbol (operator : UnaryOperator) :
    UnaryOperator.ofSymbol? operator.symbol = some operator := by
  cases operator <;> rfl

end TemplateExpr
