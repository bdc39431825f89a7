import TemplateExpr.Literal
import TemplateExpr.Operator

/-!
# Expression trees

The syntax tree of a program. It is plain data: trees that no source text denotes, such as a
statement inside an expression, are trees all the same.
-/

namespace TemplateExpr

mutual

/-- A node of the syntax tree. -/
inductive Node where
  /-- Statements separated by semicolons. -/
  | program (body : List Node)
  /-- One statement of a program. -/
  | statement (expression : Node)
  | literal (value : Literal)
  /-- A name looked up in the locals, then in the scope. -/
  | identifier (name : String)
  /-- The scope itself. -/
  | this
  /-- The locals themselves. -/
  | locals
  /-- `object.property`, or `object[property]` when computed. -/
  | member (object property : Node) (computed : Bool)
  | call (callee : Node) (arguments : List Node)
  /-- `input | name:argument:…`; the input is the first argument. -/
  | filter (name : Node) (arguments : List Node)
  | assignment (target value : Node)
  | conditional (test alternate consequent : Node)
  | logical (operator : LogicalOperator) (left right : Node)
  | binary (operator : BinaryOperator) (left right : Node)
  /-- An operator with one operand. Trees from elsewhere may deny that it stands before it. -/
  | unary (operator : UnaryOperator) (leading : Bool) (argument : Node)
  | array (elements : List Node)
  | object (properties : List Property)

/-- An entry of an object literal. -/
inductive Property where
  /-- `key: value`, or `[key]: value` when computed. -/
  | entry (key value : Node) (computed : Bool)

end

namespace Node

/-- Whether the node can stand on the left of an assignment. -/
def isAssignable : Node → Bool
  | .identifier _ | .member .. => true
  | _ => false

/-- The expressions of a program in order; any other node is its own only statement. -/
def statements : Node → List Node
  | .program body => body.map fun
    | .statement expression => expression
    | other => other
  | .statement expression => [expression]
  | other => [other]

mutual

/-- Whether two trees are equal up to the numerical equality of their float literals. -/
def same : Node → Node → Bool
  | .program a, .program b => sameAll a b
  | .statement a, .statement b => same a b
  | .literal a, .literal b => a.same b
  | .identifier a, .identifier b => a == b
  | .this, .this | .locals, .locals => true
  | .member o p c, .member o' p' c' => same o o' && same p p' && c == c'
  | .call f a, .call f' a' => same f f' && sameAll a a'
  | .filter f a, .filter f' a' => same f f' && sameAll a a'
  | .assignment t v, .assignment t' v' => same t t' && same v v'
  | .conditional t a c, .conditional t' a' c' => same t t' && same a a' && same c c'
  | .logical o l r, .logical o' l' r' => o == o' && same l l' && same r r'
  | .binary o l r, .binary o' l' r' => o == o' && same l l' && same r r'
  | .unary o p a, .unary o' p' a' => o == o' && p == p' && same a a'
  | .array a, .array b => sameAll a b
  | .object a, .object b => sameProperties a b
  | _, _ => false

/-- `Node.same` for lists of trees. -/
def sameAll : List Node → List Node → Bool
  | [], [] => true
  | a :: rest, b :: rest' => same a b && sameAll rest rest'
  | _, _ => false

/-- `Node.same` for the entries of object literals. -/
def sameProperties : List Property → List Property → Bool
  | [], [] => true
  | .entry k v c :: rest, .entry k' v' c' :: rest' =>
    same k k' && same v v' && c == c' && sameProperties rest rest'
  | _, _ => false

end

end Node

end TemplateExpr
