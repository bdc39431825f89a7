import TemplateExpr.Filter.Basic
import TemplateExpr.Operator

/-!
# Compiled code

What a tree is compiled to. Filters are looked up, every name and member access is a path from
a root, and nothing is left that could only fail by being malformed.
-/

namespace TemplateExpr

mutual

/-- Compiled code over filters with memory `σ`. -/
inductive Code (σ : Type) where
  | constant (value : Value)
  | scope
  | locals
  | read (path : Path σ)
  /-- Call what is at the end of a path, with the value that holds it as receiver. -/
  | invoke (path : Path σ) (arguments : List (Code σ))
  /-- Call any other value, without a receiver. -/
  | call (callee : Code σ) (arguments : List (Code σ))
  | filter (filter : Filter σ) (arguments : List (Code σ))
  | assign (target : Path σ) (value : Code σ)
  | choose (test alternate consequent : Code σ)
  | logical (operator : LogicalOperator) (left right : Code σ)
  | binary (operator : BinaryOperator) (left right : Code σ)
  | unary (operator : UnaryOperator) (argument : Code σ)
  | array (elements : List (Code σ))
  | object (entries : List (Entry σ))
  | sequence (body : List (Code σ))

/-- An access path: a root and the keys from there. -/
inductive Path (σ : Type) where
  | from (root : Root σ) (keys : List (Key σ))

/-- Where an access path begins. -/
inductive Root (σ : Type) where
  /-- A name, looked up in the locals, then in the scope. -/
  | variable (name : String)
  | scope
  | locals
  /-- Any other value, computed once for each access. -/
  | temporary (code : Code σ)

/-- A key, spelled out or computed at each use. -/
inductive Key (σ : Type) where
  | fixed (name : String)
  | computed (code : Code σ)

/-- An entry of an object. -/
inductive Entry (σ : Type) where
  | entry (key : Key σ) (value : Code σ)

end

namespace Code

variable {σ : Type}

/-- The code as an access path, for code that only reads one; other code is a root. -/
def toPath : Code σ → Path σ
  | .read path => path
  | .scope => .from .scope []
  | .locals => .from .locals []
  | code => .from (.temporary code) []

end Code

/-- The path with one more key. -/
def Path.push {σ : Type} : Path σ → Key σ → Path σ
  | .from root keys, key => .from root (keys ++ [key])

end TemplateExpr
