import TemplateExpr.Number.Binary64

/-!
# Literals

The constants that an expression can spell out.
-/

namespace TemplateExpr

/-- A constant value. -/
inductive Literal where
  | undefined
  | null
  | boolean (value : Bool)
  | integer (value : Int64)
  | float (value : Binary64)
  | string (value : String)
  deriving DecidableEq

namespace Literal

/-- Whether the literal is a number. -/
def isNumber : Literal → Bool
  | .integer _ | .float _ => true
  | _ => false

/-- Whether two literals are of one kind and hold the same value, floats compared as numbers. -/
def same : Literal → Literal → Bool
  | .float x, .float y => x.same y
  | a, b => a == b

end Literal

end TemplateExpr
