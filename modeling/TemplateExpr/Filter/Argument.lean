import TemplateExpr.Value.Basic

/-!
# Filter arguments
-/

namespace TemplateExpr

/-- The argument at a place; one that was not given is `undefined`. -/
def argument (arguments : List Value) (index : Nat) : Value := arguments[index]?.getD .undefined

end TemplateExpr
