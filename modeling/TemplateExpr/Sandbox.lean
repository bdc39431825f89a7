import TemplateExpr.Error

/-!
# Sandbox

Names that reach into the machinery of an object model rather than into data. No expression
may read, write or call a property by such a name, spelled out or computed.
-/

namespace TemplateExpr.Sandbox

/-- The names that no access may use. -/
def forbiddenNames : List String :=
  ["constructor", "prototype", "__proto__", "__defineGetter__", "__defineSetter__",
    "__lookupGetter__", "__lookupSetter__"]

/-- Whether accesses by the name are refused. -/
def isForbidden (name : String) : Bool := forbiddenNames.contains name

/-- Refuse a forbidden name in an expression. -/
def check (name source : String) : Except Error Unit :=
  if isForbidden name then .error (.forbidden name source) else .ok ()

end TemplateExpr.Sandbox
