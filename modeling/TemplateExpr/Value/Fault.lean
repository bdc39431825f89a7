import TemplateExpr.Value.Kind

/-!
# Type faults

The ways in which a value can be used as what it is not.
-/

namespace TemplateExpr

/-- A value used as what it is not. -/
inductive TypeFault where
  /-- Calling a value that is no function, in the given expression. -/
  | notCallable (kind : Kind) (source : String)
  /-- Writing a property of a value that has none. -/
  | notWritable (key : String) (kind : Kind)
  /-- Writing an array element whose key is no index. -/
  | notIndex (key : String)
  /-- Writing too far past the end of an array. -/
  | indexOutOfRange (index length : Nat)
  /-- Filtering something that is no array. -/
  | notFilterable (kind : Kind)
  /-- Sort keys that sort by further keys beyond all bounds. -/
  | endlessKeys
  /-- A fault of the host's own. -/
  | host (message : String)
  deriving DecidableEq

/-- What is wrong with a value, in words. -/
def TypeFault.message : TypeFault → String
  | .notCallable kind source => s!"{kind.name} is not a function in expression [{source}]"
  | .notWritable key kind => s!"Cannot set property '{key}' of {kind.name}"
  | .notIndex key => s!"Cannot use key '{key}' on array"
  | .indexOutOfRange index length => s!"Array index {index} is out of range (length {length})"
  | .notFilterable kind => s!"filter: expected an array, got {kind.name}"
  | .endlessKeys => "orderBy: sort keys are nested too deeply"
  | .host message => message

end TemplateExpr
