/-!
# Kinds of values
-/

namespace TemplateExpr

/-- What sort of thing a value is; integers and floats are both numbers. -/
inductive Kind where
  | undefined
  | null
  | boolean
  | number
  | string
  | array
  | object
  | function
  deriving DecidableEq

/-- The name of a kind. -/
def Kind.name : Kind → String
  | .undefined => "undefined"
  | .null => "null"
  | .boolean => "boolean"
  | .number => "number"
  | .string => "string"
  | .array => "array"
  | .object => "object"
  | .function => "function"

end TemplateExpr
