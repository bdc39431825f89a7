import TemplateExpr.Json.Basic
import TemplateExpr.Value.Basic

/-!
# Values and documents

Every document is a value. The other way round, what no document can hold is left out of
objects and is null everywhere else.
-/

namespace TemplateExpr.Value

mutual

/-- The value of a document. -/
def ofJson : Json → Value
  | .null => .null
  | .boolean value => .boolean value
  | .integer value => .integer value
  | .float value _ => .float value
  | .string value => .string value
  | .array items => .array (ofItems items)
  | .object members => .object (ofMembers members)

/-- The values of the items of a document. -/
def ofItems : List Json → List Value
  | [] => []
  | item :: rest => ofJson item :: ofItems rest

/-- The values of the members of a document. -/
def ofMembers : List (String × Json) → List (String × Value)
  | [] => []
  | (name, item) :: rest => (name, ofJson item) :: ofMembers rest

end

/-- Whether an object keeps the value when it becomes a document. -/
def isDocumented : Value → Bool
  | .undefined | .function _ => false
  | _ => true

mutual

/-- The document of a value. -/
def toJson : Value → Json
  | .undefined | .null | .function _ => .null
  | .boolean value => .boolean value
  | .integer value => .integer value
  | .float value => .ofBinary64 value
  | .string value => .string value
  | .array items => .array (toItems items)
  | .object fields => .object (toMembers fields)

/-- The documents of the items of an array. -/
def toItems : List Value → List Json
  | [] => []
  | item :: rest => toJson item :: toItems rest

/-- The documents of those fields of an object that have one. -/
def toMembers : List (String × Value) → List (String × Json)
  | [] => []
  | (name, item) :: rest =>
    if item.isDocumented then (name, toJson item) :: toMembers rest else toMembers rest

end

end TemplateExpr.Value
