import TemplateExpr.Fields
import TemplateExpr.Number.Binary64

/-!
# JSON documents

Documents with integers of 64 bits kept apart from other numbers, all of them finite, and with
the members of an object in the order of their names.
-/

namespace TemplateExpr

/-- A JSON document. -/
inductive Json where
  | null
  | boolean (value : Bool)
  | integer (value : Int64)
  | float (value : Binary64) (finite : value.isFinite = true)
  | string (value : String)
  | array (items : List Json)
  | object (members : List (String × Json))
  deriving Inhabited

namespace Json

/-- The object with the given members, in whatever order they are listed. -/
def ofMembers (members : List (String × Json)) : Json := .object (Fields.ofEntries members)

/-- The document that is a double, if it is finite. -/
def float? (x : Binary64) : Option Json := if h : x.isFinite then some (.float x h) else none

/-- The document in place of a double; what is not finite is null. -/
def ofBinary64 (x : Binary64) : Json := (float? x).getD .null

/-- The member of an object; other documents have none. -/
def member? : Json → String → Option Json
  | .object members, name => Fields.get? members name
  | _, _ => none

/-- The text that the document is, if it is one. -/
def text? : Json → Option String
  | .string value => some value
  | _ => none

/-- The truth value that the document is, if it is one. -/
def boolean? : Json → Option Bool
  | .boolean value => some value
  | _ => none

mutual

/-- How many documents there are inside one another. -/
def depth : Json → Nat
  | .array items => depthOfItems items + 1
  | .object members => depthOfMembers members + 1
  | _ => 1

/-- The greatest depth of the items of an array. -/
def depthOfItems : List Json → Nat
  | [] => 0
  | item :: rest => max (depth item) (depthOfItems rest)

/-- The greatest depth of the members of an object. -/
def depthOfMembers : List (String × Json) → Nat
  | [] => 0
  | (_, value) :: rest => max (depth value) (depthOfMembers rest)

end

end Json

end TemplateExpr
