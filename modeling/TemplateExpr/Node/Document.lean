import TemplateExpr.Json.Basic
import TemplateExpr.Node.Basic

/-!
# Trees as documents

The exchange form of trees. A node is an object whose member `type` names its kind, and the
other members hold its parts; an undefined literal has no value. Members that a node has no use
for are ignored. A node may also be an array of its kind and its parts in their order, and inside
another node its kind may be given as its number among the kinds.
-/

namespace TemplateExpr

/-- The kinds of nodes in the exchange form; a filter is a marked call. -/
inductive NodeKind where
  | program | statement | literal | identifier | this | locals | member | call | assignment
  | conditional | logical | binary | unary | array | object
  deriving DecidableEq

/-- The kinds in the order of their numbers. -/
def NodeKind.all : List NodeKind :=
  [.program, .statement, .literal, .identifier, .this, .locals, .member, .call, .assignment,
    .conditional, .logical, .binary, .unary, .array, .object]

/-- The name of a kind. -/
def NodeKind.name : NodeKind → String
  | .program => "Program"
  | .statement => "ExpressionStatement"
  | .literal => "Literal"
  | .identifier => "Identifier"
  | .this => "ThisExpression"
  | .locals => "LocalsExpression"
  | .member => "MemberExpression"
  | .call => "CallExpression"
  | .assignment => "AssignmentExpression"
  | .conditional => "ConditionalExpression"
  | .logical => "LogicalExpression"
  | .binary => "BinaryExpression"
  | .unary => "UnaryExpression"
  | .array => "ArrayExpression"
  | .object => "ObjectExpression"

/-- The document of a literal; `undefined` has none, and a float that is not finite is null. -/
def Literal.toJson? : Literal → Option Json
  | .undefined => none
  | .null => some .null
  | .boolean value => some (.boolean value)
  | .integer value => some (.integer value)
  | .float value => some (.ofBinary64 value)
  | .string value => some (.string value)

/-- The literal of a document. -/
def Literal.ofJson? : Json → Option Literal
  | .null => some .null
  | .boolean value => some (.boolean value)
  | .integer value => some (.integer value)
  | .float value _ => some (.float value)
  | .string value => some (.string value)
  | .array _ | .object _ => none

namespace Node

/-- The document of a node of the given kind. -/
def tagged (kind : NodeKind) (members : List (String × Json)) : Json :=
  .ofMembers (("type", .string kind.name) :: members)

mutual

/-- The document of a tree. -/
def toJson : Node → Json
  | .program body => tagged .program [("body", .array (allToJson body))]
  | .statement expression => tagged .statement [("expression", toJson expression)]
  | .literal value => tagged .literal (value.toJson?.toList.map fun value => ("value", value))
  | .identifier name => tagged .identifier [("name", .string name)]
  | .this => tagged .this []
  | .locals => tagged .locals []
  | .member holder property computed =>
    tagged .member [("object", toJson holder), ("property", toJson property),
      ("computed", .boolean computed)]
  | .call callee arguments =>
    tagged .call [("callee", toJson callee), ("arguments", .array (allToJson arguments))]
  | .filter name arguments =>
    tagged .call [("callee", toJson name), ("arguments", .array (allToJson arguments)),
      ("filter", .boolean true)]
  | .assignment target value =>
    tagged .assignment [("left", toJson target), ("right", toJson value),
      ("operator", .string "=")]
  | .conditional test alternate consequent =>
    tagged .conditional [("test", toJson test), ("alternate", toJson alternate),
      ("consequent", toJson consequent)]
  | .logical operator left right =>
    tagged .logical [("operator", .string operator.text), ("left", toJson left),
      ("right", toJson right)]
  | .binary operator left right =>
    tagged .binary [("operator", .string operator.text), ("left", toJson left),
      ("right", toJson right)]
  | .unary operator leading argument =>
    tagged .unary [("operator", .string operator.text), ("prefix", .boolean leading),
      ("argument", toJson argument)]
  | .array elements => tagged .array [("elements", .array (allToJson elements))]
  | .object properties =>
    tagged .object [("properties", .array (propertiesToJson properties))]

/-- The documents of trees. -/
def allToJson : List Node → List Json
  | [] => []
  | node :: rest => toJson node :: allToJson rest

/-- The documents of the entries of an object literal. -/
def propertiesToJson : List Property → List Json
  | [] => []
  | .entry key value computed :: rest =>
    .ofMembers [("type", .string "Property"), ("kind", .string "init"), ("key", toJson key),
      ("value", toJson value), ("computed", .boolean computed)] :: propertiesToJson rest

end

/-- The kind that a document gives for a node. -/
def kind? (nested : Bool) : Json → Option NodeKind
  | .string name => NodeKind.all.find? (·.name == name)
  | .integer number => if nested && 0 ≤ number then NodeKind.all[number.toInt.toNat]? else none
  | _ => none

/-- The kind of the node that a document is. -/
def documentKind? (nested : Bool) : Json → Option NodeKind
  | .object members => (Fields.get? members "type").bind (kind? nested)
  | .array (kind :: _) => kind? nested kind
  | _ => none

/-- The parts of the node that a document is, in the order of the given names. The last parts of
an array may be missing, but there may be no more parts than names. -/
def documentParts? (names : List String) : Json → Option (List (Option Json))
  | .object members => some (names.map (Fields.get? members))
  | .array (_ :: parts) =>
    if parts.length ≤ names.length then some ((List.range names.length).map (parts[·]?)) else none
  | _ => none

/-- The text of a name without parts: the name itself, or an object that gives it nothing. -/
def bareName? : Json → Option String
  | .string name => some name
  | .object [(name, .null)] | .object [(name, .object [])] => some name
  | _ => none

/-- The trees of an array of documents. -/
def all? (node? : Json → Option Node) : Json → Option (List Node)
  | .array items => items.mapM node?
  | _ => none

/-- The entry of an object literal that a document is. -/
def property? (node? : Json → Option Node) (document : Json) : Option Property := do
  let parts := match document with
    | .array parts => .array (.null :: parts)
    | other => other
  match ← documentParts? ["kind", "key", "value", "computed"] parts with
  | [some kind, some key, some value, some computed] =>
    if ← (bareName? kind).map (· == "init") then
      return .entry (← node? key) (← node? value) (← computed.boolean?)
    else none
  | _ => none

/-- The tree of the given kind that a document is. -/
def ofKind? (node? : Json → Option Node) (kind : NodeKind) (document : Json) : Option Node := do
  match kind with
  | .program =>
    match ← documentParts? ["body"] document with
    | [some body] => return .program (← all? node? body)
    | _ => none
  | .statement =>
    match ← documentParts? ["expression"] document with
    | [some expression] => return .statement (← node? expression)
    | _ => none
  | .literal =>
    match ← documentParts? ["value"] document with
    | [some value] => return .literal (← Literal.ofJson? value)
    | _ => return .literal .undefined
  | .identifier =>
    match ← documentParts? ["name"] document with
    | [some name] => return .identifier (← name.text?)
    | _ => none
  | .this => do
    let _ ← documentParts? [] document
    return .this
  | .locals => do
    let _ ← documentParts? [] document
    return .locals
  | .member =>
    match ← documentParts? ["object", "property", "computed"] document with
    | [some holder, some property, some computed] =>
      return .member (← node? holder) (← node? property) (← computed.boolean?)
    | _ => none
  | .call =>
    match ← documentParts? ["callee", "arguments", "filter"] document with
    | [some callee, some arguments, piped] =>
      let callee ← node? callee
      let arguments ← all? node? arguments
      if ← (piped.getD (.boolean false)).boolean? then return .filter callee arguments
      else return .call callee arguments
    | _ => none
  | .assignment =>
    match ← documentParts? ["left", "right", "operator"] document with
    | [some target, some value, some operator] =>
      if ← (bareName? operator).map (· == "=") then
        return .assignment (← node? target) (← node? value)
      else none
    | _ => none
  | .conditional =>
    match ← documentParts? ["test", "alternate", "consequent"] document with
    | [some test, some alternate, some consequent] =>
      return .conditional (← node? test) (← node? alternate) (← node? consequent)
    | _ => none
  | .logical =>
    match ← documentParts? ["operator", "left", "right"] document with
    | [some operator, some left, some right] =>
      let operator ← (bareName? operator).bind LogicalOperator.ofText?
      return .logical operator (← node? left) (← node? right)
    | _ => none
  | .binary =>
    match ← documentParts? ["operator", "left", "right"] document with
    | [some operator, some left, some right] =>
      let operator ← (bareName? operator).bind BinaryOperator.ofText?
      return .binary operator (← node? left) (← node? right)
    | _ => none
  | .unary =>
    match ← documentParts? ["operator", "prefix", "argument"] document with
    | [some operator, some leading, some argument] =>
      let operator ← (bareName? operator).bind UnaryOperator.ofText?
      return .unary operator (← leading.boolean?) (← node? argument)
    | _ => none
  | .array =>
    match ← documentParts? ["elements"] document with
    | [some elements] => return .array (← all? node? elements)
    | _ => none
  | .object =>
    match ← documentParts? ["properties"] document with
    | [some (.array properties)] => return .object (← properties.mapM (property? node?))
    | _ => none

/-- The tree that a document is, for trees of less than the given depth. -/
def ofDocument? : (depth : Nat) → (nested : Bool) → Json → Option Node
  | 0, _, _ => none
  | depth + 1, nested, document => do
    let kind ← documentKind? nested document
    ofKind? (ofDocument? depth true) kind document

/-- The tree that a document is, if it is one. A tree is no deeper than its document. -/
def ofJson? (document : Json) : Option Node := ofDocument? document.depth false document

end Node

end TemplateExpr
