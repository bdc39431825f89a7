import TemplateExpr.Filter.Builtin
import TemplateExpr.Json.Reader
import TemplateExpr.Node.Document

/-!
# Commands

What the commands of the program do with an expression, as documents. The language is used with
its default options and the built-in filters, and values come from documents, so that no
function is ever at hand.
-/

namespace TemplateExpr

/-- How a command can fail. -/
inductive CommandError where
  | expression (error : Error)
  | invalidJson
  deriving DecidableEq

/-- The message that describes the failure of a command. -/
def CommandError.message : CommandError → String
  | .expression error => error.message
  | .invalidJson => "Invalid JSON"

namespace Command

/-- A host without functions. -/
def host : Host := fun _ _ _ => .ok .undefined

/-- The evaluator of an expression. -/
def compile (expression : String) : Except CommandError (Evaluator Unit) :=
  (Evaluator.ofSource (Builtin.table Unit host).resolver {} expression false).mapError .expression

/-- The members that a kind of lexeme has in the document of a token. -/
def lexemeMembers : Lexeme → List (String × Json)
  | .identifier _ => [("kind", .string "identifier")]
  | .symbol _ => [("kind", .string "operator")]
  | .constant _ value => [("kind", .string "constant"), ("value", value.toValue.toJson)]

/-- The document of a token. -/
def tokenJson (token : Token) : Json :=
  .ofMembers ([("text", .string token.text), ("index", .integer (Int64.ofNat token.index))] ++
    lexemeMembers token.lexeme)

/-- The tokens of an expression. -/
def tokens (expression : String) : Except CommandError Json :=
  ((tokensOf {} expression).map fun tokens => Json.array (tokens.map tokenJson)).mapError
    .expression

/-- The syntax tree of an expression. -/
def tree (expression : String) : Except CommandError Json :=
  ((Node.ofSource {} expression).map Node.toJson).mapError .expression

/-- What a compiled expression depends on and can be used for. -/
def facts (evaluator : Evaluator Unit) : Json :=
  .ofMembers [("assignable", .boolean evaluator.isAssignable),
    ("constant", .boolean evaluator.isConstant), ("literal", .boolean evaluator.isLiteral),
    ("oneTime", .boolean evaluator.isOneTime),
    ("inputs", .array (evaluator.inputs.map .string))]

/-- What an expression depends on and can be used for. -/
def check (expression : String) : Except CommandError Json := (compile expression).map facts

/-- The value of a document. -/
def valueOf (text : String) : Except CommandError Value :=
  match Json.ofText? text with
  | some document => .ok (.ofJson document)
  | none => .error .invalidJson

/-- The value of an expression in a scope, an empty one if none is given. The expression is
compiled before the documents are read. -/
def evaluate (expression : String) (scope locals : Option String) : Except CommandError Json := do
  let evaluator ← compile expression
  let scope ← match scope with
    | some text => valueOf text
    | none => pure (.object [])
  let locals ← locals.mapM valueOf
  match (evaluator.evaluate host ⟨scope, locals, ()⟩).1 with
  | .ok value => return value.toJson
  | .error error => throw (.expression error)

end Command

end TemplateExpr
