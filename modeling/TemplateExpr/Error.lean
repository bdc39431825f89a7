import TemplateExpr.Node.Parser
import TemplateExpr.Token.Lexer
import TemplateExpr.Value.Fault

/-!
# Errors

Everything that can go wrong with an expression, by cause. An error keeps the source text that
it is about, because its message quotes it.
-/

namespace TemplateExpr

/-- What can go wrong between reading an expression and evaluating it. -/
inductive Error where
  | lexical (error : LexicalError) (source : String)
  | unfit (token : Token) (fault : SyntaxFault) (source : String)
  | unexpectedEnd (source : String)
  | notAssignable (source : String)
  /-- The sandbox refuses a name. -/
  | forbidden (name source : String)
  | unknownFilter (name source : String)
  | notLiteral (source : String)
  | type (fault : TypeFault)
  deriving DecidableEq

/-- The classes of errors that a host can tell apart. -/
inductive ErrorClass where
  | lexical
  | syntactic
  | unexpectedEnd
  | nonAssignable
  | security
  | unknownFilter
  | nonLiteral
  | type
  deriving DecidableEq

/-- The name of a class of errors. -/
def ErrorClass.name : ErrorClass → String
  | .lexical => "lexical"
  | .syntactic => "syntax"
  | .unexpectedEnd => "unexpected-end"
  | .nonAssignable => "non-assignable"
  | .security => "security"
  | .unknownFilter => "unknown-filter"
  | .nonLiteral => "non-literal"
  | .type => "type"

/-- What is wrong with a lexeme, in words. -/
def LexicalFault.message : LexicalFault → String
  | .unterminatedQuote => "Unterminated quote"
  | .invalidUnicodeEscape digits => s!"Invalid unicode escape [\\u{digits}]"
  | .invalidExponent => "Invalid exponent"
  | .unexpectedCharacter c => s!"Unexpected next character '{c}'"

/-- What is wrong with a token, in words. -/
def SyntaxFault.message : SyntaxFault → String
  | .expecting sign => s!"is unexpected, expecting [{sign.text}]"
  | .unexpected => "is an unexpected token"
  | .notPrimary => "not a primary expression"
  | .notIdentifier => "is not a valid identifier"
  | .invalidKey => "invalid key"

namespace Error

/-- The class of an error. -/
def errorClass : Error → ErrorClass
  | .lexical .. => .lexical
  | .unfit .. => .syntactic
  | .unexpectedEnd _ => .unexpectedEnd
  | .notAssignable _ => .nonAssignable
  | .forbidden .. => .security
  | .unknownFilter .. => .unknownFilter
  | .notLiteral _ => .nonLiteral
  | .type _ => .type

/-- The source from the given place on. -/
def remaining (source : String) (index : Nat) : String := String.ofList (source.toList.drop index)

/-- The message that describes an error. Columns are counted from one. -/
def message : Error → String
  | .lexical ⟨fault, index⟩ source =>
    s!"Lexer Error: {fault.message} at column {index + 1} in expression [{source}]"
  | .unfit token fault source =>
    s!"Syntax Error: Token '{token.text}' {fault.message} at column {token.index + 1} " ++
      s!"of the expression [{source}] starting at [{remaining source token.index}]"
  | .unexpectedEnd source => s!"Unexpected end of expression: {source}"
  | .notAssignable source =>
    s!"Trying to assign a value to a non l-value in expression [{source}]"
  | .forbidden name source =>
    s!"Attempting to access a disallowed field '{name}' in expression [{source}]"
  | .unknownFilter name source => s!"Unknown filter '{name}' in expression [{source}]"
  | .notLiteral source => s!"Expression [{source}] is not a literal"
  | .type fault => s!"Type error: {fault.message}"

end Error

end TemplateExpr
