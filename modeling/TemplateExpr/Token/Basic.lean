import TemplateExpr.Literal
import TemplateExpr.Token.Symbol

/-!
# Tokens

A token is a lexeme and the place where it begins, counted in characters. Keywords are
identifiers like any other: only the grammar gives them a meaning.
-/

namespace TemplateExpr

/-- The smallest meaningful pieces of a source. -/
inductive Lexeme where
  | identifier (name : String)
  | constant (spelling : String) (value : Literal)
  | symbol (sign : Symbol)
  deriving DecidableEq

/-- The characters of a lexeme, quotes included. -/
def Lexeme.text : Lexeme → String
  | .identifier name => name
  | .constant spelling _ => spelling
  | .symbol sign => sign.text

/-- A lexeme at its place in a source. -/
structure Token where
  lexeme : Lexeme
  index : Nat
  deriving DecidableEq

/-- The characters of a token, quotes included. -/
def Token.text (token : Token) : String := token.lexeme.text

end TemplateExpr
