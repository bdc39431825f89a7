import TemplateExpr.Literal
import TemplateExpr.Text.Letter

/-!
# Options of the language

A host may add literal keywords and choose the characters that identifiers are made of.
-/

namespace TemplateExpr

/-- What the reader of an expression can be told. -/
structure Options where
  /-- The literal keywords, the latest first. -/
  literals : List (String × Literal) :=
    [("true", .boolean true), ("false", .boolean false), ("null", .null),
      ("undefined", .undefined)]
  /-- The characters that begin an identifier. -/
  beginsIdentifier : Char → Bool := fun c => Text.isAlphabetic c || c == '_' || c == '$'
  /-- The characters that continue an identifier. -/
  continuesIdentifier : Char → Bool := fun c => Text.isAlphanumeric c || c == '_' || c == '$'

namespace Options

/-- The literal that a keyword stands for. -/
def literal? (options : Options) (name : String) : Option Literal :=
  options.literals.lookup name

/-- Make a name a literal keyword, or give a keyword a new meaning. -/
def addLiteral (options : Options) (name : String) (value : Literal) : Options :=
  { options with literals := (name, value) :: options.literals }

end Options

end TemplateExpr
