import TemplateExpr.Error

/-!
# Trees of sources

Reading a source is reading its tokens and then the program they spell.
-/

namespace TemplateExpr

/-- A failure to parse the tokens of a source, as an error of that source.

The nesting budget outlasts every list of tokens, so its end is reported as any other end. -/
def ParseFailure.toError (source : String) : ParseFailure → Error
  | .unexpectedEnd | .exhausted => .unexpectedEnd source
  | .unfit token fault => .unfit token fault source
  | .notAssignable => .notAssignable source

/-- The tokens of a source. -/
def tokensOf (options : Options) (source : String) : Except Error (List Token) :=
  (tokenize options source).mapError (.lexical · source)

/-- The syntax tree of a source. -/
def Node.ofSource (options : Options) (source : String) : Except Error Node := do
  let tokens ← tokensOf options source
  (Parser.program options tokens).mapError (·.toError source)

end TemplateExpr
