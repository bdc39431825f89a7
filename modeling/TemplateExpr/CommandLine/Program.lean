import TemplateExpr.CommandLine.Arguments
import TemplateExpr.CommandLine.Commands

/-!
# The program

The outcome of a command line and the text given on standard input. Nothing here reads or
writes: that is left to the outermost layer.
-/

namespace TemplateExpr

/-- How a run of the program ends. -/
inductive Outcome where
  /-- The text goes to standard output. -/
  | success (output : String)
  | failure (error : CommandError)
  | usage
  deriving DecidableEq

namespace Program

/-- The page of help for the program or a command. -/
def helpText : HelpPage → String
  | .program =>
    "bindexpr - Parse, inspect and evaluate data-binding expressions\n\n" ++
    "Usage: bindexpr [OPTIONS] <COMMAND>\n\n" ++
    "Commands:\n" ++
    "  tokens  Print the tokens of an expression\n" ++
    "  ast     Print the syntax tree of an expression as JSON\n" ++
    "  check   Compile an expression and report what it depends on\n" ++
    "  eval    Evaluate an expression against a JSON scope\n" ++
    "  help    Print this message or the help of the given subcommand(s)\n\n" ++
    "Options:\n" ++
    "  -v, --verbose  Log compilation and cache activity to stderr\n" ++
    "  -h, --help     Print help\n" ++
    "  -V, --version  Print version\n"
  | .command .tokens =>
    "Print the tokens of an expression\n\n" ++
    "Usage: bindexpr tokens [OPTIONS] <EXPRESSION>\n\n" ++
    "Arguments:\n" ++
    "  <EXPRESSION>  The expression to tokenize\n\n" ++
    "Options:\n" ++
    "  -v, --verbose  Log compilation and cache activity to stderr\n" ++
    "  -h, --help     Print help\n"
  | .command .tree =>
    "Print the syntax tree of an expression as JSON\n\n" ++
    "Usage: bindexpr ast [OPTIONS] <EXPRESSION>\n\n" ++
    "Arguments:\n" ++
    "  <EXPRESSION>  The expression to parse\n\n" ++
    "Options:\n" ++
    "  -p, --pretty   Pretty-print the output\n" ++
    "  -v, --verbose  Log compilation and cache activity to stderr\n" ++
    "  -h, --help     Print help\n"
  | .command .check =>
    "Compile an expression and report what it depends on\n\n" ++
    "Usage: bindexpr check [OPTIONS] <EXPRESSION>\n\n" ++
    "Arguments:\n" ++
    "  <EXPRESSION>  The expression to compile\n\n" ++
    "Options:\n" ++
    "  -v, --verbose  Log compilation and cache activity to stderr\n" ++
    "  -h, --help     Print help\n"
  | .command .evaluate =>
    "Evaluate an expression against a JSON scope\n\n" ++
    "Usage: bindexpr eval [OPTIONS] <EXPRESSION>\n\n" ++
    "Arguments:\n" ++
    "  <EXPRESSION>  The expression to evaluate\n\n" ++
    "Options:\n" ++
    "  -s, --scope <SCOPE>    JSON scope (reads from stdin if not provided)\n" ++
    "  -l, --locals <LOCALS>  JSON locals, shadowing the scope\n" ++
    "  -p, --pretty           Pretty-print the output\n" ++
    "  -v, --verbose          Log compilation and cache activity to stderr\n" ++
    "  -h, --help             Print help\n"
  | .help =>
    "Print this message or the help of the given subcommand(s)\n\n" ++
    "Usage: bindexpr help [COMMAND]...\n\n" ++
    "Arguments:\n" ++
    "  [COMMAND]...  Print help for the subcommand(s)\n"

/-- The outcome of a command whose document is printed, on indented lines if asked for. -/
def printed (pretty : Bool) : Except CommandError Json → Outcome
  | .ok document => .success (document.write (if pretty then 2 else 0) ++ "\n")
  | .error error => .failure error

/-- The text on standard input as a scope, unless it is blank. -/
def scopeOfInput (input : String) : Option String :=
  if Text.isBlank input.toList then none else some input

/-- Whether standard input has a part in the outcome of a request. -/
def readsInput : Request → Bool
  | .evaluate _ none _ _ => true
  | _ => false

/-- The outcome of a request. -/
def outcome (input : String) : Request → Outcome
  | .tokens expression => printed false (Command.tokens expression)
  | .tree expression pretty => printed pretty (Command.tree expression)
  | .check expression => printed true (Command.check expression)
  | .evaluate expression scope locals pretty =>
    printed pretty (Command.evaluate expression (scope <|> scopeOfInput input) locals)
  | .help page => .success (helpText page)
  | .version => .success "bindexpr 0.1.0\n"
  | .usage => .usage

/-- The outcome of a command line. -/
def run (arguments : List String) (input : String) : Outcome :=
  outcome input (.ofArguments arguments)

end Program

end TemplateExpr
