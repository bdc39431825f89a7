/-!
# Symbols

Punctuation and operator signs. A punctuation mark is always a symbol of its own, while of
the operator signs the longest one that fits is taken.
-/

namespace TemplateExpr

/-- A punctuation mark or an operator sign. -/
inductive Symbol where
  | openParen | closeParen | openBracket | closeBracket | openBrace | closeBrace
  | comma | semicolon | colon | dot | question
  | strictEqual | strictNotEqual
  | equal | notEqual | lessEqual | greaterEqual | and | or
  | plus | minus | times | divide | percent | not | assign | less | greater | pipe
  deriving DecidableEq

namespace Symbol

/-- The characters of a symbol. -/
def text : Symbol → String
  | .openParen => "("
  | .closeParen => ")"
  | .openBracket => "["
  | .closeBracket => "]"
  | .openBrace => "\x7b"
  | .closeBrace => "\x7d"
  | .comma => ","
  | .semicolon => ";"
  | .colon => ":"
  | .dot => "."
  | .question => "?"
  | .strictEqual => "==="
  | .strictNotEqual => "!=="
  | .equal => "=="
  | .notEqual => "!="
  | .lessEqual => "<="
  | .greaterEqual => ">="
  | .and => "&&"
  | .or => "||"
  | .plus => "+"
  | .minus => "-"
  | .times => "*"
  | .divide => "/"
  | .percent => "%"
  | .not => "!"
  | .assign => "="
  | .less => "<"
  | .greater => ">"
  | .pipe => "|"

/-- The punctuation mark that a character is. -/
def punctuation? : Char → Option Symbol
  | '(' => some .openParen
  | ')' => some .closeParen
  | '[' => some .openBracket
  | ']' => some .closeBracket
  | '\x7b' => some .openBrace
  | '\x7d' => some .closeBrace
  | ',' => some .comma
  | ';' => some .semicolon
  | ':' => some .colon
  | '.' => some .dot
  | '?' => some .question
  | _ => none

/-- The longest operator sign at the front of a text, and what follows it. -/
def operator? : List Char → Option (Symbol × List Char)
  | '=' :: '=' :: '=' :: rest => some (.strictEqual, rest)
  | '!' :: '=' :: '=' :: rest => some (.strictNotEqual, rest)
  | '=' :: '=' :: rest => some (.equal, rest)
  | '!' :: '=' :: rest => some (.notEqual, rest)
  | '<' :: '=' :: rest => some (.lessEqual, rest)
  | '>' :: '=' :: rest => some (.greaterEqual, rest)
  | '&' :: '&' :: rest => some (.and, rest)
  | '|' :: '|' :: rest => some (.or, rest)
  | '+' :: rest => some (.plus, rest)
  | '-' :: rest => some (.minus, rest)
  | '*' :: rest => some (.times, rest)
  | '/' :: rest => some (.divide, rest)
  | '%' :: rest => some (.percent, rest)
  | '!' :: rest => some (.not, rest)
  | '=' :: rest => some (.assign, rest)
  | '<' :: rest => some (.less, rest)
  | '>' :: rest => some (.greater, rest)
  | '|' :: rest => some (.pipe, rest)
  | _ => none

end Symbol

end TemplateExpr
