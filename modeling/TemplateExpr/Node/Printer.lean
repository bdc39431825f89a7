import TemplateExpr.Node.Level
import TemplateExpr.Number.Display
import TemplateExpr.Token.Basic

/-!
# Printing

The canonical source of a tree: single spaces around binary operators, strings in double
quotes, and parentheses only where a part binds looser than its place allows. A tree is printed
as pieces, most of which are the lexemes that reading it back should find.
-/

namespace TemplateExpr

/-- Float literals keep a fraction, so that they are read back as floats. -/
def Layout.literal : Layout := ⟨fun leading => -4 ≤ leading && leading ≤ 15, ".0", "", .up⟩

namespace Printer

/-- Four hexadecimal digits. -/
def fourHexDigits (code : Nat) : List Char :=
  let digits := Nat.toDigits 16 code
  List.replicate (4 - digits.length) '0' ++ digits

/-- A character as it is written inside double quotes. -/
def quotedChar (c : Char) : List Char :=
  match c with
  | '"' => ['\\', '"']
  | '\\' => ['\\', '\\']
  | '\n' => ['\\', 'n']
  | '\r' => ['\\', 'r']
  | '\t' => ['\\', 't']
  | '\x0c' => ['\\', 'f']
  | '\x0b' => ['\\', 'v']
  | c =>
    let code := c.toNat
    if code < 0x20 || (0x7F ≤ code && code ≤ 0x9F) then '\\' :: 'u' :: fourHexDigits code else [c]

/-- A text in double quotes. -/
def quoted (text : String) : String :=
  String.ofList ('"' :: text.toList.flatMap quotedChar ++ ['"'])

end Printer

/-- A piece of a printed source. The parentheses that only group are told from those of calls. -/
inductive Piece where
  | lexeme (word : Lexeme)
  | space
  | groupStart
  | groupEnd
  deriving DecidableEq

namespace Piece

/-- The piece that a symbol is. -/
abbrev symbol (sign : Symbol) : Piece := .lexeme (.symbol sign)

/-- The characters of a piece. -/
def text : Piece → String
  | .lexeme word => word.text
  | .space => " "
  | .groupStart => "("
  | .groupEnd => ")"

/-- The lexeme that a piece is read back as; a space is none. -/
def lexeme? : Piece → Option Lexeme
  | .lexeme word => some word
  | .space => none
  | .groupStart => some (.symbol .openParen)
  | .groupEnd => some (.symbol .closeParen)

/-- Lists of pieces with a separator between each two of them. -/
def separated (separator : List Piece) : List (List Piece) → List Piece
  | [] => []
  | [pieces] => pieces
  | pieces :: rest => pieces ++ separator ++ separated separator rest

end Piece

/-- The lexeme of a literal. A float that is not finite has no literal of its own; it is printed
as a name. -/
def Literal.lexeme : Literal → Lexeme
  | .undefined => .identifier "undefined"
  | .null => .identifier "null"
  | .boolean value => .identifier (if value then "true" else "false")
  | .integer value => .constant (toString value.toInt) (.integer value)
  | .float value =>
    if value.isFinite then .constant (Layout.literal.text value) (.float value)
    else .identifier value.display
  | .string value => .constant (Printer.quoted value) (.string value)

namespace Node

/-- The pieces of a part in a place that admits the given level and tighter ones. -/
def fitted (least : Level) (part : Node) (pieces : List Piece) : List Piece :=
  if part.level.rank < least.rank then .groupStart :: pieces ++ [.groupEnd] else pieces

/-- The pieces of an operator between two operands. -/
def between (sign : Symbol) : List Piece := [.space, .symbol sign, .space]

mutual

/-- The pieces of the source of a tree. -/
def pieces : Node → List Piece
  | .program body => Piece.separated [.symbol .semicolon, .space] (allPieces .filter body)
  | .statement expression => pieces expression
  | .literal value => [.lexeme value.lexeme]
  | .identifier name => [.lexeme (.identifier name)]
  | .this => [.lexeme (.identifier "this")]
  | .locals => [.lexeme (.identifier "$locals")]
  | .member holder property computed =>
    fitted .chain holder (pieces holder) ++
      if computed then
        .symbol .openBracket :: fitted .assignment property (pieces property) ++
          [.symbol .closeBracket]
      else .symbol .dot :: pieces property
  | .call callee arguments =>
    fitted .chain callee (pieces callee) ++ .symbol .openParen ::
      Piece.separated [.symbol .comma, .space] (allPieces .filter arguments) ++
      [.symbol .closeParen]
  | .filter name [] => between .pipe ++ pieces name
  | .filter name (input :: arguments) =>
    pieces input ++ between .pipe ++
      Piece.separated [.symbol .colon] (pieces name :: allPieces .assignment arguments)
  | .assignment target value =>
    fitted .chain target (pieces target) ++ between .assign ++
      fitted .assignment value (pieces value)
  | .conditional test alternate consequent =>
    fitted .or test (pieces test) ++ between .question ++
      fitted .assignment alternate (pieces alternate) ++ between .colon ++
      fitted .assignment consequent (pieces consequent)
  | .logical operator left right =>
    fitted operator.level left (pieces left) ++ between operator.symbol ++
      fitted operator.level.next right (pieces right)
  | .binary operator left right =>
    fitted operator.level left (pieces left) ++ between operator.symbol ++
      fitted operator.level.next right (pieces right)
  | .unary operator _ argument =>
    .symbol operator.symbol :: fitted .unary argument (pieces argument)
  | .array elements =>
    .symbol .openBracket ::
      Piece.separated [.symbol .comma, .space] (allPieces .assignment elements) ++
      [.symbol .closeBracket]
  | .object properties =>
    .symbol .openBrace :: Piece.separated [.symbol .comma, .space] (propertyPieces properties) ++
      [.symbol .closeBrace]

/-- The pieces of each of several trees in places of one level. -/
def allPieces (least : Level) : List Node → List (List Piece)
  | [] => []
  | node :: rest => fitted least node (pieces node) :: allPieces least rest

/-- The pieces of each of the entries of an object literal. -/
def propertyPieces : List Property → List (List Piece)
  | [] => []
  | .entry key value computed :: rest =>
    ((if computed then
        .symbol .openBracket :: fitted .assignment key (pieces key) ++ [.symbol .closeBracket]
      else pieces key) ++
      [.symbol .colon, .space] ++ fitted .assignment value (pieces value)) :: propertyPieces rest

end

/-- The source of a tree. -/
def text (node : Node) : String := String.join (node.pieces.map Piece.text)

end Node

end TemplateExpr
