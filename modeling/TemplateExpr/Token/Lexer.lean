import TemplateExpr.Number.Numeral
import TemplateExpr.Options
import TemplateExpr.Text.Hex
import TemplateExpr.Text.WhiteSpace
import TemplateExpr.Token.Basic

/-!
# Reading tokens

The lexer takes one lexeme at a time from the front of a list of characters and hands on the
rest. White space separates tokens and is dropped. The first character that begins no lexeme
ends the run, and the tokens before it are kept.
-/

namespace TemplateExpr

/-- Why a place in a source begins no lexeme. -/
inductive LexicalFault where
  | unterminatedQuote
  | invalidUnicodeEscape (digits : String)
  | invalidExponent
  | unexpectedCharacter (c : Char)
  deriving DecidableEq

/-- A fault and the place it is reported at. -/
structure LexicalError where
  fault : LexicalFault
  index : Nat
  deriving DecidableEq

namespace Lexer

/-- A lexeme and the characters after it. -/
abbrev Step := Except LexicalError (Lexeme × List Char)

/-- The character whose number the digits spell. A plus sign may stand before the digits. -/
def scalar? (digits : List Char) : Option Char :=
  let digits := match digits with
    | '+' :: rest => rest
    | digits => digits
  (Text.hexValue? 0 digits).bind fun code =>
    if code.isValidChar then some (Char.ofNat code) else none

/-- The character that a backslash before `c` stands for. -/
def escaped : Char → Char
  | 'n' => '\n'
  | 'f' => '\x0c'
  | 'r' => '\r'
  | 't' => '\t'
  | 'v' => '\x0b'
  | c => c

/-- The decoded characters up to the closing quote, and the characters after it.

`start` is the place of the opening quote and `index` the place of the first character given. -/
def quoted (quote : Char) (start index : Nat) :
    List Char → Except LexicalError (List Char × List Char)
  | [] => .error ⟨.unterminatedQuote, start⟩
  | '\\' :: 'u' :: a :: b :: c :: d :: rest =>
    match scalar? [a, b, c, d] with
    | some decoded => do
      let (value, rest) ← quoted quote start (index + 6) rest
      return (decoded :: value, rest)
    | none => .error ⟨.invalidUnicodeEscape (String.ofList [a, b, c, d]), index⟩
  | '\\' :: 'u' :: rest => .error ⟨.invalidUnicodeEscape (String.ofList rest), index⟩
  | '\\' :: c :: rest => do
    let (value, rest) ← quoted quote start (index + 2) rest
    return (escaped c :: value, rest)
  | ['\\'] => .error ⟨.unterminatedQuote, start⟩
  | c :: rest =>
    if c = quote then .ok ([], rest)
    else do
      let (value, rest) ← quoted quote start (index + 1) rest
      return (c :: value, rest)

/-- The string constant whose opening quote stands before the given characters. -/
def string (quote : Char) (index : Nat) (chars : List Char) : Step := do
  let (value, rest) ← quoted quote index (index + 1) chars
  let spelling := quote :: chars.take (chars.length - rest.length)
  return (.constant (String.ofList spelling) (.string (String.ofList value)), rest)

/-- Whether a point before the given characters belongs to the number before it.

It does not when it begins a member access such as `1.name`. -/
def pointContinues (options : Options) : List Char → Bool
  | [] => true
  | c :: rest =>
    if c.isDigit then true
    else if c = 'e' || c = 'E' then
      match rest with
      | [] => false
      | d :: _ => d.isDigit || d = '+' || d = '-'
    else !options.beginsIdentifier c

/-- The optional exponent part of a number that begins at `index`. -/
def exponentPart (index : Nat) : List Char → Except LexicalError (List Char × List Char)
  | [] => .ok ([], [])
  | c :: rest =>
    if c = 'e' || c = 'E' then
      match rest with
      | d :: more =>
        if d.isDigit then .ok (c :: rest.takeWhile Char.isDigit, rest.dropWhile Char.isDigit)
        else if (d = '+' || d = '-') && (more.head?.any Char.isDigit) then
          .ok (c :: d :: more.takeWhile Char.isDigit, more.dropWhile Char.isDigit)
        else .error ⟨.invalidExponent, index⟩
      | [] => .error ⟨.invalidExponent, index⟩
    else .ok ([], c :: rest)

/-- The value of a number: an integer if it is a row of digits in range, else a float. -/
def numberValue (whole fraction exponent : List Char) : Literal :=
  if fraction = [] && exponent = [] && decimalValue whole < 0x8000000000000000 then
    .integer (Int64.ofNat (decimalValue whole))
  else
    .float (Numeral.toBinary64 ⟨false, whole, fraction.drop 1, (Numeral.exponent? exponent).getD 0⟩)

/-- The number at the front of the characters. -/
def number (options : Options) (index : Nat) (chars : List Char) : Step := do
  let whole := chars.takeWhile Char.isDigit
  let rest := chars.dropWhile Char.isDigit
  let (fraction, rest) := match rest with
    | '.' :: after =>
      if pointContinues options after then
        ('.' :: after.takeWhile Char.isDigit, after.dropWhile Char.isDigit)
      else ([], rest)
    | _ => ([], rest)
  let (exponent, rest) ← exponentPart (index + whole.length + fraction.length) rest
  return (.constant (String.ofList (whole ++ fraction ++ exponent))
    (numberValue whole fraction exponent), rest)

/-- The identifier or operator sign at the front of the characters `c :: rest`. -/
def word (options : Options) (index : Nat) (c : Char) (rest : List Char) : Step :=
  if options.beginsIdentifier c then
    .ok (.identifier (String.ofList (c :: rest.takeWhile options.continuesIdentifier)),
      rest.dropWhile options.continuesIdentifier)
  else match Symbol.operator? (c :: rest) with
    | some (symbol, rest) => .ok (.symbol symbol, rest)
    | none => .error ⟨.unexpectedCharacter c, index⟩

/-- The lexeme at the front of the characters `c :: rest`. -/
def lexeme (options : Options) (index : Nat) (c : Char) (rest : List Char) : Step :=
  if c = '"' || c = '\'' then string c index rest
  else if c.isDigit || (c = '.' && rest.head?.any Char.isDigit) then
    number options index (c :: rest)
  else match Symbol.punctuation? c with
    | some symbol => .ok (.symbol symbol, rest)
    | none => word options index c rest

/-- The tokens of characters that begin at `index`, and the error that ends them, if any.

Each token takes a character at least, so a budget of one more than their number is enough. -/
def tokensFrom (options : Options) :
    (budget index : Nat) → List Char → List Token × Option LexicalError
  | 0, _, _ => ([], none)
  | budget + 1, index, chars =>
    let start := index + (chars.takeWhile Text.isWhiteSpace).length
    match chars.dropWhile Text.isWhiteSpace with
    | [] => ([], none)
    | c :: rest =>
      match lexeme options start c rest with
      | .error error => ([], some error)
      | .ok (lexeme, rest) =>
        let (tokens, error) := tokensFrom options budget (start + lexeme.text.length) rest
        (⟨lexeme, start⟩ :: tokens, error)

end Lexer

/-- The tokens of a source, and the error that ends them, if any. -/
def scan (options : Options) (source : String) : List Token × Option LexicalError :=
  Lexer.tokensFrom options (source.length + 1) 0 source.toList

/-- The tokens of a source in which every lexeme is sound. -/
def tokenize (options : Options) (source : String) : Except LexicalError (List Token) :=
  match scan options source with
  | (tokens, none) => .ok tokens
  | (_, some error) => .error error

end TemplateExpr
