import TemplateExpr.Json.Number
import TemplateExpr.Text.Hex

/-!
# Reading JSON

A document is read from the front of a list of characters, one level of nesting inside
another. Arrays and objects may be nested at most 127 deep, and of several members of one name
the last one counts.
-/

namespace TemplateExpr.Json

/-- Whether the character may stand between tokens. -/
def isSpace (c : Char) : Bool := c == ' ' || c == '\n' || c == '\t' || c == '\r'

/-- The characters from the first one that is no space. -/
def skipSpace (chars : List Char) : List Char := chars.dropWhile isSpace

/-- The character that a backslash before `c` stands for, `u` apart. -/
def escape? : Char → Option Char
  | '"' => some '"'
  | '\\' => some '\\'
  | '/' => some '/'
  | 'b' => some '\x08'
  | 'f' => some '\x0c'
  | 'n' => some '\n'
  | 'r' => some '\r'
  | 't' => some '\t'
  | _ => none

/-- The characters of a string up to its closing quote, and the characters after it. A pair of
surrogates is one character, and a lone surrogate is none. -/
def stringRest? : List Char → Option (List Char × List Char)
  | [] => none
  | '"' :: rest => some ([], rest)
  | '\\' :: 'u' :: a :: b :: c :: d :: rest => do
    let unit ← Text.hexValue? 0 [a, b, c, d]
    if 0xD800 ≤ unit && unit < 0xDC00 then
      match rest with
      | '\\' :: 'u' :: e :: f :: g :: h :: rest =>
        let low ← Text.hexValue? 0 [e, f, g, h]
        if 0xDC00 ≤ low && low < 0xE000 then
          let (value, rest) ← stringRest? rest
          return (Char.ofNat (0x10000 + 0x400 * (unit - 0xD800) + (low - 0xDC00)) :: value, rest)
        else none
      | _ => none
    else if 0xDC00 ≤ unit && unit < 0xE000 then none
    else
      let (value, rest) ← stringRest? rest
      return (Char.ofNat unit :: value, rest)
  | '\\' :: c :: rest => do
    let decoded ← escape? c
    let (value, rest) ← stringRest? rest
    return (decoded :: value, rest)
  | c :: rest =>
    if c.toNat < 0x20 || c = '\\' then none
    else do
      let (value, rest) ← stringRest? rest
      return (c :: value, rest)

/-- The fraction at the front of the characters, if any. A point needs digits after it. -/
def fraction? : List Char → Option (List Char × List Char)
  | '.' :: rest =>
    let digits := rest.takeWhile Char.isDigit
    if digits.isEmpty then none else some (digits, rest.dropWhile Char.isDigit)
  | rest => some ([], rest)

/-- The exponent at the front of the characters, if any, with whether there is one. -/
def exponent? : List Char → Option (Int × Bool × List Char)
  | c :: rest =>
    if c = 'e' || c = 'E' then
      let (negative, rest) := Numeral.splitSign rest
      let digits := rest.takeWhile Char.isDigit
      if digits.isEmpty then none
      else
        let size : Int := decimalValue digits
        some (if negative then -size else size, true, rest.dropWhile Char.isDigit)
    else some (0, false, c :: rest)
  | [] => some (0, false, [])

/-- The number at the front of the characters. Only zero itself begins with zero. -/
def number? (negative : Bool) (chars : List Char) : Option (Json × List Char) := do
  let whole := chars.takeWhile Char.isDigit
  if whole.isEmpty || (whole.head? == some '0' && whole.length != 1) then none
  else
    let (fraction, rest) ← fraction? (chars.dropWhile Char.isDigit)
    let (exponent, marked, rest) ← exponent? rest
    let value ← ofNumeral ⟨negative, whole, fraction, exponent⟩ (fraction.isEmpty && !marked)
    return (value, rest)

mutual

/-- The value at the front of the characters, with at most `depth` levels of nesting. Each call
counts against the budget of the calls around it. -/
def value? : (budget depth : Nat) → List Char → Option (Json × List Char)
  | 0, _, _ => none
  | budget + 1, depth, chars =>
    match skipSpace chars with
    | 'n' :: 'u' :: 'l' :: 'l' :: rest => some (.null, rest)
    | 't' :: 'r' :: 'u' :: 'e' :: rest => some (.boolean true, rest)
    | 'f' :: 'a' :: 'l' :: 's' :: 'e' :: rest => some (.boolean false, rest)
    | '"' :: rest => do
      let (value, rest) ← stringRest? rest
      return (.string (String.ofList value), rest)
    | '-' :: rest => number? true rest
    | '[' :: rest =>
      match depth with
      | 0 => none
      | depth + 1 =>
        match skipSpace rest with
        | ']' :: rest => some (.array [], rest)
        | rest => (items? budget depth rest).map fun (items, rest) => (.array items, rest)
    | '\x7b' :: rest =>
      match depth with
      | 0 => none
      | depth + 1 =>
        match skipSpace rest with
        | '\x7d' :: rest => some (.object [], rest)
        | rest => (members? budget depth [] rest).map fun (members, rest) => (.object members, rest)
    | rest => number? false rest

/-- The items of an array, of which there is at least one, up to its closing bracket. -/
def items? : (budget depth : Nat) → List Char → Option (List Json × List Char)
  | 0, _, _ => none
  | budget + 1, depth, chars => do
    let (item, rest) ← value? budget depth chars
    match skipSpace rest with
    | ',' :: rest =>
      let (items, rest) ← items? budget depth rest
      return (item :: items, rest)
    | ']' :: rest => return ([item], rest)
    | _ => none

/-- The members of an object, of which there is at least one more, up to its closing brace, added
to those already read. -/
def members? : (budget depth : Nat) → List (String × Json) → List Char →
    Option (List (String × Json) × List Char)
  | 0, _, _, _ => none
  | budget + 1, depth, members, chars => do
    match skipSpace chars with
    | '"' :: rest =>
      let (name, rest) ← stringRest? rest
      match skipSpace rest with
      | ':' :: rest =>
        let (value, rest) ← value? budget depth rest
        let members := Fields.insert (String.ofList name) value members
        match skipSpace rest with
        | ',' :: rest => members? budget depth members rest
        | '\x7d' :: rest => return (members, rest)
        | _ => none
      | _ => none
    | _ => none

end

/-- The deepest nesting of arrays and objects that is read. -/
def maxDepth : Nat := 127

/-- Read a text that is one document as a whole. -/
def ofText? (text : String) : Option Json :=
  match value? (2 * text.length + 2) maxDepth text.toList with
  | some (document, rest) => if (skipSpace rest).isEmpty then some document else none
  | none => none

end TemplateExpr.Json
