import TemplateExpr.Text.Ranges

/-!
# White space

The property White_Space, and the texts that remain when it is trimmed from the ends.
-/

namespace TemplateExpr.Text

/-- The characters with the property White_Space. -/
def whiteSpaceRanges : Ranges :=
  [(0x9, 0xD), (0x20, 0x20), (0x85, 0x85), (0xA0, 0xA0), (0x1680, 0x1680), (0x2000, 0x200A),
    (0x2028, 0x2029), (0x202F, 0x202F), (0x205F, 0x205F), (0x3000, 0x3000)]

/-- Whether the character has the property White_Space. -/
def isWhiteSpace (c : Char) : Bool := whiteSpaceRanges.contains c

/-- The text from its first character that is not white space. -/
def trimStart (text : List Char) : List Char := text.dropWhile isWhiteSpace

/-- The text without white space at either end. -/
def trim (text : List Char) : List Char := (trimStart (trimStart text).reverse).reverse

/-- Whether nothing but white space is in the text. -/
def isBlank (text : List Char) : Bool := text.all isWhiteSpace

end TemplateExpr.Text
