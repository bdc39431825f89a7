import TemplateExpr.Json.Basic
import TemplateExpr.Number.Layout

/-!
# Writing JSON

The text of a document, either compact or with every item on a line of its own, indented by
its nesting. Only quotes, backslashes and control characters are escaped.
-/

namespace TemplateExpr

/-- Numbers of moderate size are written positionally and always have a fraction. -/
def Layout.json : Layout := ⟨fun leading => -5 ≤ leading && leading ≤ 15, ".0", "+", .toEven⟩

namespace Json

/-- A character as it is written inside a string. -/
def escapedChar (c : Char) : List Char :=
  match c with
  | '"' => ['\\', '"']
  | '\\' => ['\\', '\\']
  | '\n' => ['\\', 'n']
  | '\r' => ['\\', 'r']
  | '\t' => ['\\', 't']
  | '\x08' => ['\\', 'b']
  | '\x0c' => ['\\', 'f']
  | c =>
    if c.toNat < 0x20 then
      ['\\', 'u', '0', '0', if c.toNat < 0x10 then '0' else '1', Nat.digitChar (c.toNat % 16)]
    else [c]

/-- A text as a JSON string. -/
def quoted (text : String) : String :=
  String.ofList ('"' :: text.toList.flatMap escapedChar ++ ['"'])

mutual

/-- The text of a document without any space. -/
def compact : Json → String
  | .null => "null"
  | .boolean value => if value then "true" else "false"
  | .integer value => toString value.toInt
  | .float value _ => Layout.json.text value
  | .string value => quoted value
  | .array items => "[" ++ ",".intercalate (compactItems items) ++ "]"
  | .object members => "\x7b" ++ ",".intercalate (compactMembers members) ++ "\x7d"

/-- The texts of the items of an array without any space. -/
def compactItems : List Json → List String
  | [] => []
  | item :: rest => compact item :: compactItems rest

/-- The texts of the members of an object without any space. -/
def compactMembers : List (String × Json) → List String
  | [] => []
  | (name, value) :: rest => (quoted name ++ ":" ++ compact value) :: compactMembers rest

end

/-- Parts between brackets, each on a line of its own after `margin` and one more `indent`. -/
def enclosed (opening closing indent margin : String) (parts : List String) : String :=
  if parts.isEmpty then opening ++ closing
  else
    let separator := "\n" ++ margin ++ indent
    opening ++ separator ++ ("," ++ separator).intercalate parts ++ "\n" ++ margin ++ closing

mutual

/-- The text of a document on indented lines that begin with `margin`. -/
def indented (indent margin : String) : Json → String
  | .array items =>
    enclosed "[" "]" indent margin (indentedItems indent (margin ++ indent) items)
  | .object members =>
    enclosed "\x7b" "\x7d" indent margin (indentedMembers indent (margin ++ indent) members)
  | other => compact other

/-- The texts of the items of an array on indented lines. -/
def indentedItems (indent margin : String) : List Json → List String
  | [] => []
  | item :: rest => indented indent margin item :: indentedItems indent margin rest

/-- The texts of the members of an object on indented lines. -/
def indentedMembers (indent margin : String) : List (String × Json) → List String
  | [] => []
  | (name, value) :: rest =>
    (quoted name ++ ": " ++ indented indent margin value) :: indentedMembers indent margin rest

end

/-- The text of a document, compact or, with a positive width, on lines indented by so many
spaces for each level. -/
def write (width : Nat) (document : Json) : String :=
  if width = 0 then document.compact
  else document.indented (String.ofList (List.replicate width ' ')) ""

end Json

end TemplateExpr
