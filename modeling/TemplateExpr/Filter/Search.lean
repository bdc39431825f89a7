import TemplateExpr.Code.Run
import TemplateExpr.Filter.Argument
import TemplateExpr.Text.Case

/-!
# Searching

The filter `filter` keeps the items of an array that match a needle. Texts match without regard
to case, anywhere inside an item; an object asks for texts under certain names, and a function
decides for itself.
-/

namespace TemplateExpr.Search

/-- Whether the needle occurs in the text. -/
def occursIn (needle : List Char) : List Char → Bool
  | [] => needle.isEmpty
  | c :: rest => needle.isPrefixOf (c :: rest) || occursIn needle rest

/-- Whether the lowercase text of a value contains a needle. -/
def textContains (text needle : String) : Bool :=
  occursIn needle.toList (Text.lowercase text).toList

mutual

/-- Whether the needle, which is in lowercase, occurs in the text of a value or of one inside. -/
def contains (needle : String) : Value → Bool
  | .string text => textContains text needle
  | .integer n => textContains (Value.integer n).display needle
  | .float x => textContains (Value.float x).display needle
  | .boolean b => textContains (Value.boolean b).display needle
  | .array items => anyContains needle items
  | .object fields => anyFieldContains needle fields
  | .undefined | .null | .function _ => false

/-- Whether the needle occurs in one of the items. -/
def anyContains (needle : String) : List Value → Bool
  | [] => false
  | item :: rest => contains needle item || anyContains needle rest

/-- Whether the needle occurs in one of the fields. -/
def anyFieldContains (needle : String) : List (String × Value) → Bool
  | [] => false
  | (_, item) :: rest => contains needle item || anyFieldContains needle rest

end

/-- Whether an item has the text that is expected under a name; `$` stands for the whole item. -/
def fieldMatches (item : Value) (name : String) (expected : Value) : Bool :=
  contains (Text.lowercase expected.display) (if name = "$" then item else item.get name)

/-- Whether an item matches a needle. -/
def isMatch (host : Host) (needle item : Value) (index : Nat) : Except Error Bool :=
  match needle with
  | .function name => do
    let answer ← host name .undefined [item, .integer (Int64.ofNat index)]
    return answer.isTruthy
  | .object fields => .ok (fields.all fun (name, expected) => fieldMatches item name expected)
  | other => .ok (contains (Text.lowercase other.display) item)

/-- The items that match a needle, the first of which has the given index. -/
def keep (host : Host) (needle : Value) (index : Nat) : List Value → Except Error (List Value)
  | [] => .ok []
  | item :: rest => do
    let kept ← isMatch host needle item index
    let more ← keep host needle (index + 1) rest
    return if kept then item :: more else more

/-- The filter `filter`. Without an input or a needle there is nothing to search. -/
def apply (host : Host) (arguments : List Value) : Except Error Value :=
  let needle := argument arguments 1
  match argument arguments 0 with
  | .undefined => .ok .undefined
  | .null => .ok .null
  | .array items =>
    if needle.isNullish then .ok (.array items)
    else do return .array (← keep host needle 0 items)
  | other => .error (.type (.notFilterable other.kind))

end TemplateExpr.Search
