import TemplateExpr.Filter.Grouping
import TemplateExpr.Filter.Search
import TemplateExpr.Filter.Slice
import TemplateExpr.Filter.Sorting
import TemplateExpr.Json.Writer
import TemplateExpr.Value.Json

/-!
# Built-in filters

The filters that every host has at hand. None of them has a state. The keys of `orderBy` may
use the same filters again, `orderBy` included, down to a fixed depth.

The depth is a limit of this library. Nothing in the language forbids keys that sort by keys as often
as one likes, and where they are run by plain recursion there is no such error.
-/

namespace TemplateExpr

/-- Filters by name. -/
abbrev FilterTable (σ : Type) := Fields (Filter σ)

/-- The filters of a table. -/
def FilterTable.resolver {σ : Type} (table : FilterTable σ) : Resolver σ := Fields.get? table

namespace Builtin

/-- Change the text of an input; other inputs stay as they are. -/
def onText (change : String → String) (arguments : List Value) : Value :=
  match argument arguments 0 with
  | .string text => .string (change text)
  | other => other

/-- The filter `json`: the document of a value, indented by two spaces unless told otherwise. -/
def jsonText (arguments : List Value) : Value :=
  let width := match argument arguments 1 with
    | .undefined => 2
    | other => match other.asInteger? with
      | some width => min width.toInt.toNat 10
      | none => 2
  .string ((argument arguments 0).toJson.write width)

/-- The built-in filters around a given `orderBy`. -/
def tableWith (σ : Type) (host : Host) (orderBy : List Value → Except Error Value) :
    FilterTable σ :=
  [("filter", .pure (Search.apply host)),
    ("json", .pure fun arguments => .ok (jsonText arguments)),
    ("limitTo", .pure fun arguments => .ok (Slice.apply arguments)),
    ("lowercase", .pure fun arguments => .ok (onText Text.lowercase arguments)),
    ("number", .pure fun arguments => .ok (Grouping.apply arguments)),
    ("orderBy", .pure orderBy),
    ("uppercase", .pure fun arguments => .ok (onText Text.uppercase arguments))]

/-- The filter `orderBy` with keys that sort by further keys less often than `depth`. Deeper ones fail,
for the recursion has to end somewhere. -/
def orderByWithin (host : Host) : (depth : Nat) → List Value → Except Error Value
  | 0, _ => .error (.type .endlessKeys)
  | depth + 1, arguments =>
    Sorting.apply host (tableWith Unit host (orderByWithin host depth)).resolver arguments

/-- How often keys may sort by further keys. The language has no such limit, and the error past it is
none of the language's errors. -/
def maxKeyDepth : Nat := 256

/-- The built-in filters. -/
def table (σ : Type) (host : Host) : FilterTable σ :=
  tableWith σ host (orderByWithin host maxKeyDepth)

end Builtin

end TemplateExpr
