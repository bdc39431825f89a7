import TemplateExpr.Evaluator
import TemplateExpr.Filter.Argument
import TemplateExpr.Text.Case

/-!
# Sorting

The filter `orderBy` sorts an array by one key or several. A key is an expression, run with
each item as its scope. Items with equal keys stay in their order.
-/

namespace TemplateExpr.Sorting

/-- One criterion: an expression or the item itself, and the direction. -/
structure SortKey where
  expression : Option (Evaluator Unit)
  descending : Bool

/-- The direction and the expression that a text asks for. -/
def splitDirection (spec : Value) : Bool × List Char :=
  match spec with
  | .string text =>
    match Text.trim text.toList with
    | '-' :: rest => (true, rest)
    | '+' :: rest => (false, rest)
    | text => (false, text)
  | _ => (false, [])

/-- The criterion that a value asks for. What is no text asks for the items themselves. -/
def SortKey.ofValue (resolver : Resolver Unit) (spec : Value) : Except Error SortKey :=
  match splitDirection spec with
  | (descending, []) => .ok ⟨none, descending⟩
  | (descending, text) => do
    let evaluator ← Evaluator.ofSource resolver {} (String.ofList text) false
    return ⟨some evaluator, descending⟩

/-- The key of an item. The item itself stays as it is whatever the expression assigns. -/
def SortKey.ofItem (host : Host) (key : SortKey) (item : Value) : Except Error Value :=
  match key.expression with
  | none => .ok item
  | some evaluator => (evaluator.evaluate host ⟨item, none, ()⟩).1

/-- The order of two keys: texts without regard to case, values of one kind by `<`, and values
of different kinds by the names of their kinds. -/
def keyOrder (a b : Value) : Ordering :=
  match a, b with
  | .string a, .string b => compare (Text.lowercase a) (Text.lowercase b)
  | a, b =>
    if a.kind = b.kind then (a.order? b).getD .eq else compare a.kind.name b.kind.name

/-- The order of two rows of keys: that of the first keys that differ. -/
def rowOrder : List SortKey → List Value → List Value → Ordering
  | key :: keys, a :: as, b :: bs =>
    let order := keyOrder a b
    (if key.descending then order.swap else order).then (rowOrder keys as bs)
  | _, _, _ => .eq

/-- Insert an item into a list sorted from the greatest, before the first item it is not less
than. -/
def insertItem {α : Type} (less : α → α → Bool) (item : α) : List α → List α
  | [] => [item]
  | other :: rest =>
    if less item other then other :: insertItem less item rest else item :: other :: rest

/-- Sort from the least; equal items stay in their order. -/
def sorted {α : Type} (less : α → α → Bool) (items : List α) : List α :=
  (items.foldl (fun sorted item => insertItem less item sorted) []).reverse

/-- The criteria that an argument asks for: those of its items, or else its own. -/
def keysOf (resolver : Resolver Unit) (spec : Value) : Except Error (List SortKey) :=
  match spec with
  | .array (first :: rest) => (first :: rest).mapM (SortKey.ofValue resolver)
  | other => do return [← SortKey.ofValue resolver other]

/-- The items with their rows of keys. -/
def rows (host : Host) (keys : List SortKey) (items : List Value) :
    Except Error (List (List Value × Value)) :=
  items.mapM fun item => do return (← keys.mapM fun key => key.ofItem host item, item)

/-- The filter `orderBy`, whose keys may use the filters of a resolver. What is no array is
left alone. -/
def apply (host : Host) (resolver : Resolver Unit) (arguments : List Value) :
    Except Error Value :=
  match argument arguments 0 with
  | .array items => do
    let keys ← keysOf resolver (argument arguments 1)
    let reverse := (argument arguments 2).isTruthy
    let rows ← rows host keys items
    let less (a b : List Value × Value) : Bool :=
      let order := rowOrder keys a.1 b.1
      (if reverse then order.swap else order) == .lt
    return .array ((sorted less rows).map (·.2))
  | other => .ok other

end TemplateExpr.Sorting
