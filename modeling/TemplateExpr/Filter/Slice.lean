import TemplateExpr.Filter.Argument
import TemplateExpr.Value.Conversion

/-!
# Slices

The filter `limitTo` keeps a part of an array or a text. A negative limit counts from the end,
and a negative beginning is an offset from the end.
-/

namespace TemplateExpr.Slice

/-- The whole part of a number, within the range of integers. -/
def whole (x : Binary64) : Int := (int64Clamped x.truncate).toInt

/-- The limit as a whole number; an infinite one is the length. -/
def limitOf (length : Nat) (limit : Binary64) : Int :=
  if limit.isFinite then whole limit
  else if limit.order .zero == some .gt then length
  else -(length : Int)

/-- Where a part begins that is asked to begin at a number, if it is one. -/
def beginOf (length : Nat) (start : Binary64) : Int :=
  if start.order .zero == some .lt then max (length + whole start) 0 else whole start

/-- The ends of a part before they are moved into the range of the input. -/
def bounds (length : Nat) (limit start : Int) : Int × Int :=
  if 0 ≤ limit then (start, start + limit)
  else if start = 0 then (length + limit, length)
  else (start + limit, start)

/-- Move an end into the range of an input. -/
def clamp (length : Nat) (n : Int) : Nat := min n.toNat length

/-- The part of a list that begins at `start` and has at most `limit` items. -/
def part {α : Type} (items : List α) (limit start : Binary64) : List α :=
  let (first, last) := bounds items.length (limitOf items.length limit) (beginOf items.length start)
  (items.take (clamp items.length last)).drop (clamp items.length first)

/-- The filter `limitTo`. Numbers are cut as texts; a limit that is no number cuts nothing. -/
def apply (arguments : List Value) : Value :=
  let input := argument arguments 0
  let limit := (argument arguments 1).toNumber
  let start := (argument arguments 2).toNumber
  if limit.isNaN then input
  else match input with
    | .array items => .array (part items limit start)
    | .string _ | .integer _ | .float _ =>
      .string (String.ofList (part input.display.toList limit start))
    | other => other

end TemplateExpr.Slice
