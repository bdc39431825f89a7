import TemplateExpr.Number.Layout

/-!
# Displayed numbers

The text of a number inside a string: whole numbers without a fraction, everything else with
all its digits written out.
-/

namespace TemplateExpr

/-- Every digit in its place, without a fraction where there is none. -/
def Layout.plain : Layout := ⟨fun _ => true, "", "", .up⟩

/-- The displayed text of a double. Whole numbers below `10 ^ 21` are written exactly. -/
def Binary64.display (x : Binary64) : String :=
  match x with
  | .nan => "NaN"
  | .signed negative m =>
    if m = .infinity then if negative then "-Infinity" else "Infinity"
    else if x.isWhole && x.truncate.natAbs < 1000000000000000000000 then toString x.truncate
    else Layout.plain.text x

end TemplateExpr
