import TemplateExpr.Value.Basic

/-!
# Places inside a value

A value inside another one is found by a list of steps, each to an item of an array or to a field of
an object. So two values can be compared place by place.
-/

namespace TemplateExpr.Value

/-- A step from a value to one that is right inside. -/
inductive Step where
  | item (index : Nat)
  | field (name : String)
  deriving DecidableEq

/-- The value that a step leads to, if there is one. -/
def inner? : Value → Step → Option Value
  | .array items, .item index => items[index]?
  | .object fields, .field name => Fields.get? fields name
  | _, _ => none

/-- The value at the end of some steps, if there is one. -/
def at? (value : Value) : List Step → Option Value
  | [] => some value
  | step :: rest => (value.inner? step).bind fun inner => inner.at? rest

variable {value inner : Value} {step : Step} {rest : List Step}

/-- The first step leads to the value that the others are taken from. -/
theorem at?_cons (value : Value) (step : Step) (rest : List Step) :
    value.at? (step :: rest) = (value.inner? step).bind fun inner => inner.at? rest := rfl

/-- A value is found by a step to one right inside and further steps from there. -/
theorem at?_cons_eq_some :
    value.at? (step :: rest) = some inner ↔
      ∃ middle, value.inner? step = some middle ∧ middle.at? rest = some inner := by
  rw [at?_cons, Option.bind_eq_some_iff]

end TemplateExpr.Value
