import TemplateExpr.Value.Property

/-!
# Environments

What an expression runs against: the scope, the optional locals that shadow it name by name,
and the memory of the filters. A location is a chain of keys from one of a few places.
-/

namespace TemplateExpr

/-- The scope, the locals and the memory of the filters. -/
structure Environment (σ : Type) where
  scope : Value
  locals : Option Value
  memory : σ

/-- Where a chain of keys begins. -/
inductive Place where
  /-- The locals if they have the name, else the scope. -/
  | holder (name : String)
  | scope
  | locals
  /-- A value that belongs to neither. -/
  | temporary (value : Value)

/-- A chain of keys from a place. -/
structure Location where
  place : Place
  keys : List String

namespace Environment

variable {σ : Type}

/-- Whether the locals are what a name resolves against. -/
def shadows (env : Environment σ) (name : String) : Bool :=
  env.locals.any fun locals => locals.has name

/-- The value at a place. -/
def base (env : Environment σ) : Place → Value
  | .holder name => if env.shadows name then env.locals.getD .undefined else env.scope
  | .scope => env.scope
  | .locals => env.locals.getD .undefined
  | .temporary value => value

/-- The value at a location. -/
def read (env : Environment σ) (location : Location) : Value :=
  (env.base location.place).follow location.keys

/-- The value that holds what is at a location. -/
def receiver (env : Environment σ) (location : Location) : Value :=
  (env.base location.place).follow location.keys.dropLast

/-- Put a value at a place; what is not in the environment is lost. -/
def setBase (env : Environment σ) (place : Place) (value : Value) : Environment σ :=
  match place with
  | .holder name =>
    if env.shadows name then { env with locals := some value } else { env with scope := value }
  | .scope => { env with scope := value }
  | .locals => { env with locals := env.locals.map fun _ => value }
  | .temporary _ => env

/-- Write at the end of the chain `key`, `rest`, … from a place. -/
def write (env : Environment σ) (place : Place) (key : String) (rest : List String)
    (new : Value) : Environment σ × Except TypeFault Unit :=
  let (value, outcome) := (env.base place).write key rest new
  (env.setBase place value, outcome)

end Environment

end TemplateExpr
