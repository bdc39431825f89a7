import TemplateExpr.Code.Basic
import TemplateExpr.Environment
import TemplateExpr.Operation
import TemplateExpr.Sandbox

/-!
# Evaluation

Running code evaluates every part in the order of the source. An error ends the run, and the
environment stays as the steps before the error left it.
-/

namespace TemplateExpr

/-- What a function does with a receiver and arguments, by name. -/
abbrev Host := (name : String) → (receiver : Value) → (arguments : List Value) →
  Except Error Value

/-- A computation that changes an environment and may fail, keeping the changes made so far. -/
abbrev Run (σ : Type) := ExceptT Error (StateM (Environment σ))

/-- Call a value. Calling a missing value gives `undefined`. -/
def Host.call (host : Host) (source : String) (callee receiver : Value) (arguments : List Value) :
    Except Error Value :=
  match callee with
  | .function name => host name receiver arguments
  | .undefined | .null => .ok .undefined
  | other => .error (.type (.notCallable other.kind source))

namespace Run

variable {σ : Type}

/-- An outcome that the environment has no part in. -/
def ofOutcome (outcome : Except Error Value) : Run σ Value :=
  match outcome with
  | .ok value => pure value
  | .error error => throw error

/-- Apply a filter, which may change the memory even when it fails. -/
def filter (filter : Filter σ) (arguments : List Value) : Run σ Value := do
  let env ← get
  let (outcome, memory) := filter.apply arguments env.memory
  set { env with memory := memory }
  ofOutcome outcome

/-- The text of a key, refused if the sandbox forbids it. -/
def allowed (source name : String) : Run σ String :=
  match Sandbox.check name source with
  | .ok () => pure name
  | .error error => throw error

/-- Write a value at a location, and give it back. -/
def write (source : String) (location : Location) (value : Value) : Run σ Value := do
  match location.keys with
  | [] => throw (.notAssignable source)
  | key :: rest =>
    let (env, outcome) := (← get).write location.place key rest value
    set env
    match outcome with
    | .ok () => return value
    | .error fault => throw (.type fault)

end Run

variable {σ : Type}

mutual

/-- Run the code of an expression with the given source. -/
def Code.run (host : Host) (source : String) : Code σ → Run σ Value
  | .constant value => pure value
  | .scope => do return (← get).scope
  | .locals => do return (← get).locals.getD .undefined
  | .read path => do
    let location ← path.resolve host source
    return (← get).read location
  | .invoke path arguments => do
    let location ← path.resolve host source
    let callee := (← get).read location
    let arguments ← Code.runAll host source arguments
    Run.ofOutcome (host.call source callee ((← get).receiver location) arguments)
  | .call callee arguments => do
    let callee ← callee.run host source
    let arguments ← Code.runAll host source arguments
    Run.ofOutcome (host.call source callee .undefined arguments)
  | .filter filter arguments => do
    let arguments ← Code.runAll host source arguments
    Run.filter filter arguments
  | .assign target value => do
    let location ← target.resolve host source
    let value ← value.run host source
    Run.write source location value
  | .choose test alternate consequent => do
    if (← test.run host source).isTruthy then alternate.run host source
    else consequent.run host source
  | .logical operator left right => do
    let value ← left.run host source
    if value.isTruthy == (operator == .or) then return value else right.run host source
  | .binary operator left right => do
    let left ← left.run host source
    let right ← right.run host source
    return operator.apply left right
  | .unary operator argument => do return operator.apply (← argument.run host source)
  | .array elements => do return .array (← Code.runAll host source elements)
  | .object entries => do return .object (← Entry.runAll host source [] entries)
  | .sequence body => Code.runLast host source .undefined body

/-- Run codes in order and give all their values. -/
def Code.runAll (host : Host) (source : String) : List (Code σ) → Run σ (List Value)
  | [] => pure []
  | code :: rest => do
    let value ← code.run host source
    let values ← Code.runAll host source rest
    return value :: values

/-- Run codes in order and give the value of the last one, or `last` if there is none. -/
def Code.runLast (host : Host) (source : String) (last : Value) : List (Code σ) → Run σ Value
  | [] => pure last
  | code :: rest => do
    let value ← code.run host source
    Code.runLast host source value rest

/-- The location that a path denotes. Its root comes first, then its keys in order, and each
name is checked before anything later is run. -/
def Path.resolve (host : Host) (source : String) : Path σ → Run σ Location
  | .from (.variable name) keys => do
    let name ← Run.allowed source name
    return ⟨.holder name, name :: (← Key.resolveAll host source keys)⟩
  | .from .scope keys => do return ⟨.scope, ← Key.resolveAll host source keys⟩
  | .from .locals keys => do return ⟨.locals, ← Key.resolveAll host source keys⟩
  | .from (.temporary code) keys => do
    let value ← code.run host source
    return ⟨.temporary value, ← Key.resolveAll host source keys⟩

/-- The text of a key. -/
def Key.run (host : Host) (source : String) : Key σ → Run σ String
  | .fixed name => pure name
  | .computed code => do return (← code.run host source).display

/-- The texts of keys in order, each checked before the next one is run. -/
def Key.resolveAll (host : Host) (source : String) : List (Key σ) → Run σ (List String)
  | [] => pure []
  | key :: rest => do
    let name ← Run.allowed source (← key.run host source)
    return name :: (← Key.resolveAll host source rest)

/-- Add the entries of an object in order, each key before its value. -/
def Entry.runAll (host : Host) (source : String) (fields : List (String × Value)) :
    List (Entry σ) → Run σ (List (String × Value))
  | [] => pure fields
  | .entry key value :: rest => do
    let name ← key.run host source
    let value ← value.run host source
    Entry.runAll host source (Fields.insert name value fields) rest

end

end TemplateExpr
