import TemplateExpr.Evaluator
import TemplateExpr.Proofs.Evaluation.Comparison

/-!
# Watched runs

A watched run does what a run does, and notes in order each key that it checks, each place that it
reads or writes and each function and filter that it calls. Leaving the notes out gives the run, so
what is known of the notes is known of every evaluation.
-/

namespace TemplateExpr

variable {σ α β : Type}

/-- What a run does that can be noticed outside of it. -/
inductive Event where
  /-- A key of an access has its text, which is checked next. -/
  | key (name : String)
  | read (location : Location)
  | write (location : Location) (value : Value)
  /-- A function of the host is called. -/
  | call (name : String) (receiver : Value) (arguments : List Value)
  | filter (arguments : List Value)

/-- Whether code of the host takes over. -/
def Event.isForeign : Event → Bool
  | .call .. | .filter _ => true
  | .key _ | .read _ | .write .. => false

/-- A run that notes what it does. -/
def Watched (σ α : Type) := Environment σ → (Except Error α × Environment σ) × List Event

namespace Watched

/-- The run without the notes. -/
def erase (run : Watched σ α) : Run σ α := fun env => (run env).1

instance : Monad (Watched σ) where
  pure value := fun env => ((.ok value, env), [])
  bind first next := fun env =>
    match first env with
    | ((.ok value, env), events) =>
      let (outcome, more) := next value env
      (outcome, events ++ more)
    | ((.error error, env), events) => ((.error error, env), events)

/-- Note an event. -/
def note (event : Event) : Watched σ Unit := fun env => ((.ok (), env), [event])

/-- A run in which there is nothing to note. -/
def silent (run : Run σ α) : Watched σ α := fun env => (run env, [])

/-- Check the text of a key. -/
def allowed (source name : String) : Watched σ String := do
  note (.key name)
  silent (Run.allowed source name)

/-- Read what is at a location. -/
def read (location : Location) : Watched σ Value := do
  note (.read location)
  silent do return (← get).read location

/-- Write a value at a location. -/
def write (source : String) (location : Location) (value : Value) : Watched σ Value := do
  note (.write location value)
  silent (Run.write source location value)

/-- Call a value. Only a function is called in the host. -/
def call (host : Host) (source : String) (callee receiver : Value) (arguments : List Value) :
    Watched σ Value := do
  if let .function name := callee then note (.call name receiver arguments)
  silent (Run.ofOutcome (host.call source callee receiver arguments))

/-- Apply a filter. -/
def filter (filter : Filter σ) (arguments : List Value) : Watched σ Value := do
  note (.filter arguments)
  silent (Run.filter filter arguments)

end Watched

mutual

/-- Run the code of an expression. -/
def Code.watch (host : Host) (source : String) : Code σ → Watched σ Value
  | .constant value => pure value
  | .scope => .silent do return (← get).scope
  | .locals => .silent do return (← get).locals.getD .undefined
  | .read path => do
    let location ← path.watch host source
    Watched.read location
  | .invoke path arguments => do
    let location ← path.watch host source
    let callee ← Watched.read location
    let arguments ← Code.watchAll host source arguments
    let env ← Watched.silent get
    Watched.call host source callee (env.receiver location) arguments
  | .call callee arguments => do
    let callee ← callee.watch host source
    let arguments ← Code.watchAll host source arguments
    Watched.call host source callee .undefined arguments
  | .filter filter arguments => do
    let arguments ← Code.watchAll host source arguments
    Watched.filter filter arguments
  | .assign target value => do
    let location ← target.watch host source
    let value ← value.watch host source
    Watched.write source location value
  | .choose test alternate consequent => do
    if (← test.watch host source).isTruthy then alternate.watch host source
    else consequent.watch host source
  | .logical operator left right => do
    let value ← left.watch host source
    if value.isTruthy == (operator == .or) then return value else right.watch host source
  | .binary operator left right => do
    let left ← left.watch host source
    let right ← right.watch host source
    return operator.apply left right
  | .unary operator argument => do return operator.apply (← argument.watch host source)
  | .array elements => do return .array (← Code.watchAll host source elements)
  | .object entries => do return .object (← Entry.watchAll host source [] entries)
  | .sequence body => Code.watchLast host source .undefined body

/-- Run codes in order and give all their values. -/
def Code.watchAll (host : Host) (source : String) : List (Code σ) → Watched σ (List Value)
  | [] => pure []
  | code :: rest => do
    let value ← code.watch host source
    let values ← Code.watchAll host source rest
    return value :: values

/-- Run codes in order and give the value of the last one, or `last` if there is none. -/
def Code.watchLast (host : Host) (source : String) (last : Value) :
    List (Code σ) → Watched σ Value
  | [] => pure last
  | code :: rest => do
    let value ← code.watch host source
    Code.watchLast host source value rest

/-- The location that a path denotes. -/
def Path.watch (host : Host) (source : String) : Path σ → Watched σ Location
  | .from (.variable name) keys => do
    let name ← Watched.allowed source name
    return ⟨.holder name, name :: (← Key.watchAll host source keys)⟩
  | .from .scope keys => do return ⟨.scope, ← Key.watchAll host source keys⟩
  | .from .locals keys => do return ⟨.locals, ← Key.watchAll host source keys⟩
  | .from (.temporary code) keys => do
    let value ← code.watch host source
    return ⟨.temporary value, ← Key.watchAll host source keys⟩

/-- The text of a key. -/
def Key.watch (host : Host) (source : String) : Key σ → Watched σ String
  | .fixed name => pure name
  | .computed code => do return (← code.watch host source).display

/-- The texts of keys in order, each checked before the next one is run. -/
def Key.watchAll (host : Host) (source : String) : List (Key σ) → Watched σ (List String)
  | [] => pure []
  | key :: rest => do
    let name ← Watched.allowed source (← key.watch host source)
    return name :: (← Key.watchAll host source rest)

/-- Add the entries of an object in order, each key before its value. -/
def Entry.watchAll (host : Host) (source : String) (fields : List (String × Value)) :
    List (Entry σ) → Watched σ (List (String × Value))
  | [] => pure fields
  | .entry key value :: rest => do
    let name ← key.watch host source
    let value ← value.watch host source
    Entry.watchAll host source (Fields.insert name value fields) rest

end

namespace Evaluator

/-- Run all statements and give the value of the last one, `undefined` if there is none. -/
def watch (host : Host) (evaluator : Evaluator σ) : Watched σ Value :=
  Code.watchLast host evaluator.source .undefined evaluator.statements

/-- Assign a value to what the program denotes, and give it back. -/
def watchAssign (host : Host) (evaluator : Evaluator σ) (value : Value) : Watched σ Value := do
  match evaluator.target with
  | none => .silent (throw (.notAssignable evaluator.source))
  | some path =>
    let location ← path.watch host evaluator.source
    Watched.write evaluator.source location value

end Evaluator

namespace Watched

/-- A value is given without a note. -/
@[simp] theorem erase_pure (value : α) : (pure value : Watched σ α).erase = pure value := rfl

/-- A run without notes is the run itself. -/
@[simp] theorem erase_silent (run : Run σ α) : (silent run).erase = run := rfl

/-- A note changes nothing. -/
@[simp] theorem erase_note (event : Event) : (note event : Watched σ Unit).erase = pure () := rfl

/-- The notes of a run of two steps are those of its steps. -/
@[simp] theorem erase_bind (first : Watched σ α) (next : α → Watched σ β) :
    (first >>= next).erase = first.erase >>= fun value => (next value).erase := by
  funext env
  rw [Run.bind_apply]
  change Prod.fst (match first env with
    | ((.ok value, env), events) => _
    | ((.error error, env), events) => _) = _
  unfold erase
  rcases first env with ⟨⟨_ | value, env⟩, events⟩ <;> rfl

/-- A choice between two runs is one between them without their notes. -/
@[simp] theorem erase_ite (condition : Prop) [Decidable condition] (first second : Watched σ α) :
    (if condition then first else second).erase =
      if condition then first.erase else second.erase :=
  apply_ite erase condition first second

/-- Calls are those of the host. -/
@[simp] theorem erase_call (host : Host) (source : String) (callee receiver : Value)
    (arguments : List Value) :
    (call host source callee receiver arguments : Watched σ Value).erase =
      Run.ofOutcome (host.call source callee receiver arguments) := by
  cases callee <;> rfl

end Watched

variable {host : Host} {source : String}

mutual

/-- Watching code does not change what it does. -/
theorem Code.erase_watch (code : Code σ) :
    (code.watch host source).erase = code.run host source := by
  cases code with
  | constant | scope | locals => rfl
  | read path => simp [Code.watch, Code.run, Watched.read, Path.erase_watch path]
  | invoke path arguments =>
    simp [Code.watch, Code.run, Watched.read, Path.erase_watch path, Code.erase_watchAll arguments]
  | call callee arguments =>
    simp [Code.watch, Code.run, Code.erase_watch callee, Code.erase_watchAll arguments]
  | filter filter arguments =>
    simp [Code.watch, Code.run, Watched.filter, Code.erase_watchAll arguments]
  | assign target value =>
    simp [Code.watch, Code.run, Watched.write, Path.erase_watch target, Code.erase_watch value]
  | choose test alternate consequent =>
    simp [Code.watch, Code.run, Code.erase_watch test, Code.erase_watch alternate,
      Code.erase_watch consequent]
  | logical operator left right =>
    simp [Code.watch, Code.run, Code.erase_watch left, Code.erase_watch right]
  | binary operator left right =>
    simp [Code.watch, Code.run, Code.erase_watch left, Code.erase_watch right]
  | unary operator argument => simp [Code.watch, Code.run, Code.erase_watch argument]
  | array elements => simp [Code.watch, Code.run, Code.erase_watchAll elements]
  | object entries => simp [Code.watch, Code.run, Entry.erase_watchAll entries]
  | sequence body => simp [Code.watch, Code.run, Code.erase_watchLast body]

/-- Watching codes does not change what they do. -/
theorem Code.erase_watchAll (codes : List (Code σ)) :
    (Code.watchAll host source codes).erase = Code.runAll host source codes := by
  cases codes with
  | nil => rfl
  | cons code rest =>
    simp [Code.watchAll, Code.runAll, Code.erase_watch code, Code.erase_watchAll rest]

/-- Watching codes does not change which of their values is the last. -/
theorem Code.erase_watchLast (codes : List (Code σ)) {last : Value} :
    (Code.watchLast host source last codes).erase = Code.runLast host source last codes := by
  cases codes with
  | nil => rfl
  | cons code rest =>
    simp [Code.watchLast, Code.runLast, Code.erase_watch code, Code.erase_watchLast rest]

/-- Watching a path does not change what it denotes. -/
theorem Path.erase_watch (path : Path σ) :
    (path.watch host source).erase = path.resolve host source := by
  obtain ⟨name | _ | _ | code, keys⟩ := path
  · simp [Path.watch, Path.resolve, Watched.allowed, Key.erase_watchAll keys]
  · simp [Path.watch, Path.resolve, Key.erase_watchAll keys]
  · simp [Path.watch, Path.resolve, Key.erase_watchAll keys]
  · simp [Path.watch, Path.resolve, Code.erase_watch code, Key.erase_watchAll keys]

/-- Watching a key does not change its text. -/
theorem Key.erase_watch (key : Key σ) : (key.watch host source).erase = key.run host source := by
  cases key with
  | fixed name => rfl
  | computed code => simp [Key.watch, Key.run, Code.erase_watch code]

/-- Watching keys does not change their texts. -/
theorem Key.erase_watchAll (keys : List (Key σ)) :
    (Key.watchAll host source keys).erase = Key.resolveAll host source keys := by
  cases keys with
  | nil => rfl
  | cons key rest =>
    simp [Key.watchAll, Key.resolveAll, Watched.allowed, Key.erase_watch key,
      Key.erase_watchAll rest]

/-- Watching entries does not change the fields that they add. -/
theorem Entry.erase_watchAll (entries : List (Entry σ)) {fields : List (String × Value)} :
    (Entry.watchAll host source fields entries).erase =
      Entry.runAll host source fields entries := by
  match entries with
  | [] => rfl
  | .entry key value :: rest =>
    simp [Entry.watchAll, Entry.runAll, Key.erase_watch key, Code.erase_watch value,
      Entry.erase_watchAll rest]

end

namespace Evaluator

/-- Watching a program does not change what it does. -/
theorem erase_watch (evaluator : Evaluator σ) :
    (evaluator.watch host).erase = evaluator.evaluate host :=
  Code.erase_watchLast evaluator.statements

/-- Watching an assignment to a program does not change what it does. -/
theorem erase_watchAssign (evaluator : Evaluator σ) (value : Value) :
    (evaluator.watchAssign host value).erase = evaluator.assign host value := by
  unfold watchAssign assign
  cases evaluator.target with
  | none => rfl
  | some path => simp [Watched.write, Path.erase_watch path]

end Evaluator

end TemplateExpr
