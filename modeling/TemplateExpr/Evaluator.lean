import TemplateExpr.Code.Run
import TemplateExpr.Node.Analysis
import TemplateExpr.Node.Compile
import TemplateExpr.Node.Source

/-!
# Evaluators

A compiled program with all that a host may ask of it: its value in an environment, a way to
assign to what it denotes, and the static facts that tell when it has to be run again.
-/

namespace TemplateExpr

/-- A compiled program. -/
structure Evaluator (σ : Type) where
  /-- The source without the mark of a one-time binding. -/
  source : String
  tree : Node
  statements : List (Code σ)
  /-- Where to assign, for a program that is a single name or member access. -/
  target : Option (Path σ)
  isConstant : Bool
  isLiteral : Bool
  isOneTime : Bool
  /-- The sources of the parts that decide the value. -/
  inputs : List String

namespace Evaluator

variable {σ : Type}

/-- Compile a tree. The source is what error messages quote. -/
def ofNode (resolver : Resolver σ) (source : String) (tree : Node) :
    Except Error (Evaluator σ) := do
  let statements ← Node.compileAll resolver source tree.statements
  let isConstant := tree.isConstant resolver
  return {
    source
    tree
    statements
    target := match statements with
      | [.read path] => some path
      | _ => none
    isConstant
    isLiteral := tree.isLiteral
    isOneTime := false
    inputs := if isConstant then [] else tree.watchInputs resolver }

/-- The source without the mark `::` of a one-time binding, and whether it was there. -/
def splitOneTime (source : String) : String × Bool :=
  match Text.trimStart source.toList with
  | ':' :: ':' :: rest => (String.ofList rest, true)
  | _ => (source, false)

/-- Compile a source. An isolated one must be a value built from literals alone. -/
def ofSource (resolver : Resolver σ) (options : Options) (source : String) (isolated : Bool) :
    Except Error (Evaluator σ) := do
  let (body, isOneTime) := splitOneTime source
  let tree ← Node.ofSource options body
  if isolated && !tree.isIsolatedLiteral then throw (.notLiteral body)
  return { ← ofNode resolver body tree with isOneTime }

/-- Whether there is something to assign to. -/
def isAssignable (evaluator : Evaluator σ) : Bool := evaluator.target.isSome

/-- Run all statements and give the value of the last one, `undefined` if there is none. -/
def evaluate (host : Host) (evaluator : Evaluator σ) : Run σ Value :=
  Code.runLast host evaluator.source .undefined evaluator.statements

/-- Assign a value to what the program denotes, and give it back. -/
def assign (host : Host) (evaluator : Evaluator σ) (value : Value) : Run σ Value := do
  match evaluator.target with
  | none => throw (.notAssignable evaluator.source)
  | some path =>
    let location ← path.resolve host evaluator.source
    Run.write evaluator.source location value

end Evaluator

end TemplateExpr
