import TemplateExpr.Code.Basic
import TemplateExpr.Node.Printer
import TemplateExpr.Value.Conversion

/-!
# Compilation

Compilation looks up the filters, turns names and member accesses into paths and checks the
targets of assignments. It fails on an unknown filter or a target that nothing can be assigned
to, whichever it meets first; of a member access it meets the outermost key first.
-/

namespace TemplateExpr.Node

variable {σ : Type}

/-- The key that a node spells out where no expression is expected. -/
def fixedKey : Node → String
  | .identifier name => name
  | .literal (.string value) => value
  | .literal value => value.toValue.display
  | other => other.text

mutual

/-- Compile a tree of the given source. -/
def compile (resolver : Resolver σ) (source : String) : Node → Except Error (Code σ)
  | .program body => do return .sequence (← compileAll resolver source body)
  | .statement expression => do return .sequence [← compile resolver source expression]
  | .literal value => .ok (.constant value.toValue)
  | .identifier name => .ok (.read (.from (.variable name) []))
  | .this => .ok .scope
  | .locals => .ok .locals
  | .member holder property computed => do
    let key ← if computed then Key.computed <$> compile resolver source property
      else pure (.fixed property.fixedKey)
    let path ← compile resolver source holder
    return .read (path.toPath.push key)
  | .call callee arguments => do
    let arguments ← compileAll resolver source arguments
    match ← compile resolver source callee with
    | .read path => return .invoke path arguments
    | callee => return .call callee arguments
  | .filter name arguments => do
    let name := match name with
      | .identifier name => name
      | other => other.text
    match resolver name with
    | none => .error (.unknownFilter name source)
    | some found => return .filter found (← compileAll resolver source arguments)
  | .assignment target value => do
    if target.isAssignable then
      let path ← compile resolver source target
      return .assign path.toPath (← compile resolver source value)
    else .error (.notAssignable source)
  | .conditional test alternate consequent => do
    return .choose (← compile resolver source test) (← compile resolver source alternate)
      (← compile resolver source consequent)
  | .logical operator left right => do
    return .logical operator (← compile resolver source left) (← compile resolver source right)
  | .binary operator left right => do
    return .binary operator (← compile resolver source left) (← compile resolver source right)
  | .unary operator _ argument => do
    return .unary operator (← compile resolver source argument)
  | .array elements => do return .array (← compileAll resolver source elements)
  | .object properties => do return .object (← compileProperties resolver source properties)

/-- Compile trees in order. -/
def compileAll (resolver : Resolver σ) (source : String) : List Node → Except Error (List (Code σ))
  | [] => .ok []
  | node :: rest => do
    return (← compile resolver source node) :: (← compileAll resolver source rest)

/-- Compile the entries of an object literal in order, each key before its value. -/
def compileProperties (resolver : Resolver σ) (source : String) :
    List Property → Except Error (List (Entry σ))
  | [] => .ok []
  | .entry key value computed :: rest => do
    let key ← if computed then Key.computed <$> compile resolver source key
      else pure (.fixed key.fixedKey)
    let value ← compile resolver source value
    return .entry key value :: (← compileProperties resolver source rest)

end

end TemplateExpr.Node
