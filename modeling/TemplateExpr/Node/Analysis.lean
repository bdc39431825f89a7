import TemplateExpr.Filter.Basic
import TemplateExpr.Node.Printer

/-!
# Static facts

What can be said about a tree without running it: whether its value is always the same, which
of its parts decide the value, and whether it is a literal. Filters without state are taken to
be functions of their arguments.
-/

namespace TemplateExpr.Node

variable {σ : Type}

/-- Whether a node names a filter without state. -/
def isPureFilter (resolver : Resolver σ) : Node → Bool
  | .identifier name => resolver.isPure name
  | _ => false

mutual

/-- Whether a tree has the same value in every environment. -/
def isConstant (resolver : Resolver σ) : Node → Bool
  | .program body => allConstant resolver body
  | .statement expression => isConstant resolver expression
  | .literal _ => true
  | .identifier _ | .this | .locals | .call .. | .assignment .. => false
  | .member holder property computed =>
    isConstant resolver holder && (!computed || isConstant resolver property)
  | .filter name arguments => isPureFilter resolver name && allConstant resolver arguments
  | .conditional test alternate consequent =>
    isConstant resolver test && isConstant resolver alternate && isConstant resolver consequent
  | .logical _ left right => isConstant resolver left && isConstant resolver right
  | .binary _ left right => isConstant resolver left && isConstant resolver right
  | .unary _ _ argument => isConstant resolver argument
  | .array elements => allConstant resolver elements
  | .object properties => allPropertiesConstant resolver properties

/-- Whether all trees are constant. -/
def allConstant (resolver : Resolver σ) : List Node → Bool
  | [] => true
  | node :: rest => isConstant resolver node && allConstant resolver rest

/-- Whether all values and computed keys of an object literal are constant. -/
def allPropertiesConstant (resolver : Resolver σ) : List Property → Bool
  | [] => true
  | .entry key value computed :: rest =>
    isConstant resolver value && (!computed || isConstant resolver key) &&
      allPropertiesConstant resolver rest

end

mutual

/-- The parts of a tree that decide its value, in the order of the source.

Operators, array and object literals and filters without state are seen through. What may leave
an operand alone is a part as a whole, and so is every other tree that is not constant. The
scope and the locals themselves are no parts. -/
def inputNodes (resolver : Resolver σ) (node : Node) : List Node :=
  if isConstant resolver node then []
  else match node with
    | .unary _ _ argument => inputNodes resolver argument
    | .binary _ left right => inputNodes resolver left ++ inputNodes resolver right
    | .filter name arguments =>
      if isPureFilter resolver name then allInputNodes resolver arguments
      else [.filter name arguments]
    | .array elements => allInputNodes resolver elements
    | .object properties => propertyInputNodes resolver properties
    | .this | .locals => []
    | other => [other]

/-- The parts that decide the values of several trees. -/
def allInputNodes (resolver : Resolver σ) : List Node → List Node
  | [] => []
  | node :: rest => inputNodes resolver node ++ allInputNodes resolver rest

/-- The parts that decide the entries of an object literal. -/
def propertyInputNodes (resolver : Resolver σ) : List Property → List Node
  | [] => []
  | .entry key value computed :: rest =>
    (if computed then inputNodes resolver key else []) ++ inputNodes resolver value ++
      propertyInputNodes resolver rest

end

/-- The sources of the parts that decide the value of a program of one statement, each once.
Other programs have none. -/
def watchInputs (resolver : Resolver σ) (node : Node) : List String :=
  match node.statements with
  | [only] => ((inputNodes resolver only).map text).eraseDups
  | _ => []

/-- Whether a program is empty or its only statement is a literal, of whatever parts. -/
def isLiteral (node : Node) : Bool :=
  match node.statements with
  | [] => true
  | [.literal _] | [.array _] | [.object _] => true
  | _ => false

mutual

/-- Whether a tree is built from literals alone, where a number may have a sign. -/
def isPlainData : Node → Bool
  | .literal _ => true
  | .unary operator _ (.literal value) => operator != .not && value.isNumber
  | .array elements => allPlainData elements
  | .object properties => propertiesPlainData properties
  | _ => false

/-- Whether all trees are built from literals alone. -/
def allPlainData : List Node → Bool
  | [] => true
  | node :: rest => isPlainData node && allPlainData rest

/-- Whether all entries have fixed keys and values built from literals alone. -/
def propertiesPlainData : List Property → Bool
  | [] => true
  | .entry _ value computed :: rest => !computed && isPlainData value && propertiesPlainData rest

end

/-- Whether a program is one value built from literals alone. -/
def isIsolatedLiteral (node : Node) : Bool :=
  match node.statements with
  | [only] => only.isPlainData
  | _ => false

end TemplateExpr.Node
