import TemplateExpr.Error
import TemplateExpr.Value.Basic

/-!
# Filters

A filter makes one value of the piped input and its arguments. Most filters are functions of
these alone; a stateful one also reads and changes a memory that all of them share.
-/

namespace TemplateExpr

/-- A filter over a memory `σ`. -/
inductive Filter (σ : Type) where
  | pure (apply : List Value → Except Error Value)
  | stateful (apply : List Value → σ → Except Error Value × σ)

/-- The filters that a host knows, by name. -/
abbrev Resolver (σ : Type) := String → Option (Filter σ)

namespace Filter

variable {σ : Type}

/-- Whether results may change between uses with the same arguments. -/
def isStateful : Filter σ → Bool
  | .pure _ => false
  | .stateful _ => true

/-- Apply a filter to the input and its arguments. -/
def apply : Filter σ → List Value → σ → Except Error Value × σ
  | .pure f, arguments, memory => (f arguments, memory)
  | .stateful f, arguments, memory => f arguments memory

end Filter

/-- Whether the name is that of a filter without state. -/
def Resolver.isPure {σ : Type} (resolver : Resolver σ) (name : String) : Bool :=
  (resolver name).any fun filter => !filter.isStateful

end TemplateExpr
