import TemplateExpr.Evaluator

/-!
# Expression cache

A cache compiles each source once for each of the two ways to compile it, and gives the same
instance again from then on. Failures are not kept. Nothing is ever dropped.
-/

namespace TemplateExpr

/-- A compiled source and how it was compiled. -/
structure CacheEntry (σ : Type) where
  source : String
  isolated : Bool
  evaluator : Evaluator σ

/-- What has been compiled, in the order of compilation. -/
structure Cache (σ : Type) where
  resolver : Resolver σ
  options : Options
  entries : List (CacheEntry σ) := []

/-- A compiled source as a cache gives it out: equal numbers mean the same instance. -/
structure Instance (σ : Type) where
  number : Nat
  evaluator : Evaluator σ

namespace Cache

variable {σ : Type}

/-- The instance among entries that are numbered from `number` on. -/
def find? (source : String) (isolated : Bool) (number : Nat) :
    List (CacheEntry σ) → Option (Instance σ)
  | [] => none
  | entry :: rest =>
    if entry.source = source && entry.isolated = isolated then some ⟨number, entry.evaluator⟩
    else find? source isolated (number + 1) rest

/-- The instance for a source, compiled now if it has not been before. -/
def compile (cache : Cache σ) (source : String) (isolated : Bool) :
    Except Error (Instance σ) × Cache σ :=
  match find? source isolated 0 cache.entries with
  | some found => (.ok found, cache)
  | none =>
    match Evaluator.ofSource cache.resolver cache.options source isolated with
    | .error error => (.error error, cache)
    | .ok evaluator =>
      (.ok ⟨cache.entries.length, evaluator⟩,
        { cache with entries := cache.entries ++ [⟨source, isolated, evaluator⟩] })

/-- The number of instances. -/
def size (cache : Cache σ) : Nat := cache.entries.length

end Cache

end TemplateExpr
