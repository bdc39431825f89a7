import TemplateExpr.Proofs.Evaluation.Comparison

/-!
# Effects

The effects of code are the steps in which it meets the environment or the host. They are all
that two runs of the code can differ by: if every effect of the code agrees in a comparison,
then so does the code.
-/

namespace TemplateExpr

variable {σ : Type}

/-- The value at a place is decided by scope and locals. -/
theorem Environment.base_eq {env env' : Environment σ} (hscope : env.scope = env'.scope)
    (hlocals : env.locals = env'.locals) (place : Place) : env.base place = env'.base place := by
  obtain ⟨scope, locals, memory⟩ := env
  obtain ⟨scope', locals', memory'⟩ := env'
  subst hscope hlocals
  cases place <;> rfl

/-- What is read at a location depends on the value at its place alone. -/
theorem Environment.read_congr {env env' : Environment σ} {location : Location}
    (h : env.base location.place = env'.base location.place) :
    env.read location = env'.read location := by
  unfold read
  rw [h]

/-- What holds a location depends on the value at its place alone. -/
theorem Environment.receiver_congr {env env' : Environment σ} {location : Location}
    (h : env.base location.place = env'.base location.place) :
    env.receiver location = env'.receiver location := by
  unfold receiver
  rw [h]

/-- A step in which code meets something other than its own values. -/
inductive Effect (σ : Type) where
  /-- The value at a place of the environment is used. -/
  | reads (place : Place)
  /-- A filter uses the memory. -/
  | remembers (apply : List Value → σ → Except Error Value × σ)
  /-- A value is called. -/
  | calls
  /-- A value is written. -/
  | writes

/-- The effects of applying a filter. -/
def Filter.effects : Filter σ → List (Effect σ)
  | .pure _ => []
  | .stateful apply => [.remembers apply]

mutual

/-- The effects of code, in the order of evaluation as far as all parts are run. -/
def Code.effects : Code σ → List (Effect σ)
  | .constant _ => []
  | .scope => [.reads .scope]
  | .locals => [.reads .locals]
  | .read path => path.effects
  | .invoke path arguments => path.effects ++ Code.allEffects arguments ++ [.calls]
  | .call callee arguments => callee.effects ++ Code.allEffects arguments ++ [.calls]
  | .filter filter arguments => Code.allEffects arguments ++ filter.effects
  | .assign target value => target.effects ++ value.effects ++ [.writes]
  | .choose test alternate consequent => test.effects ++ alternate.effects ++ consequent.effects
  | .logical _ left right => left.effects ++ right.effects
  | .binary _ left right => left.effects ++ right.effects
  | .unary _ argument => argument.effects
  | .array elements => Code.allEffects elements
  | .object entries => Entry.allEffects entries
  | .sequence body => Code.allEffects body

/-- The effects of several codes. -/
def Code.allEffects : List (Code σ) → List (Effect σ)
  | [] => []
  | code :: rest => code.effects ++ Code.allEffects rest

/-- The effects of following a path. -/
def Path.effects : Path σ → List (Effect σ)
  | .from root keys => root.effects ++ Key.allEffects keys

/-- The effects of beginning a path. -/
def Root.effects : Root σ → List (Effect σ)
  | .variable name => [.reads (.holder name)]
  | .scope => [.reads .scope]
  | .locals => [.reads .locals]
  | .temporary code => code.effects

/-- The effects of making the text of a key. -/
def Key.effects : Key σ → List (Effect σ)
  | .fixed _ => []
  | .computed code => code.effects

/-- The effects of several keys. -/
def Key.allEffects : List (Key σ) → List (Effect σ)
  | [] => []
  | key :: rest => key.effects ++ Key.allEffects rest

/-- The effects of the entries of an object. -/
def Entry.allEffects : List (Entry σ) → List (Effect σ)
  | [] => []
  | .entry key value :: rest => key.effects ++ value.effects ++ Entry.allEffects rest

end

/-- Whether an effect is the same on both sides of a comparison. -/
def Effect.Agrees (comparison : Comparison σ) : Effect σ → Prop
  | .reads place => ∀ env env', comparison.related env env' → env.base place = env'.base place
  | .remembers apply => ∀ arguments, comparison.Agrees (Run.filter (.stateful apply) arguments)
      (Run.filter (.stateful apply) arguments)
  | .calls => comparison.host = comparison.host'
  | .writes => ∀ location value, comparison.Agrees (Run.write comparison.source location value)
      (Run.write comparison.source' location value)

/-- Whether all effects are the same on both sides of a comparison. -/
def Comparison.Respects (comparison : Comparison σ) (effects : List (Effect σ)) : Prop :=
  ∀ effect ∈ effects, effect.Agrees comparison

namespace Comparison

variable {comparison : Comparison σ}

/-- No effect tells the two sides apart. -/
@[simp] theorem respects_nil : comparison.Respects [] := by simp [Respects]

/-- Effects are put together on both sides. -/
@[simp] theorem respects_append {effects effects' : List (Effect σ)} :
    comparison.Respects (effects ++ effects') ↔
      comparison.Respects effects ∧ comparison.Respects effects' := by
  simp [Respects, or_imp, forall_and]

/-- A single effect is respected if it agrees. -/
@[simp] theorem respects_singleton {effect : Effect σ} :
    comparison.Respects [effect] ↔ effect.Agrees comparison := by
  simp [Respects]

/-- A filter agrees on both sides if its effects do. -/
theorem Respects.filter {filter : Filter σ} (h : comparison.Respects filter.effects)
    (arguments : List Value) :
    comparison.Agrees (Run.filter filter arguments) (Run.filter filter arguments) := by
  cases filter with
  | pure apply => exact .pureFilter apply arguments
  | stateful apply => exact respects_singleton.mp h arguments

/-- A location can be used if the value at its place is the same on both sides. -/
theorem Agrees.read {location : Location}
    (h : ∀ env env', comparison.related env env' →
      env.base location.place = env'.base location.place) :
    comparison.Agrees (do return (← get).read location) (do return (← get).read location) :=
  .observe fun env env' henv => Environment.read_congr (h env env' henv)

end Comparison

open Comparison

variable {comparison : Comparison σ}

mutual

/-- Code agrees on both sides of a comparison if its effects do. -/
theorem Code.run_agrees (code : Code σ) (h : comparison.Respects code.effects) :
    comparison.Agrees (code.run comparison.host comparison.source)
      (code.run comparison.host' comparison.source') := by
  cases code with
  | constant value => exact .pure value
  | scope => exact .observe (respects_singleton.mp h)
  | locals => exact .observe (respects_singleton.mp h)
  | read path => exact path.resolve_agrees h fun location hlocation => .read hlocation
  | invoke path arguments =>
    simp only [Code.effects, respects_append, respects_singleton] at h
    obtain ⟨⟨hpath, harguments⟩, hcalls⟩ := h
    apply path.resolve_agrees hpath
    intro location hlocation
    apply Agrees.inspect
    intro env env' henv
    rw [Environment.read_congr (hlocation env env' henv)]
    apply (Code.runAll_agrees arguments harguments).bind
    intro values
    apply Agrees.inspect
    intro env env' henv
    rw [Environment.receiver_congr (hlocation env env' henv)]
    exact .call hcalls _ _ values
  | call callee arguments =>
    simp only [Code.effects, respects_append, respects_singleton] at h
    obtain ⟨⟨hcallee, harguments⟩, hcalls⟩ := h
    apply (callee.run_agrees hcallee).bind
    intro callee
    exact (Code.runAll_agrees arguments harguments).bind fun values => .call hcalls callee _ values
  | filter filter arguments =>
    simp only [Code.effects, respects_append] at h
    exact (Code.runAll_agrees arguments h.1).bind h.2.filter
  | assign target value =>
    simp only [Code.effects, respects_append, respects_singleton] at h
    obtain ⟨⟨htarget, hvalue⟩, hwrites⟩ := h
    apply target.resolve_agrees htarget
    intro location _
    exact (value.run_agrees hvalue).bind fun value => hwrites location value
  | choose test alternate consequent =>
    simp only [Code.effects, respects_append] at h
    obtain ⟨⟨htest, halternate⟩, hconsequent⟩ := h
    apply (test.run_agrees htest).bind
    intro value
    by_cases htruthy : value.isTruthy = true
    · simp only [htruthy, if_true]
      exact alternate.run_agrees halternate
    · simp only [htruthy]
      exact consequent.run_agrees hconsequent
  | logical operator left right =>
    simp only [Code.effects, respects_append] at h
    apply (left.run_agrees h.1).bind
    intro value
    by_cases hshort : (value.isTruthy == (operator == .or)) = true
    · simp only [hshort, if_true]
      exact .pure value
    · simp only [hshort]
      exact right.run_agrees h.2
  | binary operator left right =>
    simp only [Code.effects, respects_append] at h
    apply (left.run_agrees h.1).bind
    intro left
    exact (right.run_agrees h.2).map (operator.apply left)
  | unary operator argument => exact (argument.run_agrees h).map operator.apply
  | array elements => exact (Code.runAll_agrees elements h).map Value.array
  | object entries => exact (Entry.runAll_agrees [] entries h).map Value.object
  | sequence body => exact Code.runLast_agrees .undefined body h

/-- Codes that are run in order agree if their effects do. -/
theorem Code.runAll_agrees (codes : List (Code σ)) (h : comparison.Respects (Code.allEffects codes)) :
    comparison.Agrees (Code.runAll comparison.host comparison.source codes)
      (Code.runAll comparison.host' comparison.source' codes) := by
  cases codes with
  | nil => exact .pure []
  | cons code rest =>
    simp only [Code.allEffects, respects_append] at h
    apply (code.run_agrees h.1).bind
    intro value
    exact (Code.runAll_agrees rest h.2).map (value :: ·)

/-- The last of several codes agrees if the effects of all do. -/
theorem Code.runLast_agrees (last : Value) (codes : List (Code σ))
    (h : comparison.Respects (Code.allEffects codes)) :
    comparison.Agrees (Code.runLast comparison.host comparison.source last codes)
      (Code.runLast comparison.host' comparison.source' last codes) := by
  cases codes with
  | nil => exact .pure last
  | cons code rest =>
    simp only [Code.allEffects, respects_append] at h
    exact (code.run_agrees h.1).bind fun value => Code.runLast_agrees value rest h.2

/-- A path leads to one location on both sides, and what is at its place is the same. -/
theorem Path.resolve_agrees {α : Type} (path : Path σ) {next next' : Location → Run σ α}
    (h : comparison.Respects path.effects)
    (hnext : ∀ location, (∀ env env', comparison.related env env' →
      env.base location.place = env'.base location.place) →
      comparison.Agrees (next location) (next' location)) :
    comparison.Agrees (path.resolve comparison.host comparison.source >>= next)
      (path.resolve comparison.host' comparison.source' >>= next') := by
  obtain ⟨root, keys⟩ := path
  simp only [Path.effects, respects_append] at h
  obtain ⟨hroot, hkeys⟩ := h
  have hnames := Key.resolveAll_agrees keys hkeys
  rcases root with name | _ | _ | code <;> simp only [Path.resolve, bind_assoc, pure_bind]
  case «variable» =>
    refine .allowed name ?_
    exact hnames.bind fun names => hnext _ (respects_singleton.mp hroot)
  case scope => exact hnames.bind fun names => hnext _ (respects_singleton.mp hroot)
  case locals => exact hnames.bind fun names => hnext _ (respects_singleton.mp hroot)
  case temporary =>
    apply (code.run_agrees hroot).bind
    intro value
    exact hnames.bind fun names => hnext _ fun _ _ _ => rfl

/-- The text of a key agrees if the effects of the key do. -/
theorem Key.run_agrees (key : Key σ) (h : comparison.Respects key.effects) :
    comparison.Agrees (key.run comparison.host comparison.source)
      (key.run comparison.host' comparison.source') := by
  cases key with
  | fixed name => exact .pure name
  | computed code => exact (code.run_agrees h).map Value.display

/-- The texts of keys agree if the effects of all do. -/
theorem Key.resolveAll_agrees (keys : List (Key σ)) (h : comparison.Respects (Key.allEffects keys)) :
    comparison.Agrees (Key.resolveAll comparison.host comparison.source keys)
      (Key.resolveAll comparison.host' comparison.source' keys) := by
  cases keys with
  | nil => exact .pure []
  | cons key rest =>
    simp only [Key.allEffects, respects_append] at h
    apply (key.run_agrees h.1).bind
    intro name
    refine .allowed name ?_
    exact (Key.resolveAll_agrees rest h.2).map (name :: ·)

/-- The entries of an object agree if the effects of all do. -/
theorem Entry.runAll_agrees (fields : List (String × Value)) (entries : List (Entry σ))
    (h : comparison.Respects (Entry.allEffects entries)) :
    comparison.Agrees (Entry.runAll comparison.host comparison.source fields entries)
      (Entry.runAll comparison.host' comparison.source' fields entries) := by
  cases entries with
  | nil => exact .pure fields
  | cons entry rest =>
    obtain ⟨key, value⟩ := entry
    simp only [Entry.allEffects, respects_append] at h
    obtain ⟨⟨hkey, hvalue⟩, hrest⟩ := h
    apply (key.run_agrees hkey).bind
    intro name
    apply (value.run_agrees hvalue).bind
    intro value
    exact Entry.runAll_agrees _ rest hrest

end

end TemplateExpr
