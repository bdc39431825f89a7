import TemplateExpr.Proofs.Evaluation.Resolution
import TemplateExpr.Proofs.Printing.Parts

/-!
# Trees that two runs take alike

Whether two runs of a program agree is decided by its parts one by one: by what a name reads, what a
call is given, what a filter does and what an assignment changes. If each part is taken alike in a
comparison, then so is the whole. Unlike the effects of code, which tell of the places that are read
as a whole, this tells of the locations that a tree can denote.
-/

namespace TemplateExpr

variable {σ : Type} {α β : Type}

namespace Comparison

variable {comparison : Comparison σ}

/-- Whether the same is read at a location on both sides. -/
def ReadsAlike (comparison : Comparison σ) (location : Location) : Prop :=
  ∀ env env', comparison.related env env' → env.read location = env'.read location

/-- What the environment does not hold is the same for all. -/
theorem readsAlike_temporary (value : Value) (keys : List String) :
    comparison.ReadsAlike ⟨.temporary value, keys⟩ := fun _ _ _ => rfl

/-- Steps agree as a whole if the second ones agree on all that the first one may give. -/
theorem Agrees.bind_of {run run' : Run σ α} {next next' : α → Run σ β} {P : α → Prop}
    (h : comparison.Agrees run run')
    (hgives : ∀ env value after, run env = (.ok value, after) → P value)
    (hnext : ∀ value, P value → comparison.Agrees (next value) (next' value)) :
    comparison.Agrees (run >>= next) (run' >>= next') := by
  intro env env' henv
  obtain ⟨houtcome, hafter⟩ := h env env' henv
  rw [Run.bind_apply, Run.bind_apply]
  rcases hrun : run env with ⟨outcome, after⟩
  rcases hrun' : run' env' with ⟨outcome', after'⟩
  rw [hrun, hrun'] at houtcome hafter
  cases houtcome with
  | ok value => exact hnext value (hgives env value after hrun) after after' hafter
  | error h => exact ⟨.error h, hafter⟩

/-- What is read agrees if it is read at one location and alike. -/
theorem Agrees.fetch {run run' : Run σ Location} (h : comparison.Agrees run run')
    (hreads : ∀ env location after, run env = (.ok location, after) →
      comparison.ReadsAlike location) :
    comparison.Agrees (Run.fetch run) (Run.fetch run') :=
  h.bind_of hreads fun _ hlocation => .observe hlocation

/-- A filter agrees if it finds one memory and leaves another one behind on both sides. -/
theorem Agrees.filter (found : Filter σ) (arguments : List Value)
    (h : ∀ env env', comparison.related env env' → env.memory = env'.memory ∧
      ∀ memory, comparison.related { env with memory } { env' with memory }) :
    comparison.Agrees (Run.filter found arguments) (Run.filter found arguments) := by
  intro env env' henv
  obtain ⟨hmemory, hafter⟩ := h env env' henv
  simp only [Run.filter, Run.bind_apply, Run.get_apply, Run.set_apply, hmemory]
  exact Agrees.ofOutcome _ _ _ (hafter _)

end Comparison

open Comparison

namespace Node

/-- The locations that a tree can denote. -/
def Denotes : Node → Location → Prop
  | .identifier name, location => location = ⟨.holder name, [name]⟩
  | .this, location => location = ⟨.scope, []⟩
  | .locals, location => location = ⟨.locals, []⟩
  | .member holder _ _, location => ∃ inner key, Denotes holder inner ∧ inner.push key = location
  | _, location => ∃ value, .ofValue value = location

/-- Whether the two sides of a comparison take a tree alike, as far as its parts do not decide. -/
def Alike (comparison : Comparison σ) (resolver : Resolver σ) : Node → Prop
  | .identifier name => ∀ keys, comparison.ReadsAlike ⟨.holder name, name :: keys⟩
  | .this => ∀ keys, comparison.ReadsAlike ⟨.scope, keys⟩
  | .locals => ∀ keys, comparison.ReadsAlike ⟨.locals, keys⟩
  | .call callee _ => comparison.host = comparison.host' ∧
      (callee.isAssignable = true → ∀ location, callee.Denotes location →
        ∀ env env', comparison.related env env' → env.receiver location = env'.receiver location)
  | .filter name _ => ∀ found, resolver name.filterName = some found → ∀ arguments,
      comparison.Agrees (Run.filter found arguments) (Run.filter found arguments)
  | .assignment target _ => ∀ location, target.Denotes location → ∀ value,
      comparison.Agrees (Run.write comparison.source location value)
        (Run.write comparison.source' location value)
  | _ => True

variable {resolver : Resolver σ} {comparison : Comparison σ}

/-- What a tree is resolved to is a location that it can denote. -/
theorem denotes_of_resolve (node : Node) {host : Host} {source : String} {env after : Environment σ}
    {location : Location} (h : node.resolve resolver host source env = (.ok location, after)) :
    node.Denotes location := by
  cases node with
  | identifier name =>
    simp only [resolve, Run.bind_eq_ok, Run.allowed_eq_ok, Run.pure_eq_ok] at h
    obtain ⟨checked, between, ⟨-, rfl, -⟩, rfl, -⟩ := h
    rfl
  | this | locals =>
    simp only [resolve, Run.pure_eq_ok] at h
    exact h.1.symm
  | member holder property computed =>
    simp only [resolve, Run.bind_eq_ok, Run.pure_eq_ok] at h
    obtain ⟨inner, between, hinner, -, -, -, key, -, -, rfl, -⟩ := h
    exact ⟨inner, key, denotes_of_resolve holder hinner, rfl⟩
  | filter name arguments =>
    cases hfound : resolver name.filterName with
    | none =>
      simp only [resolve, hfound] at h
      cases h
    | some found =>
      simp only [resolve, hfound, Run.bind_eq_ok, Run.pure_eq_ok] at h
      grind [Denotes]
  | assignment target value =>
    cases hassignable : target.isAssignable with
    | false =>
      simp only [resolve, hassignable] at h
      cases h
    | true =>
      simp only [resolve, hassignable, if_true, Run.bind_eq_ok, Run.pure_eq_ok] at h
      grind [Denotes]
  | _ =>
    simp only [resolve, Run.bind_eq_ok, Run.pure_eq_ok] at h
    grind [Denotes]

/-- All that can be read below a tree is read alike if its parts are taken alike. -/
theorem readsAlike_of_denotes (node : Node)
    (h : ∀ part ∈ node.parts, part.Alike comparison resolver) {location : Location}
    (hlocation : node.Denotes location) (more : List String) :
    comparison.ReadsAlike ⟨location.place, location.keys ++ more⟩ := by
  cases node with
  | identifier name =>
    cases hlocation
    exact h _ (mem_parts_self _) more
  | this | locals =>
    cases hlocation
    exact h _ (mem_parts_self _) more
  | member holder property computed =>
    obtain ⟨inner, key, hinner, rfl⟩ := hlocation
    simp only [parts, List.forall_mem_cons, List.forall_mem_append] at h
    have hholder := readsAlike_of_denotes holder h.2.1 hinner (key :: more)
    simpa only [Location.push, List.append_assoc, List.singleton_append] using hholder
  | _ =>
    obtain ⟨value, rfl⟩ := hlocation
    exact readsAlike_temporary value _

/-- The value of a tree agrees if its location does and its parts are taken alike. -/
theorem run_agrees_of_resolve {node : Node}
    (h : ∀ part ∈ node.parts, part.Alike comparison resolver)
    (hresolve : comparison.Agrees (node.resolve resolver comparison.host comparison.source)
      (node.resolve resolver comparison.host' comparison.source')) :
    comparison.Agrees (Run.fetch (node.resolve resolver comparison.host comparison.source))
      (Run.fetch (node.resolve resolver comparison.host' comparison.source')) := by
  refine hresolve.fetch fun env location after hlocation => ?_
  have hreads := readsAlike_of_denotes node h (denotes_of_resolve node hlocation) []
  rwa [List.append_nil] at hreads

/-- The text of a key agrees if the value of the key does. -/
theorem spell_agrees (key : Node) {computed : Bool} {value value' : Run σ Value}
    (h : computed = true → comparison.Agrees value value') :
    comparison.Agrees (key.spell computed value) (key.spell computed value') := by
  cases computed with
  | true => exact (h rfl).map Value.display
  | false => exact .pure _

mutual

/-- A tree denotes the same on both sides of a comparison if its parts are taken alike. -/
theorem resolve_agrees (node : Node) (h : ∀ part ∈ node.parts, part.Alike comparison resolver) :
    comparison.Agrees (node.resolve resolver comparison.host comparison.source)
      (node.resolve resolver comparison.host' comparison.source') := by
  cases node with
  | program body =>
    simp only [parts, List.forall_mem_cons] at h
    exact (runLast_agrees .undefined body h.2).map Location.ofValue
  | statement expression =>
    simp only [parts, List.forall_mem_cons] at h
    have hvalue := run_agrees_of_resolve h.2 (resolve_agrees expression h.2)
    exact hvalue.map Location.ofValue
  | literal value => exact .pure _
  | identifier name => exact .allowed name (.pure _)
  | this | locals => exact .pure _
  | member holder property computed =>
    simp only [parts, List.forall_mem_cons, List.forall_mem_append] at h
    obtain ⟨-, hholder, hproperty⟩ := h
    have hkey : computed = true →
        comparison.Agrees (Run.fetch (property.resolve resolver comparison.host comparison.source))
          (Run.fetch (property.resolve resolver comparison.host' comparison.source')) := by
      rintro rfl
      exact run_agrees_of_resolve hproperty (resolve_agrees property hproperty)
    apply (resolve_agrees holder hholder).bind
    intro location
    apply (spell_agrees property hkey).bind
    intro key
    exact .allowed key (.pure _)
  | call callee arguments =>
    simp only [parts, List.forall_mem_cons, List.forall_mem_append] at h
    obtain ⟨⟨hhost, hreceiver⟩, hcallee, harguments⟩ := h
    apply (resolve_agrees callee hcallee).bind_of fun _ _ _ => denotes_of_resolve callee
    intro location hlocation
    apply Agrees.inspect
    intro env env' henv
    have hread := readsAlike_of_denotes callee hcallee hlocation []
    rw [List.append_nil] at hread
    rw [hread env env' henv]
    apply (runAll_agrees arguments harguments).bind
    intro values
    apply Agrees.inspect
    intro env env' henv
    cases hassignable : callee.isAssignable with
    | true =>
      simp only [if_true, hreceiver hassignable location hlocation env env' henv]
      exact (Agrees.call hhost _ _ values).map Location.ofValue
    | false => exact (Agrees.call hhost _ _ values).map Location.ofValue
  | filter name arguments =>
    simp only [parts, List.forall_mem_cons] at h
    obtain ⟨hfilter, harguments⟩ := h
    cases hfound : resolver name.filterName with
    | none =>
      simp only [resolve, hfound]
      exact .throw fun hsource => by rw [hsource]
    | some found =>
      simp only [resolve, hfound]
      apply (runAll_agrees arguments harguments).bind
      intro values
      exact (hfilter found hfound values).map Location.ofValue
  | assignment target value =>
    simp only [parts, List.forall_mem_cons, List.forall_mem_append] at h
    obtain ⟨hwrite, htarget, hvalue⟩ := h
    cases hassignable : target.isAssignable with
    | false =>
      simp only [resolve, hassignable]
      exact .throw fun hsource => by rw [hsource]
    | true =>
      simp only [resolve, hassignable, if_true]
      apply (resolve_agrees target htarget).bind_of fun _ _ _ => denotes_of_resolve target
      intro location hlocation
      apply (run_agrees_of_resolve hvalue (resolve_agrees value hvalue)).bind
      intro value
      exact (hwrite location hlocation value).map Location.ofValue
  | conditional test alternate consequent =>
    simp only [parts, List.forall_mem_cons, List.forall_mem_append] at h
    obtain ⟨-, ⟨htest, halternate⟩, hconsequent⟩ := h
    apply (run_agrees_of_resolve htest (resolve_agrees test htest)).bind
    intro value
    cases value.isTruthy with
    | true =>
      exact (run_agrees_of_resolve halternate (resolve_agrees alternate halternate)).map
        Location.ofValue
    | false =>
      exact (run_agrees_of_resolve hconsequent (resolve_agrees consequent hconsequent)).map
        Location.ofValue
  | logical operator left right =>
    simp only [parts, List.forall_mem_cons, List.forall_mem_append] at h
    obtain ⟨-, hleft, hright⟩ := h
    apply (run_agrees_of_resolve hleft (resolve_agrees left hleft)).bind
    intro value
    cases value.isTruthy == (operator == .or) with
    | true => exact .map (.pure value) Location.ofValue
    | false =>
      exact (run_agrees_of_resolve hright (resolve_agrees right hright)).map Location.ofValue
  | binary operator left right =>
    simp only [parts, List.forall_mem_cons, List.forall_mem_append] at h
    obtain ⟨-, hleft, hright⟩ := h
    apply (run_agrees_of_resolve hleft (resolve_agrees left hleft)).bind
    intro left
    apply (run_agrees_of_resolve hright (resolve_agrees right hright)).bind
    intro right
    exact .pure _
  | unary operator leading argument =>
    simp only [parts, List.forall_mem_cons] at h
    exact (run_agrees_of_resolve h.2 (resolve_agrees argument h.2)).map fun value =>
      Location.ofValue (operator.apply value)
  | array elements =>
    simp only [parts, List.forall_mem_cons] at h
    exact (runAll_agrees elements h.2).map fun values => Location.ofValue (.array values)
  | object properties =>
    simp only [parts, List.forall_mem_cons] at h
    exact (runProperties_agrees [] properties h.2).map fun fields =>
      Location.ofValue (.object fields)

/-- Trees that are run in order agree if their parts are taken alike. -/
theorem runAll_agrees (nodes : List Node)
    (h : ∀ part ∈ allParts nodes, part.Alike comparison resolver) :
    comparison.Agrees (runAll resolver comparison.host comparison.source nodes)
      (runAll resolver comparison.host' comparison.source' nodes) := by
  cases nodes with
  | nil => exact .pure []
  | cons node rest =>
    simp only [allParts, List.forall_mem_append] at h
    apply (run_agrees_of_resolve h.1 (resolve_agrees node h.1)).bind
    intro value
    exact (runAll_agrees rest h.2).map (value :: ·)

/-- The last of several trees agrees if the parts of all are taken alike. -/
theorem runLast_agrees (last : Value) (nodes : List Node)
    (h : ∀ part ∈ allParts nodes, part.Alike comparison resolver) :
    comparison.Agrees (runLast resolver comparison.host comparison.source last nodes)
      (runLast resolver comparison.host' comparison.source' last nodes) := by
  cases nodes with
  | nil => exact .pure last
  | cons node rest =>
    simp only [allParts, List.forall_mem_append] at h
    apply (run_agrees_of_resolve h.1 (resolve_agrees node h.1)).bind
    intro value
    exact runLast_agrees value rest h.2

/-- The fields of an object literal agree if the parts of its entries are taken alike. -/
theorem runProperties_agrees (fields : List (String × Value)) (properties : List Property)
    (h : ∀ part ∈ propertyParts properties, part.Alike comparison resolver) :
    comparison.Agrees (runProperties resolver comparison.host comparison.source fields properties)
      (runProperties resolver comparison.host' comparison.source' fields properties) := by
  cases properties with
  | nil => exact .pure fields
  | cons property rest =>
    obtain ⟨key, value, computed⟩ := property
    simp only [propertyParts, List.forall_mem_append] at h
    obtain ⟨⟨hkey, hvalue⟩, hrest⟩ := h
    have hname : computed = true →
        comparison.Agrees (Run.fetch (key.resolve resolver comparison.host comparison.source))
          (Run.fetch (key.resolve resolver comparison.host' comparison.source')) := by
      rintro rfl
      exact run_agrees_of_resolve hkey (resolve_agrees key hkey)
    apply (spell_agrees key hname).bind
    intro name
    apply (run_agrees_of_resolve hvalue (resolve_agrees value hvalue)).bind
    intro value
    exact runProperties_agrees _ rest hrest

end

/-- Whether a tree is an assignment. -/
def Assigns : Node → Prop
  | .assignment .. => True
  | _ => False

end Node

/-- Whether a computation leaves scope and locals as they are, whatever becomes of the memory of the
filters. -/
def Run.Keeps (run : Run σ α) : Prop :=
  ∀ env, (run env).2.scope = env.scope ∧ (run env).2.locals = env.locals

/-- Steps that change nothing change nothing together. -/
theorem Run.Keeps.bind {run : Run σ α} {next : α → Run σ β} (h : run.Keeps)
    (hnext : ∀ value, (next value).Keeps) : (run >>= next).Keeps := by
  intro env
  have hbetween := h env
  rw [Run.bind_apply]
  rcases hrun : run env with ⟨_ | value, between⟩
  · rwa [hrun] at hbetween
  · rw [hrun] at hbetween
    exact ⟨(hnext value between).1.trans hbetween.1, (hnext value between).2.trans hbetween.2⟩

/-- A value changes nothing. -/
theorem Run.keeps_pure (value : α) : (pure value : Run σ α).Keeps := fun _ => ⟨rfl, rfl⟩

/-- The check of a name changes nothing. -/
theorem Run.keeps_allowed (source name : String) :
    (Run.allowed source name : Run σ String).Keeps := by
  intro env
  unfold Run.allowed
  cases Sandbox.check name source <;> exact ⟨rfl, rfl⟩

/-- The comparison of runs with themselves, from all environments with one scope and locals. -/
def Comparison.within (host : Host) (source : String) (env : Environment σ) : Comparison σ where
  host := host
  host' := host
  source := source
  source' := source
  related := fun before before' =>
    before = before' ∧ before.scope = env.scope ∧ before.locals = env.locals

/-- What agrees with itself within all scopes and locals leaves them as they are. -/
theorem Run.keeps_of_agrees (host : Host) (source : String) {run : Run σ α}
    (h : ∀ env, (Comparison.within host source env).Agrees run run) : run.Keeps := by
  intro env
  exact (h env env env ⟨rfl, rfl, rfl⟩).2.2

namespace Node

variable {resolver : Resolver σ} {host : Host} {source : String}

/-- Trees other than assignments do not change scope and locals, other than through their parts. -/
theorem alike_within {node : Node} (h : ¬node.Assigns) (env : Environment σ) :
    node.Alike (.within host source env) resolver := by
  cases node with
  | assignment => exact absurd trivial h
  | identifier | this | locals =>
    rintro keys before _ ⟨rfl, -⟩
    rfl
  | call callee arguments =>
    refine ⟨rfl, ?_⟩
    rintro - location - before _ ⟨rfl, -⟩
    rfl
  | filter name arguments =>
    rintro found - values
    refine .filter found values ?_
    rintro before _ ⟨rfl, hscope, hlocals⟩
    exact ⟨rfl, fun memory => ⟨rfl, hscope, hlocals⟩⟩
  | _ => trivial

/-- A tree without assignments in it is resolved without a change of scope and locals. -/
theorem resolve_keeps (node : Node) (h : ∀ part ∈ node.parts, ¬part.Assigns) :
    (node.resolve resolver host source).Keeps :=
  Run.keeps_of_agrees host source fun env =>
    resolve_agrees node fun part hpart => alike_within (h part hpart) env

/-- A tree without assignments in it is run without a change of scope and locals. -/
theorem run_keeps (node : Node) (h : ∀ part ∈ node.parts, ¬part.Assigns) :
    (node.run resolver host source).Keeps :=
  Run.keeps_of_agrees host source fun env =>
    have halike := fun part hpart => alike_within (h part hpart) env
    run_agrees_of_resolve halike (resolve_agrees node halike)

/-- Trees without assignments in them are run without a change of scope and locals. -/
theorem runAll_keeps (nodes : List Node) (h : ∀ part ∈ allParts nodes, ¬part.Assigns) :
    (runAll resolver host source nodes).Keeps :=
  Run.keeps_of_agrees host source fun env =>
    runAll_agrees nodes fun part hpart => alike_within (h part hpart) env

end Node

end TemplateExpr
