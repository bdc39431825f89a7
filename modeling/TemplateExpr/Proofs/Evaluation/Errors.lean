import TemplateExpr.Proofs.Evaluation.Formation
import TemplateExpr.Proofs.Evaluation.Likeness
import TemplateExpr.Proofs.Writing.Location

/-!
# What can fail at run time

What compiles is well-formed, and a well-formed tree fails for two reasons only: the sandbox refuses
a key, or a value is used as what it is not. Of code of the host, which may fail in every way, the
same is supposed. In particular an assignment always has a key to write under, since its target is a
name or a member access.
-/

namespace TemplateExpr

variable {σ : Type} {α β : Type}

/-- Whether an error is one that running a well-formed program can end in. -/
def Error.IsRuntime (error : Error) : Prop :=
  error.errorClass = .security ∨ error.errorClass = .type

/-- Whether a computation, wherever it starts, fails with errors of running alone. -/
def Run.FailsAtRuntime (run : Run σ α) : Prop :=
  ∀ env error after, run env = (.error error, after) → error.IsRuntime

/-- Whether the functions and the filters of a host fail with errors of running alone. -/
structure RuntimeHost (resolver : Resolver σ) (host : Host) : Prop where
  functions : ∀ name receiver arguments error,
    host name receiver arguments = .error error → error.IsRuntime
  filters : ∀ name found, resolver name = some found → ∀ arguments memory error,
    (found.apply arguments memory).1 = .error error → error.IsRuntime

namespace Run.FailsAtRuntime

/-- A value is no failure. -/
theorem pure (value : α) : (Pure.pure value : Run σ α).FailsAtRuntime := by
  intro env error after h
  cases h

/-- What is done with the environment fails as it does with every environment. -/
theorem inspect {next : Environment σ → Run σ α} (h : ∀ env, (next env).FailsAtRuntime) :
    (do next (← get)).FailsAtRuntime :=
  fun env => h env env

/-- Two steps fail as the first one does, or as the second one does on what the first one gives. -/
theorem bind {run : Run σ α} {next : α → Run σ β} (h : run.FailsAtRuntime)
    (hnext : ∀ env value after, run env = (.ok value, after) → (next value).FailsAtRuntime) :
    (run >>= next).FailsAtRuntime := by
  intro env error after herror
  rcases Run.bind_eq_error.mp herror with hfirst | ⟨value, between, hfirst, hsecond⟩
  · exact h env error after hfirst
  · exact hnext env value between hfirst between error after hsecond

/-- A function of the value cannot fail. -/
theorem map {run : Run σ α} (h : run.FailsAtRuntime) (f : α → β) :
    (do return f (← run)).FailsAtRuntime :=
  h.bind fun _ _ _ _ => .pure _

/-- An outcome fails as it says. -/
theorem ofOutcome {outcome : Except Error Value}
    (h : ∀ error, outcome = .error error → error.IsRuntime) :
    (Run.ofOutcome outcome : Run σ Value).FailsAtRuntime := by
  intro env error after herror
  cases outcome with
  | ok value => cases herror
  | error reason =>
    cases herror
    exact h _ rfl

/-- A name that is refused is an error of the sandbox. -/
theorem allowed (source name : String) :
    (Run.allowed source name : Run σ String).FailsAtRuntime := by
  intro env error after h
  unfold Run.allowed Sandbox.check at h
  cases hforbidden : Sandbox.isForbidden name <;> rw [hforbidden] at h <;> cases h
  exact .inl rfl

/-- Reading what is denoted fails only if there is nothing denoted. -/
theorem fetch {run : Run σ Location} (h : run.FailsAtRuntime) : (Run.fetch run).FailsAtRuntime :=
  h.bind fun _ _ _ _ => .inspect fun _ => .pure _

/-- The text of a key fails as the value of the key does. -/
theorem spell (key : Node) {computed : Bool} {value : Run σ Value}
    (h : computed = true → value.FailsAtRuntime) : (key.spell computed value).FailsAtRuntime := by
  cases computed with
  | true => exact (h rfl).map Value.display
  | false => exact .pure _

/-- A call fails in the host, or because what is called is no function. -/
theorem call {resolver : Resolver σ} {host : Host} (h : RuntimeHost resolver host)
    (source : String) (callee receiver : Value) (arguments : List Value) :
    (Run.ofOutcome (host.call source callee receiver arguments) : Run σ Value).FailsAtRuntime := by
  refine ofOutcome fun error herror => ?_
  cases callee with
  | function name => exact h.functions name receiver arguments error herror
  | undefined | null => cases herror
  | _ =>
    cases herror
    exact .inr rfl

/-- A filter fails as it says. -/
theorem filter {found : Filter σ} {arguments : List Value}
    (h : ∀ memory error, (found.apply arguments memory).1 = .error error → error.IsRuntime) :
    (Run.filter found arguments).FailsAtRuntime := by
  intro env error after herror
  simp only [Run.filter, Run.bind_apply, Run.get_apply, Run.set_apply] at herror
  exact ofOutcome (fun error => h env.memory error) _ error after herror

/-- A write under some key fails because of the values on the way. -/
theorem write (source : String) {location : Location} (hkeys : location.keys ≠ [])
    (value : Value) :
    (Run.write source location value : Run σ Value).FailsAtRuntime := by
  intro env error after herror
  rw [Run.write_apply, if_neg hkeys] at herror
  split at herror <;> cases herror
  exact .inr rfl

end Run.FailsAtRuntime

namespace Node

/-- A name and a member access denote something under a key. -/
theorem keys_ne_nil_of_denotes {node : Node} (h : node.isAssignable = true) {location : Location}
    (hlocation : node.Denotes location) : location.keys ≠ [] := by
  cases node with
  | identifier name =>
    cases hlocation
    exact List.cons_ne_nil _ _
  | member holder property computed =>
    obtain ⟨inner, key, -, rfl⟩ := hlocation
    simp [Location.push]
  | _ => cases h

variable {resolver : Resolver σ} {host : Host} {source : String}

open Run
mutual

/-- A tree without faults in its parts is resolved, or fails at run time. -/
theorem resolve_failsAtRuntime (hhost : RuntimeHost resolver host) (node : Node)
    (h : ∀ part ∈ node.parts, part.fault? resolver source = none) :
    (node.resolve resolver host source).FailsAtRuntime := by
  cases node with
  | program body =>
    simp only [parts, List.forall_mem_cons] at h
    exact (runLast_failsAtRuntime hhost .undefined body h.2).map _
  | statement expression =>
    simp only [parts, List.forall_mem_cons] at h
    exact (resolve_failsAtRuntime hhost expression h.2).fetch.map _
  | literal | this | locals => exact .pure _
  | identifier name => exact (FailsAtRuntime.allowed source name).map _
  | member holder property computed =>
    simp only [parts, List.forall_mem_cons, List.forall_mem_append] at h
    obtain ⟨-, hholder, hproperty⟩ := h
    have hkey : computed = true →
        (Run.fetch (property.resolve resolver host source)).FailsAtRuntime := by
      rintro rfl
      exact (resolve_failsAtRuntime hhost property hproperty).fetch
    exact (resolve_failsAtRuntime hhost holder hholder).bind fun _ _ _ _ =>
      (FailsAtRuntime.spell property hkey).bind fun _ _ _ _ =>
        (FailsAtRuntime.allowed source _).map _
  | call callee arguments =>
    simp only [parts, List.forall_mem_cons, List.forall_mem_append] at h
    exact (resolve_failsAtRuntime hhost callee h.2.1).bind fun _ _ _ _ => .inspect fun _ =>
      (runAll_failsAtRuntime hhost arguments h.2.2).bind fun _ _ _ _ => .inspect fun _ =>
        (FailsAtRuntime.call hhost source _ _ _).map _
  | filter name arguments =>
    simp only [parts, List.forall_mem_cons] at h
    cases hfound : resolver name.filterName with
    | none => simp [fault?, hfound] at h
    | some found =>
      simp only [resolve, hfound]
      exact (runAll_failsAtRuntime hhost arguments h.2).bind fun _ values _ _ =>
        (FailsAtRuntime.filter (hhost.filters _ found hfound values)).map _
  | assignment target value =>
    simp only [parts, List.forall_mem_cons, List.forall_mem_append] at h
    obtain ⟨hself, htarget, hvalue⟩ := h
    cases hassignable : target.isAssignable with
    | false => simp [fault?, hassignable] at hself
    | true =>
      simp only [resolve, hassignable, if_true]
      refine (resolve_failsAtRuntime hhost target htarget).bind fun _ location _ hlocation => ?_
      have hkeys := keys_ne_nil_of_denotes hassignable (denotes_of_resolve target hlocation)
      exact (resolve_failsAtRuntime hhost value hvalue).fetch.bind fun _ value _ _ =>
        (FailsAtRuntime.write source hkeys value).map _
  | conditional test alternate consequent =>
    simp only [parts, List.forall_mem_cons, List.forall_mem_append] at h
    obtain ⟨-, ⟨htest, halternate⟩, hconsequent⟩ := h
    refine (resolve_failsAtRuntime hhost test htest).fetch.bind fun _ value _ _ => ?_
    cases value.isTruthy with
    | true => exact (resolve_failsAtRuntime hhost alternate halternate).fetch.map _
    | false => exact (resolve_failsAtRuntime hhost consequent hconsequent).fetch.map _
  | logical operator left right =>
    simp only [parts, List.forall_mem_cons, List.forall_mem_append] at h
    refine (resolve_failsAtRuntime hhost left h.2.1).fetch.bind fun _ value _ _ => ?_
    cases value.isTruthy == (operator == .or) with
    | true => exact (FailsAtRuntime.pure value).map _
    | false => exact (resolve_failsAtRuntime hhost right h.2.2).fetch.map _
  | binary operator left right =>
    simp only [parts, List.forall_mem_cons, List.forall_mem_append] at h
    exact (resolve_failsAtRuntime hhost left h.2.1).fetch.bind fun _ _ _ _ =>
      (resolve_failsAtRuntime hhost right h.2.2).fetch.map _
  | unary operator leading argument =>
    simp only [parts, List.forall_mem_cons] at h
    exact (resolve_failsAtRuntime hhost argument h.2).fetch.map _
  | array elements =>
    simp only [parts, List.forall_mem_cons] at h
    exact (runAll_failsAtRuntime hhost elements h.2).map _
  | object properties =>
    simp only [parts, List.forall_mem_cons] at h
    exact (runProperties_failsAtRuntime hhost [] properties h.2).map _

/-- Trees without faults in their parts give their values, or fail at run time. -/
theorem runAll_failsAtRuntime (hhost : RuntimeHost resolver host) (nodes : List Node)
    (h : ∀ part ∈ allParts nodes, part.fault? resolver source = none) :
    (runAll resolver host source nodes).FailsAtRuntime := by
  cases nodes with
  | nil => exact .pure []
  | cons node rest =>
    simp only [allParts, List.forall_mem_append] at h
    exact (resolve_failsAtRuntime hhost node h.1).fetch.bind fun _ _ _ _ =>
      (runAll_failsAtRuntime hhost rest h.2).map _

/-- Trees without faults in their parts give the last of their values, or fail at run time. -/
theorem runLast_failsAtRuntime (hhost : RuntimeHost resolver host) (last : Value)
    (nodes : List Node)
    (h : ∀ part ∈ allParts nodes, part.fault? resolver source = none) :
    (runLast resolver host source last nodes).FailsAtRuntime := by
  cases nodes with
  | nil => exact .pure last
  | cons node rest =>
    simp only [allParts, List.forall_mem_append] at h
    exact (resolve_failsAtRuntime hhost node h.1).fetch.bind fun _ value _ _ =>
      runLast_failsAtRuntime hhost value rest h.2

/-- Entries without faults in their parts give fields, or fail at run time. -/
theorem runProperties_failsAtRuntime (hhost : RuntimeHost resolver host)
    (fields : List (String × Value)) (properties : List Property)
    (h : ∀ part ∈ propertyParts properties, part.fault? resolver source = none) :
    (runProperties resolver host source fields properties).FailsAtRuntime := by
  cases properties with
  | nil => exact .pure fields
  | cons property rest =>
    obtain ⟨key, value, computed⟩ := property
    simp only [propertyParts, List.forall_mem_append] at h
    obtain ⟨⟨hkey, hvalue⟩, hrest⟩ := h
    have hname : computed = true →
        (Run.fetch (key.resolve resolver host source)).FailsAtRuntime := by
      rintro rfl
      exact (resolve_failsAtRuntime hhost key hkey).fetch
    exact (FailsAtRuntime.spell key hname).bind fun _ _ _ _ =>
      (resolve_failsAtRuntime hhost value hvalue).fetch.bind fun _ _ _ _ =>
        runProperties_failsAtRuntime hhost _ rest hrest

end

end Node

namespace Evaluator

/-- Compilation succeeds exactly on well-formed trees: where each filter in a part that is run is
known, and each assignment is to a name or a member access. Otherwise it reports one of these
faults. What compiles fails only because of a refused key or of a type, in every environment, unless
the functions and filters of the host fail otherwise. -/
theorem compiles_iff_wellFormed (resolver : Resolver σ) (source : String) (tree : Node) :
    ((∃ evaluator, ofNode resolver source tree = .ok evaluator) ↔
      ∀ part ∈ tree.parts, part.fault? resolver source = none) ∧
    (∀ error, ofNode resolver source tree = .error error →
      (error.errorClass = .unknownFilter ∨ error.errorClass = .nonAssignable) ∧
        ∃ part ∈ tree.parts, part.fault? resolver source = some error) ∧
    ∀ evaluator, ofNode resolver source tree = .ok evaluator →
      ∀ host, RuntimeHost resolver host → ∀ env error after,
        evaluator.evaluate host env = (.error error, after) → error.IsRuntime := by
  have hreports : Node.Reports resolver source tree.parts (ofNode resolver source tree) :=
    (Node.reports_statements tree).map _
  refine ⟨hreports.exists_ok_iff, fun error herror => ?_, fun evaluator hok host hhost => ?_⟩
  · rw [herror] at hreports
    obtain ⟨part, hpart, hfault⟩ := hreports
    exact ⟨Node.errorClass_of_fault? hfault, part, hpart, hfault⟩
  · rw [evaluate_eq_runLast hok]
    have hnone := hreports.exists_ok_iff.mp ⟨evaluator, hok⟩
    exact Node.runLast_failsAtRuntime hhost .undefined tree.statements fun part hpart =>
      hnone part (Node.mem_parts_of_mem_statements hpart)

/-- An assignment to the scope is a fault where it computes a key, and no more than a name where it
stands for a key that is not computed. -/
theorem compiles_assignment_as_name :
    let resolver : Resolver Unit := fun _ => none
    let host : Host := fun _ _ _ => .ok .undefined
    let tree (computed : Bool) : Node :=
      .member (.identifier "constructor") (.assignment .this .locals) computed
    RuntimeHost resolver host ∧
    (∃ error, ofNode resolver "x" (tree true) = .error error ∧ error = .notAssignable "x" ∧
      (error.errorClass = .unknownFilter ∨ error.errorClass = .nonAssignable) ∧
        ∃ part ∈ (tree true).parts, part.fault? resolver "x" = some error) ∧
    ∃ evaluator, ofNode resolver "x" (tree false) = .ok evaluator ∧
      ∃ error after, evaluator.evaluate host ⟨.object [], none, ()⟩ = (.error error, after) ∧
        error = .forbidden "constructor" "x" ∧ error.IsRuntime := by
  intro resolver host tree
  have hhost : RuntimeHost resolver host := by
    constructor <;> (intros; contradiction)
  have hfault : ofNode resolver "x" (tree true) = .error (.notAssignable "x") := rfl
  have hnone : ∀ part ∈ (tree false).parts, part.fault? resolver "x" = none := by
    simp [tree, Node.parts, Node.fault?]
  obtain ⟨-, hreported, -⟩ := compiles_iff_wellFormed resolver "x" (tree true)
  obtain ⟨hiff, -, hruns⟩ := compiles_iff_wellFormed resolver "x" (tree false)
  obtain ⟨evaluator, hok⟩ := hiff.mpr hnone
  refine ⟨hhost, ⟨_, hfault, rfl, hreported _ hfault⟩, evaluator, hok, ?_⟩
  have hrun : evaluator.evaluate host ⟨.object [], none, ()⟩ =
      (.error (.forbidden "constructor" "x"), ⟨.object [], none, ()⟩) := by
    rw [evaluate_eq_runLast hok]
    rfl
  exact ⟨_, _, hrun, rfl, hruns evaluator hok host hhost _ _ _ hrun⟩

end Evaluator

end TemplateExpr
