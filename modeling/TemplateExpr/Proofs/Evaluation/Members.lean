import TemplateExpr.Proofs.Evaluation.Likeness

/-!
# Member access step by step

Compiled code flattens a chain of member accesses: it makes all keys first, walks along them
afterwards, and walks once more for the receiver of a call. Read step by step instead, a member
access evaluates its object, then its key, and then reads the one in the other, and a call passes on
the object that its function was read in. Both readings are the same if no assignment stands in the
computed key of a member access or among the arguments of a call, which one of them runs before
something is read and the other one after it.
-/

namespace TemplateExpr

variable {σ : Type} {α β : Type}

/-- A value with what it was read in and where a write would put another one. -/
structure Held where
  holder : Value
  value : Value
  location : Location

namespace Held

/-- A value that was not read in anything. -/
def alone (value : Value) : Held := ⟨.undefined, value, .ofValue value⟩

end Held

/-- The value of what a computation gives. -/
def Run.value (run : Run σ Held) : Run σ Value := do return (← run).value

namespace Node

mutual

/-- The value of a tree, read step by step. -/
def evaluate (resolver : Resolver σ) (host : Host) (source : String) : Node → Run σ Held
  | .program body => do return .alone (← evaluateLast resolver host source .undefined body)
  | .statement expression => do
    return .alone (← Run.value (expression.evaluate resolver host source))
  | .literal value => return .alone value.toValue
  | .identifier name => do
    let name ← Run.allowed source name
    let holder := (← get).base (.holder name)
    return ⟨holder, holder.get name, ⟨.holder name, [name]⟩⟩
  | .this => do return ⟨.undefined, (← get).scope, ⟨.scope, []⟩⟩
  | .locals => do return ⟨.undefined, (← get).locals.getD .undefined, ⟨.locals, []⟩⟩
  | .member holder property computed => do
    let object ← holder.evaluate resolver host source
    let key ← property.spell computed (Run.value (property.evaluate resolver host source))
    let key ← Run.allowed source key
    return ⟨object.value, object.value.get key, object.location.push key⟩
  | .call callee arguments => do
    let callee ← callee.evaluate resolver host source
    let arguments ← evaluateAll resolver host source arguments
    return .alone (← Run.ofOutcome (host.call source callee.value callee.holder arguments))
  | .filter name arguments =>
    match resolver name.filterName with
    | none => throw (.unknownFilter name.filterName source)
    | some found => do
      let arguments ← evaluateAll resolver host source arguments
      return .alone (← Run.filter found arguments)
  | .assignment target value =>
    if target.isAssignable then do
      let target ← target.evaluate resolver host source
      let value ← Run.value (value.evaluate resolver host source)
      return .alone (← Run.write source target.location value)
    else throw (.notAssignable source)
  | .conditional test alternate consequent => do
    let test ← Run.value (test.evaluate resolver host source)
    let value ← (if test.isTruthy then Run.value (alternate.evaluate resolver host source)
      else Run.value (consequent.evaluate resolver host source))
    return .alone value
  | .logical operator left right => do
    let value ← Run.value (left.evaluate resolver host source)
    let value ← (if value.isTruthy == (operator == .or) then pure value
      else Run.value (right.evaluate resolver host source))
    return .alone value
  | .binary operator left right => do
    let left ← Run.value (left.evaluate resolver host source)
    let right ← Run.value (right.evaluate resolver host source)
    return .alone (operator.apply left right)
  | .unary operator _ argument => do
    return .alone (operator.apply (← Run.value (argument.evaluate resolver host source)))
  | .array elements => do return .alone (.array (← evaluateAll resolver host source elements))
  | .object properties => do
    return .alone (.object (← evaluateProperties resolver host source [] properties))

/-- The values of trees in order. -/
def evaluateAll (resolver : Resolver σ) (host : Host) (source : String) :
    List Node → Run σ (List Value)
  | [] => pure []
  | node :: rest => do
    let value ← Run.value (node.evaluate resolver host source)
    let values ← evaluateAll resolver host source rest
    return value :: values

/-- The value of the last of several trees, or `last` if there is none. -/
def evaluateLast (resolver : Resolver σ) (host : Host) (source : String) (last : Value) :
    List Node → Run σ Value
  | [] => pure last
  | node :: rest => do
    let value ← Run.value (node.evaluate resolver host source)
    evaluateLast resolver host source value rest

/-- The fields with those of an object literal added in order, each key before its value. -/
def evaluateProperties (resolver : Resolver σ) (host : Host) (source : String)
    (fields : List (String × Value)) : List Property → Run σ (List (String × Value))
  | [] => pure fields
  | .entry key value computed :: rest => do
    let name ← key.spell computed (Run.value (key.evaluate resolver host source))
    let value ← Run.value (value.evaluate resolver host source)
    evaluateProperties resolver host source (Fields.insert name value fields) rest

end

/-- Whether a tree runs no assignment between what its two readings do in a different order. -/
def Steady : Node → Prop
  | .member _ property true => ∀ part ∈ property.parts, ¬part.Assigns
  | .call _ arguments => ∀ part ∈ allParts arguments, ¬part.Assigns
  | _ => True

/-- What is at a location that a tree denotes. Only what is at the end of a chain is held. -/
def held (node : Node) (env : Environment σ) (location : Location) : Held where
  holder := if node.isAssignable then env.receiver location else .undefined
  value := env.read location
  location := location

end Node

/-- What is at a location may be looked at before a computation that keeps it as well as after. -/
theorem Run.Keeps.held_bind {run : Run σ α} (h : run.Keeps) (node : Node) (location : Location)
    (next : Held → α → Run σ β) :
    (do let env ← get; let value ← run; next (node.held env location) value) =
      (do let value ← run; let env ← get; next (node.held env location) value) := by
  funext env
  simp only [Run.bind_apply, Run.get_apply]
  obtain ⟨hscope, hlocals⟩ := h env
  rcases hrun : run env with ⟨_ | value, after⟩
  · rfl
  · rw [hrun] at hscope hlocals
    have hbase := Environment.base_eq hscope hlocals location.place
    change next (node.held env location) value after = next (node.held after location) value after
    rw [Node.held, Node.held, Environment.read_congr hbase, Environment.receiver_congr hbase]

/-- What is read one key further is the property of what is read before it. -/
theorem Environment.read_push (env : Environment σ) (location : Location) (key : String) :
    env.read (location.push key) = (env.read location).get key := by
  simp [read, Location.push, Value.follow]

namespace Node

variable {resolver : Resolver σ} {host : Host} {source : String}

/-- The text of a key is made without a change of scope and locals if its value is. -/
theorem spell_keeps (key : Node) {computed : Bool} {value : Run σ Value}
    (h : computed = true → value.Keeps) : (key.spell computed value).Keeps := by
  cases computed with
  | false => exact Run.keeps_pure _
  | true => exact (h rfl).bind fun value => Run.keeps_pure _

/-- Both readings of a tree give one value if they give the same at one location. -/
theorem value_of_evaluate {node : Node} (h : node.evaluate resolver host source = (do
      let location ← node.resolve resolver host source
      return node.held (← get) location)) :
    Run.value (node.evaluate resolver host source) =
      Run.fetch (node.resolve resolver host source) := by
  simp only [Run.value, h, Run.fetch, bind_assoc, pure_bind, held]

/-- The text of a key is the same in both readings if the value is. -/
theorem spell_eq (key : Node) {computed : Bool} {value value' : Run σ Value}
    (h : computed = true → value = value') :
    key.spell computed value = key.spell computed value' := by
  cases computed with
  | false => rfl
  | true => rw [h rfl]

/-- A call is passed the same function, receiver and arguments in both readings, if the callee and
the arguments have the same values in both and the arguments do not assign. -/
theorem evaluate_callee {callee : Node} {arguments : List Node}
    (hcallee : callee.evaluate resolver host source = (do
      let location ← callee.resolve resolver host source
      return callee.held (← get) location))
    (harguments : evaluateAll resolver host source arguments =
      runAll resolver host source arguments)
    (hsteady : ∀ part ∈ allParts arguments, ¬part.Assigns)
    (next : Value → Value → List Value → Run σ β) :
    (do
      let callee ← callee.evaluate resolver host source
      let values ← evaluateAll resolver host source arguments
      next callee.value callee.holder values) =
    (do
      let location ← callee.resolve resolver host source
      let function := (← get).read location
      let values ← runAll resolver host source arguments
      next function (callee.held (← get) location).holder values) := by
  have hkeeps : (runAll resolver host source arguments).Keeps := runAll_keeps arguments hsteady
  simp only [hcallee, harguments, bind_assoc, pure_bind]
  refine bind_congr fun location => ?_
  have hbefore := hkeeps.held_bind callee location fun held values =>
    next held.value held.holder values
  have hafter := hkeeps.held_bind callee location fun held values => do
    next held.value (callee.held (← get) location).holder values
  exact hbefore.trans hafter.symm

mutual

/-- Read step by step, a steady tree gives what is at the location that it denotes. -/
theorem evaluate_eq (node : Node) (h : ∀ part ∈ node.parts, part.Steady) :
    node.evaluate resolver host source = (do
      let location ← node.resolve resolver host source
      return node.held (← get) location) := by
  cases node with
  | program body =>
    simp only [parts, List.forall_mem_cons] at h
    simp only [evaluate, resolve, evaluateLast_eq .undefined body h.2, bind_assoc, pure_bind]
    rfl
  | statement expression =>
    simp only [parts, List.forall_mem_cons] at h
    have hvalue := value_of_evaluate (evaluate_eq expression h.2)
    simp only [evaluate, resolve, hvalue, bind_assoc, pure_bind]
    rfl
  | literal value | this | locals => rfl
  | identifier name =>
    simp only [evaluate, resolve, bind_assoc, pure_bind]
    rfl
  | member holder property computed =>
    simp only [parts, List.forall_mem_cons, List.forall_mem_append] at h
    obtain ⟨hsteady, hholder, hproperty⟩ := h
    have hspell : property.spell computed (Run.value (property.evaluate resolver host source)) =
        property.spell computed (Run.fetch (property.resolve resolver host source)) := by
      refine spell_eq property ?_
      rintro rfl
      exact value_of_evaluate (evaluate_eq property hproperty)
    have hkey : (do
        let key ← property.spell computed (Run.fetch (property.resolve resolver host source))
        Run.allowed source key).Keeps := by
      refine Run.Keeps.bind (spell_keeps property ?_) fun key => Run.keeps_allowed source key
      rintro rfl
      exact run_keeps property hsteady
    simp only [evaluate, resolve, evaluate_eq holder hholder, hspell, bind_assoc, pure_bind]
    refine bind_congr fun location => ?_
    have hread := hkey.held_bind holder location fun held key =>
      (pure ⟨held.value, held.value.get key, held.location.push key⟩ : Run σ Held)
    simp only [bind_assoc] at hread
    rw [hread]
    simp only [held, isAssignable, if_true, Environment.receiver_push, Environment.read_push]
  | call callee arguments =>
    simp only [parts, List.forall_mem_cons, List.forall_mem_append] at h
    obtain ⟨hsteady, hcallee, harguments⟩ := h
    have hcall := evaluate_callee (evaluate_eq callee hcallee) (evaluateAll_eq arguments harguments)
      hsteady fun function holder values =>
        (do return .alone (← Run.ofOutcome (host.call source function holder values)) : Run σ Held)
    simp only [evaluate, resolve, hcall, bind_assoc, pure_bind]
    rfl
  | filter name arguments =>
    simp only [parts, List.forall_mem_cons] at h
    cases hfound : resolver name.filterName with
    | none =>
      simp only [evaluate, resolve, hfound]
      rfl
    | some found =>
      simp only [evaluate, resolve, hfound, evaluateAll_eq arguments h.2, bind_assoc, pure_bind]
      rfl
  | assignment target value =>
    simp only [parts, List.forall_mem_cons, List.forall_mem_append] at h
    obtain ⟨-, htarget, hvalue⟩ := h
    cases hassignable : target.isAssignable with
    | false =>
      simp only [evaluate, resolve, hassignable]
      rfl
    | true =>
      have hvalue := value_of_evaluate (evaluate_eq value hvalue)
      simp only [evaluate, resolve, hassignable, if_true, evaluate_eq target htarget, hvalue,
        bind_assoc, pure_bind]
      rfl
  | conditional test alternate consequent =>
    simp only [parts, List.forall_mem_cons, List.forall_mem_append] at h
    obtain ⟨-, ⟨htest, halternate⟩, hconsequent⟩ := h
    have htest := value_of_evaluate (evaluate_eq test htest)
    have halternate := value_of_evaluate (evaluate_eq alternate halternate)
    have hconsequent := value_of_evaluate (evaluate_eq consequent hconsequent)
    simp only [evaluate, resolve, htest, halternate, hconsequent, bind_assoc, pure_bind]
    rfl
  | logical operator left right =>
    simp only [parts, List.forall_mem_cons, List.forall_mem_append] at h
    have hleft := value_of_evaluate (evaluate_eq left h.2.1)
    have hright := value_of_evaluate (evaluate_eq right h.2.2)
    simp only [evaluate, resolve, hleft, hright, bind_assoc, pure_bind]
    rfl
  | binary operator left right =>
    simp only [parts, List.forall_mem_cons, List.forall_mem_append] at h
    have hleft := value_of_evaluate (evaluate_eq left h.2.1)
    have hright := value_of_evaluate (evaluate_eq right h.2.2)
    simp only [evaluate, resolve, hleft, hright, bind_assoc, pure_bind]
    rfl
  | unary operator leading argument =>
    simp only [parts, List.forall_mem_cons] at h
    have hvalue := value_of_evaluate (evaluate_eq argument h.2)
    simp only [evaluate, resolve, hvalue, bind_assoc, pure_bind]
    rfl
  | array elements =>
    simp only [parts, List.forall_mem_cons] at h
    simp only [evaluate, resolve, evaluateAll_eq elements h.2, bind_assoc, pure_bind]
    rfl
  | object properties =>
    simp only [parts, List.forall_mem_cons] at h
    simp only [evaluate, resolve, evaluateProperties_eq [] properties h.2, bind_assoc, pure_bind]
    rfl

/-- Read step by step, steady trees give their values. -/
theorem evaluateAll_eq (nodes : List Node) (h : ∀ part ∈ allParts nodes, part.Steady) :
    evaluateAll resolver host source nodes = runAll resolver host source nodes := by
  cases nodes with
  | nil => rfl
  | cons node rest =>
    simp only [allParts, List.forall_mem_append] at h
    simp only [evaluateAll, runAll, value_of_evaluate (evaluate_eq node h.1),
      evaluateAll_eq rest h.2]

/-- Read step by step, the last of several steady trees gives its value. -/
theorem evaluateLast_eq (last : Value) (nodes : List Node)
    (h : ∀ part ∈ allParts nodes, part.Steady) :
    evaluateLast resolver host source last nodes = runLast resolver host source last nodes := by
  cases nodes with
  | nil => rfl
  | cons node rest =>
    simp only [allParts, List.forall_mem_append] at h
    have hrest (value : Value) := evaluateLast_eq value rest h.2
    simp only [evaluateLast, runLast, value_of_evaluate (evaluate_eq node h.1), hrest]

/-- Read step by step, steady entries give their fields. -/
theorem evaluateProperties_eq (fields : List (String × Value)) (properties : List Property)
    (h : ∀ part ∈ propertyParts properties, part.Steady) :
    evaluateProperties resolver host source fields properties =
      runProperties resolver host source fields properties := by
  cases properties with
  | nil => rfl
  | cons property rest =>
    obtain ⟨key, value, computed⟩ := property
    simp only [propertyParts, List.forall_mem_append] at h
    obtain ⟨⟨hkey, hvalue⟩, hrest⟩ := h
    have hspell : key.spell computed (Run.value (key.evaluate resolver host source)) =
        key.spell computed (Run.fetch (key.resolve resolver host source)) := by
      refine spell_eq key ?_
      rintro rfl
      exact value_of_evaluate (evaluate_eq key hkey)
    have hvalue := value_of_evaluate (evaluate_eq value hvalue)
    have hrest (fields : List (String × Value)) := evaluateProperties_eq fields rest hrest
    simp only [evaluateProperties, runProperties, hspell, hvalue, hrest]

end

end Node

namespace Evaluator

/-- Compiled code does what the tree says when it is read step by step. Where no assignment stands
in the computed key of a member access or among the arguments of a call, a program has the same
outcome and leaves the same scope, locals and memory behind in both readings, and each call of what
is at the end of a chain is passed the same function, receiver and arguments. -/
theorem evaluate_eq_evaluateLast {resolver : Resolver σ} {source : String} {tree : Node}
    {evaluator : Evaluator σ} (h : ofNode resolver source tree = .ok evaluator)
    (hparts : ∀ part ∈ tree.parts, part.Steady) (host : Host) :
    evaluator.evaluate host =
      Node.evaluateLast resolver host source .undefined tree.statements ∧
    ∀ callee arguments path codes, .call callee arguments ∈ tree.parts →
      Node.compile resolver source (.call callee arguments) = .ok (.invoke path codes) →
      (do
        let location ← path.resolve host source
        let function := (← get).read location
        let values ← Code.runAll host source codes
        return (function, (← get).receiver location, values)) =
      (do
        let callee ← callee.evaluate resolver host source
        let values ← Node.evaluateAll resolver host source arguments
        return (callee.value, callee.holder, values)) := by
  constructor
  · rw [evaluate_eq_runLast h]
    refine (Node.evaluateLast_eq .undefined tree.statements fun part hpart => ?_).symm
    exact hparts part (Node.mem_parts_of_mem_statements hpart)
  · intro callee arguments path codes hcall hcode
    obtain ⟨codes', hcodes, code, hcallee, hinvoke⟩ := Node.compile_call_eq_ok.mp hcode
    cases hassignable : callee.isAssignable with
    | false => simp [hassignable] at hinvoke
    | true =>
      simp only [hassignable, if_true, Code.invoke.injEq] at hinvoke
      obtain ⟨rfl, rfl⟩ := hinvoke
      have hsteady : ∀ part ∈ (Node.call callee arguments).parts, part.Steady :=
        fun part hpart => hparts part (Node.mem_parts_trans tree hcall hpart)
      simp only [Node.parts, List.forall_mem_cons, List.forall_mem_append] at hsteady
      rw [Node.resolve_of_compile callee hcallee, Node.runAll_of_compile arguments hcodes]
      refine Eq.trans ?_ (Node.evaluate_callee (Node.evaluate_eq callee hsteady.2.1)
        (Node.evaluateAll_eq arguments hsteady.2.2) hsteady.1
        fun function holder values => (pure (function, holder, values) : Run σ _)).symm
      simp only [Node.held, hassignable, if_true]

/-- The call `a.list[n].f(n)` finds `f` in the element of the list, and passes it this element. -/
theorem evaluate_method_of_element :
    let element : Value := .object [("f", .function "f")]
    let env : Environment Unit := ⟨.object [("a", .object [("list", .array [.null, element])])],
      some (.object [("n", .integer 1)]), ()⟩
    let host : Host := fun _ receiver _ => .ok receiver
    let callee : Node := .member (.member (.member (.identifier "a") (.identifier "list") false)
      (.identifier "n") true) (.identifier "f") false
    let call : Node := .call callee [.identifier "n"]
    ∃ evaluator : Evaluator Unit,
      ofNode (fun _ => none) "a.list[n].f(n)" (.program [.statement call]) = .ok evaluator ∧
      (∀ part ∈ (Node.program [.statement call]).parts, part.Steady) ∧
      evaluator.evaluate host env = (.ok element, env) ∧
      ∃ path codes, call.compile (fun _ => none) "a.list[n].f(n)" =
          .ok (.invoke path codes : Code Unit) ∧
        (do
          let location ← path.resolve host "a.list[n].f(n)"
          let function := (← get).read location
          let values ← Code.runAll host "a.list[n].f(n)" codes
          return (function, (← get).receiver location, values)) env =
        (.ok (.function "f", element, [.integer 1]), env) := by
  intro element env host callee call
  obtain ⟨evaluator, hevaluator⟩ : ∃ evaluator : Evaluator Unit,
      ofNode (fun _ => none) "a.list[n].f(n)" (.program [.statement call]) = .ok evaluator :=
    ⟨_, rfl⟩
  have hparts : ∀ part ∈ (Node.program [.statement call]).parts, part.Steady := by
    simp [call, callee, Node.parts, Node.allParts, Node.Steady, Node.Assigns]
  obtain ⟨hevaluate, hcalls⟩ := evaluate_eq_evaluateLast hevaluator hparts host
  refine ⟨evaluator, hevaluator, hparts, ?_, _, _, rfl, ?_⟩
  · rw [hevaluate]
    simp only [call, callee, env, host, element]
    rfl
  · rw [hcalls callee [.identifier "n"] _ _ (by simp [call, Node.parts, Node.allParts]) rfl]
    simp only [callee, env, host, element]
    rfl

end Evaluator

end TemplateExpr
