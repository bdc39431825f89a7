import TemplateExpr.Proofs.Evaluation.Constancy

/-!
# What trees denote

A tree denotes a location: a name and a member access where they are stored, any other expression a
place of its own that holds its value. Compiled code does what this reading of the tree says, so
what programs do can be told from their trees alone.
-/

namespace TemplateExpr

variable {σ : Type}

namespace Location

/-- The location of a value that the environment does not hold. -/
def ofValue (value : Value) : Location := ⟨.temporary value, []⟩

/-- The location one key further. -/
def push (location : Location) (key : String) : Location :=
  ⟨location.place, location.keys ++ [key]⟩

end Location

/-- Read what is at the location that a computation gives. -/
def Run.fetch (run : Run σ Location) : Run σ Value := do
  let location ← run
  return (← get).read location

namespace Node

/-- The text of a key: what its value is displayed as if it is computed, else what it spells out. -/
def spell (key : Node) (computed : Bool) (value : Run σ Value) : Run σ String :=
  if computed then do return (← value).display else pure key.fixedKey

mutual

/-- The location that a tree denotes. -/
def resolve (resolver : Resolver σ) (host : Host) (source : String) : Node → Run σ Location
  | .program body => do return .ofValue (← runLast resolver host source .undefined body)
  | .statement expression => do
    return .ofValue (← Run.fetch (expression.resolve resolver host source))
  | .literal value => return .ofValue value.toValue
  | .identifier name => do
    let name ← Run.allowed source name
    return ⟨.holder name, [name]⟩
  | .this => return ⟨.scope, []⟩
  | .locals => return ⟨.locals, []⟩
  | .member holder property computed => do
    let location ← holder.resolve resolver host source
    let key ← property.spell computed (Run.fetch (property.resolve resolver host source))
    let key ← Run.allowed source key
    return location.push key
  | .call callee arguments => do
    let location ← callee.resolve resolver host source
    let function := (← get).read location
    let arguments ← runAll resolver host source arguments
    -- Only what is read at the end of a chain has a receiver.
    let env ← get
    let receiver := if callee.isAssignable then env.receiver location else .undefined
    return .ofValue (← Run.ofOutcome (host.call source function receiver arguments))
  | .filter name arguments =>
    match resolver name.filterName with
    | none => throw (.unknownFilter name.filterName source)
    | some found => do
      let arguments ← runAll resolver host source arguments
      return .ofValue (← Run.filter found arguments)
  | .assignment target value =>
    if target.isAssignable then do
      let location ← target.resolve resolver host source
      let value ← Run.fetch (value.resolve resolver host source)
      return .ofValue (← Run.write source location value)
    else throw (.notAssignable source)
  | .conditional test alternate consequent => do
    let test ← Run.fetch (test.resolve resolver host source)
    let value ← (if test.isTruthy then Run.fetch (alternate.resolve resolver host source)
      else Run.fetch (consequent.resolve resolver host source))
    return .ofValue value
  | .logical operator left right => do
    let value ← Run.fetch (left.resolve resolver host source)
    let value ← (if value.isTruthy == (operator == .or) then pure value
      else Run.fetch (right.resolve resolver host source))
    return .ofValue value
  | .binary operator left right => do
    let left ← Run.fetch (left.resolve resolver host source)
    let right ← Run.fetch (right.resolve resolver host source)
    return .ofValue (operator.apply left right)
  | .unary operator _ argument => do
    return .ofValue (operator.apply (← Run.fetch (argument.resolve resolver host source)))
  | .array elements => do return .ofValue (.array (← runAll resolver host source elements))
  | .object properties => do
    return .ofValue (.object (← runProperties resolver host source [] properties))

/-- The values of trees that are run in order. -/
def runAll (resolver : Resolver σ) (host : Host) (source : String) : List Node → Run σ (List Value)
  | [] => pure []
  | node :: rest => do
    let value ← Run.fetch (node.resolve resolver host source)
    let values ← runAll resolver host source rest
    return value :: values

/-- The value of the last of several trees, or `last` if there is none. -/
def runLast (resolver : Resolver σ) (host : Host) (source : String) (last : Value) :
    List Node → Run σ Value
  | [] => pure last
  | node :: rest => do
    let value ← Run.fetch (node.resolve resolver host source)
    runLast resolver host source value rest

/-- The fields with those of an object literal added in order, each key before its value. -/
def runProperties (resolver : Resolver σ) (host : Host) (source : String)
    (fields : List (String × Value)) : List Property → Run σ (List (String × Value))
  | [] => pure fields
  | .entry key value computed :: rest => do
    let name ← key.spell computed (Run.fetch (key.resolve resolver host source))
    let value ← Run.fetch (value.resolve resolver host source)
    runProperties resolver host source (Fields.insert name value fields) rest

end

/-- The value of a tree: what is at the location that it denotes. -/
def run (resolver : Resolver σ) (host : Host) (source : String) (node : Node) : Run σ Value :=
  Run.fetch (node.resolve resolver host source)

end Node

section Paths

variable {host : Host} {source : String}

/-- An environment that is not looked at need not be asked for. -/
theorem Run.get_bind {α : Type} (run : Run σ α) :
    ((get : Run σ (Environment σ)) >>= fun _ => run) = run := rfl

/-- What the environment does not hold is read without it. -/
theorem Environment.read_ofValue (env : Environment σ) (value : Value) :
    env.read (.ofValue value) = value := rfl

/-- What holds a location one key further is what is read at the location. -/
theorem Environment.receiver_push (env : Environment σ) (location : Location) (key : String) :
    env.receiver (location.push key) = env.read location := by
  simp only [receiver, read, Location.push, List.dropLast_concat]

/-- What the environment does not hold is read without it. -/
theorem Run.fetch_ofValue (run : Run σ Value) :
    Run.fetch (do return .ofValue (← run)) = run := by
  simp only [fetch, bind_assoc, pure_bind, Environment.read_ofValue, get_bind, bind_pure]

/-- A path that only has a value to begin at denotes this value. -/
theorem Path.resolve_temporary (code : Code σ) :
    (Path.from (.temporary code) []).resolve host source =
      do return .ofValue (← code.run host source) := by
  simp [Path.resolve, Key.resolveAll, Location.ofValue]

/-- Code gives what is at the end of the path that it is used as. -/
theorem Code.run_eq_fetch (code : Code σ) :
    code.run host source = Run.fetch (code.toPath.resolve host source) := by
  cases code with
  | read path => rfl
  | scope | locals => rfl
  | _ =>
    rw [toPath, Path.resolve_temporary, Run.fetch_ofValue]
    all_goals simp

/-- One more key is resolved after the others. -/
theorem Key.resolveAll_append (keys : List (Key σ)) (key : Key σ) :
    Key.resolveAll host source (keys ++ [key]) = do
      let names ← Key.resolveAll host source keys
      let name ← Run.allowed source (← key.run host source)
      return names ++ [name] := by
  induction keys with
  | nil => simp [resolveAll]
  | cons first rest ih => simp [resolveAll, ih]

/-- A path with one more key denotes the location one key further. -/
theorem Path.resolve_push (path : Path σ) (key : Key σ) :
    (path.push key).resolve host source = do
      let location ← path.resolve host source
      let name ← Run.allowed source (← key.run host source)
      return location.push name := by
  obtain ⟨root, keys⟩ := path
  cases root <;> simp [push, resolve, Key.resolveAll_append, Location.push]

end Paths

namespace Node

variable {resolver : Resolver σ} {host : Host} {source : String}

/-- Names and member accesses, and nothing else, are compiled to the reading of a path. -/
theorem isAssignable_iff_of_compile {node : Node} {code : Code σ}
    (hcode : node.compile resolver source = .ok code) :
    node.isAssignable = true ↔ ∃ path, code = .read path := by
  cases node with
  | literal | identifier | this | locals =>
    cases hcode
    simp [isAssignable]
  | member holder property computed =>
    obtain ⟨key, -, path, -, rfl⟩ := compile_member_eq_ok.mp hcode
    simp [isAssignable]
  | call callee arguments =>
    simp only [compile, bind_eq_ok] at hcode
    obtain ⟨codes, -, calleeCode, -, hcode⟩ := hcode
    cases calleeCode <;> cases hcode <;> simp [isAssignable]
  | filter name arguments =>
    obtain ⟨found, -, codes, -, rfl⟩ := compile_filter_eq_ok.mp hcode
    simp [isAssignable]
  | assignment target value =>
    simp only [compile] at hcode
    split at hcode
    case isTrue =>
      simp only [bind_eq_ok, pure_eq_ok] at hcode
      obtain ⟨path, -, valueCode, -, rfl⟩ := hcode
      simp [isAssignable]
    case isFalse => contradiction
  | conditional test alternate consequent =>
    simp only [compile, bind_eq_ok, pure_eq_ok] at hcode
    obtain ⟨testCode, -, alternateCode, -, consequentCode, -, rfl⟩ := hcode
    simp [isAssignable]
  | logical operator left right | binary operator left right =>
    simp only [compile, bind_eq_ok, pure_eq_ok] at hcode
    obtain ⟨leftCode, -, rightCode, -, rfl⟩ := hcode
    simp [isAssignable]
  | program | statement | unary | array | object =>
    simp only [compile, bind_eq_ok, pure_eq_ok] at hcode
    obtain ⟨inner, -, rfl⟩ := hcode
    simp [isAssignable]

/-- A call is that of what is at the end of a path, or of any other value. -/
theorem compile_call_eq_ok {callee : Node} {arguments : List Node} {code : Code σ} :
    compile resolver source (.call callee arguments) = .ok code ↔
      ∃ codes, compileAll resolver source arguments = .ok codes ∧
        ∃ calleeCode, callee.compile resolver source = .ok calleeCode ∧
          (if callee.isAssignable then .invoke calleeCode.toPath codes
            else .call calleeCode codes) = code := by
  simp only [compile, bind_eq_ok]
  refine exists_congr fun codes => and_congr_right fun _ => exists_congr fun calleeCode =>
    and_congr_right fun hcallee => ?_
  have hread := isAssignable_iff_of_compile hcallee
  cases calleeCode <;> simp_all [Code.toPath, pure, Except.pure]

/-- Code that denotes what a tree denotes gives the value of the tree. -/
theorem run_of_resolve {node : Node} {code : Code σ}
    (h : code.toPath.resolve host source = node.resolve resolver host source) :
    code.run host source = node.run resolver host source := by
  rw [Code.run_eq_fetch, h, run]

/-- A compiled key gives the text of the key if its code gives the value of the key. -/
theorem run_of_compileKey {property : Node} {computed : Bool} {key : Key σ} {value : Run σ Value}
    (hkey : compileKey resolver source property computed = .ok key)
    (hvalue : ∀ code, property.compile resolver source = .ok code → code.run host source = value) :
    key.run host source = property.spell computed value := by
  rcases compileKey_eq_ok.mp hkey with ⟨rfl, code, hcode, rfl⟩ | ⟨rfl, rfl⟩
  · rw [Key.run, hvalue code hcode]
    rfl
  · rfl

mutual

/-- The path that compiled code is used as denotes what the tree denotes. -/
theorem resolve_of_compile (node : Node) {code : Code σ}
    (hcode : node.compile resolver source = .ok code) :
    code.toPath.resolve host source = node.resolve resolver host source := by
  cases node with
  | program body =>
    simp only [compile, bind_eq_ok, pure_eq_ok] at hcode
    obtain ⟨codes, hcodes, rfl⟩ := hcode
    have hbody := runLast_of_compile .undefined body hcodes
    simp only [Code.toPath, Path.resolve_temporary, Code.run, resolve, hbody]
  | statement expression =>
    simp only [compile, bind_eq_ok, pure_eq_ok] at hcode
    obtain ⟨code, hcode, rfl⟩ := hcode
    have hvalue := run_of_resolve (resolve_of_compile expression hcode)
    simp only [Code.toPath, Path.resolve_temporary, Code.run, Code.runLast, resolve, hvalue, run,
      bind_pure]
  | literal value =>
    cases hcode
    simp only [Code.toPath, Path.resolve_temporary, Code.run, resolve, pure_bind]
  | identifier name =>
    cases hcode
    simp only [Code.toPath, Path.resolve, Key.resolveAll, resolve, pure_bind]
  | this | locals =>
    cases hcode
    simp only [Code.toPath, Path.resolve, Key.resolveAll, resolve, pure_bind]
  | member holder property computed =>
    simp only [compile_member_eq_ok] at hcode
    obtain ⟨key, hkey, path, hpath, rfl⟩ := hcode
    have hname := run_of_compileKey hkey fun code hcode =>
      run_of_resolve (resolve_of_compile property hcode)
    rw [Code.toPath, Path.resolve_push, resolve_of_compile holder hpath, hname, resolve, run]
  | call callee arguments =>
    obtain ⟨codes, hcodes, calleeCode, hcallee, rfl⟩ := compile_call_eq_ok.mp hcode
    have hlocation := resolve_of_compile callee hcallee
    have hfunction := run_of_resolve hlocation
    have harguments := runAll_of_compile arguments hcodes
    cases hassignable : callee.isAssignable with
    | true =>
      change Path.resolve host source (.from (.temporary (.invoke calleeCode.toPath codes)) []) = _
      rw [Path.resolve_temporary, Code.run, hlocation, harguments]
      simp only [resolve, hassignable, if_true, bind_assoc]
    | false =>
      change Path.resolve host source (.from (.temporary (.call calleeCode codes)) []) = _
      rw [Path.resolve_temporary, Code.run, hfunction, harguments]
      simp only [resolve, hassignable, run, Run.fetch, bind_assoc, pure_bind, Bool.false_eq_true,
        if_false, Run.get_bind]
  | filter name arguments =>
    obtain ⟨found, hfound, codes, hcodes, rfl⟩ := compile_filter_eq_ok.mp hcode
    have harguments := runAll_of_compile arguments hcodes
    simp only [Code.toPath, Path.resolve_temporary, Code.run, resolve, hfound, harguments,
      bind_assoc]
  | assignment target value =>
    simp only [compile] at hcode
    split at hcode
    case isTrue hassignable =>
      simp only [bind_eq_ok, pure_eq_ok] at hcode
      obtain ⟨targetCode, htarget, valueCode, hvalue, rfl⟩ := hcode
      have hlocation := resolve_of_compile target htarget
      have hrun := run_of_resolve (resolve_of_compile value hvalue)
      change Path.resolve host source
        (.from (.temporary (.assign targetCode.toPath valueCode)) []) = _
      rw [Path.resolve_temporary, Code.run, hlocation, hrun, resolve, if_pos hassignable]
      simp only [run, bind_assoc]
    case isFalse => contradiction
  | conditional test alternate consequent =>
    simp only [compile, bind_eq_ok, pure_eq_ok] at hcode
    obtain ⟨testCode, htest, alternateCode, halternate, consequentCode, hconsequent, rfl⟩ := hcode
    have htest := run_of_resolve (resolve_of_compile test htest)
    have halternate := run_of_resolve (resolve_of_compile alternate halternate)
    have hconsequent := run_of_resolve (resolve_of_compile consequent hconsequent)
    simp only [Code.toPath, Path.resolve_temporary, Code.run, resolve, htest, halternate,
      hconsequent, run, bind_assoc]
  | logical operator left right =>
    simp only [compile, bind_eq_ok, pure_eq_ok] at hcode
    obtain ⟨leftCode, hleft, rightCode, hright, rfl⟩ := hcode
    have hleft := run_of_resolve (resolve_of_compile left hleft)
    have hright := run_of_resolve (resolve_of_compile right hright)
    simp only [Code.toPath, Path.resolve_temporary, Code.run, resolve, hleft, hright, run,
      bind_assoc]
  | binary operator left right =>
    simp only [compile, bind_eq_ok, pure_eq_ok] at hcode
    obtain ⟨leftCode, hleft, rightCode, hright, rfl⟩ := hcode
    have hleft := run_of_resolve (resolve_of_compile left hleft)
    have hright := run_of_resolve (resolve_of_compile right hright)
    simp only [Code.toPath, Path.resolve_temporary, Code.run, resolve, hleft, hright, run,
      bind_assoc, pure_bind]
  | unary operator leading argument =>
    simp only [compile, bind_eq_ok, pure_eq_ok] at hcode
    obtain ⟨argumentCode, hargument, rfl⟩ := hcode
    have hvalue := run_of_resolve (resolve_of_compile argument hargument)
    simp only [Code.toPath, Path.resolve_temporary, Code.run, resolve, hvalue, run, bind_assoc,
      pure_bind]
  | array elements =>
    simp only [compile, bind_eq_ok, pure_eq_ok] at hcode
    obtain ⟨codes, hcodes, rfl⟩ := hcode
    have hvalues := runAll_of_compile elements hcodes
    simp only [Code.toPath, Path.resolve_temporary, Code.run, resolve, hvalues, bind_assoc,
      pure_bind]
  | object properties =>
    simp only [compile, bind_eq_ok, pure_eq_ok] at hcode
    obtain ⟨entries, hentries, rfl⟩ := hcode
    have hfields := runProperties_of_compile [] properties hentries
    simp only [Code.toPath, Path.resolve_temporary, Code.run, resolve, hfields, bind_assoc,
      pure_bind]

/-- Compiled codes give the values of the trees. -/
theorem runAll_of_compile (nodes : List Node) {codes : List (Code σ)}
    (hcodes : compileAll resolver source nodes = .ok codes) :
    Code.runAll host source codes = runAll resolver host source nodes := by
  cases nodes with
  | nil => cases hcodes; rfl
  | cons node rest =>
    simp only [compileAll, bind_eq_ok, pure_eq_ok] at hcodes
    obtain ⟨code, hcode, codes, hcodes, rfl⟩ := hcodes
    have hvalue := run_of_resolve (resolve_of_compile node hcode)
    simp only [Code.runAll, runAll, hvalue, runAll_of_compile rest hcodes, run]

/-- The last of the compiled codes gives the value of the last tree. -/
theorem runLast_of_compile (last : Value) (nodes : List Node) {codes : List (Code σ)}
    (hcodes : compileAll resolver source nodes = .ok codes) :
    Code.runLast host source last codes = runLast resolver host source last nodes := by
  cases nodes with
  | nil => cases hcodes; rfl
  | cons node rest =>
    simp only [compileAll, bind_eq_ok, pure_eq_ok] at hcodes
    obtain ⟨code, hcode, codes, hcodes, rfl⟩ := hcodes
    have hvalue := run_of_resolve (resolve_of_compile node hcode)
    have hrest (value : Value) := runLast_of_compile value rest hcodes
    simp only [Code.runLast, runLast, hvalue, hrest, run]

/-- Compiled entries give the fields of the object literal. -/
theorem runProperties_of_compile (fields : List (String × Value)) (properties : List Property)
    {entries : List (Entry σ)}
    (hentries : compileProperties resolver source properties = .ok entries) :
    Entry.runAll host source fields entries =
      runProperties resolver host source fields properties := by
  cases properties with
  | nil => cases hentries; rfl
  | cons property rest =>
    obtain ⟨key, value, computed⟩ := property
    obtain ⟨keyCode, hkey, valueCode, hvalue, more, hmore, rfl⟩ :=
      compileProperties_cons_eq_ok.mp hentries
    have hname := run_of_compileKey hkey fun code hcode =>
      run_of_resolve (resolve_of_compile key hcode)
    have hvalue := run_of_resolve (resolve_of_compile value hvalue)
    have hrest (fields : List (String × Value)) :=
      runProperties_of_compile fields rest hmore
    simp only [Entry.runAll, runProperties, hname, hvalue, hrest, run]

end

/-- Compiled code gives the value of the tree. -/
theorem run_of_compile {node : Node} {code : Code σ}
    (hcode : node.compile resolver source = .ok code) :
    code.run host source = node.run resolver host source :=
  run_of_resolve (resolve_of_compile node hcode)

/-- A filter gives what it makes of its arguments. -/
theorem run_filter {name : Node} {arguments : List Node} {found : Filter σ}
    (hfound : resolver name.filterName = some found) :
    (filter name arguments).run resolver host source = (do
      let values ← runAll resolver host source arguments
      Run.filter found values) := by
  rw [run, resolve, hfound]
  simp only [← bind_assoc, Run.fetch_ofValue]

/-- An assignment gives the value that it has written. -/
theorem run_assignment {target : Node} (value : Node) (hassignable : target.isAssignable = true) :
    (assignment target value).run resolver host source = (do
      let location ← target.resolve resolver host source
      let value ← value.run resolver host source
      Run.write source location value) := by
  rw [run, resolve, if_pos hassignable]
  simp only [run, ← bind_assoc, Run.fetch_ofValue]

/-- Nothing else can be assigned to. -/
theorem run_assignment_of_not_isAssignable {target : Node} (value : Node)
    (hassignable : target.isAssignable = false) :
    (assignment target value).run resolver host source = throw (.notAssignable source) := by
  rw [run, resolve, hassignable]
  rfl

end Node

namespace Evaluator

variable {resolver : Resolver σ} {source : String} {tree : Node} {evaluator : Evaluator σ}

/-- A program gives the value of its last statement. -/
theorem evaluate_eq_runLast (h : ofNode resolver source tree = .ok evaluator) (host : Host) :
    evaluator.evaluate host = Node.runLast resolver host source .undefined tree.statements := by
  simp only [ofNode, bind_eq_ok, pure_eq_ok] at h
  obtain ⟨statements, hstatements, rfl⟩ := h
  exact Node.runLast_of_compile .undefined tree.statements hstatements

/-- A program of one statement gives the value of this statement. -/
theorem evaluate_eq_run {node : Node} (h : ofNode resolver source tree = .ok evaluator)
    (hsingle : tree.statements = [node]) (host : Host) :
    evaluator.evaluate host = node.run resolver host source := by
  simp only [evaluate_eq_runLast h, hsingle, Node.runLast, Node.run, bind_pure]

/-- A program of one statement is assigned to by the path that its code reads, if it reads one. -/
theorem target_of_single {node : Node} (h : ofNode resolver source tree = .ok evaluator)
    (hsingle : tree.statements = [node]) :
    ∃ code, node.compile resolver source = .ok code ∧
      ∀ path, evaluator.target = some path ↔ code = .read path := by
  simp only [ofNode, hsingle, Node.compileAll, bind_eq_ok, pure_eq_ok] at h
  obtain ⟨statements, ⟨code, hcode, rest, hrest, rfl⟩, rfl⟩ := h
  cases hrest
  refine ⟨code, hcode, fun path => ?_⟩
  cases code <;> simp

/-- A program of one name or member access can be assigned to, at the location that it denotes. -/
theorem target_of_isAssignable {node : Node} (h : ofNode resolver source tree = .ok evaluator)
    (hsingle : tree.statements = [node]) (hassignable : node.isAssignable = true) :
    ∃ path, evaluator.target = some path ∧
      ∀ host, path.resolve host source = node.resolve resolver host source := by
  obtain ⟨code, hcode, htarget⟩ := target_of_single h hsingle
  obtain ⟨path, rfl⟩ := (Node.isAssignable_iff_of_compile hcode).mp hassignable
  exact ⟨path, (htarget path).mpr rfl, fun host => Node.resolve_of_compile node hcode⟩

/-- A program of one name or member access is assigned to where it denotes something. -/
theorem assign_eq {node : Node} (h : ofNode resolver source tree = .ok evaluator)
    (hsingle : tree.statements = [node]) (hassignable : node.isAssignable = true) (host : Host)
    (value : Value) :
    evaluator.assign host value = (do
      let location ← node.resolve resolver host source
      Run.write source location value) := by
  obtain ⟨path, htarget, hlocation⟩ := target_of_isAssignable h hsingle hassignable
  obtain ⟨-, hsource, -⟩ := ofNode_eq_ok h
  simp only [assign, htarget, hsource, hlocation]

/-- A program of one statement that is neither a name nor a member access cannot be assigned to. -/
theorem target_of_not_isAssignable {node : Node} (h : ofNode resolver source tree = .ok evaluator)
    (hsingle : tree.statements = [node]) (hassignable : node.isAssignable = false) :
    evaluator.target = none := by
  obtain ⟨code, hcode, htarget⟩ := target_of_single h hsingle
  refine Option.eq_none_iff_forall_ne_some.mpr fun path hpath => ?_
  have hread := (Node.isAssignable_iff_of_compile hcode).mpr ⟨path, (htarget path).mp hpath⟩
  rw [hread] at hassignable
  cases hassignable

/-- A program of one statement that is neither a name nor a member access is assigned to in vain. -/
theorem assign_of_not_isAssignable {node : Node} (h : ofNode resolver source tree = .ok evaluator)
    (hsingle : tree.statements = [node]) (hassignable : node.isAssignable = false) (host : Host)
    (value : Value) : evaluator.assign host value = throw (.notAssignable source) := by
  obtain ⟨-, hsource, -⟩ := ofNode_eq_ok h
  simp only [assign, target_of_not_isAssignable h hsingle hassignable, hsource]

end Evaluator

end TemplateExpr
