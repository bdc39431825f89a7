import TemplateExpr.Proofs.Evaluation.Errors

/-!
# What a function is called on

A call of what stands at the end of a chain reads the function first, then runs the arguments, and
then walks along the chain once more for the value that is to hold the function. Between the two
walks an argument may write. So the receiver has the function under the last key of the chain only
if the arguments leave it there, as they do if none of them assigns; else it is whatever stands
there by then, with the function or without.
-/

namespace TemplateExpr

variable {σ : Type}

/-- A property that reads as a function is there. -/
theorem Value.get_eq_function_iff {value : Value} {key name : String} :
    value.get key = .function name ↔ value.property? key = some (.function name) := by
  rw [get]
  cases value.property? key <;> simp

/-- What is read at a location is read under the last key in what holds the location. -/
theorem Environment.read_eq_get_receiver (env : Environment σ) {location : Location} {key : String}
    (h : location.keys.getLast? = some key) :
    env.read location = (env.receiver location).get key := by
  obtain ⟨holders, hkeys⟩ := List.getLast?_eq_some_iff.mp h
  simp only [read, receiver, hkeys, List.dropLast_concat, Value.follow, List.foldl_append,
    List.foldl_cons, List.foldl_nil]

/-- A function at the end of a chain is called on what holds the end of the chain when the arguments
have been run. -/
theorem Code.run_invoke {path : Path σ} {codes : List (Code σ)} {host : Host} {source : String}
    {env found after : Environment σ} {location : Location} {name : String} {values : List Value}
    (hlocation : path.resolve host source env = (.ok location, found))
    (hfunction : found.read location = .function name)
    (hvalues : Code.runAll host source codes found = (.ok values, after)) :
    (Code.invoke path codes).run host source env =
      (host name (after.receiver location) values, after) := by
  rw [Code.run, Run.bind_apply, hlocation]
  simp only [Run.bind_apply, Run.get_apply, hvalues, hfunction, Host.call]
  cases host name (after.receiver location) values <;> rfl

namespace Node

variable {resolver : Resolver σ} {source : String} {callee : Node} {arguments : List Node}
  {code : Code σ}

/-- A call of a name or a member access calls the function that is found there on what holds the end
of its chain when the arguments have been run.

The chain and the function in it are found before that. So the receiver has the function under the
last key exactly if this is still where it was found; and if no argument assigns, the receiver is
what the function was found in. -/
theorem run_call_receiver (hcode : compile resolver source (.call callee arguments) = .ok code)
    (hassignable : callee.isAssignable = true) :
    ∃ path codes, code = .invoke path codes ∧ callee.compile resolver source = .ok (.read path) ∧
      compileAll resolver source arguments = .ok codes ∧
      ∀ host env location found name values after,
        path.resolve host source env = (.ok location, found) →
        found.read location = .function name →
        Code.runAll host source codes found = (.ok values, after) →
          code.run host source env = (host name (after.receiver location) values, after) ∧
          (∃ key, location.keys.getLast? = some key ∧
            ((after.receiver location).property? key = some (.function name) ↔
              after.read location = .function name)) ∧
          ((∀ part ∈ allParts arguments, ¬part.Assigns) →
            after.receiver location = found.receiver location ∧
              after.read location = .function name) := by
  obtain ⟨codes, hcodes, calleeCode, hcallee, rfl⟩ := compile_call_eq_ok.mp hcode
  obtain ⟨path, rfl⟩ := (isAssignable_iff_of_compile hcallee).mp hassignable
  refine ⟨path, codes, if_pos hassignable, hcallee, hcodes, ?_⟩
  intro host env location found name values after hlocation hfunction hvalues
  refine ⟨?_, ?_, fun hassigns => ?_⟩
  · rw [if_pos hassignable]
    exact Code.run_invoke hlocation hfunction hvalues
  · have hdenotes : callee.Denotes location :=
      denotes_of_resolve callee ((resolve_of_compile callee hcallee).symm ▸ hlocation)
    have hkey := List.getLast?_eq_some_getLast (keys_ne_nil_of_denotes hassignable hdenotes)
    refine ⟨_, hkey, ?_⟩
    rw [after.read_eq_get_receiver hkey, Value.get_eq_function_iff]
  · have hkeeps : (Code.runAll host source codes).Keeps := by
      rw [runAll_of_compile arguments hcodes]
      exact runAll_keeps arguments hassigns
    obtain ⟨hscope, hlocals⟩ := hkeeps found
    rw [hvalues] at hscope hlocals
    have hbase := Environment.base_eq hscope hlocals location.place
    exact ⟨Environment.receiver_congr hbase, (Environment.read_congr hbase).trans hfunction⟩

/-- In `a.self(a.n = 2)` the argument writes beside the method, which is called on what it was found
in as the argument has left it. -/
theorem run_call_receiver_beside :
    let host : Host := fun _ receiver _ => .ok receiver
    let resolver : Resolver Unit := fun _ => none
    let callee : Node := .member (.identifier "a") (.identifier "self") false
    let argument : Node := .assignment (.member (.identifier "a") (.identifier "n") false)
      (.literal (.integer 2))
    let env : Environment Unit :=
      ⟨.object [("a", .object [("n", .integer 1), ("self", .function "self")])], none, ()⟩
    ∃ code, compile resolver "a.self(a.n = 2)" (.call callee [argument]) = .ok code ∧
      callee.isAssignable = true ∧
      ∃ receiver, (code.run host "a.self(a.n = 2)" env).1 = .ok receiver ∧
        receiver.property? "n" = some (.integer 2) ∧
        receiver.property? "self" = some (.function "self") := by
  intro host resolver callee argument env
  obtain ⟨code, hcode⟩ : ∃ code,
      compile resolver "a.self(a.n = 2)" (.call callee [argument]) = .ok code := ⟨_, rfl⟩
  obtain ⟨path, codes, -, hpath, hcodes, hcall⟩ := run_call_receiver hcode rfl
  cases hpath
  cases hcodes
  let after : Environment Unit :=
    ⟨.object [("a", .object [("n", .integer 2), ("self", .function "self")])], none, ()⟩
  obtain ⟨hrun, ⟨key, hkey, hholds⟩, -⟩ :=
    hcall host env ⟨.holder "a", ["a", "self"]⟩ env "self" [.integer 2] after rfl rfl rfl
  cases hkey
  exact ⟨code, hcode, rfl, _, congrArg Prod.fst hrun, rfl, hholds.mpr rfl⟩

/-- In `a.self(a = {n: 2})` the argument puts another object where the method was found, and the
method is called on the other object, which does not have it. -/
theorem run_call_replaced_receiver :
    let host : Host := fun _ receiver _ => .ok receiver
    let callee : Node := .member (.identifier "a") (.identifier "self") false
    let argument : Node := .assignment (.identifier "a")
      (.object [.entry (.identifier "n") (.literal (.integer 2)) false])
    let env : Environment Unit :=
      ⟨.object [("a", .object [("n", .integer 1), ("self", .function "self")])], none, ()⟩
    ∃ evaluator, Evaluator.ofNode (fun _ => none) "a.self(a = \x7bn: 2\x7d)"
        (.program [.statement (.call callee [argument])]) = .ok evaluator ∧
      env.read ⟨.holder "a", ["a", "self"]⟩ = .function "self" ∧
      ∃ receiver, (evaluator.evaluate host env).1 = .ok receiver ∧
        receiver.property? "self" = none :=
  ⟨_, rfl, rfl, _, rfl, rfl⟩

end Node

end TemplateExpr
