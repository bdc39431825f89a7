import TemplateExpr.Proofs.Evaluation.Likeness
import TemplateExpr.Proofs.Writing.Location

/-!
# A write changes what it addresses

A chain of keys from a name, from the scope or from the locals whose computed keys are constant
denotes one location, wherever it is resolved. A setter of such a chain that succeeds obeys the laws
of a write at this location: what was written is read back, what lies off the way there is left
alone, and of two writes the second one wins.
-/

namespace TemplateExpr

variable {σ : Type}

/-- The comparison of runs that change neither of two environments. -/
def Comparison.across (source : String) (host host' : Host) (env env' : Environment σ) :
    Comparison σ where
  host := host
  host' := host'
  source := source
  source' := source
  related := fun before before' => before = env ∧ before' = env'

namespace Node

/-- What a chain of member accesses begins at. -/
def root : Node → Node
  | .member holder _ _ => holder.root
  | other => other

/-- Whether a tree is a chain from a place of the environment, with constant computed keys. -/
def IsFixedChain (resolver : Resolver σ) : Node → Bool
  | .identifier _ | .this | .locals => true
  | .member holder property computed =>
    IsFixedChain resolver holder && (!computed || property.isConstant resolver)
  | _ => false

variable {resolver : Resolver σ} {source : String}

/-- A constant tree has one value in any two environments. -/
theorem run_agrees_of_isConstant {node : Node} {code : Code σ}
    (hcode : node.compile resolver source = .ok code) (h : node.isConstant resolver = true)
    (host host' : Host) (env env' : Environment σ) :
    (Comparison.across source host host' env env').Agrees (node.run resolver host source)
      (node.run resolver host' source) := by
  rw [← run_of_compile hcode, ← run_of_compile hcode]
  have hrespects : (Comparison.across source host host' env env').Respects code.effects := by
    rw [effects_of_isConstant node hcode h]
    exact Comparison.respects_nil
  exact code.run_agrees hrespects

/-- A fixed chain denotes one location in any two environments. -/
theorem resolve_agrees_of_isFixedChain (node : Node) {code : Code σ}
    (hcode : node.compile resolver source = .ok code) (h : node.IsFixedChain resolver = true)
    (host host' : Host) (env env' : Environment σ) :
    (Comparison.across source host host' env env').Agrees (node.resolve resolver host source)
      (node.resolve resolver host' source) := by
  cases node with
  | identifier name => exact .allowed name (.pure _)
  | this | locals => exact .pure _
  | member holder property computed =>
    obtain ⟨key, hkey, path, hpath, -⟩ := compile_member_eq_ok.mp hcode
    simp only [IsFixedChain, Bool.and_eq_true, Bool.or_eq_true, Bool.not_eq_true'] at h
    apply (resolve_agrees_of_isFixedChain holder hpath h.1 host host' env env').bind
    intro location
    refine Comparison.Agrees.bind (spell_agrees property ?_) fun key => .allowed key (.pure _)
    rintro rfl
    rcases compileKey_eq_ok.mp hkey with ⟨-, code, hcode, -⟩ | ⟨h, -⟩
    · exact run_agrees_of_isConstant hcode (by simpa using h.2) host host' env env'
    · cases h
  | _ => cases h

/-- What a fixed chain is resolved to in one environment it is resolved to in each, and changes
none. -/
theorem resolve_of_isFixedChain {node : Node} {code : Code σ}
    (hcode : node.compile resolver source = .ok code) (h : node.IsFixedChain resolver = true)
    {host : Host} {env after : Environment σ} {location : Location}
    (hlocation : node.resolve resolver host source env = (.ok location, after)) (host' : Host)
    (env' : Environment σ) :
    node.resolve resolver host' source env' = (.ok location, env') := by
  obtain ⟨hsame, -, hafter⟩ :=
    resolve_agrees_of_isFixedChain node hcode h host host' env env' env env' ⟨rfl, rfl⟩
  have houtcome := hsame.eq rfl
  rw [hlocation] at houtcome
  exact Prod.ext houtcome.symm hafter

/-- The location of a fixed chain is in the environment, if it does not begin at locals that are not
there. -/
theorem isStored_of_denotes (node : Node) (h : node.IsFixedChain resolver = true)
    {env : Environment σ} (hlocals : node.root = .locals → env.locals.isSome = true)
    {location : Location} (hlocation : node.Denotes location) : location.IsStored env := by
  cases node with
  | identifier name =>
    cases hlocation
    rfl
  | this =>
    cases hlocation
    trivial
  | locals =>
    cases hlocation
    exact hlocals rfl
  | member holder property computed =>
    obtain ⟨⟨place, keys⟩, key, hinner, rfl⟩ := hlocation
    simp only [IsFixedChain, Bool.and_eq_true] at h
    have hholder := isStored_of_denotes holder h.1 hlocals hinner
    cases place with
    | holder name =>
      obtain ⟨rest, rfl⟩ := List.head?_eq_some_iff.mp hholder
      rfl
    | scope => trivial
    | locals => exact hholder
    | temporary => exact hholder
  | _ => cases h

end Node

namespace Evaluator

/-- A setter that succeeds changes what its chain addresses, and that alone.

The chain denotes one location. What was written is read back; another chain of keys from the same
root that turns off from it reads as before, but for the length of an array that was made longer;
the other one of scope and locals and the memory of the filters stay as they are; and after it
another write has the outcome that it would have had without it. -/
theorem assign_changes_location {resolver : Resolver σ} {source : String} {tree chain : Node}
    {evaluator : Evaluator σ} (h : ofNode resolver source tree = .ok evaluator)
    (hsingle : tree.statements = [chain]) (hchain : chain.IsFixedChain resolver = true)
    {env after : Environment σ} (hlocals : chain.root = .locals → env.locals.isSome = true)
    {host : Host} {value result : Value}
    (hassign : evaluator.assign host value env = (.ok result, after)) :
    ∃ path location, evaluator.target = some path ∧
      (∀ host' other, path.resolve host' source other = (.ok location, other)) ∧
      result = value ∧
      (∀ host', evaluator.evaluate host' after = (.ok value, after)) ∧
      (∀ shared key rest other more, location.keys = shared ++ key :: rest → other ≠ key →
        after.read (location.along (shared ++ other :: more)) =
            env.read (location.along (shared ++ other :: more)) ∨
          (other = "length" ∧ more = []) ∧
            (env.read (location.along shared)).GrewTo (after.read (location.along shared))) ∧
      (if env.isInLocals location.place then after.scope = env.scope
        else after.locals = env.locals) ∧
      after.memory = env.memory ∧
      ∀ host' new, evaluator.assign host' new after = evaluator.assign host' new env := by
  cases hassignable : chain.isAssignable with
  | false =>
    rw [assign_of_not_isAssignable h hsingle hassignable] at hassign
    cases hassign
  | true =>
    obtain ⟨path, htarget, hpath⟩ := target_of_isAssignable h hsingle hassignable
    have hsetter (host : Host) := assign_eq h hsingle hassignable host
    rw [hsetter, Run.bind_eq_ok] at hassign
    obtain ⟨location, between, hlocation, hwrite⟩ := hassign
    obtain ⟨code, hcode, -⟩ := target_of_single h hsingle
    have hfixed := Node.resolve_of_isFixedChain hcode hchain hlocation
    obtain rfl : env = between := congrArg Prod.snd ((hfixed host env).symm.trans hlocation)
    have hstored := Node.isStored_of_denotes chain hchain hlocals
      (Node.denotes_of_resolve chain hlocation)
    obtain ⟨hkeys, rfl, hput⟩ := Run.write_eq_ok.mp hwrite
    obtain ⟨written, hwritten, hafter⟩ := Environment.put_eq_ok.mp hput
    obtain ⟨hother, hmemory⟩ := env.setBase_other location.place written
    rw [hafter] at hother hmemory
    refine ⟨path, location, htarget, ?_, rfl, ?_, ?_, hother, hmemory, ?_⟩
    · intro host' other
      rw [hpath, hfixed]
    · intro host'
      have hread := Environment.read_of_put hstored hput
      rw [evaluate_eq_run h hsingle, Node.run, Run.fetch, Run.bind_apply, hfixed]
      simp only [Run.bind_apply, Run.get_apply, Run.pure_apply, hread]
    · intro shared key rest other more hkeys hne
      exact Environment.read_of_put_of_ne hstored hput hkeys hne
    · intro host' new
      obtain ⟨last, hlast⟩ := Environment.exists_put new hput
      have hagain := (Environment.put_put new hstored hput).trans hlast
      simp only [hsetter, Run.bind_apply, hfixed, Run.write_apply, if_neg hkeys, hlast, hagain]

/-- In the locals, which have a `list` of one element, a setter of `list[1 + 1].name` makes the list
longer and the object that holds the name, and leaves the first element alone. -/
theorem assign_beyond_list_end :
    let host : Host := fun _ _ _ => .ok .undefined
    let chain : Node := .member (.member (.identifier "list")
      (.binary .add (.literal (.integer 1)) (.literal (.integer 1))) true)
      (.identifier "name") false
    let env : Environment Unit :=
      ⟨.object [("list", .null)], some (.object [("list", .array [.boolean true])]), ()⟩
    ∃ evaluator, ofNode (fun _ => none) "list[1 + 1].name" (.program [.statement chain]) =
        .ok evaluator ∧
      chain.IsFixedChain (fun _ => none : Resolver Unit) = true ∧
      (chain.root = .locals → env.locals.isSome = true) ∧
      ∃ after, evaluator.assign host (.integer 7) env = (.ok (.integer 7), after) ∧
        evaluator.evaluate host after = (.ok (.integer 7), after) ∧
        after.read ⟨.holder "list", ["list", "0"]⟩ = .boolean true ∧ after.scope = env.scope ∧
        ∀ new, evaluator.assign host new after = evaluator.assign host new env := by
  intro host chain env
  obtain ⟨evaluator, hevaluator, path, htarget, hresolve, after, hassign⟩ : ∃ evaluator,
      ofNode (fun _ => none) "list[1 + 1].name" (.program [.statement chain]) = .ok evaluator ∧
        ∃ path, evaluator.target = some path ∧
          path.resolve host "list[1 + 1].name" env =
            (.ok ⟨.holder "list", ["list", "2", "name"]⟩, env) ∧
          ∃ after, evaluator.assign host (.integer 7) env = (.ok (.integer 7), after) :=
    ⟨_, rfl, _, rfl, rfl, _, rfl⟩
  have hchain : chain.IsFixedChain (fun _ => none : Resolver Unit) = true := rfl
  have hlocals : chain.root = .locals → env.locals.isSome = true := fun _ => rfl
  obtain ⟨path', location, htarget', hlocation, -, hevaluate, hframe, hscope, -, hagain⟩ :=
    assign_changes_location hevaluator rfl hchain hlocals hassign
  obtain rfl : path = path' := Option.some.inj (htarget.symm.trans htarget')
  obtain rfl : location = ⟨.holder "list", ["list", "2", "name"]⟩ :=
    Except.ok.inj (congrArg Prod.fst ((hlocation host env).symm.trans hresolve))
  refine ⟨evaluator, hevaluator, hchain, hlocals, after, hassign, hevaluate host, ?_, hscope,
    hagain host⟩
  rcases hframe ["list"] "2" ["name"] "0" [] rfl (by decide) with hread | ⟨⟨hlength, -⟩, -⟩
  · exact hread
  · exact absurd hlength (by decide)

end Evaluator

end TemplateExpr
