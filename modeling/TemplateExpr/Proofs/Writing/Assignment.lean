import TemplateExpr.Proofs.Evaluation.Joining
import TemplateExpr.Proofs.Evaluation.Likeness
import TemplateExpr.Proofs.Filters.Sorting

/-!
# Assignments

Only assignments write. A program without one leaves scope and locals as they are, whether it
succeeds or fails; the keys that a filter runs are run with copies of the items. And there is one
way to write: an assignment of a value to a chain does what the setter of the chain does with the
value, if what is assigned changes nothing by being computed.
-/

namespace TemplateExpr

variable {σ : Type}

namespace Node

variable {resolver : Resolver σ} {host : Host} {source : String} {node : Node} {code : Code σ}

/-- A tree that compiles denotes the same with every source. -/
theorem resolve_sameButQuote (hcode : node.compile resolver source = .ok code) (host : Host)
    (source' : String) : Run.SameButQuote source source' (node.resolve resolver host source)
      (node.resolve resolver host source') := by
  rw [← resolve_of_compile node hcode,
    ← resolve_of_compile node (compile_source node source' hcode)]
  exact Path.resolve_sameButQuote _

/-- A tree that changes nothing has one value wherever scope and locals are the same, whatever the
filters remember and whatever source its errors quote. -/
theorem run_of_not_changes (hcode : node.compile resolver source = .ok code)
    (hchanges : ∀ part ∈ node.parts, ¬part.Changes resolver) {env env' : Environment σ}
    {value : Value} (hvalue : (node.run resolver host source env).1 = .ok value) (source' : String)
    (hscope : env.scope = env'.scope) (hlocals : env.locals = env'.locals) :
    node.run resolver host source' env' = (.ok value, env') := by
  rw [← run_of_compile hcode] at hvalue
  rw [← run_of_compile (compile_source node source' hcode)]
  exact Code.run_of_still (isStill_of_parts node hcode hchanges) hvalue source' hscope hlocals

end Node

namespace Evaluator

variable {resolver : Resolver σ} {source : String} {tree : Node} {evaluator : Evaluator σ}

/-- A program without assignments leaves scope and locals as they are, whatever its outcome is.

Nor does `orderBy` change what it is given, even if its keys are programs with assignments: the
items that come out are those that went in, in some order. -/
theorem unchanged_of_not_assigns (h : ofNode resolver source tree = .ok evaluator)
    (hassigns : ∀ part ∈ tree.parts, ¬part.Assigns) (host : Host) (env : Environment σ) :
    (evaluator.evaluate host env).2.scope = env.scope ∧
      (evaluator.evaluate host env).2.locals = env.locals ∧
      ∀ keyResolver items arguments result,
        Sorting.apply host keyResolver (.array items :: arguments) = .ok result →
          ∃ moved, result = .array moved ∧ moved.Perm items := by
  have hkeeps : (evaluator.evaluate host).Keeps := by
    rw [evaluate_eq_runLast h]
    refine Run.keeps_of_agrees host source fun env => ?_
    refine Node.runLast_agrees .undefined tree.statements fun part hpart => ?_
    exact Node.alike_within (hassigns part (Node.mem_parts_of_mem_statements hpart)) env
  obtain ⟨hscope, hlocals⟩ := hkeeps env
  exact ⟨hscope, hlocals, fun _ _ _ _ => Sorting.exists_perm_of_apply⟩

/-- The key `k = j` writes to the item that it is run with, yet the program `items | orderBy:'k = j'`
gives the items as they were, and leaves them where they were. -/
theorem unchanged_by_assigning_key :
    let host : Host := fun _ _ _ => .ok .undefined
    let resolver : Resolver Unit := fun name =>
      if name = "orderBy" then some (.pure (Sorting.apply host fun _ => none)) else none
    let tree : Node := .program [.statement
      (.filter (.identifier "orderBy") [.identifier "items", .literal (.string "k = j")])]
    let items : List Value := [.object [("j", .integer 2)], .object [("j", .integer 1)]]
    let env : Environment Unit := ⟨.object [("items", .array items)], none, ()⟩
    (∀ part ∈ tree.parts, ¬part.Assigns) ∧
      (∃ key : Evaluator Unit, ofSource (fun _ => none) {} "k = j" false = .ok key ∧
        ∀ value, key.evaluate host ⟨.object [("j", value)], none, ()⟩ =
          (.ok value, ⟨.object [("j", value), ("k", value)], none, ()⟩)) ∧
      ∃ evaluator, ofNode resolver "items | orderBy:'k = j'" tree = .ok evaluator ∧
        ∃ moved, (evaluator.evaluate host env).1 = .ok (.array moved) ∧ moved.Perm items ∧
          (evaluator.evaluate host env).2.scope = env.scope ∧
          (evaluator.evaluate host env).2.locals = env.locals := by
  intro host resolver tree items env
  have hassigns : ∀ part ∈ tree.parts, ¬part.Assigns := by
    simp [tree, Node.parts, Node.allParts, Node.Assigns]
  have hkey : ∃ key : Evaluator Unit, ofSource (fun _ => none) {} "k = j" false = .ok key ∧
      ∀ value, key.evaluate host ⟨.object [("j", value)], none, ()⟩ =
        (.ok value, ⟨.object [("j", value), ("k", value)], none, ()⟩) := by
    have htree : Node.ofSource {} "k = j" =
        .ok (.program [.statement (.assignment (.identifier "k") (.identifier "j"))]) := rfl
    rw [ofSource_eq_ofNode htree]
    exact ⟨_, rfl, fun _ => rfl⟩
  refine ⟨hassigns, hkey, ?_⟩
  obtain ⟨key, hofSource, hevaluate⟩ := hkey
  have hsorted : Sorting.apply host (fun _ => none) [.array items, .string "k = j"] =
      .ok (.array items.reverse) := by
    have hkeys : Sorting.keysOf (fun _ => none) (.string "k = j") = .ok [⟨some key, false⟩] := by
      have hsplit : Sorting.splitDirection (.string "k = j") =
        (false, ['k', ' ', '=', ' ', 'j']) := rfl
      have htext : String.ofList ['k', ' ', '=', ' ', 'j'] = "k = j" := rfl
      simp only [Sorting.keysOf, Sorting.SortKey.ofValue, hsplit, htext, hofSource]
      rfl
    have hrows : Sorting.rows host [⟨some key, false⟩] items = .ok [([.integer 2],
        .object [("j", .integer 2)]), ([.integer 1], .object [("j", .integer 1)])] := by
      simp only [Sorting.rows, items, List.mapM_cons, List.mapM_nil, Sorting.SortKey.ofItem,
        hevaluate]
      rfl
    simp only [Sorting.apply, argument, List.getElem?_cons_zero, List.getElem?_cons_succ,
      Option.getD_some, hkeys, hrows, bind, Except.bind]
    rfl
  obtain ⟨evaluator, hevaluator⟩ : ∃ evaluator,
      ofNode resolver "items | orderBy:'k = j'" tree = .ok evaluator := ⟨_, rfl⟩
  obtain ⟨hscope, hlocals, hperm⟩ := unchanged_of_not_assigns hevaluator hassigns host env
  obtain ⟨moved, hmoved, hperm⟩ := hperm _ _ _ _ hsorted
  refine ⟨evaluator, hevaluator, moved, ?_, hperm, hscope, hlocals⟩
  have harguments : Node.runAll resolver host "items | orderBy:'k = j'"
      [.identifier "items", .literal (.string "k = j")] env =
        (.ok [.array items, .string "k = j"], env) := rfl
  have hsingle : tree.statements = [.filter (.identifier "orderBy")
      [.identifier "items", .literal (.string "k = j")]] := rfl
  have hfound : resolver (Node.identifier "orderBy").filterName =
      some (.pure (Sorting.apply host fun _ => none)) := rfl
  rw [evaluate_eq_run hevaluator hsingle, Node.run_filter hfound, Run.bind_apply, harguments]
  simp only [Run.filter, Filter.apply, hsorted, hmoved]
  rfl

section Setters

variable {source' source'' : String} {tree' tree'' target value : Node}
  {setter reader : Evaluator σ}

/-- An assignment compiles if its two sides do, the left one to something that can be assigned to. -/
theorem exists_ofNode_assignment (htree : tree.statements = [.assignment target value])
    {targetCode valueCode : Code σ} (htarget : target.compile resolver source = .ok targetCode)
    (hvalue : value.compile resolver source = .ok valueCode)
    (hassignable : target.isAssignable = true) :
    ∃ assignment, ofNode resolver source tree = .ok assignment := by
  have hcodes : Node.compileAll resolver source tree.statements =
      .ok [.assign targetCode.toPath valueCode] := by
    simp only [htree, Node.compileAll, Node.compile, hassignable, if_true, htarget, hvalue]
    rfl
  exact exists_ofNode hcodes

/-- Assigning the value of an expression to a chain is one thing, whether it is done by a program or
by the setter of the chain.

The expression changes nothing by being run, and no key of the chain assigns. Then, wherever the
expression has a value, both have the same outcome but for the source that an error quotes, and
leave the same scope, locals and memory of the filters behind. -/
theorem evaluate_assignment_eq_assign (hsetter : ofNode resolver source' tree' = .ok setter)
    (htarget : tree'.statements = [target]) (hassignable : target.isAssignable = true)
    (hassigns : ∀ part ∈ target.parts, ¬part.Assigns)
    (hreader : ofNode resolver source'' tree'' = .ok reader) (hvalue : tree''.statements = [value])
    (hchanges : ∀ part ∈ value.parts, ¬part.Changes resolver) (source : String)
    (htree : tree.statements = [.assignment target value]) :
    ∃ assignment, ofNode resolver source tree = .ok assignment ∧
      ∀ host env result, (reader.evaluate host env).1 = .ok result →
        SameButQuote source' source (setter.assign host result env).1
            (assignment.evaluate host env).1 ∧
          (assignment.evaluate host env).2 = (setter.assign host result env).2 := by
  obtain ⟨targetCode, htargetCode, -⟩ := target_of_single hsetter htarget
  obtain ⟨valueCode, hvalueCode, -⟩ := target_of_single hreader hvalue
  obtain ⟨assignment, hassignment⟩ :=
    exists_ofNode_assignment htree (Node.compile_source target source htargetCode)
      (Node.compile_source value source hvalueCode) hassignable
  refine ⟨assignment, hassignment, fun host env result hresult => ?_⟩
  have hlocation := Node.resolve_sameButQuote htargetCode host source
  rw [evaluate_eq_run hreader hvalue] at hresult
  rw [evaluate_eq_run hassignment htree, Node.run_assignment value hassignable,
    assign_eq hsetter htarget hassignable, Run.bind_apply, Run.bind_apply]
  rcases hresolve : target.resolve resolver host source' env with ⟨error | location, between⟩
  · obtain ⟨error', hfails, herror⟩ := hlocation.exists_of_error hresolve
    rw [hfails]
    exact ⟨herror, rfl⟩
  · -- The chain is resolved before the value is computed, and changes nothing that decides it.
    obtain ⟨hscope, hlocals⟩ := Node.resolve_keeps target hassigns env
    rw [hresolve] at hscope hlocals
    have hrun := Node.run_of_not_changes hvalueCode hchanges hresult source hscope.symm hlocals.symm
    rw [hlocation.eq_of_ok hresolve]
    simp only [Run.bind_apply, hrun]
    exact Run.SameButQuote.write source' source location result between

end Setters

/-- `p[0 | count].k = q` and the setter of `p[0 | count].k` count once each, and write `q` to the
same place. -/
theorem evaluate_assignment_at_counted_key :
    let host : Host := fun _ _ _ => .ok .undefined
    let resolver : Resolver Nat := fun name =>
      if name = "count" then some (.stateful fun _ count => (.ok (.boolean (count == 0)), count + 1))
      else none
    let target : Node := .member (.member (.identifier "p")
      (.filter (.identifier "count") [.literal (.integer 0)]) true) (.identifier "k") false
    let tree : Node := .program [.statement (.assignment target (.identifier "q"))]
    let env : Environment Nat := ⟨.object [("q", .boolean false)], none, 0⟩
    let after : Environment Nat :=
      ⟨.object [("p", .object [("true", .object [("k", .boolean false)])]), ("q", .boolean false)],
        none, 1⟩
    ∃ setter reader, ofNode resolver "p[0 | count].k" (.program [.statement target]) = .ok setter ∧
      ofNode resolver "q" (.program [.statement (.identifier "q")]) = .ok reader ∧
      (reader.evaluate host env).1 = .ok (.boolean false) ∧
      setter.assign host (.boolean false) env = (.ok (.boolean false), after) ∧
      ∃ assignment, ofNode resolver "p[0 | count].k = q" tree = .ok assignment ∧
        assignment.evaluate host env = (.ok (.boolean false), after) := by
  intro host resolver target tree env after
  obtain ⟨setter, hsetter, hassign⟩ : ∃ setter,
      ofNode resolver "p[0 | count].k" (.program [.statement target]) = .ok setter ∧
        setter.assign host (.boolean false) env = (.ok (.boolean false), after) := ⟨_, rfl, rfl⟩
  obtain ⟨reader, hreader, hresult⟩ : ∃ reader,
      ofNode resolver "q" (.program [.statement (.identifier "q")]) = .ok reader ∧
        (reader.evaluate host env).1 = .ok (.boolean false) := ⟨_, rfl, rfl⟩
  refine ⟨setter, reader, hsetter, hreader, hresult, hassign, ?_⟩
  have hassigns : ∀ part ∈ target.parts, ¬part.Assigns := by
    simp [target, Node.parts, Node.allParts, Node.Assigns]
  have hchanges : ∀ part ∈ (Node.identifier "q").parts, ¬part.Changes resolver := by
    simp [Node.parts, Node.Changes]
  have htree : tree.statements = [.assignment target (.identifier "q")] := rfl
  obtain ⟨assignment, hassignment, hsame⟩ := evaluate_assignment_eq_assign hsetter rfl rfl hassigns
    hreader rfl hchanges "p[0 | count].k = q" htree
  obtain ⟨houtcome, hafter⟩ := hsame host env (.boolean false) hresult
  refine ⟨assignment, hassignment, ?_⟩
  rw [hassign] at houtcome hafter
  exact Prod.ext houtcome.eq_ok hafter

end Evaluator

end TemplateExpr
