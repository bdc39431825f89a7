import TemplateExpr.Evaluator
import TemplateExpr.Proofs.Evaluation.Compilation

/-!
# Constant programs

A tree that is judged constant compiles to code without effects: its paths begin at values of
their own, and its filters have no memory. Such code gives one outcome in all environments and
leaves each as it was.
-/

namespace TemplateExpr

variable {σ : Type} {resolver : Resolver σ} {source : String}

/-- A filter that is found and has no state has no effects. -/
theorem Resolver.effects_of_isPure {name : String} {filter : Filter σ}
    (hfilter : resolver name = some filter) (h : resolver.isPure name = true) :
    filter.effects = [] := by
  cases filter with
  | pure apply => rfl
  | stateful apply => simp [isPure, hfilter, Filter.isStateful] at h

namespace Node

mutual

/-- What a constant tree compiles to has no effects. -/
theorem effects_of_isConstant (node : Node) {code : Code σ}
    (hcode : node.compile resolver source = .ok code) (h : node.isConstant resolver = true) :
    code.effects = [] := by
  cases node with
  | program body =>
    simp only [compile, bind_eq_ok, pure_eq_ok] at hcode
    obtain ⟨codes, hcodes, rfl⟩ := hcode
    exact allEffects_of_allConstant body hcodes h
  | statement expression =>
    simp only [compile, bind_eq_ok, pure_eq_ok] at hcode
    obtain ⟨code, hcode, rfl⟩ := hcode
    have heffects := effects_of_isConstant expression hcode h
    simp [Code.effects, Code.allEffects, heffects]
  | literal value =>
    cases hcode
    rfl
  | identifier | this | locals | call | assignment => simp [isConstant] at h
  | member holder property computed =>
    simp only [compile_member_eq_ok, compileKey_eq_ok] at hcode
    obtain ⟨key, hkey, path, hpath, rfl⟩ := hcode
    simp only [isConstant, Bool.and_eq_true, Bool.or_eq_true, Bool.not_eq_true'] at h
    have hholder := effects_of_isConstant holder hpath h.1
    have hproperty : key.effects = [] := by
      rcases hkey with ⟨rfl, code, hcode, rfl⟩ | ⟨rfl, rfl⟩
      · exact effects_of_isConstant property hcode (by simpa using h.2)
      · rfl
    simp [Code.effects, Path.effects_push, Code.effects_toPath, hholder, hproperty]
  | filter name arguments =>
    simp only [isConstant, Bool.and_eq_true] at h
    obtain ⟨hpure, harguments⟩ := h
    cases name with
    | identifier name =>
      obtain ⟨found, hfound, codes, hcodes, rfl⟩ := compile_filter_eq_ok.mp hcode
      have heffects := allEffects_of_allConstant arguments hcodes harguments
      simp [Code.effects, heffects, Resolver.effects_of_isPure hfound hpure]
    | _ => simp [isPureFilter] at hpure
  | conditional test alternate consequent =>
    simp only [compile, bind_eq_ok, pure_eq_ok] at hcode
    obtain ⟨testCode, htest, alternateCode, halternate, consequentCode, hconsequent, rfl⟩ := hcode
    simp only [isConstant, Bool.and_eq_true] at h
    simp [Code.effects, effects_of_isConstant test htest h.1.1,
      effects_of_isConstant alternate halternate h.1.2,
      effects_of_isConstant consequent hconsequent h.2]
  | logical operator left right | binary operator left right =>
    simp only [compile, bind_eq_ok, pure_eq_ok] at hcode
    obtain ⟨leftCode, hleft, rightCode, hright, rfl⟩ := hcode
    simp only [isConstant, Bool.and_eq_true] at h
    simp [Code.effects, effects_of_isConstant left hleft h.1,
      effects_of_isConstant right hright h.2]
  | unary operator leading argument =>
    simp only [compile, bind_eq_ok, pure_eq_ok] at hcode
    obtain ⟨argumentCode, hargument, rfl⟩ := hcode
    simp only [Code.effects]
    exact effects_of_isConstant argument hargument h
  | array elements =>
    simp only [compile, bind_eq_ok, pure_eq_ok] at hcode
    obtain ⟨codes, hcodes, rfl⟩ := hcode
    exact allEffects_of_allConstant elements hcodes h
  | object properties =>
    simp only [compile, bind_eq_ok, pure_eq_ok] at hcode
    obtain ⟨entries, hentries, rfl⟩ := hcode
    exact allEffects_of_allPropertiesConstant properties hentries h

/-- What constant trees compile to has no effects. -/
theorem allEffects_of_allConstant (nodes : List Node) {codes : List (Code σ)}
    (hcodes : compileAll resolver source nodes = .ok codes) (h : allConstant resolver nodes = true) :
    Code.allEffects codes = [] := by
  cases nodes with
  | nil =>
    cases hcodes
    rfl
  | cons node rest =>
    simp only [compileAll, bind_eq_ok, pure_eq_ok] at hcodes
    obtain ⟨code, hcode, codes, hcodes, rfl⟩ := hcodes
    simp only [allConstant, Bool.and_eq_true] at h
    simp [Code.allEffects, effects_of_isConstant node hcode h.1,
      allEffects_of_allConstant rest hcodes h.2]

/-- What constant properties compile to has no effects. -/
theorem allEffects_of_allPropertiesConstant (properties : List Property)
    {entries : List (Entry σ)} (hentries : compileProperties resolver source properties = .ok entries)
    (h : allPropertiesConstant resolver properties = true) : Entry.allEffects entries = [] := by
  cases properties with
  | nil =>
    cases hentries
    rfl
  | cons property rest =>
    obtain ⟨key, value, computed⟩ := property
    simp only [compileProperties_cons_eq_ok, compileKey_eq_ok] at hentries
    obtain ⟨keyCode, hkey, valueCode, hvalue, more, hmore, rfl⟩ := hentries
    simp only [allPropertiesConstant, Bool.and_eq_true, Bool.or_eq_true, Bool.not_eq_true'] at h
    have hkeys : keyCode.effects = [] := by
      rcases hkey with ⟨rfl, code, hcode, rfl⟩ | ⟨rfl, rfl⟩
      · exact effects_of_isConstant key hcode (by simpa using h.1.2)
      · rfl
    simp [Entry.allEffects, hkeys, effects_of_isConstant value hvalue h.1.1,
      allEffects_of_allPropertiesConstant rest hmore h.2]

end

/-- A tree is constant exactly when all its statements are. -/
theorem allConstant_statements (node : Node) :
    allConstant resolver node.statements = node.isConstant resolver := by
  cases node with
  | program body =>
    simp only [statements, isConstant]
    induction body with
    | nil => rfl
    | cons node rest ih =>
      simp only [List.map_cons, allConstant, ih]
      cases node <;> rfl
  | _ => simp [statements, allConstant, isConstant]

end Node

namespace Evaluator

/-- An evaluator keeps the code of the statements and what was found out about the tree. -/
theorem ofNode_eq_ok {tree : Node} {evaluator : Evaluator σ}
    (h : ofNode resolver source tree = .ok evaluator) :
    Node.compileAll resolver source tree.statements = .ok evaluator.statements ∧
      evaluator.source = source ∧ evaluator.tree = tree ∧
      evaluator.isConstant = tree.isConstant resolver ∧
      evaluator.inputs = if tree.isConstant resolver then [] else tree.watchInputs resolver := by
  simp only [ofNode, bind_eq_ok, pure_eq_ok] at h
  obtain ⟨statements, hstatements, rfl⟩ := h
  exact ⟨hstatements, rfl, rfl, rfl, rfl⟩

/-- A program that is judged constant has one outcome and changes nothing, whatever the host,
the scope, the locals and the memory of the filters are. -/
theorem evaluate_of_isConstant {tree : Node} {evaluator : Evaluator σ}
    (h : ofNode resolver source tree = .ok evaluator) (hconstant : evaluator.isConstant = true)
    (host host' : Host) (env env' : Environment σ) :
    ∃ outcome, evaluator.evaluate host env = (outcome, env) ∧
      evaluator.evaluate host' env' = (outcome, env') := by
  obtain ⟨hstatements, -, -, hjudged, -⟩ := ofNode_eq_ok h
  have hall : Node.allConstant resolver tree.statements = true := by
    rw [Node.allConstant_statements, ← hjudged, hconstant]
  have heffects := Node.allEffects_of_allConstant _ hstatements hall
  let comparison : Comparison σ := {
    host, host'
    source := evaluator.source
    source' := evaluator.source
    related := fun before before' => before = env ∧ before' = env' }
  have hagrees : comparison.Agrees (evaluator.evaluate host) (evaluator.evaluate host') := by
    refine Code.runLast_agrees .undefined evaluator.statements ?_
    rw [heffects]
    exact Comparison.respects_nil
  obtain ⟨hsame, hafter, hafter'⟩ := hagrees env env' ⟨rfl, rfl⟩
  have houtcome := hsame.eq rfl
  exact ⟨(evaluator.evaluate host env).1, Prod.ext rfl hafter, Prod.ext houtcome.symm hafter'⟩

/-- The element `(1 | paired:2)[0 + 1]` of what a filter without state makes of two literals is
constant, also where other filters have a memory. -/
theorem evaluate_paired_element :
    ∃ evaluator : Evaluator Nat,
      ofNode
        (fun name => if name = "paired" then some (.pure fun arguments => .ok (.array arguments))
          else some (.stateful fun _ memory => (.ok .undefined, memory + 1)))
        "(1 | paired:2)[0 + 1]"
        (.program [.statement (.member
          (.filter (.identifier "paired") [.literal (.integer 1), .literal (.integer 2)])
          (.binary .add (.literal (.integer 0)) (.literal (.integer 1))) true)]) = .ok evaluator ∧
      evaluator.isConstant = true ∧
      ∀ host host' env env', ∃ outcome, evaluator.evaluate host env = (outcome, env) ∧
        evaluator.evaluate host' env' = (outcome, env') := by
  refine Exists.imp (fun evaluator (h : _ ∧ _) => ⟨h.1, h.2, evaluate_of_isConstant h.1 h.2⟩) ?_
  exact ⟨_, rfl, rfl⟩

end Evaluator

end TemplateExpr
