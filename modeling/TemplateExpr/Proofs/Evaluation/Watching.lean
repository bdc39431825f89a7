import TemplateExpr.Proofs.Evaluation.Constancy
import TemplateExpr.Proofs.Evaluation.Operands
import TemplateExpr.Proofs.Evaluation.Stillness
import TemplateExpr.Proofs.Printing.RoundTrip

/-!
# Watched inputs

The inputs of a program of one statement decide its value: they are programs of their own, and in
two environments that give each of them one value the program has one outcome. A tree agrees in a
comparison if its operands do, so that in the end it is enough that all inputs agree. A scope or
locals that are reached through operands alone would be missing among the inputs.
-/

namespace TemplateExpr

variable {σ : Type} {resolver : Resolver σ} {source : String} {comparison : Comparison σ}

namespace Node

/-- Whether what a tree compiles to agrees on both sides of a comparison. -/
def AgreesIn (comparison : Comparison σ) (resolver : Resolver σ) (source : String) (node : Node) :
    Prop :=
  ∀ code, node.compile resolver source = .ok code →
    comparison.Agrees (code.run comparison.host comparison.source)
      (code.run comparison.host' comparison.source')

/-- Whether the scope or the locals themselves are reached through operands alone. -/
def Exposes (resolver : Resolver σ) (node : Node) : Prop :=
  Reaches resolver node .this ∨ Reaches resolver node .locals

/-- What exposes an operand exposes the tree. -/
theorem Exposes.of_operand {node operand : Node} (hoperand : operand ∈ node.operands resolver)
    (h : operand.Exposes resolver) : node.Exposes resolver :=
  h.imp (.operand hoperand) (.operand hoperand)

mutual

/-- A tree agrees if its inputs do and it does not expose the environment. -/
theorem agreesIn_of_inputNodes (node : Node) (hexposes : ¬node.Exposes resolver)
    (hinputs : ∀ input ∈ node.inputNodes resolver, input.AgreesIn comparison resolver source) :
    node.AgreesIn comparison resolver source := by
  intro code hcode
  by_cases hconstant : node.isConstant resolver = true
  · have heffects := effects_of_isConstant node hcode hconstant
    refine code.run_agrees ?_
    rw [heffects]
    exact Comparison.respects_nil
  unfold inputNodes at hinputs
  rw [if_neg hconstant] at hinputs
  cases node with
  | unary operator leading argument =>
    have hargument : argument ∈ (unary operator leading argument).operands resolver :=
      List.mem_cons_self
    have hagrees := agreesIn_of_inputNodes argument (mt (.of_operand hargument) hexposes) hinputs
    simp only [compile, bind_eq_ok, pure_eq_ok] at hcode
    obtain ⟨argumentCode, hargumentCode, rfl⟩ := hcode
    exact (hagrees argumentCode hargumentCode).map operator.apply
  | binary operator left right =>
    simp only [List.forall_mem_append] at hinputs
    have hleft : left ∈ (binary operator left right).operands resolver := by simp [operands]
    have hright : right ∈ (binary operator left right).operands resolver := by simp [operands]
    have hagreesLeft :=
      agreesIn_of_inputNodes left (mt (.of_operand hleft) hexposes) hinputs.1
    have hagreesRight :=
      agreesIn_of_inputNodes right (mt (.of_operand hright) hexposes) hinputs.2
    simp only [compile, bind_eq_ok, pure_eq_ok] at hcode
    obtain ⟨leftCode, hleftCode, rightCode, hrightCode, rfl⟩ := hcode
    apply (hagreesLeft leftCode hleftCode).bind
    intro leftValue
    exact (hagreesRight rightCode hrightCode).map (operator.apply leftValue)
  | filter name arguments =>
    by_cases hpure : isPureFilter resolver name = true
    · simp only [hpure, if_true] at hinputs
      have harguments : ∀ argument ∈ arguments, ¬argument.Exposes resolver :=
        fun argument hargument => mt (.of_operand (by simpa [operands, hpure])) hexposes
      obtain ⟨found, hfound, codes, hcodes, rfl⟩ := compile_filter_eq_ok.mp hcode
      apply (runAll_agrees_of_inputNodes arguments harguments hinputs hcodes).bind
      intro values
      cases name with
      | identifier name =>
        have heffects := Resolver.effects_of_isPure hfound hpure
        exact Comparison.Respects.filter (by rw [heffects]; exact Comparison.respects_nil) values
      | _ => simp [isPureFilter] at hpure
    · simp only [hpure] at hinputs
      exact hinputs _ List.mem_cons_self code hcode
  | array elements =>
    have helements : ∀ element ∈ elements, ¬element.Exposes resolver :=
      fun element helement => mt (.of_operand helement) hexposes
    simp only [compile, bind_eq_ok, pure_eq_ok] at hcode
    obtain ⟨codes, hcodes, rfl⟩ := hcode
    exact (runAll_agrees_of_inputNodes elements helements hinputs hcodes).map Value.array
  | object properties =>
    have hproperties : ∀ operand ∈ properties.flatMap Property.operands,
        ¬operand.Exposes resolver :=
      fun operand hoperand => mt (.of_operand hoperand) hexposes
    simp only [compile, bind_eq_ok, pure_eq_ok] at hcode
    obtain ⟨entries, hentries, rfl⟩ := hcode
    exact (entries_agree_of_inputNodes properties [] hproperties hinputs hentries).map Value.object
  | this => exact absurd (.inl (.here _)) hexposes
  | locals => exact absurd (.inr (.here _)) hexposes
  | _ => exact hinputs _ List.mem_cons_self code hcode

/-- Trees that are run in order agree if their inputs do. -/
theorem runAll_agrees_of_inputNodes (nodes : List Node)
    (hexposes : ∀ node ∈ nodes, ¬node.Exposes resolver)
    (hinputs : ∀ input ∈ allInputNodes resolver nodes, input.AgreesIn comparison resolver source)
    {codes : List (Code σ)} (hcodes : compileAll resolver source nodes = .ok codes) :
    comparison.Agrees (Code.runAll comparison.host comparison.source codes)
      (Code.runAll comparison.host' comparison.source' codes) := by
  cases nodes with
  | nil =>
    cases hcodes
    exact .pure []
  | cons node rest =>
    simp only [List.forall_mem_cons] at hexposes
    simp only [allInputNodes, List.forall_mem_append] at hinputs
    simp only [compileAll, bind_eq_ok, pure_eq_ok] at hcodes
    obtain ⟨code, hcode, codes, hcodes, rfl⟩ := hcodes
    have hnode := agreesIn_of_inputNodes node hexposes.1 hinputs.1 code hcode
    have hrest := runAll_agrees_of_inputNodes rest hexposes.2 hinputs.2 hcodes
    exact hnode.bind fun value => hrest.map (value :: ·)

/-- The entries of an object agree if their inputs do. -/
theorem entries_agree_of_inputNodes (properties : List Property) (fields : List (String × Value))
    (hexposes : ∀ operand ∈ properties.flatMap Property.operands, ¬operand.Exposes resolver)
    (hinputs : ∀ input ∈ propertyInputNodes resolver properties,
      input.AgreesIn comparison resolver source)
    {entries : List (Entry σ)}
    (hentries : compileProperties resolver source properties = .ok entries) :
    comparison.Agrees (Entry.runAll comparison.host comparison.source fields entries)
      (Entry.runAll comparison.host' comparison.source' fields entries) := by
  cases properties with
  | nil =>
    cases hentries
    exact .pure fields
  | cons property rest =>
    obtain ⟨key, value, computed⟩ := property
    simp only [compileProperties_cons_eq_ok, compileKey_eq_ok] at hentries
    obtain ⟨keyCode, hkey, valueCode, hvalue, more, hmore, rfl⟩ := hentries
    simp only [propertyInputNodes, List.forall_mem_append] at hinputs
    simp only [List.flatMap_cons, List.forall_mem_append] at hexposes
    have hkeys : comparison.Agrees (keyCode.run comparison.host comparison.source)
        (keyCode.run comparison.host' comparison.source') := by
      rcases hkey with ⟨rfl, code, hcode, rfl⟩ | ⟨-, rfl⟩
      · have hexposesKey := hexposes.1 key (by simp [Property.operands])
        exact (agreesIn_of_inputNodes key hexposesKey hinputs.1.1 code hcode).map Value.display
      · exact .pure _
    have hexposesValue := hexposes.1 value (by cases computed <;> simp [Property.operands])
    have hvalues := agreesIn_of_inputNodes value hexposesValue hinputs.1.2 valueCode hvalue
    refine hkeys.bind fun name => hvalues.bind fun value => ?_
    exact entries_agree_of_inputNodes rest _ hexposes.2 hinputs.2 hmore

end

/-- A program of one statement has the text of its expression. -/
theorem text_program (node : Node) : text (.program [.statement node]) = node.text := by
  rfl

/-- A written tree is printed as a source of its own. -/
theorem ofSource_text_of_written {node : Node} (hwritten : node.Written)
    (hfaithful : node.Faithful) :
    ofSource {} node.text = .ok (.program [.statement node]) := by
  have hprogram : ProgramWritten (.program [.statement node]) :=
    ⟨_, rfl, [node], rfl, hwritten, trivial⟩
  have hparts : Faithful (.program [.statement node]) := by
    simpa [Faithful, parts, allParts, Misprinted, isMistaken] using hfaithful
  rw [← text_program]
  exact ofSource_text_of_faithful hprogram hparts

end Node

namespace Evaluator

/-- The text of a written tree has no mark of a one-time binding. -/
theorem splitOneTime_text {node : Node} (h : node.Written) :
    splitOneTime node.text = (node.text, false) := by
  obtain ⟨c, more, hchars, hspace, hsign⟩ := Node.opens_pieces node h
  have htrim : Text.trimStart node.text.toList = c :: more := by
    rw [Node.toList_text, hchars, Text.trimStart, List.dropWhile_cons_of_neg (by simp [hspace])]
  unfold splitOneTime
  rw [htrim]
  split
  case h_1 heq =>
    cases heq
    simp at hsign
  case h_2 => rfl

/-- A source compiles if its tree does, and if that is plain data in case it has to be. -/
theorem ofSource_eq_ok {options : Options} {isolated : Bool} {evaluator : Evaluator σ} :
    ofSource resolver options source isolated = .ok evaluator ↔
      ∃ tree, Node.ofSource options (splitOneTime source).1 = .ok tree ∧
        (isolated && !tree.isIsolatedLiteral) = false ∧
        ∃ base, ofNode resolver (splitOneTime source).1 tree = .ok base ∧
          { base with isOneTime := (splitOneTime source).2 } = evaluator := by
  simp only [ofSource, bind_eq_ok]
  refine exists_congr fun tree => and_congr_right fun _ => ?_
  cases hrefused : isolated && !tree.isIsolatedLiteral with
  | true => simp [throw, throwThe, MonadExceptOf.throw, bind_eq_ok]
  | false => simp only [Bool.false_eq_true, if_false, bind_eq_ok, pure_eq_ok, true_and]

/-- The inputs of an expression are the texts of its input nodes. -/
theorem mem_inputs {tree only : Node} {evaluator : Evaluator σ}
    (h : ofNode resolver source tree = .ok evaluator) (hsingle : tree = .program [.statement only])
    {input : String} :
    input ∈ evaluator.inputs ↔ ∃ node ∈ only.inputNodes resolver, node.text = input := by
  obtain ⟨-, -, -, -, hinputs⟩ := ofNode_eq_ok h
  subst hsingle
  have hconstant : Node.isConstant resolver (.program [.statement only]) =
      only.isConstant resolver := by
    simp [Node.isConstant, Node.allConstant]
  rw [hinputs, hconstant]
  split
  case isTrue hconstant =>
    have hnone : only.inputNodes resolver = [] := by
      unfold Node.inputNodes
      rw [if_pos hconstant]
    simp [hnone]
  case isFalse => simp [Node.watchInputs, Node.statements]

/-- The text of a written tree that compiles is a source that does, to the same code. -/
theorem exists_watcher {node : Node} (hwritten : node.Written) (hfaithful : node.Faithful)
    {code : Code σ} (hcode : node.compile resolver source = .ok code) :
    ∃ watcher, ofSource resolver {} node.text false = .ok watcher ∧
      watcher.tree = .program [.statement node] ∧
      (∀ host, watcher.evaluate host = code.run host node.text) ∧
      ∀ input, input ∈ watcher.inputs ↔ ∃ part ∈ node.inputNodes resolver, part.text = input := by
  have htree := Node.ofSource_text_of_written hwritten hfaithful
  have hcompile : Node.compileAll resolver node.text [node] = .ok [code] := by
    simp [Node.compileAll, Node.compile_source node node.text hcode, bind, Except.bind, pure,
      Except.pure]
  obtain ⟨base, hbase⟩ : ∃ base,
      ofNode resolver node.text (.program [.statement node]) = .ok base := by
    simp [ofNode, Node.statements, hcompile, bind, Except.bind, pure, Except.pure]
  obtain ⟨hstatements, hsource, hprogram, -⟩ := ofNode_eq_ok hbase
  refine ⟨{ base with isOneTime := false }, ofSource_eq_ok.mpr ?_, hprogram, fun host => ?_,
    fun input => mem_inputs hbase rfl⟩
  · rw [splitOneTime_text hwritten]
    exact ⟨_, htree, rfl, base, hbase, rfl⟩
  · change Code.runLast host base.source .undefined base.statements = _
    rw [hsource, Except.ok.inj (hstatements.symm.trans hcompile)]
    simp [Code.runLast]

/-- A tree agrees in two environments in which the program of its text gives one value. -/
theorem agreesIn_of_watcher {node : Node} (hwritten : node.Written) (hfaithful : node.Faithful)
    (hchanges : ∀ part ∈ node.parts, ¬part.Changes resolver) {host host' : Host}
    {env env' : Environment σ}
    (hvalue : ∀ watcher, ofSource resolver {} node.text false = .ok watcher →
      ∃ value, (watcher.evaluate host env).1 = .ok value ∧
        (watcher.evaluate host' env').1 = .ok value) :
    node.AgreesIn ⟨host, host', source, source, fun before before' => before = env ∧
      before' = env'⟩ resolver source := by
  rintro code hcode _ _ ⟨rfl, rfl⟩
  obtain ⟨watcher, hwatcher, -, hevaluate, -⟩ := exists_watcher hwritten hfaithful hcode
  obtain ⟨value, hhere, hthere⟩ := hvalue watcher hwatcher
  rw [hevaluate] at hhere hthere
  have hstill := Node.isStill_of_parts node hcode hchanges
  refine ⟨?_, Code.run_env hstill host source _, Code.run_env hstill host' source _⟩
  rw [Code.run_source source hhere, Code.run_source source hthere]
  exact .ok value

/-- What an evaluator of a source of one statement holds. -/
theorem of_single_statement {isolated : Bool} {evaluator : Evaluator σ} {only : Node}
    (h : ofSource resolver {} source isolated = .ok evaluator)
    (hsingle : evaluator.tree.statements = [only]) :
    only.Written ∧ evaluator.tree = .program [.statement only] ∧
      (∀ input, input ∈ evaluator.inputs ↔
        ∃ node ∈ only.inputNodes resolver, node.text = input) ∧
      ∃ code, only.compile resolver evaluator.source = .ok code ∧
        ∀ host, evaluator.evaluate host = code.run host evaluator.source := by
  obtain ⟨tree, htree, -, base, hbase, rfl⟩ := ofSource_eq_ok.mp h
  obtain ⟨hstatements, hsource, rfl, -⟩ := ofNode_eq_ok hbase
  obtain ⟨body, hbody, expressions, rfl, hwritten⟩ := Node.programWritten_of_ofSource htree
  simp only [hbody] at hsingle hstatements
  obtain rfl : expressions = [only] := by
    rw [← hsingle]
    simp [Node.statements, Function.comp_def]
  simp only [List.map_cons, List.map_nil] at hbody
  simp only [Node.statements, List.map_cons, List.map_nil, Node.compileAll, bind_eq_ok, pure_eq_ok,
    Except.ok.injEq, exists_eq_left'] at hstatements
  obtain ⟨code, hcode, hcodes⟩ := hstatements
  rw [← hsource] at hcode
  refine ⟨hwritten.1, hbody, fun input => mem_inputs hbase hbody, code, hcode, fun host => ?_⟩
  change Code.runLast host base.source .undefined base.statements = _
  rw [← hcodes]
  simp [Code.runLast]

/-- The inputs of a program of one statement compile, and they decide its outcome: in two
environments in which each of them gives one value, the program has one outcome.

The tree has to be faithful, since inputs are read from their texts. No part of it may change
something, and neither the scope nor the locals themselves may be reached where inputs are looked
for. -/
theorem evaluate_of_inputs {isolated : Bool} {evaluator : Evaluator σ} {only : Node}
    (h : ofSource resolver {} source isolated = .ok evaluator)
    (hsingle : evaluator.tree.statements = [only]) (hfaithful : evaluator.tree.Faithful)
    (hchanges : ∀ part ∈ evaluator.tree.parts, ¬part.Changes resolver)
    (hexposes : ¬only.Exposes resolver) :
    (∀ input ∈ evaluator.inputs, ∃ watcher, ofSource resolver {} input false = .ok watcher) ∧
    ∀ host host' env env',
      (∀ input ∈ evaluator.inputs, ∀ watcher, ofSource resolver {} input false = .ok watcher →
        ∃ value, (watcher.evaluate host env).1 = .ok value ∧
          (watcher.evaluate host' env').1 = .ok value) →
      (evaluator.evaluate host env).1 = (evaluator.evaluate host' env').1 := by
  obtain ⟨hwritten, htree, hinputs, code, hcode, hevaluate⟩ := of_single_statement h hsingle
  have hparts : ∀ part ∈ only.parts, part ∈ evaluator.tree.parts := by
    rw [htree]
    simp +contextual [Node.parts, Node.allParts]
  have hinput {node : Node} (hmem : node ∈ only.inputNodes resolver) : node.Written ∧
      node.Faithful ∧ (∀ part ∈ node.parts, ¬part.Changes resolver) ∧
      ∃ code, node.compile resolver evaluator.source = .ok code := by
    have hreaches := Node.reaches_of_mem_inputNodes only hmem
    have hpart part (hpart : part ∈ node.parts) := hparts part (hreaches.mem_parts hpart)
    refine ⟨hreaches.written hwritten fun part h => (hfaithful part (hparts part h)).1, ?_⟩
    exact ⟨fun part h => hfaithful part (hpart part h), fun part h => hchanges part (hpart part h),
      hreaches.compile hcode⟩
  constructor
  · intro input hmem
    obtain ⟨node, hnode, rfl⟩ := (hinputs input).mp hmem
    obtain ⟨hwritten, hfaithful, -, nodeCode, hnodeCode⟩ := hinput hnode
    obtain ⟨watcher, hwatcher, -⟩ := exists_watcher hwritten hfaithful hnodeCode
    exact ⟨watcher, hwatcher⟩
  · intro host host' env env' hvalues
    let comparison : Comparison σ := {
      host, host'
      source := evaluator.source
      source' := evaluator.source
      related := fun before before' => before = env ∧ before' = env' }
    have honly : only.AgreesIn comparison resolver evaluator.source := by
      apply Node.agreesIn_of_inputNodes only hexposes
      intro node hmem
      obtain ⟨hwritten, hfaithful, hchanges, -⟩ := hinput hmem
      exact agreesIn_of_watcher hwritten hfaithful hchanges
        (hvalues node.text ((hinputs node.text).mpr ⟨node, hmem, rfl⟩))
    rw [hevaluate, hevaluate]
    exact (honly code hcode env env' ⟨rfl, rfl⟩).1.eq rfl

/-- The negation `-a` watches `a`. It has one outcome in two scopes in which this has one value,
whatever else is different. -/
theorem evaluate_negation_of_name :
    ∃ evaluator : Evaluator Nat, ofSource (fun _ => none) {} "-a" false = .ok evaluator ∧
      evaluator.inputs ≠ [] ∧
      ∀ host, (evaluator.evaluate host ⟨.object [("a", .integer 1)], none, 0⟩).1 =
        (evaluator.evaluate host ⟨.object [("a", .integer 1), ("b", .null)], some .null, 1⟩).1 := by
  let name : Node := .identifier "a"
  let negation : Node := .unary .minus true name
  have hname : name.Written := ⟨isWord_of_all rfl (by decide +kernel), by decide⟩
  have hnegation : negation.Written := ⟨rfl, hname⟩
  have hnameFaithful : name.Faithful := by
    simp [name, Node.Faithful, Node.parts, Node.Misprinted, Node.isMistaken, keywords]
  have hfaithful : negation.Faithful := by
    simp [negation, name, Node.Faithful, Node.parts, Node.Misprinted, Node.isMistaken, keywords]
  have hnameCode : name.compile (fun _ => none : Resolver Nat) "" =
      .ok (.read (.from (.variable "a") [])) := rfl
  have hcode : negation.compile (fun _ => none : Resolver Nat) "" =
      .ok (.unary .minus (.read (.from (.variable "a") []))) := rfl
  obtain ⟨evaluator, hevaluator, htree, -, hinputs⟩ := exists_watcher hnegation hfaithful hcode
  have hwatched : name.text ∈ evaluator.inputs := (hinputs _).mpr ⟨name, List.mem_cons_self, rfl⟩
  refine ⟨evaluator, hevaluator, List.ne_nil_of_mem hwatched, fun host => ?_⟩
  refine (evaluate_of_inputs hevaluator (by rw [htree]; rfl) ?_ ?_ ?_).2 host host _ _ ?_
  · simpa [htree, Node.Faithful, Node.parts, Node.allParts, Node.Misprinted, Node.isMistaken]
      using hfaithful
  · simp [htree, negation, name, Node.parts, Node.allParts, Node.Changes]
  · rintro (hreaches | hreaches) <;>
      simpa [negation, name, Node.parts] using hreaches.mem_parts (Node.mem_parts_self _)
  · intro input hinput watcher hwatcher
    obtain ⟨part, hpart, rfl⟩ := (hinputs input).mp hinput
    obtain rfl : part = name := List.mem_singleton.mp hpart
    obtain ⟨other, hother, -, hevaluate, -⟩ := exists_watcher hname hnameFaithful hnameCode
    obtain rfl : other = watcher := Except.ok.inj (hother.symm.trans hwatcher)
    rw [hevaluate]
    exact ⟨.integer 1, rfl, rfl⟩

end Evaluator

end TemplateExpr
