import TemplateExpr.Proofs.Evaluation.Resolution
import TemplateExpr.Proofs.Evaluation.Watching
import TemplateExpr.Proofs.Grammar.Completeness
import TemplateExpr.Proofs.Sandbox.Events

/-!
# Isolated literals

A tree that is built from literals alone spells a value out: a number with a sign is the number with
this sign, an array has the values of its elements, and an object has for each key the value of the last
entry with this key. An isolated program is one such tree. It gives the value that is spelled out, and
in doing so reads, writes, calls and checks nothing.
-/

namespace TemplateExpr

variable {σ α β : Type}

namespace Node

/-- A key that is not computed spells a text out: a name and a text are what they are, and a literal of
another kind is as it is displayed. -/
inductive KeySpells : Node → String → Prop
  | name (name : String) : KeySpells (.identifier name) name
  | text (text : String) : KeySpells (.literal (.string text)) text
  | integer (n : Int64) : KeySpells (.literal (.integer n)) (toString n.toInt)
  | float (x : Binary64) : KeySpells (.literal (.float x)) x.display
  | boolean (value : Bool) :
      KeySpells (.literal (.boolean value)) (if value then "true" else "false")
  | null : KeySpells (.literal .null) "null"
  | undefined : KeySpells (.literal .undefined) "undefined"
  /-- The grammar has no key of another shape, and a tree that has one spells the text of the key. -/
  | other {key : Node} (hname : ∀ name, key ≠ .identifier name)
      (hliteral : ∀ value, key ≠ .literal value) : KeySpells key key.text

/-- Every key compiles to the text that it spells out. -/
theorem keySpells_iff {key : Node} {text : String} : key.KeySpells text ↔ key.fixedKey = text := by
  constructor
  · intro h
    cases h with
    | other hname hliteral =>
      cases key with
      | identifier name => exact absurd rfl (hname name)
      | literal value => exact absurd rfl (hliteral value)
      | _ => rfl
    | _ => rfl
  · rintro rfl
    cases key with
    | identifier name => exact .name name
    | literal value =>
      cases value with
      | undefined => exact .undefined
      | null => exact .null
      | boolean value => exact .boolean value
      | integer n => exact .integer n
      | float x => exact .float x
      | string text => exact .text text
    | _ => exact .other nofun nofun

mutual

/-- A tree of literals spells a value out. -/
inductive Spells : Node → Value → Prop
  | literal (value : Literal) : Spells (.literal value) value.toValue
  | plus {leading : Bool} {value : Literal} (hnumber : value.isNumber = true) :
      Spells (.unary .plus leading (.literal value)) value.toValue
  | minusInteger {leading : Bool} {n negative : Int64} (hnegative : negative.toInt = -n.toInt) :
      Spells (.unary .minus leading (.literal (.integer n))) (.integer negative)
  /-- The least integer has no negative among the integers. -/
  | minusLeast {leading : Bool} {n : Int64} (hleast : n.toInt = -0x8000000000000000) :
      Spells (.unary .minus leading (.literal (.integer n)))
        (.float (Binary64.ofInt 0x8000000000000000))
  | minusFloat {leading : Bool} (x : Binary64) :
      Spells (.unary .minus leading (.literal (.float x))) (.float x.neg)
  | array {elements : List Node} {values : List Value} (h : AllSpell elements values) :
      Spells (.array elements) (.array values)
  /-- The last entry with a key counts, and the fields are in the order of their names. -/
  | object {properties : List Property} {entries fields : List (String × Value)}
      (h : PropertiesSpell properties entries) (hordered : Fields.Ordered fields)
      (hlast : ∀ key, Fields.get? fields key = Fields.get? entries.reverse key) :
      Spells (.object properties) (.object fields)

/-- Trees of literals spell a value out each. -/
inductive AllSpell : List Node → List Value → Prop
  | nil : AllSpell [] []
  | cons {node : Node} {value : Value} {rest : List Node} {values : List Value}
      (h : Spells node value) (hrest : AllSpell rest values) :
      AllSpell (node :: rest) (value :: values)

/-- Entries of literals spell a value out each, under the text that their key spells out. -/
inductive PropertiesSpell : List Property → List (String × Value) → Prop
  | nil : PropertiesSpell [] []
  | cons {key node : Node} {text : String} {value : Value} {rest : List Property}
      {entries : List (String × Value)} (hkey : KeySpells key text) (h : Spells node value)
      (hrest : PropertiesSpell rest entries) :
      PropertiesSpell (.entry key node false :: rest) ((text, value) :: entries)

end

/-- A tree of literals is no name and no member access. -/
theorem Spells.isAssignable {node : Node} {value : Value} (h : node.Spells value) :
    node.isAssignable = false := by
  cases h <;> rfl

mutual

/-- A tree that spells a value out is plain data. -/
theorem Spells.isPlainData {node : Node} {value : Value} (h : node.Spells value) :
    node.isPlainData = true := by
  cases h with
  | literal | minusInteger | minusLeast | minusFloat => rfl
  | plus hnumber => exact hnumber
  | array h => exact h.allPlainData
  | object h => exact h.propertiesPlainData

/-- Trees that spell values out are plain data. -/
theorem AllSpell.allPlainData {nodes : List Node} {values : List Value}
    (h : AllSpell nodes values) : allPlainData nodes = true := by
  cases h with
  | nil => rfl
  | cons h hrest => simp [Node.allPlainData, h.isPlainData, hrest.allPlainData]

/-- Entries that spell values out are plain data. -/
theorem PropertiesSpell.propertiesPlainData {properties : List Property}
    {entries : List (String × Value)} (h : PropertiesSpell properties entries) :
    propertiesPlainData properties = true := by
  cases h with
  | nil => rfl
  | cons hkey h hrest => simp [Node.propertiesPlainData, h.isPlainData, hrest.propertiesPlainData]

end

/-- A number with a minus sign is spelled out. -/
theorem exists_spells_minus (leading : Bool) {value : Literal} (h : value.isNumber = true) :
    ∃ negative, (unary .minus leading (.literal value)).Spells negative := by
  cases value with
  | integer n =>
    by_cases hleast : n.toInt = -0x8000000000000000
    · exact ⟨_, .minusLeast hleast⟩
    · have hlow := n.le_toInt
      have hhigh := n.toInt_lt
      exact ⟨_, .minusInteger (Int64.toInt_ofInt_of_le (by omega) (by omega))⟩
  | float x => exact ⟨_, .minusFloat x⟩
  | _ => cases h

mutual

/-- Plain data spells a value out. -/
theorem exists_spells (node : Node) (h : node.isPlainData = true) : ∃ value, node.Spells value := by
  cases node with
  | literal value => exact ⟨_, .literal value⟩
  | unary operator leading argument =>
    cases argument with
    | literal value =>
      simp only [isPlainData, Bool.and_eq_true] at h
      cases operator with
      | not => cases h.1
      | plus => exact ⟨_, .plus h.2⟩
      | minus => exact exists_spells_minus leading h.2
    | _ => cases h
  | array elements =>
    obtain ⟨values, hvalues⟩ := exists_allSpell elements h
    exact ⟨_, .array hvalues⟩
  | object properties =>
    obtain ⟨entries, hentries⟩ := exists_propertiesSpell properties h
    exact ⟨_, .object hentries (Fields.ordered_ofEntries entries) (Fields.get?_ofEntries entries)⟩
  | _ => cases h

/-- Plain data in a list spells values out. -/
theorem exists_allSpell (nodes : List Node) (h : allPlainData nodes = true) :
    ∃ values, AllSpell nodes values := by
  cases nodes with
  | nil => exact ⟨[], .nil⟩
  | cons node rest =>
    simp only [allPlainData, Bool.and_eq_true] at h
    obtain ⟨value, hvalue⟩ := exists_spells node h.1
    obtain ⟨values, hvalues⟩ := exists_allSpell rest h.2
    exact ⟨value :: values, .cons hvalue hvalues⟩

/-- Plain data in entries spells values out. -/
theorem exists_propertiesSpell (properties : List Property)
    (h : propertiesPlainData properties = true) :
    ∃ entries, PropertiesSpell properties entries := by
  cases properties with
  | nil => exact ⟨[], .nil⟩
  | cons property rest =>
    obtain ⟨key, value, computed⟩ := property
    simp only [propertiesPlainData, Bool.and_eq_true, Bool.not_eq_true'] at h
    obtain ⟨⟨rfl, hvalue⟩, hrest⟩ := h
    obtain ⟨value, hvalue⟩ := exists_spells value hvalue
    obtain ⟨entries, hentries⟩ := exists_propertiesSpell rest hrest
    exact ⟨_, .cons (keySpells_iff.mpr rfl) hvalue hentries⟩

end

/-- A program is isolated if it is one tree that spells a value out. -/
theorem isIsolatedLiteral_iff {tree : Node} :
    tree.isIsolatedLiteral = true ↔
      ∃ node value, tree.statements = [node] ∧ node.Spells value := by
  unfold isIsolatedLiteral
  split
  case h_1 only honly =>
    constructor
    · intro h
      obtain ⟨value, hvalue⟩ := exists_spells only h
      exact ⟨only, value, honly, hvalue⟩
    · rintro ⟨node, value, hnode, hvalue⟩
      obtain rfl : only = node := List.singleton_inj.mp (honly.symm.trans hnode)
      exact hvalue.isPlainData
  case h_2 hmany =>
    constructor
    · intro h
      cases h
    · rintro ⟨node, value, hnode, -⟩
      exact absurd hnode (hmany node)

end Node

/-- A sign before a number gives the number with this sign. -/
theorem UnaryOperator.apply_minus_integer {n negative : Int64} (h : negative.toInt = -n.toInt) :
    UnaryOperator.minus.apply (.integer n) = .integer negative := by
  have hnegate : int64? (-n.toInt) = some negative := int64?_eq_some_iff.mpr h
  change (Number.negate (.integer n)).toValue = _
  rw [Number.negate, hnegate]
  rfl

/-- The least integer with a minus sign is a float. -/
theorem UnaryOperator.apply_minus_least {n : Int64} (h : n.toInt = -0x8000000000000000) :
    UnaryOperator.minus.apply (.integer n) = .float (Binary64.ofInt 0x8000000000000000) := by
  have hnegate : int64? (-n.toInt) = none := by
    rw [h]
    rfl
  have hfloat : (Binary64.ofInt n.toInt).neg = Binary64.ofInt 0x8000000000000000 := by
    rw [h]
    decide +kernel
  change (Number.negate (.integer n)).toValue = _
  rw [Number.negate, hnegate]
  exact congrArg Value.float hfloat

/-- A number with a plus sign is the number. -/
theorem UnaryOperator.apply_plus_number {value : Literal} (h : value.isNumber = true) :
    UnaryOperator.plus.apply value.toValue = value.toValue := by
  cases value with
  | integer | float => rfl
  | _ => cases h

namespace Watched

/-- A value that is given without a note is handed on. -/
theorem pure_bind (value : α) (next : α → Watched σ β) :
    (pure value >>= next : Watched σ β) = next value := rfl

end Watched

namespace Node

variable {resolver : Resolver σ} {source : String}

/-- A literal with a sign compiles to code that applies the sign and does nothing else. -/
theorem exists_compile_unary {operator : UnaryOperator} (leading : Bool) {value : Literal}
    {result : Value} (h : operator.apply value.toValue = result) :
    ∃ code, (unary operator leading (.literal value)).compile resolver source = .ok code ∧
      ∀ host, code.watch host source = (pure result : Watched σ Value) := by
  subst h
  exact ⟨_, rfl, fun _ => rfl⟩

mutual

/-- A tree that spells a value out compiles to code that gives the value and does nothing else. -/
theorem exists_compile_of_spells (node : Node) {value : Value} (h : node.Spells value) :
    ∃ code, node.compile resolver source = .ok code ∧
      ∀ host, code.watch host source = (pure value : Watched σ Value) := by
  cases h with
  | literal => exact ⟨_, rfl, fun _ => rfl⟩
  | plus hnumber => exact exists_compile_unary _ (UnaryOperator.apply_plus_number hnumber)
  | minusInteger hnegative =>
    exact exists_compile_unary _ (UnaryOperator.apply_minus_integer hnegative)
  | minusLeast hleast => exact exists_compile_unary _ (UnaryOperator.apply_minus_least hleast)
  | minusFloat => exact exists_compile_unary _ rfl
  | array h =>
    obtain ⟨codes, hcodes, hwatch⟩ := exists_compileAll_of_spells _ h
    refine ⟨.array codes, by simp only [compile, hcodes]; rfl, fun host => ?_⟩
    rw [Code.watch, hwatch, Watched.pure_bind]
  | object h hordered hlast =>
    obtain ⟨compiled, hcompiled, hwatch⟩ := exists_compileProperties_of_spells _ h
    refine ⟨.object compiled, by simp only [compile, hcompiled]; rfl, fun host => ?_⟩
    rw [Code.watch, hwatch, Watched.pure_bind]
    refine congrArg (fun fields => pure (Value.object fields)) ?_
    exact (Fields.ordered_ofEntries _).ext hordered fun key =>
      (Fields.get?_ofEntries _ key).trans (hlast key).symm

/-- Trees that spell values out compile to codes that give the values and do nothing else. -/
theorem exists_compileAll_of_spells (nodes : List Node) {values : List Value}
    (h : AllSpell nodes values) :
    ∃ codes, compileAll resolver source nodes = .ok codes ∧
      ∀ host, Code.watchAll host source codes = (pure values : Watched σ (List Value)) := by
  cases h with
  | nil => exact ⟨[], rfl, fun _ => rfl⟩
  | cons h hrest =>
    obtain ⟨code, hcode, hwatch⟩ := exists_compile_of_spells _ h
    obtain ⟨codes, hcodes, hwatchAll⟩ := exists_compileAll_of_spells _ hrest
    refine ⟨code :: codes, by simp only [compileAll, hcode, hcodes]; rfl, fun host => ?_⟩
    rw [Code.watchAll, hwatch, Watched.pure_bind, hwatchAll, Watched.pure_bind]

/-- Entries that spell values out compile to entries that add the values and do nothing else. -/
theorem exists_compileProperties_of_spells (properties : List Property)
    {entries : List (String × Value)} (h : PropertiesSpell properties entries) :
    ∃ compiled, compileProperties resolver source properties = .ok compiled ∧
      ∀ host fields, Entry.watchAll host source fields compiled =
        (pure (entries.foldl (fun fields (key, value) => Fields.insert key value fields) fields) :
          Watched σ (List (String × Value))) := by
  cases h with
  | nil => exact ⟨[], rfl, fun _ _ => rfl⟩
  | @cons key node text value rest entries hkey h hrest =>
    obtain ⟨code, hcode, hwatch⟩ := exists_compile_of_spells _ h
    obtain ⟨compiled, hcompiled, hwatchAll⟩ := exists_compileProperties_of_spells _ hrest
    refine ⟨.entry (.fixed text) code :: compiled, ?_, fun host fields => ?_⟩
    · rw [← keySpells_iff.mp hkey]
      simp only [compileProperties, hcode, hcompiled]
      rfl
    · rw [Entry.watchAll, Key.watch, Watched.pure_bind, hwatch, Watched.pure_bind, hwatchAll]
      rfl

end

mutual

/-- A tree that spells a value out is judged constant. -/
theorem Spells.isConstant {node : Node} {value : Value} (h : node.Spells value) :
    node.isConstant resolver = true := by
  cases h with
  | literal | plus | minusInteger | minusLeast | minusFloat => rfl
  | array h => exact h.allConstant
  | object h => exact h.allPropertiesConstant

/-- Trees that spell values out are judged constant. -/
theorem AllSpell.allConstant {nodes : List Node} {values : List Value}
    (h : AllSpell nodes values) : allConstant resolver nodes = true := by
  cases h with
  | nil => rfl
  | cons h hrest => simp [Node.allConstant, h.isConstant, hrest.allConstant]

/-- Entries that spell values out are judged constant. -/
theorem PropertiesSpell.allPropertiesConstant {properties : List Property}
    {entries : List (String × Value)} (h : PropertiesSpell properties entries) :
    allPropertiesConstant resolver properties = true := by
  cases h with
  | nil => rfl
  | cons hkey h hrest =>
    simp [Node.allPropertiesConstant, h.isConstant, hrest.allPropertiesConstant]

end

end Node

namespace Evaluator

variable {resolver : Resolver σ} {options : Options} {source : String}

/-- A program of one tree that spells a value out gives the value and does nothing else. -/
theorem watch_of_spells {tree node : Node} {value : Value} {evaluator : Evaluator σ}
    (h : ofNode resolver source tree = .ok evaluator) (hsingle : tree.statements = [node])
    (hspells : node.Spells value) (host : Host) :
    evaluator.watch host = (pure value : Watched σ Value) := by
  obtain ⟨hstatements, hsource, -⟩ := ofNode_eq_ok h
  obtain ⟨code, hcode, hwatch⟩ : ∃ code, node.compile resolver source = .ok code ∧
      ∀ host, code.watch host source = (pure value : Watched σ Value) :=
    Node.exists_compile_of_spells node hspells
  have hcodes : Node.compileAll resolver source [node] = .ok [code] := by
    simp only [Node.compileAll, hcode]
    rfl
  rw [hsingle, hcodes] at hstatements
  rw [watch, hsource, ← Except.ok.inj hstatements, Code.watchLast, hwatch, Watched.pure_bind]
  rfl

/-- A program of one tree that spells a value out compiles. -/
theorem exists_ofSource_isolated (resolver : Resolver σ) {tree : Node}
    (h : Node.ofSource options (splitOneTime source).1 = .ok tree)
    (hisolated : tree.isIsolatedLiteral = true) :
    ∃ evaluator, ofSource resolver options source true = .ok evaluator := by
  obtain ⟨node, value, hsingle, hspells⟩ := Node.isIsolatedLiteral_iff.mp hisolated
  obtain ⟨code, hcode, -⟩ : ∃ code,
      node.compile resolver (splitOneTime source).1 = .ok code ∧ ∀ host,
        code.watch host (splitOneTime source).1 = (pure value : Watched σ Value) :=
    Node.exists_compile_of_spells node hspells
  obtain ⟨base, hbase⟩ : ∃ base, ofNode resolver (splitOneTime source).1 tree = .ok base := by
    simp only [ofNode, hsingle, Node.compileAll, hcode]
    exact ⟨_, rfl⟩
  exact ⟨_, ofSource_eq_ok.mpr ⟨tree, h, by simp [hisolated], base, hbase, rfl⟩⟩

/-- An isolated program is one tree that spells a value out: it is judged constant, has no inputs and
nothing can be assigned to it, and in every environment it gives the value that is spelled out and does
nothing else, so that no key is checked, nothing is read or written, and no function and no filter is
called. A source that can be parsed is refused exactly if it is not one such tree. -/
theorem isolated_spells (resolver : Resolver σ) (options : Options) (source : String) :
    (∀ evaluator, ofSource resolver options source true = .ok evaluator →
      ∃ node, evaluator.tree.statements = [node] ∧ (∃ value, node.Spells value) ∧
        evaluator.isConstant = true ∧ evaluator.inputs = [] ∧ evaluator.isAssignable = false ∧
        ∀ value, node.Spells value → ∀ host env,
          evaluator.evaluate host env = (.ok value, env) ∧ (evaluator.watch host env).2 = []) ∧
    ∀ tree, Node.ofSource options (splitOneTime source).1 = .ok tree →
      (ofSource resolver options source true = .error (.notLiteral (splitOneTime source).1) ↔
        ¬∃ node value, tree.statements = [node] ∧ node.Spells value) := by
  refine ⟨fun evaluator h => ?_, fun tree htree => ?_⟩
  · obtain ⟨tree, -, hisolated, base, hbase, rfl⟩ := ofSource_eq_ok.mp h
    rw [Bool.true_and, Bool.not_eq_false'] at hisolated
    obtain ⟨node, value, hsingle, hspells⟩ := Node.isIsolatedLiteral_iff.mp hisolated
    obtain ⟨-, -, htree, hjudged, hinputs⟩ := ofNode_eq_ok hbase
    have hconstant : tree.isConstant resolver = true := by
      rw [← Node.allConstant_statements, hsingle]
      simp [Node.allConstant, hspells.isConstant]
    refine ⟨node, htree ▸ hsingle, ⟨value, hspells⟩, hjudged.trans hconstant, ?_, ?_,
      fun value hspells host env => ?_⟩
    · simpa only [hconstant, if_true] using hinputs
    · simp only [isAssignable, target_of_not_isAssignable hbase hsingle hspells.isAssignable,
        Option.isSome_none]
    · have hwatch := watch_of_spells hbase hsingle hspells host
      refine ⟨?_, congrArg (fun run => (run env).2) hwatch⟩
      rw [← erase_watch]
      exact congrArg (fun run => (run env).1) hwatch
  · rw [← Node.isIsolatedLiteral_iff]
    cases hisolated : tree.isIsolatedLiteral with
    | false =>
      have hrefused : (true && !tree.isIsolatedLiteral) = true := by rw [hisolated]; rfl
      simp only [ofSource, htree, bind, Except.bind, if_pos hrefused]
      exact iff_of_true rfl Bool.false_ne_true
    | true =>
      obtain ⟨evaluator, hevaluator⟩ := exists_ofSource_isolated resolver htree hisolated
      simp [hevaluator]

/-- The source `[-1, \x7ba: 1, 'a': 2\x7d]` is an array with a negative number and an object in it, which
has the last value for its key, and `-a` spells nothing out. -/
theorem isolated_spells_array (resolver : Resolver σ) :
    (∃ evaluator, ofSource resolver {} "[-1, \x7ba: 1, 'a': 2\x7d]" true = .ok evaluator ∧
      ∀ host env, evaluator.evaluate host env =
          (.ok (.array [.integer (-1), .object [("a", .integer 2)]]), env) ∧
        (evaluator.watch host env).2 = []) ∧
    ofSource resolver {} "-a" true = .error (.notLiteral "-a") := by
  have htokens : tokensOf {} "[-1, \x7ba: 1, 'a': 2\x7d]" =
      .ok [⟨.symbol .openBracket, 0⟩, ⟨.symbol .minus, 1⟩, ⟨.constant "1" (.integer 1), 2⟩,
        ⟨.symbol .comma, 3⟩, ⟨.symbol .openBrace, 5⟩, ⟨.identifier "a", 6⟩, ⟨.symbol .colon, 7⟩,
        ⟨.constant "1" (.integer 1), 9⟩, ⟨.symbol .comma, 10⟩, ⟨.constant "'a'" (.string "a"), 12⟩,
        ⟨.symbol .colon, 15⟩, ⟨.constant "2" (.integer 2), 17⟩, ⟨.symbol .closeBrace, 18⟩,
        ⟨.symbol .closeBracket, 19⟩] := rfl
  have hread : Node.ofSource {} "[-1, \x7ba: 1, 'a': 2\x7d]" = .ok (.program [.statement
      (.array [.unary .minus true (.literal (.integer 1)),
        .object [.entry (.identifier "a") (.literal (.integer 1)) false,
          .entry (.literal (.string "a")) (.literal (.integer 2)) false]])]) := by
    have hconstant (spelling : String) (value : Literal) (level : Level) : Derives {}
        (.expression level) [.constant spelling value] (.literal value) :=
      (Derives.constant spelling value).loosen (Level.rank_le_chain level)
    have hnegative := (Derives.unary .minus (hconstant "1" (.integer 1) _)).loosen
      (by decide : Level.assignment.rank ≤ _)
    have hobject := (Derives.object (.nextProperty (.namedKey "a" (hconstant "1" (.integer 1) _))
      (.lastProperty (.constantKey "'a'" (.string "a") (hconstant "2" (.integer 2) _))))).loosen
      (Level.rank_le_chain .assignment)
    have harray := (Derives.array (.nextElement hnegative (.lastElement hobject))).loosen
      (Level.rank_le_chain .filter)
    simp only [Node.ofSource, htokens, bind, Except.bind]
    exact mapError_eq_ok.mpr (Parser.program_of_derives (.program (.lastStatement harray)))
  have hread' : Node.ofSource {} "-a" = .ok (.program [.statement
      (.unary .minus true (.identifier "a"))]) := rfl
  constructor
  · obtain ⟨evaluator, hevaluator⟩ : ∃ evaluator,
        ofSource resolver {} "[-1, \x7ba: 1, 'a': 2\x7d]" true = .ok evaluator :=
      exists_ofSource_isolated resolver hread rfl
    obtain ⟨node, hsingle, -, -, -, -, hgives⟩ :=
      (isolated_spells resolver {} "[-1, \x7ba: 1, 'a': 2\x7d]").1 evaluator hevaluator
    refine ⟨evaluator, hevaluator, hgives _ ?_⟩
    obtain ⟨tree, htree, -, base, hbase, rfl⟩ := ofSource_eq_ok.mp hevaluator
    obtain ⟨-, -, hbaseTree, -⟩ := ofNode_eq_ok hbase
    obtain rfl := Except.ok.inj (hread.symm.trans htree)
    rw [hbaseTree] at hsingle
    obtain rfl := List.singleton_inj.mp hsingle
    let entries : List (String × Value) := [("a", .integer 1), ("a", .integer 2)]
    have hobject : Node.Spells _ (.object [("a", .integer 2)]) :=
      .object (.cons (.name "a") (.literal (.integer 1))
        (.cons (.text "a") (.literal (.integer 2)) .nil))
        (Fields.ordered_ofEntries entries) (Fields.get?_ofEntries entries)
    exact .array (.cons (.minusInteger rfl) (.cons hobject .nil))
  · refine ((isolated_spells resolver {} "-a").2 _ hread').mpr ?_
    rintro ⟨node, value, hsingle, hspells⟩
    obtain rfl := List.singleton_inj.mp hsingle
    cases hspells

end Evaluator

end TemplateExpr
