import TemplateExpr.Node.Parser

/-!
# The grammar as a relation

A list of lexemes is related to each tree that the grammar derives from the whole of it. The
relation says nothing about how a reader finds a derivation: binary levels are left-recursive,
and only the side condition on assignment targets keeps `a ? b : c = d` from having two trees.

The order of the levels, the operators of each level and the keywords are written out here. That they
are those in the tables of the parser is shown afterwards.
-/

namespace TemplateExpr

/-- A level and the next tighter one. -/
inductive Level.Precedes : Level → Level → Prop
  | filter : Precedes .filter .assignment
  | assignment : Precedes .assignment .conditional
  | conditional : Precedes .conditional .or
  | or : Precedes .or .and
  | and : Precedes .and .equality
  | equality : Precedes .equality .relational
  | relational : Precedes .relational .additive
  | additive : Precedes .additive .multiplicative
  | multiplicative : Precedes .multiplicative .unary
  | unary : Precedes .unary .chain

/-- The operators between two operands, with their levels and the trees that they join two trees to. -/
inductive Level.Joins : Level → Symbol → (Node → Node → Node) → Prop
  | or : Joins .or .or (.logical .or)
  | and : Joins .and .and (.logical .and)
  | equal : Joins .equality .equal (.binary .equal)
  | notEqual : Joins .equality .notEqual (.binary .notEqual)
  | strictEqual : Joins .equality .strictEqual (.binary .strictEqual)
  | strictNotEqual : Joins .equality .strictNotEqual (.binary .strictNotEqual)
  | less : Joins .relational .less (.binary .less)
  | greater : Joins .relational .greater (.binary .greater)
  | lessEqual : Joins .relational .lessEqual (.binary .lessEqual)
  | greaterEqual : Joins .relational .greaterEqual (.binary .greaterEqual)
  | add : Joins .additive .plus (.binary .add)
  | subtract : Joins .additive .minus (.binary .subtract)
  | multiply : Joins .multiplicative .times (.binary .multiply)
  | divide : Joins .multiplicative .divide (.binary .divide)
  | remainder : Joins .multiplicative .percent (.binary .remainder)

/-- What a name denotes as an expression: two names are keywords, and of the others those that are
registered stand for literals. -/
inductive Denotes (options : Options) : String → Node → Prop
  | this : Denotes options "this" .this
  | locals : Denotes options "$locals" .locals
  | literal {name : String} {value : Literal} (hthis : name ≠ "this") (hlocals : name ≠ "$locals")
      (hregistered : options.literal? name = some value) : Denotes options name (.literal value)
  | identifier {name : String} (hthis : name ≠ "this") (hlocals : name ≠ "$locals")
      (hregistered : options.literal? name = none) : Denotes options name (.identifier name)

/-- The kinds of phrases that the grammar derives. -/
inductive Category where
  /-- An expression that binds at least as tightly as the level. -/
  | expression (level : Level)
  /-- What follows the name of a filter. -/
  | filterArguments
  /-- What stands between the parentheses of a call. -/
  | arguments
  /-- At least one argument. -/
  | someArguments
  /-- What stands between the brackets of an array. -/
  | elements
  /-- What stands between the braces of an object. -/
  | properties
  | property
  | statements
  | program

/-- What a phrase of a category denotes. -/
abbrev Category.Tree : Category → Type
  | .expression _ | .program => Node
  | .property => Property
  | .properties => List Property
  | .filterArguments | .arguments | .someArguments | .elements | .statements => List Node

/-- The lexemes are a phrase of the category and denote the tree. -/
inductive Derives (options : Options) : (category : Category) → List Lexeme → category.Tree → Prop
  /-- Every expression is also one of each looser level. -/
  | tighter {level level' : Level} {ls : List Lexeme} {node : Node} (hlevel : level.Precedes level')
      (hnode : Derives options (.expression level') ls node) :
      Derives options (.expression level) ls node
  | filter {ls as : List Lexeme} {input : Node} {name : String} {arguments : List Node}
      (hinput : Derives options (.expression .filter) ls input)
      (harguments : Derives options .filterArguments as arguments) :
      Derives options (.expression .filter) (ls ++ .symbol .pipe :: .identifier name :: as)
        (.filter (.identifier name) (input :: arguments))
  /-- Assignment joins to the right, and only names and members are targets. -/
  | assignment {ls rs : List Lexeme} {target value : Node}
      (htarget : Derives options (.expression .conditional) ls target)
      (hassignable : target.isAssignable = true)
      (hvalue : Derives options (.expression .assignment) rs value) :
      Derives options (.expression .assignment) (ls ++ .symbol .assign :: rs)
        (.assignment target value)
  | conditional {ts as cs : List Lexeme} {test alternate consequent : Node}
      (htest : Derives options (.expression .or) ts test)
      (halternate : Derives options (.expression .assignment) as alternate)
      (hconsequent : Derives options (.expression .assignment) cs consequent) :
      Derives options (.expression .conditional)
        (ts ++ .symbol .question :: (as ++ .symbol .colon :: cs))
        (.conditional test alternate consequent)
  /-- The operators of one level join to the left. -/
  | join {level level' : Level} {sign : Symbol} {join : Node → Node → Node} {ls rs : List Lexeme}
      {left right : Node} (hjoins : level.Joins sign join) (hlevel : level.Precedes level')
      (hleft : Derives options (.expression level) ls left)
      (hright : Derives options (.expression level') rs right) :
      Derives options (.expression level) (ls ++ .symbol sign :: rs) (join left right)
  | unary {ls : List Lexeme} {argument : Node} (operator : UnaryOperator)
      (hargument : Derives options (.expression .unary) ls argument) :
      Derives options (.expression .unary) (.symbol operator.symbol :: ls)
        (.unary operator true argument)
  | group {ls : List Lexeme} {node : Node} (hnode : Derives options (.expression .filter) ls node) :
      Derives options (.expression .chain) (.symbol .openParen :: (ls ++ [.symbol .closeParen])) node
  | array {ls : List Lexeme} {elements : List Node} (helements : Derives options .elements ls elements) :
      Derives options (.expression .chain) (.symbol .openBracket :: (ls ++ [.symbol .closeBracket]))
        (.array elements)
  | object {ls : List Lexeme} {properties : List Property}
      (hproperties : Derives options .properties ls properties) :
      Derives options (.expression .chain) (.symbol .openBrace :: (ls ++ [.symbol .closeBrace]))
        (.object properties)
  /-- Keywords and registered literals are special here and nowhere else. -/
  | name {name : String} {node : Node} (hdenotes : Denotes options name node) :
      Derives options (.expression .chain) [.identifier name] node
  | constant (spelling : String) (value : Literal) :
      Derives options (.expression .chain) [.constant spelling value] (.literal value)
  | call {ls as : List Lexeme} {callee : Node} {arguments : List Node}
      (hcallee : Derives options (.expression .chain) ls callee)
      (harguments : Derives options .arguments as arguments) :
      Derives options (.expression .chain)
        (ls ++ .symbol .openParen :: (as ++ [.symbol .closeParen])) (.call callee arguments)
  | computedMember {ls ps : List Lexeme} {holder property : Node}
      (hholder : Derives options (.expression .chain) ls holder)
      (hproperty : Derives options (.expression .assignment) ps property) :
      Derives options (.expression .chain)
        (ls ++ .symbol .openBracket :: (ps ++ [.symbol .closeBracket])) (.member holder property true)
  | namedMember {ls : List Lexeme} {holder : Node} (name : String)
      (hholder : Derives options (.expression .chain) ls holder) :
      Derives options (.expression .chain) (ls ++ [.symbol .dot, .identifier name])
        (.member holder (.identifier name) false)
  | noFilterArguments : Derives options .filterArguments [] []
  | filterArgument {as rest : List Lexeme} {argument : Node} {arguments : List Node}
      (hargument : Derives options (.expression .assignment) as argument)
      (harguments : Derives options .filterArguments rest arguments) :
      Derives options .filterArguments (.symbol .colon :: (as ++ rest)) (argument :: arguments)
  | noArguments : Derives options .arguments [] []
  | arguments {as : List Lexeme} {arguments : List Node}
      (harguments : Derives options .someArguments as arguments) :
      Derives options .arguments as arguments
  | lastArgument {as : List Lexeme} {argument : Node}
      (hargument : Derives options (.expression .filter) as argument) :
      Derives options .someArguments as [argument]
  | nextArgument {as rest : List Lexeme} {argument : Node} {arguments : List Node}
      (hargument : Derives options (.expression .filter) as argument)
      (harguments : Derives options .someArguments rest arguments) :
      Derives options .someArguments (as ++ .symbol .comma :: rest) (argument :: arguments)
  | noElements : Derives options .elements [] []
  | lastElement {es : List Lexeme} {element : Node}
      (helement : Derives options (.expression .assignment) es element) :
      Derives options .elements es [element]
  /-- After a comma there may be no further element. -/
  | nextElement {es rest : List Lexeme} {element : Node} {elements : List Node}
      (helement : Derives options (.expression .assignment) es element)
      (helements : Derives options .elements rest elements) :
      Derives options .elements (es ++ .symbol .comma :: rest) (element :: elements)
  | noProperties : Derives options .properties [] []
  | lastProperty {ps : List Lexeme} {property : Property}
      (hproperty : Derives options .property ps property) : Derives options .properties ps [property]
  /-- After a comma there may be no further property. -/
  | nextProperty {ps rest : List Lexeme} {property : Property} {properties : List Property}
      (hproperty : Derives options .property ps property)
      (hproperties : Derives options .properties rest properties) :
      Derives options .properties (ps ++ .symbol .comma :: rest) (property :: properties)
  | constantKey {vs : List Lexeme} {value : Node} (spelling : String) (key : Literal)
      (hvalue : Derives options (.expression .assignment) vs value) :
      Derives options .property (.constant spelling key :: .symbol .colon :: vs)
        (.entry (.literal key) value false)
  | namedKey {vs : List Lexeme} {value : Node} (key : String)
      (hvalue : Derives options (.expression .assignment) vs value) :
      Derives options .property (.identifier key :: .symbol .colon :: vs)
        (.entry (.identifier key) value false)
  /-- A name alone is a key and an identifier, even where it is a keyword. -/
  | shorthand (key : String) :
      Derives options .property [.identifier key] (.entry (.identifier key) (.identifier key) false)
  | computedKey {ks vs : List Lexeme} {key value : Node}
      (hkey : Derives options (.expression .assignment) ks key)
      (hvalue : Derives options (.expression .assignment) vs value) :
      Derives options .property
        (.symbol .openBracket :: (ks ++ .symbol .closeBracket :: .symbol .colon :: vs))
        (.entry key value true)
  | noStatements : Derives options .statements [] []
  | lastStatement {ls : List Lexeme} {node : Node}
      (hnode : Derives options (.expression .filter) ls node) :
      Derives options .statements ls [.statement node]
  /-- Empty statements leave no trace. -/
  | emptyStatement {rest : List Lexeme} {body : List Node}
      (hbody : Derives options .statements rest body) :
      Derives options .statements (.symbol .semicolon :: rest) body
  | nextStatement {ls rest : List Lexeme} {node : Node} {body : List Node}
      (hnode : Derives options (.expression .filter) ls node)
      (hbody : Derives options .statements rest body) :
      Derives options .statements (ls ++ .symbol .semicolon :: rest) (.statement node :: body)
  | program {ls : List Lexeme} {body : List Node} (hbody : Derives options .statements ls body) :
      Derives options .program ls (.program body)

/-! The tables of the parser are those of the grammar. -/

/-- The parser descends to the next tighter level. -/
theorem Level.precedes_iff {level level' : Level} :
    level.Precedes level' ↔ level ≠ .chain ∧ level' = level.next := by
  constructor
  · intro h
    cases h <;> exact ⟨nofun, rfl⟩
  · rintro ⟨hlevel, rfl⟩
    cases level
    case chain => exact absurd rfl hlevel
    all_goals constructor

/-- The connectives are the operators between two operands. -/
theorem Level.joins_iff {level : Level} {sign : Symbol} {join : Node → Node → Node} :
    level.Joins sign join ↔
      ∃ connective : Connective,
        connective.level = level ∧ connective.symbol = sign ∧ connective.join = join := by
  constructor
  · intro h
    cases h with
    | or => exact ⟨.logical .or, rfl, rfl, rfl⟩
    | and => exact ⟨.logical .and, rfl, rfl, rfl⟩
    | equal => exact ⟨.binary .equal, rfl, rfl, rfl⟩
    | notEqual => exact ⟨.binary .notEqual, rfl, rfl, rfl⟩
    | strictEqual => exact ⟨.binary .strictEqual, rfl, rfl, rfl⟩
    | strictNotEqual => exact ⟨.binary .strictNotEqual, rfl, rfl, rfl⟩
    | less => exact ⟨.binary .less, rfl, rfl, rfl⟩
    | greater => exact ⟨.binary .greater, rfl, rfl, rfl⟩
    | lessEqual => exact ⟨.binary .lessEqual, rfl, rfl, rfl⟩
    | greaterEqual => exact ⟨.binary .greaterEqual, rfl, rfl, rfl⟩
    | add => exact ⟨.binary .add, rfl, rfl, rfl⟩
    | subtract => exact ⟨.binary .subtract, rfl, rfl, rfl⟩
    | multiply => exact ⟨.binary .multiply, rfl, rfl, rfl⟩
    | divide => exact ⟨.binary .divide, rfl, rfl, rfl⟩
    | remainder => exact ⟨.binary .remainder, rfl, rfl, rfl⟩
  · rintro ⟨connective, rfl, rfl, rfl⟩
    rcases connective with operator | operator <;> cases operator <;> constructor

/-- A name is read as what it denotes. -/
theorem denotes_iff {options : Options} {name : String} {node : Node} :
    Denotes options name node ↔ node = Parser.primaryName options name := by
  unfold Parser.primaryName
  constructor
  · intro h
    cases h with
    | this => rfl
    | locals => rfl
    | literal hthis hlocals hregistered => rw [if_neg hthis, if_neg hlocals, hregistered]
    | identifier hthis hlocals hregistered => rw [if_neg hthis, if_neg hlocals, hregistered]
  · rintro rfl
    by_cases hthis : name = "this"
    · rw [if_pos hthis, hthis]
      exact .this
    by_cases hlocals : name = "$locals"
    · rw [if_neg hthis, if_pos hlocals, hlocals]
      exact .locals
    rw [if_neg hthis, if_neg hlocals]
    split
    case h_1 hregistered => exact .literal hthis hlocals hregistered
    case h_2 hregistered => exact .identifier hthis hlocals hregistered

/-- The ranks of neighbouring levels are neighbours. -/
theorem Level.rank_next {level : Level} (h : level ≠ .chain) : level.next.rank = level.rank + 1 := by
  cases level <;> first | rfl | contradiction

/-- No level is past the last one. -/
theorem Level.rank_le_chain (level : Level) : level.rank ≤ Level.chain.rank := by
  cases level <;> decide

/-- A symbol stands for no unary operator but the one it is the symbol of. -/
theorem UnaryOperator.symbol_of_ofSymbol? {sign : Symbol} {operator : UnaryOperator}
    (h : UnaryOperator.ofSymbol? sign = some operator) : operator.symbol = sign := by
  cases sign <;> simp [ofSymbol?] at h <;> subst h <;> rfl

/-- No connective binds as tightly as a chain. -/
theorem Connective.level_ne_chain (connective : Connective) : connective.level ≠ .chain := by
  rcases connective with operator | operator <;> cases operator <;> nofun

namespace Derives

variable {options : Options}

/-- A phrase of the next tighter level is one of the level. -/
theorem tighten {level : Level} {ls : List Lexeme} {node : Node} (hlevel : level ≠ .chain)
    (hnode : Derives options (.expression level.next) ls node) :
    Derives options (.expression level) ls node :=
  .tighter (Level.precedes_iff.mpr ⟨hlevel, rfl⟩) hnode

/-- A connective joins two phrases. -/
theorem connect {level : Level} {ls rs : List Lexeme} {left right : Node} (connective : Connective)
    (hlevel : connective.level = level) (hleft : Derives options (.expression level) ls left)
    (hright : Derives options (.expression level.next) rs right) :
    Derives options (.expression level) (ls ++ .symbol connective.symbol :: rs)
      (connective.join left right) :=
  .join (Level.joins_iff.mpr ⟨connective, hlevel, rfl, rfl⟩)
    (Level.precedes_iff.mpr ⟨hlevel ▸ connective.level_ne_chain, rfl⟩) hleft hright

/-- A name is a phrase. -/
theorem word (name : String) :
    Derives options (.expression .chain) [.identifier name] (Parser.primaryName options name) :=
  .name (denotes_iff.mpr rfl)

/-- A phrase of a tight level is one of every looser level. -/
theorem loosen {level level' : Level} {ls : List Lexeme} {node : Node}
    (h : Derives options (.expression level') ls node) (hrank : level.rank ≤ level'.rank) :
    Derives options (.expression level) ls node := by
  obtain ⟨gap, hgap⟩ := Nat.exists_eq_add_of_le hrank
  induction gap generalizing level with
  | zero =>
    obtain rfl : level = level' := Level.rank_injective (by omega)
    exact h
  | succ gap ih =>
    have hbound := Level.rank_le_chain level'
    have hchain : level ≠ .chain := by
      rintro rfl
      omega
    have hnext := Level.rank_next hchain
    exact .tighten hchain (ih (by omega) (by omega))

end Derives

/-- Whether a chain of calls and member accesses can begin with the lexeme. -/
def Lexeme.beginsChain : Lexeme → Bool
  | .identifier _ | .constant .. => true
  | .symbol sign => sign = .openParen || sign = .openBracket || sign = .openBrace

/-- Whether an expression can begin with the lexeme. -/
def Lexeme.beginsExpression : Lexeme → Bool
  | .symbol sign => (UnaryOperator.ofSymbol? sign).isSome || (Lexeme.symbol sign).beginsChain
  | _ => true

/-- Whether a property can begin with the lexeme. -/
def Lexeme.beginsProperty : Lexeme → Bool
  | .symbol sign => sign = .openBracket
  | _ => true

/-- What can begin a chain can begin an expression. -/
theorem Lexeme.beginsExpression_of_beginsChain {word : Lexeme} (h : word.beginsChain = true) :
    word.beginsExpression = true := by
  cases word with
  | symbol sign => simp [beginsExpression, h]
  | _ => rfl

/-- A unary operator begins an expression. -/
theorem Lexeme.beginsExpression_unary (operator : UnaryOperator) :
    (Lexeme.symbol operator.symbol).beginsExpression = true := by
  cases operator <;> rfl

/-- There is a first lexeme, and it has the property. -/
def StartsWith (test : Lexeme → Bool) (ls : List Lexeme) : Prop :=
  ∃ first rest, ls = first :: rest ∧ test first = true

/-- More lexemes after the first one make no difference. -/
theorem StartsWith.append {test : Lexeme → Bool} {ls : List Lexeme} (h : StartsWith test ls)
    (more : List Lexeme) : StartsWith test (ls ++ more) := by
  obtain ⟨first, rest, rfl, hfirst⟩ := h
  exact ⟨first, rest ++ more, rfl, hfirst⟩

/-- How the phrases of a category begin. -/
def Category.Begins : Category → List Lexeme → Prop
  | .expression .chain, ls => StartsWith Lexeme.beginsChain ls
  | .expression _, ls | .someArguments, ls => StartsWith Lexeme.beginsExpression ls
  | .property, ls => StartsWith Lexeme.beginsProperty ls
  -- A further argument of a filter cannot be taken for more of the argument before it.
  | .filterArguments, ls => ls = [] ∨ ∃ rest, ls = .symbol .colon :: rest
  | _, _ => True

/-- Every expression begins as an expression of the loosest level does. -/
theorem Category.Begins.expression {level : Level} {ls : List Lexeme}
    (h : (Category.expression level).Begins ls) : StartsWith Lexeme.beginsExpression ls := by
  cases level with
  | chain =>
    obtain ⟨first, rest, rfl, hfirst⟩ := h
    exact ⟨first, rest, rfl, Lexeme.beginsExpression_of_beginsChain hfirst⟩
  | _ => exact h

/-- More lexemes after the first one make no difference to how an expression begins. -/
theorem Category.Begins.append {level : Level} {ls : List Lexeme}
    (h : (Category.expression level).Begins ls) (more : List Lexeme) :
    (Category.expression level).Begins (ls ++ more) := by
  cases level <;> exact StartsWith.append h more

namespace Derives

variable {options : Options}

/-- Expressions and properties are never empty, and their first lexeme tells them from what may
stand in their place. -/
theorem begins {category : Category} {ls : List Lexeme} {tree : category.Tree}
    (h : Derives options category ls tree) : category.Begins ls := by
  induction h with
  | tighter hlevel _ ih => cases hlevel <;> exact ih.expression
  | filter _ _ ih _ | assignment _ _ _ ih _ | conditional _ _ _ ih _ _ | join _ _ _ _ ih _
  | call _ _ ih _ | computedMember _ _ ih _ | namedMember _ _ ih => exact ih.append _
  | lastArgument _ ih => exact ih.expression
  | nextArgument _ _ ih _ => exact ih.expression.append _
  | unary operator => exact ⟨_, _, rfl, Lexeme.beginsExpression_unary operator⟩
  | noFilterArguments => exact .inl rfl
  | filterArgument => exact .inr ⟨_, rfl⟩
  | group | array | object | name | constant | constantKey | namedKey | shorthand | computedKey =>
    exact ⟨_, _, rfl, rfl⟩
  | _ => trivial

end Derives

end TemplateExpr
