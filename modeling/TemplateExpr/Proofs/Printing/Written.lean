import TemplateExpr.Node.Source
import TemplateExpr.Proofs.Grammar.Soundness
import TemplateExpr.Proofs.Lexing.Lexemes
import TemplateExpr.Proofs.Outcome

/-!
# Trees that are written

Not every tree is denoted by a source. Numbers have no sign of their own, names are words, the keys
of objects are words or constants, and a keyword stands for itself only as the value of a shorthand
property. Every tree that the grammar derives from lexemes that the lexer finds is of this shape.
-/

namespace TemplateExpr

/-- The names that are no identifiers where an expression is expected. -/
def keywords : List String := ["this", "$locals", "true", "false", "null", "undefined"]

/-- A name that is no keyword denotes an identifier. -/
theorem Parser.primaryName_of_notMem {name : String} (h : name ∉ keywords) :
    primaryName {} name = .identifier name := by
  simp only [keywords, List.mem_cons, List.not_mem_nil, or_false, not_or] at h
  obtain ⟨hthis, hlocals, htrue, hfalse, hnull, hundefined⟩ := h
  simp [primaryName, Options.literal?, List.lookup_cons, beq_false_of_ne, *]

/-- Whether a literal is denoted by a keyword. -/
def Literal.isKeyword : Literal → Bool
  | .undefined | .null | .boolean _ => true
  | _ => false

/-- Whether a source can denote a literal. The numbers of a source have no sign. -/
def Literal.Written : Literal → Prop
  | .integer value => 0 ≤ value.toInt
  | .float value => ∃ magnitude, value = .signed false magnitude
  | _ => True

/-- Whether the lexer can find a lexeme. -/
def Lexeme.Sound : Lexeme → Prop
  | .identifier name => IsWord name
  | .constant _ value => value.Written ∧ value.isKeyword = false
  | .symbol _ => True

namespace Node

/-- Whether a node is a name, as the property of a member access is. -/
def IsName : Node → Prop
  | .identifier name => IsWord name
  | _ => False

/-- Whether a node is the key of an entry that is not computed. -/
def IsKey : Node → Prop
  | .identifier name => IsWord name
  | .literal value => value.Written ∧ value.isKeyword = false
  | _ => False

mutual

/-- Whether a source can denote the tree as an expression. -/
def Written : Node → Prop
  | .program _ | .statement _ => False
  | .literal value => value.Written
  | .identifier name => IsWord name ∧ name ∉ keywords
  | .this | .locals => True
  | .member holder property computed =>
    holder.Written ∧ if computed then property.Written else property.IsName
  | .call callee arguments => callee.Written ∧ AllWritten arguments
  | .filter name arguments => name.IsName ∧ arguments ≠ [] ∧ AllWritten arguments
  | .assignment target value => target.isAssignable = true ∧ target.Written ∧ value.Written
  | .conditional test alternate consequent =>
    test.Written ∧ alternate.Written ∧ consequent.Written
  | .logical _ left right => left.Written ∧ right.Written
  | .binary _ left right => left.Written ∧ right.Written
  | .unary _ leading argument => leading = true ∧ argument.Written
  | .array elements => AllWritten elements
  | .object properties => PropertiesWritten properties

/-- Whether a source can denote each of the trees as an expression. -/
def AllWritten : List Node → Prop
  | [] => True
  | node :: rest => node.Written ∧ AllWritten rest

/-- Whether a source can denote the entries. The value of a shorthand is its key, whatever the key
denotes elsewhere. -/
def PropertiesWritten : List Property → Prop
  | [] => True
  | .entry key value computed :: rest =>
    (if computed then key.Written ∧ value.Written
      else key.IsKey ∧ (value.Written ∨ key.IsName ∧ value = key)) ∧ PropertiesWritten rest

end

/-- Whether each of the trees is a statement that a source can denote. -/
def StatementsWritten (body : List Node) : Prop :=
  ∃ expressions, body = expressions.map .statement ∧ AllWritten expressions

/-- Whether a source can denote the tree as a program. -/
def ProgramWritten (tree : Node) : Prop := ∃ body, tree = .program body ∧ StatementsWritten body

end Node

/-- Whether a source can denote the tree as a phrase of the category. -/
def Category.Written : (category : Category) → category.Tree → Prop
  | .expression _, node => node.Written
  | .filterArguments, nodes | .arguments, nodes | .someArguments, nodes | .elements, nodes =>
    Node.AllWritten nodes
  | .properties, entries => Node.PropertiesWritten entries
  | .property, entry => Node.PropertiesWritten [entry]
  | .statements, body => Node.StatementsWritten body
  | .program, tree => tree.ProgramWritten

/-- What a word denotes is written. -/
theorem Parser.written_primaryName {name : String} (h : IsWord name) :
    (primaryName {} name).Written := by
  by_cases hkeyword : name ∈ keywords
  · simp only [keywords, List.mem_cons, List.not_mem_nil, or_false] at hkeyword
    rcases hkeyword with rfl | rfl | rfl | rfl | rfl | rfl <;> exact trivial
  · rw [primaryName_of_notMem hkeyword]
    exact ⟨h, hkeyword⟩

/-- What is derived from lexemes that the lexer finds is written. -/
theorem Derives.written {category : Category} {ls : List Lexeme} {tree : category.Tree}
    (h : Derives {} category ls tree) (hsound : ∀ word ∈ ls, word.Sound) :
    category.Written tree := by
  induction h with
  | tighter _ _ ih | arguments _ ih => exact ih hsound
  | filter _ _ hinput harguments =>
    simp only [List.forall_mem_append, List.forall_mem_cons] at hsound
    exact ⟨hsound.2.2.1, by simp, hinput hsound.1, harguments hsound.2.2.2⟩
  | assignment _ hassignable _ htarget hvalue =>
    simp only [List.forall_mem_append, List.forall_mem_cons] at hsound
    exact ⟨hassignable, htarget hsound.1, hvalue hsound.2.2⟩
  | conditional _ _ _ htest halternate hconsequent =>
    simp only [List.forall_mem_append, List.forall_mem_cons] at hsound
    exact ⟨htest hsound.1, halternate hsound.2.2.1, hconsequent hsound.2.2.2.2⟩
  | join hjoins _ _ _ hleft hright =>
    simp only [List.forall_mem_append, List.forall_mem_cons] at hsound
    have hboth := And.intro (hleft hsound.1) (hright hsound.2.2)
    cases hjoins <;> exact hboth
  | unary _ _ ih =>
    simp only [List.forall_mem_cons] at hsound
    exact ⟨rfl, ih hsound.2⟩
  | group _ ih | array _ ih | object _ ih =>
    simp only [List.forall_mem_cons, List.forall_mem_append] at hsound
    exact ih hsound.2.1
  | name hdenotes =>
    obtain rfl := denotes_iff.mp hdenotes
    exact Parser.written_primaryName (hsound _ List.mem_cons_self)
  | constant spelling value => exact (hsound _ List.mem_cons_self).1
  | call _ _ hcallee harguments =>
    simp only [List.forall_mem_append, List.forall_mem_cons] at hsound
    exact ⟨hcallee hsound.1, harguments hsound.2.2.1⟩
  | computedMember _ _ hholder hproperty =>
    simp only [List.forall_mem_append, List.forall_mem_cons] at hsound
    exact ⟨hholder hsound.1, hproperty hsound.2.2.1⟩
  | namedMember name _ hholder =>
    simp only [List.forall_mem_append, List.forall_mem_cons] at hsound
    exact ⟨hholder hsound.1, hsound.2.2.1⟩
  | noFilterArguments | noArguments | noElements | noProperties => exact trivial
  | filterArgument _ _ hargument harguments =>
    simp only [List.forall_mem_cons, List.forall_mem_append] at hsound
    exact ⟨hargument hsound.2.1, harguments hsound.2.2⟩
  | lastArgument _ ih | lastElement _ ih => exact ⟨ih hsound, trivial⟩
  | nextArgument _ _ hfirst hrest | nextElement _ _ hfirst hrest =>
    simp only [List.forall_mem_append, List.forall_mem_cons] at hsound
    exact ⟨hfirst hsound.1, hrest hsound.2.2⟩
  | lastProperty _ ih => exact ih hsound
  | @nextProperty _ _ property _ _ _ hfirst hrest =>
    simp only [List.forall_mem_append, List.forall_mem_cons] at hsound
    obtain ⟨key, value, computed⟩ := property
    exact ⟨(hfirst hsound.1).1, hrest hsound.2.2⟩
  | constantKey spelling key _ hvalue =>
    simp only [List.forall_mem_cons] at hsound
    exact ⟨⟨hsound.1, .inl (hvalue hsound.2.2)⟩, trivial⟩
  | namedKey key _ hvalue =>
    simp only [List.forall_mem_cons] at hsound
    exact ⟨⟨hsound.1, .inl (hvalue hsound.2.2)⟩, trivial⟩
  | shorthand key =>
    have hkey := hsound _ List.mem_cons_self
    exact ⟨⟨hkey, .inr ⟨hkey, rfl⟩⟩, trivial⟩
  | computedKey _ _ hkey hvalue =>
    simp only [List.forall_mem_cons, List.forall_mem_append] at hsound
    exact ⟨⟨hkey hsound.2.1, hvalue hsound.2.2.2.2⟩, trivial⟩
  | noStatements => exact ⟨[], rfl, trivial⟩
  | @lastStatement _ node _ ih => exact ⟨[node], rfl, ih hsound, trivial⟩
  | emptyStatement _ ih =>
    simp only [List.forall_mem_cons] at hsound
    exact ih hsound.2
  | @nextStatement _ _ node _ _ _ hnode hbody =>
    simp only [List.forall_mem_append, List.forall_mem_cons] at hsound
    obtain ⟨expressions, rfl, hwritten⟩ := hbody hsound.2.2
    exact ⟨node :: expressions, rfl, hnode hsound.1, hwritten⟩
  | program _ ih => exact ⟨_, rfl, ih hsound⟩

namespace Lexer

/-- A number has a value without a sign. -/
theorem sound_numberValue (whole fraction exponent : List Char) :
    (numberValue whole fraction exponent).Written ∧
      (numberValue whole fraction exponent).isKeyword = false := by
  unfold numberValue
  split
  case isTrue h =>
    simp only [Bool.and_eq_true, decide_eq_true_eq] at h
    refine ⟨?_, rfl⟩
    change 0 ≤ (Int64.ofNat (decimalValue whole)).toInt
    rw [Int64.toInt_ofNat_of_lt h.2]
    omega
  case isFalse =>
    refine ⟨?_, rfl⟩
    simp only [Literal.Written, Numeral.toBinary64, Binary64.ofDecimal]
    split
    · exact ⟨_, rfl⟩
    · split <;> exact ⟨_, rfl⟩

/-- What the lexer finds is sound. -/
theorem sound_of_lexeme {index : Nat} {c : Char} {rest rest' : List Char} {word : Lexeme}
    (h : lexeme {} index c rest = .ok (word, rest')) : word.Sound := by
  unfold lexeme at h
  split at h
  · simp only [string, bind_eq_ok, Prod.exists, pure_eq_ok] at h
    obtain ⟨value, left, -, hword⟩ := h
    cases hword
    exact ⟨trivial, rfl⟩
  split at h
  · simp only [number, bind_eq_ok, Prod.exists, pure_eq_ok] at h
    obtain ⟨exponent, left, -, hword⟩ := h
    cases hword
    exact sound_numberValue _ _ _
  split at h
  · cases h
    exact trivial
  · unfold Lexer.word at h
    split at h
    case isTrue hbegins =>
      cases h
      exact ⟨c, _, String.toList_ofList, hbegins, 
        List.all_eq_true.mp List.all_takeWhile⟩
    case isFalse =>
      split at h
      · cases h
        exact trivial
      · contradiction

/-- The tokens that the lexer finds are sound. -/
theorem sound_of_tokensFrom {budget index : Nat} {chars : List Char} {tokens : List Token}
    {error : Option LexicalError} (h : tokensFrom {} budget index chars = (tokens, error)) :
    ∀ token ∈ tokens, token.lexeme.Sound := by
  induction budget generalizing index chars tokens error with
  | zero =>
    cases h
    simp
  | succ budget ih =>
    simp only [tokensFrom] at h
    split at h
    · cases h
      simp
    split at h
    · cases h
      simp
    case h_2 word rest hword =>
      rcases hmore : tokensFrom {} budget _ rest with ⟨others, error'⟩
      rw [hmore] at h
      cases h
      exact List.forall_mem_cons.mpr ⟨sound_of_lexeme hword, ih hmore⟩

end Lexer

/-- The tokens of a source are those that a scan without an error finds. -/
theorem tokenize_eq_ok {options : Options} {source : String} {tokens : List Token} :
    tokenize options source = .ok tokens ↔ scan options source = (tokens, none) := by
  rcases hscan : scan options source with ⟨found, _ | error⟩ <;> simp [tokenize, hscan]

/-- A source has a tree if it has tokens and these are a program. -/
theorem Node.ofSource_eq_ok {options : Options} {source : String} {tree : Node} :
    ofSource options source = .ok tree ↔
      ∃ tokens, scan options source = (tokens, none) ∧ Parser.program options tokens = .ok tree := by
  simp only [ofSource, tokensOf, bind_eq_ok, mapError_eq_ok, tokenize_eq_ok]

/-- The tree of a source is written. -/
theorem Node.programWritten_of_ofSource {source : String} {tree : Node}
    (h : ofSource {} source = .ok tree) : tree.ProgramWritten := by
  obtain ⟨tokens, hscan, hprogram⟩ := ofSource_eq_ok.mp h
  have hsound := Lexer.sound_of_tokensFrom hscan
  exact (Parser.derives_of_program hprogram).written (by simpa using hsound)

end TemplateExpr
