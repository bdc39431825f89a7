import TemplateExpr.Proofs.Grammar.Derivation

/-!
# Shorthand entries

An entry of an object literal may be a name alone. Where such an entry stands is seen from the lexemes:
the innermost open bracket is a brace, and the name stands between the brace or a comma and the next
comma or the closing brace. Giving the name a value there leaves a phrase a phrase, and its tree stays
the same exactly if the value is the name as an identifier.

The proof follows a derivation down to the entry. What has to be known of the lexemes before a phrase is
only that an expression, unlike an entry, does not begin where an entry may begin.
-/

namespace TemplateExpr

/-- The open brackets after a lexeme, the innermost one first. -/
def Lexeme.nest (brackets : List Symbol) : Lexeme → List Symbol
  | .symbol .openParen => .openParen :: brackets
  | .symbol .openBracket => .openBracket :: brackets
  | .symbol .openBrace => .openBrace :: brackets
  | .symbol .closeParen | .symbol .closeBracket | .symbol .closeBrace => brackets.tail
  | _ => brackets

/-- The open brackets after lexemes. -/
def openAfter (lexemes : List Lexeme) : List Symbol := lexemes.foldl Lexeme.nest []

/-- An entry of an object literal may begin after the lexemes. -/
structure AwaitsEntry (lexemes : List Lexeme) : Prop where
  brace : (openAfter lexemes).head? = some .openBrace
  last : lexemes.getLast? = some (.symbol .openBrace) ∨ lexemes.getLast? = some (.symbol .comma)

/-- A name between the lexemes is an entry of an object literal. -/
structure IsShorthand (before after : List Lexeme) : Prop where
  awaits : AwaitsEntry before
  next : after.head? = some (.symbol .comma) ∨ after.head? = some (.symbol .closeBrace)

namespace Derives

variable {options : Options}

/-- A phrase closes the brackets that it opens. -/
theorem foldl_nest {category : Category} {ls : List Lexeme} {tree : category.Tree}
    (h : Derives options category ls tree) (brackets : List Symbol) :
    ls.foldl Lexeme.nest brackets = brackets := by
  have hunary (operator : UnaryOperator) (brackets : List Symbol) :
      Lexeme.nest brackets (.symbol operator.symbol) = brackets := by
    cases operator <;> rfl
  have hbinary {level : Level} {sign : Symbol} {join : Node → Node → Node}
      (hjoins : level.Joins sign join) (brackets : List Symbol) :
      Lexeme.nest brackets (.symbol sign) = brackets := by
    cases hjoins <;> rfl
  induction h generalizing brackets
  case join hjoins _ _ _ hleft hright =>
    rw [List.foldl_append, List.foldl_cons, hleft, hbinary hjoins, hright]
  all_goals simp_all [List.foldl_append, Lexeme.nest]

end Derives

/-! ## Places before a phrase -/

/-- A phrase and a symbol that is no bracket make no difference to what is open. -/
theorem openAfter_separated {options : Options} {category : Category} {ls : List Lexeme}
    {tree : category.Tree} (h : Derives options category ls tree) {sign : Symbol}
    (hsign : ∀ brackets, Lexeme.nest brackets (.symbol sign) = brackets) (left : List Lexeme) :
    openAfter (left ++ (ls ++ [.symbol sign])) = openAfter left := by
  simp only [openAfter, List.foldl_append, List.foldl_cons, List.foldl_nil, h.foldl_nest, hsign]

/-- No entry begins after a symbol other than a brace or a comma. -/
theorem not_awaitsEntry {sign : Symbol} (hbrace : sign ≠ .openBrace) (hcomma : sign ≠ .comma)
    (left ls : List Lexeme) : ¬AwaitsEntry (left ++ (ls ++ [.symbol sign])) := by
  rintro ⟨-, hlast⟩
  rw [← List.append_assoc, List.getLast?_concat] at hlast
  simp [hbrace, hcomma] at hlast

/-- Lexemes before a phrase are such that no entry begins where an expression of the phrase does. -/
def Category.Allows : Category → List Lexeme → Prop
  | .expression _, left => ¬AwaitsEntry left
  | .arguments, left | .someArguments, left | .elements, left | .statements, left
  | .program, left => (openAfter left).head? ≠ some .openBrace
  | .filterArguments, _ | .property, _ | .properties, _ => True

/-- Whether a tree of the category can stand on the left of an assignment. -/
def Category.isTarget : (category : Category) → category.Tree → Bool
  | .expression _, node => node.isAssignable
  | _, _ => false

/-- Giving a value to the name between the lexemes leaves a phrase of the category, and the tree stays
the same exactly if the value is the name as an identifier. -/
def Expands (options : Options) (name : String) (category : Category) (before after : List Lexeme)
    (tree : category.Tree) : Prop :=
  ∀ vs value, Derives options (.expression .assignment) vs value →
    ∃ tree', Derives options category
        (before ++ .identifier name :: .symbol .colon :: (vs ++ after)) tree' ∧
      (tree' = tree ↔ value = .identifier name) ∧ category.isTarget tree' = category.isTarget tree

/-- A phrase can be expanded at each shorthand entry in it. -/
def Expandable (options : Options) (name : String) (category : Category) (ls : List Lexeme)
    (tree : category.Tree) : Prop :=
  ∀ left before after, category.Allows left → ls = before ++ .identifier name :: after →
    AwaitsEntry (left ++ before) → after.head? ≠ some (.symbol .colon) →
    Expands options name category before after tree

/-- A lexeme among two lists is in one of them. -/
theorem append_eq_append_cons {ls rs before after : List Lexeme} {word : Lexeme}
    (h : ls ++ rs = before ++ word :: after) :
    (∃ more, ls = before ++ word :: more ∧ after = more ++ rs) ∨
      ∃ more, before = ls ++ more ∧ rs = more ++ word :: after := by
  rcases List.append_eq_append_iff.mp h with ⟨more, hbefore, hrest⟩ | ⟨more, hls, hrest⟩
  · exact .inr ⟨more, hbefore, hrest⟩
  · rcases more with _ | ⟨first, more⟩
    · exact .inr ⟨[], by simpa using hls.symm, by simpa using hrest.symm⟩
    · cases hrest
      exact .inl ⟨more, hls, rfl⟩

/-- A name is not a symbol. -/
theorem symbol_cons_eq_append_cons {sign : Symbol} {ls before after : List Lexeme} {name : String}
    (h : .symbol sign :: ls = before ++ .identifier name :: after) :
    ∃ more, before = .symbol sign :: more ∧ ls = more ++ .identifier name :: after := by
  rcases before with _ | ⟨first, more⟩
  · cases h
  · cases h
    exact ⟨more, rfl, rfl⟩

namespace Expandable

variable {options : Options} {name : String}

/-- An entry inside of a phrase is one inside of the phrase around it. -/
theorem within {inner : Category} {ls left before after before' after' : List Lexeme}
    {tree : inner.Tree} (outer : Category) (h : Expandable options name inner ls tree)
    (front back : List Lexeme) (wrap : inner.Tree → outer.Tree) (hallows : inner.Allows (left ++ front))
    (hls : ls = before ++ .identifier name :: after) (hbefore : before' = front ++ before)
    (hafter : after' = after ++ back) (hawaits : AwaitsEntry (left ++ before'))
    (hcolon : after'.head? ≠ some (.symbol .colon))
    (hinjective : ∀ tree', wrap tree' = wrap tree ↔ tree' = tree)
    (hwrap : ∀ ls tree', Derives options inner ls tree' →
      inner.isTarget tree' = inner.isTarget tree →
      Derives options outer (front ++ (ls ++ back)) (wrap tree') ∧
        outer.isTarget (wrap tree') = outer.isTarget (wrap tree)) :
    Expands options name outer before' after' (wrap tree) := by
  subst hbefore hafter
  have hhead : after.head? ≠ some (.symbol .colon) := by
    intro hhead
    rw [List.head?_append, hhead, Option.some_or] at hcolon
    exact hcolon rfl
  have hinner := h (left ++ front) before after hallows hls (by rwa [List.append_assoc]) hhead
  intro vs value hvalue
  obtain ⟨tree', hderives, hsame, htarget⟩ := hinner vs value hvalue
  obtain ⟨houter, htarget'⟩ := hwrap _ tree' hderives htarget
  refine ⟨wrap tree', ?_, (hinjective tree').trans hsame, htarget'⟩
  simpa only [List.append_assoc, List.cons_append] using houter

/-- An entry in a phrase that is nothing but another phrase is one in the other phrase. -/
theorem whole {inner : Category} {ls : List Lexeme} {tree : inner.Tree} (outer : Category)
    (h : Expandable options name inner ls tree) (wrap : inner.Tree → outer.Tree)
    (hallows : ∀ left, outer.Allows left → inner.Allows left)
    (hinjective : ∀ tree', wrap tree' = wrap tree ↔ tree' = tree)
    (hwrap : ∀ ls tree', Derives options inner ls tree' →
      inner.isTarget tree' = inner.isTarget tree →
      Derives options outer ls (wrap tree') ∧
        outer.isTarget (wrap tree') = outer.isTarget (wrap tree)) :
    Expandable options name outer ls (wrap tree) := by
  intro left before after houter hls hawaits hcolon
  refine h.within outer [] [] wrap (by simpa using hallows left houter) hls rfl (by simp) hawaits hcolon
    hinjective fun ls tree' hderives htarget => ?_
  simpa using hwrap ls tree' hderives htarget

/-- An entry in a phrase after a symbol is one in the rest. -/
theorem leading {inner : Category} {ls : List Lexeme} {tree : inner.Tree} (outer : Category)
    (sign : Symbol) (h : Expandable options name inner ls tree) (wrap : inner.Tree → outer.Tree)
    (hallows : ∀ left, outer.Allows left → inner.Allows (left ++ [.symbol sign]))
    (hinjective : ∀ tree', wrap tree' = wrap tree ↔ tree' = tree)
    (hwrap : ∀ ls tree', Derives options inner ls tree' →
      Derives options outer (.symbol sign :: ls) (wrap tree') ∧
        outer.isTarget (wrap tree') = outer.isTarget (wrap tree)) :
    Expandable options name outer (.symbol sign :: ls) (wrap tree) := by
  intro left before after houter hsplit hawaits hcolon
  obtain ⟨more, hbefore, hls⟩ := symbol_cons_eq_append_cons hsplit
  refine h.within outer [.symbol sign] [] wrap (hallows left houter) hls hbefore (by simp) hawaits hcolon
    hinjective fun ls tree' hderives _ => ?_
  simpa using hwrap ls tree' hderives

/-- An entry in brackets is one in what stands between them. -/
theorem enclosed {inner : Category} {ls : List Lexeme} {tree : inner.Tree} (outer : Category)
    (opening closing : Symbol) (h : Expandable options name inner ls tree)
    (wrap : inner.Tree → outer.Tree) (hallows : ∀ left, inner.Allows (left ++ [.symbol opening]))
    (hinjective : ∀ tree', wrap tree' = wrap tree ↔ tree' = tree)
    (hwrap : ∀ ls tree', Derives options inner ls tree' →
      inner.isTarget tree' = inner.isTarget tree →
      Derives options outer (.symbol opening :: (ls ++ [.symbol closing])) (wrap tree') ∧
        outer.isTarget (wrap tree') = outer.isTarget (wrap tree)) :
    Expandable options name outer (.symbol opening :: (ls ++ [.symbol closing])) (wrap tree) := by
  intro left before after _ hsplit hawaits hcolon
  obtain ⟨more, hbefore, hrest⟩ := symbol_cons_eq_append_cons hsplit
  rcases append_eq_append_cons hrest with ⟨rest, hls, hafter⟩ | ⟨rest, -, hclosing⟩
  · exact h.within outer [.symbol opening] _ wrap (hallows left) hls hbefore hafter hawaits hcolon
      hinjective hwrap
  · obtain ⟨rest, -, hnone⟩ := symbol_cons_eq_append_cons hclosing
    simp at hnone

/-- An entry in two phrases with a symbol between them is one in the first or in the second. -/
theorem joined {first second : Category} {ls rs : List Lexeme} {left : first.Tree}
    {right : second.Tree} (outer : Category) (sign : Symbol)
    (hleft : Expandable options name first ls left) (hright : Expandable options name second rs right)
    (wrap : first.Tree → second.Tree → outer.Tree)
    (hallows : ∀ context, outer.Allows context → first.Allows context ∧
      second.Allows (context ++ (ls ++ [.symbol sign])))
    (hinjective : (∀ left', wrap left' right = wrap left right ↔ left' = left) ∧
      ∀ right', wrap left right' = wrap left right ↔ right' = right)
    (hwrapLeft : ∀ ls left', Derives options first ls left' →
      first.isTarget left' = first.isTarget left →
      Derives options outer (ls ++ .symbol sign :: rs) (wrap left' right) ∧
        outer.isTarget (wrap left' right) = outer.isTarget (wrap left right))
    (hwrapRight : ∀ rs right', Derives options second rs right' →
      Derives options outer (ls ++ .symbol sign :: rs) (wrap left right') ∧
        outer.isTarget (wrap left right') = outer.isTarget (wrap left right)) :
    Expandable options name outer (ls ++ .symbol sign :: rs) (wrap left right) := by
  intro context before after houter hsplit hawaits hcolon
  obtain ⟨hfirst, hsecond⟩ := hallows context houter
  rcases append_eq_append_cons hsplit with ⟨more, hls, hafter⟩ | ⟨more, hbefore, hrest⟩
  · exact hleft.within outer [] _ (wrap · right) (by rwa [List.append_nil]) hls rfl hafter hawaits hcolon
      hinjective.1 hwrapLeft
  · obtain ⟨more, rfl, hrs⟩ := symbol_cons_eq_append_cons hrest
    refine hright.within outer (ls ++ [.symbol sign]) [] (wrap left) hsecond hrs (by simp [hbefore])
      (by simp) hawaits hcolon hinjective.2 fun rs right' hderives _ => ?_
    simpa using hwrapRight rs right' hderives

/-- An entry in a phrase with brackets after it is one in the phrase or between the brackets. -/
theorem suffixed {first second : Category} {ls rs : List Lexeme} {left : first.Tree}
    {right : second.Tree} (outer : Category) (opening closing : Symbol)
    (hleft : Expandable options name first ls left) (hright : Expandable options name second rs right)
    (wrap : first.Tree → second.Tree → outer.Tree)
    (hallows : ∀ context, outer.Allows context → first.Allows context ∧
      second.Allows (context ++ (ls ++ [.symbol opening])))
    (hinjective : (∀ left', wrap left' right = wrap left right ↔ left' = left) ∧
      ∀ right', wrap left right' = wrap left right ↔ right' = right)
    (hwrapLeft : ∀ ls left', Derives options first ls left' →
      Derives options outer (ls ++ .symbol opening :: (rs ++ [.symbol closing])) (wrap left' right) ∧
        outer.isTarget (wrap left' right) = outer.isTarget (wrap left right))
    (hwrapRight : ∀ rs right', Derives options second rs right' →
      Derives options outer (ls ++ .symbol opening :: (rs ++ [.symbol closing])) (wrap left right') ∧
        outer.isTarget (wrap left right') = outer.isTarget (wrap left right)) :
    Expandable options name outer (ls ++ .symbol opening :: (rs ++ [.symbol closing]))
      (wrap left right) := by
  intro context before after houter hsplit hawaits hcolon
  obtain ⟨hfirst, hsecond⟩ := hallows context houter
  rcases append_eq_append_cons hsplit with ⟨more, hls, hafter⟩ | ⟨more, hbefore, hrest⟩
  · exact hleft.within outer [] _ (wrap · right) (by rwa [List.append_nil]) hls rfl hafter hawaits hcolon
      hinjective.1 fun ls left' hderives _ => hwrapLeft ls left' hderives
  · obtain ⟨more, rfl, hinside⟩ := symbol_cons_eq_append_cons hrest
    rcases append_eq_append_cons hinside with ⟨rest, hrs, hafter⟩ | ⟨rest, -, hclosing⟩
    · refine hright.within outer (ls ++ [.symbol opening]) _ (wrap left) hsecond hrs
        (by simp [hbefore]) hafter hawaits hcolon hinjective.2 fun rs right' hderives _ => ?_
      simpa using hwrapRight rs right' hderives
    · obtain ⟨rest, -, hnone⟩ := symbol_cons_eq_append_cons hclosing
      simp at hnone

/-! ## Phrases with an entry in one of several parts -/

/-- An entry in a filter is one in its input or in its arguments. -/
theorem filter {ls as : List Lexeme} {input : Node} {filterName : String} {arguments : List Node}
    (hinput : Derives options (.expression .filter) ls input)
    (harguments : Derives options .filterArguments as arguments)
    (ihInput : Expandable options name (.expression .filter) ls input)
    (ihArguments : Expandable options name .filterArguments as arguments) :
    Expandable options name (.expression .filter)
      (ls ++ .symbol .pipe :: .identifier filterName :: as)
      (.filter (.identifier filterName) (input :: arguments)) := by
  intro left before after hallows hsplit hawaits hcolon
  rcases append_eq_append_cons hsplit with ⟨more, hls, hafter⟩ | ⟨more, hbefore, hrest⟩
  · exact ihInput.within (.expression .filter) [] _
      (fun node => Node.filter (.identifier filterName) (node :: arguments))
      (by rwa [List.append_nil]) hls rfl hafter hawaits hcolon (by simp)
      fun _ _ hnode _ => ⟨.filter hnode harguments, rfl⟩
  · obtain ⟨more, rfl, hrest⟩ := symbol_cons_eq_append_cons hrest
    rcases more with _ | ⟨word, more⟩
    · -- The name of a filter is no entry.
      subst hbefore
      exact absurd hawaits (not_awaitsEntry (by decide) (by decide) left ls)
    · cases hrest
      refine ihArguments.within (.expression .filter) (ls ++ [.symbol .pipe, .identifier filterName]) []
        (fun arguments => Node.filter (.identifier filterName) (input :: arguments)) trivial rfl
        (by simp [hbefore]) (by simp) hawaits hcolon (by simp) fun _ _ hnodes _ => ⟨?_, rfl⟩
      simpa using Derives.filter hinput hnodes

/-- An entry in a conditional is one in its test or in one of its branches. -/
theorem conditional {ts as cs : List Lexeme} {test alternate consequent : Node}
    (htest : Derives options (.expression .or) ts test)
    (halternate : Derives options (.expression .assignment) as alternate)
    (hconsequent : Derives options (.expression .assignment) cs consequent)
    (ihTest : Expandable options name (.expression .or) ts test)
    (ihAlternate : Expandable options name (.expression .assignment) as alternate)
    (ihConsequent : Expandable options name (.expression .assignment) cs consequent) :
    Expandable options name (.expression .conditional)
      (ts ++ .symbol .question :: (as ++ .symbol .colon :: cs))
      (.conditional test alternate consequent) := by
  intro left before after hallows hsplit hawaits hcolon
  rcases append_eq_append_cons hsplit with ⟨more, hls, hafter⟩ | ⟨more, hbefore, hrest⟩
  · exact ihTest.within (.expression .conditional) [] _
      (fun node => Node.conditional node alternate consequent) (by rwa [List.append_nil]) hls rfl hafter
      hawaits hcolon (by simp) fun _ _ hnode _ => ⟨.conditional hnode halternate hconsequent, rfl⟩
  · obtain ⟨more, rfl, hchoice⟩ := symbol_cons_eq_append_cons hrest
    rcases append_eq_append_cons hchoice with ⟨more, hls, hafter⟩ | ⟨more, rfl, hlast⟩
    · have hquestion := not_awaitsEntry (by decide : Symbol.question ≠ .openBrace) (by decide) left ts
      refine ihAlternate.within (.expression .conditional) (ts ++ [Lexeme.symbol .question]) _
        (fun node => Node.conditional test node consequent) hquestion hls (by simp [hbefore]) hafter
        hawaits hcolon (by simp) fun _ _ hnode _ => ⟨?_, rfl⟩
      simpa using Derives.conditional htest hnode hconsequent
    · obtain ⟨more, rfl, hcs⟩ := symbol_cons_eq_append_cons hlast
      have hcolon' := not_awaitsEntry (by decide : Symbol.colon ≠ .openBrace) (by decide) left
        (ts ++ .symbol .question :: as)
      refine ihConsequent.within (.expression .conditional)
        (ts ++ .symbol .question :: as ++ [Lexeme.symbol .colon]) []
        (fun node => Node.conditional test alternate node) hcolon' hcs (by simp [hbefore]) (by simp)
        hawaits hcolon (by simp) fun _ _ hnode _ => ⟨?_, rfl⟩
      simpa using Derives.conditional htest halternate hnode

/-- A name that is an expression is no entry. -/
theorem identifier (level : Level) (word : String) (node : Node) :
    Expandable options name (.expression level) [.identifier word] node := by
  intro left before after hallows hsplit hawaits _
  -- The only place for a name is before all lexemes of the phrase.
  rcases before with _ | ⟨first, before⟩
  · rw [List.append_nil] at hawaits
    exact absurd hawaits hallows
  · simp at hsplit

/-- An entry in a member is one in its holder. -/
theorem namedMember {ls : List Lexeme} {holder : Node} (word : String)
    (ih : Expandable options name (.expression .chain) ls holder) :
    Expandable options name (.expression .chain) (ls ++ [.symbol .dot, .identifier word])
      (.member holder (.identifier word) false) := by
  intro left before after hallows hsplit hawaits hcolon
  rcases append_eq_append_cons hsplit with ⟨more, hls, hafter⟩ | ⟨more, hbefore, hrest⟩
  · exact ih.within (.expression .chain) [] _ (fun node => Node.member node (.identifier word) false)
      (by rwa [List.append_nil]) hls rfl hafter hawaits hcolon (by simp)
      fun _ _ hnode _ => ⟨.namedMember word hnode, rfl⟩
  · obtain ⟨more, rfl, hrest⟩ := symbol_cons_eq_append_cons hrest
    rcases more with _ | ⟨first, more⟩
    · subst hbefore
      exact absurd hawaits (not_awaitsEntry (by decide) (by decide) left ls)
    · simp at hrest

/-- An entry in the arguments of a filter is one in the first argument or in the others. -/
theorem filterArgument {as rest : List Lexeme} {argument : Node} {arguments : List Node}
    (hargument : Derives options (.expression .assignment) as argument)
    (harguments : Derives options .filterArguments rest arguments)
    (ihArgument : Expandable options name (.expression .assignment) as argument)
    (ihArguments : Expandable options name .filterArguments rest arguments) :
    Expandable options name .filterArguments (.symbol .colon :: (as ++ rest))
      (argument :: arguments) := by
  intro left before after hallows hsplit hawaits hcolon
  obtain ⟨more, hbefore, hsplit⟩ := symbol_cons_eq_append_cons hsplit
  rcases append_eq_append_cons hsplit with ⟨rest', hls, hafter⟩ | ⟨rest', rfl, hrest⟩
  · refine ihArgument.within .filterArguments [.symbol .colon] rest (· :: arguments)
      (not_awaitsEntry (by decide) (by decide) left []) hls hbefore hafter hawaits hcolon (by simp)
      fun _ _ hnode _ => ⟨?_, rfl⟩
    simpa using Derives.filterArgument hnode harguments
  · refine ihArguments.within .filterArguments (.symbol .colon :: as) [] (argument :: ·) trivial hrest
      (by simp [hbefore]) (by simp) hawaits hcolon (by simp) fun _ _ hnodes _ => ⟨?_, rfl⟩
    simpa using Derives.filterArgument hargument hnodes

/-- An entry in a property with a key of one lexeme is one in the value: what has a colon after it is no
entry. -/
theorem keyed {vs : List Lexeme} {value : Node} {word : Lexeme} (key : Node)
    (ih : Expandable options name (.expression .assignment) vs value)
    (hderives : ∀ vs value, Derives options (.expression .assignment) vs value →
      Derives options .property (word :: .symbol .colon :: vs) (.entry key value false)) :
    Expandable options name .property (word :: .symbol .colon :: vs) (.entry key value false) := by
  intro left before after hallows hsplit hawaits hcolon
  rcases before with _ | ⟨first, before⟩
  · obtain ⟨-, rfl⟩ := List.cons.inj hsplit
    exact absurd rfl hcolon
  · obtain ⟨rfl, htail⟩ := List.cons.inj hsplit
    obtain ⟨more, rfl, hls⟩ := symbol_cons_eq_append_cons htail
    refine ih.within .property [word, .symbol .colon] []
      (fun value => Property.entry key value false)
      (not_awaitsEntry (by decide) (by decide) left [_]) hls rfl (by simp) hawaits hcolon (by simp)
      fun _ _ hnode _ => ⟨?_, rfl⟩
    simpa using hderives _ _ hnode

/-- A name that is a property is the entry itself: with a value it is a property with a key. -/
theorem shorthand (key : String) :
    Expandable options name .property [.identifier key]
      (.entry (.identifier key) (.identifier key) false) := by
  intro left before after _ hsplit _ _ vs value hvalue
  rcases before with _ | ⟨first, before⟩
  · -- This is the entry; with a value it is a named one.
    cases hsplit
    refine ⟨.entry (.identifier name) value false, ?_, by simp, rfl⟩
    simpa using Derives.namedKey name hvalue
  · simp at hsplit

/-- An entry in a property with a computed key is one in the key or in the value. -/
theorem computedKey {ks vs : List Lexeme} {key value : Node}
    (hkey : Derives options (.expression .assignment) ks key)
    (hvalue : Derives options (.expression .assignment) vs value)
    (ihKey : Expandable options name (.expression .assignment) ks key)
    (ihValue : Expandable options name (.expression .assignment) vs value) :
    Expandable options name .property
      (.symbol .openBracket :: (ks ++ .symbol .closeBracket :: .symbol .colon :: vs))
      (.entry key value true) := by
  intro left before after hallows hsplit hawaits hcolon
  obtain ⟨more, hbefore, hsplit⟩ := symbol_cons_eq_append_cons hsplit
  rcases append_eq_append_cons hsplit with ⟨rest, hls, hafter⟩ | ⟨rest, rfl, hrest⟩
  · exact ihKey.within .property [.symbol .openBracket] (.symbol .closeBracket :: .symbol .colon :: vs)
      (fun key => Property.entry key value true) (not_awaitsEntry (by decide) (by decide) left []) hls
      hbefore hafter hawaits hcolon (by simp) fun _ _ hnode _ => ⟨.computedKey hnode hvalue, rfl⟩
  · obtain ⟨more, rfl, hclosed⟩ := symbol_cons_eq_append_cons hrest
    obtain ⟨more, rfl, hls⟩ := symbol_cons_eq_append_cons hclosed
    have hcolon' := not_awaitsEntry (by decide : Symbol.colon ≠ .openBrace) (by decide) left
      (.symbol .openBracket :: ks ++ [.symbol .closeBracket])
    refine ihValue.within .property
      (.symbol .openBracket :: ks ++ [Lexeme.symbol .closeBracket] ++ [Lexeme.symbol .colon]) []
      (fun value => Property.entry key value true) hcolon' hls (by simp [hbefore]) (by simp) hawaits
      hcolon (by simp) fun _ _ hnode _ => ⟨?_, rfl⟩
    simpa using Derives.computedKey hkey hnode

end Expandable

namespace Derives

variable {options : Options}

/-- Every phrase can be expanded at the shorthand entries in it. -/
theorem expandable {category : Category} {ls : List Lexeme} {tree : category.Tree}
    (h : Derives options category ls tree) (name : String) :
    Expandable options name category ls tree := by
  induction h with
  | @tighter level _ _ _ hlevel _ ih =>
    exact ih.whole (.expression level) id (fun _ h => h) (by simp)
      fun _ _ hnode htarget => ⟨.tighter hlevel hnode, htarget⟩
  | filter hinput harguments ihInput ihArguments => exact .filter hinput harguments ihInput ihArguments
  | @assignment ls rs target value htarget hassignable hvalue ihTarget ihValue =>
    exact ihTarget.joined (.expression .assignment) .assign ihValue Node.assignment
      (fun _ h => ⟨h, not_awaitsEntry (by decide) (by decide) _ _⟩) (by simp)
      (fun _ _ hnode hsame => ⟨.assignment hnode (hsame.trans hassignable) hvalue, rfl⟩)
      fun _ _ hnode => ⟨.assignment htarget hassignable hnode, rfl⟩
  | conditional htest halternate hconsequent ihTest ihAlternate ihConsequent =>
    exact .conditional htest halternate hconsequent ihTest ihAlternate ihConsequent
  | @join level _ sign join _ _ _ _ hjoins hlevel hleft hright ihLeft ihRight =>
    have hsign : sign ≠ .openBrace ∧ sign ≠ .comma := by cases hjoins <;> decide
    refine ihLeft.joined (.expression level) sign ihRight join
      (fun _ h => ⟨h, not_awaitsEntry hsign.1 hsign.2 _ _⟩) ?_
      (fun _ _ hnode _ => ⟨.join hjoins hlevel hnode hright, ?_⟩)
      fun _ _ hnode => ⟨.join hjoins hlevel hleft hnode, ?_⟩
    all_goals cases hjoins <;> simp [Category.isTarget, Node.isAssignable]
  | @unary ls argument operator hargument ih =>
    have hsign : operator.symbol ≠ .openBrace ∧ operator.symbol ≠ .comma := by
      cases operator <;> decide
    exact ih.leading (.expression .unary) operator.symbol (Node.unary operator true)
      (fun left _ => not_awaitsEntry hsign.1 hsign.2 left []) (by simp)
      fun _ _ hnode => ⟨.unary operator hnode, rfl⟩
  | @group ls node hnode ih =>
    exact ih.enclosed (.expression .chain) .openParen .closeParen id
      (not_awaitsEntry (by decide) (by decide) · []) (by simp)
      fun _ _ hnode htarget => ⟨.group hnode, htarget⟩
  | @array ls elements helements ih =>
    exact ih.enclosed (.expression .chain) .openBracket .closeBracket Node.array
      (by simp [Category.Allows, openAfter, Lexeme.nest]) (by simp) fun _ _ h _ => ⟨.array h, rfl⟩
  | @object ls properties hproperties ih =>
    exact ih.enclosed (.expression .chain) .openBrace .closeBrace Node.object (fun _ => trivial)
      (by simp) fun _ _ h _ => ⟨.object h, rfl⟩
  | @name word _ _ => exact .identifier .chain word _
  | constant =>
    intro left before after _ hsplit _ _
    rcases before with _ | ⟨first, before⟩ <;> simp at hsplit
  | @call ls as callee arguments hcallee harguments ihCallee ihArguments =>
    exact ihCallee.suffixed (.expression .chain) .openParen .closeParen ihArguments Node.call
      (fun _ h => ⟨h, by simp [Category.Allows, openAfter, Lexeme.nest]⟩) (by simp)
      (fun _ _ hnode => ⟨.call hnode harguments, rfl⟩) fun _ _ hnodes => ⟨.call hcallee hnodes, rfl⟩
  | @computedMember ls ps holder property hholder hproperty ihHolder ihProperty =>
    exact ihHolder.suffixed (.expression .chain) .openBracket .closeBracket ihProperty
      (Node.member · · true) (fun _ h => ⟨h, not_awaitsEntry (by decide) (by decide) _ _⟩) (by simp)
      (fun _ _ hnode => ⟨.computedMember hnode hproperty, rfl⟩)
      fun _ _ hnode => ⟨.computedMember hholder hnode, rfl⟩
  | namedMember word _ ih => exact ih.namedMember word
  | noFilterArguments | noArguments | noElements | noProperties | noStatements =>
    intro left before after _ hsplit _ _
    simp at hsplit
  | filterArgument hargument harguments ihArgument ihArguments =>
    exact .filterArgument hargument harguments ihArgument ihArguments
  | arguments _ ih =>
    exact ih.whole .arguments id (fun _ h => h) (by simp) fun _ _ h _ => ⟨.arguments h, rfl⟩
  | lastArgument _ ih =>
    exact ih.whole .someArguments (fun node => [node]) (fun _ h hawaits => h hawaits.brace) (by simp)
      fun _ _ h _ => ⟨.lastArgument h, rfl⟩
  | @nextArgument as rest argument arguments hargument harguments ihArgument ihArguments =>
    exact ihArgument.joined .someArguments .comma ihArguments List.cons
      (fun context h => ⟨fun hawaits => h hawaits.brace,
        by rwa [Category.Allows, openAfter_separated hargument fun _ => rfl]⟩) (by simp)
      (fun _ _ hnode _ => ⟨.nextArgument hnode harguments, rfl⟩)
      fun _ _ hnodes => ⟨.nextArgument hargument hnodes, rfl⟩
  | lastElement _ ih =>
    exact ih.whole .elements (fun node => [node]) (fun _ h hawaits => h hawaits.brace) (by simp)
      fun _ _ h _ => ⟨.lastElement h, rfl⟩
  | @nextElement es rest element elements helement helements ihElement ihElements =>
    exact ihElement.joined .elements .comma ihElements List.cons
      (fun context h => ⟨fun hawaits => h hawaits.brace,
        by rwa [Category.Allows, openAfter_separated helement fun _ => rfl]⟩) (by simp)
      (fun _ _ hnode _ => ⟨.nextElement hnode helements, rfl⟩)
      fun _ _ hnodes => ⟨.nextElement helement hnodes, rfl⟩
  | lastProperty _ ih =>
    exact ih.whole .properties (fun property => [property]) (fun _ _ => trivial) (by simp)
      fun _ _ h _ => ⟨.lastProperty h, rfl⟩
  | @nextProperty ps rest property properties hproperty hproperties ihProperty ihProperties =>
    exact ihProperty.joined .properties .comma ihProperties List.cons (fun _ _ => ⟨trivial, trivial⟩)
      (by simp) (fun _ _ hnode _ => ⟨.nextProperty hnode hproperties, rfl⟩)
      fun _ _ hnodes => ⟨.nextProperty hproperty hnodes, rfl⟩
  | constantKey spelling key _ ih => exact ih.keyed _ fun _ _ hvalue => .constantKey spelling key hvalue
  | namedKey key _ ih => exact ih.keyed _ fun _ _ hvalue => .namedKey key hvalue
  | shorthand key => exact .shorthand key
  | computedKey hkey hvalue ihKey ihValue => exact .computedKey hkey hvalue ihKey ihValue
  | lastStatement _ ih =>
    exact ih.whole .statements (fun node => [.statement node]) (fun _ h hawaits => h hawaits.brace)
      (by simp) fun _ _ h _ => ⟨.lastStatement h, rfl⟩
  | @emptyStatement rest body hbody ih =>
    exact ih.leading .statements .semicolon id
      (fun left h => by simpa [Category.Allows, openAfter, Lexeme.nest] using h) (by simp)
      fun _ _ h => ⟨.emptyStatement h, rfl⟩
  | @nextStatement ls rest node body hnode hbody ihNode ihBody =>
    exact ihNode.joined .statements .semicolon ihBody (fun node body => Node.statement node :: body)
      (fun context h => ⟨fun hawaits => h hawaits.brace,
        by rwa [Category.Allows, openAfter_separated hnode fun _ => rfl]⟩) (by simp)
      (fun _ _ h _ => ⟨.nextStatement h hbody, rfl⟩) fun _ _ h => ⟨.nextStatement hnode h, rfl⟩
  | program _ ih =>
    exact ih.whole .program Node.program (fun _ h => h) (by simp) fun _ _ h _ => ⟨.program h, rfl⟩

/-- A program can be expanded at each of its shorthand entries. -/
theorem program_expands {before after : List Lexeme} {name : String} {tree : Node}
    (h : Derives options .program (before ++ .identifier name :: after) tree)
    (hshorthand : IsShorthand before after) :
    Expands options name .program before after tree := by
  refine h.expandable name [] before after nofun rfl hshorthand.awaits fun hcolon => ?_
  rcases hshorthand.next with hnext | hnext <;> simp [hnext] at hcolon

end Derives

end TemplateExpr
