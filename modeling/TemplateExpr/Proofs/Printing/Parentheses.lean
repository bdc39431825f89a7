import TemplateExpr.Proofs.Printing.RoundTrip
import TemplateExpr.Proofs.Printing.Succession

/-!
# No parenthesis of a printed source can be left out

A tree is printed with as few parentheses as any source of it has. If a group is opened up, the lexemes
have one opening parenthesis less than every phrase that denotes the tree. The text is read back as these
lexemes, unless a point is now taken for a part of a number. But then a point is missing, and as the
points of a source are the member accesses of its tree, the text denotes another tree as well.
-/

namespace TemplateExpr

open Piece

/-- How many opening parentheses are among the lexemes. -/
def openings (ls : List Lexeme) : Nat := ls.count (.symbol .openParen)

@[simp] theorem openings_nil : openings [] = 0 := rfl

@[simp] theorem openings_cons (word : Lexeme) (rest : List Lexeme) :
    openings (word :: rest) = openings rest + if word = .symbol .openParen then 1 else 0 := by
  simp [openings, List.count_cons]

@[simp] theorem openings_append (front rest : List Lexeme) :
    openings (front ++ rest) = openings front + openings rest := by
  simp [openings]

/-- Where a group is opened up there is one opening parenthesis less. -/
theorem openings_group (front inner back : List Piece) :
    openings (lexemes (front ++ .groupStart :: (inner ++ .groupEnd :: back))) =
      openings (lexemes (front ++ inner ++ back)) + 1 := by
  simp only [lexemes_append, lexemes_groupStart, lexemes_groupEnd, openings_append, openings_cons,
    Lexeme.symbol.injEq, reduceCtorEq, if_true, if_false]
  omega

/-- A separator without parentheses adds none. -/
theorem openings_separated {separator : List Piece} (h : openings (lexemes separator) = 0)
    (lists : List (List Piece)) :
    openings (lexemes (separated separator lists)) = openings (lexemes lists.flatten) := by
  induction lists with
  | nil => rfl
  | cons first rest ih =>
    cases rest with
    | nil => simp [separated]
    | cons second rest =>
      rw [List.flatten_cons, lexemes_append, openings_append, ← ih]
      simp [lexemes_separated_cons, h]

namespace Node

/-- The opening parentheses of a tree in a place that admits the given level. -/
def fittedOpenings (least : Level) (node : Node) : Nat :=
  openings (lexemes (fitted least node node.pieces))

/-- A tree has a parenthesis more in a place that does not admit it. -/
theorem fittedOpenings_eq (least : Level) (node : Node) :
    node.fittedOpenings least =
      openings (lexemes node.pieces) + if node.level.rank < least.rank then 1 else 0 := by
  unfold fittedOpenings fitted
  split <;> simp

/-- A tree that a place admits has no parentheses of its own. -/
theorem fittedOpenings_of_le {least : Level} {node : Node} (h : least.rank ≤ node.level.rank) :
    node.fittedOpenings least = openings (lexemes node.pieces) := by
  rw [fittedOpenings_eq, if_neg (Nat.not_lt_of_le h), Nat.add_zero]

/-- A place that admits more needs no more parentheses. -/
theorem fittedOpenings_mono {least least' : Level} (h : least.rank ≤ least'.rank) (node : Node) :
    node.fittedOpenings least ≤ node.fittedOpenings least' := by
  rw [fittedOpenings_eq, fittedOpenings_eq]
  split <;> split <;> omega

/-- The opening parentheses of what is printed for a tree in its place. -/
theorem openings_fitted (least : Level) (node : Node) :
    openings (lexemes (fitted least node node.pieces)) = node.fittedOpenings least := rfl

/-- A statement is printed as its expression. -/
theorem fittedOpenings_statement (node : Node) :
    (statement node).fittedOpenings .filter = node.fittedOpenings .filter := by
  rw [fittedOpenings_of_le (Nat.zero_le _), fittedOpenings_of_le (Nat.zero_le _), pieces]

/-- The opening parentheses of several trees in places of one level. -/
def allOpenings (least : Level) (nodes : List Node) : Nat :=
  openings (lexemes (allPieces least nodes).flatten)

@[simp] theorem allOpenings_nil (least : Level) : allOpenings least [] = 0 := rfl

@[simp] theorem allOpenings_cons (least : Level) (node : Node) (rest : List Node) :
    allOpenings least (node :: rest) = node.fittedOpenings least + allOpenings least rest := by
  simp [allOpenings, allPieces, fittedOpenings]

/-- The opening parentheses of the entries of an object. -/
def propertyOpenings (properties : List Property) : Nat :=
  openings (lexemes (propertyPieces properties).flatten)

@[simp] theorem propertyOpenings_nil : propertyOpenings [] = 0 := rfl

/-- The opening parentheses of an entry are those of its value and of a computed key. -/
theorem propertyOpenings_entry (key value : Node) (computed : Bool) (rest : List Property) :
    propertyOpenings (.entry key value computed :: rest) =
      (if computed then key.fittedOpenings .assignment else openings (lexemes key.pieces)) +
        value.fittedOpenings .assignment + propertyOpenings rest := by
  cases computed <;> simp [propertyOpenings, propertyPieces, openings_fitted, Nat.add_assoc]

end Node

open Node

/-- The opening parentheses of what is printed for the tree of a phrase. -/
def Category.openings : (category : Category) → category.Tree → Nat
  | .expression level, node => node.fittedOpenings level
  | .filterArguments, nodes | .elements, nodes => allOpenings .assignment nodes
  | .arguments, nodes | .someArguments, nodes | .statements, nodes => allOpenings .filter nodes
  | .properties, entries => propertyOpenings entries
  | .property, entry => propertyOpenings [entry]
  | .program, tree => TemplateExpr.openings (lexemes tree.pieces)

/-- What is printed for several trees with a separator between them has their opening parentheses. -/
theorem openings_separated_allPieces {separator : List Piece} (h : openings (lexemes separator) = 0)
    (least : Level) (nodes : List Node) :
    openings (lexemes (separated separator (allPieces least nodes))) = allOpenings least nodes :=
  openings_separated h _

/-- What binds most tightly is printed without parentheses in every place. -/
theorem fittedOpenings_of_chain (least : Level) {node : Node} (h : node.level = .chain) :
    node.fittedOpenings least = openings (lexemes node.pieces) :=
  fittedOpenings_of_le (by rw [h]; exact Level.rank_le_chain least)

/-- What a name denotes is printed without parentheses. -/
theorem fittedOpenings_primaryName (least : Level) (name : String) :
    (Parser.primaryName {} name).fittedOpenings least = 0 := by
  by_cases hkeyword : name ∈ keywords
  · simp only [keywords, List.mem_cons, List.not_mem_nil, or_false] at hkeyword
    rcases hkeyword with rfl | rfl | rfl | rfl | rfl | rfl <;> exact fittedOpenings_of_chain _ rfl
  · rw [Parser.primaryName_of_notMem hkeyword]
    exact fittedOpenings_of_chain _ rfl

/-- What can be assigned to binds most tightly. -/
theorem level_of_isAssignable {node : Node} (h : node.isAssignable = true) : node.level = .chain := by
  cases node <;> first | rfl | cases h

/-- A literal is printed without parentheses. -/
theorem openings_literal (value : Literal) : openings (lexemes (Node.literal value).pieces) = 0 := by
  cases value <;> simp [pieces, Literal.lexeme]
  split <;> simp

/-- No phrase has fewer opening parentheses than what is printed for its tree. -/
theorem Derives.openings_le {category : Category} {ls : List Lexeme} {tree : category.Tree}
    (h : Derives {} category ls tree) : category.openings tree ≤ openings ls := by
  induction h with
  | @tighter level _ ls node hlevel hnode ih =>
    obtain ⟨hchain, rfl⟩ := Level.precedes_iff.mp hlevel
    have hrank := Level.rank_next hchain
    exact Nat.le_trans (fittedOpenings_mono (by omega) node) ih
  | @filter ls as input name arguments hinput harguments ihinput iharguments =>
    simp only [Category.openings] at ihinput iharguments ⊢
    rw [fittedOpenings_of_le (Nat.zero_le _)] at ihinput ⊢
    have harguments : openings (lexemes (separated [.symbol .colon]
        ([.lexeme (.identifier name)] :: allPieces .assignment arguments))) =
          allOpenings .assignment arguments := by
      rw [openings_separated rfl]
      simp [allOpenings]
    simp [pieces, between, harguments]
    omega
  | @assignment ls rs target value htarget hassignable hvalue ihtarget ihvalue =>
    have hchain := level_of_isAssignable hassignable
    have hlevel : Level.assignment.rank ≤ (Node.assignment target value).level.rank := Nat.le_refl _
    simp only [Category.openings] at ihtarget ihvalue ⊢
    rw [fittedOpenings_of_chain _ hchain] at ihtarget
    rw [fittedOpenings_of_le hlevel]
    simp [pieces, between, openings_fitted, fittedOpenings_of_chain _ hchain]
    omega
  | @conditional ts as cs test alternate consequent htest halternate hconsequent ihtest ihalternate
      ihconsequent =>
    have hlevel : Level.conditional.rank ≤ (Node.conditional test alternate consequent).level.rank :=
      Nat.le_refl _
    simp only [Category.openings] at ihtest ihalternate ihconsequent ⊢
    rw [fittedOpenings_of_le hlevel]
    simp [pieces, between, openings_fitted]
    omega
  | @join _ _ _ _ ls rs left right hjoins hlevel hleft hright ihleft ihright =>
    obtain ⟨connective, rfl, rfl, rfl⟩ := Level.joins_iff.mp hjoins
    obtain ⟨-, rfl⟩ := Level.precedes_iff.mp hlevel
    simp only [Category.openings] at ihleft ihright ⊢
    have hlevel : connective.level.rank ≤ (connective.join left right).level.rank := by
      cases connective <;> exact Nat.le_refl _
    rw [fittedOpenings_of_le hlevel]
    have hpieces : openings (lexemes (connective.join left right).pieces) =
        left.fittedOpenings connective.level + right.fittedOpenings connective.level.next := by
      rcases connective with operator | operator <;> cases operator <;>
        simp [Connective.join, Connective.level, pieces, between, openings_fitted,
          LogicalOperator.symbol, BinaryOperator.symbol]
    rw [hpieces, openings_append, openings_cons]
    omega
  | @unary ls argument operator hargument ih =>
    have hlevel : Level.unary.rank ≤ (Node.unary operator true argument).level.rank := Nat.le_refl _
    simp only [Category.openings] at ih ⊢
    rw [fittedOpenings_of_le hlevel]
    simp [pieces, openings_fitted]
    omega
  | group hnode ih =>
    simp only [Category.openings] at ih ⊢
    rw [fittedOpenings_of_le (Nat.zero_le _)] at ih
    rw [fittedOpenings_eq]
    simp
    split <;> omega
  | array helements ih =>
    simp only [Category.openings] at ih ⊢
    rw [fittedOpenings_of_chain _ rfl]
    simp [pieces, openings_separated_allPieces]
    omega
  | @object ls properties hproperties ih =>
    simp only [Category.openings] at ih ⊢
    have hentries : openings (lexemes (separated [.symbol .comma, .space] (propertyPieces properties))) =
        propertyOpenings properties := openings_separated rfl _
    rw [fittedOpenings_of_chain _ rfl]
    simp [pieces, hentries]
    omega
  | name hdenotes =>
    obtain rfl := denotes_iff.mp hdenotes
    exact Nat.le_trans (Nat.le_of_eq (fittedOpenings_primaryName _ _)) (Nat.zero_le _)
  | constant spelling value =>
    exact Nat.le_trans (Nat.le_of_eq (openings_literal value)) (Nat.zero_le _)
  | call hcallee harguments ihcallee iharguments =>
    simp only [Category.openings] at ihcallee iharguments ⊢
    rw [fittedOpenings_of_chain _ rfl]
    simp [pieces, openings_fitted, openings_separated_allPieces]
    omega
  | computedMember hholder hproperty ihholder ihproperty =>
    simp only [Category.openings] at ihholder ihproperty ⊢
    rw [fittedOpenings_of_chain _ rfl]
    simp [pieces, openings_fitted]
    omega
  | namedMember name hholder ih =>
    simp only [Category.openings] at ih ⊢
    rw [fittedOpenings_of_chain _ rfl]
    simp [pieces, openings_fitted]
    omega
  | noFilterArguments | noArguments | noElements | noProperties | noStatements => exact Nat.zero_le _
  | arguments _ ih | lastProperty _ ih => exact ih
  | emptyStatement _ ih => exact Nat.le_trans ih (by simp)
  | lastArgument _ ih | lastElement _ ih => simpa [Category.openings] using ih
  | filterArgument _ _ ihfirst ihrest | nextArgument _ _ ihfirst ihrest
  | nextElement _ _ ihfirst ihrest =>
    simp only [Category.openings, allOpenings_cons] at ihfirst ihrest ⊢
    simp
    omega
  | @nextProperty ps rest property properties hproperty hproperties ihfirst ihrest =>
    obtain ⟨key, value, computed⟩ := property
    simp only [Category.openings, propertyOpenings_entry] at ihfirst ihrest ⊢
    simp at ihfirst ⊢
    omega
  | constantKey spelling key hvalue ih =>
    simp only [Category.openings, propertyOpenings_entry, openings_literal] at ih ⊢
    simp
    omega
  | namedKey key hvalue ih =>
    simp only [Category.openings, propertyOpenings_entry] at ih ⊢
    simp [pieces]
    omega
  | shorthand key =>
    simp only [Category.openings, propertyOpenings_entry]
    rw [fittedOpenings_of_chain _ rfl]
    simp [pieces]
  | computedKey hkey hvalue ihkey ihvalue =>
    simp only [Category.openings, propertyOpenings_entry] at ihkey ihvalue ⊢
    simp
    omega
  | lastStatement hnode ih =>
    simp only [Category.openings, allOpenings_cons, fittedOpenings_statement] at ih ⊢
    exact ih
  | nextStatement hnode hbody ihnode ihbody =>
    simp only [Category.openings, allOpenings_cons, fittedOpenings_statement] at ihnode ihbody ⊢
    simp
    omega
  | program hbody ih =>
    simp only [Category.openings] at ih ⊢
    rw [pieces, openings_separated_allPieces rfl]
    exact ih

namespace Node

/-- Where a group of a printed program was opened up, the text denotes another tree, or none. -/
theorem ne_of_ofSource_ungrouped {tree other : Node} (hwritten : tree.ProgramWritten)
    {front inner back : List Piece}
    (hpieces : tree.pieces = front ++ .groupStart :: (inner ++ .groupEnd :: back))
    (h : ofSource {} (String.join ((front ++ inner ++ back).map Piece.text)) = .ok other) :
    other ≠ tree := by
  rintro rfl
  have hwalk := walk_program hwritten (by simp [hpieces])
  rw [hpieces] at hwalk
  have hwalk := hwalk.remove (by rintro _ _ ⟨⟩; rfl)
  rw [← List.append_assoc] at hwalk
  obtain ⟨lost, hlegible⟩ := (hwalk.remove (by rintro _ _ ⟨⟩; rfl)).legible rfl
  obtain ⟨tokens, hscan, hprogram⟩ := ofSource_eq_ok.mp h
  rw [scan, toList_join_text, ← String.length_toList, toList_join_text] at hscan
  have hderives := Parser.derives_of_program hprogram
  -- The points of the tree are all there, so none was taken for a part of a number.
  have hprinted := derives_program hwritten
  have hdots := hlegible.dots_add_lost_le (Nat.lt_succ_self _) hscan
  have hfound := hderives.dots_eq
  have hall := hprinted.dots_eq
  simp only [Category.parts, countP_reread, hpieces] at hfound hall
  simp at hdots hall
  obtain rfl : lost = 0 := by omega
  -- The lexemes are those of the pieces, and too few of them open a parenthesis.
  obtain ⟨tokens', hscan', hlexemes⟩ := hlegible.tokensFrom (Nat.lt_succ_self _) 0
  rw [hscan] at hscan'
  cases hscan'
  have hfewest := hderives.openings_le
  rw [hlexemes, Category.openings, hpieces, openings_group] at hfewest
  exact Nat.not_succ_le_self _ hfewest

end Node

/-- Every parenthesis that the printer puts around a group is needed. When the tree of a source is
printed and a pair of them is left out of the text, the text denotes no tree, or another one. -/
theorem Node.groups_are_needed {source : String} {tree : Node} (h : ofSource {} source = .ok tree)
    {front inner back : List Piece}
    (hpieces : tree.pieces = front ++ .groupStart :: (inner ++ .groupEnd :: back)) :
    tree.text = String.join ((front ++ .groupStart :: (inner ++ .groupEnd :: back)).map Piece.text) ∧
      ∀ other, ofSource {} (String.join ((front ++ inner ++ back).map Piece.text)) = .ok other →
        other ≠ tree ∧ other.same tree = false := by
  have hwritten := programWritten_of_ofSource h
  refine ⟨by rw [← hpieces, text], fun other hother => ?_⟩
  have hne := ne_of_ofSource_ungrouped hwritten hpieces hother
  have hsame := same_iff_eq_of_programWritten (programWritten_of_ofSource hother) hwritten
  exact ⟨hne, Bool.eq_false_iff.mpr fun h => hne (hsame.mp h)⟩

/-- Without its parentheses a product of a sum denotes a sum with a product. -/
theorem Node.groups_are_needed_product :
    let tree : Node := .program [.statement (.binary .multiply
      (.binary .add (.identifier "a") (.identifier "b")) (.identifier "c"))]
    ofSource {} "(a + b) * c" = .ok tree ∧ tree.text = "(a + b) * c" ∧
      ∀ other, ofSource {} "a + b * c" = .ok other → other ≠ tree ∧ other.same tree = false := by
  intro tree
  have hpieces : tree.pieces = [] ++ .groupStart :: ([.lexeme (.identifier "a"), .space, .symbol .plus,
      .space, .lexeme (.identifier "b")] ++ .groupEnd ::
        [.space, .symbol .times, .space, .lexeme (.identifier "c")]) := by
    simp [tree, pieces, allPieces, fitted, between, separated, level, Level.rank, Level.next,
      BinaryOperator.level, BinaryOperator.symbol]
  have hword : ∀ name ∈ ["a", "b", "c"], IsWord name := by
    intro name hname
    simp only [List.mem_cons, List.not_mem_nil, or_false] at hname
    rcases hname with rfl | rfl | rfl <;> exact isWord_of_all rfl (by decide)
  have hwritten : tree.ProgramWritten :=
    ⟨_, rfl, [_], rfl, by simpa [AllWritten, Written, keywords, and_assoc] using hword⟩
  have hfaithful : tree.Faithful := by
    simp [tree, Faithful, parts, allParts, Misprinted, isMistaken, keywords]
  have hjoined {pieces : List Piece} {source : String} (h : chars pieces = source.toList) :
      String.join (pieces.map Piece.text) = source :=
    String.toList_inj.mp ((toList_join_text pieces).trans h)
  have hread := ofSource_text_of_faithful hwritten hfaithful
  obtain ⟨htext, hungrouped⟩ := groups_are_needed hread hpieces
  rw [hjoined (by decide : _ = "(a + b) * c".toList)] at htext
  rw [hjoined (by decide : _ = "a + b * c".toList)] at hungrouped
  rw [htext] at hread
  exact ⟨hread, htext, hungrouped⟩

end TemplateExpr
