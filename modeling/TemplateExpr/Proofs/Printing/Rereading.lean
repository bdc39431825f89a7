import TemplateExpr.Proofs.Printing.Pieces
import TemplateExpr.Proofs.Printing.Written

/-!
# What printed lexemes denote

The lexemes of a printed tree are a phrase of the grammar at the level of the tree, so that no
parenthesis is missing. What they denote is the tree itself but for two kinds of leaves: a number
that is not finite is printed as a name, and an identifier that has a keyword for its name comes
back as what the keyword denotes.
-/

namespace TemplateExpr

/-- What the printed lexeme of a literal denotes. -/
def Literal.reread : Literal → Node
  | .float value =>
    if value.isFinite then .literal (.float value) else Parser.primaryName {} value.display
  | value => .literal value

namespace Node

/-- What the printed lexeme of a key denotes. -/
def rereadKey : Node → Node
  | .literal (.float value) =>
    if value.isFinite then .literal (.float value) else .identifier value.display
  | key => key

mutual

/-- What the printed lexemes of a tree denote. -/
def reread : Node → Node
  | .program body => .program (rereadAll body)
  | .statement expression => .statement expression.reread
  | .literal value => value.reread
  | .identifier name => Parser.primaryName {} name
  | .this => .this
  | .locals => .locals
  | .member holder property computed =>
    .member holder.reread (if computed then property.reread else property) computed
  | .call callee arguments => .call callee.reread (rereadAll arguments)
  | .filter name arguments => .filter name (rereadAll arguments)
  | .assignment target value => .assignment target.reread value.reread
  | .conditional test alternate consequent =>
    .conditional test.reread alternate.reread consequent.reread
  | .logical operator left right => .logical operator left.reread right.reread
  | .binary operator left right => .binary operator left.reread right.reread
  | .unary operator leading argument => .unary operator leading argument.reread
  | .array elements => .array (rereadAll elements)
  | .object properties => .object (rereadProperties properties)

/-- What the printed lexemes of each tree denote. -/
def rereadAll : List Node → List Node
  | [] => []
  | node :: rest => node.reread :: rereadAll rest

/-- What the printed lexemes of each entry denote. -/
def rereadProperties : List Property → List Property
  | [] => []
  | .entry key value computed :: rest =>
    .entry (if computed then key.reread else key.rereadKey) value.reread computed ::
      rereadProperties rest

end

end Node

open Piece

/-- A literal is printed as a lexeme that denotes it. -/
theorem Literal.derives_lexeme (value : Literal) :
    Derives {} (.expression .chain) [value.lexeme] value.reread := by
  cases value with
  | undefined => exact .word "undefined"
  | null => exact .word "null"
  | boolean value => cases value <;> exact .word _
  | integer value => exact .constant _ _
  | string value => exact .constant _ _
  | float value =>
    simp only [lexeme, reread]
    split
    · exact .constant _ _
    · exact .word _

/-- The lexemes of a separated list are those of its first part, of the separator and of the
others. -/
theorem Piece.lexemes_separated_cons (separator first second : List Piece)
    (rest : List (List Piece)) :
    lexemes (separated separator (first :: second :: rest)) =
      lexemes first ++ (lexemes separator ++ lexemes (separated separator (second :: rest))) := by
  simp [separated]

namespace Node

variable {node : Node} {nodes : List Node}

/-- A tree in parentheses, or without them where it binds tightly enough, is a phrase of the level
that its place admits. -/
theorem derives_fitted (least : Level) {tree : Node}
    (h : Derives {} (.expression node.level) (lexemes node.pieces) tree) :
    Derives {} (.expression least) (lexemes (fitted least node node.pieces)) tree := by
  unfold fitted
  split
  case isTrue hlooser =>
    have hloosest : Level.filter.rank ≤ node.level.rank := Nat.zero_le _
    have hlexemes : lexemes (.groupStart :: node.pieces ++ [.groupEnd]) =
        .symbol .openParen :: (lexemes node.pieces ++ [.symbol .closeParen]) := by
      simp
    rw [hlexemes]
    exact (Derives.group (h.loosen hloosest)).loosen (Level.rank_le_chain least)
  case isFalse htight => exact h.loosen (Nat.le_of_not_lt htight)

/-- The printed lexemes of each of the trees are a phrase at its level and denote its rereading. -/
def AllDerive (nodes : List Node) : Prop :=
  ∀ node ∈ nodes, Derives {} (.expression node.level) (lexemes node.pieces) node.reread

/-- Printed elements are elements. -/
theorem derives_elements (h : AllDerive nodes) :
    Derives {} .elements
      (lexemes (separated [.symbol .comma, .space] (allPieces .assignment nodes)))
      (rereadAll nodes) := by
  induction nodes with
  | nil => exact .noElements
  | cons node rest ih =>
    obtain ⟨hnode, hrest⟩ := List.forall_mem_cons.mp h
    cases rest with
    | nil => exact .lastElement (derives_fitted _ hnode)
    | cons next rest =>
      simp only [allPieces, lexemes_separated_cons]
      exact .nextElement (derives_fitted _ hnode) (ih hrest)

/-- Printed arguments are arguments. -/
theorem derives_someArguments (h : AllDerive nodes) (hsome : nodes ≠ []) :
    Derives {} .someArguments
      (lexemes (separated [.symbol .comma, .space] (allPieces .filter nodes)))
      (rereadAll nodes) := by
  induction nodes with
  | nil => contradiction
  | cons node rest ih =>
    obtain ⟨hnode, hrest⟩ := List.forall_mem_cons.mp h
    cases rest with
    | nil => exact .lastArgument (derives_fitted _ hnode)
    | cons next rest =>
      simp only [allPieces, lexemes_separated_cons]
      exact .nextArgument (derives_fitted _ hnode) (ih hrest (by simp))

/-- Printed arguments, or none, are what stands between parentheses. -/
theorem derives_arguments (h : AllDerive nodes) :
    Derives {} .arguments
      (lexemes (separated [.symbol .comma, .space] (allPieces .filter nodes)))
      (rereadAll nodes) := by
  cases nodes with
  | nil => exact .noArguments
  | cons node rest => exact .arguments (derives_someArguments h (by simp))

/-- The printed name and arguments of a filter are its name and its arguments. -/
theorem exists_derives_filterArguments (h : AllDerive nodes) (name : String) :
    ∃ ls, lexemes (separated [.symbol .colon]
        ([.lexeme (.identifier name)] :: allPieces .assignment nodes)) = .identifier name :: ls ∧
      Derives {} .filterArguments ls (rereadAll nodes) := by
  suffices hparts : ∀ first : List Piece, ∃ ls, lexemes (separated [.symbol .colon]
      (first :: allPieces .assignment nodes)) = lexemes first ++ ls ∧
      Derives {} .filterArguments ls (rereadAll nodes) from hparts _
  intro first
  induction nodes generalizing first with
  | nil => exact ⟨[], by simp [allPieces, separated], .noFilterArguments⟩
  | cons node rest ih =>
    obtain ⟨hnode, hrest⟩ := List.forall_mem_cons.mp h
    obtain ⟨ls, hls, hmore⟩ := ih hrest (fitted .assignment node node.pieces)
    refine ⟨_, ?_, .filterArgument (derives_fitted _ hnode) hmore⟩
    rw [allPieces, lexemes_separated_cons, hls]
    rfl

/-- Printed statements are statements. -/
theorem derives_statements (h : AllDerive nodes) :
    Derives {} .statements
      (lexemes (separated [.symbol .semicolon, .space]
        (allPieces .filter (nodes.map .statement))))
      ((rereadAll nodes).map .statement) := by
  induction nodes with
  | nil => exact .noStatements
  | cons node rest ih =>
    obtain ⟨hnode, hrest⟩ := List.forall_mem_cons.mp h
    have hstatement : fitted .filter (.statement node) (pieces (.statement node)) =
        fitted .filter node node.pieces := by
      simp [fitted, Level.rank, pieces]
    cases rest with
    | nil =>
      simp only [List.map_cons, List.map_nil, allPieces, separated, hstatement, rereadAll]
      exact .lastStatement (derives_fitted _ hnode)
    | cons next rest =>
      simp only [List.map_cons, allPieces, lexemes_separated_cons, hstatement, rereadAll]
      exact .nextStatement (derives_fitted _ hnode) (ih hrest)

/-- A printed entry is an entry. -/
theorem derives_entry {key value : Node} {computed : Bool}
    (hkey : if computed = true then
        Derives {} (.expression key.level) (lexemes key.pieces) key.reread
      else key.IsKey)
    (hvalue : Derives {} (.expression value.level) (lexemes value.pieces) value.reread) :
    Derives {} .property
      (lexemes ((if computed then
          .symbol .openBracket :: fitted .assignment key (pieces key) ++ [.symbol .closeBracket]
        else pieces key) ++ [.symbol .colon, .space] ++ fitted .assignment value (pieces value)))
      (.entry (if computed then key.reread else key.rereadKey) value.reread computed) := by
  have hvalue := derives_fitted .assignment hvalue
  cases computed with
  | true =>
    simpa using Derives.computedKey (derives_fitted .assignment hkey) hvalue
  | false =>
    cases key with
    | identifier name => exact .namedKey name hvalue
    | literal literal =>
      cases literal with
      | float literal =>
        by_cases hfinite : literal.isFinite = true
        · simpa [pieces, Literal.lexeme, rereadKey, hfinite] using Derives.constantKey _ _ hvalue
        · simpa [pieces, Literal.lexeme, rereadKey, hfinite] using Derives.namedKey _ hvalue
      | integer literal | string literal => exact .constantKey _ _ hvalue
      | undefined | null | boolean => simp [IsKey, Literal.isKeyword] at hkey
    | _ => contradiction

/-- A name that is printed as an expression is read as what it denotes. -/
theorem derives_reread_of_isName (h : node.IsName) :
    Derives {} (.expression node.level) (lexemes node.pieces) node.reread := by
  cases node with
  | identifier name => exact .word name
  | _ => contradiction

/-- What can be assigned to can still be assigned to when it is reread. -/
theorem isAssignable_reread (h : node.Written) (hassignable : node.isAssignable = true) :
    node.reread.isAssignable = true := by
  cases node with
  | identifier name =>
    rw [reread, Parser.primaryName_of_notMem h.2]
    rfl
  | member => rfl
  | _ => contradiction

mutual

/-- The printed lexemes of a written tree are a phrase at its level and denote its rereading. -/
theorem derives_reread (node : Node) (h : node.Written) :
    Derives {} (.expression node.level) (lexemes node.pieces) node.reread := by
  cases node with
  | program | statement => contradiction
  | literal value => exact value.derives_lexeme
  | identifier name => exact .word name
  | this => exact .word "this"
  | locals => exact .word "$locals"
  | member holder property computed =>
    have hholder := derives_fitted .chain (derives_reread holder h.1)
    cases computed with
    | true =>
      have hproperty := derives_fitted .assignment (derives_reread property h.2)
      simpa [pieces, level, reread] using hholder.computedMember hproperty
    | false =>
      cases property with
      | identifier name => simpa [pieces, level, reread] using hholder.namedMember name
      | _ => exact absurd h.2 (by simp [IsName])
  | call callee arguments =>
    have hcallee := derives_fitted .chain (derives_reread callee h.1)
    have harguments := derives_arguments (allDerive arguments h.2)
    simpa [pieces, level, reread] using hcallee.call harguments
  | filter name arguments =>
    obtain ⟨hname, hsome, harguments⟩ := h
    cases name with
    | identifier name =>
      cases arguments with
      | nil => contradiction
      | cons input arguments =>
        obtain ⟨hinput, harguments⟩ := harguments
        have hloosest : Level.filter.rank ≤ input.level.rank := Nat.zero_le _
        have hinput := (derives_reread input hinput).loosen hloosest
        obtain ⟨ls, hls, hmore⟩ :=
          exists_derives_filterArguments (allDerive arguments harguments) name
        simpa [pieces, between, level, reread, rereadAll, hls] using hinput.filter hmore
    | _ => contradiction
  | assignment target value =>
    obtain ⟨hassignable, htarget, hvalue⟩ := h
    have hplace := derives_fitted .chain (derives_reread target htarget)
    have hloosened := hplace.loosen (show Level.conditional.rank ≤ Level.chain.rank by decide)
    have hvalue := derives_fitted .assignment (derives_reread value hvalue)
    simpa [pieces, between, level, reread]
      using hloosened.assignment (isAssignable_reread htarget hassignable) hvalue
  | conditional test alternate consequent =>
    have htest := derives_fitted .or (derives_reread test h.1)
    have halternate := derives_fitted .assignment (derives_reread alternate h.2.1)
    have hconsequent := derives_fitted .assignment (derives_reread consequent h.2.2)
    simpa [pieces, between, level, reread] using htest.conditional halternate hconsequent
  | logical operator left right =>
    have hleft := derives_fitted operator.level (derives_reread left h.1)
    have hright := derives_fitted operator.level.next (derives_reread right h.2)
    simpa [pieces, between, level, reread, Connective.level, Connective.symbol, Connective.join]
      using hleft.connect (.logical operator) rfl hright
  | binary operator left right =>
    have hleft := derives_fitted operator.level (derives_reread left h.1)
    have hright := derives_fitted operator.level.next (derives_reread right h.2)
    simpa [pieces, between, level, reread, Connective.level, Connective.symbol, Connective.join]
      using hleft.connect (.binary operator) rfl hright
  | unary operator leading argument =>
    obtain ⟨rfl, hargument⟩ := h
    have hargument := derives_fitted .unary (derives_reread argument hargument)
    simpa [pieces, level, reread] using hargument.unary operator
  | array elements =>
    have helements := derives_elements (allDerive elements h)
    simpa [pieces, level, reread] using helements.array
  | object properties =>
    have hproperties := derives_properties properties h
    simpa [pieces, level, reread] using hproperties.object

/-- The printed lexemes of written trees are phrases that denote their rereadings. -/
theorem allDerive (nodes : List Node) (h : AllWritten nodes) : AllDerive nodes := by
  cases nodes with
  | nil => simp [AllDerive]
  | cons node rest =>
    exact List.forall_mem_cons.mpr ⟨derives_reread node h.1, allDerive rest h.2⟩

/-- Printed entries are entries. -/
theorem derives_properties (properties : List Property) (h : PropertiesWritten properties) :
    Derives {} .properties
      (lexemes (separated [.symbol .comma, .space] (propertyPieces properties)))
      (rereadProperties properties) := by
  cases properties with
  | nil => exact .noProperties
  | cons property rest =>
    obtain ⟨key, value, computed⟩ := property
    obtain ⟨hentry, hrest⟩ := h
    have hmore := derives_properties rest hrest
    have hproperty : Derives {} .property (lexemes ((if computed then
          .symbol .openBracket :: fitted .assignment key (pieces key) ++ [.symbol .closeBracket]
        else pieces key) ++ [.symbol .colon, .space] ++ fitted .assignment value (pieces value)))
        (.entry (if computed then key.reread else key.rereadKey) value.reread computed) := by
      cases computed with
      | true => exact derives_entry (derives_reread key hentry.1) (derives_reread value hentry.2)
      | false =>
        obtain ⟨hkey, hvalue | ⟨hname, rfl⟩⟩ := hentry
        · exact derives_entry hkey (derives_reread value hvalue)
        · exact derives_entry hkey (derives_reread_of_isName hname)
    cases rest with
    | nil => exact .lastProperty hproperty
    | cons next rest =>
      obtain ⟨nextKey, nextValue, nextComputed⟩ := next
      simp only [propertyPieces, lexemes_separated_cons] at hmore ⊢
      exact .nextProperty hproperty hmore

end

/-- The trees of statements are reread one by one. -/
theorem rereadAll_map_statement (nodes : List Node) :
    rereadAll (nodes.map .statement) = (rereadAll nodes).map .statement := by
  induction nodes with
  | nil => rfl
  | cons node rest ih => simp [rereadAll, reread, ih]

/-- The printed lexemes of a written program are a program and denote its rereading. -/
theorem derives_program (h : node.ProgramWritten) :
    Derives {} .program (lexemes node.pieces) node.reread := by
  obtain ⟨body, rfl, expressions, rfl, hwritten⟩ := h
  have hbody := derives_statements (allDerive expressions hwritten)
  rw [reread, rereadAll_map_statement]
  exact .program hbody

end Node

end TemplateExpr
