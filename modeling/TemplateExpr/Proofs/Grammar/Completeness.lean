import TemplateExpr.Proofs.Grammar.Soundness

/-!
# What is derived is read

The parser is greedy: each loop takes every operator, suffix or filter it meets. A derivation
of a phrase is followed through the parser together with the tokens after the phrase, and what
has to be known of them is only that no construct at the level of the phrase goes on with them.
Budgets are bounded by the number of tokens that are still to be read.
-/

namespace TemplateExpr

/-- The level of the construct that an expression would go on with at the symbol. -/
def Symbol.continues? : Symbol → Option Level
  | .pipe | .colon => some .filter
  | .assign => some .assignment
  | .question => some .conditional
  | .openParen | .openBracket | .dot => some .chain
  | sign => (Connective.ofSymbol? sign).map Connective.level

/-- An expression goes on with a connective at the level of the connective. -/
theorem Symbol.continues?_of_ofSymbol? {sign : Symbol} {connective : Connective}
    (h : Connective.ofSymbol? sign = some connective) :
    sign.continues? = some connective.level := by
  cases sign <;> simp_all [continues?, Connective.ofSymbol?]

/-- Whether an expression of the level ends before the symbol. -/
def Level.endsBefore (level : Level) (sign : Symbol) : Bool :=
  sign.continues?.all fun construct => construct.rank < level.rank

/-- Tighter expressions end where looser ones do. -/
theorem Level.endsBefore_mono {level level' : Level} {sign : Symbol}
    (h : level.endsBefore sign = true) (hrank : level.rank ≤ level'.rank) :
    level'.endsBefore sign = true := by
  unfold endsBefore at *
  cases hcontinues : sign.continues? with
  | none => rfl
  | some construct =>
    simp only [hcontinues, Option.all_some, decide_eq_true_eq] at h ⊢
    omega

namespace Parser

variable {options : Options}

/-- An expression of the level ends before the tokens. -/
def EndsBefore (level : Level) (rest : List Token) : Prop :=
  ∀ sign index tail, rest = ⟨.symbol sign, index⟩ :: tail → level.endsBefore sign = true

/-- The tokens do not begin with a colon. -/
def NoColon (rest : List Token) : Prop := ∀ index tail, rest ≠ ⟨.symbol .colon, index⟩ :: tail

/-- What may follow an expression of the level when the loop of the level is still to run. -/
def Follows (level : Level) (node : Node) (rest : List Token) : Prop :=
  match level with
  | .filter => EndsBefore .assignment rest ∧ NoColon rest
  | .assignment => EndsBefore .assignment rest
  -- An assignment sign may follow a target, and then the target is no conditional.
  | .conditional =>
    EndsBefore .conditional rest ∧ (node.isAssignable = false → EndsBefore .assignment rest)
  | .unary => EndsBefore .unary rest
  | .chain => True
  | level => EndsBefore level.next rest

/-- How the parser goes on after an expression of the level has been read. -/
def goOn (options : Options) (budget : Nat) (level : Level) (node : Node) (rest : List Token) :
    Reading (Front Node) :=
  match level with
  | .filter => filters options budget node rest
  | .chain => suffixes options budget node rest
  | .assignment | .conditional | .unary => .ok (node, rest)
  | level => operands options budget level node rest

/-- The depth of calls from an expression of the level down to its first token. -/
def depth (level : Level) : Nat := 12 - level.rank

/-- Where an expression ends, the tighter ones in it end too. -/
theorem EndsBefore.mono {level level' : Level} {rest : List Token} (h : EndsBefore level rest)
    (hrank : level.rank ≤ level'.rank) : EndsBefore level' rest :=
  fun sign index tail hrest => Level.endsBefore_mono (h sign index tail hrest) hrank

/-- Every expression ends with the tokens. -/
theorem endsBefore_nil (level : Level) : EndsBefore level [] := by
  intro sign index tail h
  contradiction

/-- Where an expression ends before one token is decided by its symbol. -/
theorem endsBefore_cons (level : Level) (sign : Symbol) (h : level.endsBefore sign = true)
    (index : Nat) (tail : List Token) : EndsBefore level (⟨.symbol sign, index⟩ :: tail) := by
  intro sign' index' tail' hrest
  cases hrest
  exact h

/-- A loop over operators ends where its level does. -/
theorem operands_of_endsBefore {budget : Nat} {level : Level} {rest : List Token}
    (h : EndsBefore level rest) (hbudget : 0 < budget) (node : Node) :
    operands options budget level node rest = .ok (node, rest) := by
  obtain ⟨budget, rfl⟩ := Nat.exists_eq_add_one_of_ne_zero (Nat.ne_of_gt hbudget)
  unfold operands
  split
  case h_1 => simp_all
  case h_2 sign index tail _ =>
    split
    case h_1 connective hconnective =>
      have hends := h sign index tail rfl
      rw [Level.endsBefore, Symbol.continues?_of_ofSymbol? hconnective] at hends
      rw [if_neg]
      intro hlevel
      simp [hlevel] at hends
    case h_2 => rfl
  case h_3 => rfl

/-- A chain ends where its level does. -/
theorem suffixes_of_endsBefore {budget : Nat} {rest : List Token} (h : EndsBefore .chain rest)
    (hbudget : 0 < budget) (node : Node) :
    suffixes options budget node rest = .ok (node, rest) := by
  obtain ⟨budget, rfl⟩ := Nat.exists_eq_add_one_of_ne_zero (Nat.ne_of_gt hbudget)
  unfold suffixes
  split
  case h_1 => simp_all
  case h_5 => rfl
  all_goals
    have hends := h _ _ _ rfl
    simp [Level.endsBefore, Symbol.continues?] at hends

/-- A chain of filters ends where the next symbol is no pipe. -/
theorem filters_of_endsBefore {budget : Nat} {rest : List Token} (h : EndsBefore .filter rest)
    (hbudget : 0 < budget) (node : Node) :
    filters options budget node rest = .ok (node, rest) := by
  obtain ⟨budget, rfl⟩ := Nat.exists_eq_add_one_of_ne_zero (Nat.ne_of_gt hbudget)
  unfold filters
  split
  case h_1 => simp_all
  case h_2 =>
    have hends := h _ _ _ rfl
    simp [Level.endsBefore, Symbol.continues?, Level.rank] at hends
  case h_3 => rfl

/-- Where an expression of the level ends, the parser goes on with nothing. -/
theorem goOn_of_endsBefore {budget : Nat} {level : Level} {rest : List Token}
    (h : EndsBefore level rest) (hbudget : 0 < budget) (node : Node) :
    goOn options budget level node rest = .ok (node, rest) := by
  cases level with
  | filter => exact filters_of_endsBefore h hbudget node
  | chain => exact suffixes_of_endsBefore h hbudget node
  | assignment | conditional | unary => rfl
  | _ => exact operands_of_endsBefore h hbudget node

/-- Where an expression of the level ends, it may be followed. -/
theorem follows_of_endsBefore {level : Level} {rest : List Token} (h : EndsBefore level rest)
    (hlevel : level ≠ .conditional) (node : Node) : Follows level node rest := by
  cases level with
  | filter =>
    refine ⟨h.mono (by decide), fun index tail hrest => ?_⟩
    have hends := h _ _ _ hrest
    simp [Level.endsBefore, Symbol.continues?, Level.rank] at hends
  | assignment | unary => exact h
  | conditional => contradiction
  | chain => trivial
  | _ => exact h.mono (by decide)

/-- The symbol that is looked for is consumed. -/
theorem consume_cons (sign : Symbol) (index : Nat) (rest : List Token) :
    consume sign (⟨.symbol sign, index⟩ :: rest) = .ok rest := by
  simp [consume]

/-- At the level of a connective the parser goes on with the operands of the level. -/
theorem goOn_connective (connective : Connective) (budget : Nat) (node : Node) (rest : List Token) :
    goOn options budget connective.level node rest =
      operands options budget connective.level node rest := by
  rcases connective with operator | operator <;> cases operator <;> rfl

/-- Tighter expressions than those at the level of a connective end before what may follow. -/
theorem Follows.connective {connective : Connective} {node : Node} {rest : List Token}
    (h : Follows connective.level node rest) : EndsBefore connective.level.next rest := by
  rcases connective with operator | operator <;> cases operator <;> exact h

/-- A connective may follow an operand of its own level. -/
theorem follows_connective (connective : Connective) (node : Node) (index : Nat)
    (rest : List Token) :
    Follows connective.level node (⟨.symbol connective.symbol, index⟩ :: rest) := by
  rcases connective with operator | operator <;> cases operator <;> exact endsBefore_cons _ _ rfl _ _

/-- Tokens whose lexemes are put together of two parts and a lexeme between them. -/
theorem exists_split {tokens : List Token} {ls rs : List Lexeme} {word : Lexeme}
    (h : tokens.map Token.lexeme = ls ++ word :: rs) :
    ∃ left index right, tokens = left ++ ⟨word, index⟩ :: right ∧
      left.map Token.lexeme = ls ∧ right.map Token.lexeme = rs := by
  obtain ⟨left, more, rfl, hleft, hmore⟩ := List.map_eq_append_iff.mp h
  obtain ⟨token, right, rfl, rfl, hright⟩ := List.map_eq_cons_iff.mp hmore
  exact ⟨left, token.index, right, rfl, hleft, hright⟩

/-- Tokens whose lexemes begin with a given one. -/
theorem exists_cons {tokens : List Token} {rs : List Lexeme} {word : Lexeme}
    (h : tokens.map Token.lexeme = word :: rs) :
    ∃ index right, tokens = ⟨word, index⟩ :: right ∧ right.map Token.lexeme = rs := by
  obtain ⟨token, right, rfl, rfl, hright⟩ := List.map_eq_cons_iff.mp h
  exact ⟨token.index, right, rfl, hright⟩

/-- Tokens whose lexemes are enclosed by two given ones. -/
theorem exists_enclosed {tokens : List Token} {ls : List Lexeme} {first last : Lexeme}
    (h : tokens.map Token.lexeme = first :: (ls ++ [last])) :
    ∃ index inner lastIndex, tokens = ⟨first, index⟩ :: (inner ++ [⟨last, lastIndex⟩]) ∧
      inner.map Token.lexeme = ls := by
  obtain ⟨index, more, rfl, hmore⟩ := exists_cons h
  obtain ⟨inner, lastIndex, tail, rfl, hinner, htail⟩ := exists_split hmore
  obtain rfl := List.map_eq_nil_iff.mp htail
  exact ⟨index, inner, lastIndex, rfl, hinner⟩

/-- The parser takes the phrase from the front of all tokens that may follow it.

An expression is taken together with what its level goes on with. -/
def Accepts (options : Options) : (category : Category) → List Lexeme → category.Tree → Prop
  | .expression level, ls, node => ∀ tokens rest result, tokens.map Token.lexeme = ls →
      Follows level node rest →
      (∀ budget, 16 * rest.length < budget → goOn options budget level node rest = .ok result) →
      ∀ budget, 16 * (tokens ++ rest).length + depth level ≤ budget →
        expression options budget level (tokens ++ rest) = .ok result
  | .filterArguments, ls, arguments => ∀ tokens rest, tokens.map Token.lexeme = ls →
      EndsBefore .assignment rest → NoColon rest →
      ∀ budget, 16 * (tokens ++ rest).length < budget →
        filterArguments options budget (tokens ++ rest) = .ok (arguments, rest)
  | .arguments, ls, arguments => ∀ tokens index rest, tokens.map Token.lexeme = ls →
      ∀ budget, 16 * (tokens ++ rest).length + 30 ≤ budget →
        Parser.arguments options budget (tokens ++ ⟨.symbol .closeParen, index⟩ :: rest) =
          .ok (arguments, rest)
  | .someArguments, ls, arguments => ∀ tokens index rest, tokens.map Token.lexeme = ls →
      ∀ budget, 16 * (tokens ++ rest).length + 29 ≤ budget →
        moreArguments options budget (tokens ++ ⟨.symbol .closeParen, index⟩ :: rest) =
          .ok (arguments, rest)
  | .elements, ls, elements => ∀ tokens index rest, tokens.map Token.lexeme = ls →
      ∀ budget, 16 * (tokens ++ rest).length + 28 ≤ budget →
        Parser.elements options budget (tokens ++ ⟨.symbol .closeBracket, index⟩ :: rest) =
          .ok (elements, rest)
  | .properties, ls, properties => ∀ tokens index rest, tokens.map Token.lexeme = ls →
      ∀ budget, 16 * (tokens ++ rest).length + 18 ≤ budget →
        Parser.properties options budget (tokens ++ ⟨.symbol .closeBrace, index⟩ :: rest) =
          .ok (properties, rest)
  | .property, ls, property => ∀ tokens rest, tokens.map Token.lexeme = ls →
      EndsBefore .assignment rest → NoColon rest →
      ∀ budget, 16 * (tokens ++ rest).length < budget →
        Parser.property options budget (tokens ++ rest) = .ok (property, rest)
  | .statements, ls, body => ∀ tokens, tokens.map Token.lexeme = ls →
      ∀ budget, 16 * tokens.length + 13 ≤ budget → statements options budget tokens = .ok (body, [])
  | .program, ls, tree => ∀ tokens, tokens.map Token.lexeme = ls → program options tokens = .ok tree

/-- An expression is taken alone from tokens that it ends before. -/
theorem Accepts.whole {level : Level} {ls : List Lexeme} {node : Node}
    (h : Accepts options (.expression level) ls node) (hlevel : level ≠ .conditional)
    {tokens rest : List Token} (htokens : tokens.map Token.lexeme = ls)
    (hends : EndsBefore level rest) (budget : Nat)
    (hbudget : 16 * (tokens ++ rest).length + depth level ≤ budget) :
    expression options budget level (tokens ++ rest) = .ok (node, rest) :=
  h tokens rest (node, rest) htokens (follows_of_endsBefore hends hlevel node)
    (fun _ hpositive => goOn_of_endsBefore hends (by omega) node) budget hbudget

/-- An assignment is tried after every conditional. -/
theorem expression_assignment_of_endsBefore {budget : Nat} {tokens rest : List Token} {node : Node}
    (h : expression options budget .conditional tokens = .ok (node, rest))
    (hends : EndsBefore .assignment rest) :
    expression options (budget + 1) .assignment tokens = .ok (node, rest) := by
  simp only [expression, h, bind, Except.bind]
  split
  case h_1 =>
    have := hends _ _ _ rfl
    simp [Level.endsBefore, Symbol.continues?, Level.rank] at this
  case h_2 => rfl

/-- A conditional is tried after every operand of one. -/
theorem expression_conditional_of_endsBefore {budget : Nat} {tokens rest : List Token} {node : Node}
    (h : expression options budget .or tokens = .ok (node, rest))
    (hends : EndsBefore .conditional rest) :
    expression options (budget + 1) .conditional tokens = .ok (node, rest) := by
  simp only [expression, h, bind, Except.bind]
  split
  case h_1 =>
    have := hends _ _ _ rfl
    simp [Level.endsBefore, Symbol.continues?, Level.rank] at this
  case h_2 => rfl

/-- Where a chain begins, no unary operator is found. -/
theorem expression_unary_of_beginsChain {budget : Nat} {tokens : List Token}
    (h : StartsWith Lexeme.beginsChain (tokens.map Token.lexeme)) :
    expression options (budget + 1) .unary tokens = expression options budget .chain tokens := by
  obtain ⟨first, rest, htokens, hfirst⟩ := h
  obtain ⟨index, tail, rfl, -⟩ := exists_cons htokens
  cases first with
  | symbol sign => cases sign <;> first | rfl | contradiction
  | _ => rfl

/-- An expression of a tighter level is passed on by each function above it. -/
theorem Accepts.tighter {level : Level} {ls : List Lexeme} {node : Node} (hlevel : level ≠ .chain)
    (hbegins : (Category.expression level.next).Begins ls)
    (h : Accepts options (.expression level.next) ls node) :
    Accepts options (.expression level) ls node := by
  intro tokens rest result htokens hfollows hgoOn budget hbudget
  have hdepth : depth level = depth level.next + 1 := by cases level <;> first | rfl | contradiction
  obtain ⟨budget, rfl⟩ : ∃ n, budget = n + 1 := Nat.exists_eq_add_one_of_ne_zero (by omega)
  have hrest : 16 * rest.length < budget := by
    have : 0 < depth level.next := by cases level <;> decide
    simp only [List.length_append] at hbudget
    omega
  cases level with
  | chain => contradiction
  | filter =>
    have hread := h.whole (by decide) htokens hfollows.1 budget (by omega)
    simp only [expression, Level.next, bind, Except.bind] at hread ⊢
    rw [hread]
    exact hgoOn budget hrest
  | assignment =>
    have hread := h tokens rest (node, rest) htokens ⟨hfollows.mono (by decide), fun _ => hfollows⟩
      (fun _ _ => rfl) budget (by omega)
    rw [← hgoOn budget hrest]
    exact expression_assignment_of_endsBefore hread hfollows
  | conditional =>
    have hread := h.whole (by decide) htokens (hfollows.1.mono (by decide)) budget
      (by omega)
    rw [← hgoOn budget hrest]
    exact expression_conditional_of_endsBefore hread hfollows.1
  | unary =>
    have hread := h.whole (by decide) htokens (hfollows.mono (by decide)) budget
      (by omega)
    rw [← hgoOn budget hrest, expression_unary_of_beginsChain]
    · exact hread
    · rw [List.map_append, htokens]
      exact hbegins.append _
  | or | and | equality | relational | additive | multiplicative =>
    have hread := h.whole (by decide) htokens hfollows budget (by omega)
    simp only [expression, bind, Except.bind]
    rw [hread]
    exact hgoOn budget hrest

/-- A filter goes on with the chain of filters that it is applied to. -/
theorem Accepts.filter {ls as : List Lexeme} {input : Node} {name : String} {arguments : List Node}
    (hinput : Accepts options (.expression .filter) ls input)
    (harguments : Accepts options .filterArguments as arguments) :
    Accepts options (.expression .filter) (ls ++ .symbol .pipe :: .identifier name :: as)
      (.filter (.identifier name) (input :: arguments)) := by
  intro tokens rest result htokens hfollows hgoOn budget hbudget
  obtain ⟨ts, index, more, rfl, hts, hmore⟩ := exists_split htokens
  obtain ⟨nameIndex, us, rfl, hus⟩ := exists_cons hmore
  simp only [List.append_assoc, List.cons_append] at hbudget ⊢
  refine hinput ts _ result hts ⟨endsBefore_cons _ _ rfl _ _, by simp [NoColon]⟩
    (fun budget hbudget => ?_) budget hbudget
  obtain ⟨budget, rfl⟩ : ∃ n, budget = n + 1 := Nat.exists_eq_add_one_of_ne_zero (by omega)
  simp only [List.length_cons, List.length_append] at hbudget
  have hread := harguments us rest hus hfollows.1 hfollows.2 budget
    (by simp only [List.length_append]; omega)
  simp only [goOn, filters, Parser.name, hread, bind, Except.bind]
  exact hgoOn budget (by omega)

/-- An assignment takes a conditional first, and then the sign and the value. -/
theorem Accepts.assignment {ls rs : List Lexeme} {target value : Node}
    (htarget : Accepts options (.expression .conditional) ls target)
    (hassignable : target.isAssignable = true)
    (hvalue : Accepts options (.expression .assignment) rs value) :
    Accepts options (.expression .assignment) (ls ++ .symbol .assign :: rs)
      (.assignment target value) := by
  intro tokens rest result htokens hfollows hgoOn budget hbudget
  obtain ⟨ts, index, vs, rfl, hts, hvs⟩ := exists_split htokens
  obtain ⟨budget, rfl⟩ : ∃ n, budget = n + 1 := Nat.exists_eq_add_one_of_ne_zero
    (by simp [depth, Level.rank] at hbudget; omega)
  simp only [List.append_assoc, List.cons_append, List.length_cons, List.length_append, depth,
    Level.rank] at hbudget ⊢
  have hleft := htarget ts (⟨.symbol .assign, index⟩ :: (vs ++ rest)) _ hts
    ⟨endsBefore_cons _ _ rfl _ _, by simp [hassignable]⟩ (fun _ _ => rfl) budget
    (by simp [depth, Level.rank]; omega)
  have hright := hvalue.whole (by decide) hvs hfollows budget
    (by simp [depth, Level.rank]; omega)
  simp only [expression, hleft, hright, hassignable, bind, Except.bind]
  exact hgoOn budget (by omega)

/-- A conditional takes its test first, and then both of its branches. -/
theorem Accepts.conditional {ts as cs : List Lexeme} {test alternate consequent : Node}
    (htest : Accepts options (.expression .or) ts test)
    (halternate : Accepts options (.expression .assignment) as alternate)
    (hconsequent : Accepts options (.expression .assignment) cs consequent) :
    Accepts options (.expression .conditional)
      (ts ++ .symbol .question :: (as ++ .symbol .colon :: cs))
      (.conditional test alternate consequent) := by
  intro tokens rest result htokens hfollows hgoOn budget hbudget
  obtain ⟨us, index, more, rfl, hus, hmore⟩ := exists_split htokens
  obtain ⟨vs, colonIndex, ws, rfl, hvs, hws⟩ := exists_split hmore
  obtain ⟨budget, rfl⟩ : ∃ n, budget = n + 1 := Nat.exists_eq_add_one_of_ne_zero
    (by simp [depth, Level.rank] at hbudget; omega)
  simp only [List.append_assoc, List.cons_append, List.length_cons, List.length_append, depth,
    Level.rank] at hbudget ⊢
  have hfirst := htest.whole (by decide) hus
    (endsBefore_cons .or .question rfl index
      (vs ++ ⟨.symbol .colon, colonIndex⟩ :: (ws ++ rest)))
    budget (by simp [depth, Level.rank]; omega)
  have hsecond := halternate.whole (by decide) hvs
    (endsBefore_cons .assignment .colon rfl colonIndex (ws ++ rest))
    budget (by simp [depth, Level.rank]; omega)
  have hthird := hconsequent.whole (by decide) hws (hfollows.2 rfl) budget
    (by simp [depth, Level.rank]; omega)
  simp only [expression, hfirst, hsecond, hthird, consume_cons, bind, Except.bind]
  exact hgoOn budget (by omega)

/-- A loop over operators takes one operator and goes on with the joined node. -/
theorem Accepts.join {level : Level} {ls rs : List Lexeme} {left right : Node}
    (connective : Connective) (hlevel : connective.level = level)
    (hleft : Accepts options (.expression level) ls left)
    (hright : Accepts options (.expression level.next) rs right) :
    Accepts options (.expression level) (ls ++ .symbol connective.symbol :: rs)
      (connective.join left right) := by
  intro tokens rest result htokens hfollows hgoOn budget hbudget
  obtain ⟨ts, index, us, rfl, hts, hus⟩ := exists_split htokens
  subst hlevel
  simp only [List.append_assoc, List.cons_append] at hbudget ⊢
  refine hleft ts _ result hts (follows_connective connective left index _) (fun budget hbudget => ?_)
    budget hbudget
  obtain ⟨budget, rfl⟩ : ∃ n, budget = n + 1 := Nat.exists_eq_add_one_of_ne_zero (by omega)
  simp only [List.length_cons, List.length_append] at hbudget
  have hdepth : depth connective.level.next ≤ 16 := by simp only [depth]; omega
  have hnext : connective.level.next ≠ .conditional := by
    rcases connective with operator | operator <;> cases operator <;> decide
  have hread := hright.whole hnext hus hfollows.connective budget
    (by simp only [List.length_append]; omega)
  rw [goOn_connective, operands]
  simp only [Connective.ofSymbol?_symbol, ↓reduceIte, hread, bind, Except.bind]
  rw [← goOn_connective]
  exact hgoOn budget (by omega)

/-- A unary operator takes an operand of its own level. -/
theorem Accepts.unary {ls : List Lexeme} {argument : Node} (operator : UnaryOperator)
    (hargument : Accepts options (.expression .unary) ls argument) :
    Accepts options (.expression .unary) (.symbol operator.symbol :: ls)
      (.unary operator true argument) := by
  intro tokens rest result htokens hfollows hgoOn budget hbudget
  obtain ⟨index, us, rfl, hus⟩ := exists_cons htokens
  obtain ⟨budget, rfl⟩ : ∃ n, budget = n + 1 := Nat.exists_eq_add_one_of_ne_zero
    (by simp [depth, Level.rank] at hbudget; omega)
  simp only [List.cons_append, List.length_cons, List.length_append, depth, Level.rank]
    at hbudget ⊢
  have hread := hargument.whole (by decide) hus hfollows budget
    (by simp [depth, Level.rank]; omega)
  simp only [expression, UnaryOperator.ofSymbol?_symbol, hread, bind, Except.bind]
  exact hgoOn budget (by omega)

/-- A chain that begins with a primary expression. -/
theorem Accepts.ofPrimary {ls : List Lexeme} {node : Node}
    (h : ∀ tokens rest, tokens.map Token.lexeme = ls →
      ∀ budget, 16 * (tokens ++ rest).length < budget →
        primary options budget (tokens ++ rest) = .ok (node, rest)) :
    Accepts options (.expression .chain) ls node := by
  intro tokens rest result htokens _ hgoOn budget hbudget
  obtain ⟨budget, rfl⟩ : ∃ n, budget = n + 1 := Nat.exists_eq_add_one_of_ne_zero
    (by simp [depth, Level.rank] at hbudget; omega)
  simp only [depth, Level.rank] at hbudget
  have hread := h tokens rest htokens budget (by omega)
  simp only [expression, hread, bind, Except.bind]
  exact hgoOn budget (by simp only [List.length_append] at hbudget; omega)

/-- Parentheses enclose a primary. -/
theorem Accepts.group {ls : List Lexeme} {node : Node}
    (hnode : Accepts options (.expression .filter) ls node) :
    Accepts options (.expression .chain) (.symbol .openParen :: (ls ++ [.symbol .closeParen]))
      node := by
  apply Accepts.ofPrimary
  intro tokens rest htokens budget hbudget
  obtain ⟨index, ts, closeIndex, rfl, hts⟩ := exists_enclosed htokens
  obtain ⟨budget, rfl⟩ : ∃ n, budget = n + 1 := Nat.exists_eq_add_one_of_ne_zero (by omega)
  simp only [List.cons_append, List.append_assoc, List.nil_append, List.length_cons,
    List.length_append] at hbudget ⊢
  have hread := hnode.whole (by decide) hts
    (endsBefore_cons .filter .closeParen rfl closeIndex rest)
    budget (by simp [depth, Level.rank]; omega)
  simp only [primary, hread, consume_cons, bind, Except.bind]
  rfl

/-- Brackets enclose the elements of a primary. -/
theorem Accepts.array {ls : List Lexeme} {elements : List Node}
    (helements : Accepts options .elements ls elements) :
    Accepts options (.expression .chain) (.symbol .openBracket :: (ls ++ [.symbol .closeBracket]))
      (.array elements) := by
  apply Accepts.ofPrimary
  intro tokens rest htokens budget hbudget
  obtain ⟨index, ts, closeIndex, rfl, hts⟩ := exists_enclosed htokens
  obtain ⟨budget, rfl⟩ : ∃ n, budget = n + 1 := Nat.exists_eq_add_one_of_ne_zero (by omega)
  simp only [List.cons_append, List.append_assoc, List.nil_append, List.length_cons,
    List.length_append] at hbudget ⊢
  have hread := helements ts closeIndex rest hts budget (by simp only [List.length_append]; omega)
  simp only [primary, hread, bind, Except.bind]
  rfl

/-- Braces enclose the properties of a primary. -/
theorem Accepts.object {ls : List Lexeme} {properties : List Property}
    (hproperties : Accepts options .properties ls properties) :
    Accepts options (.expression .chain) (.symbol .openBrace :: (ls ++ [.symbol .closeBrace]))
      (.object properties) := by
  apply Accepts.ofPrimary
  intro tokens rest htokens budget hbudget
  obtain ⟨index, ts, closeIndex, rfl, hts⟩ := exists_enclosed htokens
  obtain ⟨budget, rfl⟩ : ∃ n, budget = n + 1 := Nat.exists_eq_add_one_of_ne_zero (by omega)
  simp only [List.cons_append, List.append_assoc, List.nil_append, List.length_cons,
    List.length_append] at hbudget ⊢
  have hread := hproperties ts closeIndex rest hts budget (by simp only [List.length_append]; omega)
  simp only [primary, hread, bind, Except.bind]
  rfl

/-- A name is a primary. -/
theorem Accepts.name (name : String) :
    Accepts options (.expression .chain) [.identifier name] (primaryName options name) := by
  apply Accepts.ofPrimary
  intro tokens rest htokens budget hbudget
  obtain ⟨index, tail, rfl, htail⟩ := exists_cons htokens
  obtain rfl := List.map_eq_nil_iff.mp htail
  obtain ⟨budget, rfl⟩ : ∃ n, budget = n + 1 := Nat.exists_eq_add_one_of_ne_zero (by omega)
  rfl

/-- A constant is a primary. -/
theorem Accepts.constant (spelling : String) (value : Literal) :
    Accepts options (.expression .chain) [.constant spelling value] (.literal value) := by
  apply Accepts.ofPrimary
  intro tokens rest htokens budget hbudget
  obtain ⟨index, tail, rfl, htail⟩ := exists_cons htokens
  obtain rfl := List.map_eq_nil_iff.mp htail
  obtain ⟨budget, rfl⟩ : ∃ n, budget = n + 1 := Nat.exists_eq_add_one_of_ne_zero (by omega)
  rfl

/-- A chain goes on with a suffix. -/
theorem Accepts.suffix {ls ss : List Lexeme} {holder node : Node}
    (hholder : Accepts options (.expression .chain) ls holder)
    (h : ∀ tokens rest, tokens.map Token.lexeme = ss →
      ∀ budget, 16 * (tokens ++ rest).length < budget + 1 →
        suffixes options (budget + 1) holder (tokens ++ rest) = suffixes options budget node rest)
    (hss : ss ≠ []) : Accepts options (.expression .chain) (ls ++ ss) node := by
  intro tokens rest result htokens _ hgoOn budget hbudget
  obtain ⟨ts, us, rfl, hts, hus⟩ := List.map_eq_append_iff.mp htokens
  have hlength : 0 < us.length := by
    rw [← List.length_map (f := Token.lexeme), hus]
    exact List.length_pos_iff.mpr hss
  rw [List.append_assoc] at hbudget ⊢
  refine hholder ts (us ++ rest) result hts trivial (fun budget hbudget => ?_) budget hbudget
  obtain ⟨budget, rfl⟩ : ∃ n, budget = n + 1 := Nat.exists_eq_add_one_of_ne_zero (by omega)
  rw [goOn, h us rest hus budget hbudget]
  exact hgoOn budget (by simp only [List.length_append] at hbudget; omega)

/-- A chain goes on with a call. -/
theorem Accepts.call {ls as : List Lexeme} {callee : Node} {arguments : List Node}
    (hcallee : Accepts options (.expression .chain) ls callee)
    (harguments : Accepts options .arguments as arguments) :
    Accepts options (.expression .chain)
      (ls ++ .symbol .openParen :: (as ++ [.symbol .closeParen])) (.call callee arguments) := by
  refine hcallee.suffix (fun tokens rest htokens budget hbudget => ?_) (by simp)
  obtain ⟨index, ts, closeIndex, rfl, hts⟩ := exists_enclosed htokens
  simp only [List.cons_append, List.append_assoc, List.nil_append, List.length_cons,
    List.length_append] at hbudget ⊢
  have hread := harguments ts closeIndex rest hts budget (by simp only [List.length_append]; omega)
  simp only [suffixes, hread, bind, Except.bind]

/-- A chain goes on with a property in brackets. -/
theorem Accepts.computedMember {ls ps : List Lexeme} {holder property : Node}
    (hholder : Accepts options (.expression .chain) ls holder)
    (hproperty : Accepts options (.expression .assignment) ps property) :
    Accepts options (.expression .chain)
      (ls ++ .symbol .openBracket :: (ps ++ [.symbol .closeBracket]))
      (.member holder property true) := by
  refine hholder.suffix (fun tokens rest htokens budget hbudget => ?_) (by simp)
  obtain ⟨index, ts, closeIndex, rfl, hts⟩ := exists_enclosed htokens
  simp only [List.cons_append, List.append_assoc, List.nil_append, List.length_cons,
    List.length_append] at hbudget ⊢
  have hread := hproperty.whole (by decide) hts
    (endsBefore_cons .assignment .closeBracket rfl closeIndex rest)
    budget (by simp [depth, Level.rank]; omega)
  simp only [suffixes, hread, consume_cons, bind, Except.bind]

/-- A chain goes on with a property after a point. -/
theorem Accepts.namedMember {ls : List Lexeme} {holder : Node} (name : String)
    (hholder : Accepts options (.expression .chain) ls holder) :
    Accepts options (.expression .chain) (ls ++ [.symbol .dot, .identifier name])
      (.member holder (.identifier name) false) := by
  refine hholder.suffix (fun tokens rest htokens budget hbudget => ?_) (by simp)
  obtain ⟨index, nameIndex, rfl⟩ : ∃ index nameIndex,
      tokens = [⟨.symbol .dot, index⟩, ⟨.identifier name, nameIndex⟩] := by
    obtain ⟨index, more, rfl, hmore⟩ := exists_cons htokens
    obtain ⟨nameIndex, tail, rfl, htail⟩ := exists_cons hmore
    obtain rfl := List.map_eq_nil_iff.mp htail
    exact ⟨index, nameIndex, rfl⟩
  rfl

/-- A filter without a colon has no arguments. -/
theorem Accepts.noFilterArguments : Accepts options .filterArguments [] [] := by
  intro tokens rest htokens _ hcolon budget hbudget
  obtain rfl := List.map_eq_nil_iff.mp htokens
  obtain ⟨budget, rfl⟩ : ∃ n, budget = n + 1 := Nat.exists_eq_add_one_of_ne_zero (by omega)
  rw [List.nil_append]
  unfold Parser.filterArguments
  split
  case h_1 => simp_all
  case h_2 => exact absurd rfl (hcolon _ _)
  case h_3 => rfl

/-- A filter argument ends before the colon of the next one, or where the filter does. -/
theorem Accepts.filterArgument {as bs : List Lexeme} {argument : Node} {arguments : List Node}
    (hargument : Accepts options (.expression .assignment) as argument)
    (harguments : Accepts options .filterArguments bs arguments)
    (hbegins : bs = [] ∨ ∃ cs, bs = .symbol .colon :: cs) :
    Accepts options .filterArguments (.symbol .colon :: (as ++ bs)) (argument :: arguments) := by
  intro tokens rest htokens hends hcolon budget hbudget
  obtain ⟨index, more, rfl, hmore⟩ := exists_cons htokens
  obtain ⟨ts, us, rfl, hts, hus⟩ := List.map_eq_append_iff.mp hmore
  obtain ⟨budget, rfl⟩ : ∃ n, budget = n + 1 := Nat.exists_eq_add_one_of_ne_zero (by omega)
  simp only [List.cons_append, List.append_assoc, List.length_cons, List.length_append]
    at hbudget ⊢
  have hbetween : EndsBefore .assignment (us ++ rest) := by
    rcases hbegins with rfl | ⟨cs, rfl⟩
    · obtain rfl := List.map_eq_nil_iff.mp hus
      exact hends
    · obtain ⟨colonIndex, vs, rfl, -⟩ := exists_cons hus
      exact endsBefore_cons _ _ rfl _ _
  have hfirst := hargument.whole (by decide) hts hbetween budget
    (by simp [depth, Level.rank]; omega)
  have hmore := harguments us rest hus hends hcolon budget
    (by simp only [List.length_append]; omega)
  simp only [Parser.filterArguments, hfirst, hmore, bind, Except.bind]
  rfl

/-- A call that is closed at once has no arguments. -/
theorem Accepts.noArguments : Accepts options .arguments [] [] := by
  intro tokens index rest htokens budget hbudget
  obtain rfl := List.map_eq_nil_iff.mp htokens
  obtain ⟨budget, rfl⟩ : ∃ n, budget = n + 1 := Nat.exists_eq_add_one_of_ne_zero (by omega)
  rfl

/-- An argument is looked for where something begins an expression. -/
theorem arguments_of_begins {budget : Nat} {tokens : List Token}
    (h : StartsWith Lexeme.beginsExpression (tokens.map Token.lexeme)) :
    Parser.arguments options (budget + 1) tokens = moreArguments options budget tokens := by
  obtain ⟨first, ls, htokens, hfirst⟩ := h
  obtain ⟨index, ts, rfl, -⟩ := exists_cons htokens
  cases first with
  | symbol sign => cases sign <;> first | rfl | contradiction
  | _ => rfl

/-- A call that is not closed at once has arguments. -/
theorem Accepts.arguments {as : List Lexeme} {arguments : List Node}
    (hbegins : StartsWith Lexeme.beginsExpression as)
    (harguments : Accepts options .someArguments as arguments) :
    Accepts options .arguments as arguments := by
  intro tokens index rest htokens budget hbudget
  obtain ⟨budget, rfl⟩ : ∃ n, budget = n + 1 := Nat.exists_eq_add_one_of_ne_zero (by omega)
  rw [arguments_of_begins]
  · exact harguments tokens index rest htokens budget (by omega)
  · rw [List.map_append, htokens]
    exact hbegins.append _

/-- The last argument of a call stands before the parenthesis. -/
theorem Accepts.lastArgument {as : List Lexeme} {argument : Node}
    (hargument : Accepts options (.expression .filter) as argument) :
    Accepts options .someArguments as [argument] := by
  intro tokens index rest htokens budget hbudget
  obtain ⟨budget, rfl⟩ : ∃ n, budget = n + 1 := Nat.exists_eq_add_one_of_ne_zero (by omega)
  have hread := hargument.whole (by decide) htokens
    (endsBefore_cons .filter .closeParen rfl index rest)
    budget (by simp [depth, Level.rank] at hbudget ⊢; omega)
  simp only [moreArguments, hread, consume_cons, bind, Except.bind]
  rfl

/-- Every other argument of a call stands before a comma. -/
theorem Accepts.nextArgument {as bs : List Lexeme} {argument : Node} {arguments : List Node}
    (hargument : Accepts options (.expression .filter) as argument)
    (harguments : Accepts options .someArguments bs arguments) :
    Accepts options .someArguments (as ++ .symbol .comma :: bs) (argument :: arguments) := by
  intro tokens index rest htokens budget hbudget
  obtain ⟨ts, commaIndex, us, rfl, hts, hus⟩ := exists_split htokens
  obtain ⟨budget, rfl⟩ : ∃ n, budget = n + 1 := Nat.exists_eq_add_one_of_ne_zero (by omega)
  simp only [List.append_assoc, List.cons_append, List.length_append, List.length_cons]
    at hbudget ⊢
  have hfirst := hargument.whole (by decide) hts
    (endsBefore_cons .filter .comma rfl commaIndex
      (us ++ ⟨.symbol .closeParen, index⟩ :: rest))
    budget (by simp [depth, Level.rank]; omega)
  have hmore := harguments us index rest hus budget (by simp only [List.length_append]; omega)
  simp only [moreArguments, hfirst, hmore, bind, Except.bind]
  rfl

/-- An array that is closed at once, or after a comma, has no more elements. -/
theorem Accepts.noElements : Accepts options .elements [] [] := by
  intro tokens index rest htokens budget hbudget
  obtain rfl := List.map_eq_nil_iff.mp htokens
  obtain ⟨budget, rfl⟩ : ∃ n, budget = n + 1 := Nat.exists_eq_add_one_of_ne_zero (by omega)
  rfl

/-- An element is looked for where something begins an expression. -/
theorem elements_of_begins {budget : Nat} {tokens : List Token}
    (h : StartsWith Lexeme.beginsExpression (tokens.map Token.lexeme)) :
    Parser.elements options (budget + 1) tokens = (do
      let (element, rest) ← expression options budget .assignment tokens
      match rest with
      | ⟨.symbol .comma, _⟩ :: rest =>
        let (elements, rest) ← Parser.elements options budget rest
        return (element :: elements, rest)
      | rest =>
        let rest ← consume .closeBracket rest
        return ([element], rest)) := by
  obtain ⟨first, ls, htokens, hfirst⟩ := h
  obtain ⟨index, ts, rfl, -⟩ := exists_cons htokens
  cases first with
  | symbol sign => cases sign <;> first | rfl | contradiction
  | _ => rfl

/-- The last element of an array may stand before the bracket. -/
theorem Accepts.lastElement {es : List Lexeme} {element : Node}
    (hbegins : StartsWith Lexeme.beginsExpression es)
    (helement : Accepts options (.expression .assignment) es element) :
    Accepts options .elements es [element] := by
  intro tokens index rest htokens budget hbudget
  obtain ⟨budget, rfl⟩ : ∃ n, budget = n + 1 := Nat.exists_eq_add_one_of_ne_zero (by omega)
  have hread := helement.whole (by decide) htokens
    (endsBefore_cons .assignment .closeBracket rfl index rest)
    budget (by simp [depth, Level.rank] at hbudget ⊢; omega)
  rw [elements_of_begins]
  · simp only [hread, consume_cons, bind, Except.bind]
    rfl
  · rw [List.map_append, htokens]
    exact hbegins.append _

/-- An element before a comma is followed by all others. -/
theorem Accepts.nextElement {es fs : List Lexeme} {element : Node} {elements : List Node}
    (hbegins : StartsWith Lexeme.beginsExpression es)
    (helement : Accepts options (.expression .assignment) es element)
    (helements : Accepts options .elements fs elements) :
    Accepts options .elements (es ++ .symbol .comma :: fs) (element :: elements) := by
  intro tokens index rest htokens budget hbudget
  obtain ⟨budget, rfl⟩ : ∃ n, budget = n + 1 := Nat.exists_eq_add_one_of_ne_zero (by omega)
  rw [elements_of_begins]
  · obtain ⟨ts, commaIndex, us, rfl, hts, hus⟩ := exists_split htokens
    simp only [List.append_assoc, List.cons_append, List.length_append, List.length_cons]
      at hbudget ⊢
    have hfirst := helement.whole (by decide) hts
      (endsBefore_cons .assignment .comma rfl commaIndex
        (us ++ ⟨.symbol .closeBracket, index⟩ :: rest))
      budget (by simp [depth, Level.rank]; omega)
    have hmore := helements us index rest hus budget (by simp only [List.length_append]; omega)
    simp only [hfirst, hmore, bind, Except.bind]
    rfl
  · rw [List.map_append, htokens]
    exact (hbegins.append _).append _

/-- An object that is closed at once, or after a comma, has no more properties. -/
theorem Accepts.noProperties : Accepts options .properties [] [] := by
  intro tokens index rest htokens budget hbudget
  obtain rfl := List.map_eq_nil_iff.mp htokens
  obtain ⟨budget, rfl⟩ : ∃ n, budget = n + 1 := Nat.exists_eq_add_one_of_ne_zero (by omega)
  rfl

/-- A property is looked for where something begins one. -/
theorem properties_of_begins {budget : Nat} {tokens : List Token}
    (h : StartsWith Lexeme.beginsProperty (tokens.map Token.lexeme)) :
    Parser.properties options (budget + 1) tokens = (do
      let (property, rest) ← Parser.property options budget tokens
      match rest with
      | ⟨.symbol .comma, _⟩ :: rest =>
        let (properties, rest) ← Parser.properties options budget rest
        return (property :: properties, rest)
      | rest =>
        let rest ← consume .closeBrace rest
        return ([property], rest)) := by
  obtain ⟨first, ls, htokens, hfirst⟩ := h
  obtain ⟨index, ts, rfl, -⟩ := exists_cons htokens
  cases first with
  | symbol sign => cases sign <;> first | rfl | contradiction
  | _ => rfl

/-- The last property of an object may stand before the brace. -/
theorem Accepts.lastProperty {ps : List Lexeme} {property : Property}
    (hbegins : StartsWith Lexeme.beginsProperty ps)
    (hproperty : Accepts options .property ps property) :
    Accepts options .properties ps [property] := by
  intro tokens index rest htokens budget hbudget
  obtain ⟨budget, rfl⟩ : ∃ n, budget = n + 1 := Nat.exists_eq_add_one_of_ne_zero (by omega)
  have hread := hproperty tokens (⟨.symbol .closeBrace, index⟩ :: rest) htokens
    (endsBefore_cons _ _ rfl _ _) (by simp [NoColon]) budget
    (by simp only [List.length_append, List.length_cons] at hbudget ⊢; omega)
  rw [properties_of_begins]
  · simp only [hread, consume_cons, bind, Except.bind]
    rfl
  · rw [List.map_append, htokens]
    exact hbegins.append _

/-- A property before a comma is followed by all others. -/
theorem Accepts.nextProperty {ps qs : List Lexeme} {property : Property}
    {properties : List Property} (hbegins : StartsWith Lexeme.beginsProperty ps)
    (hproperty : Accepts options .property ps property)
    (hproperties : Accepts options .properties qs properties) :
    Accepts options .properties (ps ++ .symbol .comma :: qs) (property :: properties) := by
  intro tokens index rest htokens budget hbudget
  obtain ⟨budget, rfl⟩ : ∃ n, budget = n + 1 := Nat.exists_eq_add_one_of_ne_zero (by omega)
  rw [properties_of_begins]
  · obtain ⟨ts, commaIndex, us, rfl, hts, hus⟩ := exists_split htokens
    simp only [List.append_assoc, List.cons_append, List.length_append, List.length_cons]
      at hbudget ⊢
    have hfirst := hproperty ts
      (⟨.symbol .comma, commaIndex⟩ :: (us ++ ⟨.symbol .closeBrace, index⟩ :: rest)) hts
      (endsBefore_cons _ _ rfl _ _) (by simp [NoColon]) budget
      (by simp only [List.length_append, List.length_cons]; omega)
    have hmore := hproperties us index rest hus budget (by simp only [List.length_append]; omega)
    simp only [hfirst, hmore, bind, Except.bind]
    rfl
  · rw [List.map_append, htokens]
    exact (hbegins.append _).append _

/-- A constant key takes a colon and a value. -/
theorem Accepts.constantKey {vs : List Lexeme} {value : Node} (spelling : String) (key : Literal)
    (hvalue : Accepts options (.expression .assignment) vs value) :
    Accepts options .property (.constant spelling key :: .symbol .colon :: vs)
      (.entry (.literal key) value false) := by
  intro tokens rest htokens hends _ budget hbudget
  obtain ⟨index, more, rfl, hmore⟩ := exists_cons htokens
  obtain ⟨colonIndex, ts, rfl, hts⟩ := exists_cons hmore
  obtain ⟨budget, rfl⟩ : ∃ n, budget = n + 1 := Nat.exists_eq_add_one_of_ne_zero (by omega)
  simp only [List.cons_append, List.length_cons] at hbudget ⊢
  have hread := hvalue.whole (by decide) hts hends budget
    (by simp [depth, Level.rank] at hbudget ⊢; omega)
  simp only [Parser.property, consume_cons, hread, bind, Except.bind]
  rfl

/-- A name with a colon after it takes a value. -/
theorem Accepts.namedKey {vs : List Lexeme} {value : Node} (key : String)
    (hvalue : Accepts options (.expression .assignment) vs value) :
    Accepts options .property (.identifier key :: .symbol .colon :: vs)
      (.entry (.identifier key) value false) := by
  intro tokens rest htokens hends _ budget hbudget
  obtain ⟨index, more, rfl, hmore⟩ := exists_cons htokens
  obtain ⟨colonIndex, ts, rfl, hts⟩ := exists_cons hmore
  obtain ⟨budget, rfl⟩ : ∃ n, budget = n + 1 := Nat.exists_eq_add_one_of_ne_zero (by omega)
  simp only [List.cons_append, List.length_cons] at hbudget ⊢
  have hread := hvalue.whole (by decide) hts hends budget
    (by simp [depth, Level.rank] at hbudget ⊢; omega)
  simp only [Parser.property, hread, bind, Except.bind]
  rfl

/-- A name that no colon follows is its own value. -/
theorem Accepts.shorthand (key : String) :
    Accepts options .property [.identifier key] (.entry (.identifier key) (.identifier key) false) := by
  intro tokens rest htokens _ hcolon budget hbudget
  obtain ⟨index, tail, rfl, htail⟩ := exists_cons htokens
  obtain rfl := List.map_eq_nil_iff.mp htail
  obtain ⟨budget, rfl⟩ : ∃ n, budget = n + 1 := Nat.exists_eq_add_one_of_ne_zero (by omega)
  simp only [List.cons_append, List.nil_append, Parser.property]
  split
  case h_1 => exact absurd rfl (hcolon _ _)
  case h_2 => rfl

/-- A key in brackets takes a colon and a value. -/
theorem Accepts.computedKey {ks vs : List Lexeme} {key value : Node}
    (hkey : Accepts options (.expression .assignment) ks key)
    (hvalue : Accepts options (.expression .assignment) vs value) :
    Accepts options .property
      (.symbol .openBracket :: (ks ++ .symbol .closeBracket :: .symbol .colon :: vs))
      (.entry key value true) := by
  intro tokens rest htokens hends _ budget hbudget
  obtain ⟨index, more, rfl, hmore⟩ := exists_cons htokens
  obtain ⟨ts, closeIndex, more, rfl, hts, hmore⟩ := exists_split hmore
  obtain ⟨colonIndex, us, rfl, hus⟩ := exists_cons hmore
  obtain ⟨budget, rfl⟩ : ∃ n, budget = n + 1 := Nat.exists_eq_add_one_of_ne_zero (by omega)
  simp only [List.cons_append, List.append_assoc, List.length_cons, List.length_append]
    at hbudget ⊢
  have hfirst := hkey.whole (by decide) hts
    (endsBefore_cons .assignment .closeBracket rfl closeIndex
      (⟨.symbol .colon, colonIndex⟩ :: (us ++ rest)))
    budget (by simp [depth, Level.rank]; omega)
  have hread := hvalue.whole (by decide) hus hends budget
    (by simp [depth, Level.rank]; omega)
  simp only [Parser.property, hfirst, consume_cons, hread, bind, Except.bind]
  rfl

/-- No tokens are no statements. -/
theorem Accepts.noStatements : Accepts options .statements [] [] := by
  intro tokens htokens budget hbudget
  obtain rfl := List.map_eq_nil_iff.mp htokens
  obtain ⟨budget, rfl⟩ : ∃ n, budget = n + 1 := Nat.exists_eq_add_one_of_ne_zero (by omega)
  rfl

/-- A statement is looked for where something begins an expression. -/
theorem statements_of_begins {budget : Nat} {tokens : List Token}
    (h : StartsWith Lexeme.beginsExpression (tokens.map Token.lexeme)) :
    statements options (budget + 1) tokens = (do
      let (node, rest) ← expression options budget .filter tokens
      match rest with
      | ⟨.symbol .semicolon, _⟩ :: rest =>
        let (more, rest) ← statements options budget rest
        return (.statement node :: more, rest)
      | rest => return ([.statement node], rest)) := by
  obtain ⟨first, ls, htokens, hfirst⟩ := h
  obtain ⟨index, ts, rfl, -⟩ := exists_cons htokens
  have hends : endsStatement ⟨first, index⟩ = false := by
    cases first with
    | symbol sign => cases sign <;> first | rfl | contradiction
    | _ => rfl
  simp only [statements, hends]
  cases expression options budget .filter (⟨first, index⟩ :: ts) <;> rfl

/-- The last statement may stand before the end. -/
theorem Accepts.lastStatement {ls : List Lexeme} {node : Node}
    (hbegins : StartsWith Lexeme.beginsExpression ls)
    (hnode : Accepts options (.expression .filter) ls node) :
    Accepts options .statements ls [.statement node] := by
  intro tokens htokens budget hbudget
  obtain ⟨budget, rfl⟩ : ∃ n, budget = n + 1 := Nat.exists_eq_add_one_of_ne_zero (by omega)
  have hread := hnode.whole (by decide) htokens (endsBefore_nil _) budget
    (by simp [depth, Level.rank] at hbudget ⊢; omega)
  rw [List.append_nil] at hread
  rw [statements_of_begins (by rw [htokens]; exact hbegins)]
  simp only [hread, bind, Except.bind]
  rfl

/-- A semicolon alone adds no statement. -/
theorem Accepts.emptyStatement {ls : List Lexeme} {body : List Node}
    (hbody : Accepts options .statements ls body) :
    Accepts options .statements (.symbol .semicolon :: ls) body := by
  intro tokens htokens budget hbudget
  obtain ⟨index, ts, rfl, hts⟩ := exists_cons htokens
  obtain ⟨budget, rfl⟩ : ∃ n, budget = n + 1 := Nat.exists_eq_add_one_of_ne_zero (by omega)
  have hmore := hbody ts hts budget (by simp only [List.length_cons] at hbudget; omega)
  have hends : endsStatement ⟨.symbol .semicolon, index⟩ = true := rfl
  simp only [statements, hends, if_true, hmore, pure, Except.pure, bind, Except.bind]
  rfl

/-- A statement before a semicolon is followed by all others. -/
theorem Accepts.nextStatement {ls ms : List Lexeme} {node : Node} {body : List Node}
    (hbegins : StartsWith Lexeme.beginsExpression ls)
    (hnode : Accepts options (.expression .filter) ls node)
    (hbody : Accepts options .statements ms body) :
    Accepts options .statements (ls ++ .symbol .semicolon :: ms) (.statement node :: body) := by
  intro tokens htokens budget hbudget
  obtain ⟨budget, rfl⟩ : ∃ n, budget = n + 1 := Nat.exists_eq_add_one_of_ne_zero (by omega)
  rw [statements_of_begins (by rw [htokens]; exact hbegins.append _)]
  obtain ⟨ts, index, us, rfl, hts, hus⟩ := exists_split htokens
  simp only [List.length_append, List.length_cons] at hbudget
  have hfirst := hnode.whole (by decide) hts
    (endsBefore_cons .filter .semicolon rfl index us)
    budget (by simp [depth, Level.rank]; omega)
  have hmore := hbody us hus budget (by omega)
  simp only [hfirst, hmore, bind, Except.bind]
  rfl

/-- A program is all its statements, within the budget of its tokens. -/
theorem Accepts.program {ls : List Lexeme} {body : List Node}
    (hbody : Accepts options .statements ls body) : Accepts options .program ls (.program body) := by
  intro tokens htokens
  have hread := hbody tokens htokens (budget tokens.length) (by simp only [budget]; omega)
  simp only [Parser.program, hread, bind, Except.bind]
  rfl

/-- A phrase is taken from the front of any tokens that may follow it. -/
theorem accepts {category : Category} {ls : List Lexeme} {tree : category.Tree}
    (h : Derives options category ls tree) : Accepts options category ls tree := by
  induction h with
  | tighter hlevel hnode ih =>
    obtain ⟨hchain, rfl⟩ := Level.precedes_iff.mp hlevel
    exact .tighter hchain hnode.begins ih
  | filter _ _ hinput harguments => exact .filter hinput harguments
  | assignment _ hassignable _ htarget hvalue => exact .assignment htarget hassignable hvalue
  | conditional _ _ _ htest halternate hconsequent =>
    exact .conditional htest halternate hconsequent
  | join hjoins hlevel _ _ hleft hright =>
    obtain ⟨connective, hconnective, rfl, rfl⟩ := Level.joins_iff.mp hjoins
    obtain ⟨-, rfl⟩ := Level.precedes_iff.mp hlevel
    exact .join connective hconnective hleft hright
  | unary operator _ hargument => exact .unary operator hargument
  | group _ hnode => exact .group hnode
  | array _ helements => exact .array helements
  | object _ hproperties => exact .object hproperties
  | name hdenotes =>
    obtain rfl := denotes_iff.mp hdenotes
    exact .name _
  | constant spelling value => exact .constant spelling value
  | call _ _ hcallee harguments => exact .call hcallee harguments
  | computedMember _ _ hholder hproperty => exact .computedMember hholder hproperty
  | namedMember name _ hholder => exact .namedMember name hholder
  | noFilterArguments => exact .noFilterArguments
  | filterArgument _ hmore hargument harguments =>
    exact .filterArgument hargument harguments hmore.begins
  | noArguments => exact .noArguments
  | arguments hmore harguments => exact .arguments hmore.begins harguments
  | lastArgument _ hargument => exact .lastArgument hargument
  | nextArgument _ _ hargument harguments => exact .nextArgument hargument harguments
  | noElements => exact .noElements
  | lastElement hnode helement => exact .lastElement hnode.begins.expression helement
  | nextElement hnode _ helement helements =>
    exact .nextElement hnode.begins.expression helement helements
  | noProperties => exact .noProperties
  | lastProperty hproperty ih => exact .lastProperty hproperty.begins ih
  | nextProperty hproperty _ ih hproperties => exact .nextProperty hproperty.begins ih hproperties
  | constantKey spelling key _ hvalue => exact .constantKey spelling key hvalue
  | namedKey key _ hvalue => exact .namedKey key hvalue
  | shorthand key => exact .shorthand key
  | computedKey _ _ hkey hvalue => exact .computedKey hkey hvalue
  | noStatements => exact .noStatements
  | lastStatement hnode ih => exact .lastStatement hnode.begins.expression ih
  | emptyStatement _ hbody => exact .emptyStatement hbody
  | nextStatement hnode _ ih hbody => exact .nextStatement hnode.begins.expression ih hbody
  | program _ hbody => exact .program hbody

/-- Every program of the grammar is read as the tree that it denotes. -/
theorem program_of_derives {tokens : List Token} {tree : Node}
    (h : Derives options .program (tokens.map Token.lexeme) tree) :
    program options tokens = .ok tree :=
  accepts h tokens rfl

/-- The parser accepts exactly the programs of the grammar, and no tokens have two trees. -/
theorem program_eq_ok_iff_derives (options : Options) (tokens : List Token) :
    (∀ tree, program options tokens = .ok tree ↔
      Derives options .program (tokens.map Token.lexeme) tree) ∧
    ∀ tree tree', Derives options .program (tokens.map Token.lexeme) tree →
      Derives options .program (tokens.map Token.lexeme) tree' → tree = tree' := by
  refine ⟨fun tree => ⟨derives_of_program, program_of_derives⟩, fun tree tree' h h' => ?_⟩
  have hread := program_of_derives h
  rw [program_of_derives h'] at hread
  exact (Except.ok.inj hread).symm

end Parser

end TemplateExpr
