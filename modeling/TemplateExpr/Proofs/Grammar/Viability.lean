import TemplateExpr.Proofs.Grammar.Completeness
import TemplateExpr.Proofs.Grammar.Lookahead

/-!
# What can still become a phrase

When a parsing function fails, the tokens in front of the failure are the beginning of some phrase
of its category. Each function keeps this of the functions that it calls: a phrase of theirs is
completed to one of its own. The nesting budget is accounted for along with it, since both follow
the same calls.
-/

namespace TemplateExpr

variable {options : Options}

/-- The lexemes are a phrase of the category. -/
def Phrase (options : Options) (category : Category) (ls : List Lexeme) : Prop :=
  ∃ tree, Derives options category ls tree

/-- The lexemes are a phrase of the category and the symbol that closes it. -/
def ClosedPhrase (options : Options) (category : Category) (close : Symbol) (ls : List Lexeme) :
    Prop :=
  ∃ inner, ls = inner ++ [.symbol close] ∧ Phrase options category inner

/-- The lexemes make every phrase of the level that denotes `left` a longer phrase of the level. -/
def Continuation (options : Options) (level : Level) (left : Node) (ls : List Lexeme) : Prop :=
  ∀ front, Derives options (.expression level) front left →
    Phrase options (.expression level) (front ++ ls)

/-- What is derived is a phrase. -/
theorem Derives.phrase {category : Category} {ls : List Lexeme} {tree : category.Tree}
    (h : Derives options category ls tree) : Phrase options category ls :=
  ⟨tree, h⟩

/-- A name is an expression of every level. -/
theorem Derives.anyName (level : Level) :
    Derives options (.expression level) [.identifier "x"] (Parser.primaryName options "x") :=
  (Derives.word "x").loosen (Level.rank_le_chain level)

namespace Parser

/-- No expression begins deeper than the others do together. -/
theorem depth_le (level : Level) : depth level ≤ 12 := Nat.sub_le 12 level.rank

/-- No phrase can have the next token here, or one must have more tokens. -/
def Stuck : List Token → ParseFailure → Prop
  | [], failure => failure = .unexpectedEnd
  | token :: _, failure => ∃ fault, failure = .unfit token fault

/-- What a failure says of the tokens, where lexemes of some kind were looked for. Tokens that end
too early, and the ones before a token that does not fit, can be continued to lexemes of the kind.
The nesting budget runs out only if it was too small for so many tokens. -/
def Located (kind : List Lexeme → Prop) (budget slack : Nat) (tokens : List Token) :
    ParseFailure → Prop
  | .unexpectedEnd => ∃ more, kind (tokens.map Token.lexeme ++ more)
  | .unfit token _ => ∃ front rest more, tokens = front ++ token :: rest ∧
      kind (front.map Token.lexeme ++ more)
  | .notAssignable => True
  | .exhausted => budget < 16 * tokens.length + slack

section

variable {kind inner : List Lexeme → Prop} {budget slack slack' : Nat} {tokens rest : List Token}
  {failure : ParseFailure}

/-- A failure after some tokens is located among all of them, if the kind that was looked for after
them can be completed to the kind that is looked for. -/
theorem Located.after (front : List Token) (h : Located inner budget slack' rest failure)
    (htokens : tokens = front ++ rest)
    (hkind : ∀ ls, inner ls → ∃ more, kind (front.map Token.lexeme ++ (ls ++ more)))
    (hslack : slack' < 16 * front.length + slack) :
    Located kind (budget + 1) slack tokens failure := by
  subst htokens
  cases failure with
  | unexpectedEnd =>
    obtain ⟨more, hmore⟩ := h
    obtain ⟨last, hlast⟩ := hkind _ hmore
    exact ⟨more ++ last, by simpa using hlast⟩
  | unfit token fault =>
    obtain ⟨before, after, more, rfl, hmore⟩ := h
    obtain ⟨last, hlast⟩ := hkind _ hmore
    exact ⟨front ++ before, after, more ++ last, by simp, by simpa using hlast⟩
  | notAssignable => trivial
  | exhausted =>
    simp only [Located, List.length_append] at h ⊢
    omega

/-- A phrase that fails after some tokens is located among all of them, if it is completed to the
kind that is looked for by the lexemes `more`. -/
theorem Located.ofPhrase {category : Category} (front : List Token) (more : List Lexeme)
    (h : Located (Phrase options category) budget slack' rest failure)
    (htokens : tokens = front ++ rest) (hslack : slack' < 16 * front.length + slack)
    (hkind : ∀ ls tree, Derives options category ls tree →
      kind (front.map Token.lexeme ++ (ls ++ more))) :
    Located kind (budget + 1) slack tokens failure := by
  refine h.after front htokens (fun ls hls => ?_) hslack
  obtain ⟨tree, htree⟩ := hls
  exact ⟨more, hkind ls tree htree⟩

/-- A phrase that fails on the way to the symbol that closes it is located among all tokens, if
what it encloses is completed to the kind that is looked for by this symbol. -/
theorem Located.ofClosed {category : Category} {close : Symbol} (front : List Token)
    (h : Located (ClosedPhrase options category close) budget slack' rest failure)
    (htokens : tokens = front ++ rest) (hslack : slack' < 16 * front.length + slack)
    (hkind : ∀ ls tree, Derives options category ls tree →
      kind (front.map Token.lexeme ++ (ls ++ [.symbol close]))) :
    Located kind (budget + 1) slack tokens failure := by
  refine h.after front htokens (fun ls hls => ?_) hslack
  obtain ⟨inner, rfl, tree, htree⟩ := hls
  exact ⟨[], by simpa using hkind inner tree htree⟩

/-- A failure at the token after some others, which can be continued. -/
theorem Located.here (front : List Token) (h : Stuck rest failure)
    (htokens : tokens = front ++ rest) (more : List Lexeme)
    (hkind : kind (front.map Token.lexeme ++ more)) :
    Located kind budget slack tokens failure := by
  subst htokens
  cases rest with
  | nil =>
    obtain rfl := h
    exact ⟨more, by simpa using hkind⟩
  | cons token rest =>
    obtain ⟨fault, rfl⟩ := h
    exact ⟨front, rest, more, rfl, hkind⟩

/-- A symbol that is not consumed stops the run before the next token. -/
theorem consume_eq_error {sign : Symbol} (h : consume sign tokens = .error failure) :
    Stuck tokens failure := by
  cases tokens with
  | nil => exact (Except.error.inj h).symm
  | cons token rest =>
    simp only [consume] at h
    split at h
    · simp at h
    · exact ⟨_, (Except.error.inj h).symm⟩

/-- A name that is missing stops the run before the next token. -/
theorem name_eq_error (h : Parser.name tokens = .error failure) : Stuck tokens failure := by
  unfold Parser.name at h
  split at h
  · exact (Except.error.inj h).symm
  · simp at h
  · exact ⟨_, (Except.error.inj h).symm⟩

/-- After an item of a list the run fails in the further items, or before a token that is neither a
comma nor the symbol that closes the list. -/
theorem located_listed {α : Type} {one many : Category} (close : Symbol)
    (more : List Token → Reading (Front (List α))) (item : α) {front : List Token}
    {tree : one.Tree} (hfront : Derives options one (front.map Token.lexeme) tree)
    (hlast : ∀ ls tree, Derives options one ls tree → Phrase options many ls)
    (hnext : ∀ ls ms tree trees, Derives options one ls tree → Derives options many ms trees →
      Phrase options many (ls ++ .symbol .comma :: ms))
    (hmore : ∀ tokens, more tokens = .error failure →
      Located (ClosedPhrase options many close) budget slack tokens failure)
    (h : listed close more item rest = .error failure) :
    Located (ClosedPhrase options many close) (budget + 1) slack (front ++ rest) failure := by
  unfold listed at h
  split at h
  case h_1 index rest =>
    simp only [bind_eq_error, pure_eq_error, and_false, exists_false, or_false] at h
    refine (hmore _ h).ofClosed (front ++ [⟨.symbol .comma, index⟩]) (by simp) (by simp)
      fun ms trees htrees => ⟨_, ?_, hnext _ _ _ _ hfront htrees⟩
    simp
  case h_2 =>
    simp only [bind_eq_error, pure_eq_error, and_false, exists_false, or_false] at h
    exact .here front (consume_eq_error h) rfl [.symbol close] ⟨_, rfl, hlast _ _ hfront⟩

end

/-- Where each parsing function fails within a nesting budget. Its slack is the number of calls, its
own one included, that can follow each other before a token is taken. -/
structure Locates (options : Options) (budget : Nat) : Prop where
  expression {level : Level} {tokens : List Token} {failure : ParseFailure} :
    expression options budget level tokens = .error failure →
      Located (Phrase options (.expression level)) budget (depth level) tokens failure
  filters {input : Node} {tokens : List Token} {failure : ParseFailure} :
    filters options budget input tokens = .error failure →
      Located (Continuation options .filter input) budget 1 tokens failure
  filterArguments {tokens : List Token} {failure : ParseFailure} :
    filterArguments options budget tokens = .error failure →
      Located (Phrase options .filterArguments) budget 1 tokens failure
  operands {level : Level} {left : Node} {tokens : List Token} {failure : ParseFailure} :
    operands options budget level left tokens = .error failure →
      Located (Continuation options level left) budget 1 tokens failure
  primary {tokens : List Token} {failure : ParseFailure} :
    primary options budget tokens = .error failure →
      Located (Phrase options (.expression .chain)) budget 1 tokens failure
  suffixes {left : Node} {tokens : List Token} {failure : ParseFailure} :
    suffixes options budget left tokens = .error failure →
      Located (Continuation options .chain left) budget 1 tokens failure
  arguments {tokens : List Token} {failure : ParseFailure} :
    Parser.arguments options budget tokens = .error failure →
      Located (ClosedPhrase options .arguments .closeParen) budget 14 tokens failure
  moreArguments {tokens : List Token} {failure : ParseFailure} :
    moreArguments options budget tokens = .error failure →
      Located (ClosedPhrase options .someArguments .closeParen) budget 13 tokens failure
  elements {tokens : List Token} {failure : ParseFailure} :
    Parser.elements options budget tokens = .error failure →
      Located (ClosedPhrase options .elements .closeBracket) budget 12 tokens failure
  properties {tokens : List Token} {failure : ParseFailure} :
    Parser.properties options budget tokens = .error failure →
      Located (ClosedPhrase options .properties .closeBrace) budget 2 tokens failure
  property {tokens : List Token} {failure : ParseFailure} :
    Parser.property options budget tokens = .error failure →
      Located (Phrase options .property) budget 1 tokens failure

/-- Every function needs some budget. -/
theorem Locates.zero : Locates options 0 := by
  have hdepth (level : Level) (n : Nat) : 0 < n + depth level :=
    Nat.add_pos_right n (by cases level <;> decide)
  constructor <;> intros <;> rename_i h <;>
    simp only [Parser.expression, Parser.filters, Parser.filterArguments, Parser.operands,
      Parser.primary, Parser.suffixes, Parser.arguments, Parser.moreArguments, Parser.elements,
      Parser.properties, Parser.property, Except.error.injEq] at h <;>
    subst h <;> simp [Located, hdepth]

section Step

variable {budget : Nat} (ih : Locates options budget)
include ih

/-- A level that fails within the next one. -/
theorem Locates.tighter {level : Level} (hlevel : level ≠ .chain) {tokens : List Token}
    {failure : ParseFailure}
    (h : Parser.expression options budget level.next tokens = .error failure) :
    Located (Phrase options (.expression level)) (budget + 1) (depth level) tokens failure := by
  refine (ih.expression h).ofPhrase [] [] rfl ?_ fun ls node hnode => ?_
  · cases level <;> first | decide | contradiction
  · simpa using (Derives.tighten hlevel hnode).phrase

/-- A level of binary operators fails in its first operand or in a further one. -/
theorem Locates.binaryLevel {level : Level} (hlevel : level ≠ .chain) {tokens : List Token}
    {failure : ParseFailure}
    (h : (do
      let (left, rest) ← Parser.expression options budget level.next tokens
      Parser.operands options budget level left rest) = .error failure) :
    Located (Phrase options (.expression level)) (budget + 1) (depth level) tokens failure := by
  rcases bind_eq_error.mp h with hfirst | ⟨⟨left, rest⟩, hread, hmore⟩
  · exact ih.tighter hlevel hfirst
  · obtain ⟨front, rfl, hleft⟩ := (sound options budget).expression hread
    refine (ih.operands hmore).after front rfl (fun ls hls => ⟨[], ?_⟩) ?_
    · simpa using hls _ (.tighten hlevel hleft)
    · have : 1 < depth level := by cases level <;> decide
      omega

/-- After a target the run fails in the value that is assigned, or because it is no target. -/
theorem Locates.assigned {target : Node} {front tokens : List Token} {failure : ParseFailure}
    (htarget : Derives options (.expression .conditional) (front.map Token.lexeme) target)
    (h : Parser.assigned options budget target tokens = .error failure) :
    Located (Phrase options (.expression .assignment)) (budget + 1) (depth .assignment)
      (front ++ tokens) failure := by
  unfold Parser.assigned at h
  split at h
  case h_1 index rest =>
    split at h
    case isTrue hassignable =>
      simp only [bind_eq_error, pure_eq_error, and_false, exists_false, or_false] at h
      refine (ih.expression h).ofPhrase (front ++ [⟨.symbol .assign, index⟩]) [] (by simp)
        (by simp) fun ls value hvalue => ?_
      simpa using (Derives.assignment htarget hassignable hvalue).phrase
    case isFalse =>
      cases h
      trivial
  case h_2 => simp at h

/-- After a test the run fails in one of the branches, or where the colon is missing. -/
theorem Locates.chosen {test : Node} {front tokens : List Token} {failure : ParseFailure}
    (htest : Derives options (.expression .or) (front.map Token.lexeme) test)
    (h : Parser.chosen options budget test tokens = .error failure) :
    Located (Phrase options (.expression .conditional)) (budget + 1) (depth .conditional)
      (front ++ tokens) failure := by
  unfold Parser.chosen at h
  split at h
  case h_1 index rest =>
    simp only [bind_eq_error, Prod.exists, pure_eq_error, and_false, exists_false, or_false] at h
    rcases h with hfirst | ⟨alternate, rest, hread, hcolon | ⟨rest, hcolon, hsecond⟩⟩
    · refine (ih.expression hfirst).ofPhrase (front ++ [⟨.symbol .question, index⟩])
        [.symbol .colon, .identifier "x"] (by simp) (by simp [depth, Level.rank]; omega)
        fun ls alternate halternate => ?_
      simpa using (Derives.conditional htest halternate (.anyName .assignment)).phrase
    · obtain ⟨as, rfl, halternate⟩ := (sound options budget).expression hread
      refine .here (front ++ ⟨.symbol .question, index⟩ :: as) (consume_eq_error hcolon) (by simp)
        [.symbol .colon, .identifier "x"] ?_
      simpa using (Derives.conditional htest halternate (.anyName .assignment)).phrase
    · obtain ⟨as, rfl, halternate⟩ := (sound options budget).expression hread
      obtain ⟨colonIndex, rfl⟩ := consume_eq_ok hcolon
      refine (ih.expression hsecond).ofPhrase
        (front ++ ⟨.symbol .question, index⟩ :: (as ++ [⟨.symbol .colon, colonIndex⟩])) []
        (by simp) (by simp [depth, Level.rank]; omega) fun ls consequent hconsequent => ?_
      simpa using (Derives.conditional htest halternate hconsequent).phrase
  case h_2 => simp at h

/-- An expression fails where the functions fail that it calls. -/
theorem Locates.expression_succ {level : Level} {tokens : List Token} {failure : ParseFailure}
    (h : Parser.expression options (budget + 1) level tokens = .error failure) :
    Located (Phrase options (.expression level)) (budget + 1) (depth level) tokens failure := by
  have hsound := sound options budget
  cases level with
  | filter =>
    rcases bind_eq_error.mp h with hfirst | ⟨⟨input, rest⟩, hread, hmore⟩
    · exact ih.tighter (by decide) hfirst
    · obtain ⟨front, rfl, hinput⟩ := hsound.expression hread
      refine (ih.filters hmore).after front rfl (fun ls hls => ⟨[], ?_⟩)
        (by simp [depth, Level.rank])
      simpa using hls _ (.tighten (by decide) hinput)
  | assignment =>
    rcases bind_eq_error.mp h with hfirst | ⟨⟨target, rest⟩, hread, hmore⟩
    · exact ih.tighter (by decide) hfirst
    · obtain ⟨front, rfl, htarget⟩ := hsound.expression hread
      exact ih.assigned htarget hmore
  | conditional =>
    rcases bind_eq_error.mp h with hfirst | ⟨⟨test, rest⟩, hread, hmore⟩
    · exact ih.tighter (by decide) hfirst
    · obtain ⟨front, rfl, htest⟩ := hsound.expression hread
      exact ih.chosen htest hmore
  | or | and | equality | relational | additive | multiplicative =>
    exact ih.binaryLevel (by decide) h
  | unary =>
    simp only [Parser.expression] at h
    split at h
    case h_1 sign index tail =>
      split at h
      case h_1 operator hoperator =>
        obtain rfl := UnaryOperator.symbol_of_ofSymbol? hoperator
        simp only [bind_eq_error, pure_eq_error, and_false, exists_false, or_false] at h
        refine (ih.expression h).ofPhrase [⟨.symbol operator.symbol, index⟩] [] rfl (by simp)
          fun ls argument hargument => ?_
        simpa using (Derives.unary operator hargument).phrase
      case h_2 => exact ih.tighter (by decide) h
    case h_2 => exact ih.tighter (by decide) h
  | chain =>
    rcases bind_eq_error.mp h with hfirst | ⟨⟨first, rest⟩, hread, hmore⟩
    · exact (ih.primary hfirst).after [] rfl (fun ls hls => ⟨[], by simpa using hls⟩) (by decide)
    · obtain ⟨front, rfl, hnode⟩ := hsound.primary hread
      refine (ih.suffixes hmore).after front rfl (fun ls hls => ⟨[], ?_⟩)
        (by simp [depth, Level.rank])
      simpa using hls _ hnode

/-- Filters fail in a name, in an argument or in further filters. -/
theorem Locates.filters_succ {input : Node} {tokens : List Token} {failure : ParseFailure}
    (h : Parser.filters options (budget + 1) input tokens = .error failure) :
    Located (Continuation options .filter input) (budget + 1) 1 tokens failure := by
  unfold Parser.filters at h
  split at h
  case h_1 => simp_all
  case h_2 index tail hbudget =>
    obtain rfl := Nat.succ.inj hbudget
    simp only [bind_eq_error, Prod.exists] at h
    rcases h with hname | ⟨text, rest, hname, harguments | ⟨arguments, rest, hread, hmore⟩⟩
    · refine .here [⟨.symbol .pipe, index⟩] (name_eq_error hname) rfl [.identifier "x"]
        fun ls hinput => ?_
      simpa using (Derives.filter hinput .noFilterArguments).phrase
    · obtain ⟨nameIndex, rfl⟩ := name_eq_ok hname
      refine (ih.filterArguments harguments).ofPhrase
        [⟨.symbol .pipe, index⟩, ⟨.identifier text, nameIndex⟩] [] rfl (by simp)
        fun as arguments harguments ls hinput => ?_
      simpa using (Derives.filter hinput harguments).phrase
    · obtain ⟨nameIndex, rfl⟩ := name_eq_ok hname
      obtain ⟨as, rfl, harguments⟩ := (sound options budget).filterArguments hread
      refine (ih.filters hmore).after
        (⟨.symbol .pipe, index⟩ :: ⟨.identifier text, nameIndex⟩ :: as) (by simp)
        (fun ms hms => ⟨[], fun ls hinput => ?_⟩) (by simp)
      simpa using hms _ (.filter hinput harguments)
  case h_3 => simp at h

/-- Filter arguments fail in one of them. -/
theorem Locates.filterArguments_succ {tokens : List Token} {failure : ParseFailure}
    (h : Parser.filterArguments options (budget + 1) tokens = .error failure) :
    Located (Phrase options .filterArguments) (budget + 1) 1 tokens failure := by
  unfold Parser.filterArguments at h
  split at h
  case h_1 => simp_all
  case h_2 index tail hbudget =>
    obtain rfl := Nat.succ.inj hbudget
    simp only [bind_eq_error, Prod.exists, pure_eq_error, and_false, exists_false, or_false] at h
    rcases h with hfirst | ⟨argument, rest, hread, hmore⟩
    · refine (ih.expression hfirst).ofPhrase [⟨.symbol .colon, index⟩] [] rfl
        (by simp [depth, Level.rank]) fun as argument hargument => ?_
      simpa using (Derives.filterArgument hargument .noFilterArguments).phrase
    · obtain ⟨as, rfl, hargument⟩ := (sound options budget).expression hread
      refine (ih.filterArguments hmore).ofPhrase (⟨.symbol .colon, index⟩ :: as) [] (by simp)
        (by simp) fun bs arguments harguments => ?_
      simpa using (Derives.filterArgument hargument harguments).phrase
  case h_3 => simp at h

/-- Operands fail in one of them. -/
theorem Locates.operands_succ {level : Level} {left : Node} {tokens : List Token}
    {failure : ParseFailure}
    (h : Parser.operands options (budget + 1) level left tokens = .error failure) :
    Located (Continuation options level left) (budget + 1) 1 tokens failure := by
  unfold Parser.operands at h
  split at h
  case h_1 => simp_all
  case h_2 sign index tail hbudget =>
    obtain rfl := Nat.succ.inj hbudget
    split at h
    case h_1 connective hconnective =>
      split at h
      case isTrue hlevel =>
        obtain rfl := Connective.symbol_of_ofSymbol? hconnective
        simp only [bind_eq_error, Prod.exists] at h
        rcases h with hfirst | ⟨right, rest, hread, hmore⟩
        · refine (ih.expression hfirst).ofPhrase [⟨.symbol connective.symbol, index⟩] [] rfl
            (Nat.lt_of_le_of_lt (depth_le _) (by simp)) fun rs right hright ls hleft => ?_
          simpa using (Derives.connect connective hlevel hleft hright).phrase
        · obtain ⟨rs, rfl, hright⟩ := (sound options budget).expression hread
          refine (ih.operands hmore).after (⟨.symbol connective.symbol, index⟩ :: rs) (by simp)
            (fun ms hms => ⟨[], fun ls hleft => ?_⟩) (by simp)
          simpa using hms _ (.connect connective hlevel hleft hright)
      case isFalse => simp at h
    case h_2 => simp at h
  case h_3 => simp at h

/-- A primary fails at its first token or in what it encloses. -/
theorem Locates.primary_succ {tokens : List Token} {failure : ParseFailure}
    (h : Parser.primary options (budget + 1) tokens = .error failure) :
    Located (Phrase options (.expression .chain)) (budget + 1) 1 tokens failure := by
  cases tokens with
  | nil =>
    have hstuck : Stuck [] failure := (Except.error.inj h).symm
    exact .here [] hstuck rfl [.identifier "x"] (Derives.anyName .chain).phrase
  | cons token tail =>
    obtain ⟨word, index⟩ := token
    simp only [Parser.primary] at h
    split at h
    case h_1 =>
      simp only [bind_eq_error, Prod.exists, pure_eq_error, and_false, exists_false, or_false] at h
      rcases h with hinner | ⟨node, rest, hread, hclose⟩
      · refine (ih.expression hinner).ofPhrase [⟨.symbol .openParen, index⟩]
          [.symbol .closeParen] rfl (by simp [depth, Level.rank]) fun ls node hnode => ?_
        simpa using (Derives.group hnode).phrase
      · obtain ⟨ls, rfl, hnode⟩ := (sound options budget).expression hread
        refine .here (⟨.symbol .openParen, index⟩ :: ls) (consume_eq_error hclose) rfl
          [.symbol .closeParen] ?_
        simpa using (Derives.group hnode).phrase
    case h_2 =>
      simp only [bind_eq_error, pure_eq_error, and_false, exists_false, or_false] at h
      refine (ih.elements h).ofClosed [⟨.symbol .openBracket, index⟩] rfl (by simp)
        fun es elements helements => ?_
      simpa using (Derives.array helements).phrase
    case h_3 =>
      simp only [bind_eq_error, pure_eq_error, and_false, exists_false, or_false] at h
      refine (ih.properties h).ofClosed [⟨.symbol .openBrace, index⟩] rfl (by simp)
        fun ps properties hproperties => ?_
      simpa using (Derives.object hproperties).phrase
    case h_4 sign _ _ _ =>
      have hstuck : Stuck (⟨.symbol sign, index⟩ :: tail) failure :=
        ⟨.notPrimary, (Except.error.inj h).symm⟩
      exact .here [] hstuck rfl [.identifier "x"] (Derives.anyName .chain).phrase
    case h_5 => simp at h
    case h_6 => simp at h

/-- Suffixes fail in one of them. -/
theorem Locates.suffixes_succ {left : Node} {tokens : List Token} {failure : ParseFailure}
    (h : Parser.suffixes options (budget + 1) left tokens = .error failure) :
    Located (Continuation options .chain left) (budget + 1) 1 tokens failure := by
  unfold Parser.suffixes at h
  split at h
  case h_1 => simp_all
  case h_2 index tail hbudget =>
    obtain rfl := Nat.succ.inj hbudget
    simp only [bind_eq_error, Prod.exists] at h
    rcases h with harguments | ⟨arguments, rest, hread, hmore⟩
    · refine (ih.arguments harguments).ofClosed [⟨.symbol .openParen, index⟩] rfl (by simp)
        fun as arguments harguments ls hleft => ?_
      simpa using (Derives.call hleft harguments).phrase
    · obtain ⟨closeIndex, as, rfl, harguments⟩ := (sound options budget).arguments hread
      refine (ih.suffixes hmore).after
        (⟨.symbol .openParen, index⟩ :: (as ++ [⟨.symbol .closeParen, closeIndex⟩])) (by simp)
        (fun ms hms => ⟨[], fun ls hleft => ?_⟩) (by simp)
      simpa using hms _ (.call hleft harguments)
  case h_3 index tail hbudget =>
    obtain rfl := Nat.succ.inj hbudget
    simp only [bind_eq_error, Prod.exists] at h
    rcases h with hkey | ⟨property, rest, hread, hclose | ⟨rest, hclose, hmore⟩⟩
    · refine (ih.expression hkey).ofPhrase [⟨.symbol .openBracket, index⟩]
        [.symbol .closeBracket] rfl (by simp [depth, Level.rank])
        fun ps property hproperty ls hleft => ?_
      simpa using (Derives.computedMember hleft hproperty).phrase
    · obtain ⟨ps, rfl, hproperty⟩ := (sound options budget).expression hread
      refine .here (⟨.symbol .openBracket, index⟩ :: ps) (consume_eq_error hclose) rfl
        [.symbol .closeBracket] fun ls hleft => ?_
      simpa using (Derives.computedMember hleft hproperty).phrase
    · obtain ⟨ps, rfl, hproperty⟩ := (sound options budget).expression hread
      obtain ⟨closeIndex, rfl⟩ := consume_eq_ok hclose
      refine (ih.suffixes hmore).after
        (⟨.symbol .openBracket, index⟩ :: (ps ++ [⟨.symbol .closeBracket, closeIndex⟩])) (by simp)
        (fun ms hms => ⟨[], fun ls hleft => ?_⟩) (by simp)
      simpa using hms _ (.computedMember hleft hproperty)
  case h_4 index tail hbudget =>
    obtain rfl := Nat.succ.inj hbudget
    simp only [bind_eq_error, Prod.exists] at h
    rcases h with hname | ⟨text, rest, hname, hmore⟩
    · refine .here [⟨.symbol .dot, index⟩] (name_eq_error hname) rfl [.identifier "x"]
        fun ls hleft => ?_
      exact (Derives.namedMember "x" hleft).phrase
    · obtain ⟨nameIndex, rfl⟩ := name_eq_ok hname
      refine (ih.suffixes hmore).after [⟨.symbol .dot, index⟩, ⟨.identifier text, nameIndex⟩] rfl
        (fun ms hms => ⟨[], fun ls hleft => ?_⟩) (by simp)
      simpa using hms _ (.namedMember text hleft)
  case h_5 => simp at h

/-- The arguments of a call fail where there are some. -/
theorem Locates.arguments_succ {tokens : List Token} {failure : ParseFailure}
    (h : Parser.arguments options (budget + 1) tokens = .error failure) :
    Located (ClosedPhrase options .arguments .closeParen) (budget + 1) 14 tokens failure := by
  unfold Parser.arguments at h
  split at h
  case h_1 => simp_all
  case h_2 => simp at h
  case h_3 hbudget _ =>
    obtain rfl := Nat.succ.inj hbudget
    exact (ih.moreArguments h).ofClosed [] rfl (by decide)
      fun as arguments harguments => ⟨as, rfl, (Derives.arguments harguments).phrase⟩

/-- At least one argument fails in the first one, at what stands after it, or in the others. -/
theorem Locates.moreArguments_succ {tokens : List Token} {failure : ParseFailure}
    (h : Parser.moreArguments options (budget + 1) tokens = .error failure) :
    Located (ClosedPhrase options .someArguments .closeParen) (budget + 1) 13 tokens failure := by
  rcases bind_eq_error.mp h with hfirst | ⟨⟨argument, rest⟩, hread, hmore⟩
  · exact (ih.expression hfirst).ofPhrase [] [.symbol .closeParen] rfl (by decide)
      fun as argument hargument => ⟨as, rfl, (Derives.lastArgument hargument).phrase⟩
  · obtain ⟨as, rfl, hargument⟩ := (sound options budget).expression hread
    exact located_listed .closeParen (Parser.moreArguments options budget) argument hargument
      (fun _ _ hls => (Derives.lastArgument hls).phrase)
      (fun _ _ _ _ hls hms => (Derives.nextArgument hls hms).phrase) (fun _ => ih.moreArguments)
      hmore

/-- The elements of an array fail in the first one, at what stands after it, or in the others. -/
theorem Locates.elements_succ {tokens : List Token} {failure : ParseFailure}
    (h : Parser.elements options (budget + 1) tokens = .error failure) :
    Located (ClosedPhrase options .elements .closeBracket) (budget + 1) 12 tokens failure := by
  unfold Parser.elements at h
  split at h
  case h_1 => simp_all
  case h_2 => simp at h
  case h_3 hbudget _ =>
    obtain rfl := Nat.succ.inj hbudget
    rcases bind_eq_error.mp h with hfirst | ⟨⟨element, rest⟩, hread, hmore⟩
    · exact (ih.expression hfirst).ofPhrase [] [.symbol .closeBracket] rfl (by decide)
        fun es element helement => ⟨es, rfl, (Derives.lastElement helement).phrase⟩
    · obtain ⟨es, rfl, helement⟩ := (sound options budget).expression hread
      exact located_listed .closeBracket (Parser.elements options budget) element helement
        (fun _ _ hls => (Derives.lastElement hls).phrase)
        (fun _ _ _ _ hls hms => (Derives.nextElement hls hms).phrase) (fun _ => ih.elements) hmore

/-- The properties of an object fail in the first one, at what stands after it, or in the others. -/
theorem Locates.properties_succ {tokens : List Token} {failure : ParseFailure}
    (h : Parser.properties options (budget + 1) tokens = .error failure) :
    Located (ClosedPhrase options .properties .closeBrace) (budget + 1) 2 tokens failure := by
  unfold Parser.properties at h
  split at h
  case h_1 => simp_all
  case h_2 => simp at h
  case h_3 hbudget _ =>
    obtain rfl := Nat.succ.inj hbudget
    rcases bind_eq_error.mp h with hfirst | ⟨⟨property, rest⟩, hread, hmore⟩
    · exact (ih.property hfirst).ofPhrase [] [.symbol .closeBrace] rfl (by decide)
        fun ps property hproperty => ⟨ps, rfl, (Derives.lastProperty hproperty).phrase⟩
    · obtain ⟨ps, rfl, hproperty⟩ := (sound options budget).property hread
      exact located_listed .closeBrace (Parser.properties options budget) property hproperty
        (fun _ _ hls => (Derives.lastProperty hls).phrase)
        (fun _ _ _ _ hls hms => (Derives.nextProperty hls hms).phrase) (fun _ => ih.properties)
        hmore

/-- After a name the run fails only in the value of the property. -/
theorem Locates.valued {key : String} {index : Nat} {tokens : List Token} {failure : ParseFailure}
    (h : Parser.valued options budget key tokens = .error failure) :
    Located (Phrase options .property) (budget + 1) 1 (⟨.identifier key, index⟩ :: tokens)
      failure := by
  unfold Parser.valued at h
  split at h
  case h_1 colonIndex rest =>
    simp only [bind_eq_error, pure_eq_error, and_false, exists_false, or_false] at h
    refine (ih.expression h).ofPhrase [⟨.identifier key, index⟩, ⟨.symbol .colon, colonIndex⟩] []
      rfl (by simp [depth, Level.rank]) fun vs value hvalue => ?_
    simpa using (Derives.namedKey key hvalue).phrase
  case h_2 => simp at h

/-- A property fails at its first token, in its key, at what stands after it, or in its value. -/
theorem Locates.property_succ {tokens : List Token} {failure : ParseFailure}
    (h : Parser.property options (budget + 1) tokens = .error failure) :
    Located (Phrase options .property) (budget + 1) 1 tokens failure := by
  cases tokens with
  | nil =>
    have hstuck : Stuck [] failure := (Except.error.inj h).symm
    exact .here [] hstuck rfl [.identifier "x"] (Derives.shorthand "x").phrase
  | cons token tail =>
    obtain ⟨word, index⟩ := token
    simp only [Parser.property] at h
    split at h
    case h_1 spelling key =>
      simp only [bind_eq_error, pure_eq_error, and_false, exists_false, or_false] at h
      rcases h with hcolon | ⟨rest, hcolon, hvalue⟩
      · exact .here [⟨.constant spelling key, index⟩] (consume_eq_error hcolon) rfl
          [.symbol .colon, .identifier "x"]
          (Derives.constantKey spelling key (.anyName .assignment)).phrase
      · obtain ⟨colonIndex, rfl⟩ := consume_eq_ok hcolon
        refine (ih.expression hvalue).ofPhrase
          [⟨.constant spelling key, index⟩, ⟨.symbol .colon, colonIndex⟩] [] rfl
          (by simp [depth, Level.rank]) fun vs value hvalue => ?_
        simpa using (Derives.constantKey spelling key hvalue).phrase
    case h_2 key => exact ih.valued h
    case h_3 =>
      simp only [bind_eq_error, Prod.exists, pure_eq_error, and_false, exists_false, or_false] at h
      rcases h with hkey |
        ⟨key, rest, hread, hclose | ⟨rest, hclose, hcolon | ⟨rest, hcolon, hvalue⟩⟩⟩
      · refine (ih.expression hkey).ofPhrase [⟨.symbol .openBracket, index⟩]
          [.symbol .closeBracket, .symbol .colon, .identifier "x"] rfl
          (by simp [depth, Level.rank]) fun ks key hkey => ?_
        simpa using (Derives.computedKey hkey (.anyName .assignment)).phrase
      · obtain ⟨ks, rfl, hkey⟩ := (sound options budget).expression hread
        refine .here (⟨.symbol .openBracket, index⟩ :: ks) (consume_eq_error hclose) rfl
          [.symbol .closeBracket, .symbol .colon, .identifier "x"] ?_
        simpa using (Derives.computedKey hkey (.anyName .assignment)).phrase
      · obtain ⟨ks, rfl, hkey⟩ := (sound options budget).expression hread
        obtain ⟨closeIndex, rfl⟩ := consume_eq_ok hclose
        refine .here
          (⟨.symbol .openBracket, index⟩ :: (ks ++ [⟨.symbol .closeBracket, closeIndex⟩]))
          (consume_eq_error hcolon) (by simp) [.symbol .colon, .identifier "x"] ?_
        simpa using (Derives.computedKey hkey (.anyName .assignment)).phrase
      · obtain ⟨ks, rfl, hkey⟩ := (sound options budget).expression hread
        obtain ⟨closeIndex, rfl⟩ := consume_eq_ok hclose
        obtain ⟨colonIndex, rfl⟩ := consume_eq_ok hcolon
        refine (ih.expression hvalue).ofPhrase
          (⟨.symbol .openBracket, index⟩ ::
            (ks ++ [⟨.symbol .closeBracket, closeIndex⟩, ⟨.symbol .colon, colonIndex⟩])) []
          (by simp) (by simp [depth, Level.rank]; omega) fun vs value hvalue => ?_
        simpa using (Derives.computedKey hkey hvalue).phrase
    case h_4 sign _ =>
      have hstuck : Stuck (⟨.symbol sign, index⟩ :: tail) failure :=
        ⟨.invalidKey, (Except.error.inj h).symm⟩
      exact .here [] hstuck rfl [.identifier "x"] (Derives.shorthand "x").phrase

end Step

/-- Every parsing function fails where its tokens can no longer be continued, whatever the
budget. -/
theorem locates (options : Options) (budget : Nat) : Locates options budget := by
  induction budget with
  | zero => exact .zero
  | succ budget ih =>
    exact ⟨ih.expression_succ, ih.filters_succ, ih.filterArguments_succ, ih.operands_succ,
      ih.primary_succ, ih.suffixes_succ, ih.arguments_succ, ih.moreArguments_succ,
      ih.elements_succ, ih.properties_succ, ih.property_succ⟩

/-- After a statement the run fails only in the further ones. -/
theorem located_continued {budget : Nat} (front : List Token) {rest : List Token}
    {failure : ParseFailure} {more : List Token → Reading (Front (List Node))} (body : List Node)
    (hnext : ∀ ls body, Derives options .statements ls body →
      Phrase options .statements (front.map Token.lexeme ++ .symbol .semicolon :: ls))
    (hmore : ∀ tokens, more tokens = .error failure →
      Located (Phrase options .statements) budget 13 tokens failure)
    (h : continued more body rest = .error failure) :
    Located (Phrase options .statements) (budget + 1) 13 (front ++ rest) failure := by
  unfold continued at h
  split at h
  case h_1 index rest =>
    simp only [bind_eq_error, pure_eq_error, and_false, exists_false, or_false] at h
    refine (hmore _ h).ofPhrase (front ++ [⟨.symbol .semicolon, index⟩]) [] (by simp) (by simp)
      fun ls body hls => ?_
    simpa using hnext ls body hls
  case h_2 => simp at h

/-- Statements fail in one of them. -/
theorem located_statements {budget : Nat} {tokens : List Token} {failure : ParseFailure}
    (h : statements options budget tokens = .error failure) :
    Located (Phrase options .statements) budget 13 tokens failure := by
  induction budget generalizing tokens with
  | zero =>
    obtain rfl := Except.error.inj h
    exact Nat.add_pos_right _ (by decide)
  | succ budget ih =>
    cases tokens with
    | nil => simp [statements] at h
    | cons token tail =>
      rw [statements_cons] at h
      split at h
      case isTrue hends =>
        exact located_continued [] [] (fun _ _ hls => (Derives.emptyStatement hls).phrase)
          (fun _ => ih) h
      case isFalse hends =>
        rcases bind_eq_error.mp h with hfirst | ⟨⟨node, rest⟩, hread, hmore⟩
        · refine ((locates options budget).expression hfirst).ofPhrase [] [] rfl (by decide)
            fun ls node hnode => ?_
          simpa using (Derives.lastStatement hnode).phrase
        · obtain ⟨ns, hns, hnode⟩ := (sound options budget).expression hread
          rw [hns]
          exact located_continued ns [.statement node]
            (fun _ _ hls => (Derives.nextStatement hnode hls).phrase) (fun _ => ih) hmore

end Parser

end TemplateExpr
