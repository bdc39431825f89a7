import TemplateExpr.Proofs.Evaluation.Joining
import TemplateExpr.Proofs.Grammar.Failures
import TemplateExpr.Proofs.Lexing.Spacing

/-!
# Places of tokens

The places of tokens are there for messages. Every parsing function reads the same from tokens without
their places, leaves the same tokens without their places, and fails in the same way. Sources with the
same lexemes are therefore the same trees, or fail with errors of the same class, and one of them is the
texts of the lexemes with spaces between them.
-/

namespace TemplateExpr

/-- A token without its place. -/
def Token.unplaced (token : Token) : Token := ⟨token.lexeme, 0⟩

/-- Tokens without their places. -/
abbrev unplaced (tokens : List Token) : List Token := tokens.map Token.unplaced

/-- Tokens with the same lexemes are the same without their places. -/
theorem unplaced_eq_of_lexemes {tokens tokens' : List Token}
    (h : tokens.map Token.lexeme = tokens'.map Token.lexeme) : unplaced tokens = unplaced tokens' := by
  have hmap (tokens : List Token) : unplaced tokens = (tokens.map Token.lexeme).map (⟨·, 0⟩) := by
    rw [List.map_map]
    rfl
  rw [hmap, hmap, h]

/-- A failure without the place of the token that does not fit. -/
def ParseFailure.unplaced : ParseFailure → ParseFailure
  | .unfit token fault => .unfit token.unplaced fault
  | failure => failure

/-- The class of an error does not depend on places and not on the text of the source. -/
theorem ParseFailure.errorClass_toError {failure failure' : ParseFailure}
    (h : failure.unplaced = failure'.unplaced) (source source' : String) :
    (failure.toError source).errorClass = (failure'.toError source').errorClass := by
  cases failure <;> cases failure' <;> first | rfl | cases h

namespace Parser

variable {options : Options} {α β : Type}

/-- An outcome without the places of the tokens that are left or that do not fit. -/
def withoutPlaces : Reading (Front α) → Reading (Front α)
  | .ok (value, rest) => .ok (value, unplaced rest)
  | .error failure => .error failure.unplaced

/-- The tokens are read in the same way without their places. -/
def ReadsUnplaced (run : List Token → Reading (Front α)) (tokens : List Token) : Prop :=
  run (unplaced tokens) = withoutPlaces (run tokens)

namespace ReadsUnplaced

variable {run inner : List Token → Reading (Front α)} {tokens : List Token}

/-- One reading after another. -/
theorem bind (h : ReadsUnplaced run tokens) {next : α → List Token → Reading (Front β)}
    (hnext : ∀ value rest, ReadsUnplaced (next value) rest) :
    ReadsUnplaced (fun tokens => do
      let (value, rest) ← run tokens
      next value rest) tokens := by
  unfold ReadsUnplaced at h ⊢
  dsimp only
  rw [h]
  rcases run tokens with failure | ⟨value, rest⟩
  · rfl
  · exact hnext value rest

/-- What is made of a value does not depend on places. -/
theorem map (h : ReadsUnplaced run tokens) (make : α → β) :
    ReadsUnplaced (fun tokens => do
      let (value, rest) ← run tokens
      return (make value, rest)) tokens := by
  have hmade (value : α) (rest : List Token) :
      ReadsUnplaced (fun rest => .ok (make value, rest)) rest := rfl
  exact h.bind hmade

/-- A function that takes the next token and goes over to another one. -/
theorem step {token : Token} {rest : List Token} (h : ReadsUnplaced inner rest)
    (hplaced : run (token :: rest) = inner rest)
    (hunplaced : run (unplaced (token :: rest)) = inner (unplaced rest)) :
    ReadsUnplaced run (token :: rest) :=
  hunplaced.trans (h.trans (congrArg withoutPlaces hplaced.symm))

end ReadsUnplaced

/-- A sign is consumed whatever its place is. -/
theorem readsUnplaced_consume (sign : Symbol) (tokens : List Token)
    {next : List Token → Reading (Front α)} (hnext : ∀ rest, ReadsUnplaced next rest) :
    ReadsUnplaced (fun tokens => consume sign tokens >>= next) tokens := by
  rcases tokens with _ | ⟨token, rest⟩
  · rfl
  by_cases hword : token.lexeme = .symbol sign
  · have hconsume (index : Nat) (rest : List Token) :
        consume sign (⟨token.lexeme, index⟩ :: rest) = .ok rest := if_pos hword
    refine (hnext rest).step ?_ ?_ <;> simp only [List.map_cons, Token.unplaced, hconsume] <;> rfl
  · have hconsume (index : Nat) (rest : List Token) :
        consume sign (⟨token.lexeme, index⟩ :: rest) =
          .error (.unfit ⟨token.lexeme, index⟩ (.expecting sign)) := if_neg hword
    unfold ReadsUnplaced
    simp only [List.map_cons, Token.unplaced, hconsume]
    rfl

/-- A sign that stands after a value is consumed whatever its place is. -/
theorem readsUnplaced_close (sign : Symbol) (value : α) (tokens : List Token) :
    ReadsUnplaced (fun tokens => do
      let rest ← consume sign tokens
      return (value, rest)) tokens :=
  readsUnplaced_consume sign tokens fun _ => rfl

/-- A name is read whatever its place is. -/
theorem readsUnplaced_name (tokens : List Token) : ReadsUnplaced Parser.name tokens := by
  rcases tokens with _ | ⟨⟨_ | _ | _, index⟩, rest⟩ <;> rfl

/-- After an item of a list comes a comma or the sign that ends the list, wherever it stands. -/
theorem readsUnplaced_listed (close : Symbol) {more : List Token → Reading (Front (List α))}
    (hmore : ∀ tokens, ReadsUnplaced more tokens) (item : α) (tokens : List Token) :
    ReadsUnplaced (listed close more item) tokens := by
  have hclose := readsUnplaced_close close [item] tokens
  rcases tokens with _ | ⟨⟨_ | _ | sign, index⟩, rest⟩
  · exact hclose
  · exact hclose
  · exact hclose
  · cases sign
    case comma => exact ((hmore rest).map (item :: ·)).step rfl rfl
    all_goals exact hclose

/-- What each parsing function gives within a nesting budget does not depend on places. -/
structure IgnoresPlaces (options : Options) (budget : Nat) : Prop where
  expression (level : Level) (tokens : List Token) :
    ReadsUnplaced (expression options budget level) tokens
  filters (input : Node) (tokens : List Token) : ReadsUnplaced (filters options budget input) tokens
  filterArguments (tokens : List Token) : ReadsUnplaced (filterArguments options budget) tokens
  operands (level : Level) (left : Node) (tokens : List Token) :
    ReadsUnplaced (operands options budget level left) tokens
  primary (tokens : List Token) : ReadsUnplaced (primary options budget) tokens
  suffixes (left : Node) (tokens : List Token) : ReadsUnplaced (suffixes options budget left) tokens
  arguments (tokens : List Token) : ReadsUnplaced (Parser.arguments options budget) tokens
  moreArguments (tokens : List Token) : ReadsUnplaced (moreArguments options budget) tokens
  elements (tokens : List Token) : ReadsUnplaced (Parser.elements options budget) tokens
  properties (tokens : List Token) : ReadsUnplaced (Parser.properties options budget) tokens
  property (tokens : List Token) : ReadsUnplaced (Parser.property options budget) tokens

/-- Without budget every function fails in the same way. -/
theorem IgnoresPlaces.zero : IgnoresPlaces options 0 := by
  constructor <;> intros <;> rfl

section Step

variable {budget : Nat} (ih : IgnoresPlaces options budget)
include ih

/-- After a target comes the sign of an assignment or not. -/
theorem IgnoresPlaces.assigned (target : Node) (tokens : List Token) :
    ReadsUnplaced (Parser.assigned options budget target) tokens := by
  rcases tokens with _ | ⟨⟨_ | _ | sign, index⟩, rest⟩
  · rfl
  · rfl
  · rfl
  · cases sign
    case assign =>
      cases hassignable : target.isAssignable with
      | true =>
        refine ((ih.expression .assignment rest).map (Node.assignment target)).step ?_ ?_ <;>
          simp only [Parser.assigned, List.map_cons, Token.unplaced, hassignable, if_true]
      | false =>
        simp only [ReadsUnplaced, Parser.assigned, List.map_cons, Token.unplaced, hassignable]
        rfl
    all_goals rfl

/-- After a test comes a question mark or not. -/
theorem IgnoresPlaces.chosen (test : Node) (tokens : List Token) :
    ReadsUnplaced (Parser.chosen options budget test) tokens := by
  rcases tokens with _ | ⟨⟨_ | _ | sign, index⟩, rest⟩
  · rfl
  · rfl
  · rfl
  · cases sign
    case question =>
      have h := (ih.expression .assignment rest).bind fun alternate rest =>
        readsUnplaced_consume .colon rest fun rest =>
          (ih.expression .assignment rest).map (Node.conditional test alternate)
      exact h.step rfl rfl
    all_goals rfl

/-- After a name comes the colon of a value or not. -/
theorem IgnoresPlaces.valued (key : String) (tokens : List Token) :
    ReadsUnplaced (Parser.valued options budget key) tokens := by
  rcases tokens with _ | ⟨⟨_ | _ | sign, index⟩, rest⟩
  · rfl
  · rfl
  · rfl
  · cases sign
    case colon =>
      exact ((ih.expression .assignment rest).map
        fun value => Property.entry (.identifier key) value false).step rfl rfl
    all_goals rfl

/-- An expression does not depend on places if the functions that it calls do not. -/
theorem IgnoresPlaces.expression_succ (level : Level) (tokens : List Token) :
    ReadsUnplaced (Parser.expression options (budget + 1) level) tokens := by
  cases level with
  | filter => exact (ih.expression .assignment tokens).bind ih.filters
  | assignment => exact (ih.expression .conditional tokens).bind ih.assigned
  | conditional => exact (ih.expression .or tokens).bind ih.chosen
  | or | and | equality | relational | additive | multiplicative =>
    exact (ih.expression _ tokens).bind (ih.operands _)
  | unary =>
    have h := ih.expression .chain tokens
    rcases tokens with _ | ⟨⟨_ | _ | sign, index⟩, rest⟩
    · exact h
    · exact h
    · exact h
    · cases sign
      case plus => exact ((ih.expression .unary rest).map (Node.unary .plus true)).step rfl rfl
      case minus => exact ((ih.expression .unary rest).map (Node.unary .minus true)).step rfl rfl
      case not => exact ((ih.expression .unary rest).map (Node.unary .not true)).step rfl rfl
      all_goals exact h
  | chain => exact (ih.primary tokens).bind ih.suffixes

/-- Each further filter is told by its pipe. -/
theorem IgnoresPlaces.filters_succ (input : Node) (tokens : List Token) :
    ReadsUnplaced (Parser.filters options (budget + 1) input) tokens := by
  rcases tokens with _ | ⟨⟨_ | _ | sign, index⟩, rest⟩
  · rfl
  · rfl
  · rfl
  · cases sign
    case pipe =>
      have h := (readsUnplaced_name rest).bind fun name rest =>
        (ih.filterArguments rest).bind fun arguments =>
          ih.filters (.filter (.identifier name) (input :: arguments))
      exact h.step rfl rfl
    all_goals rfl

/-- Each further argument of a filter is told by its colon. -/
theorem IgnoresPlaces.filterArguments_succ (tokens : List Token) :
    ReadsUnplaced (Parser.filterArguments options (budget + 1)) tokens := by
  rcases tokens with _ | ⟨⟨_ | _ | sign, index⟩, rest⟩
  · rfl
  · rfl
  · rfl
  · cases sign
    case colon =>
      have h := (ih.expression .assignment rest).bind fun argument rest =>
        (ih.filterArguments rest).map (argument :: ·)
      exact h.step rfl rfl
    all_goals rfl

/-- Each further operand is told by its operator. -/
theorem IgnoresPlaces.operands_succ (level : Level) (left : Node) (tokens : List Token) :
    ReadsUnplaced (Parser.operands options (budget + 1) level left) tokens := by
  rcases tokens with _ | ⟨⟨_ | _ | sign, index⟩, rest⟩
  · rfl
  · rfl
  · rfl
  · rcases hsign : Connective.ofSymbol? sign with _ | connective
    · unfold ReadsUnplaced
      simp only [List.map_cons, Token.unplaced, Parser.operands, hsign]
      rfl
    · by_cases hlevel : connective.level = level
      · have h := (ih.expression level.next rest).bind fun right =>
          ih.operands level (connective.join left right)
        refine h.step ?_ ?_ <;>
          simp only [List.map_cons, Token.unplaced, Parser.operands, hsign, if_pos hlevel]
      · unfold ReadsUnplaced
        simp only [List.map_cons, Token.unplaced, Parser.operands, hsign, if_neg hlevel]
        rfl

/-- What a primary is shows at its first token. -/
theorem IgnoresPlaces.primary_succ (tokens : List Token) :
    ReadsUnplaced (Parser.primary options (budget + 1)) tokens := by
  rcases tokens with _ | ⟨⟨_ | _ | sign, index⟩, rest⟩
  · rfl
  · rfl
  · rfl
  · cases sign
    case openParen =>
      exact ((ih.expression .filter rest).bind (readsUnplaced_close .closeParen)).step rfl rfl
    case openBracket => exact ((ih.elements rest).map Node.array).step rfl rfl
    case openBrace => exact ((ih.properties rest).map Node.object).step rfl rfl
    all_goals rfl

/-- Each further suffix is told by its first token. -/
theorem IgnoresPlaces.suffixes_succ (left : Node) (tokens : List Token) :
    ReadsUnplaced (Parser.suffixes options (budget + 1) left) tokens := by
  rcases tokens with _ | ⟨⟨_ | _ | sign, index⟩, rest⟩
  · rfl
  · rfl
  · rfl
  · cases sign
    case openParen =>
      exact ((ih.arguments rest).bind fun arguments =>
        ih.suffixes (.call left arguments)).step rfl rfl
    case openBracket =>
      have h := (ih.expression .assignment rest).bind fun property rest =>
        readsUnplaced_consume .closeBracket rest (ih.suffixes (.member left property true))
      exact h.step rfl rfl
    case dot =>
      exact ((readsUnplaced_name rest).bind fun name =>
        ih.suffixes (.member left (.identifier name) false)).step rfl rfl
    all_goals rfl

/-- Whether a call has arguments shows at the next token. -/
theorem IgnoresPlaces.arguments_succ (tokens : List Token) :
    ReadsUnplaced (Parser.arguments options (budget + 1)) tokens := by
  have h := ih.moreArguments tokens
  rcases tokens with _ | ⟨⟨_ | _ | sign, index⟩, rest⟩
  · exact h
  · exact h
  · exact h
  · cases sign
    case closeParen => rfl
    all_goals exact h

/-- Whether a call has a further argument shows after each one. -/
theorem IgnoresPlaces.moreArguments_succ (tokens : List Token) :
    ReadsUnplaced (Parser.moreArguments options (budget + 1)) tokens :=
  (ih.expression .filter tokens).bind (readsUnplaced_listed .closeParen ih.moreArguments)

/-- Whether an array has an element shows at the next token. -/
theorem IgnoresPlaces.elements_succ (tokens : List Token) :
    ReadsUnplaced (Parser.elements options (budget + 1)) tokens := by
  have h := (ih.expression .assignment tokens).bind (readsUnplaced_listed .closeBracket ih.elements)
  rcases tokens with _ | ⟨⟨_ | _ | sign, index⟩, rest⟩
  · exact h
  · exact h
  · exact h
  · cases sign
    case closeBracket => rfl
    all_goals exact h

/-- Whether an object has a property shows at the next token. -/
theorem IgnoresPlaces.properties_succ (tokens : List Token) :
    ReadsUnplaced (Parser.properties options (budget + 1)) tokens := by
  have h := (ih.property tokens).bind (readsUnplaced_listed .closeBrace ih.properties)
  rcases tokens with _ | ⟨⟨_ | _ | sign, index⟩, rest⟩
  · exact h
  · exact h
  · exact h
  · cases sign
    case closeBrace => rfl
    all_goals exact h

/-- How a property is written shows at its first token, and after a name at the next one. -/
theorem IgnoresPlaces.property_succ (tokens : List Token) :
    ReadsUnplaced (Parser.property options (budget + 1)) tokens := by
  rcases tokens with _ | ⟨⟨key | ⟨spelling, key⟩ | sign, index⟩, rest⟩
  · rfl
  · exact (ih.valued key rest).step rfl rfl
  · have h := readsUnplaced_consume .colon rest fun rest =>
      (ih.expression .assignment rest).map fun value => Property.entry (.literal key) value false
    exact h.step rfl rfl
  · cases sign
    case openBracket =>
      have h := (ih.expression .assignment rest).bind fun key rest =>
        readsUnplaced_consume .closeBracket rest fun rest =>
          readsUnplaced_consume .colon rest fun rest =>
            (ih.expression .assignment rest).map fun value => Property.entry key value true
      exact h.step rfl rfl
    all_goals rfl

end Step

/-- No parsing function depends on places. -/
theorem ignoresPlaces (options : Options) (budget : Nat) : IgnoresPlaces options budget := by
  induction budget with
  | zero => exact .zero
  | succ budget ih =>
    exact ⟨ih.expression_succ, ih.filters_succ, ih.filterArguments_succ, ih.operands_succ,
      ih.primary_succ, ih.suffixes_succ, ih.arguments_succ, ih.moreArguments_succ,
      ih.elements_succ, ih.properties_succ, ih.property_succ⟩

/-- After a statement come a semicolon and more statements, or nothing, wherever they stand. -/
theorem readsUnplaced_continued {more : List Token → Reading (Front (List Node))}
    (hmore : ∀ tokens, ReadsUnplaced more tokens) (body : List Node) (tokens : List Token) :
    ReadsUnplaced (continued more body) tokens := by
  rcases tokens with _ | ⟨⟨_ | _ | sign, index⟩, rest⟩
  · rfl
  · rfl
  · rfl
  · cases sign
    case semicolon => exact ((hmore rest).map (body ++ ·)).step rfl rfl
    all_goals rfl

/-- Statements do not depend on places. -/
theorem readsUnplaced_statements (options : Options) (budget : Nat) (tokens : List Token) :
    ReadsUnplaced (statements options budget) tokens := by
  induction budget generalizing tokens with
  | zero => rfl
  | succ budget ih =>
    rcases tokens with _ | ⟨token, rest⟩
    · rfl
    have hends : endsStatement token.unplaced = endsStatement token := rfl
    unfold ReadsUnplaced
    rw [unplaced, List.map_cons, statements_cons, statements_cons, hends]
    split
    · exact readsUnplaced_continued ih [] (token :: rest)
    · exact ((ignoresPlaces options budget).expression .filter (token :: rest)).bind fun node =>
        readsUnplaced_continued ih [.statement node]

/-- A program does not depend on places, and a failure of it only by the token that does not fit. -/
theorem program_unplaced (options : Options) (tokens : List Token) :
    program options (unplaced tokens) =
      (program options tokens).mapError ParseFailure.unplaced := by
  have hwithin : ReadsUnplaced (programWithin options (budget tokens.length)) tokens := by
    refine (readsUnplaced_statements options _ tokens).bind fun body rest => ?_
    cases rest <;> rfl
  rw [program_eq, program_eq, List.length_map, hwithin]
  rcases programWithin options (budget tokens.length) tokens with failure | ⟨tree, rest⟩ <;> rfl

end Parser

/-- Sources with the same lexemes are the same tree or fail with errors of the same class. -/
theorem Node.ofSource_of_lexemes {options : Options} {source source' : String}
    {tokens tokens' : List Token} (h : tokenize options source = .ok tokens)
    (h' : tokenize options source' = .ok tokens')
    (hsame : tokens.map Token.lexeme = tokens'.map Token.lexeme) :
    (ofSource options source).mapError Error.errorClass =
      (ofSource options source').mapError Error.errorClass := by
  have hprogram := Parser.program_unplaced options tokens
  rw [unplaced_eq_of_lexemes hsame, Parser.program_unplaced] at hprogram
  simp only [ofSource, tokensOf, h, h', Except.mapError, bind, Except.bind]
  rcases hrun : Parser.program options tokens with failure | tree <;>
    rcases hrun' : Parser.program options tokens' with failure' | tree' <;>
      rw [hrun, hrun'] at hprogram
  · have hfailure : failure.unplaced = failure'.unplaced := (Except.error.inj hprogram).symm
    exact congrArg Except.error (ParseFailure.errorClass_toError hfailure source source')
  · cases hprogram
  · cases hprogram
  · exact congrArg Except.ok (Except.ok.inj hprogram).symm

/-- The texts of tokens with single spaces between them. -/
def spacedOut (tokens : List Token) : String := " ".intercalate (tokens.map Token.text)

/-- The texts of the tokens of a source, with single spaces between them, have the same lexemes as the
source: the same texts, kinds and constant values in the same order. They are the same tree as the
source, or fail with an error of the same class. -/
theorem tokenize_spacedOut {source : String} {tokens : List Token}
    (h : tokenize {} source = .ok tokens) :
    ∃ tokens', tokenize {} (spacedOut tokens) = .ok tokens' ∧
      tokens'.map Token.lexeme = tokens.map Token.lexeme ∧
      (Node.ofSource {} (spacedOut tokens)).mapError Error.errorClass =
        (Node.ofSource {} source).mapError Error.errorClass := by
  have hspaced := (scan_iff_scans.mp ⟨tokens, tokenize_eq_ok.mp h, rfl⟩).respaced
  rw [List.map_map] at hspaced
  obtain ⟨tokens', hscan, hsame⟩ := scan_iff_scans.mpr hspaced
  have h' : tokenize {} (spacedOut tokens) = .ok tokens' := tokenize_eq_ok.mpr hscan
  exact ⟨tokens', h', hsame, Node.ofSource_of_lexemes h' h hsame⟩

/-- A point before a name does not belong to the number before it, without spaces or with them. -/
theorem tokenize_spacedOut_member :
    let tokens : List Token :=
      [⟨.constant "1" (.integer 1), 0⟩, ⟨.symbol .dot, 1⟩, ⟨.identifier "a", 2⟩]
    tokenize {} "1.a" = .ok tokens ∧ spacedOut tokens = "1 . a" ∧
      ∃ tokens', tokenize {} (spacedOut tokens) = .ok tokens' ∧
        tokens'.map Token.lexeme = tokens.map Token.lexeme ∧
        (Node.ofSource {} (spacedOut tokens)).mapError Error.errorClass =
          (Node.ofSource {} "1.a").mapError Error.errorClass :=
  ⟨rfl, rfl, tokenize_spacedOut rfl⟩

end TemplateExpr
