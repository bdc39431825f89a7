import TemplateExpr.Node.Parser

/-!
# One token of look-ahead

A reading function decides everything by the tokens it has taken and the one that comes next. What
it has read, and any failure at a token, therefore stays the same whatever stands after that token,
and however much more budget there is.
-/

namespace TemplateExpr

/-- Where a failure shows: at the token that does not fit, or at the sign of an assignment. -/
def ParseFailure.StandsAt : ParseFailure → Token → Prop
  | .unfit culprit _, token => culprit = token
  | .notAssignable, token => token.lexeme = .symbol .assign
  | _, _ => False

namespace Parser

variable {α β : Type}

/-- What an outcome on some tokens says about reading them, by `run`, with others after them.

What was read is read again before the same next token. A failure at a token comes again however the
tokens go on after it. -/
inductive Foretells (run : List Token → Reading (Front α)) (tokens : List Token) :
    Reading (Front α) → Prop
  | read {value : α} (front rest : List Token) (htokens : tokens = front ++ rest)
      (h : ∀ rest', rest'.head? = rest.head? → run (front ++ rest') = .ok (value, rest')) :
      Foretells run tokens (.ok (value, rest))
  | failed {failure : ParseFailure} (front : List Token) (token : Token) (rest : List Token)
      (htokens : tokens = front ++ token :: rest) (hstands : failure.StandsAt token)
      (h : ∀ rest', run (front ++ token :: rest') = .error failure) :
      Foretells run tokens (.error failure)
  | ended (h : run tokens = .error .unexpectedEnd) : Foretells run tokens (.error .unexpectedEnd)
  | exhausted : Foretells run tokens (.error .exhausted)

namespace Foretells

variable {run inner : List Token → Reading (Front α)} {tokens rest : List Token}
  {outcome : Reading (Front α)} {token : Token} {failure : ParseFailure}

/-- The outcome on the tokens themselves is foretold. -/
theorem eq_of_ne_exhausted (h : Foretells run tokens outcome) (hne : outcome ≠ .error .exhausted) :
    run tokens = outcome := by
  cases h with
  | read front rest htokens h => rw [htokens, h rest rfl]
  | failed front token rest htokens hstands h => rw [htokens, h rest]
  | ended h => exact h
  | exhausted => exact absurd rfl hne

/-- One reading after another. -/
theorem bind {first : List Token → Reading (Front α)} (h : Foretells first tokens outcome)
    (next next' : α → List Token → Reading (Front β))
    (hnext : ∀ value rest, Foretells (next' value) rest (next value rest)) :
    Foretells (fun tokens => do
        let (value, rest) ← first tokens
        next' value rest) tokens (do
      let (value, rest) ← outcome
      next value rest) := by
  cases h with
  | @read value front rest htokens h =>
    subst htokens
    change Foretells _ _ (next value rest)
    have hmore := hnext value rest
    have hfirst := h rest rfl
    generalize next value rest = outcome at hmore
    -- The first reading depends on the token where the second one begins. If that one takes a token
    -- it takes this one, and if it takes none it depends on it as well.
    cases hmore with
    | read front' rest' htokens' h' =>
      subst htokens'
      refine .read (front ++ front') rest' (by simp) fun rest'' hhead => ?_
      rw [List.append_assoc, h (front' ++ rest'') (by simp [hhead])]
      exact h' rest'' hhead
    | failed front' token rest' htokens' hstands h' =>
      subst htokens'
      refine .failed (front ++ front') token rest' (by simp) hstands fun rest'' => ?_
      rw [List.append_assoc, h (front' ++ token :: rest'') (by simp)]
      exact h' rest''
    | ended h' =>
      refine .ended ?_
      rw [hfirst]
      exact h'
    | exhausted => exact .exhausted
  | failed front token rest htokens hstands h =>
    refine .failed front token rest htokens hstands fun rest' => ?_
    rw [h rest']
    rfl
  | ended h =>
    refine .ended ?_
    rw [h]
    rfl
  | exhausted => exact .exhausted

/-- What is made of a value takes no more tokens. -/
theorem map (h : Foretells run tokens outcome) (make : α → β) :
    Foretells (fun tokens => do
        let (value, rest) ← run tokens
        return (make value, rest)) tokens (do
      let (value, rest) ← outcome
      return (make value, rest)) :=
  h.bind (fun value rest => (.ok (make value, rest) : Reading (Front β)))
    (fun value rest => (.ok (make value, rest) : Reading (Front β)))
    fun _ rest => .read [] rest rfl fun _ _ => rfl

/-- A function that goes over to another one after a look at the next token. -/
theorem peek (h : Foretells inner tokens outcome)
    (heq : ∀ tokens', tokens'.head? = tokens.head? → run tokens' = inner tokens') :
    Foretells run tokens outcome := by
  cases h with
  | read front rest htokens h =>
    subst htokens
    refine .read front rest rfl fun rest' hhead => ?_
    rw [heq _ (by simp [hhead]), h rest' hhead]
  | failed front token rest htokens hstands h =>
    subst htokens
    refine .failed front token rest rfl hstands fun rest' => ?_
    rw [heq _ (by simp), h rest']
  | ended h =>
    refine .ended ?_
    rw [heq _ rfl, h]
  | exhausted => exact .exhausted

/-- A function that goes over to another one where no token is left. -/
theorem peek_nil (h : Foretells inner [] outcome) (heq : run [] = inner []) :
    Foretells run [] outcome :=
  h.peek fun tokens' hhead => by
    obtain rfl : tokens' = [] := List.head?_eq_none_iff.mp hhead
    exact heq

/-- A function that goes over to another one before the next token. -/
theorem peek_cons (h : Foretells inner (token :: rest) outcome)
    (heq : ∀ rest', run (token :: rest') = inner (token :: rest')) :
    Foretells run (token :: rest) outcome :=
  h.peek fun tokens' hhead => by
    obtain ⟨tail, rfl⟩ : ∃ tail, tokens' = token :: tail := List.head?_eq_some_iff.mp hhead
    exact heq tail

/-- A function that takes the next token and goes over to another one. -/
theorem step (h : Foretells inner rest outcome)
    (heq : ∀ rest', run (token :: rest') = inner rest') :
    Foretells run (token :: rest) outcome := by
  cases h with
  | read front rest htokens h =>
    subst htokens
    refine .read (token :: front) rest rfl fun rest' hhead => ?_
    rw [List.cons_append, heq, h rest' hhead]
  | failed front token' rest htokens hstands h =>
    subst htokens
    refine .failed (token :: front) token' rest rfl hstands fun rest' => ?_
    rw [List.cons_append, heq, h rest']
  | ended h =>
    refine .ended ?_
    rw [heq, h]
  | exhausted => exact .exhausted

/-- A function that takes nothing. -/
theorem pure {value : α} (h : ∀ tokens', run tokens' = .ok (value, tokens')) :
    Foretells run tokens (.ok (value, tokens)) :=
  .read [] tokens rfl fun rest' _ => h rest'

/-- A function that ends where no token is left. -/
theorem stop_nil {value : α} (h : run [] = .ok (value, [])) : Foretells run [] (.ok (value, [])) :=
  .read [] [] rfl fun rest' hhead => by
    obtain rfl : rest' = [] := List.head?_eq_none_iff.mp hhead
    exact h

/-- A function that ends before the next token. -/
theorem stop {value : α} (h : ∀ rest', run (token :: rest') = .ok (value, token :: rest')) :
    Foretells run (token :: rest) (.ok (value, token :: rest)) :=
  .read [] (token :: rest) rfl fun rest' hhead => by
    obtain ⟨tail, rfl⟩ : ∃ tail, rest' = token :: tail := List.head?_eq_some_iff.mp hhead
    exact h tail

/-- A function that ends with the next token. -/
theorem last {value : α} (h : ∀ rest', run (token :: rest') = .ok (value, rest')) :
    Foretells run (token :: rest) (.ok (value, rest)) :=
  .read [token] rest rfl fun rest' _ => h rest'

/-- A function that does not accept the next token. -/
theorem refuse (hstands : failure.StandsAt token)
    (h : ∀ rest', run (token :: rest') = .error failure) :
    Foretells run (token :: rest) (.error failure) :=
  .failed [] token rest rfl hstands h

end Foretells

variable {options : Options}

/-- How an assignment is read after what may be its target. -/
def assigned (options : Options) (budget : Nat) (target : Node) :
    List Token → Reading (Front Node)
  | ⟨.symbol .assign, _⟩ :: rest =>
    if target.isAssignable then do
      let (value, rest) ← expression options budget .assignment rest
      return (.assignment target value, rest)
    else .error .notAssignable
  | rest => .ok (target, rest)

/-- How a conditional is read after what may be its test. -/
def chosen (options : Options) (budget : Nat) (test : Node) : List Token → Reading (Front Node)
  | ⟨.symbol .question, _⟩ :: rest => do
    let (alternate, rest) ← expression options budget .assignment rest
    let rest ← consume .colon rest
    let (consequent, rest) ← expression options budget .assignment rest
    return (.conditional test alternate consequent, rest)
  | rest => .ok (test, rest)

/-- How a list that ends with a sign is read after one of its items. -/
def listed (close : Symbol) (more : List Token → Reading (Front (List α))) (item : α) :
    List Token → Reading (Front (List α))
  | ⟨.symbol .comma, _⟩ :: rest => do
    let (items, rest) ← more rest
    return (item :: items, rest)
  | rest => do
    let rest ← consume close rest
    return ([item], rest)

/-- How a property is read after a name. -/
def valued (options : Options) (budget : Nat) (key : String) : List Token → Reading (Front Property)
  | ⟨.symbol .colon, _⟩ :: rest => do
    let (value, rest) ← expression options budget .assignment rest
    return (.entry (.identifier key) value false, rest)
  | rest => .ok (.entry (.identifier key) (.identifier key) false, rest)

/-- How statements are read after the first one. -/
def continued (more : List Token → Reading (Front (List Node))) (body : List Node) :
    List Token → Reading (Front (List Node))
  | ⟨.symbol .semicolon, _⟩ :: rest => do
    let (nodes, rest) ← more rest
    return (body ++ nodes, rest)
  | rest => .ok (body, rest)

/-- A symbol is consumed or not by a look at the next token. -/
theorem foretells_consume (sign : Symbol) (tokens : List Token)
    (next next' : List Token → Reading (Front α))
    (hnext : ∀ rest, Foretells next' rest (next rest)) :
    Foretells (fun tokens => consume sign tokens >>= next') tokens
      (consume sign tokens >>= next) := by
  rcases tokens with _ | ⟨token, rest⟩
  · exact .ended rfl
  by_cases hword : token.lexeme = .symbol sign
  · have hconsume (rest : List Token) : consume sign (token :: rest) = .ok rest := if_pos hword
    rw [hconsume]
    exact (hnext rest).step fun rest' => by rw [hconsume]; rfl
  · have hconsume (rest : List Token) :
        consume sign (token :: rest) = .error (.unfit token (.expecting sign)) := if_neg hword
    rw [hconsume]
    exact .refuse rfl fun rest' => by rw [hconsume]; rfl

/-- A sign that stands after a value is told from others by a look at it. -/
theorem foretells_close (sign : Symbol) (value : α) (tokens : List Token) :
    Foretells (fun tokens => do
        let rest ← consume sign tokens
        return (value, rest)) tokens (do
      let rest ← consume sign tokens
      return (value, rest)) :=
  foretells_consume sign tokens (fun rest => (.ok (value, rest) : Reading (Front α)))
    (fun rest => (.ok (value, rest) : Reading (Front α))) fun _ => .pure fun _ => rfl

/-- After an item of a list comes a comma or the sign that ends the list. -/
theorem foretells_listed (close : Symbol) {more more' : List Token → Reading (Front (List α))}
    (hmore : ∀ tokens, Foretells more' tokens (more tokens)) (item : α) (tokens : List Token) :
    Foretells (listed close more' item) tokens (listed close more item tokens) := by
  have hclose := foretells_close close [item] tokens
  rcases tokens with _ | ⟨⟨_ | _ | sign, index⟩, rest⟩
  · exact hclose.peek_nil rfl
  · exact hclose.peek_cons fun _ => rfl
  · exact hclose.peek_cons fun _ => rfl
  · cases sign
    case comma => exact ((hmore rest).map (item :: ·)).step fun _ => rfl
    all_goals exact hclose.peek_cons fun _ => rfl

/-- A name is taken or not by a look at the next token. -/
theorem foretells_name (tokens : List Token) :
    Foretells Parser.name tokens (Parser.name tokens) := by
  rcases tokens with _ | ⟨⟨_ | _ | _, index⟩, rest⟩
  · exact .ended rfl
  · exact .last fun _ => rfl
  · exact .refuse rfl fun _ => rfl
  · exact .refuse rfl fun _ => rfl

/-- What each parsing function gives within one nesting budget foretells what it gives within
another one. -/
structure Foresees (options : Options) (budget budget' : Nat) : Prop where
  expression (level : Level) (tokens : List Token) :
    Foretells (expression options budget' level) tokens (expression options budget level tokens)
  filters (input : Node) (tokens : List Token) :
    Foretells (filters options budget' input) tokens (filters options budget input tokens)
  filterArguments (tokens : List Token) :
    Foretells (filterArguments options budget') tokens (filterArguments options budget tokens)
  operands (level : Level) (left : Node) (tokens : List Token) :
    Foretells (operands options budget' level left) tokens
      (operands options budget level left tokens)
  primary (tokens : List Token) :
    Foretells (primary options budget') tokens (primary options budget tokens)
  suffixes (left : Node) (tokens : List Token) :
    Foretells (suffixes options budget' left) tokens (suffixes options budget left tokens)
  arguments (tokens : List Token) :
    Foretells (Parser.arguments options budget') tokens (Parser.arguments options budget tokens)
  moreArguments (tokens : List Token) :
    Foretells (moreArguments options budget') tokens (moreArguments options budget tokens)
  elements (tokens : List Token) :
    Foretells (Parser.elements options budget') tokens (Parser.elements options budget tokens)
  properties (tokens : List Token) :
    Foretells (Parser.properties options budget') tokens (Parser.properties options budget tokens)
  property (tokens : List Token) :
    Foretells (Parser.property options budget') tokens (Parser.property options budget tokens)

/-- Without budget nothing is foretold. -/
theorem Foresees.zero (budget' : Nat) : Foresees options 0 budget' := by
  constructor <;> intros <;> exact .exhausted

section Step

variable {budget budget' : Nat} (ih : Foresees options budget budget')
include ih

/-- A level of binary operators is its first operand and the further ones. -/
theorem Foresees.binaryLevel (level : Level) (tokens : List Token) :
    Foretells (fun tokens => do
      let (left, rest) ← Parser.expression options budget' level.next tokens
      Parser.operands options budget' level left rest) tokens (do
        let (left, rest) ← Parser.expression options budget level.next tokens
        Parser.operands options budget level left rest) :=
  (ih.expression level.next tokens).bind _ _ (ih.operands level)

/-- After a target comes the sign of an assignment or not. -/
theorem Foresees.assigned (target : Node) (tokens : List Token) :
    Foretells (Parser.assigned options budget' target) tokens
      (Parser.assigned options budget target tokens) := by
  rcases tokens with _ | ⟨⟨_ | _ | sign, index⟩, rest⟩
  · exact .stop_nil rfl
  · exact .stop fun _ => rfl
  · exact .stop fun _ => rfl
  · cases sign
    case assign =>
      cases hassignable : target.isAssignable with
      | true =>
        have h := (ih.expression .assignment rest).map (Node.assignment target)
        simp only [Parser.assigned, hassignable, if_true]
        exact h.step fun _ => by simp only [Parser.assigned, hassignable, if_true]
      | false =>
        simp only [Parser.assigned, hassignable]
        exact .refuse rfl fun _ => by simp [Parser.assigned, hassignable]
    all_goals exact .stop fun _ => rfl

/-- After a test comes a question mark or not. -/
theorem Foresees.chosen (test : Node) (tokens : List Token) :
    Foretells (Parser.chosen options budget' test) tokens
      (Parser.chosen options budget test tokens) := by
  rcases tokens with _ | ⟨⟨_ | _ | sign, index⟩, rest⟩
  · exact .stop_nil rfl
  · exact .stop fun _ => rfl
  · exact .stop fun _ => rfl
  · cases sign
    case question =>
      have h := (ih.expression .assignment rest).bind _ _ fun alternate rest =>
        foretells_consume .colon rest _ _ fun rest =>
          (ih.expression .assignment rest).map (Node.conditional test alternate)
      exact h.step fun _ => rfl
    all_goals exact .stop fun _ => rfl

/-- After a name comes the colon of a value or not. -/
theorem Foresees.valued (key : String) (tokens : List Token) :
    Foretells (Parser.valued options budget' key) tokens
      (Parser.valued options budget key tokens) := by
  rcases tokens with _ | ⟨⟨_ | _ | sign, index⟩, rest⟩
  · exact .stop_nil rfl
  · exact .stop fun _ => rfl
  · exact .stop fun _ => rfl
  · cases sign
    case colon =>
      exact ((ih.expression .assignment rest).map
        fun value => Property.entry (.identifier key) value false).step fun _ => rfl
    all_goals exact .stop fun _ => rfl

/-- An expression is foretold by the functions that it calls. -/
theorem Foresees.expression_succ (level : Level) (tokens : List Token) :
    Foretells (Parser.expression options (budget' + 1) level) tokens
      (Parser.expression options (budget + 1) level tokens) := by
  cases level with
  | filter =>
    exact ((ih.expression .assignment tokens).bind _ _ ih.filters).peek fun _ _ => rfl
  | assignment =>
    exact ((ih.expression .conditional tokens).bind _ _ ih.assigned).peek fun _ _ => rfl
  | conditional =>
    exact ((ih.expression .or tokens).bind _ _ ih.chosen).peek fun _ _ => rfl
  | or | and | equality | relational | additive | multiplicative =>
    exact (ih.binaryLevel _ tokens).peek fun _ _ => rfl
  | unary =>
    rcases tokens with _ | ⟨⟨_ | _ | sign, index⟩, rest⟩
    · exact (ih.expression .chain _).peek_nil rfl
    · exact (ih.expression .chain _).peek_cons fun _ => rfl
    · exact (ih.expression .chain _).peek_cons fun _ => rfl
    · cases sign
      case plus => exact ((ih.expression .unary rest).map (Node.unary .plus true)).step fun _ => rfl
      case minus =>
        exact ((ih.expression .unary rest).map (Node.unary .minus true)).step fun _ => rfl
      case not => exact ((ih.expression .unary rest).map (Node.unary .not true)).step fun _ => rfl
      all_goals exact (ih.expression .chain _).peek_cons fun _ => rfl
  | chain => exact ((ih.primary tokens).bind _ _ ih.suffixes).peek fun _ _ => rfl

/-- Each further filter is told by its pipe. -/
theorem Foresees.filters_succ (input : Node) (tokens : List Token) :
    Foretells (Parser.filters options (budget' + 1) input) tokens
      (Parser.filters options (budget + 1) input tokens) := by
  rcases tokens with _ | ⟨⟨_ | _ | sign, index⟩, rest⟩
  · exact .stop_nil rfl
  · exact .stop fun _ => rfl
  · exact .stop fun _ => rfl
  · cases sign
    case pipe =>
      have h := (foretells_name rest).bind _ _ fun name rest =>
        (ih.filterArguments rest).bind _ _ fun arguments =>
          ih.filters (.filter (.identifier name) (input :: arguments))
      exact h.step fun _ => rfl
    all_goals exact .stop fun _ => rfl

/-- Each further argument of a filter is told by its colon. -/
theorem Foresees.filterArguments_succ (tokens : List Token) :
    Foretells (Parser.filterArguments options (budget' + 1)) tokens
      (Parser.filterArguments options (budget + 1) tokens) := by
  rcases tokens with _ | ⟨⟨_ | _ | sign, index⟩, rest⟩
  · exact .stop_nil rfl
  · exact .stop fun _ => rfl
  · exact .stop fun _ => rfl
  · cases sign
    case colon =>
      have h := (ih.expression .assignment rest).bind _ _ fun argument rest =>
        (ih.filterArguments rest).map (argument :: ·)
      exact h.step fun _ => rfl
    all_goals exact .stop fun _ => rfl

/-- Each further operand is told by its operator. -/
theorem Foresees.operands_succ (level : Level) (left : Node) (tokens : List Token) :
    Foretells (Parser.operands options (budget' + 1) level left) tokens
      (Parser.operands options (budget + 1) level left tokens) := by
  rcases tokens with _ | ⟨⟨_ | _ | sign, index⟩, rest⟩
  · exact .stop_nil rfl
  · exact .stop fun _ => rfl
  · exact .stop fun _ => rfl
  · cases hsign : Connective.ofSymbol? sign with
    | none =>
      simp only [Parser.operands, hsign]
      exact .stop fun _ => by simp only [Parser.operands, hsign]
    | some connective =>
      simp only [Parser.operands, hsign]
      split
      case isTrue hlevel =>
        have h := (ih.expression level.next rest).bind _ _ fun right =>
          ih.operands level (connective.join left right)
        exact h.step fun _ => by simp only [Parser.operands, hsign, if_pos hlevel]
      case isFalse hlevel =>
        exact .stop fun _ => by simp only [Parser.operands, hsign, if_neg hlevel]

/-- What a primary is shows at its first token. -/
theorem Foresees.primary_succ (tokens : List Token) :
    Foretells (Parser.primary options (budget' + 1)) tokens
      (Parser.primary options (budget + 1) tokens) := by
  rcases tokens with _ | ⟨⟨_ | _ | sign, index⟩, rest⟩
  · exact .ended rfl
  · exact .last fun _ => rfl
  · exact .last fun _ => rfl
  · cases sign
    case openParen =>
      have h := (ih.expression .filter rest).bind _ _ (foretells_close .closeParen)
      exact h.step fun _ => rfl
    case openBracket => exact ((ih.elements rest).map Node.array).step fun _ => rfl
    case openBrace => exact ((ih.properties rest).map Node.object).step fun _ => rfl
    all_goals exact .refuse rfl fun _ => rfl

/-- Each further suffix is told by its first token. -/
theorem Foresees.suffixes_succ (left : Node) (tokens : List Token) :
    Foretells (Parser.suffixes options (budget' + 1) left) tokens
      (Parser.suffixes options (budget + 1) left tokens) := by
  rcases tokens with _ | ⟨⟨_ | _ | sign, index⟩, rest⟩
  · exact .stop_nil rfl
  · exact .stop fun _ => rfl
  · exact .stop fun _ => rfl
  · cases sign
    case openParen =>
      exact ((ih.arguments rest).bind _ _ fun arguments =>
        ih.suffixes (.call left arguments)).step fun _ => rfl
    case openBracket =>
      have h := (ih.expression .assignment rest).bind _ _ fun property rest =>
        foretells_consume .closeBracket rest _ _ (ih.suffixes (.member left property true))
      exact h.step fun _ => rfl
    case dot =>
      exact ((foretells_name rest).bind _ _ fun name =>
        ih.suffixes (.member left (.identifier name) false)).step fun _ => rfl
    all_goals exact .stop fun _ => rfl

/-- Whether a call has arguments shows at the next token. -/
theorem Foresees.arguments_succ (tokens : List Token) :
    Foretells (Parser.arguments options (budget' + 1)) tokens
      (Parser.arguments options (budget + 1) tokens) := by
  rcases tokens with _ | ⟨⟨_ | _ | sign, index⟩, rest⟩
  · exact (ih.moreArguments _).peek_nil rfl
  · exact (ih.moreArguments _).peek_cons fun _ => rfl
  · exact (ih.moreArguments _).peek_cons fun _ => rfl
  · cases sign
    case closeParen => exact .last fun _ => rfl
    all_goals exact (ih.moreArguments _).peek_cons fun _ => rfl

/-- Whether a call has a further argument shows after each one. -/
theorem Foresees.moreArguments_succ (tokens : List Token) :
    Foretells (Parser.moreArguments options (budget' + 1)) tokens
      (Parser.moreArguments options (budget + 1) tokens) :=
  ((ih.expression .filter tokens).bind _ _ (foretells_listed .closeParen ih.moreArguments)).peek
    fun _ _ => rfl

/-- Whether an array has an element shows at the next token. -/
theorem Foresees.elements_succ (tokens : List Token) :
    Foretells (Parser.elements options (budget' + 1)) tokens
      (Parser.elements options (budget + 1) tokens) := by
  have h := (ih.expression .assignment tokens).bind _ _ (foretells_listed .closeBracket ih.elements)
  rcases tokens with _ | ⟨⟨_ | _ | sign, index⟩, rest⟩
  · exact h.peek_nil rfl
  · exact h.peek_cons fun _ => rfl
  · exact h.peek_cons fun _ => rfl
  · cases sign
    case closeBracket => exact .last fun _ => rfl
    all_goals exact h.peek_cons fun _ => rfl

/-- Whether an object has a property shows at the next token. -/
theorem Foresees.properties_succ (tokens : List Token) :
    Foretells (Parser.properties options (budget' + 1)) tokens
      (Parser.properties options (budget + 1) tokens) := by
  have h := (ih.property tokens).bind _ _ (foretells_listed .closeBrace ih.properties)
  rcases tokens with _ | ⟨⟨_ | _ | sign, index⟩, rest⟩
  · exact h.peek_nil rfl
  · exact h.peek_cons fun _ => rfl
  · exact h.peek_cons fun _ => rfl
  · cases sign
    case closeBrace => exact .last fun _ => rfl
    all_goals exact h.peek_cons fun _ => rfl

/-- How a property is written shows at its first token, and after a name at the next one. -/
theorem Foresees.property_succ (tokens : List Token) :
    Foretells (Parser.property options (budget' + 1)) tokens
      (Parser.property options (budget + 1) tokens) := by
  rcases tokens with _ | ⟨⟨key | ⟨spelling, key⟩ | sign, index⟩, rest⟩
  · exact .ended rfl
  · exact (ih.valued key rest).step fun _ => rfl
  · have h := foretells_consume .colon rest _ _ fun rest =>
      (ih.expression .assignment rest).map fun value => Property.entry (.literal key) value false
    exact h.step fun _ => rfl
  · cases sign
    case openBracket =>
      have h := (ih.expression .assignment rest).bind _ _ fun key rest =>
        foretells_consume .closeBracket rest _ _ fun rest =>
          foretells_consume .colon rest _ _ fun rest =>
            (ih.expression .assignment rest).map fun value => Property.entry key value true
      exact h.step fun _ => rfl
    all_goals exact .refuse rfl fun _ => rfl

end Step

/-- The outcome of every parsing function foretells its outcome within every budget that is not
smaller. -/
theorem foresees (options : Options) {budget budget' : Nat} (h : budget ≤ budget') :
    Foresees options budget budget' := by
  induction budget generalizing budget' with
  | zero => exact .zero budget'
  | succ budget ih =>
    obtain ⟨budget', rfl⟩ : ∃ n, budget' = n + 1 := Nat.exists_eq_add_one_of_ne_zero (by omega)
    have ih := ih (Nat.le_of_succ_le_succ h)
    exact ⟨ih.expression_succ, ih.filters_succ, ih.filterArguments_succ, ih.operands_succ,
      ih.primary_succ, ih.suffixes_succ, ih.arguments_succ, ih.moreArguments_succ,
      ih.elements_succ, ih.properties_succ, ih.property_succ⟩

/-- After a statement come a semicolon and more statements, or nothing. -/
theorem foretells_continued {more more' : List Token → Reading (Front (List Node))}
    (hmore : ∀ tokens, Foretells more' tokens (more tokens)) (body : List Node)
    (tokens : List Token) :
    Foretells (continued more' body) tokens (continued more body tokens) := by
  rcases tokens with _ | ⟨⟨_ | _ | sign, index⟩, rest⟩
  · exact .stop_nil rfl
  · exact .stop fun _ => rfl
  · exact .stop fun _ => rfl
  · cases sign
    case semicolon => exact ((hmore rest).map (body ++ ·)).step fun _ => rfl
    all_goals exact .stop fun _ => rfl

/-- Where a statement must begin, its expression comes first and then what continues it. -/
theorem statements_cons (options : Options) (budget : Nat) (token : Token) (rest : List Token) :
    statements options (budget + 1) (token :: rest) =
      if endsStatement token then continued (statements options budget) [] (token :: rest)
      else (do
        let (node, rest) ← expression options budget .filter (token :: rest)
        continued (statements options budget) [.statement node] rest) := by
  simp only [statements]
  split
  · rfl
  · cases expression options budget .filter (token :: rest) <;> rfl

/-- Statements are foretold like the expressions in them. -/
theorem foretells_statements (options : Options) {budget budget' : Nat} (h : budget ≤ budget')
    (tokens : List Token) :
    Foretells (statements options budget') tokens (statements options budget tokens) := by
  induction budget generalizing budget' tokens with
  | zero => exact .exhausted
  | succ budget ih =>
    obtain ⟨budget', rfl⟩ : ∃ n, budget' = n + 1 := Nat.exists_eq_add_one_of_ne_zero (by omega)
    have hle := Nat.le_of_succ_le_succ h
    rcases tokens with _ | ⟨token, rest⟩
    · exact .stop_nil rfl
    rw [statements_cons]
    split
    case isTrue hends =>
      exact (foretells_continued (ih hle) [] _).peek_cons fun _ => by
        rw [statements_cons, if_pos hends]
    case isFalse hends =>
      have hnode := ((foresees options hle).expression .filter (token :: rest)).bind _ _
        fun node => foretells_continued (ih hle) [.statement node]
      refine hnode.peek_cons fun _ => ?_
      rw [statements_cons, if_neg hends]

end Parser

end TemplateExpr
