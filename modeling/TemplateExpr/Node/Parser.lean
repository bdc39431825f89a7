import TemplateExpr.Node.Level
import TemplateExpr.Options
import TemplateExpr.Token.Basic

/-!
# Parsing

A predictive parser over a list of tokens. Each function takes what it reads from the front
and hands on the rest; the first failure ends the run. Every call carries a budget that counts
the calls it is nested in. A program of `n` tokens nests no deeper than sixteen calls for each
token and sixteen more, so the budget given here is never used up.
-/

namespace TemplateExpr

/-- Why a token does not fit the grammar where it stands. -/
inductive SyntaxFault where
  | expecting (sign : Symbol)
  | unexpected
  | notPrimary
  | notIdentifier
  | invalidKey
  deriving DecidableEq

/-- How parsing can fail. -/
inductive ParseFailure where
  /-- The tokens end inside an expression. -/
  | unexpectedEnd
  | unfit (token : Token) (fault : SyntaxFault)
  /-- The left side of an assignment is neither a name nor a member. -/
  | notAssignable
  /-- The nesting budget is used up. -/
  | exhausted
  deriving DecidableEq

namespace Parser

/-- Reading may fail. -/
abbrev Reading := Except ParseFailure

/-- What was read from the front of a list of tokens, and the tokens after it. -/
abbrev Front (α : Type) := α × List Token

/-- The tokens after the given symbol, which must come first. -/
def consume (sign : Symbol) : List Token → Reading (List Token)
  | [] => .error .unexpectedEnd
  | token :: rest =>
    if token.lexeme = .symbol sign then .ok rest else .error (.unfit token (.expecting sign))

/-- The name that comes first. -/
def name : List Token → Reading (Front String)
  | [] => .error .unexpectedEnd
  | ⟨.identifier name, _⟩ :: rest => .ok (name, rest)
  | token :: _ => .error (.unfit token .notIdentifier)

/-- What a name denotes where an expression is expected. -/
def primaryName (options : Options) (name : String) : Node :=
  if name = "this" then .this
  else if name = "$locals" then .locals
  else match options.literal? name with
    | some value => .literal value
    | none => .identifier name

/-- Whether the token closes a group or ends a statement, and so begins no statement. -/
def endsStatement (token : Token) : Bool :=
  token.lexeme = .symbol .closeBrace || token.lexeme = .symbol .closeParen ||
    token.lexeme = .symbol .semicolon || token.lexeme = .symbol .closeBracket

mutual

/-- Read an expression that binds at least as tightly as the level. -/
def expression (options : Options) : (budget : Nat) → Level → List Token → Reading (Front Node)
  | 0, _, _ => .error .exhausted
  | budget + 1, .filter, tokens => do
    let (input, rest) ← expression options budget .assignment tokens
    filters options budget input rest
  | budget + 1, .assignment, tokens => do
    let (target, rest) ← expression options budget .conditional tokens
    match rest with
    | ⟨.symbol .assign, _⟩ :: rest =>
      if target.isAssignable then
        let (value, rest) ← expression options budget .assignment rest
        return (.assignment target value, rest)
      else .error .notAssignable
    | rest => return (target, rest)
  | budget + 1, .conditional, tokens => do
    let (test, rest) ← expression options budget .or tokens
    match rest with
    | ⟨.symbol .question, _⟩ :: rest =>
      let (alternate, rest) ← expression options budget .assignment rest
      let rest ← consume .colon rest
      let (consequent, rest) ← expression options budget .assignment rest
      return (.conditional test alternate consequent, rest)
    | rest => return (test, rest)
  | budget + 1, .unary, tokens =>
    match tokens with
    | ⟨.symbol sign, index⟩ :: rest =>
      match UnaryOperator.ofSymbol? sign with
      | some operator => do
        let (argument, rest) ← expression options budget .unary rest
        return (.unary operator true argument, rest)
      | none => expression options budget .chain (⟨.symbol sign, index⟩ :: rest)
    | tokens => expression options budget .chain tokens
  | budget + 1, .chain, tokens => do
    let (node, rest) ← primary options budget tokens
    suffixes options budget node rest
  | budget + 1, level, tokens => do
    let (left, rest) ← expression options budget level.next tokens
    operands options budget level left rest

/-- Read the filters that `input` is piped into. -/
def filters (options : Options) : (budget : Nat) → Node → List Token → Reading (Front Node)
  | 0, _, _ => .error .exhausted
  | budget + 1, input, ⟨.symbol .pipe, _⟩ :: rest => do
    let (name, rest) ← name rest
    let (arguments, rest) ← filterArguments options budget rest
    filters options budget (.filter (.identifier name) (input :: arguments)) rest
  | _ + 1, input, rest => .ok (input, rest)

/-- Read the arguments of a filter, each after a colon. -/
def filterArguments (options : Options) : (budget : Nat) → List Token → Reading (Front (List Node))
  | 0, _ => .error .exhausted
  | budget + 1, ⟨.symbol .colon, _⟩ :: rest => do
    let (argument, rest) ← expression options budget .assignment rest
    let (arguments, rest) ← filterArguments options budget rest
    return (argument :: arguments, rest)
  | _ + 1, rest => .ok ([], rest)

/-- Read the further operands of a level of binary operators, joining to the left. -/
def operands (options : Options) : (budget : Nat) → Level → Node → List Token → Reading (Front Node)
  | 0, _, _, _ => .error .exhausted
  | budget + 1, level, left, ⟨.symbol sign, index⟩ :: rest =>
    match Connective.ofSymbol? sign with
    | some connective =>
      if connective.level = level then do
        let (right, rest) ← expression options budget level.next rest
        operands options budget level (connective.join left right) rest
      else .ok (left, ⟨.symbol sign, index⟩ :: rest)
    | none => .ok (left, ⟨.symbol sign, index⟩ :: rest)
  | _ + 1, _, left, rest => .ok (left, rest)

/-- Read a group, an array, an object, a name or a constant. -/
def primary (options : Options) : (budget : Nat) → List Token → Reading (Front Node)
  | 0, _ => .error .exhausted
  | _ + 1, [] => .error .unexpectedEnd
  | budget + 1, token :: rest =>
    match token.lexeme with
    | .symbol .openParen => do
      let (node, rest) ← expression options budget .filter rest
      let rest ← consume .closeParen rest
      return (node, rest)
    | .symbol .openBracket => do
      let (elements, rest) ← elements options budget rest
      return (.array elements, rest)
    | .symbol .openBrace => do
      let (properties, rest) ← properties options budget rest
      return (.object properties, rest)
    | .symbol _ => .error (.unfit token .notPrimary)
    | .identifier name => .ok (primaryName options name, rest)
    | .constant _ value => .ok (.literal value, rest)

/-- Read the calls and member accesses that follow an expression. -/
def suffixes (options : Options) : (budget : Nat) → Node → List Token → Reading (Front Node)
  | 0, _, _ => .error .exhausted
  | budget + 1, node, ⟨.symbol .openParen, _⟩ :: rest => do
    let (arguments, rest) ← arguments options budget rest
    suffixes options budget (.call node arguments) rest
  | budget + 1, node, ⟨.symbol .openBracket, _⟩ :: rest => do
    let (property, rest) ← expression options budget .assignment rest
    let rest ← consume .closeBracket rest
    suffixes options budget (.member node property true) rest
  | budget + 1, node, ⟨.symbol .dot, _⟩ :: rest => do
    let (name, rest) ← name rest
    suffixes options budget (.member node (.identifier name) false) rest
  | _ + 1, node, rest => .ok (node, rest)

/-- Read the arguments of a call up to its closing parenthesis. -/
def arguments (options : Options) : (budget : Nat) → List Token → Reading (Front (List Node))
  | 0, _ => .error .exhausted
  | _ + 1, ⟨.symbol .closeParen, _⟩ :: rest => .ok ([], rest)
  | budget + 1, tokens => moreArguments options budget tokens

/-- Read one argument or more up to the closing parenthesis. -/
def moreArguments (options : Options) : (budget : Nat) → List Token → Reading (Front (List Node))
  | 0, _ => .error .exhausted
  | budget + 1, tokens => do
    let (argument, rest) ← expression options budget .filter tokens
    match rest with
    | ⟨.symbol .comma, _⟩ :: rest =>
      let (arguments, rest) ← moreArguments options budget rest
      return (argument :: arguments, rest)
    | rest =>
      let rest ← consume .closeParen rest
      return ([argument], rest)

/-- Read the elements of an array up to its closing bracket. A comma may come last. -/
def elements (options : Options) : (budget : Nat) → List Token → Reading (Front (List Node))
  | 0, _ => .error .exhausted
  | _ + 1, ⟨.symbol .closeBracket, _⟩ :: rest => .ok ([], rest)
  | budget + 1, tokens => do
    let (element, rest) ← expression options budget .assignment tokens
    match rest with
    | ⟨.symbol .comma, _⟩ :: rest =>
      let (elements, rest) ← elements options budget rest
      return (element :: elements, rest)
    | rest =>
      let rest ← consume .closeBracket rest
      return ([element], rest)

/-- Read the properties of an object up to its closing brace. A comma may come last. -/
def properties (options : Options) : (budget : Nat) → List Token → Reading (Front (List Property))
  | 0, _ => .error .exhausted
  | _ + 1, ⟨.symbol .closeBrace, _⟩ :: rest => .ok ([], rest)
  | budget + 1, tokens => do
    let (property, rest) ← property options budget tokens
    match rest with
    | ⟨.symbol .comma, _⟩ :: rest =>
      let (properties, rest) ← properties options budget rest
      return (property :: properties, rest)
    | rest =>
      let rest ← consume .closeBrace rest
      return ([property], rest)

/-- Read one property. A name alone stands for itself and its value. -/
def property (options : Options) : (budget : Nat) → List Token → Reading (Front Property)
  | 0, _ => .error .exhausted
  | _ + 1, [] => .error .unexpectedEnd
  | budget + 1, token :: rest =>
    match token.lexeme with
    | .constant _ key => do
      let rest ← consume .colon rest
      let (value, rest) ← expression options budget .assignment rest
      return (.entry (.literal key) value false, rest)
    | .identifier key =>
      match rest with
      | ⟨.symbol .colon, _⟩ :: rest => do
        let (value, rest) ← expression options budget .assignment rest
        return (.entry (.identifier key) value false, rest)
      | rest => .ok (.entry (.identifier key) (.identifier key) false, rest)
    | .symbol .openBracket => do
      let (key, rest) ← expression options budget .assignment rest
      let rest ← consume .closeBracket rest
      let rest ← consume .colon rest
      let (value, rest) ← expression options budget .assignment rest
      return (.entry key value true, rest)
    | .symbol _ => .error (.unfit token .invalidKey)

end

/-- Read statements as long as semicolons separate them. -/
def statements (options : Options) : (budget : Nat) → List Token → Reading (Front (List Node))
  | 0, _ => .error .exhausted
  | _ + 1, [] => .ok ([], [])
  | budget + 1, token :: rest => do
    let (body, rest) ← if endsStatement token then pure ([], token :: rest) else do
      let (node, rest) ← expression options budget .filter (token :: rest)
      pure ([Node.statement node], rest)
    match rest with
    | ⟨.symbol .semicolon, _⟩ :: rest =>
      let (more, rest) ← statements options budget rest
      return (body ++ more, rest)
    | rest => return (body, rest)

/-- A budget that no list of so many tokens uses up. -/
def budget (tokens : Nat) : Nat := 16 * (tokens + 1)

/-- The program that the tokens spell. -/
def program (options : Options) (tokens : List Token) : Reading Node := do
  match ← statements options (budget tokens.length) tokens with
  | (body, []) => return .program body
  | (_, token :: _) => .error (.unfit token .unexpected)

end Parser

end TemplateExpr
