import TemplateExpr.Proofs.Grammar.Lookahead

/-!
# The calls of the parser

The parsing functions call one another. Here they are taken as one function of what is called, so that a
single equation says what each of them does in terms of further calls. The equation is stated for any
kind of computation. Reading alone, it gives the parser; with a count beside the outcome, it tells how
many calls the parser makes and how many tokens it takes.
-/

namespace TemplateExpr.Parser

/-- A parsing function together with what it is given beside the tokens. -/
inductive Call where
  | expression (level : Level)
  | filters (input : Node)
  | filterArguments
  | operands (level : Level) (left : Node)
  | primary
  | suffixes (node : Node)
  | arguments
  | moreArguments
  | elements
  | properties
  | property
  | statements

/-- What a call gives beside the tokens that are left. -/
abbrev Call.Result : Call → Type
  | .expression _ | .filters _ | .operands _ _ | .primary | .suffixes _ => Node
  | .filterArguments | .arguments | .moreArguments | .elements | .statements => List Node
  | .properties => List Property
  | .property => Property

/-- The outcome of a call within a nesting budget. -/
def Call.run (options : Options) (budget : Nat) :
    (call : Call) → List Token → Reading (Front call.Result)
  | .expression level => Parser.expression options budget level
  | .filters input => Parser.filters options budget input
  | .filterArguments => Parser.filterArguments options budget
  | .operands level left => Parser.operands options budget level left
  | .primary => Parser.primary options budget
  | .suffixes node => Parser.suffixes options budget node
  | .arguments => Parser.arguments options budget
  | .moreArguments => Parser.moreArguments options budget
  | .elements => Parser.elements options budget
  | .properties => Parser.properties options budget
  | .property => Parser.property options budget
  | .statements => Parser.statements options budget

/-- What a call does by itself. Every token that goes is taken by `take`, which raises the failures as
well, and everything else is left to further calls. -/
def proceed {m : Type → Type} [Monad m] (options : Options) (take : {α : Type} → Reading α → m α)
    (next : (call : Call) → List Token → m (Front call.Result)) :
    (call : Call) → List Token → m (Front call.Result)
  | .expression .filter, tokens => do
    let (input, rest) ← next (.expression .assignment) tokens
    next (.filters input) rest
  | .expression .assignment, tokens => do
    let (target, rest) ← next (.expression .conditional) tokens
    match rest with
    | ⟨.symbol .assign, _⟩ :: rest =>
      if target.isAssignable then
        let rest ← take (.ok rest)
        let (value, rest) ← next (.expression .assignment) rest
        return (Node.assignment target value, rest)
      else take (.error .notAssignable)
    | rest => return (target, rest)
  | .expression .conditional, tokens => do
    let (test, rest) ← next (.expression .or) tokens
    match rest with
    | ⟨.symbol .question, _⟩ :: rest =>
      let rest ← take (.ok rest)
      let (alternate, rest) ← next (.expression .assignment) rest
      let rest ← take (consume .colon rest)
      let (consequent, rest) ← next (.expression .assignment) rest
      return (Node.conditional test alternate consequent, rest)
    | rest => return (test, rest)
  | .expression .unary, tokens =>
    match tokens with
    | ⟨.symbol sign, index⟩ :: rest =>
      match UnaryOperator.ofSymbol? sign with
      | some operator => do
        let rest ← take (.ok rest)
        let (argument, rest) ← next (.expression .unary) rest
        return (Node.unary operator true argument, rest)
      | none => next (.expression .chain) (⟨.symbol sign, index⟩ :: rest)
    | tokens => next (.expression .chain) tokens
  | .expression .chain, tokens => do
    let (node, rest) ← next .primary tokens
    next (.suffixes node) rest
  | .expression level, tokens => do
    let (left, rest) ← next (.expression level.next) tokens
    next (.operands level left) rest
  | .filters input, tokens =>
    match tokens with
    | ⟨.symbol .pipe, _⟩ :: rest => do
      let rest ← take (.ok rest)
      let (name, rest) ← take (Parser.name rest)
      let (arguments, rest) ← next .filterArguments rest
      next (.filters (.filter (.identifier name) (input :: arguments))) rest
    | rest => return (input, rest)
  | .filterArguments, tokens =>
    match tokens with
    | ⟨.symbol .colon, _⟩ :: rest => do
      let rest ← take (.ok rest)
      let (argument, rest) ← next (.expression .assignment) rest
      let (arguments, rest) ← next .filterArguments rest
      return (argument :: arguments, rest)
    | rest => return ([], rest)
  | .operands level left, tokens =>
    match tokens with
    | ⟨.symbol sign, index⟩ :: rest =>
      match Connective.ofSymbol? sign with
      | some connective =>
        if connective.level = level then do
          let rest ← take (.ok rest)
          let (right, rest) ← next (.expression level.next) rest
          next (.operands level (connective.join left right)) rest
        else return (left, ⟨.symbol sign, index⟩ :: rest)
      | none => return (left, ⟨.symbol sign, index⟩ :: rest)
    | rest => return (left, rest)
  | .primary, tokens =>
    match tokens with
    | [] => take (.error .unexpectedEnd)
    | token :: rest =>
      match token.lexeme with
      | .symbol .openParen => do
        let rest ← take (.ok rest)
        let (node, rest) ← next (.expression .filter) rest
        let rest ← take (consume .closeParen rest)
        return (node, rest)
      | .symbol .openBracket => do
        let rest ← take (.ok rest)
        let (elements, rest) ← next .elements rest
        return (Node.array elements, rest)
      | .symbol .openBrace => do
        let rest ← take (.ok rest)
        let (properties, rest) ← next .properties rest
        return (Node.object properties, rest)
      | .symbol _ => take (.error (.unfit token .notPrimary))
      | .identifier name => do
        let rest ← take (.ok rest)
        return (primaryName options name, rest)
      | .constant _ value => do
        let rest ← take (.ok rest)
        return (Node.literal value, rest)
  | .suffixes node, tokens =>
    match tokens with
    | ⟨.symbol .openParen, _⟩ :: rest => do
      let rest ← take (.ok rest)
      let (arguments, rest) ← next .arguments rest
      next (.suffixes (.call node arguments)) rest
    | ⟨.symbol .openBracket, _⟩ :: rest => do
      let rest ← take (.ok rest)
      let (property, rest) ← next (.expression .assignment) rest
      let rest ← take (consume .closeBracket rest)
      next (.suffixes (.member node property true)) rest
    | ⟨.symbol .dot, _⟩ :: rest => do
      let rest ← take (.ok rest)
      let (name, rest) ← take (Parser.name rest)
      next (.suffixes (.member node (.identifier name) false)) rest
    | rest => return (node, rest)
  | .arguments, tokens =>
    match tokens with
    | ⟨.symbol .closeParen, _⟩ :: rest => do
      let rest ← take (.ok rest)
      return ([], rest)
    | tokens => next .moreArguments tokens
  | .moreArguments, tokens => do
    let (argument, rest) ← next (.expression .filter) tokens
    match rest with
    | ⟨.symbol .comma, _⟩ :: rest =>
      let rest ← take (.ok rest)
      let (arguments, rest) ← next .moreArguments rest
      return (argument :: arguments, rest)
    | rest =>
      let rest ← take (consume .closeParen rest)
      return ([argument], rest)
  | .elements, tokens =>
    match tokens with
    | ⟨.symbol .closeBracket, _⟩ :: rest => do
      let rest ← take (.ok rest)
      return ([], rest)
    | tokens => do
      let (element, rest) ← next (.expression .assignment) tokens
      match rest with
      | ⟨.symbol .comma, _⟩ :: rest =>
        let rest ← take (.ok rest)
        let (elements, rest) ← next .elements rest
        return (element :: elements, rest)
      | rest =>
        let rest ← take (consume .closeBracket rest)
        return ([element], rest)
  | .properties, tokens =>
    match tokens with
    | ⟨.symbol .closeBrace, _⟩ :: rest => do
      let rest ← take (.ok rest)
      return ([], rest)
    | tokens => do
      let (property, rest) ← next .property tokens
      match rest with
      | ⟨.symbol .comma, _⟩ :: rest =>
        let rest ← take (.ok rest)
        let (properties, rest) ← next .properties rest
        return (property :: properties, rest)
      | rest =>
        let rest ← take (consume .closeBrace rest)
        return ([property], rest)
  | .property, tokens =>
    match tokens with
    | [] => take (.error .unexpectedEnd)
    | token :: rest =>
      match token.lexeme with
      | .constant _ key => do
        let rest ← take (.ok rest)
        let rest ← take (consume .colon rest)
        let (value, rest) ← next (.expression .assignment) rest
        return (Property.entry (.literal key) value false, rest)
      | .identifier key => do
        let rest ← take (.ok rest)
        match rest with
        | ⟨.symbol .colon, _⟩ :: rest =>
          let rest ← take (.ok rest)
          let (value, rest) ← next (.expression .assignment) rest
          return (Property.entry (.identifier key) value false, rest)
        | rest => return (Property.entry (.identifier key) (.identifier key) false, rest)
      | .symbol .openBracket => do
        let rest ← take (.ok rest)
        let (key, rest) ← next (.expression .assignment) rest
        let rest ← take (consume .closeBracket rest)
        let rest ← take (consume .colon rest)
        let (value, rest) ← next (.expression .assignment) rest
        return (Property.entry key value true, rest)
      | .symbol _ => take (.error (.unfit token .invalidKey))
  | .statements, tokens =>
    match tokens with
    | [] => return ([], [])
    | token :: rest => do
      let (body, rest) ← if endsStatement token then pure ([], token :: rest) else do
        let (node, rest) ← next (.expression .filter) (token :: rest)
        pure ([Node.statement node], rest)
      match rest with
      | ⟨.symbol .semicolon, _⟩ :: rest =>
        let rest ← take (.ok rest)
        let (more, rest) ← next .statements rest
        return (body ++ more, rest)
      | rest => return (body, rest)

variable {options : Options}

/-- Without budget every call fails. -/
theorem Call.run_zero (call : Call) (tokens : List Token) :
    run options 0 call tokens = .error .exhausted := by
  cases call <;> rfl

/-- With budget a call does what it does by itself, and its further calls have one less. -/
theorem Call.run_succ (budget : Nat) (call : Call) (tokens : List Token) :
    run options (budget + 1) call tokens =
      proceed options (fun reading => reading) (run options budget) call tokens := by
  cases call with
  | expression level =>
    cases level
    case unary => rcases tokens with _ | ⟨⟨_ | _ | sign, index⟩, rest⟩ <;> rfl
    all_goals rfl
  | moreArguments => rfl
  | statements => rcases tokens with _ | ⟨token, rest⟩ <;> rfl
  | primary | property => rcases tokens with _ | ⟨⟨_ | _ | sign, index⟩, rest⟩ <;> rfl
  | operands level left => rcases tokens with _ | ⟨⟨_ | _ | sign, index⟩, rest⟩ <;> rfl
  | _ =>
    rcases tokens with _ | ⟨⟨_ | _ | sign, index⟩, rest⟩
    all_goals first | rfl | (cases sign <;> rfl)

/-- An outcome together with the number of steps that it took. -/
structure Counted (α : Type) where
  outcome : Reading α
  steps : Nat

namespace Counted

variable {α β : Type}

/-- Steps are added up until one of two computations fails. -/
instance : Monad Counted where
  pure value := ⟨.ok value, 0⟩
  bind first next :=
    match first.outcome with
    | .ok value => ⟨(next value).outcome, first.steps + (next value).steps⟩
    | .error failure => ⟨.error failure, first.steps⟩

/-- A token that is taken is a step. -/
def take (reading : Reading α) : Counted α :=
  match reading with
  | .ok value => ⟨.ok value, 1⟩
  | .error failure => ⟨.error failure, 0⟩

/-- A call is a step. -/
def called (computation : Counted α) : Counted α := ⟨computation.outcome, computation.steps + 1⟩

@[simp]
theorem outcome_pure (value : α) : (pure value : Counted α).outcome = pure value := rfl

@[simp]
theorem outcome_bind (first : Counted α) (next : α → Counted β) :
    (first >>= next).outcome = first.outcome >>= fun value => (next value).outcome := by
  obtain ⟨_ | _, steps⟩ := first <;> rfl

@[simp]
theorem outcome_take (reading : Reading α) : (take reading).outcome = reading := by
  cases reading <;> rfl

end Counted

/-- The outcome of a call within a nesting budget, with the calls that are made and the tokens that are
taken in them. -/
def Call.counted (options : Options) :
    (budget : Nat) → (call : Call) → List Token → Counted (Front call.Result)
  | 0, _, _ => ⟨.error .exhausted, 1⟩
  | budget + 1, call, tokens =>
    (proceed options Counted.take (counted options budget) call tokens).called

/-- Counting changes nothing about what a call does by itself. -/
theorem outcome_proceed (next : (call : Call) → List Token → Counted (Front call.Result)) (call : Call)
    (tokens : List Token) :
    (proceed options Counted.take next call tokens).outcome =
      proceed options (fun reading => reading) (fun call tokens => (next call tokens).outcome) call
        tokens := by
  cases call with
  | expression level =>
    cases level
    case unary =>
      rcases tokens with _ | ⟨⟨_ | _ | sign, index⟩, rest⟩
      case cons.symbol =>
        simp only [proceed]
        cases UnaryOperator.ofSymbol? sign <;> simp
      all_goals rfl
    case assignment =>
      simp only [proceed, Counted.outcome_bind]
      refine bind_congr fun ⟨target, rest⟩ => ?_
      split
      · split <;> simp
      · rfl
    case conditional =>
      simp only [proceed, Counted.outcome_bind]
      refine bind_congr fun ⟨test, rest⟩ => ?_
      split <;> simp
    all_goals simp only [proceed, Counted.outcome_bind]
  | filters | filterArguments | suffixes =>
    simp only [proceed]
    split <;> simp
  | arguments =>
    simp only [proceed]
    split <;> simp
  | operands =>
    simp only [proceed]
    split
    · split
      · split <;> simp
      · rfl
    · rfl
  | moreArguments =>
    simp only [proceed, Counted.outcome_bind]
    refine bind_congr fun ⟨argument, rest⟩ => ?_
    split <;> simp
  | elements | properties =>
    simp only [proceed]
    split
    · rfl
    simp only [Counted.outcome_bind]
    refine bind_congr fun ⟨argument, rest⟩ => ?_
    split <;> simp
  | primary =>
    simp only [proceed]
    split
    · simp
    · split <;> simp
  | property =>
    simp only [proceed]
    split
    · simp
    · split
      · simp
      · simp only [Counted.outcome_bind, Counted.outcome_take]
        refine bind_congr fun rest => ?_
        split <;> simp
      · simp
      · simp
  | statements =>
    simp only [proceed]
    split
    · rfl
    · split
      · simp only [Counted.outcome_bind, Counted.outcome_pure]
        refine bind_congr fun _ => ?_
        split <;> simp
      · simp only [Counted.outcome_bind, Counted.outcome_pure]
        refine bind_congr fun _ => bind_congr fun _ => ?_
        split <;> simp

/-- Counting changes nothing about the outcome of a call. -/
theorem Call.outcome_counted (budget : Nat) (call : Call) (tokens : List Token) :
    (counted options budget call tokens).outcome = run options budget call tokens := by
  induction budget generalizing call tokens with
  | zero => exact (run_zero call tokens).symm
  | succ budget ih =>
    have hnext : (fun call tokens => (counted options budget call tokens).outcome) =
        run options budget := by
      funext call tokens
      exact ih call tokens
    rw [run_succ, ← hnext]
    exact outcome_proceed (counted options budget) call tokens

end TemplateExpr.Parser
