import TemplateExpr.Proofs.Grammar.Calls
import TemplateExpr.Proofs.Grammar.Failures

/-!
# The parser makes progress

Every call leaves a rest of its tokens, so the parser never goes back and never past the end. All but the
loops take at least one token. How deep the calls nest and how many steps they take together is bounded
by the number of tokens, so that parsing ends, and ends in the same way, whatever more budget there is.

The steps are paid for by tokens: each token that is taken pays for itself and for 23 calls, as many as
there are from a filter down to a constant and back through the loops that find nothing to do. What is
left over when a call succeeds depends on its level alone.
-/

namespace TemplateExpr.Parser

variable {options : Options} {α β : Type}

/-- How many steps a call may take beyond those that its tokens pay for, and how deep its calls may nest
beyond sixteen for each token. -/
def Call.slack : Call → Nat
  | .expression level => 12 - level.rank
  | .filters _ | .filterArguments | .operands _ _ | .primary | .suffixes _ | .property => 1
  | .arguments => 14
  | .moreArguments | .statements => 13
  | .elements => 12
  | .properties => 2

/-- How many of its steps a call that succeeds leaves over. -/
def Call.spare : Call → Nat
  | .expression level => 12 + level.rank
  | .filters _ | .filterArguments | .operands _ _ | .suffixes _ => 0
  | .primary | .property => 23
  | .arguments | .moreArguments => 14
  | .elements | .statements => 12
  | .properties => 2

/-- Whether a call is a loop, which may find nothing to do. -/
def Call.isLoop : Call → Bool
  | .filters _ | .filterArguments | .operands _ _ | .suffixes _ | .statements => true
  | _ => false

namespace Counted

/-- What has to be left over after an outcome: what the remaining tokens pay for, and some more. -/
def reserve (spare : Nat) : Reading (Front α) → Nat
  | .ok (_, rest) => 24 * rest.length + spare
  | .error _ => 0

/-- Whether a computation takes no more steps than it may, and leaves enough of them over. -/
def Affords (allowance spare : Nat) (computation : Counted (Front α)) : Prop :=
  computation.steps + reserve spare computation.outcome ≤ allowance

variable {allowance allowance' spare spare' : Nat}

/-- What is allowed more can be left over. -/
theorem Affords.mono {computation : Counted (Front α)} (h : Affords allowance spare computation)
    (hle : allowance ≤ allowance') (hspare : spare' + allowance ≤ spare + allowance') :
    Affords allowance' spare' computation := by
  obtain ⟨_ | ⟨value, rest⟩, steps⟩ := computation <;> simp only [Affords, reserve] at h ⊢ <;> omega

/-- A value is given without a step. -/
theorem Affords.pure {value : α} {rest : List Token} (h : 24 * rest.length + spare ≤ allowance) :
    Affords allowance spare (pure (value, rest)) := by
  rw [Affords]
  exact (Nat.zero_add _).trans_le h

/-- A failure takes no step. -/
theorem Affords.fail (failure : ParseFailure) :
    Affords allowance spare (take (.error failure) : Counted (Front α)) :=
  Nat.zero_le _

/-- A call takes one step more. -/
theorem Affords.called {computation : Counted (Front α)} (h : Affords allowance spare computation) :
    Affords (allowance + 1) spare computation.called := by
  simp only [Affords, Counted.called] at h ⊢
  omega

/-- A second computation has what the first one leaves over. -/
theorem Affords.bind {first : Counted (Front α)} {next : Front α → Counted (Front β)}
    (h : Affords allowance spare first)
    (hnext : ∀ value rest allowance', 24 * rest.length + spare ≤ allowance' →
      Affords allowance' spare' (next (value, rest))) :
    Affords allowance spare' (first >>= next) := by
  obtain ⟨_ | ⟨value, rest⟩, steps⟩ := first
  · exact h
  · simp only [Affords, reserve] at h
    have hmore := hnext value rest (allowance - steps) (by omega)
    change steps + (next (value, rest)).steps + reserve spare' (next (value, rest)).outcome ≤ allowance
    rw [Affords] at hmore
    omega

/-- A token that is taken pays for its step and 23 others. -/
theorem Affords.take {token : Token} {rest : List Token} {taken : β} {next : β → Counted (Front α)}
    (htokens : 24 * (token :: rest).length + spare ≤ allowance)
    (hnext : ∀ allowance', 24 * rest.length + (spare + 23) ≤ allowance' →
      Affords allowance' spare' (next taken)) :
    Affords allowance spare' (take (.ok taken) >>= next) := by
  rw [List.length_cons] at htokens
  have hmore := hnext (allowance - 1) (by omega)
  change 1 + (next taken).steps + reserve spare' (next taken).outcome ≤ allowance
  rw [Affords] at hmore
  omega

/-- So does a sign that is consumed. -/
theorem Affords.consume {sign : Symbol} {tokens : List Token}
    {next : List Token → Counted (Front α)} (htokens : 24 * tokens.length + spare ≤ allowance)
    (hnext : ∀ rest allowance', 24 * rest.length + (spare + 23) ≤ allowance' →
      Affords allowance' spare' (next rest)) :
    Affords allowance spare' (Counted.take (Parser.consume sign tokens) >>= next) := by
  cases hconsume : Parser.consume sign tokens with
  | error failure => exact Nat.zero_le _
  | ok rest =>
    obtain ⟨index, rfl⟩ := consume_eq_ok hconsume
    exact .take htokens (hnext rest)

/-- So does a name. -/
theorem Affords.name {tokens : List Token} {next : Front String → Counted (Front α)}
    (htokens : 24 * tokens.length + spare ≤ allowance)
    (hnext : ∀ text rest allowance', 24 * rest.length + (spare + 23) ≤ allowance' →
      Affords allowance' spare' (next (text, rest))) :
    Affords allowance spare' (Counted.take (Parser.name tokens) >>= next) := by
  cases hname : Parser.name tokens with
  | error failure => exact Nat.zero_le _
  | ok result =>
    obtain ⟨text, rest⟩ := result
    obtain ⟨index, rfl⟩ := name_eq_ok hname
    exact .take htokens (hnext text rest)

end Counted

open Counted

section Calls

/-- Whether every call takes no more steps than its tokens and its slack pay for. -/
def Affordable (next : (call : Call) → List Token → Counted (Front call.Result)) : Prop :=
  ∀ call tokens, Affords (24 * tokens.length + call.slack) call.spare (next call tokens)

variable {next : (call : Call) → List Token → Counted (Front call.Result)}
  {allowance spare spare' left : Nat}

/-- A call can be made if its slack is left over. -/
theorem Affordable.last (h : Affordable next) (call : Call) {tokens : List Token}
    (htokens : 24 * tokens.length + spare ≤ allowance)
    (hslack : call.slack ≤ spare ∧ spare' + call.slack ≤ call.spare + spare := by
      simp [Call.slack, Call.spare, Level.rank]) :
    Affords allowance spare' (next call tokens) :=
  (h call tokens).mono (by omega) (by omega)

/-- A call can be made if its slack is left over, and the rest of the computation has what the call
leaves over. -/
theorem Affordable.bind (h : Affordable next) (call : Call) (spare' : Nat) {tokens : List Token}
    {more : Front call.Result → Counted (Front α)}
    (htokens : 24 * tokens.length + spare ≤ allowance)
    (hmore : ∀ value rest allowance', 24 * rest.length + spare' ≤ allowance' →
      Affords allowance' left (more (value, rest)))
    (hslack : call.slack ≤ spare ∧ spare' + call.slack ≤ call.spare + spare := by
      simp [Call.slack, Call.spare, Level.rank]) :
    Affords allowance left (next call tokens >>= more) :=
  (h.last call htokens hslack).bind hmore

/-- What a level of binary operators does is paid for. -/
theorem affords_binary (h : Affordable next) {level : Level}
    (hrank : level.next.rank = level.rank + 1) (tokens : List Token) :
    Affords (24 * tokens.length + (Call.slack (.expression level) - 1)) (Call.spare (.expression level))
      (next (.expression level.next) tokens >>= fun front =>
        next (.operands level front.1) front.2) := by
  have hmost : level.rank + 1 ≤ 10 := hrank ▸ (by cases level.next <;> decide)
  refine h.bind (.expression level.next) (Call.spare (.expression level) + 1) (Nat.le_refl _)
    (fun left rest allowance hrest => ?_) ?_
  · exact h.last (.operands level left) hrest (by simp [Call.slack, Call.spare])
  · simp only [Call.slack, Call.spare, hrank]
    omega

/-- What an expression does by itself is paid for. -/
theorem affords_expression (h : Affordable next) (level : Level) (tokens : List Token) :
    Affords (24 * tokens.length + (Call.slack (.expression level) - 1)) (Call.spare (.expression level))
      (proceed options take next (.expression level) tokens) := by
  cases level with
  | filter =>
    refine h.bind (.expression .assignment) 13 (Nat.le_refl _) fun input rest allowance hrest => ?_
    exact h.last (.filters input) hrest
  | assignment =>
    refine h.bind (.expression .conditional) 14 (Nat.le_refl _) fun target rest allowance hrest => ?_
    dsimp only
    split
    · split
      · refine .take hrest fun allowance hrest => ?_
        exact h.bind (.expression .assignment) 13 hrest fun value rest allowance hrest => .pure hrest
      · exact .fail .notAssignable
    · exact .pure (by simp only [Call.spare, Level.rank]; omega)
  | conditional =>
    refine h.bind (.expression .or) 15 (Nat.le_refl _) fun test rest allowance hrest => ?_
    dsimp only
    split
    · refine .take hrest fun allowance hrest => ?_
      refine h.bind (.expression .assignment) 13 hrest fun alternate rest allowance hrest => ?_
      refine .consume hrest fun rest allowance hrest => ?_
      exact h.bind (.expression .assignment) 14 hrest fun consequent rest allowance hrest => .pure hrest
    · exact .pure (by simp only [Call.spare, Level.rank]; omega)
  | unary =>
    simp only [proceed]
    split
    · split
      · refine .take (Nat.le_refl _) fun allowance hrest => ?_
        exact h.bind (.expression .unary) 21 hrest fun argument rest allowance hrest => .pure hrest
      · exact h.last (.expression .chain) (Nat.le_refl _)
    · exact h.last (.expression .chain) (Nat.le_refl _)
  | chain =>
    refine h.bind .primary 23 (Nat.le_refl _) fun node rest allowance hrest => ?_
    exact h.last (.suffixes node) hrest
  | _ => exact affords_binary h rfl tokens

/-- After an item of a list, a comma or the sign that ends the list pays for what is left over. -/
theorem affords_listed {more : List Token → Counted (Front (List α))} (close : Symbol) (item : α)
    {rest : List Token} (hrest : 24 * rest.length + spare ≤ allowance)
    (hleft : left ≤ spare + 23)
    (hmore : ∀ (rest : List Token) (allowance : Nat), 24 * rest.length + (spare + 23) ≤ allowance →
      Affords allowance left (more rest)) :
    Affords allowance left (match rest with
      | ⟨.symbol .comma, _⟩ :: rest => do
        let rest ← take (.ok rest)
        let (items, rest) ← more rest
        return (item :: items, rest)
      | rest => do
        let rest ← take (Parser.consume close rest)
        return ([item], rest)) := by
  split
  · refine .take hrest fun allowance hrest => ?_
    exact (hmore _ _ hrest).bind fun items rest allowance hrest => .pure hrest
  · exact .consume hrest fun rest allowance hrest => .pure (by omega)

/-- After a statement, a semicolon pays for the statements that come after it. -/
theorem affords_continued (h : Affordable next) {first : Counted (Front (List Node))}
    (hfirst : Affords allowance 12 first) :
    Affords allowance 12 (first >>= fun front =>
      match front.2 with
      | ⟨.symbol .semicolon, _⟩ :: rest => do
        let rest ← take (.ok rest)
        let (more, rest) ← next .statements rest
        return (front.1 ++ more, rest)
      | rest => return (front.1, rest)) := by
  refine hfirst.bind fun body rest allowance hrest => ?_
  dsimp only
  split
  · refine .take hrest fun allowance hrest => ?_
    exact h.bind .statements 12 hrest fun more rest allowance hrest => .pure hrest
  · exact .pure hrest

/-- What every call does by itself is paid for if its further calls are, and a step is left for the
call. -/
theorem affords_proceed (h : Affordable next) (call : Call) (tokens : List Token) :
    Affords (24 * tokens.length + (call.slack - 1)) call.spare
      (proceed options take next call tokens) := by
  cases call with
  | expression level => exact affords_expression h level tokens
  | filters input =>
    simp only [proceed]
    split
    · refine .take (Nat.le_refl _) fun allowance hrest => .name hrest fun name rest allowance hrest => ?_
      refine h.bind .filterArguments 44 hrest fun arguments rest allowance hrest => ?_
      exact h.last (.filters _) hrest
    · exact .pure (Nat.le_refl _)
  | filterArguments =>
    simp only [proceed]
    split
    · refine .take (Nat.le_refl _) fun allowance hrest => ?_
      refine h.bind (.expression .assignment) 13 hrest fun argument rest allowance hrest => ?_
      exact h.bind .filterArguments 0 hrest fun arguments rest allowance hrest => .pure hrest
    · exact .pure (Nat.le_refl _)
  | operands level left =>
    simp only [proceed]
    split
    · split
      · split
        · refine .take (Nat.le_refl _) fun allowance hrest => ?_
          refine h.bind (.expression level.next) 1 hrest
            (fun right rest allowance hrest => h.last (.operands _ _) hrest) ?_
          simp only [Call.slack, Call.spare]
          omega
        · exact .pure (Nat.le_refl _)
      · exact .pure (Nat.le_refl _)
    · exact .pure (Nat.le_refl _)
  | primary =>
    simp only [proceed]
    split
    · exact .fail .unexpectedEnd
    · split
      · refine .take (Nat.le_refl _) fun allowance hrest => ?_
        refine h.bind (.expression .filter) 23 hrest fun node rest allowance hrest => ?_
        exact .consume hrest fun rest allowance hrest => .pure (by simp only [Call.spare]; omega)
      · refine .take (Nat.le_refl _) fun allowance hrest => ?_
        exact h.bind .elements 23 hrest fun elements rest allowance hrest => .pure hrest
      · refine .take (Nat.le_refl _) fun allowance hrest => ?_
        exact h.bind .properties 23 hrest fun properties rest allowance hrest => .pure hrest
      · exact .fail (.unfit _ .notPrimary)
      · exact .take (Nat.le_refl _) fun allowance hrest => .pure hrest
      · exact .take (Nat.le_refl _) fun allowance hrest => .pure hrest
  | suffixes node =>
    simp only [proceed]
    split
    · refine .take (Nat.le_refl _) fun allowance hrest => ?_
      refine h.bind .arguments 23 hrest fun arguments rest allowance hrest => ?_
      exact h.last (.suffixes _) hrest
    · refine .take (Nat.le_refl _) fun allowance hrest => ?_
      refine h.bind (.expression .assignment) 25 hrest fun property rest allowance hrest => ?_
      exact .consume hrest fun rest allowance hrest => h.last (.suffixes _) hrest
    · refine .take (Nat.le_refl _) fun allowance hrest => .name hrest fun name rest allowance hrest => ?_
      exact h.last (.suffixes _) hrest
    · exact .pure (Nat.le_refl _)
  | arguments =>
    simp only [proceed]
    split
    · exact .take (Nat.le_refl _) fun allowance hrest =>
        .pure (by simp only [Call.spare, Call.slack] at hrest ⊢; omega)
    · exact h.last .moreArguments (Nat.le_refl _)
  | moreArguments =>
    refine h.bind (.expression .filter) 12 (Nat.le_refl _) fun argument rest allowance hrest => ?_
    exact affords_listed .closeParen argument hrest (by simp [Call.spare])
      fun rest allowance hrest => h.last .moreArguments hrest
  | elements =>
    simp only [proceed]
    split
    · exact .take (Nat.le_refl _) fun allowance hrest =>
        .pure (by simp only [Call.spare, Call.slack] at hrest ⊢; omega)
    · refine h.bind (.expression .assignment) 13 (Nat.le_refl _) fun element rest allowance hrest => ?_
      exact affords_listed .closeBracket element hrest (by simp [Call.spare])
        fun rest allowance hrest => h.last .elements hrest
  | properties =>
    simp only [proceed]
    split
    · exact .take (Nat.le_refl _) fun allowance hrest =>
        .pure (by simp only [Call.spare, Call.slack] at hrest ⊢; omega)
    · refine h.bind .property 23 (Nat.le_refl _) fun property rest allowance hrest => ?_
      exact affords_listed .closeBrace property hrest (by simp [Call.spare])
        fun rest allowance hrest => h.last .properties hrest
  | property =>
    simp only [proceed]
    split
    · exact .fail .unexpectedEnd
    · split
      · refine .take (Nat.le_refl _) fun allowance hrest => ?_
        refine .consume hrest fun rest allowance hrest => ?_
        exact h.bind (.expression .assignment) 23 hrest fun value rest allowance hrest => .pure hrest
      · refine .take (Nat.le_refl _) fun allowance hrest => ?_
        split
        · refine .take hrest fun allowance hrest => ?_
          exact h.bind (.expression .assignment) 23 hrest fun value rest allowance hrest => .pure hrest
        · exact .pure hrest
      · refine .take (Nat.le_refl _) fun allowance hrest => ?_
        refine h.bind (.expression .assignment) 23 hrest fun key rest allowance hrest => ?_
        refine .consume hrest fun rest allowance hrest => .consume hrest fun rest allowance hrest => ?_
        exact h.bind (.expression .assignment) 23 hrest fun value rest allowance hrest => .pure hrest
      · exact .fail (.unfit _ .invalidKey)
  | statements =>
    simp only [proceed]
    split
    · exact .pure (Nat.le_refl _)
    · split
      · exact affords_continued h (.pure (Nat.le_refl _))
      · exact h.bind (.expression .filter) 12 (Nat.le_refl _)
          fun node rest allowance hrest => affords_continued h (.pure hrest)

end Calls

/-- Every call has some slack. -/
theorem Call.slack_pos (call : Call) : 0 < call.slack := by
  cases call with
  | expression level => cases level <;> decide
  | _ => simp [slack]

/-- No call takes more steps than its tokens and its slack pay for, within any budget. -/
theorem affordable_counted (options : Options) (budget : Nat) :
    Affordable (Call.counted options budget) := by
  induction budget with
  | zero => exact fun call tokens => Nat.le_add_left_of_le call.slack_pos
  | succ budget ih =>
    refine fun call tokens => (affords_proceed ih call tokens).called.mono ?_ ?_ <;>
      have hslack := call.slack_pos <;> omega

/-- A call that succeeds takes tokens, unless it is a loop. -/
theorem Call.length_lt_of_run {budget : Nat} {call : Call} {tokens rest : List Token}
    {value : call.Result} (h : run options budget call tokens = .ok (value, rest))
    (hloop : call.isLoop = false) : rest.length < tokens.length := by
  cases budget with
  | zero => cases (run_zero call tokens).symm.trans h
  | succ budget =>
    have hsteps : 1 ≤ (counted options (budget + 1) call tokens).steps := Nat.le_add_left 1 _
    have haffords := affordable_counted options (budget + 1) call tokens
    have hspare : call.slack ≤ call.spare := by
      cases call with
      | expression level => simp only [slack, spare]; omega
      | filters | filterArguments | operands | suffixes | statements => cases hloop
      | _ => simp [slack, spare]
    rw [Affords, outcome_counted, h, reserve] at haffords
    omega

/-- The outcome of every call foretells its outcome within every budget that is not smaller. -/
theorem foretells_run {budget budget' : Nat} (hle : budget ≤ budget') (call : Call)
    (tokens : List Token) :
    Foretells (Call.run options budget' call) tokens (Call.run options budget call tokens) := by
  have hforesees := foresees options hle
  cases call with
  | expression level => exact hforesees.expression level tokens
  | filters input => exact hforesees.filters input tokens
  | filterArguments => exact hforesees.filterArguments tokens
  | operands level left => exact hforesees.operands level left tokens
  | primary => exact hforesees.primary tokens
  | suffixes node => exact hforesees.suffixes node tokens
  | arguments => exact hforesees.arguments tokens
  | moreArguments => exact hforesees.moreArguments tokens
  | elements => exact hforesees.elements tokens
  | properties => exact hforesees.properties tokens
  | property => exact hforesees.property tokens
  | statements => exact foretells_statements options hle tokens

/-- What a call leaves is the end of its tokens. -/
theorem Call.suffix_of_run {budget : Nat} {call : Call} {tokens rest : List Token}
    {value : call.Result} (h : run options budget call tokens = .ok (value, rest)) :
    rest <:+ tokens := by
  have hforetells := @foretells_run options _ _ (Nat.le_refl budget) call tokens
  rw [h] at hforetells
  cases hforetells with
  | read front rest htokens => exact ⟨front, htokens.symm⟩

/-- A call uses up no budget that is large enough for its tokens. -/
theorem Call.lt_of_run_eq_exhausted {budget : Nat} {call : Call} {tokens : List Token}
    (h : run options budget call tokens = .error .exhausted) :
    budget < 16 * tokens.length + call.slack := by
  have hlocates := locates options budget
  cases call with
  | expression level => exact hlocates.expression h
  | filters input => exact hlocates.filters h
  | filterArguments => exact hlocates.filterArguments h
  | operands level left => exact hlocates.operands h
  | primary => exact hlocates.primary h
  | suffixes node => exact hlocates.suffixes h
  | arguments => exact hlocates.arguments h
  | moreArguments => exact hlocates.moreArguments h
  | elements => exact hlocates.elements h
  | properties => exact hlocates.properties h
  | property => exact hlocates.property h
  | statements => exact located_statements h

/-- The parser makes progress and ends, whatever the tokens and the options.

A symbol or a name is one token. Every call that succeeds leaves an end of its tokens, and one with fewer
tokens unless it is a loop. Within any budget the calls and the tokens that are taken in them are linear
in the number of tokens, also in a run that fails. A budget linear in the number of tokens is used up by
no call, and within every larger one the outcome is the same. So a program has an outcome of its own
within its budget. -/
theorem parsing_progresses (options : Options) (tokens : List Token) :
    (∀ sign rest, consume sign tokens = .ok rest → ∃ token, tokens = token :: rest) ∧
    (∀ text rest, name tokens = .ok (text, rest) → ∃ token, tokens = token :: rest) ∧
    (∀ (call : Call) (budget : Nat),
      (∀ value rest, Call.run options budget call tokens = .ok (value, rest) →
        rest <:+ tokens ∧ (call.isLoop = false → rest.length < tokens.length)) ∧
      (Call.counted options budget call tokens).outcome = Call.run options budget call tokens ∧
      (Call.counted options budget call tokens).steps ≤ 24 * tokens.length + call.slack ∧
      (16 * tokens.length + call.slack ≤ budget →
        Call.run options budget call tokens ≠ .error .exhausted ∧
        ∀ budget' ≥ budget,
          Call.run options budget' call tokens = Call.run options budget call tokens)) ∧
    program options tokens ≠ .error .exhausted ∧
    ∀ budget' ≥ budget tokens.length,
      program options tokens = Prod.fst <$> programWithin options budget' tokens := by
  refine ⟨fun sign rest h => ?_, fun text rest h => ?_,
    fun call budget => ⟨fun value rest h => ?_, ?_, ?_, fun hbudget => ?_⟩, ?_, ?_⟩
  · obtain ⟨index, rfl⟩ := consume_eq_ok h
    exact ⟨_, rfl⟩
  · obtain ⟨index, rfl⟩ := name_eq_ok h
    exact ⟨_, rfl⟩
  · exact ⟨Call.suffix_of_run h, Call.length_lt_of_run h⟩
  · exact Call.outcome_counted budget call tokens
  · exact (Nat.le_add_right _ _).trans (affordable_counted options budget call tokens)
  · have hne : Call.run options budget call tokens ≠ .error .exhausted := fun h =>
      Nat.not_lt_of_le hbudget (Call.lt_of_run_eq_exhausted h)
    exact ⟨hne, fun budget' hle => (foretells_run hle call tokens).eq_of_ne_exhausted hne⟩
  · exact fun h => programWithin_ne_exhausted tokens ((program_eq_error (Nat.le_refl _)).mp h)
  · intro budget' hle
    rw [program_eq, programWithin_eq hle]

/-- A name by itself goes down through all levels and up through the loops. -/
example : (Call.counted {} (budget 1) .statements [⟨.identifier "a", 0⟩]).steps = 22 := rfl

end TemplateExpr.Parser
