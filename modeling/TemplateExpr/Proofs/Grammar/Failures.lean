import Mathlib.Algebra.Order.BigOperators.Group.List
import Mathlib.Algebra.Order.Group.Nat
import Mathlib.Data.List.Nodup
import TemplateExpr.Node.Source
import TemplateExpr.Proofs.Grammar.Viability
import TemplateExpr.Proofs.Lexing.Coverage

/-!
# Where parsing fails

A program that is cut short can be completed, and a token that does not fit is the first after
which nothing can be completed any more. The place that an error names is the place of this token
in the tokens and in the source that they were taken from.
-/

namespace TemplateExpr

namespace Parser

variable {options : Options}

/-- The end of a program, which has to be the end of its tokens. -/
def ended (body : List Node) : List Token → Reading (Front Node)
  | [] => .ok (.program body, [])
  | token :: _ => .error (.unfit token .unexpected)

/-- Read a program within a nesting budget. -/
def programWithin (options : Options) (budget : Nat) (tokens : List Token) :
    Reading (Front Node) := do
  let (body, rest) ← statements options budget tokens
  ended body rest

/-- A program is read within the budget of its tokens. -/
theorem program_eq (tokens : List Token) :
    program options tokens = Prod.fst <$> programWithin options (budget tokens.length) tokens := by
  unfold program programWithin
  rcases statements options (budget tokens.length) tokens with
    failure | ⟨body, _ | ⟨token, rest⟩⟩ <;> rfl

/-- A program and a smaller budget for it foretell what is read within a larger one. -/
theorem foretells_program (options : Options) {budget budget' : Nat} (h : budget ≤ budget')
    (tokens : List Token) :
    Foretells (programWithin options budget') tokens (programWithin options budget tokens) := by
  refine (foretells_statements options h tokens).bind _ _ fun body rest => ?_
  cases rest with
  | nil => exact .stop_nil rfl
  | cons token rest => exact .refuse rfl fun _ => rfl

/-- A program fails where its tokens can no longer be continued, and never by its budget. -/
theorem located_program {tokens : List Token} {failure : ParseFailure}
    (h : programWithin options (budget tokens.length) tokens = .error failure) :
    Located (Phrase options .statements) (budget tokens.length) 13 tokens failure := by
  rcases bind_eq_error.mp h with hfirst | ⟨⟨body, rest⟩, hread, hmore⟩
  · exact located_statements hfirst
  · obtain ⟨front, hfront, hbody⟩ := statements_sound hread
    cases rest with
    | nil => simp [ended] at hmore
    | cons token rest =>
      obtain rfl := Except.error.inj hmore
      exact ⟨front, rest, [], hfront, by simpa using hbody.phrase⟩

/-- The budget of a program is never used up. -/
theorem programWithin_ne_exhausted (tokens : List Token) :
    programWithin options (budget tokens.length) tokens ≠ .error .exhausted := by
  intro h
  have hbudget : budget tokens.length < 16 * tokens.length + 13 := located_program h
  simp only [budget] at hbudget
  omega

/-- More budget than that of its tokens makes no difference to a program. -/
theorem programWithin_eq {tokens : List Token} {budget' : Nat}
    (h : budget tokens.length ≤ budget') :
    programWithin options budget' tokens = programWithin options (budget tokens.length) tokens :=
  (foretells_program options h tokens).eq_of_ne_exhausted (programWithin_ne_exhausted tokens)

/-- A program fails as it does within any larger budget. -/
theorem program_eq_error {tokens : List Token} {failure : ParseFailure} {budget' : Nat}
    (hle : budget tokens.length ≤ budget') :
    program options tokens = .error failure ↔
      programWithin options budget' tokens = .error failure := by
  rw [program_eq, programWithin_eq hle]
  rcases programWithin options (budget tokens.length) tokens with found | result
  · exact ⟨fun h => congrArg _ (Except.error.inj h), fun h => congrArg _ (Except.error.inj h)⟩
  · exact ⟨nofun, nofun⟩

/-- What a failure says of the tokens of a program. -/
theorem located_of_program {tokens : List Token} {failure : ParseFailure}
    (h : program options tokens = .error failure) :
    Located (Phrase options .statements) (budget tokens.length) 13 tokens failure :=
  located_program ((program_eq_error (Nat.le_refl _)).mp h)

/-- A failure at a token comes again however the tokens go on after it, within every budget that is
large enough. -/
theorem programWithin_stands {tokens : List Token} {failure : ParseFailure} {budget' : Nat}
    (h : program options tokens = .error failure) (hend : failure ≠ .unexpectedEnd)
    (hle : budget tokens.length ≤ budget') :
    ∃ front token rest, tokens = front ++ token :: rest ∧ failure.StandsAt token ∧
      ∀ more, programWithin options budget' (front ++ token :: more) = .error failure := by
  have hforetells := foretells_program options hle tokens
  have hne : programWithin options (budget tokens.length) tokens ≠ .error .exhausted :=
    programWithin_ne_exhausted tokens
  rw [(program_eq_error (Nat.le_refl _)).mp h] at hforetells hne
  cases hforetells with
  | failed front token rest htokens hstands h => exact ⟨front, token, rest, htokens, hstands, h⟩
  | ended => exact absurd rfl hend
  | exhausted => exact absurd rfl hne

/-- A token that does not fit fails every program that begins as this one does. -/
theorem program_unfit {front rest : List Token} {token : Token} {fault : SyntaxFault}
    (hnodup : (front ++ token :: rest).Nodup)
    (h : program options (front ++ token :: rest) = .error (.unfit token fault))
    (more : List Token) :
    program options (front ++ token :: more) = .error (.unfit token fault) := by
  obtain ⟨front', culprit, rest', htokens, hstands, hmore⟩ :=
    programWithin_stands h (by simp) (Nat.le_max_left _ (budget (front ++ token :: more).length))
  obtain rfl : token = culprit := hstands
  -- The token is there once only, so the failure stands at it and not at another one like it.
  obtain ⟨hfront, hrest⟩ : token ∉ front ∧ token ∉ rest := by
    simp only [List.nodup_append, List.nodup_cons] at hnodup
    exact ⟨fun hin => hnodup.2.2 token hin token (by simp) rfl, hnodup.2.1.1⟩
  obtain ⟨rfl, -, rfl⟩ := (List.append_cons_inj_of_notMem hfront hrest).mp htokens
  exact (program_eq_error (Nat.le_max_right _ _)).mpr (hmore more)

/-- A wrong target fails every program that begins as this one does. -/
theorem program_notAssignable {tokens : List Token}
    (h : program options tokens = .error .notAssignable) (more : List Token) :
    program options (tokens ++ more) = .error .notAssignable := by
  obtain ⟨front, token, rest, rfl, -, hmore⟩ :=
    programWithin_stands h (by simp) (Nat.le_max_left _ (budget (tokens ++ more).length))
  have hwithin := hmore (rest ++ more)
  rw [← List.cons_append, ← List.append_assoc] at hwithin
  exact (program_eq_error (Nat.le_max_right _ _)).mpr hwithin

/-- The lexemes one after the other, from a place on. -/
def placed (start : Nat) : List Lexeme → List Token
  | [] => []
  | word :: words => ⟨word, start⟩ :: placed (start + 1) words

/-- The lexemes at their places are the lexemes. -/
theorem map_lexeme_placed (start : Nat) (words : List Lexeme) :
    (placed start words).map Token.lexeme = words := by
  induction words generalizing start with
  | nil => rfl
  | cons word words ih => simp [placed, ih]

/-- The lexemes at their places stand in order, from the first place on. -/
theorem placed_ordered (start : Nat) (words : List Lexeme) :
    (placed start words).Pairwise (fun a b => a.index < b.index) ∧
      ∀ token ∈ placed start words, start ≤ token.index := by
  induction words generalizing start with
  | nil => exact ⟨.nil, by simp [placed]⟩
  | cons word words ih =>
    obtain ⟨hordered, hstart⟩ := ih (start + 1)
    refine ⟨List.pairwise_cons.mpr ⟨hstart, hordered⟩, ?_⟩
    refine List.forall_mem_cons.mpr ⟨Nat.le_refl _, fun token htoken => ?_⟩
    exact Nat.le_of_succ_le (hstart token htoken)

/-- The tokens in order are the beginning of others in order that are a program. -/
def Completable (options : Options) (tokens : List Token) : Prop :=
  ∃ more tree, (tokens ++ more).Pairwise (fun a b => a.index < b.index) ∧
    program options (tokens ++ more) = .ok tree

/-- Tokens whose lexemes can be continued to statements can be continued to a program. -/
theorem completable_of_phrase {tokens : List Token} {words : List Lexeme}
    (hordered : tokens.Pairwise fun a b => a.index < b.index)
    (h : Phrase options .statements (tokens.map Token.lexeme ++ words)) :
    Completable options tokens := by
  obtain ⟨body, hbody⟩ := h
  have hlast : ∀ token ∈ tokens, token.index ≤ (tokens.map Token.index).sum := fun token htoken =>
    List.le_sum_of_mem (List.mem_map_of_mem htoken)
  -- The sum of all places is not before any of them, so more tokens can be placed after it.
  obtain ⟨hplaced, hstart⟩ := placed_ordered ((tokens.map Token.index).sum + 1) words
  refine ⟨placed ((tokens.map Token.index).sum + 1) words, .program body, ?_, ?_⟩
  · refine List.pairwise_append.mpr ⟨hordered, hplaced, fun a ha b hb => ?_⟩
    exact Nat.lt_of_le_of_lt (hlast a ha) (hstart b hb)
  · refine program_of_derives (.program ?_)
    rw [List.map_append, map_lexeme_placed]
    exact hbody

end Parser

/-- A source that has tokens is scanned without an error. -/
theorem scan_of_tokensOf {options : Options} {source : String} {tokens : List Token}
    (h : tokensOf options source = .ok tokens) : scan options source = (tokens, none) := by
  simp only [tokensOf, mapError_eq_ok, tokenize] at h
  rcases hscan : scan options source with ⟨found, _ | error⟩ <;> simp_all

/-- From the place of a token on, a source is the text of the token and what comes after it. -/
theorem remaining_of_mem {options : Options} {source : String} {tokens : List Token} {token : Token}
    (h : tokensOf options source = .ok tokens) (htoken : token ∈ tokens) :
    ∃ before after, before.length = token.index ∧
      source.toList = before ++ (token.text.toList ++ after) ∧
      (Error.remaining source token.index).toList = token.text.toList ++ after := by
  obtain ⟨stop, -, hcovers, hstops⟩ := Lexer.covers_tokensFrom options (source.length + 1) []
    source.toList (by rw [String.length_toList]; exact Nat.lt_add_one _)
  have hscan : Lexer.tokensFrom options (source.length + 1) 0 source.toList = (tokens, none) :=
    scan_of_tokensOf h
  simp only [List.length_nil, List.nil_append, hscan] at hcovers hstops
  obtain ⟨-, -, hinside⟩ := hcovers.inside token htoken
  have hspelled := hcovers.spelled token htoken
  have hdrop : source.toList.drop token.index =
      token.text.toList ++ (source.toList.drop token.index).drop token.text.length := by
    conv_lhs => rw [← List.take_append_drop token.text.length (source.toList.drop token.index)]
    rw [hspelled]
  refine ⟨source.toList.take token.index,
    (source.toList.drop token.index).drop token.text.length, ?_, ?_, ?_⟩
  · have hstop : stop = source.toList.length := hstops
    rw [List.length_take]
    omega
  · rw [← hdrop, List.take_append_drop]
  · rw [← hdrop]
    exact String.toList_ofList

/-- Failures are prompt, and the token that an error names is where it stands. Tokens that end too
early can be completed to a program. A token that does not fit is the only one at its place; every
program with the tokens up to it fails with it, and the tokens before it can be completed. Tokens
with a wrong target fail however they go on. The budget is never the cause. -/
theorem program_fails_at (options : Options) (tokens : List Token)
    (hordered : tokens.Pairwise fun a b => a.index < b.index) :
    (Parser.program options tokens = .error .unexpectedEnd → Parser.Completable options tokens) ∧
    (∀ token fault, Parser.program options tokens = .error (.unfit token fault) →
      (∃ front rest, tokens = front ++ token :: rest ∧
        (∀ other ∈ tokens, other.index = token.index → other = token) ∧
        (∀ more, Parser.program options (front ++ token :: more) = .error (.unfit token fault)) ∧
        Parser.Completable options front) ∧
      ∀ source, tokensOf options source = .ok tokens →
        Node.ofSource options source = .error (.unfit token fault source) ∧
        ∃ before after, before.length = token.index ∧
          source.toList = before ++ (token.text.toList ++ after) ∧
          (Error.remaining source token.index).toList = token.text.toList ++ after) ∧
    (Parser.program options tokens = .error .notAssignable →
      ∀ more, Parser.program options (tokens ++ more) = .error .notAssignable) ∧
    Parser.program options tokens ≠ .error .exhausted := by
  refine ⟨fun h => ?_, fun token fault h => ?_, Parser.program_notAssignable, fun h => ?_⟩
  · obtain ⟨more, hmore⟩ := Parser.located_of_program h
    exact Parser.completable_of_phrase hordered hmore
  · obtain ⟨front, rest, more, rfl, hmore⟩ := Parser.located_of_program h
    have hmem : token ∈ front ++ token :: rest := by simp
    refine ⟨⟨front, rest, rfl, fun other hother hindex => ?_, ?_, ?_⟩, fun source htokens => ?_⟩
    · have hplaces : ((front ++ token :: rest).map Token.index).Nodup :=
        List.pairwise_map.mpr (hordered.imp Nat.ne_of_lt)
      exact List.inj_on_of_nodup_map hplaces hother hmem hindex
    · refine Parser.program_unfit (hordered.imp ?_) h
      rintro a b hlt rfl
      exact Nat.lt_irrefl _ hlt
    · exact Parser.completable_of_phrase (List.pairwise_append.mp hordered).1 hmore
    · refine ⟨?_, remaining_of_mem htokens hmem⟩
      simp only [Node.ofSource, htokens, bind, Except.bind, h]
      rfl
  · exact Parser.programWithin_ne_exhausted tokens ((Parser.program_eq_error (Nat.le_refl _)).mp h)

/-- A sum without its second operand can be completed, a closing parenthesis after a name fits
nowhere, and a number is no target. -/
theorem program_fails_at_each :
    Parser.Completable {} [⟨.identifier "a", 0⟩, ⟨.symbol .plus, 2⟩] ∧
    (Node.ofSource {} "a )" = .error (.unfit ⟨.symbol .closeParen, 2⟩ .unexpected "a )") ∧
      ∃ front rest, [⟨.identifier "a", 0⟩, ⟨.symbol .closeParen, 2⟩] =
          front ++ (⟨.symbol .closeParen, 2⟩ : Token) :: rest ∧
        ∀ more, Parser.program {} (front ++ ⟨.symbol .closeParen, 2⟩ :: more) =
          .error (.unfit ⟨.symbol .closeParen, 2⟩ .unexpected)) ∧
    ∀ more, Parser.program {} ([⟨.constant "1" (.integer 1), 0⟩, ⟨.symbol .assign, 2⟩] ++ more) =
      .error .notAssignable := by
  refine ⟨?_, ?_, ?_⟩
  · exact (program_fails_at {} [⟨.identifier "a", 0⟩, ⟨.symbol .plus, 2⟩] (by simp)).1 rfl
  · obtain ⟨⟨front, rest, htokens, -, hmore, -⟩, hsource⟩ :=
      (program_fails_at {} [⟨.identifier "a", 0⟩, ⟨.symbol .closeParen, 2⟩] (by simp)).2.1
        ⟨.symbol .closeParen, 2⟩ .unexpected rfl
    exact ⟨(hsource "a )" rfl).1, front, rest, htokens, hmore⟩
  · exact (program_fails_at {} [⟨.constant "1" (.integer 1), 0⟩, ⟨.symbol .assign, 2⟩]
      (by simp)).2.2.1 rfl

end TemplateExpr
