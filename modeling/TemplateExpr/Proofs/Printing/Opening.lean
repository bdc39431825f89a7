import TemplateExpr.Proofs.Printing.Legibly

/-!
# How printed trees begin

What a tree is printed as begins with a word, a number, a quote, a bracket or an operator that
stands before its operand. An operator before it does not become another one, and its text as a
whole is not taken for a marked source.
-/

namespace TemplateExpr

/-- The characters begin neither with white space nor with a sign that stands between parts or after
them. -/
def Opens (chars : List Char) : Prop :=
  ∃ c more, chars = c :: more ∧ Text.isWhiteSpace c = false ∧ c ∉ ['=', ':']

/-- What opens an expression does so whatever follows. -/
theorem Opens.append {front : List Char} (h : Opens front) (rest : List Char) :
    Opens (front ++ rest) := by
  obtain ⟨c, more, rfl, hc⟩ := h
  exact ⟨c, more ++ rest, rfl, hc⟩

/-- A lexeme that is no sign begins with none. -/
theorem Lexeme.ReadsBefore.opens {word : Lexeme} {rest : List Char} (h : word.ReadsBefore rest)
    (hword : ∀ sign, word ≠ .symbol sign) : Opens word.text.toList := by
  obtain ⟨c, tail, htext, hspace, hread⟩ := h
  refine ⟨c, tail, htext, hspace, fun hc => ?_⟩
  obtain ⟨sign, rest', hsign⟩ : ∃ sign rest',
      Lexer.lexeme {} 0 c (tail ++ rest) = .ok (.symbol sign, rest') := by
    simp only [List.mem_cons, List.not_mem_nil, or_false] at hc
    rcases hc with rfl | rfl
    · have hfound : ∃ found, Symbol.operator? ('=' :: (tail ++ rest)) = some found := by
        unfold Symbol.operator?
        split <;> first | exact ⟨_, rfl⟩ | simp_all
      obtain ⟨⟨sign, rest'⟩, hfound⟩ := hfound
      exact ⟨sign, rest', Lexer.lexeme_of_operator? (by decide) hfound 0⟩
    · exact ⟨.colon, _, rfl⟩
  rw [hread] at hsign
  cases hsign
  exact hword sign rfl

open Piece

namespace Node

/-- A literal begins with no sign that stands between or after parts. -/
theorem opens_literal {value : Literal} (h : value.Written) :
    Opens (chars [.lexeme value.lexeme]) := by
  have hlegible := Legibly.literal h .nil (closed_nil.mayPrecede _)
  cases hlegible with
  | piece hpiece hword =>
    cases hpiece
    refine (hword.opens ?_).append _
    cases value <;> simp [Literal.lexeme]
    split <;> simp

/-- A tree in its place begins as it does elsewhere, or with a parenthesis. -/
theorem opens_fitted (least : Level) {node : Node} (h : Opens (chars node.pieces)) :
    Opens (chars (fitted least node node.pieces)) := by
  unfold fitted
  split
  · exact ⟨'(', _, rfl, rfl, by decide⟩
  · exact h

/-- What a written tree is printed as begins with no sign that stands between or after parts. -/
theorem opens_pieces (node : Node) (h : node.Written) : Opens (chars node.pieces) := by
  cases node with
  | program body => exact h.elim
  | statement expression => exact h.elim
  | literal value => exact opens_literal h
  | identifier name =>
    exact ((Lexeme.readsBefore_identifier h.1 closed_nil.wordEnds).opens nofun).append _
  | this => exact ⟨'t', _, rfl, rfl, by decide⟩
  | locals => exact ⟨'$', _, rfl, rfl, by decide⟩
  | member holder property computed =>
    rw [pieces, chars_append]
    exact (opens_fitted .chain (opens_pieces holder h.1)).append _
  | call callee arguments =>
    rw [pieces, List.append_assoc, chars_append]
    exact (opens_fitted .chain (opens_pieces callee h.1)).append _
  | filter name arguments =>
    cases arguments with
    | nil => exact absurd rfl h.2.1
    | cons input rest =>
      rw [pieces, List.append_assoc, chars_append]
      exact (opens_pieces input h.2.2.1).append _
  | assignment target value =>
    rw [pieces, List.append_assoc, chars_append]
    exact (opens_fitted .chain (opens_pieces target h.2.1)).append _
  | conditional test alternate consequent =>
    simp only [pieces, List.append_assoc, chars_append]
    exact (opens_fitted .or (opens_pieces test h.1)).append _
  | logical operator left right =>
    rw [pieces, List.append_assoc, chars_append]
    exact (opens_fitted operator.level (opens_pieces left h.1)).append _
  | binary operator left right =>
    rw [pieces, List.append_assoc, chars_append]
    exact (opens_fitted operator.level (opens_pieces left h.1)).append _
  | unary operator leading argument => cases operator <;> exact ⟨_, _, rfl, rfl, by decide⟩
  | array elements => exact ⟨'[', _, rfl, rfl, by decide⟩
  | object properties => exact ⟨'\x7b', _, rfl, rfl, by decide⟩

/-- What opens an expression does not go on with the operator before it. -/
theorem endsAt_of_opens (operator : UnaryOperator) {rest : List Char} (h : Opens rest) (c : Char)
    (more : List Char) (hrest : rest = c :: more) : operator.symbol.endsAt c = true := by
  obtain ⟨d, tail, rfl, -, hd⟩ := h
  cases hrest
  simp only [List.mem_cons, List.not_mem_nil, or_false, not_or] at hd
  cases operator <;> simp [UnaryOperator.symbol, Symbol.endsAt, hd]

end Node

end TemplateExpr
