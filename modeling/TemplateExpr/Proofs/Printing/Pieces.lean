import TemplateExpr.Node.Printer
import TemplateExpr.Proofs.Lexing.Numbers

/-!
# Reading pieces back

The pieces of a printed source are read back one by one if each lexeme reads back before the text
of the pieces after it. There is one place where that can fail: a point between an integer and a
word may be taken for a part of a number. The text then has fewer points than were printed, however
the rest of it is read.
-/

namespace TemplateExpr

namespace Lexer

/-- A space before a token is skipped. -/
theorem tokensFrom_space (budget index : Nat) (rest : List Char) :
    tokensFrom {} budget index (' ' :: rest) = tokensFrom {} budget (index + 1) rest := by
  cases budget with
  | zero => rfl
  | succ budget =>
    have hspace : Text.isWhiteSpace ' ' = true := by decide
    simp only [tokensFrom, List.takeWhile_cons, List.dropWhile_cons, hspace, if_true,
      List.length_cons, Nat.add_right_comm, Nat.add_assoc]

/-- A lexeme that is found where no white space stands becomes the first token. -/
theorem tokensFrom_of_lexeme {budget index : Nat} {c : Char} {more rest : List Char}
    {word : Lexeme} (hspace : Text.isWhiteSpace c = false)
    (hword : lexeme {} index c more = .ok (word, rest)) :
    tokensFrom {} (budget + 1) index (c :: more) =
      (let (tokens, error) := tokensFrom {} budget (index + word.text.length) rest
      (⟨word, index⟩ :: tokens, error)) := by
  simp only [tokensFrom, List.takeWhile_cons, List.dropWhile_cons, hspace, Bool.false_eq_true,
    if_false, List.length_nil, Nat.add_zero, hword]

/-- Where the first lexeme is known, the other tokens are those of the rest. -/
theorem exists_of_tokensFrom {budget index : Nat} {c : Char} {more rest : List Char}
    {word : Lexeme} {tokens : List Token} (hspace : Text.isWhiteSpace c = false)
    (hword : lexeme {} index c more = .ok (word, rest))
    (h : tokensFrom {} (budget + 1) index (c :: more) = (tokens, none)) :
    ∃ others, tokensFrom {} budget (index + word.text.length) rest = (others, none) ∧
      tokens = ⟨word, index⟩ :: others := by
  rw [tokensFrom_of_lexeme hspace hword] at h
  rcases hrest : tokensFrom {} budget (index + word.text.length) rest with ⟨others, error⟩
  rw [hrest] at h
  cases h
  exact ⟨others, rfl, rfl⟩

/-- A lexeme that cannot be read ends the tokens. -/
theorem tokensFrom_of_error {budget index : Nat} {c : Char} {more : List Char}
    {error : LexicalError} (hspace : Text.isWhiteSpace c = false)
    (hword : lexeme {} index c more = .error error) :
    tokensFrom {} (budget + 1) index (c :: more) = ([], some error) := by
  simp only [tokensFrom, List.takeWhile_cons, List.dropWhile_cons, hspace, Bool.false_eq_true,
    if_false, List.length_nil, Nat.add_zero, hword]

end Lexer

/-- How many points are among the lexemes. -/
def dots (ls : List Lexeme) : Nat := ls.count (.symbol .dot)

@[simp] theorem dots_nil : dots [] = 0 := rfl

@[simp] theorem dots_cons (word : Lexeme) (rest : List Lexeme) :
    dots (word :: rest) = dots rest + if word = .symbol .dot then 1 else 0 := by
  simp [dots, List.count_cons]

@[simp] theorem dots_append (front rest : List Lexeme) :
    dots (front ++ rest) = dots front + dots rest := by
  simp [dots]

namespace Piece

/-- The characters of pieces. -/
def chars (pieces : List Piece) : List Char := pieces.flatMap fun piece => piece.text.toList

@[simp] theorem chars_nil : chars [] = [] := rfl

@[simp] theorem chars_cons (piece : Piece) (rest : List Piece) :
    chars (piece :: rest) = piece.text.toList ++ chars rest := by
  simp [chars]

@[simp] theorem chars_append (front rest : List Piece) :
    chars (front ++ rest) = chars front ++ chars rest := by
  simp [chars]

/-- The text of pieces has their characters. -/
theorem toList_join_text (pieces : List Piece) :
    (String.join (pieces.map text)).toList = chars pieces := by
  simp [String.toList_join, chars, List.flatMap_def, Function.comp_def]

/-- The lexemes that pieces are read back as. -/
def lexemes (pieces : List Piece) : List Lexeme := pieces.filterMap lexeme?

@[simp] theorem lexemes_nil : lexemes [] = [] := rfl

@[simp] theorem lexemes_lexeme (word : Lexeme) (rest : List Piece) :
    lexemes (.lexeme word :: rest) = word :: lexemes rest := rfl

@[simp] theorem lexemes_space (rest : List Piece) : lexemes (.space :: rest) = lexemes rest := rfl

@[simp] theorem lexemes_groupStart (rest : List Piece) :
    lexemes (.groupStart :: rest) = .symbol .openParen :: lexemes rest := rfl

@[simp] theorem lexemes_groupEnd (rest : List Piece) :
    lexemes (.groupEnd :: rest) = .symbol .closeParen :: lexemes rest := rfl

@[simp] theorem lexemes_append (front rest : List Piece) :
    lexemes (front ++ rest) = lexemes front ++ lexemes rest := by
  simp [lexemes]

/-- A piece has the text of its lexeme. -/
theorem text_of_lexeme? {piece : Piece} {word : Lexeme} (h : piece.lexeme? = some word) :
    piece.text = word.text := by
  cases piece <;> cases h <;> rfl

/-- The pieces are read back, but for the given number of points that are taken for parts of
numbers. -/
inductive Legible : Nat → List Piece → Prop
  | nil : Legible 0 []
  | space {lost : Nat} {rest : List Piece} (h : Legible lost rest) : Legible lost (.space :: rest)
  | piece {lost : Nat} {piece : Piece} {word : Lexeme} {rest : List Piece}
      (hpiece : piece.lexeme? = some word) (hword : word.ReadsBefore (chars rest))
      (h : Legible lost rest) : Legible lost (piece :: rest)
  | exponent {lost : Nat} {value : Int64} {name : String} {rest : List Piece}
      (hvalue : 0 ≤ value.toInt) (hname : IsWord name) (hexponent : beginsExponent name = true)
      (hends : WordEnds (chars rest)) (h : Legible lost rest) :
      Legible (lost + 1) (.lexeme (.constant (toString value.toInt) (.integer value)) ::
        .symbol .dot :: .lexeme (.identifier name) :: rest)

/-- Pieces of which nothing is lost are read back. -/
theorem Legible.tokensFrom {pieces : List Piece} (h : Legible 0 pieces) {budget : Nat}
    (hbudget : (chars pieces).length < budget) (index : Nat) :
    ∃ tokens, Lexer.tokensFrom {} budget index (chars pieces) = (tokens, none) ∧
      tokens.map Token.lexeme = lexemes pieces := by
  generalize hlost : 0 = lost at h
  induction h generalizing budget index with
  | nil =>
    obtain ⟨budget, rfl⟩ := Nat.exists_eq_add_one_of_ne_zero (Nat.ne_of_gt hbudget)
    exact ⟨[], rfl, rfl⟩
  | @space lost rest h ih =>
    have hless : (chars rest).length < budget := by
      simp [Piece.text] at hbudget
      omega
    obtain ⟨tokens, htokens, hlexemes⟩ := ih hless (index + 1) hlost
    refine ⟨tokens, ?_, hlexemes⟩
    rw [← htokens, ← Lexer.tokensFrom_space]
    rfl
  | @piece lost piece word rest hpiece hword h ih =>
    obtain ⟨c, tail, htext, hspace, hread⟩ := hword
    have hchars : chars (piece :: rest) = c :: (tail ++ chars rest) := by
      rw [chars_cons, text_of_lexeme? hpiece, htext, List.cons_append]
    rw [hchars] at hbudget ⊢
    obtain ⟨budget, rfl⟩ := Nat.exists_eq_add_one_of_ne_zero (by omega : budget ≠ 0)
    have hless : (chars rest).length < budget := by
      simp at hbudget
      omega
    obtain ⟨tokens, htokens, hlexemes⟩ := ih hless (index + word.text.length) hlost
    refine ⟨⟨word, index⟩ :: tokens, ?_, ?_⟩
    · rw [Lexer.tokensFrom_of_lexeme hspace (hread index), htokens]
    · simp [lexemes, hpiece, hlexemes]
  | exponent => omega

/-- What is left of a word is another word, or cannot be read. -/
theorem exists_of_tokensFrom_word {budget index : Nat} {left rest : List Char}
    {tokens : List Token} (hcontinues : ∀ c ∈ left, ({} : Options).continuesIdentifier c = true)
    (hdigit : ∀ c more, left = c :: more → c.isDigit = false) (hends : WordEnds rest)
    (hbudget : (left ++ rest).length < budget)
    (h : Lexer.tokensFrom {} budget index (left ++ rest) = (tokens, none)) :
    ∃ budget index others, rest.length < budget ∧
      Lexer.tokensFrom {} budget index rest = (others, none) ∧
      dots (tokens.map Token.lexeme) = dots (others.map Token.lexeme) := by
  cases left with
  | nil => exact ⟨budget, index, tokens, hbudget, h, rfl⟩
  | cons c tail =>
    obtain ⟨budget, rfl⟩ := Nat.exists_eq_add_one_of_ne_zero (by omega : budget ≠ 0)
    have hcontinue := hcontinues c List.mem_cons_self
    have hspace := Options.isWhiteSpace_of_continuesIdentifier hcontinue
    have hlexeme := Lexer.lexeme_of_continuesIdentifier hcontinue (hdigit c tail rfl) index
      (tail ++ rest)
    by_cases hbegins : ({} : Options).beginsIdentifier c = true
    · have htail : ∀ d ∈ tail, ({} : Options).continuesIdentifier d = true := fun d hd =>
        hcontinues d (List.mem_cons_of_mem c hd)
      rw [Lexer.word, if_pos hbegins, dropWhile_append_of_ends htail hends] at hlexeme
      obtain ⟨others, hothers, rfl⟩ := Lexer.exists_of_tokensFrom hspace hlexeme h
      exact ⟨budget, _, others, by simp at hbudget; omega, hothers, by simp⟩
    · rw [Lexer.word, if_neg hbegins, operator?_of_continuesIdentifier hcontinue] at hlexeme
      rw [List.cons_append, Lexer.tokensFrom_of_error hspace hlexeme] at h
      simp at h

/-- A point that is taken for a part of a number is no longer there. -/
theorem Legible.dots_add_lost_le {lost : Nat} {pieces : List Piece} (h : Legible lost pieces)
    {budget index : Nat} {tokens : List Token} (hbudget : (chars pieces).length < budget)
    (htokens : Lexer.tokensFrom {} budget index (chars pieces) = (tokens, none)) :
    dots (tokens.map Token.lexeme) + lost ≤ dots (lexemes pieces) := by
  induction h generalizing budget index tokens with
  | nil =>
    obtain ⟨budget, rfl⟩ := Nat.exists_eq_add_one_of_ne_zero (Nat.ne_of_gt hbudget)
    cases htokens
    simp
  | @space lost rest h ih =>
    have hless : (chars rest).length < budget := by
      simp [Piece.text] at hbudget
      omega
    exact ih hless ((Lexer.tokensFrom_space budget index (chars rest)).symm.trans htokens)
  | @piece lost piece word rest hpiece hword h ih =>
    obtain ⟨c, tail, htext, hspace, hread⟩ := hword
    rw [chars_cons, text_of_lexeme? hpiece, htext, List.cons_append] at hbudget htokens
    obtain ⟨budget, rfl⟩ := Nat.exists_eq_add_one_of_ne_zero (by omega : budget ≠ 0)
    obtain ⟨others, hothers, rfl⟩ := Lexer.exists_of_tokensFrom hspace (hread index) htokens
    have hrest := ih (by simp at hbudget; omega) hothers
    simp only [lexemes, List.filterMap_cons, hpiece, List.map_cons, dots_cons] at hrest ⊢
    omega
  | @exponent lost value name rest hvalue hname hexponent hends h ih =>
    obtain ⟨c, more, left, spelling, number, htext, hspace, hread, hcontinues, hdigit, hshorter⟩ :=
      Lexer.lexeme_integer_exponent hvalue hname hexponent hends
    have hchars : chars (.lexeme (.constant (toString value.toInt) (.integer value)) ::
        .symbol .dot :: .lexeme (.identifier name) :: rest) = c :: more := by
      rw [← htext]
      simp [Piece.text, Lexeme.text, Symbol.text]
    rw [hchars] at hbudget htokens
    obtain ⟨budget, rfl⟩ := Nat.exists_eq_add_one_of_ne_zero (by omega : budget ≠ 0)
    obtain ⟨others, hothers, rfl⟩ := Lexer.exists_of_tokensFrom hspace (hread index) htokens
    obtain ⟨budget', index', others', hbudget', hothers', hdots⟩ :=
      exists_of_tokensFrom_word hcontinues hdigit hends (by simp at hbudget; omega) hothers
    have hrest := ih hbudget' hothers'
    simp at hrest hdots ⊢
    omega

end Piece

end TemplateExpr
