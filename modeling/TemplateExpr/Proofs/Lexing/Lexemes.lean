import TemplateExpr.Proofs.Lexing.Characters

/-!
# Lexemes that are read back

A lexeme reads back before certain characters if the lexer, given the text of the lexeme and
those characters, finds the lexeme and hands the characters on. Which characters may follow is
different for words, numbers and signs; strings and most punctuation marks may stand anywhere.
-/

namespace TemplateExpr

/-- A name that is lexed as a word by default. -/
def IsWord (name : String) : Prop :=
  ∃ c rest, name.toList = c :: rest ∧ ({} : Options).beginsIdentifier c = true ∧
    ∀ d ∈ rest, ({} : Options).continuesIdentifier d = true

/-- The characters of a name decide whether it is a word. -/
theorem isWord_of_all {name : String} {c : Char} {rest : List Char} (hname : name.toList = c :: rest)
    (hall : (({} : Options).beginsIdentifier c && rest.all ({} : Options).continuesIdentifier) =
      true) : IsWord name := by
  rw [Bool.and_eq_true] at hall
  exact ⟨c, rest, hname, hall.1, List.all_eq_true.mp hall.2⟩

/-- A word goes no further than to the characters. -/
def WordEnds (rest : List Char) : Prop :=
  ∀ c more, rest = c :: more → ({} : Options).continuesIdentifier c = false

/-- A text that is put together of characters that hold a property and others that do not begin
with one is taken apart again. -/
theorem takeWhile_append_of_ends {test : Char → Bool} {front rest : List Char}
    (hfront : ∀ c ∈ front, test c = true) (hrest : ∀ c more, rest = c :: more → test c = false) :
    (front ++ rest).takeWhile test = front := by
  rw [List.takeWhile_append_of_pos hfront]
  cases rest with
  | nil => simp
  | cons c more => simp [hrest c more rfl]

/-- What is left of two parts is the second one. -/
theorem dropWhile_append_of_ends {test : Char → Bool} {front rest : List Char}
    (hfront : ∀ c ∈ front, test c = true) (hrest : ∀ c more, rest = c :: more → test c = false) :
    (front ++ rest).dropWhile test = rest := by
  rw [List.dropWhile_append_of_pos hfront]
  cases rest with
  | nil => simp
  | cons c more => simp [hrest c more rfl]

namespace Lexeme

/-- The lexeme is what the lexer takes from the front of its text and the characters. -/
def ReadsBefore (word : Lexeme) (rest : List Char) : Prop :=
  ∃ c tail, word.text.toList = c :: tail ∧ Text.isWhiteSpace c = false ∧
    ∀ index, Lexer.lexeme {} index c (tail ++ rest) = .ok (word, rest)

/-- A word is read back where it ends. -/
theorem readsBefore_identifier {name : String} (hname : IsWord name) {rest : List Char}
    (hends : WordEnds rest) : (identifier name).ReadsBefore rest := by
  obtain ⟨c, tail, htext, hbegins, hcontinues⟩ := hname
  have hcontinue := Options.continuesIdentifier_of_begins hbegins
  have hdigit := Options.isDigit_of_begins hbegins
  refine ⟨c, tail, htext,
    Options.isWhiteSpace_of_continuesIdentifier hcontinue, fun index => ?_⟩
  rw [Lexer.lexeme_of_continuesIdentifier hcontinue hdigit, Lexer.word, if_pos hbegins,
    takeWhile_append_of_ends hcontinues hends, dropWhile_append_of_ends hcontinues hends,
    ← htext, String.ofList_toList]

end Lexeme

/-- Whether the symbol is not taken for a longer lexeme where the character follows. -/
def Symbol.endsAt (sign : Symbol) (c : Char) : Bool :=
  match sign with
  | .dot => !c.isDigit
  | .assign | .less | .greater | .not | .equal | .notEqual => c != '='
  | .pipe => c != '|'
  | _ => true

/-- The signs that operators begin with are looked up among the operators. -/
theorem Lexer.lexeme_of_operator? {c : Char} {rest rest' : List Char} {sign : Symbol}
    (hc : c ∈ ['=', '!', '<', '>', '&', '|', '+', '-', '*', '/', '%'])
    (h : Symbol.operator? (c :: rest) = some (sign, rest')) (index : Nat) :
    Lexer.lexeme {} index c rest = .ok (.symbol sign, rest') := by
  have hword : Lexer.lexeme {} index c rest = Lexer.word {} index c rest ∧
      Options.beginsIdentifier {} c = false := by
    simp only [List.mem_cons, List.not_mem_nil, or_false] at hc
    rcases hc with rfl | rfl | rfl | rfl | rfl | rfl | rfl | rfl | rfl | rfl | rfl <;>
      exact ⟨rfl, by decide⟩
  rw [hword.1, Lexer.word, hword.2, h]
  rfl

/-- The operators that are the beginning of longer ones. -/
def Symbol.extensible : List Symbol := [.equal, .notEqual, .not, .assign, .less, .greater, .pipe]

/-- A longer operator is not found where the character after a shorter one does not belong to it. -/
theorem Symbol.operator?_of_endsAt {sign : Symbol} {d : Char} (hsign : sign ∈ extensible)
    (h : sign.endsAt d = true) (more : List Char) :
    operator? (sign.text.toList ++ d :: more) = some (sign, d :: more) := by
  simp only [extensible, List.mem_cons, List.not_mem_nil, or_false] at hsign
  rcases hsign with rfl | rfl | rfl | rfl | rfl | rfl | rfl <;>
    simp only [endsAt, bne_iff_ne] at h <;> simp [operator?, text, h]

namespace Lexeme

/-- A symbol is read back where it is not taken for a longer lexeme. -/
theorem readsBefore_symbol {sign : Symbol} {rest : List Char}
    (h : ∀ c more, rest = c :: more → sign.endsAt c = true) : (symbol sign).ReadsBefore rest := by
  rcases rest with _ | ⟨d, more⟩
  · cases sign <;> exact ⟨_, _, rfl, rfl, fun _ => rfl⟩
  have hd := h d more rfl
  by_cases hsign : sign ∈ Symbol.extensible
  · have hfound := Symbol.operator?_of_endsAt hsign hd more
    obtain ⟨c, tail, htext, hc, hspace⟩ : ∃ c tail, sign.text.toList = c :: tail ∧
        c ∈ ['=', '!', '<', '>', '&', '|', '+', '-', '*', '/', '%'] ∧
        Text.isWhiteSpace c = false := by
      simp only [Symbol.extensible, List.mem_cons, List.not_mem_nil, or_false] at hsign
      rcases hsign with rfl | rfl | rfl | rfl | rfl | rfl | rfl <;>
        exact ⟨_, _, rfl, by decide, rfl⟩
    refine ⟨c, tail, htext, hspace, ?_⟩
    rw [htext] at hfound
    exact Lexer.lexeme_of_operator? hc hfound
  · cases sign with
    | dot =>
      refine ⟨'.', [], rfl, rfl, fun index => ?_⟩
      have hdigit : d.isDigit = false := by simpa [Symbol.endsAt] using hd
      simp [Lexer.lexeme, Symbol.punctuation?, hdigit]
    | equal | notEqual | not | assign | less | greater | pipe => exact absurd (by decide) hsign
    | _ => exact ⟨_, _, rfl, rfl, fun _ => rfl⟩

end Lexeme

end TemplateExpr
