import TemplateExpr.Token.Lexer

/-!
# Characters of words

By default a word is made of letters, digits, underscores and dollar signs. None of these is white
space, a quote, a punctuation mark or the beginning of an operator sign, so a word ends where
another kind of lexeme begins.
-/

namespace TemplateExpr

namespace Text

/-- White space is neither a letter nor a number. -/
theorem isAlphanumeric_of_isWhiteSpace {c : Char} (h : isWhiteSpace c = true) :
    isAlphanumeric c = false := by
  obtain ⟨range, hrange, hlow, hhigh⟩ := Ranges.exists_of_contains h
  -- No range of white space is longer than eleven characters, so all of them can be tried.
  have hshort : ∀ range ∈ whiteSpaceRanges, range.2 < range.1 + 11 := by decide
  have hall : ∀ range ∈ whiteSpaceRanges, ∀ offset < 11, range.1 + offset ≤ range.2 →
      isAlphanumeric (Char.ofNat (range.1 + offset)) = false := by
    decide +kernel
  have hoffset := hall range hrange (c.toNat - range.1)
    (by have := hshort range hrange; omega) (by omega)
  rwa [Nat.add_sub_cancel' hlow, Char.ofNat_toNat] at hoffset

end Text

namespace Options

/-- What begins a word by default also continues one. -/
theorem continuesIdentifier_of_begins {c : Char}
    (h : ({} : Options).beginsIdentifier c = true) :
    ({} : Options).continuesIdentifier c = true := by
  simp only [Text.isAlphanumeric, Bool.or_eq_true] at h ⊢
  rcases h with (h | h) | h <;> simp [h]

/-- A digit continues a word. -/
theorem continuesIdentifier_of_isDigit {c : Char} (h : c.isDigit = true) :
    ({} : Options).continuesIdentifier c = true := by
  have hnumeric : Text.isNumeric c = true := by
    simp only [Char.isDigit, Bool.and_eq_true, decide_eq_true_eq] at h
    exact Text.isNumeric_of_ascii h
  simp [Text.isAlphanumeric, hnumeric]

/-- A digit begins no word. -/
theorem beginsIdentifier_of_isDigit {c : Char} (h : c.isDigit = true) :
    ({} : Options).beginsIdentifier c = false := by
  simp only [Char.isDigit, Bool.and_eq_true, decide_eq_true_eq] at h
  have hcode : 0x30 ≤ c.toNat ∧ c.toNat ≤ 0x39 := h
  have hearly (rest : Text.Ranges) : Text.Ranges.contains ((0x41, 0x5A) :: rest) c = false := by
    have hless : ¬0x41 ≤ c.toNat := by omega
    simp [Text.Ranges.contains, hless]
  have hletter : Text.isAlphabetic c = false := hearly _
  have hunderscore : c ≠ '_' := by
    rintro rfl
    contradiction
  have hdollar : c ≠ '$' := by
    rintro rfl
    contradiction
  simp [hletter, hunderscore, hdollar]

/-- What begins a word is no digit. -/
theorem isDigit_of_begins {c : Char} (h : ({} : Options).beginsIdentifier c = true) :
    c.isDigit = false := by
  by_cases hdigit : c.isDigit = true
  · rw [beginsIdentifier_of_isDigit hdigit] at h
    contradiction
  · simpa using hdigit

/-- What continues a word is no white space. -/
theorem isWhiteSpace_of_continuesIdentifier {c : Char}
    (h : ({} : Options).continuesIdentifier c = true) : Text.isWhiteSpace c = false := by
  cases hspace : Text.isWhiteSpace c with
  | false => rfl
  | true =>
    have hletter := Text.isAlphanumeric_of_isWhiteSpace hspace
    simp only [hletter, Bool.false_or, Bool.or_eq_true, beq_iff_eq] at h
    rcases h with rfl | rfl <;> contradiction

end Options

/-- The characters that mean something outside words and numbers. -/
def signs : List Char :=
  ['"', '\'', '(', ')', '[', ']', '\x7b', '\x7d', ',', ';', ':', '.', '?', '=', '!', '<', '>', '&',
    '|', '+', '-', '*', '/', '%', ' ']

/-- What continues a word is no sign. -/
theorem notMem_signs_of_continuesIdentifier {c : Char}
    (h : ({} : Options).continuesIdentifier c = true) : c ∉ signs := by
  intro hsign
  have hall : signs.all (fun c => !({} : Options).continuesIdentifier c) = true := by
    decide +kernel
  have hnone := List.all_eq_true.mp hall c hsign
  rw [h] at hnone
  contradiction

/-- A punctuation mark is a sign. -/
theorem mem_signs_of_punctuation? {c : Char} {sign : Symbol}
    (h : Symbol.punctuation? c = some sign) : c ∈ signs := by
  unfold Symbol.punctuation? at h
  split at h <;> first | contradiction | decide

/-- An operator begins with a sign. -/
theorem mem_signs_of_operator? {c : Char} {rest : List Char} {found : Symbol × List Char}
    (h : Symbol.operator? (c :: rest) = some found) : c ∈ signs := by
  unfold Symbol.operator? at h
  split at h <;> rename_i heq <;> first | contradiction | (cases heq; decide)

/-- Where a word might go on, no operator is found. -/
theorem operator?_of_continuesIdentifier {c : Char} {rest : List Char}
    (h : ({} : Options).continuesIdentifier c = true) : Symbol.operator? (c :: rest) = none := by
  cases hfound : Symbol.operator? (c :: rest) with
  | none => rfl
  | some found =>
    exact absurd (mem_signs_of_operator? hfound) (notMem_signs_of_continuesIdentifier h)

/-- Where a word might go on and there is no digit, nothing but a word is looked for. -/
theorem Lexer.lexeme_of_continuesIdentifier {c : Char}
    (h : ({} : Options).continuesIdentifier c = true) (hdigit : c.isDigit = false) (index : Nat)
    (rest : List Char) : Lexer.lexeme {} index c rest = Lexer.word {} index c rest := by
  have hsign := notMem_signs_of_continuesIdentifier h
  have hpunctuation : Symbol.punctuation? c = none := by
    cases hfound : Symbol.punctuation? c with
    | none => rfl
    | some sign => exact absurd (mem_signs_of_punctuation? hfound) hsign
  have hquote : c ≠ '"' ∧ c ≠ '\'' ∧ c ≠ '.' := by
    refine ⟨?_, ?_, ?_⟩ <;> rintro rfl <;> exact hsign (by decide)
  simp [Lexer.lexeme, hquote, hdigit, hpunctuation]

end TemplateExpr
