import TemplateExpr.Proofs.Lexing.Coverage

/-!
# The seam at a semicolon

No lexeme looks past a semicolon. What is read from the front of some characters is read as well
where a semicolon and more characters follow them, though a number, a word and an operator sign look
at the character after them and an end is not the same to them as another character. So the lexemes
of two sources with a semicolon between them are those of the first source, a semicolon and those of
the second one.
-/

namespace TemplateExpr

/-- Whether the characters are at an end or at a semicolon. -/
def Halts (after : List Char) : Prop := ∀ c more, after = c :: more → c = ';'

/-- The end is an end. -/
theorem halts_nil : Halts [] := nofun

/-- A semicolon is one. -/
theorem halts_semicolon (more : List Char) : Halts (';' :: more) := by
  rintro c _ ⟨⟩
  rfl

namespace Halts

variable {after : List Char}

/-- There are two cases. -/
theorem cases (h : Halts after) : after = [] ∨ ∃ more, after = ';' :: more := by
  cases after with
  | nil => exact .inl rfl
  | cons c more =>
    obtain rfl := h c more rfl
    exact .inr ⟨more, rfl⟩

/-- The characters that are taken from the front are not more where it ends. -/
theorem takeWhile (h : Halts after) {test : Char → Bool} (htest : test ';' = false)
    (front : List Char) : (front ++ after).takeWhile test = front.takeWhile test := by
  induction front with
  | nil => rcases h.cases with rfl | ⟨more, rfl⟩ <;> simp [htest]
  | cons c front ih => cases hc : test c <;> simp [hc, ih]

/-- The characters that are left of the front are left where it ends. -/
theorem dropWhile (h : Halts after) {test : Char → Bool} (htest : test ';' = false)
    (front : List Char) : (front ++ after).dropWhile test = front.dropWhile test ++ after := by
  induction front with
  | nil => rcases h.cases with rfl | ⟨more, rfl⟩ <;> simp [htest]
  | cons c front ih => cases hc : test c <;> simp [hc, ih]

/-- There is no digit where digits end. -/
theorem any_isDigit (h : Halts after) (front : List Char) :
    (front ++ after).head?.any Char.isDigit = front.head?.any Char.isDigit := by
  cases front with
  | nil => rcases h.cases with rfl | ⟨more, rfl⟩ <;> rfl
  | cons c front => rfl

end Halts

namespace Lexer

/-- A character that begins no escape is no backslash. -/
theorem ne_backslash {c : Char} {rest : List Char}
    (hescape : ∀ d more, c = '\\' → rest = d :: more → False)
    (hlast : c = '\\' → rest = [] → False) : c ≠ '\\' := by
  intro h
  cases rest with
  | nil => exact hlast h rfl
  | cons d more => exact hescape d more h rfl

/-- An escape other than by number is two characters. -/
theorem quoted_escape (quote : Char) (start index : Nat) {c : Char} (h : c ≠ 'u')
    (rest : List Char) :
    quoted quote start index ('\\' :: c :: rest) =
      (do
        let (value, rest) ← quoted quote start (index + 2) rest
        return (escaped c :: value, rest)) :=
  quoted.eq_4 _ _ _ _ _ (fun _ _ _ _ _ hletter => absurd hletter h) h

/-- A character that begins no escape is the quote or stands for itself. -/
theorem quoted_plain (quote : Char) (start index : Nat) {c : Char} (h : c ≠ '\\')
    (rest : List Char) :
    quoted quote start index (c :: rest) =
      if c = quote then .ok ([], rest)
      else (do
        let (value, rest) ← quoted quote start (index + 1) rest
        return (c :: value, rest)) :=
  quoted.eq_6 _ _ _ _ _ (fun _ _ _ _ _ hc => absurd hc h) (fun _ hc => absurd hc h)
    (fun _ _ hc => absurd hc h) fun hc => absurd hc h

/-- Quoted characters end at their quote, whatever comes then. -/
theorem quoted_append {quote : Char} {start index : Nat} {chars value rest : List Char}
    (h : quoted quote start index chars = .ok (value, rest)) (start' index' : Nat)
    (more : List Char) :
    quoted quote start' index' (chars ++ more) = .ok (value, rest ++ more) := by
  induction index, chars using quoted.induct quote generalizing index' value rest with
  | case1 index => cases h
  | case2 index a b c d left decoded hdecoded ih =>
    simp only [quoted, hdecoded, bind_eq_ok, Prod.exists, pure_eq_ok] at h
    obtain ⟨value', left', hquoted, h⟩ := h
    cases h
    simp only [List.cons_append, quoted, hdecoded, ih hquoted]
    rfl
  | case3 index a b c d left hdecoded =>
    simp only [quoted, hdecoded] at h
    cases h
  | case4 index left hshort =>
    rw [quoted.eq_3 _ _ _ _ hshort] at h
    cases h
  | case5 index c left _ hletter ih =>
    rw [quoted_escape _ _ _ hletter] at h
    simp only [bind_eq_ok, Prod.exists, pure_eq_ok] at h
    obtain ⟨value', left', hquoted, h⟩ := h
    cases h
    rw [List.cons_append, List.cons_append, quoted_escape _ _ _ hletter, ih hquoted]
    rfl
  | case6 index =>
    simp only [quoted] at h
    cases h
  | case7 index left _ _ hescape hlast =>
    have hplain : quote ≠ '\\' := ne_backslash hescape hlast
    rw [quoted_plain _ _ _ hplain, if_pos rfl] at h
    cases h
    rw [List.cons_append, quoted_plain _ _ _ hplain, if_pos rfl]
  | case8 index c left _ _ hescape hlast hquote ih =>
    have hplain : c ≠ '\\' := ne_backslash hescape hlast
    rw [quoted_plain _ _ _ hplain, if_neg hquote] at h
    simp only [bind_eq_ok, Prod.exists, pure_eq_ok] at h
    obtain ⟨value', left', hquoted, h⟩ := h
    cases h
    rw [List.cons_append, quoted_plain _ _ _ hplain, if_neg hquote, ih hquoted]
    rfl

/-- A string ends at its quote, whatever comes then. -/
theorem string_append {quote : Char} {index : Nat} {chars rest : List Char} {word : Lexeme}
    (h : string quote index chars = .ok (word, rest)) (index' : Nat) (more : List Char) :
    string quote index' (chars ++ more) = .ok (word, rest ++ more) := by
  simp only [string, bind_eq_ok, Prod.exists, pure_eq_ok] at h
  obtain ⟨value, left, hquoted, h⟩ := h
  cases h
  have hwithin := within_quoted quote (Nat.lt_add_one index) chars
  rw [hquoted] at hwithin
  obtain ⟨front, -, rfl⟩ := hwithin
  have htake : (front ++ rest ++ more).take
      ((front ++ rest ++ more).length - (rest ++ more).length) =
        (front ++ rest).take ((front ++ rest).length - rest.length) := by
    have hlength : (front ++ rest ++ more).length - (rest ++ more).length = front.length := by
      simp only [List.length_append]
      omega
    rw [hlength, List.append_assoc, List.take_left, List.length_append, Nat.add_sub_cancel,
      List.take_left]
  simp only [string, quoted_append hquoted index' (index' + 1) more, bind, Except.bind, htake]
  rfl

variable {after : List Char}

/-- Whether a point belongs to a number is decided where the front ends. -/
theorem pointContinues_append (h : Halts after) (front : List Char) :
    pointContinues {} (front ++ after) = pointContinues {} front := by
  rcases h.cases with rfl | ⟨more, rfl⟩
  · rw [List.append_nil]
  rcases front with _ | ⟨c, _ | ⟨d, front⟩⟩
  · have hbegins : Text.isAlphabetic ';' = false := by decide
    simp [pointContinues, hbegins]
  · simp [pointContinues]
  · rfl

/-- The fraction of a number goes no further than the front. -/
theorem fractionPart_append_of_halts (h : Halts after) (front : List Char) :
    fractionPart {} (front ++ after) =
      ((fractionPart {} front).1, (fractionPart {} front).2 ++ after) := by
  have hdigit : Char.isDigit ';' = false := rfl
  unfold fractionPart
  rcases front with _ | ⟨c, front⟩
  · rcases h.cases with rfl | ⟨more, rfl⟩ <;> rfl
  · by_cases hpoint : c = '.'
    · subst hpoint
      simp only [List.cons_append, pointContinues_append h, h.takeWhile hdigit,
        h.dropWhile hdigit]
      split <;> rfl
    · simp [hpoint]

/-- The exponent of a number goes no further than the front. -/
theorem exponentPart_append_of_halts (hafter : Halts after) {index : Nat}
    {front exponent left : List Char} (h : exponentPart index front = .ok (exponent, left))
    (index' : Nat) : exponentPart index' (front ++ after) = .ok (exponent, left ++ after) := by
  rcases front with _ | ⟨c, front⟩
  · cases h
    rcases hafter.cases with rfl | ⟨more, rfl⟩ <;> rfl
  simp only [exponentPart, List.cons_append] at h ⊢
  split at h
  case isFalse hmark =>
    rw [if_neg hmark]
    cases h
    rfl
  case isTrue hmark =>
    rw [if_pos hmark]
    rcases front with _ | ⟨d, front⟩
    · cases h
    simp only [List.cons_append, hafter.any_isDigit] at h ⊢
    rw [← List.cons_append, hafter.takeWhile rfl, hafter.dropWhile rfl, hafter.takeWhile rfl,
      hafter.dropWhile rfl]
    split at h
    case isTrue hfirst =>
      rw [if_pos hfirst]
      cases h
      rfl
    case isFalse hfirst =>
      rw [if_neg hfirst]
      split at h
      case isTrue hsigned =>
        rw [if_pos hsigned]
        cases h
        rfl
      case isFalse => cases h

/-- A number goes no further than the front. -/
theorem number_append_of_halts (hafter : Halts after) {index : Nat} {front left : List Char}
    {found : Lexeme} (h : number {} index front = .ok (found, left)) (index' : Nat) :
    number {} index' (front ++ after) = .ok (found, left ++ after) := by
  rw [number_eq] at h ⊢
  rw [hafter.takeWhile rfl, hafter.dropWhile rfl, fractionPart_append_of_halts hafter]
  simp only [bind_eq_ok, Prod.exists, pure_eq_ok] at h ⊢
  obtain ⟨exponent, rest, hexponent, h⟩ := h
  cases h
  exact ⟨exponent, _, exponentPart_append_of_halts hafter hexponent _, rfl⟩

end Lexer

/-- An operator sign goes no further than the front. -/
theorem Symbol.operator?_append_of_halts {after : List Char} (hafter : Halts after)
    {front left : List Char} {sign : Symbol} (h : operator? front = some (sign, left)) :
    operator? (front ++ after) = some (sign, left ++ after) := by
  rcases hafter.cases with rfl | ⟨more, rfl⟩
  · simpa using h
  unfold operator? at h
  split at h <;> cases h <;>
    first | rfl | (rcases left with _ | ⟨d, left⟩ <;> simp_all [operator?])

namespace Lexer

variable {after : List Char}

/-- A word or an operator sign goes no further than the front. -/
theorem word_append_of_halts (hafter : Halts after) {index : Nat} {c : Char}
    {front left : List Char} {found : Lexeme} (h : word {} index c front = .ok (found, left))
    (index' : Nat) : word {} index' c (front ++ after) = .ok (found, left ++ after) := by
  have hcontinues : ({} : Options).continuesIdentifier ';' = false := by decide
  unfold word at h ⊢
  split at h
  case isTrue hbegins =>
    rw [if_pos hbegins, hafter.takeWhile hcontinues, hafter.dropWhile hcontinues]
    cases h
    rfl
  case isFalse hbegins =>
    rw [if_neg hbegins]
    split at h
    case h_1 sign rest hsign =>
      cases h
      rw [← List.cons_append, Symbol.operator?_append_of_halts hafter hsign]
    case h_2 => cases h

/-- No lexeme goes further than to a semicolon, and none depends on its place. -/
theorem lexeme_append_of_halts (hafter : Halts after) {index : Nat} {c : Char}
    {front left : List Char} {found : Lexeme} (h : lexeme {} index c front = .ok (found, left))
    (index' : Nat) : lexeme {} index' c (front ++ after) = .ok (found, left ++ after) := by
  unfold lexeme at h ⊢
  rw [hafter.any_isDigit]
  split at h
  case isTrue hquote =>
    rw [if_pos hquote]
    exact string_append h index' _
  case isFalse hquote =>
    rw [if_neg hquote]
    split at h
    case isTrue hnumber =>
      rw [if_pos hnumber]
      exact number_append_of_halts hafter h index'
    case isFalse hnumber =>
      rw [if_neg hnumber]
      split at h
      case h_1 sign hsign =>
        cases h
        rfl
      case h_2 hsign => exact word_append_of_halts hafter h index'

/-- A lexeme takes a character at least. -/
theorem length_lt_of_lexeme {options : Options} {index : Nat} {c : Char} {rest left : List Char}
    {found : Lexeme} (h : lexeme options index c rest = .ok (found, left)) :
    left.length < rest.length + 1 := by
  have hspells := spells_lexeme options index c rest
  rw [h] at hspells
  obtain ⟨hne, hchars⟩ := hspells
  have hlength := congrArg List.length hchars
  have hpositive := List.length_pos_iff.mpr hne
  rw [List.length_cons, List.length_append] at hlength
  omega

end Lexer

/-- The characters are the lexemes, as they are found from the front, with white space around
them. -/
inductive Scans : List Char → List Lexeme → Prop
  | blank {space : List Char} (hspace : ∀ c ∈ space, Text.isWhiteSpace c = true) : Scans space []
  | lexeme {space rest left : List Char} {c : Char} {word : Lexeme} {words : List Lexeme}
    (hspace : ∀ c ∈ space, Text.isWhiteSpace c = true) (hfirst : Text.isWhiteSpace c = false)
    (hword : Lexer.lexeme {} 0 c rest = .ok (word, left)) (hleft : Scans left words) :
    Scans (space ++ c :: rest) (word :: words)

namespace Scans

/-- With a semicolon between them, the characters are the lexemes of both. -/
theorem join {front rest : List Char} {words words' : List Lexeme} (h : Scans front words)
    (h' : Scans rest words') :
    Scans (front ++ ';' :: rest) (words ++ .symbol .semicolon :: words') := by
  induction h with
  | blank hspace => exact .lexeme hspace (by decide) rfl h'
  | @lexeme space tail left c word words hspace hfirst hword _ ih =>
    have hword' := Lexer.lexeme_append_of_halts (halts_semicolon rest) hword 0
    rw [List.append_assoc, List.cons_append]
    exact .lexeme hspace hfirst hword' ih

/-- The tokens that are found without an error are what the characters are. -/
theorem of_tokensFrom {budget index : Nat} {chars : List Char} {tokens : List Token}
    (h : Lexer.tokensFrom {} budget index chars = (tokens, none))
    (hbudget : chars.length < budget) : Scans chars (tokens.map Token.lexeme) := by
  induction budget generalizing index chars tokens with
  | zero => exact absurd hbudget (Nat.not_lt_zero _)
  | succ budget ih =>
    have hsplit : chars.takeWhile Text.isWhiteSpace ++ chars.dropWhile Text.isWhiteSpace = chars :=
      List.takeWhile_append_dropWhile
    have hspace : ∀ c ∈ chars.takeWhile Text.isWhiteSpace, Text.isWhiteSpace c = true :=
      List.all_eq_true.mp List.all_takeWhile
    have hfirst := List.head?_dropWhile_not Text.isWhiteSpace chars
    simp only [Lexer.tokensFrom] at h
    generalize chars.takeWhile Text.isWhiteSpace = space at *
    generalize chars.dropWhile Text.isWhiteSpace = rest at *
    subst hsplit
    rcases rest with _ | ⟨c, rest⟩
    · cases h
      rw [List.append_nil]
      exact .blank hspace
    dsimp only at h
    rcases hword : Lexer.lexeme {} (index + space.length) c rest with error | ⟨word, left⟩
    · rw [hword] at h
      cases h
    rw [hword] at h
    dsimp only at h
    rcases hleft : Lexer.tokensFrom {} budget (index + space.length + word.text.length) left with
      ⟨others, error⟩
    rw [hleft] at h
    cases h
    have hplace := Lexer.lexeme_append_of_halts halts_nil hword 0
    simp only [List.append_nil] at hplace
    have hshorter := Lexer.length_lt_of_lexeme hword
    rw [List.length_append, List.length_cons] at hbudget
    exact .lexeme hspace (by simpa using hfirst) hplace (ih hleft (by omega))

/-- The tokens of such characters are found without an error. -/
theorem tokensFrom {chars : List Char} {words : List Lexeme} (h : Scans chars words)
    {budget : Nat} (hbudget : chars.length < budget) (index : Nat) :
    ∃ tokens, Lexer.tokensFrom {} budget index chars = (tokens, none) ∧
      tokens.map Token.lexeme = words := by
  induction h generalizing budget index with
  | @blank space hspace =>
    obtain ⟨budget, rfl⟩ := Nat.exists_eq_add_one.mpr (Nat.zero_lt_of_lt hbudget)
    have hnone : (space ++ []).dropWhile Text.isWhiteSpace = [] :=
      dropWhile_append_of_ends hspace nofun
    rw [List.append_nil] at hnone
    exact ⟨[], by simp only [Lexer.tokensFrom, hnone], rfl⟩
  | @lexeme space rest left c word words hspace hfirst hword _ ih =>
    obtain ⟨budget, rfl⟩ := Nat.exists_eq_add_one.mpr (Nat.zero_lt_of_lt hbudget)
    have hends : ∀ d more, c :: rest = d :: more → Text.isWhiteSpace d = false := by
      rintro d more ⟨⟩
      exact hfirst
    have hplace := Lexer.lexeme_append_of_halts halts_nil hword (index + space.length)
    simp only [List.append_nil] at hplace
    have hshorter := Lexer.length_lt_of_lexeme hword
    rw [List.length_append, List.length_cons] at hbudget
    obtain ⟨tokens, htokens, hwords⟩ :=
      @ih budget (by omega) (index + space.length + word.text.length)
    refine ⟨⟨word, index + space.length⟩ :: tokens, ?_, by rw [List.map_cons, hwords]⟩
    simp only [Lexer.tokensFrom, takeWhile_append_of_ends hspace hends,
      dropWhile_append_of_ends hspace hends, hplace, htokens]

end Scans

/-- The lexemes of a source that has tokens. -/
theorem scan_iff_scans {source : String} {words : List Lexeme} :
    (∃ tokens, scan {} source = (tokens, none) ∧ tokens.map Token.lexeme = words) ↔
      Scans source.toList words := by
  have hbudget : source.toList.length < source.length + 1 := by
    rw [String.length_toList]
    exact Nat.lt_add_one _
  constructor
  · rintro ⟨tokens, hscan, rfl⟩
    exact .of_tokensFrom hscan hbudget
  · exact fun h => h.tokensFrom hbudget 0

end TemplateExpr
