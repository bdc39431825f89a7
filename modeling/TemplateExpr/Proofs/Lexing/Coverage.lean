import TemplateExpr.Proofs.Lexing.Numbers
import TemplateExpr.Proofs.Outcome

/-!
# What tokens cover

Reading a lexeme takes its text from the front of the characters and nothing else, whatever the
options are. A source is therefore covered by its tokens, each at its place, and by the white space
around them. Where a lexeme cannot be read, the same holds up to the place where it begins, and the
error is reported from there on and inside the source.
-/

namespace TemplateExpr

namespace Symbol

/-- A punctuation mark is spelled by the one character that it is. -/
theorem toList_text_of_punctuation? {c : Char} {sign : Symbol}
    (h : punctuation? c = some sign) : sign.text.toList = [c] := by
  unfold punctuation? at h
  split at h <;> cases h <;> rfl

/-- An operator sign is taken with its spelling. -/
theorem eq_append_of_operator? {chars rest : List Char} {sign : Symbol}
    (h : operator? chars = some (sign, rest)) : chars = sign.text.toList ++ rest := by
  unfold operator? at h
  split at h <;> cases h <;> rfl

/-- No symbol is spelled by nothing. -/
theorem toList_text_ne_nil (sign : Symbol) : sign.text.toList ≠ [] := by
  cases sign <;> simp [text]

end Symbol

namespace Lexer

variable {options : Options}

/-- What was read was taken from the front of the characters, and an error is reported at a place
that is not before `start` and is among the characters or before them. -/
def Within {α : Type} (start index : Nat) (chars : List Char) :
    Except LexicalError (α × List Char) → Prop
  | .ok (_, rest) => ∃ front, front ≠ [] ∧ chars = front ++ rest
  | .error error => start ≤ error.index ∧ error.index < index + chars.length

/-- Characters that were passed over before do not matter. -/
theorem Within.after {α β : Type} {start index : Nat} (front : List Char) {rest : List Char}
    {run : Except LexicalError (α × List Char)}
    (h : Within start (index + front.length) rest run) (f : α → β) :
    Within start index (front ++ rest) (do
      let (value, rest) ← run
      return (f value, rest)) := by
  rcases run with error | ⟨value, left⟩
  · obtain ⟨hstart, hend⟩ := h
    refine ⟨hstart, ?_⟩
    rw [List.length_append]
    omega
  · obtain ⟨taken, hne, rfl⟩ := h
    exact ⟨front ++ taken, by simp [hne], by simp⟩

/-- Quoted characters are taken from the front, with the closing quote. -/
theorem within_quoted (quote : Char) {start index : Nat} (hstart : start < index)
    (chars : List Char) : Within start index chars (quoted quote start index chars) := by
  induction index, chars using quoted.induct quote with
  | case1 index => exact ⟨Nat.le_refl _, hstart⟩
  | case2 index a b c d rest decoded hdecoded ih =>
    have h := (ih (by omega)).after ['\\', 'u', a, b, c, d] (decoded :: ·)
    simpa [quoted, hdecoded] using h
  | case3 index a b c d rest hdecoded =>
    simp only [quoted, hdecoded]
    exact ⟨Nat.le_of_lt hstart, by simp⟩
  | case4 index rest hshort =>
    rw [quoted.eq_3 _ _ _ _ hshort]
    exact ⟨Nat.le_of_lt hstart, by simp⟩
  | case5 index c rest hlong hletter ih =>
    have h := (ih (by omega)).after ['\\', c] (escaped c :: ·)
    rw [quoted.eq_4 _ _ _ _ _ hlong hletter]
    exact h
  | case6 index =>
    simp only [quoted]
    exact ⟨Nat.le_refl _, Nat.lt_add_right _ hstart⟩
  | case7 index rest hlong hshort hescape hlast =>
    rw [quoted.eq_6 _ _ _ _ _ hlong hshort hescape hlast, if_pos rfl]
    exact ⟨[quote], by simp, rfl⟩
  | case8 index c rest hlong hshort hescape hlast hquote ih =>
    have h := (ih (by omega)).after [c] (c :: ·)
    rw [quoted.eq_6 _ _ _ _ _ hlong hshort hescape hlast, if_neg hquote]
    exact h

/-- A lexeme was read from the front of the characters with its spelling, or an error is reported
at one of the characters. -/
def Spells (index : Nat) (chars : List Char) : Step → Prop
  | .ok (word, rest) => word.text.toList ≠ [] ∧ chars = word.text.toList ++ rest
  | .error error => index ≤ error.index ∧ error.index < index + chars.length

/-- A string is spelled by its quotes and what is between them. -/
theorem spells_string (quote : Char) (index : Nat) (rest : List Char) :
    Spells index (quote :: rest) (string quote index rest) := by
  have h := within_quoted quote (Nat.lt_add_one index) rest
  unfold string
  rcases hquoted : quoted quote index (index + 1) rest with error | ⟨value, left⟩
  · rw [hquoted] at h
    obtain ⟨hstart, hend⟩ := h
    exact ⟨hstart, by rw [List.length_cons]; omega⟩
  · rw [hquoted] at h
    obtain ⟨front, -, rfl⟩ := h
    have htake : (front ++ left).take ((front ++ left).length - left.length) = front := by
      rw [List.length_append, Nat.add_sub_cancel, List.take_left]
    refine ⟨by simp [Lexeme.text], ?_⟩
    simp only [Lexeme.text, String.toList_ofList, htake, List.cons_append]

/-- A fraction is taken from the front of the characters. -/
theorem fractionPart_append_eq (options : Options) (rest : List Char) :
    (fractionPart options rest).1 ++ (fractionPart options rest).2 = rest := by
  unfold fractionPart
  split
  case h_1 after =>
    split
    · simp
    · rfl
  case h_2 => rfl

/-- An exponent is taken from the front of the characters, and its mark is one of them. -/
theorem exponentPart_cases (index : Nat) (rest : List Char) :
    (∃ exponent left, exponentPart index rest = .ok (exponent, left) ∧ rest = exponent ++ left) ∨
      (exponentPart index rest = .error ⟨.invalidExponent, index⟩ ∧ rest ≠ []) := by
  rcases rest with _ | ⟨c, rest⟩
  · exact .inl ⟨[], [], rfl, rfl⟩
  unfold exponentPart
  dsimp only
  split
  · rcases rest with _ | ⟨d, more⟩
    · exact .inr ⟨rfl, by simp⟩
    · dsimp only
      split
      · exact .inl ⟨_, _, rfl, by simp⟩
      · split
        · exact .inl ⟨_, _, rfl, by simp⟩
        · exact .inr ⟨rfl, by simp⟩
  · exact .inl ⟨[], _, rfl, rfl⟩

/-- A number is spelled by its parts, of which one of the first two is there. -/
theorem spells_number {chars : List Char} (index : Nat)
    (hparts : chars.takeWhile Char.isDigit ≠ [] ∨
      (fractionPart options (chars.dropWhile Char.isDigit)).1 ≠ []) :
    Spells index chars (number options index chars) := by
  have hwhole : chars.takeWhile Char.isDigit ++ chars.dropWhile Char.isDigit = chars :=
    List.takeWhile_append_dropWhile
  have hfraction := fractionPart_append_eq options (chars.dropWhile Char.isDigit)
  rw [number_eq]
  rcases hpart : fractionPart options (chars.dropWhile Char.isDigit) with ⟨fraction, rest⟩
  rw [hpart] at hparts hfraction
  rw [← hfraction] at hwhole
  generalize chars.takeWhile Char.isDigit = whole at *
  subst hwhole
  dsimp only
  rcases exponentPart_cases (index + whole.length + fraction.length) rest with
    ⟨exponent, left, hread, rfl⟩ | ⟨hread, hne⟩
  · rw [hread]
    refine ⟨?_, by simp [Lexeme.text]⟩
    rcases hparts with h | h <;> simp [Lexeme.text, h]
  · rw [hread]
    have hlength := List.length_pos_iff.mpr hne
    refine ⟨by simp only; omega, ?_⟩
    simp only [List.length_append]
    omega

/-- A word is an identifier or an operator sign, spelled as it is found. -/
theorem spells_word (options : Options) (index : Nat) (c : Char) (rest : List Char) :
    Spells index (c :: rest) (word options index c rest) := by
  unfold word
  split
  case isTrue => exact ⟨by simp [Lexeme.text], by simp [Lexeme.text]⟩
  case isFalse =>
    split
    case h_1 sign left hfound =>
      exact ⟨sign.toList_text_ne_nil, Symbol.eq_append_of_operator? hfound⟩
    case h_2 => exact ⟨Nat.le_refl _, by simp⟩

/-- Every lexeme is read from the front of the characters with its spelling, and every error is
reported at one of the characters, whatever the options are. -/
theorem spells_lexeme (options : Options) (index : Nat) (c : Char) (rest : List Char) :
    Spells index (c :: rest) (lexeme options index c rest) := by
  unfold lexeme
  split
  case isTrue => exact spells_string c index rest
  case isFalse =>
    split
    case isTrue hnumber =>
      refine spells_number index ?_
      cases hdigit : c.isDigit with
      | true => exact .inl (by simp [hdigit])
      | false =>
        -- A number without whole digits begins with a point, and a digit follows the point.
        simp only [hdigit, Bool.false_or, Bool.and_eq_true, decide_eq_true_eq] at hnumber
        obtain ⟨rfl, hfirst⟩ := hnumber
        rcases rest with _ | ⟨d, more⟩
        · simp at hfirst
        · simp only [List.head?_cons, Option.any_some] at hfirst
          exact .inr (by simp [hdigit, fractionPart, pointContinues, hfirst])
    case isFalse =>
      split
      case h_1 sign hfound =>
        refine ⟨sign.toList_text_ne_nil, ?_⟩
        simp only [Lexeme.text, Symbol.toList_text_of_punctuation? hfound, List.singleton_append]
      case h_2 => exact spells_word options index c rest

/-- The next token from the place `index` on and the characters after it, if there is one. -/
def next (options : Options) (index : Nat) (chars : List Char) :
    Except LexicalError (Option (Token × List Char)) :=
  let start := index + (chars.takeWhile Text.isWhiteSpace).length
  match chars.dropWhile Text.isWhiteSpace with
  | [] => .ok none
  | c :: rest => do
    let (word, rest) ← lexeme options start c rest
    return some (⟨word, start⟩, rest)

/-- Tokens are taken one after the other until there is none or one cannot be read. -/
theorem tokensFrom_succ (options : Options) (budget index : Nat) (chars : List Char) :
    tokensFrom options (budget + 1) index chars =
      match next options index chars with
      | .ok none => ([], none)
      | .ok (some (token, rest)) =>
        let (tokens, error) := tokensFrom options budget (token.index + token.text.length) rest
        (token :: tokens, error)
      | .error error => ([], some error) := by
  simp only [tokensFrom, next]
  rcases chars.dropWhile Text.isWhiteSpace with _ | ⟨c, rest⟩
  · rfl
  · dsimp only
    rcases lexeme options _ c rest with error | ⟨word, left⟩ <;> rfl

/-- What the next token means for the characters at `index`: it stands after white space with its
spelling in front of what is left, there is none among white space, and an error is reported where
the white space has ended or later, at one of the characters. -/
def Advances (options : Options) (index : Nat) (chars : List Char) :
    Except LexicalError (Option (Token × List Char)) → Prop
  | .ok none => ∀ c ∈ chars, Text.isWhiteSpace c = true
  | .ok (some (token, rest)) => ∃ space, (∀ c ∈ space, Text.isWhiteSpace c = true) ∧
      chars = space ++ (token.text.toList ++ rest) ∧ token.index = index + space.length ∧
      0 < token.text.length
  | .error error => ∃ space c rest, (∀ c ∈ space, Text.isWhiteSpace c = true) ∧
      chars = space ++ c :: rest ∧ Text.isWhiteSpace c = false ∧
      lexeme options (index + space.length) c rest = .error error ∧
      index + space.length ≤ error.index ∧ error.index < index + chars.length

/-- Every step of the lexer takes white space and one token, ends, or reports an error. -/
theorem advances_next (options : Options) (index : Nat) (chars : List Char) :
    Advances options index chars (next options index chars) := by
  have hsplit : chars.takeWhile Text.isWhiteSpace ++ chars.dropWhile Text.isWhiteSpace = chars :=
    List.takeWhile_append_dropWhile
  have hblank : ∀ c ∈ chars.takeWhile Text.isWhiteSpace, Text.isWhiteSpace c = true :=
    List.all_eq_true.mp List.all_takeWhile
  unfold next
  rcases hrest : chars.dropWhile Text.isWhiteSpace with _ | ⟨c, rest⟩
  · rw [hrest, List.append_nil] at hsplit
    rwa [hsplit] at hblank
  · rw [hrest] at hsplit
    have hspells :=
      spells_lexeme options (index + (chars.takeWhile Text.isWhiteSpace).length) c rest
    have hfirst : Text.isWhiteSpace c = false := by
      have h := List.head?_dropWhile_not Text.isWhiteSpace chars
      rw [hrest] at h
      simpa using h
    dsimp only
    rcases hword : lexeme options _ c rest with error | ⟨word, left⟩
    · rw [hword] at hspells
      refine ⟨_, c, rest, hblank, hsplit.symm, hfirst, hword, hspells.1, ?_⟩
      rw [← hsplit, List.length_append]
      simpa only [Nat.add_assoc, hsplit] using hspells.2
    · rw [hword] at hspells
      rw [hspells.2] at hsplit
      refine ⟨_, hblank, hsplit.symm, rfl, ?_⟩
      rw [← String.length_toList]
      exact List.length_pos_iff.mpr hspells.1

end Lexer

/-- The tokens lie in order between two places of the source, each one where it is spelled, and
only white space is left between them. -/
structure Covers (source : List Char) (start : Nat) (tokens : List Token) (stop : Nat) : Prop where
  ordered : tokens.Pairwise fun a b => a.index < b.index
  apart : tokens.Pairwise fun a b => a.index + a.text.length ≤ b.index
  inside : ∀ token ∈ tokens, start ≤ token.index ∧ 0 < token.text.length ∧
    token.index + token.text.length ≤ stop
  spelled : ∀ token ∈ tokens,
    (source.drop token.index).take token.text.length = token.text.toList
  blank : ∀ i c, start ≤ i → i < stop → source[i]? = some c → Text.isWhiteSpace c = true ∨
    ∃ token ∈ tokens, token.index ≤ i ∧ i < token.index + token.text.length

namespace Covers

/-- White space needs no token to cover it. -/
theorem nil {before space rest : List Char} (h : ∀ c ∈ space, Text.isWhiteSpace c = true) :
    Covers (before ++ (space ++ rest)) before.length [] (before.length + space.length) where
  ordered := .nil
  apart := .nil
  inside := by simp
  spelled := by simp
  blank i c hstart hstop hc := by
    rw [List.getElem?_append_right hstart, List.getElem?_append_left (by omega)] at hc
    exact .inl (h c (List.mem_of_getElem? hc))

/-- A token after white space is covered before the tokens that begin where it ends. -/
theorem cons {before space rest : List Char} {token : Token} {tokens : List Token} {stop : Nat}
    (hspace : ∀ c ∈ space, Text.isWhiteSpace c = true)
    (hindex : token.index = before.length + space.length) (hpositive : 0 < token.text.length)
    (h : Covers (before ++ (space ++ (token.text.toList ++ rest)))
      (token.index + token.text.length) tokens stop)
    (hstop : token.index + token.text.length ≤ stop) :
    Covers (before ++ (space ++ (token.text.toList ++ rest))) before.length (token :: tokens)
      stop where
  ordered := by
    refine List.pairwise_cons.mpr ⟨fun other hother => ?_, h.ordered⟩
    have hafter := (h.inside other hother).1
    omega
  apart := List.pairwise_cons.mpr ⟨fun other hother => (h.inside other hother).1, h.apart⟩
  inside := by
    refine List.forall_mem_cons.mpr ⟨⟨by omega, hpositive, hstop⟩, fun other hother => ?_⟩
    obtain ⟨hafter, hlength, hend⟩ := h.inside other hother
    exact ⟨by omega, hlength, hend⟩
  spelled := by
    refine List.forall_mem_cons.mpr ⟨?_, h.spelled⟩
    rw [hindex, ← List.length_append, ← List.append_assoc, List.drop_left, ← String.length_toList,
      List.take_left]
  blank i c hstart hlast hc := by
    rcases Nat.lt_or_ge i token.index with hgap | hgap
    · rw [List.getElem?_append_right hstart, List.getElem?_append_left (by omega)] at hc
      exact .inl (hspace c (List.mem_of_getElem? hc))
    rcases Nat.lt_or_ge i (token.index + token.text.length) with hhere | hhere
    · exact .inr ⟨token, List.mem_cons_self, hgap, hhere⟩
    · rcases h.blank i c hhere hlast hc with hblank | ⟨other, hother, hin⟩
      · exact .inl hblank
      · exact .inr ⟨other, List.mem_cons_of_mem _ hother, hin⟩

end Covers

/-- Where the tokens of a source stop: at its end, or where the lexeme begins that cannot be read.
The error is reported there or later, inside the source. -/
def Stops (options : Options) (source : List Char) (stop : Nat) : Option LexicalError → Prop
  | none => stop = source.length
  | some error => ∃ c rest, source.drop stop = c :: rest ∧ Text.isWhiteSpace c = false ∧
      Lexer.lexeme options stop c rest = .error error ∧
      stop ≤ error.index ∧ error.index < source.length

namespace Lexer

/-- From any place on, the tokens cover what they were taken from up to where they stop. -/
theorem covers_tokensFrom (options : Options) (budget : Nat) (before chars : List Char)
    (hbudget : chars.length < budget) :
    ∃ stop, before.length ≤ stop ∧
      Covers (before ++ chars) before.length (tokensFrom options budget before.length chars).1
        stop ∧
      Stops options (before ++ chars) stop (tokensFrom options budget before.length chars).2 := by
  induction budget generalizing before chars with
  | zero => exact absurd hbudget (Nat.not_lt_zero _)
  | succ budget ih =>
    have hnext := advances_next options before.length chars
    rw [tokensFrom_succ]
    generalize next options before.length chars = step at hnext
    rcases step with error | _ | ⟨token, rest⟩
    · obtain ⟨space, c, rest, hspace, rfl, hfirst, hword, hstart, hend⟩ := hnext
      refine ⟨before.length + space.length, by omega, .nil hspace, c, rest, ?_, hfirst, hword,
        hstart, by rwa [List.length_append]⟩
      rw [← List.length_append, ← List.append_assoc, List.drop_left]
    · refine ⟨before.length + chars.length, by omega, ?_, by simp [Stops]⟩
      have hblank : Covers (before ++ (chars ++ [])) before.length []
          (before.length + chars.length) := .nil hnext
      rwa [List.append_nil] at hblank
    · obtain ⟨space, hspace, rfl, hindex, hpositive⟩ := hnext
      have hplace : token.index + token.text.length =
          (before ++ (space ++ token.text.toList)).length := by
        simp only [List.length_append, String.length_toList]
        omega
      have hsource : before ++ (space ++ (token.text.toList ++ rest)) =
          (before ++ (space ++ token.text.toList)) ++ rest := by simp
      -- A token takes at least one character, so the budget is enough for what is left.
      obtain ⟨stop, hstop, hcovers, hstops⟩ := ih (before ++ (space ++ token.text.toList)) rest
        (by simp only [List.length_append, String.length_toList] at hbudget; omega)
      rw [← hplace, ← hsource] at hcovers hstops
      exact ⟨stop, by omega, .cons hspace hindex hpositive hcovers (by omega), hstops⟩

end Lexer

/-- Reading tokens loses, invents and reorders nothing, whatever the options are. Every step takes
white space and one token that is spelled by at least one character, or finds only white space, or
reports an error at one of the characters that are left. The tokens of a source stand in order, each
one where it is spelled, with white space between them, up to the end of the source or up to where
the lexeme begins that cannot be read, and the place of that error lies inside the source. -/
theorem scan_covers (options : Options) (source : String) :
    (∀ index chars, Lexer.Advances options index chars (Lexer.next options index chars)) ∧
    ∃ stop, Covers source.toList 0 (scan options source).1 stop ∧
      Stops options source.toList stop (scan options source).2 := by
  refine ⟨Lexer.advances_next options, ?_⟩
  obtain ⟨stop, -, hcovers, hstops⟩ := Lexer.covers_tokensFrom options (source.length + 1) []
    source.toList (by rw [String.length_toList]; exact Nat.lt_add_one _)
  exact ⟨stop, hcovers, hstops⟩

end TemplateExpr
