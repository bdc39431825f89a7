import TemplateExpr.Proofs.Lexing.Replacement

/-!
# Lexemes with spaces between them

What was found to be a lexeme, before whatever it stood, is found again before a space and at the end.
The texts of the lexemes of a source, with single spaces between them, therefore have these lexemes and
no others.
-/

namespace TemplateExpr

/-- Whether the characters are at an end or at a space. -/
def AtSpace (after : List Char) : Prop := after = [] ∨ ∃ more, after = ' ' :: more

namespace AtSpace

variable {after : List Char}

/-- What a space is not is not there. -/
theorem not_of (h : AtSpace after) {test : Char → Bool} (htest : test ' ' = false) :
    ∀ c more, after = c :: more → test c = false := by
  rintro c more rfl
  rcases h with h | ⟨_, h⟩ <;> cases h
  exact htest

/-- There is no digit. -/
theorem noDigit (h : AtSpace after) : NoDigit after := h.not_of rfl

/-- A point is no member access there. -/
theorem pointContinues (h : AtSpace after) : Lexer.pointContinues {} after = true := by
  have hletter : Text.isAlphabetic ' ' = false := by decide
  rcases h with rfl | ⟨more, rfl⟩
  · rfl
  · simp [Lexer.pointContinues, hletter]

end AtSpace

section Numbers

variable {after rest : List Char}

/-- The text of a number begins as a number does, whatever comes after it. -/
theorem NumberText.beginsNumber {t : NumberText} {c : Char} {tail : List Char}
    (h : t.text = c :: tail) (after : List Char) : BeginsNumber c (tail ++ after) := by
  rw [text, Mantissa.text, List.append_assoc] at h
  rcases hwhole : t.mantissa.whole with _ | ⟨d, digits⟩
  · obtain ⟨digits, hdigits, hne⟩ := t.mantissa.ne_nil.resolve_left (not_not_intro hwhole)
    obtain ⟨d, digits, rfl⟩ := List.exists_cons_of_ne_nil hne
    rw [hwhole, Mantissa.fractionText, hdigits] at h
    cases h
    exact .inr ⟨rfl, d, _, rfl, t.mantissa.fraction_digits _ hdigits d List.mem_cons_self⟩
  · rw [hwhole] at h
    cases h
    exact .inl (t.mantissa.whole_digits _ (hwhole ▸ List.mem_cons_self))

/-- The text of a number ends before a space if it ends anywhere. -/
theorem NumberText.Ends.atSpace {t : NumberText} (h : t.Ends {} rest) (hafter : AtSpace after) :
    t.Ends {} after where
  mantissa := {
    noDigit := by
      intro c more hmore
      rcases hexponent : t.exponentText with _ | ⟨mark, exponent⟩ <;> rw [hexponent] at hmore
      · exact hafter.noDigit c more hmore
      · cases hmore
        exact t.noDigit_exponentText _ _ hexponent
    noPoint := by
      intro _ more hmore
      rcases hexponent : t.exponentText with _ | ⟨mark, exponent⟩ <;> rw [hexponent] at hmore
      · rcases hafter with rfl | ⟨_, rfl⟩ <;> cases hmore
      · cases hmore
        exact absurd rfl (t.ne_point_exponentText _ _ hexponent)
    point := by
      intro hwhole digits hdigits
      have hpoint := h.mantissa.point hwhole digits hdigits
      rcases digits with _ | ⟨d, digits⟩
      · cases hexponent : t.exponent with
        | none =>
          simp only [exponentText, hexponent, Option.elim_none, List.nil_append]
          exact hafter.pointContinues
        | some e =>
          -- The point is followed by the mark of the exponent, and that by a sign or a digit.
          obtain ⟨d, digits, hdigits⟩ := List.exists_cons_of_ne_nil e.digits_ne_nil
          rw [exponentText, hexponent, Option.elim_some, Exponent.text] at hpoint ⊢
          cases hsign : e.sign <;> simpa [hsign, hdigits, Lexer.pointContinues] using hpoint
      · have hdigit := t.mantissa.fraction_digits _ hdigits d List.mem_cons_self
        simp [Lexer.pointContinues, hdigit] }
  noMark _ c more hmore := by
    rcases hafter with rfl | ⟨_, rfl⟩ <;> cases hmore
    decide
  noDigit _ := hafter.noDigit

end Numbers

namespace Lexer

variable {after chars left : List Char} {index : Nat} {word : Lexeme}

/-- A number is found again before a space. -/
theorem number_atSpace {c : Char} {rest : List Char} (hbegins : BeginsNumber c rest)
    (h : number {} index (c :: rest) = .ok (word, left)) (hafter : AtSpace after) (index' : Nat) :
    (∀ d tail, word.text.toList = d :: tail → BeginsNumber d (tail ++ after)) ∧
      number {} index' (word.text.toList ++ after) = .ok (word, after) := by
  obtain ⟨outcome, hread⟩ := exists_lexesNumber {} index hbegins
  have hreport := report_number hread
  rw [h] at hreport
  subst hreport
  cases hread with
  | number t hchars hends hvalue =>
    rw [Lexeme.text, String.toList_ofList]
    exact ⟨fun d tail htext => t.beginsNumber htext after,
      report_eq_ok.mp (report_number (.number t rfl (hends.atSpace hafter) hvalue))⟩

/-- A string is found again before whatever it stands. -/
theorem string_again {quote : Char} (hquote : quote ≠ '\\')
    (h : string quote index chars = .ok (word, left)) (after : List Char) (index' : Nat) :
    ∃ tail, word.text.toList = quote :: tail ∧
      string quote index' (tail ++ after) = .ok (word, after) := by
  obtain ⟨outcome, hread⟩ := exists_decodes (scalar? · = some ·) quote index chars
  have hreport := hread.report_string hquote
  rw [h] at hreport
  subst hreport
  cases hread with
  | @closed text value _ hitems hchars =>
    refine ⟨text ++ [quote], by simp [Lexeme.text], ?_⟩
    exact report_eq_ok.mp (Decodes.report_string hquote (.closed hitems (by simp)))

end Lexer

namespace Lexeme

variable {after : List Char}

/-- What was found to be a lexeme is found again before a space. -/
theorem readsBefore_of_found {c : Char} {rest left : List Char} {index : Nat} {word : Lexeme}
    (hfirst : Text.isWhiteSpace c = false)
    (h : Lexer.lexeme {} index c rest = .ok (word, left)) (hafter : AtSpace after) :
    word.ReadsBefore after := by
  have hspells := Lexer.spells_lexeme {} index c rest
  rw [h] at hspells
  obtain ⟨tail, htext⟩ : ∃ tail, word.text.toList = c :: tail := by
    obtain ⟨hne, hchars⟩ := hspells
    obtain ⟨d, tail, htail⟩ := List.exists_cons_of_ne_nil hne
    rw [htail, List.cons_append] at hchars
    exact ⟨tail, by rw [htail, (List.cons.inj hchars).1]⟩
  cases word with
  | identifier name =>
    obtain ⟨more, hname, -, -, hagain⟩ := Lexer.lexeme_identifier h
    exact ⟨c, more, hname, hfirst, fun index' => hagain index' after (hafter.not_of (by decide))⟩
  | symbol sign =>
    refine readsBefore_symbol fun d more hmore => ?_
    rcases hafter with rfl | ⟨_, rfl⟩ <;> cases hmore
    cases sign <;> rfl
  | constant spelling value =>
    refine ⟨c, tail, htext, hfirst, fun index' => ?_⟩
    unfold Lexer.lexeme at h ⊢
    split at h
    case isTrue hquote =>
      have hbackslash : c ≠ '\\' := by
        rintro rfl
        contradiction
      obtain ⟨tail', htext', hagain⟩ := Lexer.string_again hbackslash h after index'
      rw [htext] at htext'
      cases htext'
      rw [if_pos hquote, hagain]
    case isFalse hquote =>
      rw [if_neg hquote]
      split at h
      case isTrue hnumber =>
        obtain ⟨hbegins, hagain⟩ :=
          Lexer.number_atSpace (beginsNumber_iff.mp hnumber) h hafter index'
        rw [htext] at hagain
        rw [if_pos (beginsNumber_iff.mpr (hbegins c tail htext)), ← List.cons_append, hagain]
      case isFalse hnumber =>
        split at h
        case h_1 => cases h
        case h_2 =>
          unfold Lexer.word at h
          split at h
          · cases h
          · split at h <;> cases h

end Lexeme

namespace Scans

variable {chars : List Char} {words : List Lexeme}

/-- Each lexeme of a source is found again before a space. -/
theorem readsBefore (h : Scans chars words) {after : List Char} (hafter : AtSpace after) :
    ∀ word ∈ words, word.ReadsBefore after := by
  induction h with
  | blank => simp
  | lexeme _ hfirst hword _ ih =>
    exact List.forall_mem_cons.mpr ⟨Lexeme.readsBefore_of_found hfirst hword hafter, ih⟩

/-- A space before the first lexeme does not matter. -/
theorem cons_space (h : Scans chars words) : Scans (' ' :: chars) words := by
  have hblank : Text.isWhiteSpace ' ' = true := by decide
  cases h with
  | blank hspace => exact .blank (List.forall_mem_cons.mpr ⟨hblank, hspace⟩)
  | lexeme hspace hfirst hword hleft =>
    rw [← List.cons_append]
    exact .lexeme (List.forall_mem_cons.mpr ⟨hblank, hspace⟩) hfirst hword hleft

/-- A lexeme that is found before what is left is the first one. -/
theorem cons_word {word : Lexeme} (hword : word.ReadsBefore chars) (h : Scans chars words) :
    Scans (word.text.toList ++ chars) (word :: words) := by
  obtain ⟨c, tail, htext, hfirst, hread⟩ := hword
  rw [htext, List.cons_append]
  exact .lexeme (List.forall_mem_nil _) hfirst (hread 0) h

/-- Lexemes that are found before a space are found in their texts with spaces between them. -/
theorem spaced (h : ∀ after, AtSpace after → ∀ word ∈ words, word.ReadsBefore after) :
    Scans (" ".intercalate (words.map Lexeme.text)).toList words := by
  rw [String.toList_intercalate, List.map_map]
  induction words with
  | nil => exact .blank nofun
  | cons word words ih =>
    have hwords := ih fun after hafter other hother => h after hafter other (.tail _ hother)
    cases words with
    | nil =>
      have hword := h [] (.inl rfl) word List.mem_cons_self
      simpa using hwords.cons_word hword
    | cons next words =>
      rw [List.map_cons, List.map_cons, List.intercalate_cons_cons, List.append_assoc]
      exact hwords.cons_space.cons_word (h _ (.inr ⟨_, rfl⟩) word List.mem_cons_self)

/-- The texts of the lexemes of a source, with spaces between them, have the same lexemes. -/
theorem respaced (h : Scans chars words) :
    Scans (" ".intercalate (words.map Lexeme.text)).toList words :=
  spaced fun _ hafter => h.readsBefore hafter

end Scans

end TemplateExpr
