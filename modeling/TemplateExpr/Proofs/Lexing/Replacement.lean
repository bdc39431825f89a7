import TemplateExpr.Proofs.Lexing.Numerals

/-!
# Characters after a separator

A comma or an opening brace is a lexeme wherever it is not taken for a part of another one, and no lexeme
before it looks further than to it. What comes after it can therefore be replaced without a change to the
lexemes before, whatever the options are.
-/

namespace TemplateExpr

/-- A character that lexemes do not look past. -/
def IsSeparator (c : Char) : Prop := c = ',' ∨ c = '\x7b'

variable {options : Options} {a : Char} {front left tail : List Char}

/-- What is dropped before the separator is dropped whatever comes after the separator. -/
theorem dropWhile_replace {test : Char → Bool}
    (h : (front ++ a :: tail).dropWhile test = left ++ a :: tail) (tail' : List Char) :
    (front ++ a :: tail').takeWhile test = (front ++ a :: tail).takeWhile test ∧
      (front ++ a :: tail').dropWhile test = left ++ a :: tail' := by
  have hsplit : (front ++ a :: tail).takeWhile test ++ (left ++ a :: tail) = front ++ a :: tail := by
    rw [← h]
    exact List.takeWhile_append_dropWhile
  have htaken : ∀ c ∈ (front ++ a :: tail).takeWhile test, test c = true :=
    List.all_eq_true.mp List.all_takeWhile
  have hhead := List.head?_dropWhile_not test (front ++ a :: tail)
  rw [h] at hhead
  generalize (front ++ a :: tail).takeWhile test = taken at *
  rw [← List.append_assoc] at hsplit
  obtain rfl := List.append_cancel_right hsplit
  have hends : ∀ c more, left ++ a :: tail' = c :: more → test c = false := by
    intro c more hmore
    rcases left with _ | ⟨first, left⟩ <;> cases hmore <;> simpa using hhead
  rw [List.append_assoc]
  exact ⟨takeWhile_append_of_ends htaken hends, dropWhile_append_of_ends htaken hends⟩

/-- The longest operator sign depends on one character after it. -/
theorem Symbol.operator?_replace {sign : Symbol} {d : Char} {more : List Char}
    (h : operator? (sign.text.toList ++ d :: more) = some (sign, d :: more)) (more' : List Char) :
    operator? (sign.text.toList ++ d :: more') = some (sign, d :: more') := by
  by_cases hsign : sign ∈ extensible
  · refine operator?_of_endsAt hsign ?_ more'
    simp only [extensible, List.mem_cons, List.not_mem_nil, or_false] at hsign
    rcases hsign with rfl | rfl | rfl | rfl | rfl | rfl | rfl <;>
      simp only [endsAt, bne_iff_ne] <;> rintro rfl
    all_goals rcases more with _ | ⟨e, more⟩ <;> simp [operator?, text] at h
    all_goals by_cases he : e = '=' <;> simp [he] at h
  · cases sign <;> first | rfl | exact absurd (by decide) hsign | simp [operator?, text] at h

/-- The first character is the same whatever comes after the separator. -/
theorem exists_cons_replace {c : Char} {more tail' : List Char} (h : front ++ a :: tail' = c :: more)
    (tail : List Char) : ∃ more', front ++ a :: tail = c :: more' := by
  rcases front with _ | ⟨first, front⟩ <;> cases h <;> exact ⟨_, rfl⟩

/-- There is no digit whatever comes after the separator. -/
theorem NoDigit.replace (h : NoDigit (front ++ a :: tail)) (tail' : List Char) :
    NoDigit (front ++ a :: tail') := by
  intro c more hmore
  obtain ⟨more', hmore'⟩ := exists_cons_replace hmore tail
  exact h c more' hmore'

namespace Lexer

/-- A step that is right in words is right. -/
theorem report_eq_ok {step : Step} {result : Lexeme × List Char} :
    step.report = .ok result ↔ step = .ok result := mapError_eq_ok

/-- A string ends before the separator whatever comes after the separator. -/
theorem string_replace {quote : Char} (hquote : quote ≠ '\\') {index : Nat} {word : Lexeme}
    (h : string quote index (front ++ a :: tail) = .ok (word, left ++ a :: tail)) (index' : Nat)
    (tail' : List Char) :
    string quote index' (front ++ a :: tail') = .ok (word, left ++ a :: tail') := by
  obtain ⟨outcome, hread⟩ := exists_decodes (scalar? · = some ·) quote index (front ++ a :: tail)
  have hreport := hread.report_string hquote
  rw [h] at hreport
  subst hreport
  cases hread with
  | @closed text value _ hitems hchars =>
    have hsplit : front ++ a :: tail = (text ++ quote :: left) ++ a :: tail := by
      rw [hchars, List.append_assoc, List.cons_append]
    have hfront := List.append_cancel_right hsplit
    refine report_eq_ok.mp (Decodes.report_string hquote (.closed hitems ?_))
    rw [hfront, List.append_assoc, List.cons_append]

/-- Whether a point continues a number is seen before the separator or at it. -/
theorem pointContinues_replace (ha : IsSeparator a) (front tail tail' : List Char) :
    pointContinues options (front ++ a :: tail) = pointContinues options (front ++ a :: tail') := by
  rcases front with _ | ⟨c, _ | ⟨d, front⟩⟩
  · rcases ha with rfl | rfl <;> rfl
  · rfl
  · rfl

end Lexer

/-- A mantissa ends before the separator whatever comes after the separator. -/
theorem Mantissa.Ends.replace (ha : IsSeparator a) {m : Mantissa}
    (h : m.Ends options (front ++ a :: tail)) (tail' : List Char) :
    m.Ends options (front ++ a :: tail') where
  noDigit := h.noDigit.replace tail'
  noPoint hfraction more hmore := by
    rcases front with _ | ⟨c, front⟩
    · cases hmore
      rcases ha with ha | ha <;> contradiction
    · rw [List.cons_append, List.cons.injEq] at hmore
      obtain ⟨rfl, rfl⟩ := hmore
      rw [Lexer.pointContinues_replace ha _ tail' tail]
      exact h.noPoint hfraction _ rfl
  point hwhole digits hdigits := by
    have hpoint := h.point hwhole digits hdigits
    rw [← List.append_assoc] at hpoint ⊢
    rw [Lexer.pointContinues_replace ha _ tail' tail, hpoint]

/-- The text of a number ends before the separator whatever comes after the separator. -/
theorem NumberText.Ends.replace (ha : IsSeparator a) {t : NumberText}
    (h : t.Ends options (left ++ a :: tail)) (tail' : List Char) :
    t.Ends options (left ++ a :: tail') where
  mantissa := by
    have hmantissa := h.mantissa
    rw [← List.append_assoc] at hmantissa ⊢
    exact hmantissa.replace ha tail'
  noMark hexponent c more hmore := by
    obtain ⟨more', hmore'⟩ := exists_cons_replace hmore tail
    exact h.noMark hexponent c more' hmore'
  noDigit hexponent := (h.noDigit hexponent).replace tail'

namespace Lexer

/-- A number ends before the separator whatever comes after the separator. -/
theorem number_replace (ha : IsSeparator a) {index : Nat} {c : Char}
    (hbegins : BeginsNumber c (front ++ a :: tail)) {word : Lexeme}
    (h : number options index (c :: (front ++ a :: tail)) = .ok (word, left ++ a :: tail))
    (index' : Nat) (tail' : List Char) :
    number options index' (c :: (front ++ a :: tail')) = .ok (word, left ++ a :: tail') := by
  obtain ⟨outcome, hread⟩ := exists_lexesNumber options index hbegins
  have hreport := report_number hread
  rw [h] at hreport
  subst hreport
  cases hread with
  | number t hchars hends hvalue =>
    have hsplit : (c :: front) ++ a :: tail = (t.text ++ left) ++ a :: tail := by
      rw [List.cons_append, hchars, List.append_assoc]
    have hfront := List.append_cancel_right hsplit
    refine report_eq_ok.mp (report_number (.number t ?_ (hends.replace ha tail') hvalue))
    rw [← List.cons_append, hfront, List.append_assoc]

/-- A name or an operator sign ends before the separator whatever comes after the separator. -/
theorem word_replace {index : Nat} {c : Char} {found : Lexeme}
    (h : word options index c (front ++ a :: tail) = .ok (found, left ++ a :: tail)) (index' : Nat)
    (tail' : List Char) :
    word options index' c (front ++ a :: tail') = .ok (found, left ++ a :: tail') := by
  unfold word at h ⊢
  split at h
  case isTrue hbegins =>
    simp only [Except.ok.injEq, Prod.mk.injEq] at h
    obtain ⟨htake, hdrop⟩ := dropWhile_replace h.2 tail'
    rw [if_pos hbegins, htake, hdrop, ← h.1]
  case isFalse hbegins =>
    rw [if_neg hbegins]
    split at h
    case h_1 sign rest hsign =>
      cases h
      have hchars := Symbol.eq_append_of_operator? hsign
      have hsplit : (c :: front) ++ a :: tail = (sign.text.toList ++ left) ++ a :: tail := by
        rw [List.cons_append, hchars, List.append_assoc]
      have hfront := List.append_cancel_right hsplit
      have hreplace (chars : List Char) :
          c :: (front ++ chars) = sign.text.toList ++ (left ++ chars) := by
        rw [← List.cons_append, hfront, List.append_assoc]
      have hsame : Symbol.operator? (sign.text.toList ++ (left ++ a :: tail')) =
          some (sign, left ++ a :: tail') := by
        rw [hchars] at hsign
        rcases left with _ | ⟨d, left⟩ <;> exact Symbol.operator?_replace hsign _
      rw [hreplace, hsame]
    case h_2 => cases h

/-- A lexeme ends before the separator whatever comes after the separator. -/
theorem lexeme_replace (ha : IsSeparator a) {index : Nat} {c : Char} {word : Lexeme}
    (h : lexeme options index c (front ++ a :: tail) = .ok (word, left ++ a :: tail)) (index' : Nat)
    (tail' : List Char) :
    lexeme options index' c (front ++ a :: tail') = .ok (word, left ++ a :: tail') := by
  have hhead : (front ++ a :: tail').head?.any Char.isDigit =
      (front ++ a :: tail).head?.any Char.isDigit := by
    cases front <;> rfl
  unfold lexeme at h ⊢
  rw [hhead]
  split at h
  case isTrue hquote =>
    have hbackslash : c ≠ '\\' := by
      rintro rfl
      contradiction
    rw [if_pos hquote]
    exact string_replace hbackslash h index' tail'
  case isFalse hquote =>
    rw [if_neg hquote]
    split at h
    case isTrue hnumber =>
      rw [if_pos hnumber]
      exact number_replace ha (beginsNumber_iff.mp hnumber) h index' tail'
    case isFalse hnumber =>
      rw [if_neg hnumber]
      split at h
      case h_1 sign hsign =>
        simp only [Except.ok.injEq, Prod.mk.injEq] at h
        obtain ⟨rfl, hfront⟩ := h
        rw [List.append_cancel_right hfront]
      case h_2 hsign => exact word_replace h index' tail'

/-- A lexeme does not depend on its place. -/
theorem lexeme_at {index : Nat} {c : Char} {rest : List Char} {found : Lexeme}
    (h : lexeme options index c rest = .ok (found, left)) (index' : Nat) :
    lexeme options index' c rest = .ok (found, left) := by
  unfold lexeme at h ⊢
  split at h
  case isTrue hquote =>
    rw [if_pos hquote]
    simpa only [List.append_nil] using string_append h index' []
  case isFalse hquote =>
    rw [if_neg hquote]
    split at h
    case isTrue hnumber =>
      rw [if_pos hnumber]
      rw [number_eq] at h ⊢
      simp only [bind_eq_ok, Prod.exists, pure_eq_ok] at h ⊢
      obtain ⟨exponent, more, hexponent, h⟩ := h
      have hread := exponentPart_append_of_halts halts_nil hexponent
      simp only [List.append_nil] at hread
      exact ⟨exponent, more, hread _, h⟩
    case isFalse hnumber =>
      rw [if_neg hnumber]
      split at h
      case h_1 sign hsign => exact h
      case h_2 hsign =>
        unfold word at h ⊢
        split at h
        case isTrue hbegins => rwa [if_pos hbegins]
        case isFalse hbegins =>
          rw [if_neg hbegins]
          split at h
          case h_1 => exact h
          case h_2 => cases h

/-- A name is read up to where the characters that continue it end. -/
theorem lexeme_identifier {index : Nat} {c : Char} {rest : List Char} {name : String}
    (h : lexeme options index c rest = .ok (.identifier name, left)) :
    ∃ more, name.toList = c :: more ∧ rest = more ++ left ∧
      (∀ d after, left = d :: after → options.continuesIdentifier d = false) ∧
      ∀ index' left', (∀ d after, left' = d :: after → options.continuesIdentifier d = false) →
        lexeme options index' c (more ++ left') = .ok (.identifier name, left') := by
  unfold lexeme at h
  split at h
  case isTrue hquote =>
    simp only [string, bind_eq_ok, Prod.exists, pure_eq_ok] at h
    obtain ⟨value, more, -, h⟩ := h
    cases h
  case isFalse hquote =>
    split at h
    case isTrue hnumber =>
      rw [number_eq] at h
      simp only [bind_eq_ok, Prod.exists, pure_eq_ok] at h
      obtain ⟨exponent, more, -, h⟩ := h
      cases h
    case isFalse hnumber =>
      split at h
      case h_1 sign hsign => cases h
      case h_2 hsign =>
        have hpoint : c ≠ '.' := by
          rintro rfl
          contradiction
        unfold word at h
        split at h
        case isTrue hbegins =>
          have hsplit : rest.takeWhile options.continuesIdentifier ++
              rest.dropWhile options.continuesIdentifier = rest := List.takeWhile_append_dropWhile
          have htaken : ∀ d ∈ rest.takeWhile options.continuesIdentifier,
              options.continuesIdentifier d = true := List.all_eq_true.mp List.all_takeWhile
          have hhead := List.head?_dropWhile_not options.continuesIdentifier rest
          cases h
          refine ⟨_, String.toList_ofList, hsplit.symm, fun d after hleft => ?_,
            fun index' left' hends => ?_⟩
          · rw [hleft] at hhead
            simpa using hhead
          · simp only [Bool.or_eq_true, not_or, Bool.not_eq_true] at hnumber
            simp [lexeme, hquote, hnumber.1, hpoint, hsign, word, hbegins,
              takeWhile_append_of_ends htaken hends, dropWhile_append_of_ends htaken hends]
        case isFalse hbegins =>
          split at h
          case h_1 => cases h
          case h_2 => cases h

end Lexer

/-- The tokens of the characters from a place on are found without an error. -/
inductive Reads (options : Options) : Nat → List Char → List Token → Prop
  | blank {index : Nat} {space : List Char} (hspace : ∀ c ∈ space, Text.isWhiteSpace c = true) :
      Reads options index space []
  | token {index : Nat} {space rest left : List Char} {c : Char} {word : Lexeme}
      {tokens : List Token} (hspace : ∀ c ∈ space, Text.isWhiteSpace c = true)
      (hfirst : Text.isWhiteSpace c = false)
      (hword : Lexer.lexeme options (index + space.length) c rest = .ok (word, left))
      (hleft : Reads options (index + space.length + word.text.length) left tokens) :
      Reads options index (space ++ c :: rest) (⟨word, index + space.length⟩ :: tokens)

namespace Reads

/-- What is found is what the lexer finds with any budget that is large enough. -/
theorem iff_tokensFrom {budget index : Nat} {chars : List Char} {tokens : List Token}
    (hbudget : chars.length < budget) :
    Reads options index chars tokens ↔
      Lexer.tokensFrom options budget index chars = (tokens, none) := by
  constructor
  · intro h
    induction h generalizing budget with
    | @blank index space hspace =>
      obtain ⟨budget, rfl⟩ := Nat.exists_eq_add_one.mpr (Nat.zero_lt_of_lt hbudget)
      have hnone : (space ++ []).dropWhile Text.isWhiteSpace = [] :=
        dropWhile_append_of_ends hspace nofun
      rw [List.append_nil] at hnone
      simp only [Lexer.tokensFrom, hnone]
    | @token index space rest left c word tokens hspace hfirst hword _ ih =>
      obtain ⟨budget, rfl⟩ := Nat.exists_eq_add_one.mpr (Nat.zero_lt_of_lt hbudget)
      have hends : ∀ d more, c :: rest = d :: more → Text.isWhiteSpace d = false := by
        rintro d more ⟨⟩
        exact hfirst
      have hshorter := Lexer.length_lt_of_lexeme hword
      rw [List.length_append, List.length_cons] at hbudget
      have hrest := @ih budget (by omega)
      simp only [Lexer.tokensFrom, takeWhile_append_of_ends hspace hends,
        dropWhile_append_of_ends hspace hends, hword, hrest]
  · intro h
    induction budget generalizing index chars tokens with
    | zero => exact absurd hbudget (Nat.not_lt_zero _)
    | succ budget ih =>
      have hsplit : chars.takeWhile Text.isWhiteSpace ++ chars.dropWhile Text.isWhiteSpace = chars :=
        List.takeWhile_append_dropWhile
      have hspace : ∀ c ∈ chars.takeWhile Text.isWhiteSpace, Text.isWhiteSpace c = true :=
        List.all_eq_true.mp List.all_takeWhile
      have hfirst := List.head?_dropWhile_not Text.isWhiteSpace chars
      simp only [Lexer.tokensFrom] at h
      generalize chars.takeWhile Text.isWhiteSpace = space at *
      generalize chars.dropWhile Text.isWhiteSpace = rest at *
      subst hsplit
      rcases rest with _ | ⟨c, rest⟩
      · cases h
        rw [List.append_nil]
        exact .blank hspace
      dsimp only at h
      rcases hword : Lexer.lexeme options (index + space.length) c rest with error | ⟨word, left⟩
      · rw [hword] at h
        cases h
      rw [hword] at h
      dsimp only at h
      rcases hleft : Lexer.tokensFrom options budget (index + space.length + word.text.length) left with
        ⟨others, error⟩
      rw [hleft] at h
      cases h
      have hshorter := Lexer.length_lt_of_lexeme hword
      rw [List.length_append, List.length_cons] at hbudget
      exact .token hspace (by simpa using hfirst) hword (ih (by omega) hleft)

/-- At another place the same lexemes are found. -/
theorem exists_at {index : Nat} {chars : List Char} {tokens : List Token}
    (h : Reads options index chars tokens) (index' : Nat) :
    ∃ tokens', Reads options index' chars tokens' ∧
      tokens'.map Token.lexeme = tokens.map Token.lexeme := by
  induction h generalizing index' with
  | blank hspace => exact ⟨[], .blank hspace, rfl⟩
  | @token index space rest left c word tokens hspace hfirst hword _ ih =>
    obtain ⟨tokens', hleft, hsame⟩ := ih (index' + space.length + word.text.length)
    refine ⟨_, .token hspace hfirst (Lexer.lexeme_at hword _) hleft, ?_⟩
    rw [List.map_cons, List.map_cons, hsame]

/-- What comes after a comma or an opening brace can be replaced. -/
theorem split_separator {sign : Symbol} (hsign : sign = .comma ∨ sign = .openBrace) {index place : Nat}
    {chars : List Char} {before after : List Token}
    (h : Reads options index chars (before ++ ⟨.symbol sign, place⟩ :: after)) :
    ∃ a front tail, IsSeparator a ∧ chars = front ++ a :: tail ∧ place = index + front.length ∧
      Reads options (place + 1) tail after ∧
      ∀ tail' after', Reads options (place + 1) tail' after' →
        Reads options index (front ++ a :: tail') (before ++ ⟨.symbol sign, place⟩ :: after') := by
  have hspelled : ∃ a, IsSeparator a ∧ sign.text.toList = [a] ∧ Text.isWhiteSpace a = false ∧
      ∀ index rest, Lexer.lexeme options index a rest = .ok (.symbol sign, rest) := by
    rcases hsign with rfl | rfl
    · exact ⟨',', .inl rfl, rfl, by decide, fun _ _ => rfl⟩
    · exact ⟨'\x7b', .inr rfl, rfl, by decide, fun _ _ => rfl⟩
  obtain ⟨a, ha, htext, hblank, hread⟩ := hspelled
  have hlength : (Lexeme.symbol sign).text.length = 1 := by
    rw [← String.length_toList, Lexeme.text, htext]
    rfl
  generalize htokens : before ++ ⟨.symbol sign, place⟩ :: after = tokens at h
  induction h generalizing before with
  | blank => simp at htokens
  | @token index space rest left c word tokens hspace hfirst hword hleft ih =>
    have hchars := Lexer.spells_lexeme options (index + space.length) c rest
    rw [hword] at hchars
    obtain ⟨hne, hchars⟩ := hchars
    rcases before with _ | ⟨first, before⟩
    · cases htokens
      rw [Lexeme.text, htext] at hchars
      obtain ⟨rfl, rfl⟩ : c = a ∧ rest = left := List.cons.inj hchars
      rw [hlength] at hleft
      refine ⟨c, space, rest, ha, rfl, rfl, hleft, fun tail' after' hafter => ?_⟩
      exact .token hspace hblank (hread _ _) (by rwa [hlength])
    · cases htokens
      obtain ⟨a', front, tail, ha', rfl, hplace, hafter, hreplace⟩ := ih rfl
      obtain ⟨c', text, hword'⟩ := List.exists_cons_of_ne_nil hne
      rw [hword', List.cons_append] at hchars
      obtain ⟨rfl, hrest⟩ := List.cons.inj hchars
      rw [← List.append_assoc] at hrest
      subst hrest
      have hsize : word.text.length = text.length + 1 := by
        rw [← String.length_toList, hword', List.length_cons]
      refine ⟨a', space ++ c :: (text ++ front), tail, ha', by simp, ?_, hafter,
        fun tail' after' hafter' => ?_⟩
      · simp only [List.length_append, List.length_cons]
        omega
      · rw [List.append_assoc, List.cons_append]
        exact .token hspace hfirst (Lexer.lexeme_replace ha' hword _ tail') (hreplace tail' after' hafter')

end Reads

end TemplateExpr
