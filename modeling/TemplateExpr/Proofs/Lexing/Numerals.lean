import Mathlib.Data.List.TakeDrop
import TemplateExpr.Proofs.Lexing.Quotes
import TemplateExpr.Proofs.Number.Closest

/-!
# Number constants

A number constant is a mantissa and an optional exponent, each as long as it can be. What the text
denotes is stated here apart from the reader: a row of digits that is in range is an integer, and any
other text is the double closest to the number that it spells. The one thing that can be wrong with a
number is the mark of an exponent without digits after it.
-/

namespace TemplateExpr

/-- Every character is a digit. -/
def AllDigits (digits : List Char) : Prop := ∀ c ∈ digits, c.isDigit = true

/-- The characters do not begin with a digit. -/
def NoDigit (chars : List Char) : Prop := ∀ c more, chars = c :: more → c.isDigit = false

/-- Digits, and maybe a point and more digits. There is a digit on one side of the point at least. -/
structure Mantissa where
  whole : List Char
  fraction : Option (List Char)
  whole_digits : AllDigits whole
  fraction_digits : ∀ digits ∈ fraction, AllDigits digits
  ne_nil : whole ≠ [] ∨ ∃ digits ∈ fraction, digits ≠ []

/-- The mark of an exponent, maybe a sign, and digits. -/
structure Exponent where
  mark : Char
  sign : Option Char
  digits : List Char
  mark_eq : mark = 'e' ∨ mark = 'E'
  sign_eq : ∀ c ∈ sign, c = '+' ∨ c = '-'
  digits_ne_nil : digits ≠ []
  all_digits : AllDigits digits

/-- The text of a number constant in its parts. -/
structure NumberText where
  mantissa : Mantissa
  exponent : Option Exponent

/-- A number begins with a digit or with a point and a digit. -/
def BeginsNumber (c : Char) (rest : List Char) : Prop :=
  c.isDigit = true ∨ c = '.' ∧ ∃ d more, rest = d :: more ∧ d.isDigit = true

/-- How the reader finds out whether a number begins. -/
theorem beginsNumber_iff {c : Char} {rest : List Char} :
    (c.isDigit || (decide (c = '.') && rest.head?.any Char.isDigit)) = true ↔ BeginsNumber c rest := by
  rcases rest with _ | ⟨d, more⟩ <;> simp [BeginsNumber]

/-- A row of digits is taken as far as it goes. -/
theorem allDigits_takeWhile (chars : List Char) : AllDigits (chars.takeWhile Char.isDigit) :=
  List.all_eq_true.mp List.all_takeWhile

/-- No digit comes after a row of digits. -/
theorem noDigit_dropWhile (chars : List Char) : NoDigit (chars.dropWhile Char.isDigit) := by
  intro c more hmore
  have hhead := List.head?_dropWhile_not Char.isDigit chars
  rw [hmore] at hhead
  simpa using hhead

namespace Mantissa

/-- The point and the digits after it. -/
def fractionText (m : Mantissa) : List Char := m.fraction.elim [] ('.' :: ·)

/-- The text of a mantissa. -/
def text (m : Mantissa) : List Char := m.whole ++ m.fractionText

/-- The number that a mantissa spells. -/
def number (m : Mantissa) : ℚ :=
  Nat.ofDigitChars 10 m.whole 0 +
    Nat.ofDigitChars 10 (m.fraction.getD []) 0 / 10 ^ (m.fraction.getD []).length

/-- A mantissa is not longer: no digit comes after it, and a point that comes after its whole digits
belongs to it exactly if it continues a number. -/
structure Ends (options : Options) (m : Mantissa) (after : List Char) : Prop where
  noDigit : NoDigit after
  noPoint : m.fraction = none → ∀ more, after = '.' :: more →
    Lexer.pointContinues options more = false
  point : m.whole ≠ [] → ∀ digits ∈ m.fraction,
    Lexer.pointContinues options (digits ++ after) = true

end Mantissa

namespace Exponent

/-- The text of an exponent. -/
def text (e : Exponent) : List Char := e.mark :: (e.sign.toList ++ e.digits)

/-- The number that an exponent spells. -/
def number (e : Exponent) : ℤ :=
  if e.sign = some '-' then -(Nat.ofDigitChars 10 e.digits 0 : ℤ) else Nat.ofDigitChars 10 e.digits 0

/-- What comes after its mark makes an exponent: a digit, or a sign and a digit. -/
def Follows (after : List Char) : Prop :=
  ∃ sign digit more, after = sign ++ digit :: more ∧ (sign = [] ∨ sign = ['+'] ∨ sign = ['-']) ∧
    digit.isDigit = true

end Exponent

namespace NumberText

/-- The text of the exponent, if there is one. -/
def exponentText (t : NumberText) : List Char := t.exponent.elim [] Exponent.text

/-- The text of a number constant. -/
def text (t : NumberText) : List Char := t.mantissa.text ++ t.exponentText

/-- The number that the text spells. -/
def number (t : NumberText) : ℚ := t.mantissa.number * 10 ^ t.exponent.elim 0 Exponent.number

/-- The text is not longer. -/
structure Ends (options : Options) (t : NumberText) (after : List Char) : Prop where
  mantissa : t.mantissa.Ends options (t.exponentText ++ after)
  noMark : t.exponent = none → ∀ c more, after = c :: more → c ≠ 'e' ∧ c ≠ 'E'
  noDigit : t.exponent ≠ none → NoDigit after

/-- What the text denotes: an integer if it is a row of digits in range, and otherwise the double that
is closest to the number. The text is then one that can be read as a double. -/
inductive Denotes (t : NumberText) : Literal → Prop
  | integer {n : Int64} (hfraction : t.mantissa.fraction = none) (hexponent : t.exponent = none)
      (hvalue : n.toInt = Nat.ofDigitChars 10 t.mantissa.whole 0) : Denotes t (.integer n)
  | float {m : Magnitude}
      (hlarge : t.mantissa.fraction = none → t.exponent = none →
        2 ^ 63 - 1 < Nat.ofDigitChars 10 t.mantissa.whole 0)
      (hread : (Numeral.ofText? t.text).map Numeral.toBinary64 = some (.signed false m))
      (hclosest : m.IsClosest t.number) : Denotes t (.float (.signed false m))

end NumberText

/-- What the characters of a number at `index` denote. -/
inductive LexesNumber (options : Options) (index : Nat) (chars : List Char) : Lexer.Report → Prop
  | number (t : NumberText) {rest : List Char} {value : Literal} (hchars : chars = t.text ++ rest)
      (hends : t.Ends options rest) (hvalue : t.Denotes value) :
      LexesNumber options index chars (.ok (.constant (String.ofList t.text) value, rest))
  | invalidExponent (m : Mantissa) {mark : Char} {rest : List Char}
      (hchars : chars = m.text ++ mark :: rest) (hmark : mark = 'e' ∨ mark = 'E')
      (hends : m.Ends options (mark :: rest)) (hinvalid : ¬Exponent.Follows rest) :
      LexesNumber options index chars (.error ("Invalid exponent", index + m.text.length))

namespace Mantissa

variable {options : Options}

/-- Before what ends a mantissa its whole digits end too. -/
theorem noDigit_fractionText_append {m : Mantissa} {after : List Char} (h : NoDigit after) :
    NoDigit (m.fractionText ++ after) := by
  intro c more hmore
  unfold fractionText at hmore
  cases hfraction : m.fraction with
  | none =>
    rw [hfraction] at hmore
    exact h c more hmore
  | some digits =>
    rw [hfraction] at hmore
    cases hmore
    rfl

/-- The fraction of a mantissa is taken as far as it goes. -/
theorem fractionPart_eq {m : Mantissa} {after : List Char} (h : m.Ends options after) :
    Lexer.fractionPart options (m.fractionText ++ after) = (m.fractionText, after) := by
  unfold fractionText
  cases hfraction : m.fraction with
  | none =>
    rw [Option.elim_none, List.nil_append]
    rcases after with _ | ⟨c, more⟩
    · rfl
    · by_cases hpoint : c = '.'
      · subst hpoint
        simp [Lexer.fractionPart, h.noPoint hfraction more rfl]
      · simp [Lexer.fractionPart, hpoint]
  | some digits =>
    have hdigits := m.fraction_digits digits hfraction
    have hcontinues : Lexer.pointContinues options (digits ++ after) = true := by
      by_cases hwhole : m.whole = []
      · obtain ⟨digits', hdigits', hne⟩ := m.ne_nil.resolve_left (not_not_intro hwhole)
        obtain rfl : digits = digits' := Option.some.inj (hfraction.symm.trans hdigits')
        obtain ⟨c, more, rfl⟩ := List.exists_cons_of_ne_nil hne
        simp [Lexer.pointContinues, hdigits c List.mem_cons_self]
      · exact h.point hwhole digits hfraction
    simp only [Option.elim_some, List.cons_append, Lexer.fractionPart, hcontinues, if_true,
      takeWhile_append_of_ends hdigits h.noDigit, dropWhile_append_of_ends hdigits h.noDigit]

/-- A mantissa is taken as far as it goes, and then an exponent. -/
theorem number_eq {m : Mantissa} {after : List Char} (h : m.Ends options after) (index : Nat) :
    Lexer.number options index (m.text ++ after) = (do
      let (exponent, rest) ← Lexer.exponentPart (index + m.text.length) after
      return (.constant (String.ofList (m.text ++ exponent))
        (Lexer.numberValue m.whole m.fractionText exponent), rest)) := by
  have hends := m.noDigit_fractionText_append h.noDigit
  have hlength : index + m.whole.length + m.fractionText.length = index + m.text.length := by
    rw [text, List.length_append, Nat.add_assoc]
  rw [text, List.append_assoc, Lexer.number_eq, takeWhile_append_of_ends m.whole_digits hends,
    dropWhile_append_of_ends m.whole_digits hends, fractionPart_eq h]
  dsimp only
  rw [hlength, text]

/-- Characters that begin as a number does begin with a mantissa. -/
theorem exists_mantissa (options : Options) {c : Char} {rest : List Char}
    (h : BeginsNumber c rest) :
    ∃ (m : Mantissa) (after : List Char), c :: rest = m.text ++ after ∧ m.Ends options after := by
  have hsplit : (c :: rest).takeWhile Char.isDigit ++ (c :: rest).dropWhile Char.isDigit =
      c :: rest := List.takeWhile_append_dropWhile
  have hwhole := allDigits_takeWhile (c :: rest)
  have hleft := noDigit_dropWhile (c :: rest)
  by_cases hpoint : ∃ after, (c :: rest).dropWhile Char.isDigit = '.' :: after ∧
      Lexer.pointContinues options after = true
  · obtain ⟨after, hafter, hcontinues⟩ := hpoint
    have hdigits : after.takeWhile Char.isDigit ++ after.dropWhile Char.isDigit = after :=
      List.takeWhile_append_dropWhile
    refine ⟨⟨(c :: rest).takeWhile Char.isDigit, some (after.takeWhile Char.isDigit), hwhole, ?_, ?_⟩,
      after.dropWhile Char.isDigit, ?_, ?_, nofun, ?_⟩
    · rintro _ ⟨⟩
      exact allDigits_takeWhile after
    · rcases h with hdigit | ⟨rfl, d, more, rfl, hdigit⟩
      · exact .inl (by simp [hdigit])
      · obtain rfl : d :: more = after := by
          have hnone : Char.isDigit '.' = false := rfl
          rw [List.dropWhile_cons_of_neg (by simp [hnone])] at hafter
          exact List.tail_eq_of_cons_eq hafter
        exact .inr ⟨_, rfl, by simp [hdigit]⟩
    · simp only [text, fractionText, Option.elim_some, List.append_assoc, List.cons_append, hdigits]
      rw [← hafter, hsplit]
    · exact noDigit_dropWhile after
    · rintro - _ ⟨⟩
      rw [hdigits]
      exact hcontinues
  · refine ⟨⟨(c :: rest).takeWhile Char.isDigit, none, hwhole, nofun, .inl ?_⟩,
      (c :: rest).dropWhile Char.isDigit, ?_, hleft, ?_, fun _ => nofun⟩
    · rcases h with hdigit | ⟨rfl, d, more, rfl, hdigit⟩
      · simp [hdigit]
      · exact absurd ⟨d :: more, rfl, by simp [Lexer.pointContinues, hdigit]⟩ hpoint
    · simp only [text, fractionText, Option.elim_none, List.append_nil, hsplit]
    · intro _ more hmore
      rw [← Bool.not_eq_true]
      exact fun hcontinues => hpoint ⟨more, hmore, hcontinues⟩

end Mantissa

/-- The mark of an exponent and what follows it are an exponent. -/
theorem Exponent.exists_exponent {mark : Char} {after : List Char} (hmark : mark = 'e' ∨ mark = 'E')
    (h : Follows after) :
    ∃ (e : Exponent) (rest : List Char), mark :: after = e.text ++ rest ∧ NoDigit rest := by
  obtain ⟨sign, digit, more, rfl, hsign, hdigit⟩ := h
  have hdigits : (digit :: more).takeWhile Char.isDigit ++ (digit :: more).dropWhile Char.isDigit =
      digit :: more := List.takeWhile_append_dropWhile
  have hoption : ∃ option : Option Char, option.toList = sign ∧ ∀ c ∈ option, c = '+' ∨ c = '-' := by
    rcases hsign with rfl | rfl | rfl
    · exact ⟨none, rfl, nofun⟩
    · exact ⟨some '+', rfl, by simp⟩
    · exact ⟨some '-', rfl, by simp⟩
  obtain ⟨option, rfl, hmem⟩ := hoption
  refine ⟨⟨mark, option, (digit :: more).takeWhile Char.isDigit, hmark, hmem, by simp [hdigit],
    allDigits_takeWhile _⟩, (digit :: more).dropWhile Char.isDigit, ?_, noDigit_dropWhile _⟩
  rw [text, List.cons_append, List.append_assoc, hdigits]

/-- What begins with no sign is read without one. -/
theorem Numeral.splitSign_of_ne {chars : List Char}
    (h : ∀ c more, chars = c :: more → c ≠ '+' ∧ c ≠ '-') : splitSign chars = (false, chars) := by
  rcases chars with _ | ⟨c, more⟩
  · rfl
  · obtain ⟨hplus, hminus⟩ := h c more rfl
    simp [splitSign, hplus, hminus]

/-- A digit is no sign. -/
theorem ne_sign_of_isDigit {c : Char} (h : c.isDigit = true) : c ≠ '+' ∧ c ≠ '-' := by
  constructor <;> rintro rfl <;> contradiction

/-- The text of an exponent is read as the number that it spells. -/
theorem Exponent.exponent?_text (e : Exponent) : Numeral.exponent? e.text = some e.number := by
  obtain ⟨mark, sign, digits, hmark, hsign, hne, hdigits⟩ := e
  have hall : digits.all Char.isDigit = true := List.all_eq_true.mpr hdigits
  have hvalue : decimalValue digits = Nat.ofDigitChars 10 digits 0 := rfl
  have hsplit : Numeral.splitSign (sign.toList ++ digits) = (decide (sign = some '-'), digits) := by
    cases sign with
    | none =>
      refine Numeral.splitSign_of_ne fun d more hmore => ?_
      obtain rfl : digits = d :: more := hmore
      exact ne_sign_of_isDigit (hdigits d List.mem_cons_self)
    | some c =>
      rcases hsign c rfl with rfl | rfl <;> simp [Numeral.splitSign]
  simp only [text, number, Numeral.exponent?, hsplit]
  simp [hmark, hne, hall, hvalue]

namespace NumberText

/-- An exponent begins with its mark. -/
theorem mark_exponentText (t : NumberText) (c : Char) (more : List Char)
    (h : t.exponentText = c :: more) : c = 'e' ∨ c = 'E' := by
  unfold exponentText at h
  cases hexponent : t.exponent with
  | none =>
    rw [hexponent] at h
    contradiction
  | some e =>
    rw [hexponent] at h
    cases h
    exact e.mark_eq

/-- An exponent begins with no digit. -/
theorem noDigit_exponentText (t : NumberText) : NoDigit t.exponentText := by
  intro c more hmore
  rcases t.mark_exponentText c more hmore with rfl | rfl <;> rfl

/-- An exponent begins with no point. -/
theorem ne_point_exponentText (t : NumberText) (c : Char) (more : List Char)
    (h : t.exponentText = c :: more) : c ≠ '.' := by
  rcases t.mark_exponentText c more h with rfl | rfl <;> decide

/-- The exponent of a number constant is read as the number that it spells. -/
theorem exponent?_exponentText (t : NumberText) :
    Numeral.exponent? t.exponentText = some (t.exponent.elim 0 Exponent.number) := by
  unfold exponentText
  cases t.exponent with
  | none => rfl
  | some e => exact e.exponent?_text

/-- The text of a number constant is a numeral with the same parts. -/
theorem ofText?_text (t : NumberText) :
    Numeral.ofText? t.text = some ⟨false, t.mantissa.whole, t.mantissa.fraction.getD [],
      t.exponent.elim 0 Exponent.number⟩ := by
  have hsign : Numeral.splitSign t.text = (false, t.text) := by
    refine Numeral.splitSign_of_ne fun c more hmore => ?_
    rw [text, Mantissa.text, List.append_assoc] at hmore
    rcases hwhole : t.mantissa.whole with _ | ⟨d, digits⟩
    · obtain ⟨digits, hdigits, -⟩ := t.mantissa.ne_nil.resolve_left (not_not_intro hwhole)
      rw [hwhole, Mantissa.fractionText, hdigits] at hmore
      cases hmore
      decide
    · rw [hwhole] at hmore
      cases hmore
      exact ne_sign_of_isDigit (t.mantissa.whole_digits _ (hwhole ▸ List.mem_cons_self))
  have hends := Mantissa.noDigit_fractionText_append (m := t.mantissa) t.noDigit_exponentText
  unfold Numeral.ofText?
  rw [hsign]
  simp only [text, Mantissa.text, List.append_assoc, List.span_eq_takeWhile_dropWhile,
    takeWhile_append_of_ends t.mantissa.whole_digits hends,
    dropWhile_append_of_ends t.mantissa.whole_digits hends]
  have hread := t.exponent?_exponentText
  cases hfraction : t.mantissa.fraction with
  | none =>
    have hwhole : t.mantissa.whole ≠ [] := t.mantissa.ne_nil.resolve_right (by simp [hfraction])
    have hpoint := t.ne_point_exponentText
    simp only [Mantissa.fractionText, hfraction, Option.elim_none, List.nil_append]
    generalize t.exponentText = tail at *
    rcases tail with _ | ⟨c, more⟩
    · simp [hwhole, hread]
    · simp [hwhole, hread, hpoint c more rfl]
  | some digits =>
    have hdigits := t.mantissa.fraction_digits digits hfraction
    have hne : t.mantissa.whole = [] → digits ≠ [] := by
      intro hwhole
      obtain ⟨digits', hdigits', hne⟩ := t.mantissa.ne_nil.resolve_left (not_not_intro hwhole)
      obtain rfl : digits = digits' := Option.some.inj (hfraction.symm.trans hdigits')
      exact hne
    simp only [Mantissa.fractionText, hfraction, Option.elim_some, List.cons_append,
      takeWhile_append_of_ends hdigits t.noDigit_exponentText,
      dropWhile_append_of_ends hdigits t.noDigit_exponentText]
    simpa [hread] using hne

/-- A text is read as an integer if it is a row of digits in range, and otherwise as a numeral. -/
theorem numberValue_eq (t : NumberText) :
    Lexer.numberValue t.mantissa.whole t.mantissa.fractionText t.exponentText =
      if t.mantissa.fraction = none ∧ t.exponent = none ∧
        Nat.ofDigitChars 10 t.mantissa.whole 0 ≤ 2 ^ 63 - 1
      then .integer (Int64.ofNat (Nat.ofDigitChars 10 t.mantissa.whole 0))
      else .float (Numeral.toBinary64 ⟨false, t.mantissa.whole, t.mantissa.fraction.getD [],
        t.exponent.elim 0 Exponent.number⟩) := by
  have hfraction : t.mantissa.fractionText = [] ↔ t.mantissa.fraction = none := by
    unfold Mantissa.fractionText
    cases t.mantissa.fraction <;> simp
  have hexponent : t.exponentText = [] ↔ t.exponent = none := by
    unfold exponentText
    cases t.exponent <;> simp [Exponent.text]
  have hdigits : t.mantissa.fractionText.drop 1 = t.mantissa.fraction.getD [] := by
    unfold Mantissa.fractionText
    cases t.mantissa.fraction <;> rfl
  have hvalue : decimalValue t.mantissa.whole = Nat.ofDigitChars 10 t.mantissa.whole 0 := rfl
  have hlimit (n : Nat) : n < 0x8000000000000000 ↔ n ≤ 2 ^ 63 - 1 := by omega
  simp only [Lexer.numberValue, hdigits, exponent?_exponentText, Option.getD_some, hvalue,
    Bool.and_eq_true, decide_eq_true_eq, hfraction, hexponent, hlimit, and_assoc]

/-- The double that is read is the one closest to the number that the text spells. -/
theorem toBinary64_isClosest (t : NumberText) :
    ∃ m : Magnitude, Numeral.toBinary64 ⟨false, t.mantissa.whole, t.mantissa.fraction.getD [],
      t.exponent.elim 0 Exponent.number⟩ = .signed false m ∧ m.IsClosest t.number := by
  obtain ⟨m, hread, hclosest⟩ := Binary64.ofDecimal_isClosest false
    (decimalValue (t.mantissa.whole ++ t.mantissa.fraction.getD []))
    (t.exponent.elim 0 Exponent.number - (t.mantissa.fraction.getD []).length)
  refine ⟨m, hread, ?_⟩
  have hdigits : decimalValue (t.mantissa.whole ++ t.mantissa.fraction.getD []) =
      10 ^ (t.mantissa.fraction.getD []).length * Nat.ofDigitChars 10 t.mantissa.whole 0 +
        Nat.ofDigitChars 10 (t.mantissa.fraction.getD []) 0 :=
    (Nat.ofDigitChars_append 0).trans Nat.ofDigitChars_eq_ofDigitChars_zero
  have hten : (10 : ℚ) ≠ 0 := by decide
  rw [hdigits, zpow_sub₀ hten, zpow_natCast] at hclosest
  have hnumber : t.number = _ := rfl
  rw [number, Mantissa.number]
  convert hclosest using 1
  push_cast
  field_simp

/-- The value that is read from the parts of a text is what the text denotes. -/
theorem denotes_iff {t : NumberText} {value : Literal} : t.Denotes value ↔
    Lexer.numberValue t.mantissa.whole t.mantissa.fractionText t.exponentText = value := by
  rw [numberValue_eq]
  obtain ⟨m, hread, hclosest⟩ := t.toBinary64_isClosest
  constructor
  · rintro (@⟨n, hfraction, hexponent, hvalue⟩ | @⟨m', hlarge, hread', hclosest'⟩)
    · have hlimit := n.toInt_lt
      have hsmall : Nat.ofDigitChars 10 t.mantissa.whole 0 < 2 ^ 63 := by omega
      rw [if_pos ⟨hfraction, hexponent, by omega⟩, Literal.integer.injEq, ← Int64.toInt_inj,
        Int64.toInt_ofNat_of_lt hsmall, hvalue]
    · rw [ofText?_text, Option.map_some, Option.some_inj] at hread'
      rw [if_neg, hread']
      rintro ⟨hfraction, hexponent, hsmall⟩
      exact Nat.not_le_of_lt (hlarge hfraction hexponent) hsmall
  · rintro rfl
    split
    case isTrue h =>
      obtain ⟨hfraction, hexponent, hsmall⟩ := h
      exact .integer hfraction hexponent (Int64.toInt_ofNat_of_lt (by omega))
    case isFalse h =>
      rw [hread]
      refine .float (fun hfraction hexponent => ?_) ?_ hclosest
      · exact Nat.lt_of_not_le fun hsmall => h ⟨hfraction, hexponent, hsmall⟩
      · rw [ofText?_text, Option.map_some, hread]

end NumberText

namespace Lexer

/-- An exponent is taken as far as it goes. -/
theorem exponentPart_eq {options : Options} {t : NumberText} {rest : List Char}
    (h : t.Ends options rest) (index : Nat) :
    exponentPart index (t.exponentText ++ rest) = .ok (t.exponentText, rest) := by
  unfold NumberText.exponentText
  cases hexponent : t.exponent with
  | none =>
    rcases rest with _ | ⟨c, more⟩
    · rfl
    · obtain ⟨hlower, hupper⟩ := h.noMark hexponent c more rfl
      simp [exponentPart, hlower, hupper]
  | some e =>
    have hends := h.noDigit (by simp [hexponent])
    obtain ⟨mark, sign, digits, hmark, hsign, hne, hdigits⟩ := e
    obtain ⟨d, more, rfl⟩ := List.exists_cons_of_ne_nil hne
    have hdigit := hdigits d List.mem_cons_self
    have htake := takeWhile_append_of_ends hdigits hends
    have hdrop := dropWhile_append_of_ends hdigits hends
    simp only [List.cons_append] at htake hdrop
    cases sign with
    | none => simp [Exponent.text, exponentPart, hmark, hdigit, htake, hdrop]
    | some c =>
      have hnone : c.isDigit = false := by
        rcases hsign c rfl with rfl | rfl <;> rfl
      have hplus : c = '+' ∨ c = '-' := hsign c rfl
      simp [Exponent.text, exponentPart, hmark, hnone, hplus, hdigit, htake, hdrop]

/-- The mark of an exponent that nothing follows is an error. -/
theorem exponentPart_invalid {mark : Char} {rest : List Char} (hmark : mark = 'e' ∨ mark = 'E')
    (hinvalid : ¬Exponent.Follows rest) (index : Nat) :
    exponentPart index (mark :: rest) = .error ⟨.invalidExponent, index⟩ := by
  rcases rest with _ | ⟨d, more⟩
  · simp [exponentPart, hmark]
  have hdigit : d.isDigit = false := by
    rw [← Bool.not_eq_true]
    exact fun hdigit => hinvalid ⟨[], d, more, rfl, .inl rfl, hdigit⟩
  have hsigned : (d = '+' ∨ d = '-') → more.head?.any Char.isDigit = false := by
    intro hsign
    rcases more with _ | ⟨digit, more⟩
    · rfl
    · rw [List.head?_cons, Option.any_some, ← Bool.not_eq_true]
      refine fun hdigit => hinvalid ⟨[d], digit, more, rfl, .inr ?_, hdigit⟩
      exact hsign.imp (congrArg (fun c => [c])) (congrArg (fun c => [c]))
  simp only [exponentPart, Bool.or_eq_true, decide_eq_true_eq, hmark, hdigit, if_true,
    Bool.false_eq_true, if_false]
  rw [if_neg]
  simp only [Bool.and_eq_true, Bool.or_eq_true, decide_eq_true_eq, not_and]
  intro hsign
  rw [hsigned hsign]
  decide

/-- What the characters of a number denote is read. -/
theorem report_number {options : Options} {index : Nat} {chars : List Char} {outcome : Report}
    (h : LexesNumber options index chars outcome) : (number options index chars).report = outcome := by
  cases h with
  | @number t rest value hchars hends hvalue =>
    rw [hchars, NumberText.text, List.append_assoc, Mantissa.number_eq hends.mantissa,
      exponentPart_eq hends]
    have hread := NumberText.denotes_iff.mp hvalue
    simp only [bind, Except.bind, pure, Except.pure, hread]
    rfl
  | @invalidExponent m mark rest hchars hmark hends hinvalid =>
    rw [hchars, Mantissa.number_eq hends, exponentPart_invalid hmark hinvalid]
    rfl

/-- Characters that begin as a number does denote something. -/
theorem exists_lexesNumber (options : Options) (index : Nat) {c : Char} {rest : List Char}
    (h : BeginsNumber c rest) :
    ∃ outcome, LexesNumber options index (c :: rest) outcome := by
  obtain ⟨m, after, hchars, hends⟩ := Mantissa.exists_mantissa options h
  have hnumber (t : NumberText) (left : List Char) (ht : c :: rest = t.text ++ left)
      (hends : t.Ends options left) : ∃ outcome, LexesNumber options index (c :: rest) outcome :=
    ⟨_, .number t ht hends (NumberText.denotes_iff.mpr rfl)⟩
  by_cases hmark : ∃ mark left, after = mark :: left ∧ (mark = 'e' ∨ mark = 'E')
  · obtain ⟨mark, left, rfl, hmark⟩ := hmark
    by_cases hfollows : Exponent.Follows left
    · obtain ⟨e, rest', htext, hdigits⟩ := Exponent.exists_exponent hmark hfollows
      refine hnumber ⟨m, some e⟩ rest' ?_ ⟨?_, nofun, fun _ => hdigits⟩
      · rw [hchars, htext, NumberText.text, List.append_assoc]
        rfl
      · rwa [NumberText.exponentText, Option.elim_some, ← htext]
    · exact ⟨_, .invalidExponent m hchars hmark hends hfollows⟩
  · refine hnumber ⟨m, none⟩ after ?_ ⟨hends, ?_, fun hne => absurd rfl hne⟩
    · rw [hchars, NumberText.text, NumberText.exponentText, Option.elim_none, List.append_nil]
    · intro _ mark left hleft
      constructor <;> rintro rfl <;> exact hmark ⟨_, _, hleft, by simp⟩

/-- Where a digit stands, or a point and a digit, the grammar of number constants says what is read,
and no error is possible but an exponent without digits. -/
theorem lexeme_number_iff (options : Options) (index : Nat) {c : Char} {rest : List Char}
    (h : BeginsNumber c rest) (outcome : Report) :
    (lexeme options index c rest).report = outcome ↔
      LexesNumber options index (c :: rest) outcome := by
  have hnumber : lexeme options index c rest = number options index (c :: rest) := by
    have hquote : ¬(c = '"' ∨ c = '\'') := by
      rintro (rfl | rfl) <;> rcases h with h | ⟨h, -⟩ <;> contradiction
    rw [lexeme, if_neg (by simpa using hquote), if_pos (beginsNumber_iff.mpr h)]
  rw [hnumber]
  constructor
  · rintro rfl
    obtain ⟨outcome, hlexes⟩ := exists_lexesNumber options index h
    rwa [report_number hlexes]
  · exact report_number

/-- A point before a name is no part of the number before it, and an exponent needs digits. -/
theorem lexesNumber_member :
    LexesNumber {} 0 "12.name".toList (.ok (.constant "12" (.integer 12), ".name".toList)) ∧
      LexesNumber {} 4 "1.5e+".toList (.error ("Invalid exponent", 7)) :=
  ⟨(lexeme_number_iff {} 0 (.inl rfl) _).mp rfl, (lexeme_number_iff {} 4 (.inl rfl) _).mp rfl⟩

end Lexer

end TemplateExpr
