import Mathlib.Data.List.Forall2
import Mathlib.Data.Nat.Digits.Defs
import Mathlib.Tactic.Ring
import TemplateExpr.Error
import TemplateExpr.Proofs.Lexing.Seam

/-!
# String constants

A string constant is a quote, items that each stand for one character, and the same quote. What its
text denotes is stated here apart from the reader: the items are decoded by tables, and what comes
after the last item says whether the constant is closed, has an escape that names no character or is
not closed at all.

The reader agrees with these rules but for one kind of escape. It takes the digits after `\u` as a
number that may have a sign, so `\u+041` is the letter `A` to it and not an invalid escape.
-/

namespace TemplateExpr

namespace Text

/-- A hexadecimal digit of either case and its value. -/
def IsHexDigit (digit : Char) (value : Nat) : Prop :=
  "0123456789abcdef".toList[value]? = some digit ∨ "0123456789ABCDEF".toList[value]? = some digit

/-- Hexadecimal digits are among the first characters, and their values are below sixteen. -/
theorem IsHexDigit.bounds {c : Char} {value : Nat} (h : IsHexDigit c value) :
    c.toNat < 128 ∧ value < 16 := by
  have hlower : ("0123456789abcdef".toList.all (·.toNat < 128)) = true := by decide
  have hupper : ("0123456789ABCDEF".toList.all (·.toNat < 128)) = true := by decide
  simp only [List.all_eq_true, decide_eq_true_eq] at hlower hupper
  rcases h with h | h
  · exact ⟨hlower c (List.mem_of_getElem? h), (List.getElem?_eq_some_iff.mp h).1⟩
  · exact ⟨hupper c (List.mem_of_getElem? h), (List.getElem?_eq_some_iff.mp h).1⟩

/-- What the reader takes for a hexadecimal digit is in the same bounds. -/
theorem bounds_of_hexDigit? {c : Char} {value : Nat} (h : hexDigit? c = some value) :
    c.toNat < 128 ∧ value < 16 := by
  have hle (a b : Char) : a ≤ b ↔ a.toNat ≤ b.toNat := by
    rw [Char.le_def, UInt32.le_iff_toNat_le]
    rfl
  simp only [hexDigit?, Bool.and_eq_true, decide_eq_true_eq, hle, Char.reduceToNat] at h
  split at h
  · cases h
    omega
  · split at h
    · cases h
      omega
    · obtain ⟨hrange, h⟩ := Option.ite_none_right_eq_some.mp h
      cases h
      omega

/-- The reader knows the hexadecimal digits. -/
theorem hexDigit?_eq_some_iff {c : Char} {value : Nat} :
    hexDigit? c = some value ↔ IsHexDigit c value := by
  have hall : ∀ code < 128, ∀ value < 16, hexDigit? (Char.ofNat code) = some value ↔
      "0123456789abcdef".toList[value]? = some (Char.ofNat code) ∨
        "0123456789ABCDEF".toList[value]? = some (Char.ofNat code) := by
    decide +kernel
  constructor
  · intro h
    obtain ⟨hcode, hvalue⟩ := bounds_of_hexDigit? h
    rw [← Char.ofNat_toNat c] at h ⊢
    exact (hall _ hcode _ hvalue).mp h
  · intro h
    obtain ⟨hcode, hvalue⟩ := h.bounds
    rw [← Char.ofNat_toNat c] at h ⊢
    exact (hall _ hcode _ hvalue).mpr h

/-- The reader takes hexadecimal digits for the number that they spell. -/
theorem hexValue?_eq_some_iff {start code : Nat} {digits : List Char} :
    hexValue? start digits = some code ↔ ∃ values, List.Forall₂ IsHexDigit digits values ∧
      start * 16 ^ digits.length + Nat.ofDigits 16 values.reverse = code := by
  induction digits generalizing start with
  | nil => simp [hexValue?, List.forall₂_nil_left_iff]
  | cons digit digits ih =>
    simp only [hexValue?, Option.bind_eq_some_iff, hexDigit?_eq_some_iff, ih,
      List.forall₂_cons_left_iff]
    constructor
    · rintro ⟨value, hdigit, values, hdigits, rfl⟩
      refine ⟨value :: values, ⟨value, values, hdigit, hdigits, rfl⟩, ?_⟩
      rw [List.reverse_cons, Nat.ofDigits_append, List.length_reverse, ← hdigits.length_eq,
        Nat.ofDigits_singleton, List.length_cons, Nat.pow_succ]
      ring
    · rintro ⟨_, ⟨value, values, hdigit, hdigits, rfl⟩, rfl⟩
      refine ⟨value, hdigit, values, hdigits, ?_⟩
      rw [List.reverse_cons, Nat.ofDigits_append, List.length_reverse, ← hdigits.length_eq,
        Nat.ofDigits_singleton, List.length_cons, Nat.pow_succ]
      ring

end Text

namespace Lexer

open Text

/-- The letters that stand for control characters after a backslash. -/
def controlEscapes : List (Char × Char) :=
  [('n', '\x0a'), ('f', '\x0c'), ('r', '\x0d'), ('t', '\x09'), ('v', '\x0b')]

/-- Hexadecimal digits name the character with the number that they spell. -/
def NamesScalar (digits : List Char) (c : Char) : Prop :=
  ∃ values, List.Forall₂ IsHexDigit digits values ∧ Nat.ofDigits 16 values.reverse = c.toNat

/-- The items of a string constant and the characters that they stand for. What the characters after
`\u` name is left open. -/
inductive Items (names : List Char → Char → Prop) (quote : Char) : List Char → List Char → Prop
  | none : Items names quote [] []
  | plain {c : Char} {text value : List Char} (hquote : c ≠ quote) (hescape : c ≠ '\\')
      (hrest : Items names quote text value) : Items names quote (c :: text) (c :: value)
  | control {letter c : Char} {text value : List Char} (hletter : (letter, c) ∈ controlEscapes)
      (hrest : Items names quote text value) :
      Items names quote ('\\' :: letter :: text) (c :: value)
  | other {c : Char} {text value : List Char} (hletter : c ≠ 'u')
      (hcontrol : ∀ d, (c, d) ∉ controlEscapes) (hrest : Items names quote text value) :
      Items names quote ('\\' :: c :: text) (c :: value)
  | unicode {digits text value : List Char} {c : Char} (hlength : digits.length = 4)
      (hdigits : names digits c) (hrest : Items names quote text value) :
      Items names quote ('\\' :: 'u' :: (digits ++ text)) (c :: value)

/-- A lexeme and the characters after it, or what is wrong in words and where. -/
abbrev Report := Except (String × Nat) (Lexeme × List Char)

/-- A step with its error in words. -/
def Step.report (step : Step) : Report :=
  step.mapError fun error => (error.fault.message, error.index)

/-- What a quote at `index` and the characters after it denote. -/
inductive Decodes (names : List Char → Char → Prop) (quote : Char) (index : Nat)
    (chars : List Char) : Report → Prop
  | closed {text value rest : List Char} (hitems : Items names quote text value)
      (hchars : chars = text ++ quote :: rest) :
      Decodes names quote index chars
        (.ok (.constant (String.ofList (quote :: (text ++ [quote]))) (.string (String.ofList value)), rest))
  | invalidEscape {text value rest : List Char} (hitems : Items names quote text value)
      (hchars : chars = text ++ '\\' :: 'u' :: rest)
      (hinvalid : ¬((rest.take 4).length = 4 ∧ ∃ c, names (rest.take 4) c)) :
      Decodes names quote index chars
        (.error ("Invalid unicode escape [\\u" ++ String.ofList (rest.take 4) ++ "]",
          index + 1 + text.length))
  | unterminated {text value : List Char} (hitems : Items names quote text value)
      (hchars : chars = text ∨ chars = text ++ ['\\']) :
      Decodes names quote index chars (.error ("Unterminated quote", index))

/-- An escape with a plus sign and three hexadecimal digits comes before the string is closed. -/
def SignedEscape (quote : Char) (chars : List Char) : Prop :=
  ∃ text value digits rest, Items NamesScalar quote text value ∧ digits.length = 3 ∧
    (∀ digit ∈ digits, ∃ n, IsHexDigit digit n) ∧
    chars = text ++ '\\' :: 'u' :: '+' :: (digits ++ rest)

/-- A sign is no digit. -/
theorem not_namesScalar_plus (digits : List Char) (c : Char) : ¬NamesScalar ('+' :: digits) c := by
  rintro ⟨_, hdigits, -⟩
  obtain ⟨value, _, hplus, -, -⟩ := List.forall₂_cons_left_iff.mp hdigits
  have hnone : hexDigit? '+' = none := by decide
  rw [← hexDigit?_eq_some_iff, hnone] at hplus
  contradiction

/-- A character has the number that it was made from. -/
theorem toNat_ofNat_of_isValidChar {code : Nat} (h : code.isValidChar) :
    (Char.ofNat code).toNat = code := by
  rw [Char.ofNat, dif_pos h]
  rfl

/-- The reader takes digits for the character that they name, and takes a sign before them. -/
theorem scalar?_eq_some_iff {digits : List Char} {c : Char} :
    scalar? digits = some c ↔
      NamesScalar digits c ∨ ∃ rest, digits = '+' :: rest ∧ NamesScalar rest c := by
  have hvalid (code : Nat) :
      (if code.isValidChar then some (Char.ofNat code) else none) = some c ↔ code = c.toNat := by
    constructor
    · intro h
      obtain ⟨hcode, h⟩ := Option.ite_none_right_eq_some.mp h
      cases h
      exact (toNat_ofNat_of_isValidChar hcode).symm
    · rintro rfl
      have hcode : c.toNat.isValidChar := c.valid
      rw [if_pos hcode, Char.ofNat_toNat]
  have hnames (digits : List Char) : ((hexValue? 0 digits).bind fun code =>
      if code.isValidChar then some (Char.ofNat code) else none) = some c ↔
        NamesScalar digits c := by
    simp only [Option.bind_eq_some_iff, hvalid, hexValue?_eq_some_iff, Nat.zero_mul, Nat.zero_add,
      exists_eq_right]
    rfl
  unfold scalar?
  split
  case h_1 rest =>
    rw [hnames]
    constructor
    · exact fun h => .inr ⟨rest, rfl, h⟩
    · rintro (h | ⟨rest', hrest, h⟩)
      · exact absurd h (not_namesScalar_plus rest c)
      · cases hrest
        exact h
  case h_2 hnone =>
    rw [hnames]
    constructor
    · exact .inl
    · rintro (h | ⟨rest, hrest, -⟩)
      · exact h
      · exact absurd hrest (hnone rest)

/-- Hexadecimal digits all have values. -/
theorem exists_values_iff {digits : List Char} :
    (∃ values, List.Forall₂ IsHexDigit digits values) ↔ ∀ digit ∈ digits, ∃ n, IsHexDigit digit n := by
  induction digits with
  | nil => simp [List.forall₂_nil_left_iff]
  | cons digit digits ih =>
    rw [List.forall_mem_cons, ← ih]
    constructor
    · rintro ⟨_, hvalues⟩
      obtain ⟨n, values, hdigit, hdigits, -⟩ := List.forall₂_cons_left_iff.mp hvalues
      exact ⟨⟨n, hdigit⟩, values, hdigits⟩
    · rintro ⟨⟨n, hdigit⟩, values, hdigits⟩
      exact ⟨n :: values, .cons hdigit hdigits⟩

/-- Three hexadecimal digits name a character. -/
theorem exists_namesScalar {digits : List Char} (hlength : digits.length = 3)
    (hdigits : ∀ digit ∈ digits, ∃ n, IsHexDigit digit n) : ∃ c, NamesScalar digits c := by
  obtain ⟨values, hvalues⟩ := exists_values_iff.mpr hdigits
  have hsmall : ∀ value ∈ values, value < 16 := by
    intro value hmem
    obtain ⟨i, hi, rfl⟩ := List.getElem_of_mem hmem
    exact (hvalues.get (by rw [hvalues.length_eq]; exact hi) hi).bounds.2
  have hcode : Nat.ofDigits 16 values.reverse < 16 ^ 3 := by
    have hbound := Nat.ofDigits_lt_base_pow_length (b := 16) (l := values.reverse) (by decide)
      fun value hmem => hsmall value (List.mem_reverse.mp hmem)
    rwa [List.length_reverse, ← hvalues.length_eq, hlength] at hbound
  refine ⟨Char.ofNat (Nat.ofDigits 16 values.reverse), values, hvalues, ?_⟩
  exact (toNat_ofNat_of_isValidChar (.inl (by omega))).symm

/-- Four characters are one after the other. -/
theorem exists_of_length_four {digits : List Char} (h : digits.length = 4) :
    ∃ d₁ d₂ d₃ d₄, digits = [d₁, d₂, d₃, d₄] := by
  rcases digits with _ | ⟨d₁, _ | ⟨d₂, _ | ⟨d₃, _ | ⟨d₄, _ | ⟨d₅, more⟩⟩⟩⟩⟩ <;>
    simp at h
  exact ⟨d₁, d₂, d₃, d₄, rfl⟩

/-- An escape by number that names a character stands for it. -/
theorem quoted_unicode (quote : Char) (start index : Nat) {digits : List Char} {c : Char}
    (hlength : digits.length = 4) (hdigits : scalar? digits = some c) (rest : List Char) :
    quoted quote start index ('\\' :: 'u' :: (digits ++ rest)) = (do
      let (value, rest) ← quoted quote start (index + 6) rest
      return (c :: value, rest)) := by
  obtain ⟨d₁, d₂, d₃, d₄, rfl⟩ := exists_of_length_four hlength
  simp only [List.cons_append, List.nil_append, quoted, hdigits]

/-- An escape by number that names no character is an error. -/
theorem quoted_invalid (quote : Char) (start index : Nat) {rest : List Char}
    (h : ¬((rest.take 4).length = 4 ∧ ∃ c, scalar? (rest.take 4) = some c)) :
    quoted quote start index ('\\' :: 'u' :: rest) =
      .error ⟨.invalidUnicodeEscape (String.ofList (rest.take 4)), index⟩ := by
  by_cases hlength : (rest.take 4).length = 4
  · have hnone : scalar? (rest.take 4) = none := Option.eq_none_iff_forall_ne_some.mpr
      fun c hc => h ⟨hlength, c, hc⟩
    obtain ⟨d₁, d₂, d₃, d₄, hdigits⟩ := exists_of_length_four hlength
    have hrest := List.take_append_drop 4 rest
    rw [hdigits] at hnone hrest ⊢
    rw [← hrest]
    simp only [List.cons_append, List.nil_append, quoted, hnone]
  · have hshort : rest.take 4 = rest := List.take_of_length_le (by
      rw [List.length_take] at hlength
      omega)
    rw [hshort] at hlength ⊢
    have hfew : rest.length ≤ 4 := by
      rw [← hshort]
      exact List.length_take_le 4 rest
    refine quoted.eq_3 _ _ _ _ fun d₁ d₂ d₃ d₄ more hmore => ?_
    subst hmore
    simp only [List.length_cons] at hlength hfew
    omega

/-- Items are read one after the other. -/
theorem Items.quoted {quote : Char} {text value : List Char}
    (h : Items (scalar? · = some ·) quote text value) (start index : Nat) (rest : List Char) :
    Lexer.quoted quote start index (text ++ rest) = (do
      let (more, rest) ← Lexer.quoted quote start (index + text.length) rest
      return (value ++ more, rest)) := by
  have hcontrol : ∀ escape ∈ controlEscapes, escape.1 ≠ 'u' ∧ escaped escape.1 = escape.2 := by
    simp [controlEscapes, escaped]
  have hother {c : Char} (h : ∀ d, (c, d) ∉ controlEscapes) : escaped c = c := by
    have hescaped : escaped c = c ∨ (c, escaped c) ∈ controlEscapes := by
      unfold escaped
      split <;> first | exact .inl rfl | exact .inr (by decide)
    exact hescaped.resolve_right (h _)
  induction h generalizing index with
  | none =>
    rw [List.nil_append, List.length_nil, Nat.add_zero]
    cases Lexer.quoted quote start index rest <;> rfl
  | @plain c text value hquote hescape _ ih =>
    rw [List.cons_append, quoted_plain _ _ _ hescape, if_neg hquote, ih, Nat.add_right_comm]
    cases Lexer.quoted quote start (index + text.length + 1) rest <;> rfl
  | @control letter c text value hletter _ ih =>
    obtain ⟨hu, hvalue⟩ := hcontrol _ hletter
    dsimp only at hu hvalue
    rw [List.cons_append, List.cons_append, quoted_escape _ _ _ hu, hvalue, ih,
      Nat.add_right_comm]
    cases Lexer.quoted quote start (index + text.length + 2) rest <;> rfl
  | @other c text value hletter hnone _ ih =>
    rw [List.cons_append, List.cons_append, quoted_escape _ _ _ hletter, hother hnone, ih,
      Nat.add_right_comm]
    cases Lexer.quoted quote start (index + text.length + 2) rest <;> rfl
  | @unicode digits text value c hlength hdigits _ ih =>
    have hindex : index + ('\\' :: 'u' :: (digits ++ text)).length = index + 6 + text.length := by
      rw [List.length_cons, List.length_cons, List.length_append, hlength]
      omega
    rw [List.cons_append, List.cons_append, List.append_assoc,
      quoted_unicode _ _ _ hlength hdigits, ih, hindex]
    cases Lexer.quoted quote start (index + 6 + text.length) rest <;> rfl

/-- What can come after the items of a string constant. -/
def ItemsEnd (names : List Char → Char → Prop) (quote : Char) (rest : List Char) : Prop :=
  rest = [] ∨ rest = ['\\'] ∨ (∃ left, rest = quote :: left) ∨
    ∃ left, rest = '\\' :: 'u' :: left ∧
      ¬((left.take 4).length = 4 ∧ ∃ c, names (left.take 4) c)

/-- Items are taken from the front as long as there are any. -/
theorem exists_items (names : List Char → Char → Prop) (quote : Char) (chars : List Char) :
    ∃ text value rest, Items names quote text value ∧ chars = text ++ rest ∧
      ItemsEnd names quote rest := by
  induction hlength : chars.length using Nat.strongRecOn generalizing chars with
  | ind length ih =>
    subst hlength
    rcases chars with _ | ⟨c, chars⟩
    · exact ⟨[], [], [], .none, rfl, .inl rfl⟩
    by_cases hescape : c = '\\'
    · subst hescape
      rcases chars with _ | ⟨letter, chars⟩
      · exact ⟨[], [], _, .none, rfl, .inr (.inl rfl)⟩
      by_cases hu : letter = 'u'
      · subst hu
        by_cases hvalid : (chars.take 4).length = 4 ∧ ∃ c, names (chars.take 4) c
        · obtain ⟨hfour, c, hnames⟩ := hvalid
          obtain ⟨text, value, rest, hitems, hchars, hend⟩ := ih (chars.drop 4).length
            (by simp only [List.length_drop, List.length_cons]; omega) _ rfl
          refine ⟨_, _, rest, .unicode hfour hnames hitems, ?_, hend⟩
          rw [List.cons_append, List.cons_append, List.append_assoc, ← hchars,
            List.take_append_drop]
        · exact ⟨[], [], _, .none, rfl, .inr (.inr (.inr ⟨chars, rfl, hvalid⟩))⟩
      · obtain ⟨text, value, rest, hitems, rfl, hend⟩ := ih chars.length
          (by simp only [List.length_cons]; omega) _ rfl
        by_cases hcontrol : ∃ d, (letter, d) ∈ controlEscapes
        · obtain ⟨d, hd⟩ := hcontrol
          exact ⟨_, _, rest, .control hd hitems, rfl, hend⟩
        · exact ⟨_, _, rest, .other hu (fun d hd => hcontrol ⟨d, hd⟩) hitems, rfl, hend⟩
    · by_cases hquote : c = quote
      · subst hquote
        exact ⟨[], [], _, .none, rfl, .inr (.inr (.inl ⟨chars, rfl⟩))⟩
      · obtain ⟨text, value, rest, hitems, rfl, hend⟩ := ih _ (by simp) chars rfl
        exact ⟨_, _, rest, .plain hquote hescape hitems, rfl, hend⟩

/-- A quote always denotes something. -/
theorem exists_decodes (names : List Char → Char → Prop) (quote : Char) (index : Nat)
    (chars : List Char) : ∃ outcome, Decodes names quote index chars outcome := by
  obtain ⟨text, value, rest, hitems, hchars, hend⟩ := exists_items names quote chars
  rcases hend with rfl | rfl | ⟨left, rfl⟩ | ⟨left, rfl, hinvalid⟩
  · exact ⟨_, .unterminated hitems (.inl (by simpa using hchars))⟩
  · exact ⟨_, .unterminated hitems (.inr hchars)⟩
  · exact ⟨_, .closed hitems hchars⟩
  · exact ⟨_, .invalidEscape hitems hchars hinvalid⟩

/-- What the characters denote to the reader, which knows signed numbers, is what it reads. -/
theorem Decodes.report_string {quote : Char} {index : Nat} {chars : List Char} {outcome : Report}
    (hquote : quote ≠ '\\') (h : Decodes (scalar? · = some ·) quote index chars outcome) :
    (string quote index chars).report = outcome := by
  cases h with
  | @closed text value rest hitems hchars =>
    subst hchars
    have hread : Lexer.quoted quote index (index + 1) (text ++ quote :: rest) =
        .ok (value, rest) := by
      rw [hitems.quoted, quoted_plain _ _ _ hquote, if_pos rfl]
      simp [bind, Except.bind, pure, Except.pure]
    have htake : (text ++ quote :: rest).take ((text ++ quote :: rest).length - rest.length) =
        text ++ [quote] := by
      have hlength : (text ++ quote :: rest).length - rest.length = (text ++ [quote]).length := by
        simp only [List.length_append, List.length_cons, List.length_nil]
        omega
      rw [hlength, List.append_cons text quote rest, List.take_left]
    simp only [string, hread, bind, Except.bind, htake]
    rfl
  | @invalidEscape text value rest hitems hchars hinvalid =>
    subst hchars
    simp only [string, hitems.quoted, quoted_invalid _ _ _ hinvalid]
    rfl
  | @unterminated text value hitems hchars =>
    have hread : Lexer.quoted quote index (index + 1) chars = .error ⟨.unterminatedQuote, index⟩ := by
      rcases hchars with rfl | rfl
      · have h := hitems.quoted index (index + 1) []
        rwa [List.append_nil] at h
      · rw [hitems.quoted]
        rfl
    simp only [string, hread]
    rfl

/-- Names that are taken for more make more items. -/
theorem Items.mono {names names' : List Char → Char → Prop} {quote : Char} {text value : List Char}
    (hnames : ∀ digits c, names digits c → names' digits c) (h : Items names quote text value) :
    Items names' quote text value := by
  induction h with
  | none => exact .none
  | plain hquote hescape _ ih => exact .plain hquote hescape ih
  | control hletter _ ih => exact .control hletter ih
  | other hletter hcontrol _ ih => exact .other hletter hcontrol ih
  | unicode hlength hdigits _ ih => exact .unicode hlength (hnames _ _ hdigits) ih

/-- Items are items to the reader. -/
theorem Items.read {quote : Char} {text value : List Char} (h : Items NamesScalar quote text value) :
    Items (scalar? · = some ·) quote text value :=
  h.mono fun _ _ hnames => scalar?_eq_some_iff.mpr (.inl hnames)

/-- Without signed escapes the characters denote the same to the reader. -/
theorem Decodes.read {quote : Char} {index : Nat} {chars : List Char} {outcome : Report}
    (hsigned : ¬SignedEscape quote chars) (h : Decodes NamesScalar quote index chars outcome) :
    Decodes (scalar? · = some ·) quote index chars outcome := by
  cases h with
  | closed hitems hchars => exact .closed hitems.read hchars
  | unterminated hitems hchars => exact .unterminated hitems.read hchars
  | @invalidEscape text value rest hitems hchars hinvalid =>
    refine .invalidEscape hitems.read hchars ?_
    rintro ⟨hlength, c, hc⟩
    rcases scalar?_eq_some_iff.mp hc with hnames | ⟨digits, hdigits, hnames⟩
    · exact hinvalid ⟨hlength, c, hnames⟩
    · refine hsigned ⟨text, value, digits, rest.drop 4, hitems, ?_, ?_, ?_⟩
      · rw [hdigits] at hlength
        exact Nat.succ.inj hlength
      · obtain ⟨values, hvalues, -⟩ := hnames
        exact exists_values_iff.mp ⟨values, hvalues⟩
      · rw [hchars, ← List.cons_append, ← hdigits, List.take_append_drop]

/-- A quote is read by the rules for string constants, errors included, exactly if there is no escape
with a sign among its items. -/
theorem lexeme_decodes_iff (options : Options) (index : Nat) {quote : Char}
    (hquote : quote = '"' ∨ quote = '\'') (chars : List Char) :
    (∀ outcome, (lexeme options index quote chars).report = outcome ↔
      Decodes NamesScalar quote index chars outcome) ↔ ¬SignedEscape quote chars := by
  have hbackslash : quote ≠ '\\' := by
    rcases hquote with rfl | rfl <;> decide
  have hstring : lexeme options index quote chars = string quote index chars := by
    rw [lexeme, if_pos (by simpa using hquote)]
  rw [hstring]
  constructor
  · rintro hall ⟨text, value, digits, rest, hitems, hlength, hdigits, rfl⟩
    have htake : ('+' :: (digits ++ rest)).take 4 = '+' :: digits := by
      rw [List.take_succ_cons, ← hlength, List.take_left]
    -- By the rules the escape is invalid, so this is what the reader would have to report.
    have hinvalid : ¬((('+' :: (digits ++ rest)).take 4).length = 4 ∧
        ∃ c, NamesScalar (('+' :: (digits ++ rest)).take 4) c) := by
      rintro ⟨-, c, hc⟩
      rw [htake] at hc
      exact not_namesScalar_plus digits c hc
    have hreport := (hall _).mpr (.invalidEscape hitems rfl hinvalid)
    obtain ⟨outcome, hread⟩ := exists_decodes (scalar? · = some ·) quote index
      (text ++ '\\' :: 'u' :: '+' :: (digits ++ rest))
    rw [hread.report_string hbackslash] at hreport
    cases hread with
    | closed => contradiction
    | unterminated =>
      injection hreport with herror
      injection herror with _ hindex
      omega
    | @invalidEscape text' value' rest' hitems' hchars hinvalid' =>
      injection hreport with herror
      injection herror with _ hindex
      obtain ⟨-, hrest⟩ := List.append_inj hchars (by omega)
      obtain rfl : '+' :: (digits ++ rest) = rest' := by simpa using hrest
      obtain ⟨c, hc⟩ := exists_namesScalar hlength hdigits
      refine hinvalid' ⟨by rw [htake, List.length_cons, hlength], c, ?_⟩
      rw [htake]
      exact scalar?_eq_some_iff.mpr (.inr ⟨digits, rfl, hc⟩)
  · intro hsigned outcome
    constructor
    · rintro rfl
      obtain ⟨outcome, h⟩ := exists_decodes NamesScalar quote index chars
      rwa [(h.read hsigned).report_string hbackslash]
    · exact fun h => (h.read hsigned).report_string hbackslash

/-- An escape with four digits is read by the rules. -/
theorem lexeme_decodes_letter : Decodes NamesScalar '\'' 0 "\\u0041'".toList
    (.ok (.constant "'\\u0041'" (.string "A"), [])) := by
  have hunsigned : ¬SignedEscape '\'' "\\u0041'".toList := by
    rintro ⟨text, value, digits, rest, -, -, -, hchars⟩
    have hplus : '+' ∈ "\\u0041'".toList := by
      rw [hchars]
      simp
    exact absurd hplus (by decide)
  exact ((lexeme_decodes_iff {} 0 (.inr rfl) _).mpr hunsigned _).mp rfl

/-- An escape with a sign is invalid by the rules, but it is read as a letter. -/
theorem lexeme_signed_letter :
    lexeme {} 0 '\'' "\\u+041'".toList = .ok (.constant "'\\u+041'" (.string "A"), []) ∧
      Decodes NamesScalar '\'' 0 "\\u+041'".toList
        (.error ("Invalid unicode escape [\\u+041]", 1)) := by
  refine ⟨rfl, @Decodes.invalidEscape _ _ _ _ [] [] _ .none rfl ?_⟩
  rintro ⟨-, c, hc⟩
  exact not_namesScalar_plus _ c hc

end Lexer

end TemplateExpr
