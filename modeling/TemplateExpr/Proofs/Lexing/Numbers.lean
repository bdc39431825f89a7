import TemplateExpr.Proofs.Lexing.Lexemes

/-!
# Numbers

The text of a number falls into its whole digits, an optional fraction and an optional exponent.
It is read back as these parts where no word goes on and where a point that follows a row of digits
begins a member access.
-/

namespace TemplateExpr

/-- The parts of a number as numbers are printed. -/
structure NumberParts (whole fraction exponent : List Char) : Prop where
  whole_ne_nil : whole ≠ []
  isDigit_whole : ∀ c ∈ whole, c.isDigit = true
  fraction : fraction = [] ∨
    ∃ first more, fraction = '.' :: first :: more ∧ ∀ c ∈ first :: more, c.isDigit = true
  exponent : exponent = [] ∨ ∃ sign first more, exponent = 'e' :: (sign ++ first :: more) ∧
    (sign = [] ∨ sign = ['-']) ∧ ∀ c ∈ first :: more, c.isDigit = true

/-- A row of digits ends where a word does. -/
theorem WordEnds.isDigit {rest : List Char} (h : WordEnds rest) (c : Char) (more : List Char)
    (hrest : rest = c :: more) : c.isDigit = false := by
  cases hdigit : c.isDigit with
  | false => rfl
  | true =>
    have hends := h c more hrest
    rw [Options.continuesIdentifier_of_isDigit hdigit] at hends
    contradiction

/-- Where a word ends there is no exponent. -/
theorem WordEnds.exponentMark {rest : List Char} (h : WordEnds rest) (c : Char)
    (more : List Char) (hrest : rest = c :: more) : c ≠ 'e' ∧ c ≠ 'E' := by
  have hends := h c more hrest
  constructor <;> rintro rfl <;> contradiction

namespace Lexer

/-- The exponent of a number is taken as far as it goes. -/
theorem exponentPart_append {whole fraction exponent rest : List Char}
    (h : NumberParts whole fraction exponent) (hends : WordEnds rest) (index : Nat) :
    exponentPart index (exponent ++ rest) = .ok (exponent, rest) := by
  rcases h.exponent with rfl | ⟨sign, first, more, rfl, rfl | rfl, hdigits⟩
  · cases rest with
    | nil => rfl
    | cons c more =>
      obtain ⟨hlower, hupper⟩ := hends.exponentMark c more rfl
      simp [exponentPart, hlower, hupper]
  · have hfirst : first.isDigit = true := hdigits first List.mem_cons_self
    have htake := takeWhile_append_of_ends hdigits hends.isDigit
    have hdrop := dropWhile_append_of_ends hdigits hends.isDigit
    simp only [List.cons_append] at htake hdrop
    simp [exponentPart, hfirst, htake, hdrop]
  · have hfirst : first.isDigit = true := hdigits first List.mem_cons_self
    have htake := takeWhile_append_of_ends hdigits hends.isDigit
    have hdrop := dropWhile_append_of_ends hdigits hends.isDigit
    simp only [List.cons_append] at htake hdrop
    have hsign : Char.isDigit '-' = false := rfl
    simp [exponentPart, hfirst, htake, hdrop, hsign]

/-- The point after a row of digits that is no number of its own belongs to what follows. -/
def PointEnds (fraction exponent rest : List Char) : Prop :=
  fraction = [] → exponent = [] → ∀ more, rest = '.' :: more → pointContinues {} more = false

/-- No digit comes after the whole digits of a number or after its fraction. -/
theorem isDigit_of_exponent_append {whole fraction exponent rest : List Char}
    (h : NumberParts whole fraction exponent) (hends : WordEnds rest) (c : Char)
    (more : List Char) (hmore : exponent ++ rest = c :: more) : c.isDigit = false := by
  rcases h.exponent with rfl | ⟨sign, first, digits, rfl, -, -⟩
  · exact hends.isDigit c more hmore
  · cases hmore
    rfl

/-- The optional fraction of a number and what follows it. -/
def fractionPart (options : Options) (rest : List Char) : List Char × List Char :=
  match rest with
  | '.' :: after =>
    if pointContinues options after then
      ('.' :: after.takeWhile Char.isDigit, after.dropWhile Char.isDigit)
    else ([], rest)
  | _ => ([], rest)

/-- A number is its whole digits, its fraction and its exponent. -/
theorem number_eq (options : Options) (index : Nat) (chars : List Char) :
    number options index chars =
      (let whole := chars.takeWhile Char.isDigit
      let (fraction, rest) := fractionPart options (chars.dropWhile Char.isDigit)
      do
        let (exponent, rest) ← exponentPart (index + whole.length + fraction.length) rest
        return (.constant (String.ofList (whole ++ fraction ++ exponent))
          (numberValue whole fraction exponent), rest)) :=
  rfl

/-- The fraction of a number is taken as far as it goes. -/
theorem fractionPart_append {whole fraction exponent rest : List Char}
    (h : NumberParts whole fraction exponent) (hends : WordEnds rest)
    (hpoint : PointEnds fraction exponent rest) :
    fractionPart {} (fraction ++ (exponent ++ rest)) = (fraction, exponent ++ rest) := by
  have hafter := isDigit_of_exponent_append h hends
  rcases h.fraction with rfl | ⟨first, digits, rfl, hdigits⟩
  · rcases h.exponent with rfl | ⟨sign, first, digits, rfl, -, -⟩
    · simp only [fractionPart, List.nil_append]
      split
      case h_1 more => rw [if_neg]; simp [hpoint rfl rfl more rfl]
      case h_2 => rfl
    · rfl
  · have hfirst : first.isDigit = true := hdigits first List.mem_cons_self
    have htake := takeWhile_append_of_ends hdigits hafter
    have hdrop := dropWhile_append_of_ends hdigits hafter
    simp only [List.cons_append] at htake hdrop
    simp [fractionPart, pointContinues, hfirst, htake, hdrop]

/-- A number is taken as far as it goes. -/
theorem number_append {whole fraction exponent rest : List Char}
    (h : NumberParts whole fraction exponent) (hends : WordEnds rest)
    (hpoint : PointEnds fraction exponent rest) (index : Nat) :
    number {} index (whole ++ (fraction ++ (exponent ++ rest))) =
      .ok (.constant (String.ofList (whole ++ fraction ++ exponent))
        (numberValue whole fraction exponent), rest) := by
  have hafter : ∀ c more, fraction ++ (exponent ++ rest) = c :: more → c.isDigit = false := by
    intro c more hmore
    rcases h.fraction with rfl | ⟨first, digits, rfl, -⟩
    · exact isDigit_of_exponent_append h hends c more hmore
    · cases hmore
      rfl
  have htake := takeWhile_append_of_ends h.isDigit_whole hafter
  have hdrop := dropWhile_append_of_ends h.isDigit_whole hafter
  rw [number_eq, htake, hdrop, fractionPart_append h hends hpoint]
  simp only [exponentPart_append h hends, bind, Except.bind]
  rfl

end Lexer

/-- A digit is no white space. -/
theorem Lexer.isWhiteSpace_of_isDigit {c : Char} (h : c.isDigit = true) :
    Text.isWhiteSpace c = false :=
  Options.isWhiteSpace_of_continuesIdentifier (Options.continuesIdentifier_of_isDigit h)

/-- Where a digit is found, nothing but a number is looked for. -/
theorem Lexer.lexeme_of_isDigit {c : Char} (h : c.isDigit = true) (index : Nat)
    (rest : List Char) : lexeme {} index c rest = number {} index (c :: rest) := by
  have hsign := notMem_signs_of_continuesIdentifier (Options.continuesIdentifier_of_isDigit h)
  have hquote : c ≠ '"' ∧ c ≠ '\'' := by
    constructor <;> rintro rfl <;> exact hsign (by decide)
  simp [lexeme, hquote, h]

/-- A number is read back where a word would end and no point is taken for its own. -/
theorem Lexeme.readsBefore_number {whole fraction exponent rest : List Char} {value : Literal}
    (h : NumberParts whole fraction exponent)
    (hvalue : Lexer.numberValue whole fraction exponent = value) (hends : WordEnds rest)
    (hpoint : Lexer.PointEnds fraction exponent rest) :
    (constant (String.ofList (whole ++ fraction ++ exponent)) value).ReadsBefore rest := by
  obtain ⟨c, digits, rfl⟩ := List.exists_cons_of_ne_nil h.whole_ne_nil
  have hdigit : c.isDigit = true := h.isDigit_whole c List.mem_cons_self
  refine ⟨c, digits ++ (fraction ++ exponent), by simp [text],
    Lexer.isWhiteSpace_of_isDigit hdigit, fun index => ?_⟩
  have hnumber := Lexer.number_append h hends hpoint index
  rw [hvalue] at hnumber
  rw [Lexer.lexeme_of_isDigit hdigit, ← hnumber]
  simp

/-- The digits of a number spell the number. -/
theorem decimalValue_toDigits (n : Nat) : decimalValue (Nat.toDigits 10 n) = n :=
  Nat.ofDigitChars_ten_toDigits

/-- The digits of a number are a number of their own. -/
theorem numberParts_toDigits (n : Nat) : NumberParts (Nat.toDigits 10 n) [] [] where
  whole_ne_nil := Nat.toDigits_ne_nil
  isDigit_whole _ hc := Nat.isDigit_of_mem_toDigits (by decide) (by decide) hc
  fraction := .inl rfl
  exponent := .inl rfl

/-- An integer is read back where a word would end and no point is taken for its own. -/
theorem Lexeme.readsBefore_integer {value : Int64} (hvalue : 0 ≤ value.toInt) {rest : List Char}
    (hends : WordEnds rest)
    (hpoint : ∀ more, rest = '.' :: more → Lexer.pointContinues {} more = false) :
    (constant (toString value.toInt) (.integer value)).ReadsBefore rest := by
  obtain ⟨n, hn⟩ := Int.eq_ofNat_of_zero_le hvalue
  have htext : toString value.toInt = String.ofList (Nat.toDigits 10 n ++ [] ++ []) := by
    simp [hn, Int.repr_eq_if, Nat.repr_eq_ofList_toDigits]
  have hlimit : n < 0x8000000000000000 := by
    have := value.toInt_lt
    omega
  have hinteger : Lexer.numberValue (Nat.toDigits 10 n) [] [] = .integer value := by
    have hback : Int64.ofNat n = value := by
      rw [← Int64.toInt_inj, hn, Int64.toInt_ofNat_of_lt hlimit]
    simp [Lexer.numberValue, decimalValue_toDigits, hlimit, hback]
  rw [htext]
  exact readsBefore_number (numberParts_toDigits n) hinteger hends fun _ _ => hpoint

/-- Whether a name begins as the exponent of a number does. -/
def beginsExponent (name : String) : Bool :=
  match name.toList with
  | mark :: digit :: _ => (mark == 'e' || mark == 'E') && digit.isDigit
  | _ => false

/-- A point before a word is part of the number before it only if the word begins an exponent. -/
theorem Lexer.pointContinues_of_isWord {name : String} (hname : IsWord name) {rest : List Char}
    (h : beginsExponent name = false)
    (hrest : ∀ c more, rest = c :: more → c.isDigit = false ∧ c ≠ '+' ∧ c ≠ '-') :
    pointContinues {} (name.toList ++ rest) = false := by
  obtain ⟨c, tail, htext, hbegins, hcontinues⟩ := hname
  have hdigit := Options.isDigit_of_begins hbegins
  rw [htext, List.cons_append]
  simp only [beginsExponent, htext] at h
  by_cases hmark : c = 'e' ∨ c = 'E'
  · have hafter : ∀ d more, tail ++ rest = d :: more →
        d.isDigit = false ∧ d ≠ '+' ∧ d ≠ '-' := by
      intro d more hmore
      cases tail with
      | nil => exact hrest d more hmore
      | cons first tail =>
        cases hmore
        have hsign := notMem_signs_of_continuesIdentifier (hcontinues d List.mem_cons_self)
        refine ⟨by rcases hmark with rfl | rfl <;> simpa using h, ?_, ?_⟩ <;>
          rintro rfl <;> exact hsign (by decide)
    cases hmore : tail ++ rest with
    | nil => simp [pointContinues, hdigit, hmark]
    | cons d more =>
      obtain ⟨hdigit', hplus, hminus⟩ := hafter d more hmore
      simp [pointContinues, hdigit, hmark, hdigit', hplus, hminus]
  · simp only [pointContinues, hdigit, hmark, Bool.or_eq_true, decide_eq_true_eq,
      Bool.false_eq_true, if_false, Bool.not_eq_false']
    simpa using hbegins

/-- Digits, a point and an exponent are one number, whatever word the exponent was a part of. -/
theorem Lexer.number_point_exponent {whole : List Char} (hwhole : ∀ c ∈ whole, c.isDigit = true)
    {mark digit : Char} (hmark : mark = 'e' ∨ mark = 'E') (hdigit : digit.isDigit = true)
    (tail : List Char) {rest : List Char} (hends : WordEnds rest) :
    ∃ spelling value, ∀ index, number {} index (whole ++ '.' :: mark :: digit :: tail ++ rest) =
      .ok (.constant spelling value, tail.dropWhile Char.isDigit ++ rest) := by
  have hmarkDigit : mark.isDigit = false := by rcases hmark with rfl | rfl <;> rfl
  have hleft : (digit :: (tail ++ rest)).dropWhile Char.isDigit =
      tail.dropWhile Char.isDigit ++ rest := by
    have hrest : rest.dropWhile Char.isDigit = rest :=
      @dropWhile_append_of_ends Char.isDigit [] rest (by simp) hends.isDigit
    rw [List.dropWhile_cons_of_pos hdigit, List.dropWhile_append, hrest]
    split <;> simp_all
  have hpoint : ∀ d more, '.' :: (mark :: digit :: tail ++ rest) = d :: more →
      d.isDigit = false := by
    rintro d more ⟨⟩
    rfl
  refine ⟨String.ofList (whole ++ ['.'] ++ mark :: (digit :: tail ++ rest).takeWhile Char.isDigit),
    numberValue whole ['.'] (mark :: (digit :: tail ++ rest).takeWhile Char.isDigit),
    fun index => ?_⟩
  rw [List.append_assoc, List.cons_append, number_eq, takeWhile_append_of_ends hwhole hpoint,
    dropWhile_append_of_ends hwhole hpoint]
  simp [fractionPart, pointContinues, hmarkDigit, hmark, hdigit, exponentPart, hleft, bind,
    Except.bind, pure, Except.pure]

/-- An integer, a point and a word that begins an exponent are taken for one number, and what is
left of the word begins with no digit. -/
theorem Lexer.lexeme_integer_exponent {value : Int64} (hvalue : 0 ≤ value.toInt) {name : String}
    (hname : IsWord name) (h : beginsExponent name = true) {rest : List Char}
    (hends : WordEnds rest) :
    ∃ c more left spelling number, (toString value.toInt).toList ++ '.' :: (name.toList ++ rest) =
        c :: more ∧ Text.isWhiteSpace c = false ∧
      (∀ index, lexeme {} index c more = .ok (.constant spelling number, left ++ rest)) ∧
      (∀ c ∈ left, ({} : Options).continuesIdentifier c = true) ∧
      (∀ c more, left = c :: more → c.isDigit = false) ∧
      (left ++ rest).length ≤ more.length := by
  obtain ⟨mark, tail, htext, hbegins, hcontinues⟩ := hname
  obtain ⟨digit, tail, rfl⟩ : ∃ digit more, tail = digit :: more := by
    cases tail with
    | nil => simp [beginsExponent, htext] at h
    | cons digit more => exact ⟨digit, more, rfl⟩
  simp only [beginsExponent, htext, Bool.and_eq_true, Bool.or_eq_true, beq_iff_eq] at h
  obtain ⟨hmark, hdigit⟩ := h
  obtain ⟨n, hn⟩ := Int.eq_ofNat_of_zero_le hvalue
  obtain ⟨c, whole, hwhole⟩ := List.exists_cons_of_ne_nil (Nat.toDigits_ne_nil (n := n) (b := 10))
  have hdigits : ∀ d ∈ c :: whole, d.isDigit = true := fun d hd =>
    Nat.isDigit_of_mem_toDigits (by decide) (by decide) (hwhole ▸ hd)
  have hc : c.isDigit = true := hdigits c List.mem_cons_self
  obtain ⟨spelling, number, hnumber⟩ :=
    Lexer.number_point_exponent hdigits hmark hdigit tail hends
  refine ⟨c, whole ++ '.' :: mark :: digit :: tail ++ rest, tail.dropWhile Char.isDigit, spelling,
    number, ?_, Lexer.isWhiteSpace_of_isDigit hc, fun index => ?_, ?_, ?_, ?_⟩
  · simp [hn, Int.repr_eq_if, hwhole, htext]
  · rw [Lexer.lexeme_of_isDigit hc]
    exact hnumber index
  · intro d hd
    exact hcontinues d (List.mem_cons_of_mem _ ((List.dropWhile_sublist _).mem hd))
  · intro d more hmore
    have hhead := List.head?_dropWhile_not Char.isDigit tail
    rw [hmore] at hhead
    simpa using hhead
  · have hshorter := (List.dropWhile_sublist Char.isDigit (l := tail)).length_le
    simp only [List.length_append, List.length_cons]
    omega

end TemplateExpr
