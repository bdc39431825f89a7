import TemplateExpr.Node.Printer
import TemplateExpr.Proofs.Lexing.Numbers
import TemplateExpr.Proofs.Number.Shortest

/-!
# Floats read back

A float is written with its shortest decimal, as digits around a point or with an exponent. The
lexer finds the same digits and the same exponent, up to zeros at the end of the digits, and that
decimal is read as the float again.
-/

namespace TemplateExpr

/-- Digits before others count by the number of the others. -/
theorem decimalValue_append (front rest : List Char) :
    decimalValue (front ++ rest) = 10 ^ rest.length * decimalValue front + decimalValue rest := by
  change Nat.ofDigitChars 10 (front ++ rest) 0 = _
  rw [Nat.ofDigitChars_append, Nat.ofDigitChars_eq_ofDigitChars_zero]
  rfl

/-- Zeros have no value of their own. -/
theorem decimalValue_replicate (count : Nat) : decimalValue (List.replicate count '0') = 0 := by
  change Nat.ofDigitChars 10 (List.replicate count '0') 0 = 0
  rw [Nat.ofDigitChars_replicate_zero, Nat.mul_zero]

/-- The text is a number that is no integer and has the digits, possibly with zeros after them. The
exponent of the first digit is given. -/
def Spells (text : String) (digits : List Char) (leading : Int) : Prop :=
  ∃ (whole fraction exponent : List Char) (zeros : Nat), NumberParts whole fraction exponent ∧
    (fraction ≠ [] ∨ exponent ≠ []) ∧ text = String.ofList (whole ++ fraction ++ exponent) ∧
    decimalValue (whole ++ fraction.drop 1) = 10 ^ zeros * decimalValue digits ∧
    leading + 1 - digits.length =
      (Numeral.exponent? exponent).getD 0 - (fraction.drop 1).length + zeros

section

variable {digits : List Char} {leading : Int}

/-- A number below one is spelled with zeros after the point. -/
theorem spells_below_one (hdigits : ∀ c ∈ digits, c.isDigit = true) (hnonempty : digits ≠ [])
    (hleading : leading < 0) : Spells (Layout.literal.positionalText digits leading) digits
      leading := by
  obtain ⟨first, more, hfirst⟩ : ∃ first more,
      List.replicate (-leading - 1).toNat '0' ++ digits = first :: more :=
    List.exists_cons_of_ne_nil (by simp [hnonempty])
  refine ⟨['0'], '.' :: (List.replicate (-leading - 1).toNat '0' ++ digits), [], 0,
    ⟨by simp, by simp, .inr ⟨first, more, by rw [hfirst], ?_⟩, .inl rfl⟩, .inl (by simp), ?_, ?_, ?_⟩
  · rw [← hfirst]
    simp only [List.mem_append, List.mem_replicate]
    rintro c (⟨-, rfl⟩ | hc)
    · rfl
    · exact hdigits c hc
  · apply String.toList_injective
    simp [Layout.positionalText, hleading]
  · rw [List.drop_one, List.tail_cons, decimalValue_append, decimalValue_append,
      decimalValue_replicate]
    simp [decimalValue]
  · simp [Numeral.exponent?]
    omega

/-- A number with as many digits before the point as it has, or more, is spelled with a zero after
it. -/
theorem spells_whole (hdigits : ∀ c ∈ digits, c.isDigit = true) (hnonempty : digits ≠ [])
    (hleading : 0 ≤ leading) (hlength : digits.length ≤ leading.toNat + 1) :
    Spells (Layout.literal.positionalText digits leading) digits leading := by
  refine ⟨digits ++ List.replicate (leading.toNat + 1 - digits.length) '0', ['.', '0'], [],
    leading.toNat + 1 - digits.length + 1,
    ⟨by simp [hnonempty], ?_, .inr ⟨'0', [], rfl, by simp⟩, .inl rfl⟩, .inl (by simp), ?_, ?_, ?_⟩
  · simp only [List.mem_append, List.mem_replicate]
    rintro c (hc | ⟨-, rfl⟩)
    · exact hdigits c hc
    · rfl
  · apply String.toList_injective
    simp [Layout.positionalText, Layout.literal, Int.not_lt.mpr hleading, hlength]
  · have hzero : decimalValue ['0'] = 0 := rfl
    rw [List.drop_one, List.tail_cons, decimalValue_append, decimalValue_append,
      decimalValue_replicate, hzero, Nat.pow_succ]
    simp
    grind
  · simp [Numeral.exponent?]
    omega

/-- A number with more digits than stand before the point is spelled with the others after it. -/
theorem spells_mixed (hdigits : ∀ c ∈ digits, c.isDigit = true) (hleading : 0 ≤ leading)
    (hlength : leading.toNat + 1 < digits.length) :
    Spells (Layout.literal.positionalText digits leading) digits leading := by
  obtain ⟨first, more, hfirst⟩ : ∃ first more,
      digits.drop (leading.toNat + 1) = first :: more :=
    List.exists_cons_of_ne_nil (by simp; omega)
  refine ⟨digits.take (leading.toNat + 1), '.' :: digits.drop (leading.toNat + 1), [], 0,
    ⟨?_, ?_, .inr ⟨first, more, by rw [hfirst], ?_⟩, .inl rfl⟩, .inl (by simp), ?_, ?_, ?_⟩
  · cases digits with
    | nil => simp at hlength
    | cons c rest => simp
  · exact fun c hc => hdigits c (List.mem_of_mem_take hc)
  · rw [← hfirst]
    exact fun c hc => hdigits c (List.mem_of_mem_drop hc)
  · apply String.toList_injective
    simp [Layout.positionalText, Int.not_lt.mpr hleading, Nat.not_le.mpr hlength]
  · rw [List.drop_one, List.tail_cons, List.take_append_drop, Nat.pow_zero, Nat.one_mul]
  · simp [Numeral.exponent?]
    omega

/-- The digits and the sign of an exponent are read as the exponent. -/
theorem exponent?_toDigits (leading : Int) :
    Numeral.exponent? ('e' :: ((if leading < 0 then ['-'] else []) ++
      Nat.toDigits 10 leading.natAbs)) = some leading := by
  have hdigits : (Nat.toDigits 10 leading.natAbs).all Char.isDigit = true :=
    List.all_eq_true.mpr fun c hc => Nat.isDigit_of_mem_toDigits (by decide) (by decide) hc
  have hnonempty : Nat.toDigits 10 leading.natAbs ≠ [] := Nat.toDigits_ne_nil
  have hvalue := decimalValue_toDigits leading.natAbs
  generalize Nat.toDigits 10 leading.natAbs = digits at *
  generalize hsize : leading.natAbs = size at *
  by_cases hnegative : leading < 0
  · have hsign : -(size : Int) = leading := by omega
    simp [Numeral.exponent?, Numeral.splitSign, hnegative, hdigits, hnonempty, hvalue, hsign]
  · have hsign : (size : Int) = leading := by omega
    obtain ⟨c, more, rfl⟩ := List.exists_cons_of_ne_nil hnonempty
    have hunsigned : Numeral.splitSign (c :: more) = (false, c :: more) := by
      unfold Numeral.splitSign
      split <;> simp_all
    simp [Numeral.exponent?, hnegative, hunsigned, hdigits, hvalue, hsign]

/-- A number with an exponent is spelled with one digit before the point, if there is one. -/
theorem spells_exponent (hdigits : ∀ c ∈ digits, c.isDigit = true) (hnonempty : digits ≠ []) :
    Spells (Layout.literal.exponentText digits leading) digits leading := by
  obtain ⟨first, rest, rfl⟩ := List.exists_cons_of_ne_nil hnonempty
  have hexponent : ∃ sign digit more, 'e' :: ((if leading < 0 then ['-'] else []) ++
      Nat.toDigits 10 leading.natAbs) = 'e' :: (sign ++ digit :: more) ∧
      (sign = [] ∨ sign = ['-']) ∧ ∀ c ∈ digit :: more, c.isDigit = true := by
    obtain ⟨digit, more, hmore⟩ :=
      List.exists_cons_of_ne_nil (Nat.toDigits_ne_nil (n := leading.natAbs) (b := 10))
    refine ⟨if leading < 0 then ['-'] else [], digit, more, by rw [hmore], ?_, ?_⟩
    · split <;> simp
    · rw [← hmore]
      exact fun c hc => Nat.isDigit_of_mem_toDigits (by decide) (by decide) hc
  have hwhole : ∀ c ∈ [first], c.isDigit = true := fun c hc =>
    hdigits c (List.mem_of_mem_take (i := 1) hc)
  cases rest with
  | nil =>
    refine ⟨[first], [], _, 0, ⟨by simp, hwhole, .inl rfl, .inr hexponent⟩, .inr (by simp), ?_,
      ?_, ?_⟩
    · apply String.toList_injective
      split <;> simp_all [Layout.exponentText, Layout.literal]
    · simp
    · rw [exponent?_toDigits]
      simp
  | cons second more =>
    refine ⟨[first], '.' :: second :: more, _, 0,
      ⟨by simp, hwhole, .inr ⟨second, more, rfl, ?_⟩, .inr hexponent⟩, .inr (by simp), ?_, ?_, ?_⟩
    · exact fun c hc => hdigits c (List.mem_cons_of_mem _ hc)
    · apply String.toList_injective
      split <;> simp_all [Layout.exponentText, Layout.literal]
    · simp
    · rw [exponent?_toDigits, Option.getD_some]
      simp only [List.length_cons, List.drop_succ_cons, List.drop_zero]
      omega

/-- The digits of a number are spelled in one of the layouts. -/
theorem spells_layout (hdigits : ∀ c ∈ digits, c.isDigit = true) (hnonempty : digits ≠ []) :
    Spells (if Layout.literal.positional leading then Layout.literal.positionalText digits leading
      else Layout.literal.exponentText digits leading) digits leading := by
  split
  case isFalse => exact spells_exponent hdigits hnonempty
  case isTrue =>
    rcases Int.lt_or_le leading 0 with hbelow | hleading
    · exact spells_below_one hdigits hnonempty hbelow
    · rcases Nat.lt_or_ge (leading.toNat + 1) digits.length with hmore | hless
      · exact spells_mixed hdigits hleading hmore
      · exact spells_whole hdigits hnonempty hleading hless

end

/-- A spelled number is read back as the double of its digits. -/
theorem Spells.readsBefore {spelling : String} {digits : List Char} {leading : Int}
    {value : Binary64} (h : Spells spelling digits leading)
    (hvalue : ∀ zeros : Nat, Binary64.ofDecimal false (10 ^ zeros * decimalValue digits)
      (leading + 1 - digits.length - zeros) = value) {rest : List Char} (hends : WordEnds rest) :
    (Lexeme.constant spelling (.float value)).ReadsBefore rest := by
  obtain ⟨whole, fraction, exponent, zeros, hparts, hfloat, rfl, hdigits, hexponent⟩ := h
  refine Lexeme.readsBefore_number hparts ?_ hends ?_
  · have hnumber : ¬(fraction = [] ∧ exponent = []) := by
      rintro ⟨rfl, rfl⟩
      simp at hfloat
    have hplace : (Numeral.exponent? exponent).getD 0 - (fraction.drop 1).length =
        leading + 1 - digits.length - zeros := by
      omega
    simp only [Lexer.numberValue]
    rw [if_neg (by simp_all), Numeral.toBinary64, hdigits, hplace, hvalue]
  · intro hfraction hnone
    simp [hfraction, hnone] at hfloat

/-- A finite number is read back where a word would end. -/
theorem Lexeme.readsBefore_float {magnitude : Magnitude}
    (hfinite : (Binary64.signed false magnitude).isFinite = true) {rest : List Char}
    (hends : WordEnds rest) :
    (constant (Layout.literal.text (.signed false magnitude))
      (.float (.signed false magnitude))).ReadsBefore rest := by
  have hnotInfinite : magnitude ≠ .infinity := by
    rintro rfl
    simp [Binary64.isFinite, Binary64.units?] at hfinite
  have htext : Layout.literal.text (.signed false magnitude) =
      Layout.literal.magnitudeText magnitude := by
    simp [Layout.text, hnotInfinite]
  rw [htext, Layout.magnitudeText]
  split
  case isTrue hzero =>
    subst hzero
    have hspells : Spells (Layout.literal.positionalText ['0'] 0) ['0'] 0 :=
      spells_whole (by simp) (by simp) (Int.le_refl 0) (by simp)
    refine hspells.readsBefore (fun zeros => ?_) hends
    have hvalue : decimalValue ['0'] = 0 := rfl
    rw [hvalue, Nat.mul_zero, Binary64.ofDecimal, if_pos (by simp)]
  case isFalse hpositive =>
    have hcontains := Magnitude.contains_shortest Layout.literal.tie hpositive
    generalize magnitude.shortest Layout.literal.tie = decimal at *
    obtain ⟨digits, exponent⟩ := decimal
    have hdigits : ∀ c ∈ Nat.toDigits 10 digits, c.isDigit = true := fun c hc =>
      Nat.isDigit_of_mem_toDigits (by decide) (by decide) hc
    refine (spells_layout hdigits Nat.toDigits_ne_nil).readsBefore (fun zeros => ?_) hends
    have hexponent : exponent + (Nat.toDigits 10 digits).length - 1 + 1 -
        (Nat.toDigits 10 digits).length - zeros = exponent - zeros := by
      omega
    rw [hexponent, decimalValue_toDigits]
    exact Binary64.ofDecimal_of_contains hpositive
      (Magnitude.Neighbourhood.contains_pow_mul zeros hcontains)

end TemplateExpr
