import TemplateExpr.Node.Printer
import TemplateExpr.Proofs.Lexing.Lexemes
import TemplateExpr.Proofs.Outcome

/-!
# Strings in quotes

A text that is put in double quotes is read back as the text, whatever its characters are: those
that would end it or cannot stand in a source are escaped, and the escapes are decoded again.
-/

namespace TemplateExpr

namespace Printer

/-- Four hexadecimal digits are the character that they were made from. -/
theorem scalar?_fourHexDigits {code : Nat} (h : code < 0xA0) :
    ∃ a b c d, fourHexDigits code = [a, b, c, d] ∧
      Lexer.scalar? [a, b, c, d] = some (Char.ofNat code) := by
  have hall : ∀ code < 0xA0, (fourHexDigits code).length = 4 ∧
      Lexer.scalar? (fourHexDigits code) = some (Char.ofNat code) := by
    decide +kernel
  obtain ⟨hlength, hscalar⟩ := hall code h
  match hdigits : fourHexDigits code with
  | [a, b, c, d] => exact ⟨a, b, c, d, rfl, hdigits ▸ hscalar⟩
  | [] | [_] | [_, _] | [_, _, _] | _ :: _ :: _ :: _ :: _ :: _ => simp [hdigits] at hlength

/-- A character is written as itself, or as a backslash and what stands for it, or as its number. -/
theorem quotedChar_cases (c : Char) :
    (quotedChar c = [c] ∧ c ≠ '"' ∧ c ≠ '\\') ∨
      (∃ d, quotedChar c = ['\\', d] ∧ d ≠ 'u' ∧ Lexer.escaped d = c) ∨
      (quotedChar c = '\\' :: 'u' :: fourHexDigits c.toNat ∧ c.toNat < 0xA0) := by
  unfold quotedChar
  split
  case h_8 _ hquote hbackslash _ _ _ _ _ =>
    dsimp only
    split
    case isTrue hcode =>
      refine .inr (.inr ⟨rfl, ?_⟩)
      simp only [Bool.or_eq_true, Bool.and_eq_true, decide_eq_true_eq] at hcode
      omega
    case isFalse => exact .inl ⟨rfl, hquote, hbackslash⟩
  all_goals exact .inr (.inl ⟨_, rfl, by decide, rfl⟩)

end Printer

namespace Lexer

open Printer

/-- One written character is read as the character. -/
theorem quoted_quotedChar (c : Char) (start index : Nat) (rest : List Char) :
    quoted '"' start index (quotedChar c ++ rest) = (do
      let (value, rest) ← quoted '"' start (index + (quotedChar c).length) rest
      return (c :: value, rest)) := by
  rcases quotedChar_cases c with ⟨htext, hquote, hbackslash⟩ | ⟨d, htext, hd, rfl⟩ | ⟨htext, hcode⟩
  · rw [htext, List.singleton_append]
    rw [quoted.eq_def]
    split <;> simp_all
  · rw [htext]
    simp [quoted, hd]
  · obtain ⟨a, b, d, e, hdigits, hscalar⟩ := scalar?_fourHexDigits hcode
    rw [htext, hdigits]
    simp [quoted, hscalar]

/-- Written characters are read up to the closing quote. -/
theorem quoted_flatMap (text : List Char) (start index : Nat) (rest : List Char) :
    quoted '"' start index (text.flatMap quotedChar ++ '"' :: rest) = .ok (text, rest) := by
  induction text generalizing index with
  | nil => simp [quoted]
  | cons c text ih =>
    rw [List.flatMap_cons, List.append_assoc, quoted_quotedChar, ih]
    rfl

end Lexer

/-- A text in quotes is read back before anything. -/
theorem Lexeme.readsBefore_quoted (text : String) (rest : List Char) :
    (constant (Printer.quoted text) (.string text)).ReadsBefore rest := by
  let written := text.toList.flatMap Printer.quotedChar ++ ['"']
  refine ⟨'"', written, by simp [Lexeme.text, Printer.quoted, written], rfl, fun index => ?_⟩
  have hread := Lexer.quoted_flatMap text.toList index (index + 1) rest
  have hsplit : text.toList.flatMap Printer.quotedChar ++ '"' :: rest = written ++ rest := by
    simp [written]
  have htake : (written ++ rest).take ((written ++ rest).length - rest.length) = written := by
    rw [List.length_append, Nat.add_sub_cancel, List.take_left]
  rw [hsplit] at hread
  change Lexer.string '"' index (written ++ rest) = _
  simp only [Lexer.string, hread, htake, bind, Except.bind]
  simp [Printer.quoted, written, pure, Except.pure]

end TemplateExpr
