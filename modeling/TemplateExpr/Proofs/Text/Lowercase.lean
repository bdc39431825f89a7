import Mathlib.Data.List.Infix
import TemplateExpr.Text.Case

/-!
# Lowercase of a part of a text

A text in lowercase contains the lowercase of each of its parts but for capital sigmas. A sigma that
ends a word has a form of its own, and what ends a word in the part may not do so in the text. The form
is settled by the part alone if its nearest characters there, the case-ignorable ones left out, decide
it. A part with a sigma that is not settled is lost in some text: one letter after it, or before it,
changes this sigma and no other character.
-/

namespace TemplateExpr.Text

variable {before before' after after' front back text : List Char}

/-- The first character that is not case-ignorable. -/
def neighbour (text : List Char) : Option Char := text.find? (!caseIgnorableRanges.contains ·)

/-- The neighbour tells whether a text begins cased. -/
theorem beginsCased_eq (text : List Char) :
    beginsCased text = (neighbour text).any casedRanges.contains := by
  induction text with
  | nil => rfl
  | cons c rest ih =>
    by_cases hc : caseIgnorableRanges.contains c = true
    · rwa [beginsCased, List.dropWhile_cons_of_pos hc, ← beginsCased, neighbour,
        List.find?_cons_of_neg (by simp [hc]), ← neighbour]
    · rw [beginsCased, List.dropWhile_cons_of_neg hc, neighbour,
        List.find?_cons_of_pos (by simp [hc]), Option.any_some]

/-- The neighbour is looked for in the front first. -/
theorem neighbour_append (front back : List Char) :
    neighbour (front ++ back) = (neighbour front).or (neighbour back) := List.find?_append

/-- A capital sigma is not case-ignorable. -/
theorem neighbour_sigma (rest : List Char) : neighbour ('Σ' :: rest) = some 'Σ' := rfl

/-- A text without a neighbour has no capital sigma. -/
theorem sigma_notMem_of_neighbour (h : neighbour text = none) : 'Σ' ∉ text := by
  intro hmem
  exact absurd (List.find?_eq_none.mp h _ hmem) (by decide)

/-- The form of a capital sigma between two texts, of which the one before is reversed. -/
def sigmaForm (before after : List Char) : Char :=
  if beginsCased before && !beginsCased after then 'ς' else 'σ'

/-- The lowercase form of a text between two others, of which the one before is reversed. -/
def lowercaseBetween (before after : List Char) : List Char → List Char
  | [] => []
  | c :: rest =>
    (if c = 'Σ' then [sigmaForm before (rest ++ after)] else lowercaseChar c) ++
      lowercaseBetween (c :: before) after rest

/-- With nothing after it, a text is put in lowercase as the program does. -/
theorem lowercaseAfter_eq (before text : List Char) :
    lowercaseAfter before text = lowercaseBetween before [] text := by
  induction text generalizing before with
  | nil => rfl
  | cons c rest ih =>
    rw [lowercaseAfter, lowercaseBetween, ih, List.append_nil, sigmaForm,
      apply_ite fun form => [form]]

/-- Both parts of a text are put in lowercase with the other one around them. -/
theorem lowercaseBetween_append (before after front back : List Char) :
    lowercaseBetween before after (front ++ back) =
      lowercaseBetween before (back ++ after) front ++
        lowercaseBetween (front.reverse ++ before) after back := by
  induction front generalizing before with
  | nil => rfl
  | cons c rest ih =>
    rw [List.cons_append, lowercaseBetween, lowercaseBetween, ih, List.reverse_cons,
      List.append_assoc, List.append_assoc, List.append_assoc, List.singleton_append]

/-- A text is put in lowercase up to a capital sigma, at it and after it. -/
theorem lowercaseBetween_sigma (before after front back : List Char) :
    lowercaseBetween before after (front ++ 'Σ' :: back) =
      lowercaseBetween before ('Σ' :: (back ++ after)) front ++
        sigmaForm (front.reverse ++ before) (back ++ after) ::
          lowercaseBetween ('Σ' :: (front.reverse ++ before)) after back := by
  rw [lowercaseBetween_append, lowercaseBetween, if_pos rfl, List.singleton_append, List.cons_append]

/-- What stands around a text matters for its capital sigmas only. -/
theorem lowercaseBetween_congr
    (h : ∀ front back, text = front ++ 'Σ' :: back →
      sigmaForm (front.reverse ++ before) (back ++ after) =
        sigmaForm (front.reverse ++ before') (back ++ after')) :
    lowercaseBetween before after text = lowercaseBetween before' after' text := by
  induction text generalizing before before' with
  | nil => rfl
  | cons c rest ih =>
    have hform : c = 'Σ' → sigmaForm before (rest ++ after) = sigmaForm before' (rest ++ after') :=
      fun hc => h [] rest (hc ▸ rfl)
    have hrest : lowercaseBetween (c :: before) after rest =
        lowercaseBetween (c :: before') after' rest := ih fun front back hsplit => by
      have hfront := h (c :: front) back (congrArg (c :: ·) hsplit)
      rwa [List.reverse_cons, List.append_assoc, List.append_assoc, List.singleton_append] at hfront
    rw [lowercaseBetween, lowercaseBetween, hrest]
    split
    next hc => rw [hform hc]
    next => rfl

/-- A text without a capital sigma has one lowercase form. -/
theorem lowercaseBetween_of_notMem (h : 'Σ' ∉ text) (before before' after after' : List Char) :
    lowercaseBetween before after text = lowercaseBetween before' after' text :=
  lowercaseBetween_congr fun _ _ hsplit => absurd (hsplit ▸ by simp) h

/-- What stands after a capital sigma does not matter before it. -/
theorem lowercaseBetween_before_sigma (before after after' front : List Char) :
    lowercaseBetween before ('Σ' :: after) front = lowercaseBetween before ('Σ' :: after') front :=
  lowercaseBetween_congr fun _ _ _ => by
    simp only [sigmaForm, beginsCased_eq, neighbour_append, neighbour_sigma]

/-- What stands before a capital sigma does not matter after it. -/
theorem lowercaseBetween_after_sigma (before before' after back : List Char) :
    lowercaseBetween ('Σ' :: before) after back = lowercaseBetween ('Σ' :: before') after back :=
  lowercaseBetween_congr fun _ _ _ => by
    simp only [sigmaForm, beginsCased_eq, neighbour_append, neighbour_sigma]

/-- Whether the neighbours that a capital sigma has in a text settle its form: what is before it is not
cased, what is after it is cased, or there is something on both sides. -/
def SigmaIsSettled (before after : Option Char) : Prop :=
  (∃ c ∈ before, casedRanges.contains c = false) ∨ (∃ c ∈ after, casedRanges.contains c = true) ∨
    (before.isSome = true ∧ after.isSome = true)

/-- Whether the forms of all capital sigmas of a text are settled. -/
def SigmasAreSettled (text : List Char) : Prop :=
  ∀ front back, text = front ++ 'Σ' :: back →
    SigmaIsSettled (neighbour front.reverse) (neighbour back)

/-- A settled sigma has one form, whatever stands around the text. -/
theorem sigmaForm_of_settled (h : SigmaIsSettled (neighbour front) (neighbour back))
    (before after : List Char) : sigmaForm (front ++ before) (back ++ after) = sigmaForm front back := by
  simp only [sigmaForm, beginsCased_eq, neighbour_append]
  rcases h with ⟨c, hc, hcased⟩ | ⟨c, hc, hcased⟩ | ⟨hfront, hback⟩
  · simp [Option.mem_def.mp hc, hcased]
  · simp [Option.mem_def.mp hc, hcased]
  · obtain ⟨c, hc⟩ := Option.isSome_iff_exists.mp hfront
    obtain ⟨d, hd⟩ := Option.isSome_iff_exists.mp hback
    simp [hc, hd]

/-- A sigma that is not settled has only ignorable characters on one side. With a cased character
before them and nothing after them it has the final form, and a letter after the text takes it away;
with nothing before them it has the other form, and a letter before the text makes it final. -/
theorem sigmaForm_of_not_settled (h : ¬SigmaIsSettled (neighbour front) (neighbour back)) :
    (neighbour back = none ∧ sigmaForm front back = 'ς' ∧ sigmaForm front (back ++ ['a']) = 'σ') ∨
      (neighbour front = none ∧ sigmaForm front back = 'σ' ∧ sigmaForm (front ++ ['a']) back = 'ς') := by
  have hletter : neighbour ['a'] = some 'a' := rfl
  have hcased : casedRanges.contains 'a' = true := rfl
  simp only [SigmaIsSettled, not_or, not_exists, not_and] at h
  obtain ⟨hbefore, hafter, hboth⟩ := h
  simp only [sigmaForm, beginsCased_eq, neighbour_append, hletter]
  cases hfront : neighbour front with
  | none =>
    cases hback : neighbour back with
    | none => simp [hcased]
    | some d => simpa [hcased, hback] using hafter d
  | some c =>
    cases hback : neighbour back with
    | none => simpa [hcased, hfront] using hbefore c
    | some d => simp [hfront, hback] at hboth

/-- If all sigmas of a text are settled, then it has one lowercase form. -/
theorem lowercaseBetween_of_settled (h : SigmasAreSettled text) (before after : List Char) :
    lowercaseBetween before after text = lowercaseBetween [] [] text :=
  lowercaseBetween_congr fun front back hsplit => by
    rw [sigmaForm_of_settled (h front back hsplit), List.append_nil, List.append_nil]

/-- A list with one item changed contains the list only if the item is around it. -/
theorem eq_of_isInfix {α : Type} [DecidableEq α] {x y : α} {left right front back : List α}
    (hleft : x ∉ left) (hright : x ∉ right)
    (h : (front ++ x :: back) <:+: left ++ (front ++ y :: back) ++ right) : y = x := by
  have hcount := h.sublist.count_le x
  simp only [List.count_append, List.count_cons, List.count_eq_zero_of_not_mem hleft,
    List.count_eq_zero_of_not_mem hright, beq_iff_eq, if_true] at hcount
  by_contra hne
  rw [if_neg hne] at hcount
  omega

/-- A letter after a text takes the final form of its last sigma away. -/
theorem not_isInfix_of_final (hback : neighbour back = none)
    (hform : sigmaForm front.reverse back = 'ς')
    (hchanged : sigmaForm front.reverse (back ++ ['a']) = 'σ') :
    ¬lowercaseBetween [] [] (front ++ 'Σ' :: back) <:+:
      lowercaseBetween [] [] (front ++ 'Σ' :: back ++ ['a']) := by
  have htext : lowercaseBetween [] [] (front ++ 'Σ' :: back ++ ['a']) =
      lowercaseBetween [] ['a'] (front ++ 'Σ' :: back) ++ ['a'] := lowercaseBetween_append ..
  rw [htext, lowercaseBetween_sigma, lowercaseBetween_sigma, List.append_nil, List.append_nil, hform,
    hchanged, lowercaseBetween_before_sigma [] (back ++ ['a']) back,
    lowercaseBetween_of_notMem (sigma_notMem_of_neighbour hback) _ _ ['a'] []]
  intro h
  have hsame : 'σ' = 'ς' := eq_of_isInfix List.not_mem_nil (by decide) h
  exact absurd hsame (by decide)

/-- A letter before a text gives the final form to its first sigma. -/
theorem not_isInfix_of_initial (hfront : neighbour front.reverse = none)
    (hform : sigmaForm front.reverse back = 'σ')
    (hchanged : sigmaForm (front.reverse ++ ['a']) back = 'ς') :
    ¬lowercaseBetween [] [] (front ++ 'Σ' :: back) <:+:
      lowercaseBetween [] [] (['a'] ++ (front ++ 'Σ' :: back)) := by
  have htext : lowercaseBetween [] [] (['a'] ++ (front ++ 'Σ' :: back)) =
      ['a'] ++ lowercaseBetween ['a'] [] (front ++ 'Σ' :: back) := lowercaseBetween_append ..
  have hsigmas : 'Σ' ∉ front := fun hmem =>
    sigma_notMem_of_neighbour hfront (List.mem_reverse.mpr hmem)
  rw [htext, lowercaseBetween_sigma, lowercaseBetween_sigma, List.append_nil, List.append_nil, hform,
    hchanged, lowercaseBetween_after_sigma (front.reverse ++ ['a']) front.reverse,
    lowercaseBetween_of_notMem hsigmas ['a'] [] _ ('Σ' :: back), ← List.append_nil (['a'] ++ _)]
  intro h
  have hsame : 'ς' = 'σ' := eq_of_isInfix (by decide) List.not_mem_nil h
  exact absurd hsame (by decide)

/-- The characters of a text in lowercase. -/
theorem toList_lowercase (text : String) :
    (lowercase text).toList = lowercaseBetween [] [] text.toList := by
  rw [lowercase, String.toList_ofList, lowercaseAfter_eq]

/-- A part whose sigmas are settled is found in lowercase. -/
theorem isInfix_lowercase {part text : String} (hsettled : SigmasAreSettled part.toList)
    (h : part.toList <:+: text.toList) : (lowercase part).toList <:+: (lowercase text).toList := by
  obtain ⟨front, back, htext⟩ := h
  rw [toList_lowercase, toList_lowercase, ← htext, lowercaseBetween_append, lowercaseBetween_append,
    lowercaseBetween_of_settled hsettled (front.reverse ++ [])]
  exact List.infix_append _ _ _

/-- A part with a sigma that is not settled is lost in the lowercase of some text. -/
theorem exists_not_isInfix_lowercase {part : String} (h : ¬SigmasAreSettled part.toList) :
    ∃ text : String, part.toList <:+: text.toList ∧
      ¬(lowercase part).toList <:+: (lowercase text).toList := by
  simp only [SigmasAreSettled, not_forall] at h
  obtain ⟨front, back, hpart, hsigma⟩ := h
  rcases sigmaForm_of_not_settled hsigma with ⟨hback, hform, hchanged⟩ | ⟨hfront, hform, hchanged⟩
  · refine ⟨String.ofList (front ++ 'Σ' :: back ++ ['a']), ?_, ?_⟩
    · rw [String.toList_ofList, hpart]
      exact (List.prefix_append _ _).isInfix
    · rw [toList_lowercase, toList_lowercase, String.toList_ofList, hpart]
      exact not_isInfix_of_final hback hform hchanged
  · refine ⟨String.ofList (['a'] ++ (front ++ 'Σ' :: back)), ?_, ?_⟩
    · rw [String.toList_ofList, hpart]
      exact (List.suffix_append _ _).isInfix
    · rw [toList_lowercase, toList_lowercase, String.toList_ofList, hpart]
      exact not_isInfix_of_initial hfront hform hchanged

/-- The lowercase of a text is found in that of every text which contains it exactly if the form of
each capital sigma is settled. -/
theorem isInfix_lowercase_iff (part : String) :
    (∀ text : String, part.toList <:+: text.toList →
        (lowercase part).toList <:+: (lowercase text).toList) ↔ SigmasAreSettled part.toList := by
  constructor
  · intro h
    by_contra hunsettled
    obtain ⟨text, hcontains, hlost⟩ := exists_not_isInfix_lowercase hunsettled
    exact hlost (h text hcontains)
  · exact fun hsettled text h => isInfix_lowercase hsettled h

end TemplateExpr.Text
