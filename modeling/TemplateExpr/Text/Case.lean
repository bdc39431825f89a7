import TemplateExpr.Text.CaseTable

/-!
# Upper and lower case

The full case mappings of texts. Lowercase is the one mapping that looks at its context: a
capital sigma that ends a word has a form of its own.
-/

namespace TemplateExpr.Text

/-- Whether the first character that is not case-ignorable is cased. -/
def beginsCased (text : List Char) : Bool :=
  match text.dropWhile caseIgnorableRanges.contains with
  | [] => false
  | c :: _ => casedRanges.contains c

/-- The lowercase form of a character out of context. -/
def lowercaseChar (c : Char) : List Char :=
  if c.toNat = 0x130 then ['i', Char.ofNat 0x307]
  else [Char.ofNat (CaseRun.image lowercaseRuns c.toNat)]

/-- The lowercase form of the text that follows `before`, whose last character comes first. -/
def lowercaseAfter (before : List Char) : List Char → List Char
  | [] => []
  | c :: rest =>
    let form :=
      if c = 'Σ' then if beginsCased before && !beginsCased rest then ['ς'] else ['σ']
      else lowercaseChar c
    form ++ lowercaseAfter (c :: before) rest

/-- The uppercase form of a character. -/
def uppercaseChar (c : Char) : List Char :=
  match uppercaseSequences.lookup c.toNat with
  | some codes => codes.map Char.ofNat
  | none => [Char.ofNat (CaseRun.image uppercaseRuns c.toNat)]

/-- The text in lowercase. -/
def lowercase (text : String) : String := String.ofList (lowercaseAfter [] text.toList)

/-- The text in uppercase. -/
def uppercase (text : String) : String := String.ofList (text.toList.flatMap uppercaseChar)

end TemplateExpr.Text
