import TemplateExpr.Node.Source
import TemplateExpr.Proofs.Grammar.Completeness
import TemplateExpr.Proofs.Grammar.Shorthand
import TemplateExpr.Proofs.Lexing.Replacement

/-!
# Shorthand entries written out

An entry of an object literal that is a name alone can be written out in the source: a colon and the
name are put after it. The source is still read, and its tree is the same, unless the name is a keyword
or a registered literal. Such a name is an identifier where it stands for a shorthand entry, but not as
a value.

For the colon to be a token, it must not be one of the characters that the host lets identifiers go on
with.
-/

namespace TemplateExpr

variable {options : Options}

/-- A name is an identifier as a value unless it is a keyword or a registered literal. -/
theorem Parser.primaryName_eq_iff {name : String} :
    primaryName options name = .identifier name ↔
      name ≠ "this" ∧ name ≠ "$locals" ∧ options.literal? name = none := by
  unfold primaryName
  split
  case isTrue hthis => simp [hthis]
  case isFalse hthis =>
    split
    case isTrue hlocals => simp [hlocals]
    case isFalse hlocals =>
      cases hliteral : options.literal? name <;> simp [hthis, hlocals]

namespace Reads

/-- The tokens of a source are what is found in it from the first place on. -/
theorem iff_tokensOf {source : String} {tokens : List Token} :
    Reads options 0 source.toList tokens ↔ tokensOf options source = .ok tokens := by
  have hbudget : source.toList.length < source.length + 1 := by
    rw [String.length_toList]
    exact Nat.lt_add_one _
  have hscan : scan options source = Lexer.tokensFrom options (source.length + 1) 0 source.toList := rfl
  rw [iff_tokensFrom hbudget, ← hscan, tokensOf, mapError_eq_ok, tokenize]
  rcases scan options source with ⟨found, _ | error⟩ <;> simp

/-- A name can be written twice with a colon between. -/
theorem expand_name (hcolon : options.continuesIdentifier ':' = false) {index place : Nat}
    {chars : List Char} {name : String} {after : List Token}
    (h : Reads options index chars (⟨.identifier name, place⟩ :: after)) :
    ∃ space left, chars = space ++ (name.toList ++ left) ∧ place = index + space.length ∧
      ∃ colon value after',
        Reads options index (space ++ (name.toList ++ (": ".toList ++ (name.toList ++ left))))
          (⟨.identifier name, place⟩ :: ⟨.symbol .colon, colon⟩ :: ⟨.identifier name, value⟩ :: after') ∧
        after'.map Token.lexeme = after.map Token.lexeme := by
  cases h with
  | @token _ space rest left c _ _ hspace hfirst hword hleft =>
    obtain ⟨more, hname, rfl, hends, hread⟩ := Lexer.lexeme_identifier hword
    have hmark : ∀ d tail, ':' :: ' ' :: (c :: more ++ left) = d :: tail →
        options.continuesIdentifier d = false := by
      rintro d tail ⟨⟩
      exact hcolon
    have hblank : ∀ d ∈ [' '], Text.isWhiteSpace d = true := by
      simp only [List.forall_mem_singleton]
      decide
    -- Where the name ends, and where its value begins.
    obtain ⟨stop, hstop⟩ : ∃ stop, stop = index + space.length + (Lexeme.identifier name).text.length :=
      ⟨_, rfl⟩
    obtain ⟨value, hvalue⟩ : ∃ value, value = stop + (Lexeme.symbol .colon).text.length + [' '].length :=
      ⟨_, rfl⟩
    obtain ⟨after', hafter, hsame⟩ :=
      hleft.exists_at (value + (Lexeme.identifier name).text.length)
    have hsecond : Reads options (stop + (Lexeme.symbol .colon).text.length)
        ([' '] ++ c :: (more ++ left)) (⟨.identifier name, value⟩ :: after') := by
      subst hvalue
      exact .token hblank hfirst (hread _ left hends) hafter
    have hmiddle : Reads options stop ([] ++ ':' :: ' ' :: c :: (more ++ left))
        (⟨.symbol .colon, stop⟩ :: ⟨.identifier name, value⟩ :: after') :=
      .token (by simp) (by decide) rfl hsecond
    refine ⟨space, left, by rw [hname]; rfl, rfl, stop, value, after', ?_, hsame⟩
    rw [hname]
    subst hstop
    exact .token hspace hfirst (hread _ _ hmark) hmiddle

end Reads

/-- The last token before an entry is a brace or a comma. -/
theorem exists_separator {before : List Token} (h : AwaitsEntry (before.map Token.lexeme)) :
    ∃ sign place before', (sign = .comma ∨ sign = .openBrace) ∧
      before = before' ++ [⟨.symbol sign, place⟩] := by
  obtain ⟨sign, hsign, hlast⟩ : ∃ sign, (sign = .comma ∨ sign = .openBrace) ∧
      (before.map Token.lexeme).getLast? = some (.symbol sign) := by
    rcases h.last with hlast | hlast
    · exact ⟨_, .inr rfl, hlast⟩
    · exact ⟨_, .inl rfl, hlast⟩
  rw [List.getLast?_map, Option.map_eq_some_iff] at hlast
  obtain ⟨⟨word, place⟩, hlast, rfl⟩ := hlast
  obtain ⟨before', hbefore⟩ := List.getLast?_eq_some_iff.mp hlast
  exact ⟨sign, place, before', hsign, hbefore⟩

/-- A shorthand entry of a source that is read can be written out, and the tree is the same exactly if
its name is no keyword and no registered literal. -/
theorem Node.ofSource_expand (hcolon : options.continuesIdentifier ':' = false)
    {front name rest : String} {before after : List Token} {tree : Node}
    (htokens : tokensOf options (front ++ name ++ rest) =
      .ok (before ++ ⟨.identifier name, front.length⟩ :: after))
    (hshorthand : IsShorthand (before.map Token.lexeme) (after.map Token.lexeme))
    (htree : Node.ofSource options (front ++ name ++ rest) = .ok tree) :
    ∃ tree', Node.ofSource options (front ++ name ++ ": " ++ name ++ rest) = .ok tree' ∧
      (tree' = tree ↔ name ≠ "this" ∧ name ≠ "$locals" ∧ options.literal? name = none) := by
  obtain ⟨sign, place, before, hsign, rfl⟩ := exists_separator hshorthand.awaits
  have hreads := Reads.iff_tokensOf.mpr htokens
  rw [List.append_assoc, List.singleton_append] at hreads
  obtain ⟨a, front', tail, -, hchars, hplace, hname, hreplace⟩ := hreads.split_separator hsign
  obtain ⟨space, left, rfl, hindex, colon, value, after', hwritten, hsame⟩ := hname.expand_name hcolon
  -- The text before the name is what the lexer has read before it.
  obtain ⟨hfront, rfl⟩ : front.toList = front' ++ a :: space ∧ rest.toList = left := by
    have htexts : front.toList ++ (name.toList ++ rest.toList) =
        (front' ++ a :: space) ++ (name.toList ++ left) := by
      simpa [String.toList_append] using hchars
    have hlength : front.toList.length = (front' ++ a :: space).length := by
      rw [String.length_toList, List.length_append, List.length_cons]
      omega
    obtain ⟨hfront, hrest⟩ := List.append_inj htexts hlength
    exact ⟨hfront, List.append_cancel_left hrest⟩
  have hnew : (front ++ name ++ ": " ++ name ++ rest).toList = front' ++ a ::
      (space ++ (name.toList ++ (": ".toList ++ (name.toList ++ rest.toList)))) := by
    simp [String.toList_append, hfront]
  have htokens' := hreplace _ _ hwritten
  rw [← hnew, Reads.iff_tokensOf] at htokens'
  rw [ofSource, htokens] at htree
  simp only [bind, Except.bind] at htree
  have hprogram := Parser.derives_of_program (mapError_eq_ok.mp htree)
  have hvalue : Derives options (.expression .assignment) [.identifier name]
      (Parser.primaryName options name) := (Derives.word name).loosen (Level.rank_le_chain _)
  obtain ⟨tree', hderives, hequal, -⟩ :=
    Derives.program_expands (by simpa using hprogram) hshorthand _ _ hvalue
  refine ⟨tree', ?_, hequal.trans Parser.primaryName_eq_iff⟩
  rw [ofSource, htokens']
  simp only [bind, Except.bind]
  refine mapError_eq_ok.mpr (Parser.program_of_derives ?_)
  simpa [hsame] using hderives

/-- A letter as an entry is written out. -/
theorem Node.ofSource_expand_letter :
    (({} : Options).continuesIdentifier ':' = false ∧
      tokensOf {} ("\x7b" ++ "a" ++ "\x7d") = .ok ([⟨.symbol .openBrace, 0⟩] ++
        ⟨.identifier "a", "\x7b".length⟩ :: [⟨.symbol .closeBrace, 2⟩]) ∧
      IsShorthand [.symbol .openBrace] [.symbol .closeBrace] ∧
      Node.ofSource {} ("\x7b" ++ "a" ++ "\x7d") = .ok (.program [.statement
        (.object [.entry (.identifier "a") (.identifier "a") false])])) ∧
    ∃ tree, Node.ofSource {} ("\x7b" ++ "a" ++ ": " ++ "a" ++ "\x7d") = .ok tree ∧
      (tree = .program [.statement (.object [.entry (.identifier "a") (.identifier "a") false])] ↔
        "a" ≠ "this" ∧ "a" ≠ "$locals" ∧ ({} : Options).literal? "a" = none) := by
  have hcolon : ({} : Options).continuesIdentifier ':' = false := rfl
  have htokens : tokensOf {} ("\x7b" ++ "a" ++ "\x7d") = .ok ([⟨.symbol .openBrace, 0⟩] ++
      ⟨.identifier "a", "\x7b".length⟩ :: [⟨.symbol .closeBrace, 2⟩]) := by
    rfl
  have hshorthand : IsShorthand [.symbol .openBrace] [.symbol .closeBrace] :=
    ⟨⟨rfl, .inl rfl⟩, .inr rfl⟩
  have htree : Node.ofSource {} ("\x7b" ++ "a" ++ "\x7d") = .ok (.program [.statement
      (.object [.entry (.identifier "a") (.identifier "a") false])]) := by
    rfl
  exact ⟨⟨hcolon, htokens, hshorthand, htree⟩, Node.ofSource_expand hcolon htokens hshorthand htree⟩

/-- The word for a truth value is the literal only where it is written out. -/
theorem Node.ofSource_expand_literal :
    ∃ tree tree', Node.ofSource {} "\x7btrue\x7d" = .ok tree ∧
      Node.ofSource {} "\x7btrue: true\x7d" = .ok tree' ∧ tree' ≠ tree := by
  have hprogram {source : String} {tokens : List Token} {ls : List Lexeme} {property : Property}
      (htokens : tokensOf {} source = .ok tokens)
      (hlexemes : tokens.map Token.lexeme = .symbol .openBrace :: (ls ++ [.symbol .closeBrace]))
      (h : Derives {} .property ls property) :
      Node.ofSource {} source = .ok (.program [.statement (.object [property])]) := by
    have hobject := (Derives.object (.lastProperty h)).loosen (Level.rank_le_chain .filter)
    rw [← hlexemes] at hobject
    simp only [Node.ofSource, htokens, bind, Except.bind]
    exact mapError_eq_ok.mpr (Parser.program_of_derives (.program (.lastStatement hobject)))
  have htokens : tokensOf {} "\x7btrue\x7d" =
      .ok [⟨.symbol .openBrace, 0⟩, ⟨.identifier "true", 1⟩, ⟨.symbol .closeBrace, 5⟩] := by
    rfl
  have htokens' : tokensOf {} "\x7btrue: true\x7d" =
      .ok [⟨.symbol .openBrace, 0⟩, ⟨.identifier "true", 1⟩, ⟨.symbol .colon, 5⟩,
        ⟨.identifier "true", 7⟩, ⟨.symbol .closeBrace, 11⟩] := by
    rfl
  have hvalue : Derives {} (.expression .chain) [.identifier "true"] (.literal (.boolean true)) :=
    Derives.word "true"
  have hshort := hprogram htokens rfl (.shorthand "true")
  have hlong := hprogram htokens' rfl (.namedKey "true" (hvalue.loosen (Level.rank_le_chain _)))
  exact ⟨_, _, hshort, hlong, by simp⟩

end TemplateExpr
