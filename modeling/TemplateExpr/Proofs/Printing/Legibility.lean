import TemplateExpr.Proofs.Printing.Opening
import TemplateExpr.Proofs.Printing.Parts

/-!
# Legibility of printed trees

What a tree is printed as stays legible when more is printed after it, as long as no word, number
or sign can go on into what follows. Of the places where it could, the printer leaves only one: a
point after an integer, before a name that begins as an exponent does.
-/

namespace TemplateExpr

/-- Whether a member access reads as a number that goes on. -/
def Node.isMistaken : Node → Bool
  | .member (.literal (.integer _)) (.identifier name) false => beginsExponent name
  | _ => false

open Piece

namespace Node

/-- A name is legible where a word ends. -/
theorem legibly_name {node : Node} (h : node.IsName) : Legibly WordEnds 0 node.pieces := by
  cases node with
  | identifier name => exact Legibly.identifier h
  | _ => exact h.elim

/-- A key is legible where an expression is closed. -/
theorem legibly_key {node : Node} (h : node.IsKey) :
    Legibly Closed (node.keyParts.countP isMistaken) node.pieces := by
  cases node with
  | identifier name => exact Legibly.mono (Legibly.identifier h) fun _ hclosed => hclosed.wordEnds
  | literal value =>
    exact Legibly.mono (Legibly.literal h.1) fun _ hclosed => hclosed.mayPrecede (.literal value)
  | _ => exact h.elim

/-- The value of a shorthand is legible, also where it is a keyword. -/
theorem legibly_shorthand {node : Node} (h : node.IsName) :
    Legibly node.MayPrecede (node.parts.countP isMistaken) node.pieces := by
  cases node with
  | identifier name => exact Legibly.mono (Legibly.identifier h) fun _ hclosed => hclosed.wordEnds
  | _ => exact h.elim

/-- A holder is legible before the point of a member access, unless it is an integer and the point
goes on with it. -/
theorem legibly_holder {lost : Nat} {node : Node} (h : Legibly node.MayPrecede lost node.pieces) :
    Legibly (fun rest => ∃ more, rest = '.' :: more ∧
      ∀ value, node = .literal (.integer value) → Lexer.pointContinues {} more = false) lost
      (fitted .chain node node.pieces) := by
  unfold fitted
  split
  case isTrue =>
    have hclosed : Legibly Closed lost node.pieces :=
      Legibly.mono h fun _ hclosed => hclosed.mayPrecede node
    exact Legibly.restrict (Legibly.group hclosed)
  case isFalse htight =>
    have hlevel : node.level = .chain :=
      Level.rank_injective (Nat.le_antisymm (Level.rank_le_chain _) (Nat.le_of_not_lt htight))
    refine Legibly.mono h ?_
    rintro rest ⟨more, rfl, hpoint⟩ c more' ⟨⟩
    exact .inr ⟨rfl, hlevel, hpoint⟩

/-- A member access with a point is legible, but for the point where it is taken for a part of a
number. -/
theorem legibly_member {holder property : Node} (hholder : holder.Written)
    (hlegibly : Legibly holder.MayPrecede (holder.parts.countP isMistaken) holder.pieces)
    (hproperty : property.IsName) :
    Legibly (member holder property false).MayPrecede
      ((member holder property false).parts.countP isMistaken)
      (member holder property false).pieces := by
  cases property with
  | identifier name =>
    by_cases hmistaken : (member holder (identifier name) false).isMistaken = true
    · obtain ⟨value, rfl⟩ : ∃ value, holder = .literal (.integer value) := by
        unfold isMistaken at hmistaken
        split at hmistaken
        case h_1 value name h =>
          cases h
          exact ⟨value, rfl⟩
        case h_2 => contradiction
      intro more rest hrest hfollows
      have hcount : (member (.literal (.integer value)) (.identifier name) false).parts.countP
          isMistaken = 1 := by
        rw [parts, List.countP_cons_of_pos hmistaken]
        rfl
      rw [hcount, Nat.add_comm]
      exact .exponent hholder hproperty hmistaken hfollows.wordEnds hrest
    · have hcount : (member holder (.identifier name) false).parts.countP isMistaken =
          holder.parts.countP isMistaken := by
        simp [parts, hmistaken]
      have hpoint : Legibly WordEnds 0 [.symbol .dot, .lexeme (.identifier name)] := by
        refine Legibly.append (Legibly.symbol .dot) (Legibly.identifier hproperty) ?_
        obtain ⟨first, tail, htext, hbegins, -⟩ := hproperty
        rintro rest - c more hrest
        simp only [chars_cons, chars_nil, Piece.text, Lexeme.text, htext, List.cons_append,
          List.cons.injEq] at hrest
        rw [← hrest.1]
        simp [Symbol.endsAt, Options.isDigit_of_begins hbegins]
      rw [hcount]
      refine Legibly.append (legibly_holder hlegibly)
        (Legibly.mono hpoint fun _ hfollows => hfollows.wordEnds) fun rest hfollows => ?_
      refine ⟨name.toList ++ rest, by simp [Piece.text, Lexeme.text, Symbol.text], ?_⟩
      rintro value rfl
      exact Lexer.pointContinues_of_isWord hproperty (by simpa [isMistaken] using hmistaken)
        fun c more hrest => (hfollows.head c more hrest).2
  | _ => exact hproperty.elim

mutual

/-- A written tree is legible before what may follow it, but for the points that are taken for parts
of numbers. -/
theorem legibly_pieces (node : Node) (h : node.Written) :
    Legibly node.MayPrecede (node.parts.countP isMistaken) node.pieces := by
  cases node with
  | program body => exact h.elim
  | statement expression => exact h.elim
  | literal value => exact Legibly.literal h
  | identifier name => exact Legibly.mono (legibly_name h.1) fun _ hfollows => hfollows.wordEnds
  | this =>
    have hthis : IsWord "this" := isWord_of_all rfl (by decide +kernel)
    exact Legibly.mono (Legibly.identifier hthis) fun _ hfollows => hfollows.wordEnds
  | locals =>
    have hlocals : IsWord "$locals" := isWord_of_all rfl (by decide +kernel)
    exact Legibly.mono (Legibly.identifier hlocals) fun _ hfollows => hfollows.wordEnds
  | member holder property computed =>
    obtain ⟨hholder, hproperty⟩ := h
    have hlegibly := legibly_pieces holder hholder
    cases computed with
    | false => exact legibly_member hholder hlegibly hproperty
    | true =>
      have hbrackets :=
        Legibly.brackets (Legibly.fitted .assignment (legibly_pieces property hproperty))
      have hboth := Legibly.append (Legibly.fitted .chain hlegibly) hbrackets
        fun _ _ => closed_cons (by decide) _
      simp only [parts, if_true, pieces]
      rw [List.countP_cons_of_neg (by simp [isMistaken]), List.countP_append]
      exact Legibly.restrict hboth
  | call callee arguments =>
    have harguments := Legibly.parentheses
      (allLegibly_pieces .filter arguments h.2 |>.separated legibly_comma closed_comma)
    have hboth := Legibly.append (Legibly.fitted .chain (legibly_pieces callee h.1)) harguments
      fun _ _ => closed_cons (by decide) _
    simp only [parts, pieces, List.append_assoc] at hboth ⊢
    rw [List.countP_cons_of_neg (by simp [isMistaken]), List.countP_append]
    exact Legibly.restrict hboth
  | filter name arguments =>
    obtain ⟨hname, hnonempty, hwritten⟩ := h
    cases arguments with
    | nil => contradiction
    | cons input rest =>
      have hinput : Legibly Closed (input.parts.countP isMistaken) input.pieces :=
        Legibly.mono (legibly_pieces input hwritten.1) fun _ hclosed => hclosed.mayPrecede input
      have hnamed : Legibly Closed 0 name.pieces :=
        Legibly.mono (legibly_name hname) fun _ hclosed => hclosed.wordEnds
      have hrest := AllLegibly.separated legibly_colon closed_colon
        (.cons hnamed (allLegibly_pieces .assignment rest hwritten.2))
      have hboth := Legibly.joined .pipe hinput hrest
      simp only [parts, allParts, pieces]
      rw [List.countP_cons_of_neg (by simp [isMistaken]), List.countP_append]
      rw [Nat.zero_add] at hboth
      exact Legibly.loose (by simp [level]) hboth
  | assignment target value =>
    have hboth := Legibly.joined .assign (Legibly.fitted .chain (legibly_pieces target h.2.1))
      (Legibly.fitted .assignment (legibly_pieces value h.2.2))
    simp only [parts, pieces]
    rw [List.countP_cons_of_neg (by simp [isMistaken]), List.countP_append]
    exact Legibly.loose (by simp [level]) hboth
  | conditional test alternate consequent =>
    have hboth := Legibly.joined .question (Legibly.fitted .or (legibly_pieces test h.1))
      (Legibly.fitted .assignment (legibly_pieces alternate h.2.1))
    have hall := Legibly.joined .colon hboth
      (Legibly.fitted .assignment (legibly_pieces consequent h.2.2))
    simp only [parts, pieces]
    rw [List.countP_cons_of_neg (by simp [isMistaken]), List.countP_append, List.countP_append]
    exact Legibly.loose (by simp [level]) hall
  | logical operator left right =>
    have hboth := Legibly.joined operator.symbol
      (Legibly.fitted operator.level (legibly_pieces left h.1))
      (Legibly.fitted operator.level.next (legibly_pieces right h.2))
    simp only [parts, pieces]
    rw [List.countP_cons_of_neg (by simp [isMistaken]), List.countP_append]
    exact Legibly.loose (by cases operator <;> simp [level, LogicalOperator.level]) hboth
  | binary operator left right =>
    have hboth := Legibly.joined operator.symbol
      (Legibly.fitted operator.level (legibly_pieces left h.1))
      (Legibly.fitted operator.level.next (legibly_pieces right h.2))
    simp only [parts, pieces]
    rw [List.countP_cons_of_neg (by simp [isMistaken]), List.countP_append]
    exact Legibly.loose (by cases operator <;> simp [level, BinaryOperator.level]) hboth
  | unary operator leading argument =>
    have hargument := Legibly.fitted .unary (legibly_pieces argument h.2)
    have hopens := opens_fitted .unary (opens_pieces argument h.2)
    have hboth := Legibly.append (Legibly.symbol operator.symbol) hargument fun rest _ =>
      endsAt_of_opens operator (hopens.append rest)
    simp only [parts, pieces]
    rw [List.countP_cons_of_neg (by simp [isMistaken])]
    rw [Nat.zero_add] at hboth
    exact Legibly.loose (by simp [level]) hboth
  | array elements =>
    have hall := Legibly.brackets
      (allLegibly_pieces .assignment elements h |>.separated legibly_comma closed_comma)
    simp only [parts, pieces]
    rw [List.countP_cons_of_neg (by simp [isMistaken])]
    exact Legibly.restrict hall
  | object properties =>
    have hall := Legibly.braces
      (allLegibly_propertyPieces properties h |>.separated legibly_comma closed_comma)
    simp only [parts, pieces]
    rw [List.countP_cons_of_neg (by simp [isMistaken])]
    exact Legibly.restrict hall

/-- Each of several written trees is legible in its place. -/
theorem allLegibly_pieces (least : Level) (nodes : List Node) (h : AllWritten nodes) :
    AllLegibly ((allParts nodes).countP isMistaken) (allPieces least nodes) := by
  cases nodes with
  | nil => exact .nil
  | cons node rest =>
    rw [allParts, allPieces, List.countP_append]
    exact .cons (.fitted least (legibly_pieces node h.1)) (allLegibly_pieces least rest h.2)

/-- Each entry of a written object is legible. -/
theorem allLegibly_propertyPieces (properties : List Property)
    (h : PropertiesWritten properties) :
    AllLegibly ((propertyParts properties).countP isMistaken) (propertyPieces properties) := by
  cases properties with
  | nil => exact .nil
  | cons property rest =>
    obtain ⟨key, value, computed⟩ := property
    obtain ⟨hentry, hrest⟩ := h
    simp only [propertyParts, propertyPieces, List.countP_append]
    refine .cons ?_ (allLegibly_propertyPieces rest hrest)
    cases computed with
    | true =>
      have hkey := Legibly.brackets (Legibly.fitted .assignment (legibly_pieces key hentry.1))
      have hvalue := Legibly.fitted .assignment (legibly_pieces value hentry.2)
      exact Legibly.entry (Legibly.restrict hkey) hvalue
    | false =>
      obtain ⟨hkey, hvalue | ⟨hname, rfl⟩⟩ := hentry
      · exact Legibly.entry (legibly_key hkey)
          (Legibly.fitted .assignment (legibly_pieces value hvalue))
      · exact Legibly.entry (legibly_key hkey) (Legibly.fitted .assignment (legibly_shorthand hname))

end

/-- The statements of a program are printed as their expressions. -/
theorem allLegibly_statements (expressions : List Node) (h : AllWritten expressions) :
    AllLegibly ((allParts (expressions.map .statement)).countP isMistaken)
      (allPieces .filter (expressions.map .statement)) := by
  induction expressions with
  | nil => exact .nil
  | cons node rest ih =>
    have hnode : Legibly Closed (node.parts.countP isMistaken) node.pieces :=
      Legibly.mono (legibly_pieces node h.1) fun _ hclosed => hclosed.mayPrecede node
    rw [List.map_cons, allParts, allPieces, List.countP_append, parts,
      List.countP_cons_of_neg (by simp [isMistaken])]
    exact .cons hnode (ih h.2)

/-- A program is legible but for the points that are taken for parts of numbers. -/
theorem legible_pieces {node : Node} (h : node.ProgramWritten) :
    Legible (node.parts.countP isMistaken) node.pieces := by
  obtain ⟨_, rfl, expressions, rfl, hwritten⟩ := h
  have hseparator : Legibly (fun _ => True) 0 [.symbol .semicolon, .space] := by
    intro more rest hrest _
    rw [Nat.zero_add]
    exact .piece rfl (Lexeme.readsBefore_symbol fun _ _ _ => rfl) (.space hrest)
  have hall := AllLegibly.separated hseparator (fun _ => closed_cons (by decide) _)
    (allLegibly_statements expressions hwritten)
  have hlegible := hall .nil closed_nil
  rw [List.append_nil, Nat.add_zero] at hlegible
  rw [parts, List.countP_cons_of_neg (by simp [isMistaken]), pieces]
  exact hlegible

end Node

end TemplateExpr
