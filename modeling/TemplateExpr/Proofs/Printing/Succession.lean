import TemplateExpr.Proofs.Printing.Legibility

/-!
# What follows what in a printed source

The pieces of a printed source succeed one another by a few rules, which look back no further than to the
piece before. A parenthesis that only groups stands where an operand begins or where one has ended, and
the rules are the same on both sides of it. So pieces still follow the rules when such parentheses are
taken away, and pieces that follow the rules are legible but for points that are taken for parts of
numbers.
-/

namespace TemplateExpr

namespace Piece

/-- Where a piece stands. -/
inductive Site where
  /-- Where an operand begins. -/
  | operand
  /-- After an operand. -/
  | ended
  /-- After the space that follows an operand. -/
  | gap
  /-- After an operator. -/
  | sign
  /-- After the point of a member access. -/
  | name

/-- The symbols before an operand that belong to it. -/
def openers : List Symbol := [.plus, .minus, .not, .openBracket, .openBrace]

/-- The symbols after an operand that end what it stands in. -/
def enders : List Symbol := [.closeParen, .closeBracket, .closeBrace]

/-- The symbols after an operand that another one may follow. -/
def joints : List Symbol := [.openParen, .openBracket, .comma, .colon, .semicolon]

/-- What a piece leads to from where it stands. -/
inductive Leads : Site → Piece → Site → Prop
  | word {name : String} (h : IsWord name) : Leads .operand (.lexeme (.identifier name)) .ended
  | literal {value : Literal} (h : value.Written) : Leads .operand (.lexeme value.lexeme) .ended
  | opener {sign : Symbol} (h : sign ∈ openers) : Leads .operand (.symbol sign) .operand
  /-- There may be nothing between brackets. -/
  | empty {sign : Symbol} (h : sign ∈ enders) : Leads .operand (.symbol sign) .ended
  | indent : Leads .operand .space .operand
  | groupStart : Leads .operand .groupStart .operand
  | groupEnd : Leads .ended .groupEnd .ended
  | ender {sign : Symbol} (h : sign ∈ enders) : Leads .ended (.symbol sign) .ended
  | joint {sign : Symbol} (h : sign ∈ joints) : Leads .ended (.symbol sign) .operand
  | point : Leads .ended (.symbol .dot) .name
  | property {name : String} (h : IsWord name) : Leads .name (.lexeme (.identifier name)) .ended
  | before : Leads .ended .space .gap
  | operator (sign : Symbol) : Leads .gap (.symbol sign) .sign
  | after : Leads .sign .space .operand

/-- Where pieces lead to one after the other. -/
inductive Walk : Site → List Piece → Site → Prop
  | nil (site : Site) : Walk site [] site
  | cons {site next last : Site} {piece : Piece} {rest : List Piece} (h : Leads site piece next)
      (hrest : Walk next rest last) : Walk site (piece :: rest) last

namespace Walk

variable {site last : Site} {front back pieces separator : List Piece} {lists : List (List Piece)}

/-- A piece by itself. -/
theorem single {piece : Piece} (h : Leads site piece last) : Walk site [piece] last :=
  .cons h (.nil last)

/-- Pieces are walked up to some place, and the others from there. -/
theorem append_iff :
    Walk site (front ++ back) last ↔ ∃ middle, Walk site front middle ∧ Walk middle back last := by
  induction front generalizing site with
  | nil =>
    constructor
    · exact fun h => ⟨site, .nil site, h⟩
    · rintro ⟨middle, ⟨⟩, h⟩
      exact h
  | cons piece front ih =>
    constructor
    · rintro ⟨⟩
      rename_i next h hrest
      obtain ⟨middle, hfront, hback⟩ := ih.mp hrest
      exact ⟨middle, .cons h hfront, hback⟩
    · rintro ⟨middle, hfront, hback⟩
      cases hfront with
      | cons h hrest => exact .cons h (ih.mpr ⟨middle, hrest, hback⟩)

/-- Two walks are one. -/
theorem append {middle : Site} (h : Walk site front middle) (h' : Walk middle back last) :
    Walk site (front ++ back) last :=
  append_iff.mpr ⟨middle, h, h'⟩

/-- The rules are still followed when a piece is taken away that leads nowhere else. -/
theorem remove {piece : Piece} (hpiece : ∀ {site next : Site}, Leads site piece next → site = next)
    (h : Walk site (front ++ piece :: back) last) : Walk site (front ++ back) last := by
  obtain ⟨middle, hfront, hback⟩ := append_iff.mp h
  cases hback with
  | cons hlead hrest =>
    obtain rfl := hpiece hlead
    exact hfront.append hrest

/-- Lists of pieces between which something leads from the end of an operand to the next one. -/
theorem separated (hseparator : Walk .ended separator .operand) (hsome : lists ≠ [])
    (h : ∀ pieces ∈ lists, Walk .operand pieces .ended) :
    Walk .operand (Piece.separated separator lists) .ended := by
  induction lists with
  | nil => contradiction
  | cons first rest ih =>
    obtain ⟨hfirst, hrest⟩ := List.forall_mem_cons.mp h
    cases rest with
    | nil => exact hfirst
    | cons second rest => exact (hfirst.append hseparator).append (ih (by simp) hrest)

/-- Any number of lists of pieces up to the symbol that ends them. -/
theorem enclosed {sign : Symbol} (hsign : sign ∈ enders)
    (hseparator : Walk .ended separator .operand)
    (h : ∀ pieces ∈ lists, Walk .operand pieces .ended) :
    Walk .operand (Piece.separated separator lists ++ [.symbol sign]) .ended := by
  cases lists with
  | nil => exact single (.empty hsign)
  | cons first rest => exact (separated hseparator (by simp) h).append (single (.ender hsign))

/-- An operator between spaces. -/
theorem between (sign : Symbol) : Walk .ended (Node.between sign) .operand :=
  .cons .before (.cons (.operator sign) (single .after))

/-- A symbol and a space. -/
theorem spaced {sign : Symbol} (h : sign ∈ joints) : Walk .ended [.symbol sign, .space] .operand :=
  .cons (.joint h) (single .indent)

/-- A part in its place. -/
theorem fitted (least : Level) {node : Node} (h : Walk .operand node.pieces .ended) :
    Walk .operand (node.fitted least node.pieces) .ended := by
  unfold Node.fitted
  split
  · exact .cons .groupStart (h.append (single .groupEnd))
  · exact h

/-- Two parts with an operator between them. -/
theorem joined (sign : Symbol) (h : Walk .operand front .ended) (h' : Walk .operand back .ended) :
    Walk .operand (front ++ Node.between sign ++ back) .ended :=
  (h.append (between sign)).append h'

end Walk

end Piece

open Piece

namespace Node

/-- A name is an operand. -/
theorem walk_name {node : Node} (h : node.IsName) : Walk .operand node.pieces .ended := by
  cases node with
  | identifier name => exact .single (.word h)
  | _ => exact h.elim

/-- A key stands where an operand does. -/
theorem walk_key {node : Node} (h : node.IsKey) : Walk .operand node.pieces .ended := by
  cases node with
  | identifier name => exact .single (.word h)
  | literal value => exact .single (.literal h.1)
  | _ => exact h.elim

mutual

/-- The pieces of a written tree follow the rules. -/
theorem walk_pieces (node : Node) (h : node.Written) : Walk .operand node.pieces .ended := by
  cases node with
  | program body => exact h.elim
  | statement expression => exact h.elim
  | literal value => exact .single (.literal h)
  | identifier name => exact .single (.word h.1)
  | this => exact .single (.word (isWord_of_all rfl (by decide +kernel)))
  | locals => exact .single (.word (isWord_of_all rfl (by decide +kernel)))
  | member holder property computed =>
    have hholder := Walk.fitted .chain (walk_pieces holder h.1)
    cases computed with
    | true =>
      have hproperty := Walk.fitted .assignment (walk_pieces property h.2)
      exact hholder.append (.cons (.joint (by decide)) (hproperty.append (.single (.ender (by decide)))))
    | false =>
      cases property with
      | identifier name => exact hholder.append (.cons .point (.single (.property h.2)))
      | _ => exact absurd h.2 (by simp [IsName])
  | call callee arguments =>
    have hcallee := Walk.fitted .chain (walk_pieces callee h.1)
    have harguments : Walk .operand (Piece.separated [.symbol .comma, .space]
        (allPieces .filter arguments) ++ [.symbol .closeParen]) .ended :=
      .enclosed (by decide) (.spaced (by decide)) (walk_allPieces .filter arguments h.2)
    rw [pieces, List.append_assoc]
    exact hcallee.append (.cons (.joint (by decide)) harguments)
  | filter name arguments =>
    obtain ⟨hname, hnonempty, hwritten⟩ := h
    cases arguments with
    | nil => contradiction
    | cons input rest =>
      refine Walk.joined .pipe (walk_pieces input hwritten.1) (.separated (.single (.joint (by decide)))
        (by simp) ?_)
      exact List.forall_mem_cons.mpr ⟨walk_name hname, walk_allPieces .assignment rest hwritten.2⟩
  | assignment target value =>
    exact .joined .assign (.fitted .chain (walk_pieces target h.2.1))
      (.fitted .assignment (walk_pieces value h.2.2))
  | conditional test alternate consequent =>
    exact .joined .colon (.joined .question (.fitted .or (walk_pieces test h.1))
      (.fitted .assignment (walk_pieces alternate h.2.1)))
      (.fitted .assignment (walk_pieces consequent h.2.2))
  | logical operator left right | binary operator left right =>
    exact .joined operator.symbol (.fitted operator.level (walk_pieces left h.1))
      (.fitted operator.level.next (walk_pieces right h.2))
  | unary operator leading argument =>
    exact .cons (.opener (by cases operator <;> decide)) (.fitted .unary (walk_pieces argument h.2))
  | array elements =>
    exact .cons (.opener (by decide))
      (.enclosed (by decide) (.spaced (by decide)) (walk_allPieces .assignment elements h))
  | object properties =>
    exact .cons (.opener (by decide))
      (.enclosed (by decide) (.spaced (by decide)) (walk_propertyPieces properties h))

/-- The pieces of each of several written trees follow the rules. -/
theorem walk_allPieces (least : Level) (nodes : List Node) (h : AllWritten nodes) :
    ∀ pieces ∈ allPieces least nodes, Walk .operand pieces .ended := by
  cases nodes with
  | nil => simp [allPieces]
  | cons node rest =>
    exact List.forall_mem_cons.mpr
      ⟨.fitted least (walk_pieces node h.1), walk_allPieces least rest h.2⟩

/-- The pieces of each entry of a written object follow the rules. -/
theorem walk_propertyPieces (properties : List Property) (h : PropertiesWritten properties) :
    ∀ pieces ∈ propertyPieces properties, Walk .operand pieces .ended := by
  cases properties with
  | nil => simp [propertyPieces]
  | cons property rest =>
    obtain ⟨key, value, computed⟩ := property
    obtain ⟨hentry, hrest⟩ := h
    refine List.forall_mem_cons.mpr ⟨?_, walk_propertyPieces rest hrest⟩
    have hcolon : Walk .ended [.symbol .colon, .space] .operand := .spaced (by decide)
    cases computed with
    | true =>
      have hkey := Walk.fitted .assignment (walk_pieces key hentry.1)
      have hbrackets : Walk .operand (.symbol .openBracket :: fitted .assignment key key.pieces ++
          [.symbol .closeBracket]) .ended :=
        .cons (.opener (by decide)) (hkey.append (.single (.ender (by decide))))
      exact (hbrackets.append hcolon).append (.fitted .assignment (walk_pieces value hentry.2))
    | false =>
      obtain ⟨hkey, hvalue | ⟨hname, rfl⟩⟩ := hentry
      · exact ((walk_key hkey).append hcolon).append (.fitted .assignment (walk_pieces value hvalue))
      · exact ((walk_key hkey).append hcolon).append (.fitted .assignment (walk_name hname))

end

/-- The pieces of a program that is not empty follow the rules. -/
theorem walk_program {node : Node} (h : node.ProgramWritten) (hsome : node.pieces ≠ []) :
    Walk .operand node.pieces .ended := by
  obtain ⟨_, rfl, expressions, rfl, hwritten⟩ := h
  have hlists : allPieces .filter (expressions.map .statement) = allPieces .filter expressions := by
    clear hsome hwritten
    induction expressions with
    | nil => rfl
    | cons node rest ih => simp [allPieces, ih, fitted, Level.rank, pieces]
  rw [pieces, hlists] at hsome ⊢
  refine .separated (.spaced (by decide)) ?_ (walk_allPieces .filter expressions hwritten)
  intro hnone
  rw [hnone] at hsome
  exact hsome rfl

end Node

namespace Piece.Walk

variable {pieces rest : List Piece}

/-- What ends something or joins two of its parts is a character that closes an expression, and it ends
with it, whatever comes after. -/
theorem closes {sign : Symbol} (h : sign ∈ enders ∨ sign ∈ joints) (rest : List Piece) :
    ∃ c ∈ closers, chars (.symbol sign :: rest) = c :: chars rest ∧ ∀ d, sign.endsAt d = true := by
  simp only [enders, joints, List.mem_cons, List.not_mem_nil, or_false] at h
  rcases h with (rfl | rfl | rfl) | (rfl | rfl | rfl | rfl | rfl) <;>
    exact ⟨_, by decide, rfl, fun _ => rfl⟩

/-- An operand begins with no equals sign. -/
theorem head_of_operand (h : Walk .operand pieces .ended) {c : Char} {more : List Char}
    (hchars : chars pieces = c :: more) : c ≠ '=' := by
  rintro rfl
  have hopens {word : Lexeme} {rest : List Piece} (h : Opens word.text.toList) :
      chars (.lexeme word :: rest) ≠ '=' :: more := by
    obtain ⟨c, tail, htext, -, hc⟩ := h
    rw [chars_cons, text, htext]
    rintro ⟨⟩
    exact hc (by decide)
  cases h with
  | cons hlead hrest =>
    cases hlead with
    | word hname =>
      exact hopens ((Lexeme.readsBefore_identifier hname closed_nil.wordEnds).opens (by simp)) hchars
    | literal hvalue => exact hopens (by simpa [text] using Node.opens_literal hvalue) hchars
    | opener hsign =>
      simp only [openers, List.mem_cons, List.not_mem_nil, or_false] at hsign
      rcases hsign with rfl | rfl | rfl | rfl | rfl <;> cases hchars
    | empty hsign =>
      obtain ⟨c, hc, hfirst, -⟩ := closes (.inl hsign) _
      cases hfirst.symm.trans hchars
      exact absurd hc (by decide)
    | indent => cases hchars
    | groupStart => cases hchars

/-- After an operand comes what closes an expression, or the point of a member access. -/
theorem head_of_ended (h : Walk .ended pieces .ended) {c : Char} {more : List Char}
    (hchars : chars pieces = c :: more) :
    c ∈ closers ∨ c = '.' ∧ ∃ name rest, IsWord name ∧ Walk .ended rest .ended ∧
      pieces = .symbol .dot :: .lexeme (.identifier name) :: rest := by
  cases h with
  | nil => cases hchars
  | cons hlead hrest =>
    cases hlead with
    | groupEnd | before =>
      cases hchars
      exact .inl (by decide)
    | ender hsign =>
      obtain ⟨c, hc, hfirst, -⟩ := closes (.inl hsign) _
      cases hfirst.symm.trans hchars
      exact .inl hc
    | joint hsign =>
      obtain ⟨c, hc, hfirst, -⟩ := closes (.inr hsign) _
      cases hfirst.symm.trans hchars
      exact .inl hc
    | point =>
      cases hchars
      cases hrest with
      | cons hlead hrest =>
        cases hlead with
        | property hname => exact .inr ⟨rfl, _, _, hname, hrest, rfl⟩

/-- What follows an operand may follow a name. -/
theorem mayPrecede_this (h : Walk .ended pieces .ended) : Node.this.MayPrecede (chars pieces) := by
  intro c more hchars
  exact (h.head_of_ended hchars).imp_right fun hpoint => ⟨hpoint.1, rfl, nofun⟩

/-- A literal is legible before what follows an operand, but for a point that is taken for a part of
it. -/
theorem legible_literal {value : Literal} (hvalue : value.Written) (h : Walk .ended pieces .ended)
    {lost : Nat} (hlegible : Legible lost pieces) :
    ∃ lost, Legible lost (.lexeme value.lexeme :: pieces) := by
  by_cases hmistaken : ∃ integer name rest, value = .integer integer ∧ beginsExponent name = true ∧
      IsWord name ∧ Walk .ended rest .ended ∧
      pieces = .symbol .dot :: .lexeme (.identifier name) :: rest
  · obtain ⟨integer, name, rest, rfl, hexponent, hname, hrest, rfl⟩ := hmistaken
    -- The pieces after the point and the name are legible, since they are with these before them.
    obtain ⟨lost, hrestLegible⟩ : ∃ lost, Legible lost rest := by
      cases hlegible with
      | piece _ _ hlegible =>
        cases hlegible with
        | piece _ _ hlegible => exact ⟨_, hlegible⟩
    exact ⟨_, .exponent hvalue hname hexponent hrest.mayPrecede_this.wordEnds hrestLegible⟩
  · refine ⟨_, Legibly.literal hvalue hlegible fun c more hchars => ?_⟩
    refine (h.head_of_ended hchars).imp_right ?_
    rintro ⟨rfl, name, rest, hname, hrest, rfl⟩
    refine ⟨rfl, rfl, ?_⟩
    rintro integer ⟨⟩
    cases hchars
    refine Lexer.pointContinues_of_isWord hname ?_ fun c more hrestChars =>
      (hrest.mayPrecede_this.head c more hrestChars).2
    exact Bool.eq_false_iff.mpr fun hexponent =>
      hmistaken ⟨integer, name, rest, rfl, hexponent, hname, hrest, rfl⟩

/-- Pieces that follow the rules are legible, but for points that are taken for parts of numbers. -/
theorem legible {site last : Site} (h : Walk site pieces last) (hlast : last = .ended) :
    ∃ lost, Legible lost pieces := by
  induction h with
  | nil => exact ⟨0, .nil⟩
  | @cons site next last piece rest hlead hrest ih =>
    subst hlast
    obtain ⟨lost, hlegible⟩ := ih rfl
    have hsymbol {sign : Symbol} (hends : ∀ c more, chars rest = c :: more → sign.endsAt c = true) :
        ∃ lost, Legible lost (.symbol sign :: rest) :=
      ⟨_, .piece rfl (Lexeme.readsBefore_symbol hends) hlegible⟩
    cases hlead with
    | word hname | property hname =>
      exact ⟨_, .piece rfl (Lexeme.readsBefore_identifier hname hrest.mayPrecede_this.wordEnds) hlegible⟩
    | literal hvalue => exact hrest.legible_literal hvalue hlegible
    | indent | before | after => exact ⟨_, .space hlegible⟩
    | groupStart | groupEnd =>
      exact ⟨_, .piece rfl (Lexeme.readsBefore_symbol fun _ _ _ => rfl) hlegible⟩
    | opener hsign =>
      refine hsymbol fun c more hchars => ?_
      have hequals := hrest.head_of_operand hchars
      simp only [openers, List.mem_cons, List.not_mem_nil, or_false] at hsign
      rcases hsign with rfl | rfl | rfl | rfl | rfl <;> simp [Symbol.endsAt, hequals]
    | empty hsign | ender hsign =>
      obtain ⟨_, -, -, hends⟩ := closes (.inl hsign) rest
      exact hsymbol fun c _ _ => hends c
    | joint hsign =>
      obtain ⟨_, -, -, hends⟩ := closes (.inr hsign) rest
      exact hsymbol fun c _ _ => hends c
    | point =>
      refine hsymbol fun c more hchars => ?_
      cases hrest with
      | cons hlead hrest =>
        cases hlead with
        | property hname =>
          obtain ⟨first, tail, htext, hbegins, -⟩ := hname
          rw [chars_cons, text, Lexeme.text, htext] at hchars
          cases hchars
          simp [Symbol.endsAt, Options.isDigit_of_begins hbegins]
    | operator sign =>
      refine hsymbol fun c more hchars => ?_
      cases hrest with
      | cons hlead hrest =>
        cases hlead
        cases hchars
        cases sign <;> rfl

end Piece.Walk

end TemplateExpr
