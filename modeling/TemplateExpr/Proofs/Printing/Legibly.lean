import TemplateExpr.Proofs.Lexing.Strings
import TemplateExpr.Proofs.Printing.FloatText
import TemplateExpr.Proofs.Printing.Pieces
import TemplateExpr.Proofs.Printing.Written

/-!
# Putting pieces together

Pieces that are read back each on its own are read back together if what each of them is followed
by does not go on with it. What may follow a tree is what closes an expression, or else the point of
a member access.
-/

namespace TemplateExpr

/-- The characters, other than a point, that the printer puts after an expression. -/
def closers : List Char := [' ', '(', ')', '[', ']', '\x7d', ',', ';', ':']

/-- The characters are none or begin with what closes an expression. -/
def Closed (rest : List Char) : Prop := ∀ c more, rest = c :: more → c ∈ closers

/-- Whether the characters may follow what the tree is printed as. Only what binds as tightly as a
member access is followed by a point, and an integer only by one that is none of its own. -/
def Node.MayPrecede (node : Node) (rest : List Char) : Prop :=
  ∀ c more, rest = c :: more → c ∈ closers ∨ c = '.' ∧ node.level = .chain ∧
    ∀ value, node = .literal (.integer value) → Lexer.pointContinues {} more = false

/-- What closes an expression may follow every tree. -/
theorem Closed.mayPrecede {rest : List Char} (h : Closed rest) (node : Node) :
    node.MayPrecede rest :=
  fun c more hrest => .inl (h c more hrest)

/-- A word ends where an expression is closed. -/
theorem Closed.wordEnds {rest : List Char} (h : Closed rest) : WordEnds rest := by
  have hall : closers.all (fun c => !({} : Options).continuesIdentifier c) = true := by
    decide +kernel
  intro c more hrest
  simpa using List.all_eq_true.mp hall c (h c more hrest)

/-- The end of a source closes an expression. -/
theorem closed_nil : Closed [] := by
  rintro c more ⟨⟩

/-- A closing character closes an expression. -/
theorem closed_cons {c : Char} (h : c ∈ closers) (rest : List Char) : Closed (c :: rest) := by
  rintro d more ⟨⟩
  exact h

namespace Node.MayPrecede

variable {node : Node} {rest : List Char}

/-- What follows a tree that does not bind tightly is no point. -/
theorem closed (h : node.MayPrecede rest) (hlevel : node.level ≠ .chain) : Closed rest := by
  intro c more hrest
  rcases h c more hrest with hcloser | ⟨-, hchain, -⟩
  · exact hcloser
  · contradiction

/-- What follows a tree begins with no character of a word and with no sign of a number. -/
theorem head (h : node.MayPrecede rest) (c : Char) (more : List Char) (hrest : rest = c :: more) :
    ({} : Options).continuesIdentifier c = false ∧ c.isDigit = false ∧ c ≠ '+' ∧ c ≠ '-' := by
  have hall : ('.' :: closers).all (fun c => !({} : Options).continuesIdentifier c && !c.isDigit &&
      c != '+' && c != '-') = true := by
    decide +kernel
  have hmem : c ∈ '.' :: closers := by
    rcases h c more hrest with hcloser | ⟨rfl, -, -⟩
    · exact List.mem_cons_of_mem _ hcloser
    · exact List.mem_cons_self
  simpa [and_assoc] using List.all_eq_true.mp hall c hmem

/-- A word ends where a tree does. -/
theorem wordEnds (h : node.MayPrecede rest) : WordEnds rest :=
  fun c more hrest => (h.head c more hrest).1

end Node.MayPrecede

namespace Piece

/-- Pieces stay legible before characters that are allowed, but for the given number of points. -/
def Legibly (allowed : List Char → Prop) (lost : Nat) (pieces : List Piece) : Prop :=
  ∀ ⦃more : Nat⦄ ⦃rest : List Piece⦄, Legible more rest → allowed (chars rest) →
    Legible (lost + more) (pieces ++ rest)

namespace Legibly

variable {allowed allowed' : List Char → Prop} {lost lost' : Nat} {pieces pieces' : List Piece}

/-- Where less is allowed, pieces are still legible. -/
theorem mono (h : Legibly allowed lost pieces) (hallowed : ∀ rest, allowed' rest → allowed rest) :
    Legibly allowed' lost pieces :=
  fun _ _ hrest hfollows => h hrest (hallowed _ hfollows)

/-- What is legible everywhere is so where less is allowed. -/
theorem restrict (h : Legibly (fun _ => True) lost pieces) : Legibly allowed lost pieces :=
  mono h fun _ _ => trivial

/-- What is legible before closing characters is so before all that may follow a tree that does not
bind tightly. -/
theorem loose {node : Node} (hlevel : node.level ≠ .chain) (h : Legibly Closed lost pieces) :
    Legibly node.MayPrecede lost pieces :=
  mono h fun _ hfollows => hfollows.closed hlevel

/-- Legible pieces are put together if the second ones may follow the first ones. -/
theorem append (h : Legibly allowed lost pieces) (h' : Legibly allowed' lost' pieces')
    (hfollows : ∀ rest, allowed' rest → allowed (chars pieces' ++ rest)) :
    Legibly allowed' (lost + lost') (pieces ++ pieces') := by
  intro more rest hrest hrestFollows
  rw [List.append_assoc, Nat.add_assoc]
  refine h (h' hrest hrestFollows) ?_
  rw [chars_append]
  exact hfollows _ hrestFollows

/-- A lexeme is legible where it reads back. -/
theorem ofReadsBefore {piece : Piece} {word : Lexeme} (hpiece : piece.lexeme? = some word)
    (h : ∀ rest, allowed rest → word.ReadsBefore rest) : Legibly allowed 0 [piece] := by
  intro more rest hrest hfollows
  rw [Nat.zero_add]
  exact .piece hpiece (h _ hfollows) hrest

/-- A word is legible where it ends. -/
theorem identifier {name : String} (h : IsWord name) :
    Legibly WordEnds 0 [.lexeme (.identifier name)] :=
  ofReadsBefore rfl fun _ hends => Lexeme.readsBefore_identifier h hends

/-- A symbol is legible where it is not taken for a longer lexeme. -/
theorem symbol (sign : Symbol) :
    Legibly (fun rest => ∀ c more, rest = c :: more → sign.endsAt c = true) 0 [.symbol sign] :=
  ofReadsBefore rfl fun _ hends => Lexeme.readsBefore_symbol hends

/-- A symbol that no lexeme begins with but itself is legible everywhere. -/
theorem mark {piece : Piece} {sign : Symbol} (hpiece : piece.lexeme? = some (.symbol sign))
    (h : ∀ c, sign.endsAt c = true) : Legibly (fun _ => True) 0 [piece] :=
  ofReadsBefore hpiece fun _ _ => Lexeme.readsBefore_symbol fun c _ _ => h c

/-- An operator between spaces is legible everywhere. -/
theorem between (sign : Symbol) : Legibly (fun _ => True) 0 (Node.between sign) := by
  intro more rest hrest _
  rw [Nat.zero_add]
  refine .space (.piece rfl (Lexeme.readsBefore_symbol ?_) (.space hrest))
  rintro c more ⟨⟩
  cases sign <;> rfl

/-- A literal is legible where an expression is closed and where it is the holder of a member. -/
theorem literal {value : Literal} (h : value.Written) :
    Legibly (Node.literal value).MayPrecede 0 [.lexeme value.lexeme] := by
  have hkeyword : ∀ name ∈ ["undefined", "null", "true", "false", "Infinity"], IsWord name := by
    intro name hname
    simp only [List.mem_cons, List.not_mem_nil, or_false] at hname
    rcases hname with rfl | rfl | rfl | rfl | rfl <;>
      exact isWord_of_all rfl (by decide +kernel)
  have hword : ∀ name ∈ ["undefined", "null", "true", "false", "Infinity"],
      Legibly (Node.literal value).MayPrecede 0 [.lexeme (.identifier name)] := fun name hname =>
    mono (identifier (hkeyword name hname)) fun _ hfollows => hfollows.wordEnds
  cases value with
  | undefined => exact hword "undefined" (by decide)
  | null => exact hword "null" (by decide)
  | boolean value => cases value <;> exact hword _ (by decide)
  | string text => exact ofReadsBefore rfl fun rest _ => Lexeme.readsBefore_quoted text rest
  | integer value =>
    apply ofReadsBefore rfl
    intro rest hfollows
    apply Lexeme.readsBefore_integer h hfollows.wordEnds
    intro more hrest
    rcases hfollows '.' more hrest with hcloser | ⟨-, -, hpoint⟩
    · exact absurd hcloser (by decide)
    · exact hpoint value rfl
  | float value =>
    obtain ⟨magnitude, rfl⟩ := h
    by_cases hfinite : (Binary64.signed false magnitude).isFinite = true
    · simp only [Literal.lexeme, hfinite, if_true]
      exact ofReadsBefore rfl fun rest hfollows =>
        Lexeme.readsBefore_float hfinite hfollows.wordEnds
    · have hinfinite : magnitude = .infinity := by
        simpa [Binary64.isFinite, Binary64.units?] using hfinite
      simp only [Literal.lexeme, hfinite]
      simp only [Binary64.display, hinfinite]
      subst hinfinite
      exact hword "Infinity" (by decide)

/-- Pieces between brackets are legible everywhere. -/
theorem enclosed {first last : Piece} {opening closing : Symbol}
    (hfirst : first.lexeme? = some (.symbol opening)) (hopening : ∀ c, opening.endsAt c = true)
    (hlast : last.lexeme? = some (.symbol closing)) (hclosing : ∀ c, closing.endsAt c = true)
    (hcloses : ∀ rest, allowed (last.text.toList ++ rest)) (h : Legibly allowed lost pieces) :
    Legibly (fun _ => True) lost (first :: pieces ++ [last]) := by
  have hopened := append (mark hfirst hopening) h fun _ _ => trivial
  have hboth := append hopened (mark hlast hclosing) fun rest _ => by
    rw [chars_cons, chars_nil, List.append_nil]
    exact hcloses rest
  rw [Nat.zero_add, Nat.add_zero] at hboth
  exact hboth

/-- Parentheses, brackets and braces make what stands between them legible everywhere. -/
theorem group (h : Legibly Closed lost pieces) :
    Legibly (fun _ => True) lost (.groupStart :: pieces ++ [.groupEnd]) :=
  enclosed rfl (fun _ => rfl) rfl (fun _ => rfl) (closed_cons (by decide)) h

/-- Arguments between parentheses are legible everywhere. -/
theorem parentheses (h : Legibly Closed lost pieces) :
    Legibly (fun _ => True) lost (.symbol .openParen :: pieces ++ [.symbol .closeParen]) :=
  enclosed rfl (fun _ => rfl) rfl (fun _ => rfl) (closed_cons (by decide)) h

/-- Elements between brackets are legible everywhere. -/
theorem brackets (h : Legibly Closed lost pieces) :
    Legibly (fun _ => True) lost (.symbol .openBracket :: pieces ++ [.symbol .closeBracket]) :=
  enclosed rfl (fun _ => rfl) rfl (fun _ => rfl) (closed_cons (by decide)) h

/-- Entries between braces are legible everywhere. -/
theorem braces (h : Legibly Closed lost pieces) :
    Legibly (fun _ => True) lost (.symbol .openBrace :: pieces ++ [.symbol .closeBrace]) :=
  enclosed rfl (fun _ => rfl) rfl (fun _ => rfl) (closed_cons (by decide)) h

/-- A tree in its place is legible where an expression is closed. -/
theorem fitted (least : Level) {node : Node} (h : Legibly node.MayPrecede lost node.pieces) :
    Legibly Closed lost (node.fitted least node.pieces) := by
  have hclosed : Legibly Closed lost node.pieces := mono h fun _ hclosed => hclosed.mayPrecede node
  unfold Node.fitted
  split
  · exact restrict (group hclosed)
  · exact hclosed

/-- Two parts with an operator between them are legible where the second one is. -/
theorem joined (sign : Symbol) (h : Legibly Closed lost pieces)
    (h' : Legibly allowed lost' pieces') :
    Legibly allowed (lost + lost') (pieces ++ Node.between sign ++ pieces') := by
  have hsign := append h (between sign) fun rest _ => closed_cons (by decide) _
  exact append hsign h' fun _ _ => trivial

end Legibly

/-- Each of several lists of pieces is legible where an expression is closed. Their losses are
added. -/
inductive AllLegibly : Nat → List (List Piece) → Prop
  | nil : AllLegibly 0 []
  | cons {lost lost' : Nat} {pieces : List Piece} {rest : List (List Piece)}
      (h : Legibly Closed lost pieces) (hrest : AllLegibly lost' rest) :
      AllLegibly (lost + lost') (pieces :: rest)

/-- Legible parts stay so with a separator between them that closes each of them. -/
theorem AllLegibly.separated {separator : List Piece} {lists : List (List Piece)} {lost : Nat}
    (hseparator : Legibly (fun _ => True) 0 separator)
    (hcloses : ∀ rest, Closed (chars separator ++ rest)) (h : AllLegibly lost lists) :
    Legibly Closed lost (separated separator lists) := by
  induction h with
  | nil =>
    intro more rest hrest _
    rwa [Nat.zero_add]
  | @cons lost lost' pieces rest h hrest ih =>
    cases rest with
    | nil =>
      cases hrest
      exact h
    | cons second rest =>
      have hfirst := Legibly.append h hseparator fun more _ => hcloses more
      exact Legibly.append hfirst ih fun _ _ => trivial

/-- A comma and a space separate parts legibly. -/
theorem legibly_comma : Legibly (fun _ => True) 0 [.symbol .comma, .space] := by
  intro more rest hrest _
  rw [Nat.zero_add]
  exact .piece rfl (Lexeme.readsBefore_symbol fun _ _ _ => rfl) (.space hrest)

/-- An expression is closed before a comma. -/
theorem closed_comma (rest : List Char) : Closed (chars [.symbol .comma, .space] ++ rest) :=
  closed_cons (by decide) _

/-- A colon separates parts legibly. -/
theorem legibly_colon : Legibly (fun _ => True) 0 [.symbol .colon] :=
  Legibly.mark rfl fun _ => rfl

/-- An expression is closed before a colon. -/
theorem closed_colon (rest : List Char) : Closed (chars [.symbol .colon] ++ rest) :=
  closed_cons (by decide) _

/-- A key and a value with a colon between them are legible where the value is. -/
theorem Legibly.entry {lost lost' : Nat} {key value : List Piece} (hkey : Legibly Closed lost key)
    (hvalue : Legibly Closed lost' value) :
    Legibly Closed (lost + lost') (key ++ [.symbol .colon, .space] ++ value) := by
  have hcolon : Legibly (fun _ => True) 0 [.symbol .colon, .space] := by
    intro more rest hrest _
    rw [Nat.zero_add]
    exact .piece rfl (Lexeme.readsBefore_symbol fun _ _ _ => rfl) (.space hrest)
  exact append (append hkey hcolon fun _ _ => closed_cons (by decide) _) hvalue fun _ _ => trivial

end Piece

end TemplateExpr
