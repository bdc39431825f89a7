import TemplateExpr.Proofs.Grammar.Completeness
import TemplateExpr.Proofs.Printing.Legibility
import TemplateExpr.Proofs.Printing.Sameness

/-!
# Printing and reading back

The text of a tree is read back as the tree, unless one of three kinds of parts is in it. Two of
them are printed as something else. The third one loses its point to a number, so that the text
denotes a tree with fewer points, if any.
-/

namespace TemplateExpr

open Piece

namespace Node

/-- A tree of which every part is printed as what it is and read as what is printed: there is no
number that is not finite, no identifier that has a keyword for its name, and no integer with a
member whose name begins as an exponent does. -/
def Faithful (tree : Node) : Prop :=
  ∀ part ∈ tree.parts, ¬part.Misprinted ∧ part.isMistaken = false

/-- A tree is faithful if it is reread as itself and none of its points is lost. -/
theorem faithful_iff (tree : Node) :
    tree.Faithful ↔ tree.reread = tree ∧ tree.parts.countP isMistaken = 0 := by
  rw [reread_eq_self_iff, List.countP_eq_zero]
  simp only [Faithful, forall_and, Bool.not_eq_true]

/-- The text of a tree is that of its pieces. -/
theorem toList_text (tree : Node) : tree.text.toList = chars tree.pieces :=
  toList_join_text tree.pieces

/-- A source is scanned with a budget that outlasts it. -/
theorem scan_text (tree : Node) :
    scan {} tree.text =
      Lexer.tokensFrom {} ((chars tree.pieces).length + 1) 0 (chars tree.pieces) := by
  rw [scan, ← toList_text, String.length_toList]

variable {tree : Node}

/-- Without a mistaken point the text of a written tree is read back as its rereading. -/
theorem ofSource_text_of_legible (h : tree.ProgramWritten)
    (hlost : tree.parts.countP isMistaken = 0) : ofSource {} tree.text = .ok tree.reread := by
  have hlegible := legible_pieces h
  rw [hlost] at hlegible
  obtain ⟨tokens, htokens, hlexemes⟩ := hlegible.tokensFrom (Nat.lt_succ_self _) 0
  have hderives := derives_program h
  rw [← hlexemes] at hderives
  refine ofSource_eq_ok.mpr ⟨tokens, ?_, Parser.program_of_derives hderives⟩
  rw [scan_text]
  exact htokens

/-- A faithful tree is read back from its text. -/
theorem ofSource_text_of_faithful (h : tree.ProgramWritten) (hfaithful : tree.Faithful) :
    ofSource {} tree.text = .ok tree := by
  obtain ⟨hreread, hlost⟩ := (faithful_iff tree).mp hfaithful
  rw [ofSource_text_of_legible h hlost, hreread]

/-- A tree that is read back from its text is faithful. -/
theorem faithful_of_ofSource_text (h : tree.ProgramWritten)
    (hread : ofSource {} tree.text = .ok tree) : tree.Faithful := by
  obtain ⟨tokens, hscan, hprogram⟩ := ofSource_eq_ok.mp hread
  -- All points that are printed are found again, since the tree that is found has as many.
  have hfound := (Parser.derives_of_program hprogram).dots_eq
  have hprinted := (derives_program h).dots_eq
  simp only [Category.parts, countP_reread] at hfound hprinted
  rw [scan_text] at hscan
  have hlost := (legible_pieces h).dots_add_lost_le (Nat.lt_succ_self _) hscan
  have hnone : tree.parts.countP isMistaken = 0 := by omega
  have hreread : ofSource {} tree.text = .ok tree.reread := ofSource_text_of_legible h hnone
  rw [hread] at hreread
  exact (faithful_iff tree).mpr ⟨(Except.ok.inj hreread).symm, hnone⟩

/-- Statements are compared as their expressions. -/
theorem sameAll_statements (nodes others : List Node) :
    sameAll (nodes.map .statement) (others.map .statement) = sameAll nodes others := by
  induction nodes generalizing others with
  | nil => cases others <;> rfl
  | cons node rest ih =>
    cases others with
    | nil => rfl
    | cons other rest' => simp [sameAll, same, ih]

/-- Written programs are the same only if they are equal. -/
theorem same_iff_eq_of_programWritten {other : Node} (h : tree.ProgramWritten)
    (h' : other.ProgramWritten) : tree.same other = true ↔ tree = other := by
  obtain ⟨_, rfl, nodes, rfl, hwritten⟩ := h
  obtain ⟨_, rfl, others, rfl, hwritten'⟩ := h'
  have hmap : nodes.map statement = others.map statement ↔ nodes = others :=
    List.map_inj_right fun a b hequal => Node.statement.inj hequal
  rw [same, sameAll_statements, sameAll_iff_eq nodes others hwritten hwritten', program.injEq, hmap]

/-- The text of the tree of a source is read back as the same tree exactly if the tree is
faithful. -/
theorem ofSource_text_iff_faithful {source : String} (h : ofSource {} source = .ok tree) :
    (∃ tree', ofSource {} tree.text = .ok tree' ∧ tree'.same tree = true) ↔ tree.Faithful := by
  have hwritten := programWritten_of_ofSource h
  constructor
  · rintro ⟨tree', hread, hsame⟩
    have hwritten' := programWritten_of_ofSource hread
    have hequal := (same_iff_eq_of_programWritten hwritten' hwritten).mp hsame
    rw [hequal] at hread
    exact faithful_of_ofSource_text hwritten hread
  · intro hfaithful
    have hsame := (same_iff_eq_of_programWritten hwritten hwritten).mpr rfl
    exact ⟨tree, ofSource_text_of_faithful hwritten hfaithful, hsame⟩

/-- The member `e5` of the integer `1` is printed as `1.e5`, which is a number, while the member of a
name is read back. -/
theorem ofSource_text_members :
    (∃ tree', ofSource {} (text (.program [.statement
        (.member (.identifier "a") (.identifier "e5") false)])) = .ok tree' ∧
      tree'.same (.program [.statement
        (.member (.identifier "a") (.identifier "e5") false)]) = true) ∧
    ¬∃ tree', ofSource {} (text (.program [.statement
        (.member (.literal (.integer 1)) (.identifier "e5") false)])) = .ok tree' ∧
      tree'.same (.program [.statement
        (.member (.literal (.integer 1)) (.identifier "e5") false)]) = true := by
  constructor
  · have hsource : ofSource {} "a . e5" = .ok (.program [.statement
        (.member (.identifier "a") (.identifier "e5") false)]) := by
      rfl
    refine (ofSource_text_iff_faithful hsource).mpr ?_
    simp [Faithful, parts, allParts, Misprinted, isMistaken, keywords]
  · have hsource : ofSource {} "1 .e5" = .ok (.program [.statement
        (.member (.literal (.integer 1)) (.identifier "e5") false)]) := by
      rfl
    intro hread
    have hfaithful := (ofSource_text_iff_faithful hsource).mp hread
    simp [Faithful, parts, allParts, isMistaken, beginsExponent] at hfaithful

end Node

end TemplateExpr
