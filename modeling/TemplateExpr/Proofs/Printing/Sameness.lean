import TemplateExpr.Proofs.Printing.Written

/-!
# Sameness of written trees

Trees are compared with their floats taken as numbers, so that a zero is the same as the zero of
the other sign, and a missing number is not even the same as itself. Neither of the two is written:
written trees are the same only if they are equal.
-/

namespace TemplateExpr

/-- Numbers without a sign are the same only if they are equal. -/
theorem Binary64.same_iff_eq (m n : Magnitude) :
    (signed false m).same (signed false n) = true ↔ m = n := by
  rw [Fin.ext_iff, ← Int.ofNat_inj]
  simp [same, order, place]

/-- Written literals are the same only if they are equal. -/
theorem Literal.same_iff_eq {a b : Literal} (ha : a.Written) (hb : b.Written) :
    a.same b = true ↔ a = b := by
  cases a with
  | float x =>
    obtain ⟨m, rfl⟩ := ha
    cases b with
    | float y =>
      obtain ⟨n, rfl⟩ := hb
      simp [same, Binary64.same_iff_eq]
    | _ => simp [same]
  | _ => cases b <;> simp [same]

namespace Node

/-- A name is the same as another only if they are equal. -/
theorem same_iff_eq_of_isName {node : Node} (h : node.IsName) (other : Node) :
    node.same other = true ↔ node = other := by
  cases node with
  | identifier name => cases other <;> simp [same]
  | _ => exact h.elim

/-- Nothing is the same as a name but the name itself. -/
theorem same_isName_iff_eq (node : Node) {other : Node} (h : other.IsName) :
    node.same other = true ↔ node = other := by
  cases other with
  | identifier name => cases node <;> simp [same]
  | _ => exact h.elim

/-- Keys are the same only if they are equal. -/
theorem same_iff_eq_of_isKey {node other : Node} (h : node.IsKey) (h' : other.IsKey) :
    node.same other = true ↔ node = other := by
  cases node with
  | identifier name => cases other <;> simp [same]
  | literal value =>
    cases other with
    | literal value' => simp [same, Literal.same_iff_eq h.1 h'.1]
    | identifier name => simp [same]
    | _ => exact h'.elim
  | _ => exact h.elim

mutual

/-- Written trees are the same only if they are equal. -/
theorem same_iff_eq (node other : Node) (h : node.Written) (h' : other.Written) :
    node.same other = true ↔ node = other := by
  cases node with
  | program body => exact h.elim
  | statement expression => exact h.elim
  | literal value =>
    cases other with
    | literal value' => simp [same, Literal.same_iff_eq h h']
    | _ => simp [same]
  | identifier name => cases other <;> simp [same]
  | this | locals => cases other <;> simp [same]
  | member holder property computed =>
    cases other with
    | member holder' property' computed' =>
      have hholder := same_iff_eq holder holder' h.1 h'.1
      cases computed <;> cases computed' <;> simp only [same, Bool.and_eq_true, hholder]
      · simp [same_iff_eq_of_isName h.2]
      · simp
      · simp
      · simp [same_iff_eq property property' h.2 h'.2]
    | _ => simp [same]
  | call callee arguments =>
    cases other with
    | call callee' arguments' =>
      simp [same, same_iff_eq callee callee' h.1 h'.1, sameAll_iff_eq arguments arguments' h.2 h'.2]
    | _ => simp [same]
  | filter name arguments =>
    cases other with
    | filter name' arguments' =>
      simp [same, same_iff_eq_of_isName h.1, sameAll_iff_eq arguments arguments' h.2.2 h'.2.2]
    | _ => simp [same]
  | assignment target value =>
    cases other with
    | assignment target' value' =>
      simp [same, same_iff_eq target target' h.2.1 h'.2.1, same_iff_eq value value' h.2.2 h'.2.2]
    | _ => simp [same]
  | conditional test alternate consequent =>
    cases other with
    | conditional test' alternate' consequent' =>
      simp [same, same_iff_eq test test' h.1 h'.1, same_iff_eq alternate alternate' h.2.1 h'.2.1,
        same_iff_eq consequent consequent' h.2.2 h'.2.2, and_assoc]
    | _ => simp [same]
  | logical operator left right =>
    cases other with
    | logical operator' left' right' =>
      simp [same, same_iff_eq left left' h.1 h'.1, same_iff_eq right right' h.2 h'.2, and_assoc]
    | _ => simp [same]
  | binary operator left right =>
    cases other with
    | binary operator' left' right' =>
      simp [same, same_iff_eq left left' h.1 h'.1, same_iff_eq right right' h.2 h'.2, and_assoc]
    | _ => simp [same]
  | unary operator leading argument =>
    cases other with
    | unary operator' leading' argument' =>
      simp [same, same_iff_eq argument argument' h.2 h'.2, and_assoc]
    | _ => simp [same]
  | array elements =>
    cases other with
    | array elements' => simp [same, sameAll_iff_eq elements elements' h h']
    | _ => simp [same]
  | object properties =>
    cases other with
    | object properties' => simp [same, sameProperties_iff_eq properties properties' h h']
    | _ => simp [same]

/-- Written trees are the same one by one if they are equal. -/
theorem sameAll_iff_eq (nodes others : List Node) (h : AllWritten nodes) (h' : AllWritten others) :
    sameAll nodes others = true ↔ nodes = others := by
  cases nodes with
  | nil => cases others <;> simp [sameAll]
  | cons node rest =>
    cases others with
    | nil => simp [sameAll]
    | cons other rest' =>
      simp [sameAll, same_iff_eq node other h.1 h'.1, sameAll_iff_eq rest rest' h.2 h'.2]

/-- Written entries are the same one by one if they are equal. -/
theorem sameProperties_iff_eq (properties others : List Property) (h : PropertiesWritten properties)
    (h' : PropertiesWritten others) : sameProperties properties others = true ↔
      properties = others := by
  cases properties with
  | nil => cases others <;> simp [sameProperties]
  | cons property rest =>
    obtain ⟨key, value, computed⟩ := property
    cases others with
    | nil => simp [sameProperties]
    | cons other rest' =>
      obtain ⟨key', value', computed'⟩ := other
      have hrest := sameProperties_iff_eq rest rest' h.2 h'.2
      obtain ⟨hentry, -⟩ := h
      obtain ⟨hentry', -⟩ := h'
      cases computed <;> cases computed' <;>
        simp only [sameProperties, Bool.and_eq_true, hrest, List.cons.injEq, Property.entry.injEq]
      · have hvalue : value.same value' = true ↔ value = value' := by
          rcases hentry.2 with hwritten | ⟨hname, rfl⟩
          · rcases hentry'.2 with hwritten' | ⟨hname', rfl⟩
            · exact same_iff_eq value value' hwritten hwritten'
            · exact same_isName_iff_eq value hname'
          · exact same_iff_eq_of_isName hname value'
        simp [same_iff_eq_of_isKey hentry.1 hentry'.1, hvalue]
      · simp
      · simp
      · simp [same_iff_eq key key' hentry.1 hentry'.1, same_iff_eq value value' hentry.2 hentry'.2]

end

end Node

end TemplateExpr
