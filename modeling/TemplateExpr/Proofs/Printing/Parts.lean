import TemplateExpr.Proofs.Printing.Rereading

/-!
# Parts of trees

The parts of a tree are all trees that stand in it as expressions, itself included, and the constant
keys of its objects; the names of members, filters and keys are no parts. A tree is reread as itself
exactly when none of its parts is reread as something else.
-/

namespace TemplateExpr

namespace Node

/-- The part that a key is which is not computed: names are none. -/
def keyParts : Node → List Node
  | .literal value => [.literal value]
  | _ => []

mutual

/-- All trees that stand in a tree as expressions, itself first, and its constant keys. -/
def parts : Node → List Node
  | .program body => .program body :: allParts body
  | .statement expression => .statement expression :: parts expression
  | .literal value => [.literal value]
  | .identifier name => [.identifier name]
  | .this => [.this]
  | .locals => [.locals]
  | .member holder property computed =>
    .member holder property computed ::
      (parts holder ++ if computed then parts property else [])
  | .call callee arguments => .call callee arguments :: (parts callee ++ allParts arguments)
  | .filter name arguments => .filter name arguments :: allParts arguments
  | .assignment target value => .assignment target value :: (parts target ++ parts value)
  | .conditional test alternate consequent =>
    .conditional test alternate consequent :: (parts test ++ parts alternate ++ parts consequent)
  | .logical operator left right => .logical operator left right :: (parts left ++ parts right)
  | .binary operator left right => .binary operator left right :: (parts left ++ parts right)
  | .unary operator leading argument => .unary operator leading argument :: parts argument
  | .array elements => .array elements :: allParts elements
  | .object properties => .object properties :: propertyParts properties

/-- The parts of several trees. -/
def allParts : List Node → List Node
  | [] => []
  | node :: rest => parts node ++ allParts rest

/-- The parts of the entries of an object literal. -/
def propertyParts : List Property → List Node
  | [] => []
  | .entry key value computed :: rest =>
    (if computed then parts key else keyParts key) ++ parts value ++ propertyParts rest

end

/-- A tree is a part of itself. -/
theorem mem_parts_self (node : Node) : node ∈ node.parts := by
  cases node <;> simp [parts]

/-- The parts of several trees are those of each of them. -/
theorem mem_allParts {part : Node} {nodes : List Node} :
    part ∈ allParts nodes ↔ ∃ node ∈ nodes, part ∈ node.parts := by
  induction nodes with
  | nil => simp [allParts]
  | cons node rest ih => simp [allParts, ih]

mutual

/-- The parts of a part are parts of the whole. -/
theorem mem_parts_trans (node : Node) {part inner : Node} (hpart : part ∈ node.parts)
    (hinner : inner ∈ part.parts) : inner ∈ node.parts := by
  cases node with
  | literal | identifier | this | locals =>
    cases List.mem_singleton.mp hpart
    exact hinner
  | program nodes | array nodes | filter name nodes =>
    rcases List.mem_cons.mp hpart with rfl | hnodes
    · exact hinner
    · exact List.mem_cons_of_mem _ (mem_allParts_trans nodes hnodes hinner)
  | statement expression | unary operator leading expression =>
    rcases List.mem_cons.mp hpart with rfl | hexpression
    · exact hinner
    · exact List.mem_cons_of_mem _ (mem_parts_trans expression hexpression hinner)
  | member holder property computed =>
    simp only [parts, List.mem_cons, List.mem_append] at hpart ⊢
    rcases hpart with rfl | hholder | hproperty
    · simpa only [parts, List.mem_cons, List.mem_append] using hinner
    · exact .inr (.inl (mem_parts_trans holder hholder hinner))
    · cases computed with
      | false => cases hproperty
      | true => exact .inr (.inr (mem_parts_trans property hproperty hinner))
  | call callee arguments =>
    simp only [parts, List.mem_cons, List.mem_append] at hpart ⊢
    rcases hpart with rfl | hcallee | harguments
    · simpa only [parts, List.mem_cons, List.mem_append] using hinner
    · exact .inr (.inl (mem_parts_trans callee hcallee hinner))
    · exact .inr (.inr (mem_allParts_trans arguments harguments hinner))
  | assignment left right | logical operator left right | binary operator left right =>
    simp only [parts, List.mem_cons, List.mem_append] at hpart ⊢
    rcases hpart with rfl | hleft | hright
    · simpa only [parts, List.mem_cons, List.mem_append] using hinner
    · exact .inr (.inl (mem_parts_trans left hleft hinner))
    · exact .inr (.inr (mem_parts_trans right hright hinner))
  | conditional test alternate consequent =>
    simp only [parts, List.mem_cons, List.mem_append] at hpart ⊢
    rcases hpart with rfl | (htest | halternate) | hconsequent
    · simpa only [parts, List.mem_cons, List.mem_append] using hinner
    · exact .inr (.inl (.inl (mem_parts_trans test htest hinner)))
    · exact .inr (.inl (.inr (mem_parts_trans alternate halternate hinner)))
    · exact .inr (.inr (mem_parts_trans consequent hconsequent hinner))
  | object properties =>
    rcases List.mem_cons.mp hpart with rfl | hproperties
    · exact hinner
    · exact List.mem_cons_of_mem _ (mem_propertyParts_trans properties hproperties hinner)

/-- The parts of the parts of several trees are among these. -/
theorem mem_allParts_trans (nodes : List Node) {part inner : Node} (hpart : part ∈ allParts nodes)
    (hinner : inner ∈ part.parts) : inner ∈ allParts nodes := by
  cases nodes with
  | nil => cases hpart
  | cons node rest =>
    rcases List.mem_append.mp hpart with hfirst | hrest
    · exact List.mem_append_left _ (mem_parts_trans node hfirst hinner)
    · exact List.mem_append_right _ (mem_allParts_trans rest hrest hinner)

/-- The parts of the parts of entries are among these. -/
theorem mem_propertyParts_trans (properties : List Property) {part inner : Node}
    (hpart : part ∈ propertyParts properties) (hinner : inner ∈ part.parts) :
    inner ∈ propertyParts properties := by
  cases properties with
  | nil => cases hpart
  | cons property rest =>
    obtain ⟨key, value, computed⟩ := property
    simp only [propertyParts, List.mem_append] at hpart ⊢
    rcases hpart with (hkey | hvalue) | hrest
    · refine .inl (.inl ?_)
      cases computed with
      | true => exact mem_parts_trans key hkey hinner
      | false =>
        cases key with
        | literal value =>
          cases List.mem_singleton.mp hkey
          exact hinner
        | _ => cases hkey
    · exact .inl (.inr (mem_parts_trans value hvalue hinner))
    · exact .inr (mem_propertyParts_trans rest hrest hinner)

end

/-- The parts of the statements of a program are parts of the program. -/
theorem mem_parts_of_mem_statements {node part : Node} (h : part ∈ allParts node.statements) :
    part ∈ node.parts := by
  cases node with
  | program body =>
    obtain ⟨statement, hstatement, hpart⟩ := mem_allParts.mp h
    obtain ⟨inner, hinner, rfl⟩ := List.mem_map.mp hstatement
    refine List.mem_cons_of_mem _ (mem_allParts.mpr ⟨inner, hinner, ?_⟩)
    cases inner with
    | statement expression => exact List.mem_cons_of_mem _ hpart
    | _ => exact hpart
  | statement expression =>
    refine List.mem_cons_of_mem _ ?_
    simpa [statements, allParts] using h
  | _ => simpa [statements, allParts] using h

/-- A tree that is not printed as what it is. -/
def Misprinted : Node → Prop
  | .literal (.float value) => value.isFinite = false
  | .identifier name => name ∈ keywords
  | _ => False

/-- Whether a member access is spelled with a point. -/
def isDotted : Node → Bool
  | .member _ _ false => true
  | _ => false

/-- A keyword denotes no identifier. -/
theorem primaryName_eq_identifier_iff {name : String} :
    Parser.primaryName {} name = .identifier name ↔ name ∉ keywords := by
  refine ⟨fun h hmem => ?_, Parser.primaryName_of_notMem⟩
  simp only [keywords, List.mem_cons, List.not_mem_nil, or_false] at hmem
  rcases hmem with rfl | rfl | rfl | rfl | rfl | rfl <;> cases h

/-- A number that is not finite is displayed as a name that is no keyword. -/
theorem display_notMem_keywords {value : Binary64} (h : value.isFinite = false) :
    value.display ∉ keywords := by
  cases value with
  | nan => decide
  | signed negative magnitude =>
    have hinfinite : magnitude = .infinity := by
      simpa [Binary64.isFinite, Binary64.units?] using h
    cases negative <;> simp only [Binary64.display, hinfinite] <;> decide

/-- A literal that is not printed as what it is comes back as an identifier. -/
theorem reread_literal_cases (value : Literal) :
    ¬(literal value).Misprinted ∧ value.reread = .literal value ∧
        rereadKey (.literal value) = .literal value ∨
      (literal value).Misprinted ∧ ∃ name, value.reread = .identifier name ∧
        rereadKey (.literal value) = .identifier name := by
  cases value with
  | float value =>
    cases hfinite : value.isFinite with
    | true => exact .inl (by simp [Misprinted, Literal.reread, rereadKey, hfinite])
    | false =>
      have hname := Parser.primaryName_of_notMem (display_notMem_keywords hfinite)
      exact .inr ⟨hfinite, value.display, by simp [Literal.reread, rereadKey, hfinite, hname]⟩
  | _ => exact .inl ⟨id, rfl, rfl⟩

mutual

/-- A tree comes back as itself exactly if all its parts are printed as what they are. -/
theorem reread_eq_self_iff (node : Node) :
    node.reread = node ↔ ∀ part ∈ node.parts, ¬part.Misprinted := by
  cases node with
  | program body => simp [reread, parts, Misprinted, rereadAll_eq_self_iff body]
  | statement expression => simp [reread, parts, Misprinted, reread_eq_self_iff expression]
  | literal value =>
    simp only [reread, parts, List.forall_mem_singleton]
    rcases reread_literal_cases value with ⟨hprinted, hreread, -⟩ | ⟨hprinted, name, hreread, -⟩ <;>
      simp [hprinted, hreread]
  | identifier name => simp [reread, parts, Misprinted, primaryName_eq_identifier_iff]
  | this | locals => simp [reread, parts, Misprinted]
  | member holder property computed =>
    cases computed <;>
      simp [reread, parts, Misprinted, reread_eq_self_iff holder, reread_eq_self_iff property,
        or_imp, forall_and]
  | call callee arguments =>
    simp [reread, parts, Misprinted, reread_eq_self_iff callee, rereadAll_eq_self_iff arguments,
      or_imp, forall_and]
  | filter name arguments => simp [reread, parts, Misprinted, rereadAll_eq_self_iff arguments]
  | assignment target value =>
    simp [reread, parts, Misprinted, reread_eq_self_iff target, reread_eq_self_iff value, or_imp,
      forall_and]
  | conditional test alternate consequent =>
    simp [reread, parts, Misprinted, reread_eq_self_iff test, reread_eq_self_iff alternate,
      reread_eq_self_iff consequent, or_imp, forall_and]
  | logical operator left right | binary operator left right =>
    simp [reread, parts, Misprinted, reread_eq_self_iff left, reread_eq_self_iff right, or_imp,
      forall_and]
  | unary operator leading argument =>
    simp [reread, parts, Misprinted, reread_eq_self_iff argument]
  | array elements => simp [reread, parts, Misprinted, rereadAll_eq_self_iff elements]
  | object properties =>
    simp [reread, parts, Misprinted, rereadProperties_eq_self_iff properties]

/-- Trees come back as they are if none of their parts is misprinted. -/
theorem rereadAll_eq_self_iff (nodes : List Node) :
    rereadAll nodes = nodes ↔ ∀ part ∈ allParts nodes, ¬part.Misprinted := by
  cases nodes with
  | nil => simp [rereadAll, allParts]
  | cons node rest =>
    simp [rereadAll, allParts, reread_eq_self_iff node, rereadAll_eq_self_iff rest, or_imp,
      forall_and]

/-- Entries come back as they are if none of their parts is misprinted. -/
theorem rereadProperties_eq_self_iff (properties : List Property) :
    rereadProperties properties = properties ↔
      ∀ part ∈ propertyParts properties, ¬part.Misprinted := by
  cases properties with
  | nil => simp [rereadProperties, propertyParts]
  | cons property rest =>
    obtain ⟨key, value, computed⟩ := property
    have hkey : rereadKey key = key ↔ ∀ part ∈ keyParts key, ¬part.Misprinted := by
      cases key with
      | literal literal =>
        simp only [keyParts, List.forall_mem_singleton]
        rcases reread_literal_cases literal with
          ⟨hprinted, -, hreread⟩ | ⟨hprinted, name, -, hreread⟩ <;> simp [hprinted, hreread]
      | _ => simp [rereadKey, keyParts]
    cases computed <;>
      simp [rereadProperties, propertyParts, hkey, reread_eq_self_iff key,
        reread_eq_self_iff value, rereadProperties_eq_self_iff rest, or_imp, forall_and, and_assoc]

end

/-- A word has no points. -/
theorem countP_primaryName (name : String) :
    (Parser.primaryName {} name).parts.countP isDotted = 0 := by
  by_cases hkeyword : name ∈ keywords
  · simp only [keywords, List.mem_cons, List.not_mem_nil, or_false] at hkeyword
    rcases hkeyword with rfl | rfl | rfl | rfl | rfl | rfl <;> rfl
  · rw [Parser.primaryName_of_notMem hkeyword]
    rfl

/-- A key has no points. -/
theorem countP_keyParts (key : Node) : key.keyParts.countP isDotted = 0 := by
  cases key <;> rfl

mutual

/-- No point of a tree is lost or made up where the tree comes back as another one. -/
theorem countP_reread (node : Node) :
    node.reread.parts.countP isDotted = node.parts.countP isDotted := by
  cases node with
  | program body => simp [reread, parts, isDotted, countP_rereadAll body]
  | statement expression => simp [reread, parts, isDotted, countP_reread expression]
  | literal value =>
    simp only [reread]
    rcases reread_literal_cases value with ⟨-, hreread, -⟩ | ⟨-, name, hreread, -⟩ <;>
      simp [hreread, parts, isDotted]
  | identifier name => rw [reread, countP_primaryName]; rfl
  | this | locals => rfl
  | member holder property computed =>
    cases computed <;>
      simp [reread, parts, isDotted, List.countP_cons, countP_reread holder,
        countP_reread property]
  | call callee arguments =>
    simp [reread, parts, isDotted, countP_reread callee, countP_rereadAll arguments]
  | filter name arguments => simp [reread, parts, isDotted, countP_rereadAll arguments]
  | assignment target value =>
    simp [reread, parts, isDotted, countP_reread target, countP_reread value]
  | conditional test alternate consequent =>
    simp [reread, parts, isDotted, countP_reread test, countP_reread alternate,
      countP_reread consequent]
  | logical operator left right | binary operator left right =>
    simp [reread, parts, isDotted, countP_reread left, countP_reread right]
  | unary operator leading argument => simp [reread, parts, isDotted, countP_reread argument]
  | array elements => simp [reread, parts, isDotted, countP_rereadAll elements]
  | object properties => simp [reread, parts, isDotted, countP_rereadProperties properties]

/-- No point of several trees is lost or made up. -/
theorem countP_rereadAll (nodes : List Node) :
    (allParts (rereadAll nodes)).countP isDotted = (allParts nodes).countP isDotted := by
  cases nodes with
  | nil => rfl
  | cons node rest => simp [rereadAll, allParts, countP_reread node, countP_rereadAll rest]

/-- No point of an object is lost or made up. -/
theorem countP_rereadProperties (properties : List Property) :
    (propertyParts (rereadProperties properties)).countP isDotted =
      (propertyParts properties).countP isDotted := by
  cases properties with
  | nil => rfl
  | cons property rest =>
    obtain ⟨key, value, computed⟩ := property
    cases computed <;>
      simp [rereadProperties, propertyParts, countP_keyParts, countP_reread key,
        countP_reread value, countP_rereadProperties rest]

end

end Node

open Node

/-- The parts of what a phrase of the category denotes. -/
def Category.parts : (category : Category) → category.Tree → List Node
  | .expression _, node => node.parts
  | .filterArguments, nodes | .arguments, nodes | .someArguments, nodes | .elements, nodes =>
    allParts nodes
  | .properties, entries => propertyParts entries
  | .property, entry => propertyParts [entry]
  | .statements, body => allParts body
  | .program, tree => tree.parts

/-- What operators join is no member access, and the operands are its parts. -/
theorem countP_join {level : Level} {sign : Symbol} {join : Node → Node → Node}
    (h : level.Joins sign join) (left right : Node) :
    (join left right).parts.countP isDotted =
      left.parts.countP isDotted + right.parts.countP isDotted := by
  cases h <;> simp [Node.parts, isDotted]

/-- Each point of a phrase is the point of one member access. -/
theorem Derives.dots_eq {category : Category} {ls : List Lexeme} {tree : category.Tree}
    (h : Derives {} category ls tree) : dots ls = (category.parts tree).countP isDotted := by
  induction h with
  | name hdenotes =>
    obtain rfl := denotes_iff.mp hdenotes
    simp [Category.parts, countP_primaryName]
  | @join _ _ sign _ _ _ _ _ hjoins _ _ _ hleft hright =>
    have hsign : sign ≠ .dot := by cases hjoins <;> decide
    simp only [Category.parts] at hleft hright
    simp [Category.parts, countP_join hjoins, hsign, hleft, hright]
  | unary operator _ ih =>
    have hsign : operator.symbol ≠ .dot := by cases operator <;> decide
    simp only [Category.parts] at ih
    simp [Category.parts, Node.parts, isDotted, hsign, ih]
  | @nextProperty _ _ property _ _ _ hfirst hrest =>
    obtain ⟨key, value, computed⟩ := property
    simp only [Category.parts] at hfirst hrest
    simp [Category.parts, propertyParts, hfirst, hrest, Nat.add_assoc]
  | namedMember name _ ih =>
    simp only [Category.parts] at ih
    simp [Category.parts, Node.parts, isDotted, List.countP_cons, ih]
  | _ => simp_all [Category.parts, Node.parts, allParts, propertyParts, keyParts, isDotted]

end TemplateExpr
