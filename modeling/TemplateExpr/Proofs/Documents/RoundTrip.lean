import TemplateExpr.Node.Document

/-!
# Trees survive their documents

The document of a tree is read as the same tree, whatever stands in it, as long as its floats are
finite: documents have no place for others. Since no document gives a tree another float, each tree
that is read from some document is read again from its own one.

A node is read from the documents of its children, the trees that it is made of directly. So reading
is followed one level at a time, and the depth of the document is all that is known of the rest.
-/

namespace TemplateExpr

/-- A member of an object is less deep than the object. -/
theorem Json.depth_lt_of_get? {members : List (String × Json)} {name : String} {part : Json}
    (h : Fields.get? members name = some part) : part.depth < (Json.object members).depth := by
  rw [depth, Nat.lt_succ_iff]
  induction members with
  | nil => cases h
  | cons entry rest ih =>
    obtain ⟨other, value⟩ := entry
    rw [Fields.get?_cons] at h
    rw [depthOfMembers]
    split at h
    · cases h
      exact Nat.le_max_left _ _
    · exact Nat.le_trans (ih h) (Nat.le_max_right _ _)

/-- What is listed last under a name is less deep than the object. -/
theorem Json.depth_lt_of_member {members : List (String × Json)} (name : String) {part : Json}
    (h : Fields.get? members.reverse name = some part) : part.depth < (ofMembers members).depth :=
  depth_lt_of_get? ((Fields.get?_ofEntries members name).trans h)

/-- An item of an array is less deep than the array. -/
theorem Json.depth_lt_of_mem {items : List Json} {item : Json} (h : item ∈ items) :
    item.depth < (Json.array items).depth := by
  rw [depth, Nat.lt_succ_iff]
  induction items with
  | nil => cases h
  | cons first rest ih =>
    rw [depthOfItems]
    rcases List.mem_cons.mp h with rfl | hrest
    · exact Nat.le_max_left _ _
    · exact Nat.le_trans (ih hrest) (Nat.le_max_right _ _)

/-- There is no document without depth. -/
theorem Json.depth_pos (document : Json) : 0 < document.depth := by
  cases document <;> simp [depth]

/-- A finite float is the document of itself. -/
theorem Json.ofBinary64_of_isFinite {x : Binary64} (h : x.isFinite = true) :
    Json.ofBinary64 x = .float x h := by
  simp [ofBinary64, float?, h]

/-- A finite float and every other literal is read back from its document. -/
theorem Literal.ofJson?_of_toJson? {literal : Literal} {document : Json}
    (hfinite : ∀ x, literal = .float x → x.isFinite = true)
    (h : literal.toJson? = some document) : ofJson? document = some literal := by
  cases literal with
  | undefined => cases h
  | float x =>
    cases h
    rw [Json.ofBinary64_of_isFinite (hfinite x rfl), ofJson?]
  | _ =>
    cases h
    rfl

/-- A float that is read is finite. -/
theorem Literal.isFinite_of_ofJson? {document : Json} {x : Binary64}
    (h : ofJson? document = some (.float x)) : x.isFinite = true := by
  cases document with
  | float value finite =>
    cases h
    exact finite
  | _ => cases h

namespace Property

/-- The two trees that an entry is made of. -/
def children : Property → List Node
  | .entry key value _ => [key, value]

/-- The document of an entry. -/
def toJson : Property → Json
  | .entry key value computed =>
    .ofMembers [("type", .string "Property"), ("kind", .string "init"), ("key", key.toJson),
      ("value", value.toJson), ("computed", .boolean computed)]

end Property

namespace Node

/-- The trees that a tree is made of directly, also the names that are no expressions. -/
def children : Node → List Node
  | .program body => body
  | .statement expression => [expression]
  | .literal _ | .identifier _ | .this | .locals => []
  | .member holder property _ => [holder, property]
  | .call callee arguments => callee :: arguments
  | .filter name arguments => name :: arguments
  | .assignment target value => [target, value]
  | .conditional test alternate consequent => [test, alternate, consequent]
  | .logical _ left right => [left, right]
  | .binary _ left right => [left, right]
  | .unary _ _ argument => [argument]
  | .array elements => elements
  | .object properties => properties.flatMap Property.children

mutual

/-- All literals that stand anywhere in a tree. -/
def literals : Node → List Literal
  | .program body => allLiterals body
  | .statement expression => literals expression
  | .literal value => [value]
  | .identifier _ | .this | .locals => []
  | .member holder property _ => literals holder ++ literals property
  | .call callee arguments => literals callee ++ allLiterals arguments
  | .filter name arguments => literals name ++ allLiterals arguments
  | .assignment target value => literals target ++ literals value
  | .conditional test alternate consequent =>
    literals test ++ (literals alternate ++ literals consequent)
  | .logical _ left right => literals left ++ literals right
  | .binary _ left right => literals left ++ literals right
  | .unary _ _ argument => literals argument
  | .array elements => allLiterals elements
  | .object properties => propertyLiterals properties

/-- All literals that stand anywhere in several trees. -/
def allLiterals : List Node → List Literal
  | [] => []
  | node :: rest => literals node ++ allLiterals rest

/-- All literals that stand anywhere in the entries of an object literal. -/
def propertyLiterals : List Property → List Literal
  | [] => []
  | .entry key value _ :: rest => literals key ++ (literals value ++ propertyLiterals rest)

end

/-- The literals of several trees are those of each of them. -/
theorem allLiterals_eq_flatMap (nodes : List Node) :
    allLiterals nodes = nodes.flatMap literals := by
  induction nodes with
  | nil => rfl
  | cons node rest ih => rw [allLiterals, ih, List.flatMap_cons]

/-- The literals of entries are those of their keys and values. -/
theorem propertyLiterals_eq_flatMap (properties : List Property) :
    propertyLiterals properties = (properties.flatMap Property.children).flatMap literals := by
  induction properties with
  | nil => rfl
  | cons property rest ih =>
    obtain ⟨key, value, computed⟩ := property
    simp [propertyLiterals, Property.children, ih]

/-- A tree other than a literal has the literals of its children. -/
theorem literals_eq_flatMap {node : Node} (h : ∀ value, node ≠ .literal value) :
    node.literals = node.children.flatMap literals := by
  cases node with
  | literal value => exact absurd rfl (h value)
  | _ =>
    simp [literals, children, allLiterals_eq_flatMap, propertyLiterals_eq_flatMap]

/-- The literals of a child are literals of the tree. -/
theorem mem_literals_of_mem_children {node child : Node} {value : Literal}
    (hchild : child ∈ node.children) (hvalue : value ∈ child.literals) : value ∈ node.literals := by
  rw [literals_eq_flatMap]
  · exact List.mem_flatMap.mpr ⟨child, hchild, hvalue⟩
  · rintro value rfl
    cases hchild

section Writing

/-- Trees are written one by one. -/
theorem allToJson_eq_map (nodes : List Node) : allToJson nodes = nodes.map toJson := by
  induction nodes with
  | nil => rfl
  | cons node rest ih => rw [allToJson, ih, List.map_cons]

/-- Entries are written one by one. -/
theorem propertiesToJson_eq_map (properties : List Property) :
    propertiesToJson properties = properties.map Property.toJson := by
  induction properties with
  | nil => rfl
  | cons property rest ih =>
    obtain ⟨key, value, computed⟩ := property
    rw [propertiesToJson, ih, List.map_cons, Property.toJson]

/-- The documents of trees in an array are less deep than the array. -/
theorem depth_toJson_lt_of_mem {nodes : List Node} {node : Node} (h : node ∈ nodes) :
    node.toJson.depth < (Json.array (allToJson nodes)).depth := by
  rw [allToJson_eq_map]
  exact Json.depth_lt_of_mem (List.mem_map.mpr ⟨node, h, rfl⟩)

/-- The documents of keys and values are less deep than the array of the entries. -/
theorem depth_toJson_lt_of_mem_properties {properties : List Property} {child : Node}
    (h : child ∈ properties.flatMap Property.children) :
    child.toJson.depth < (Json.array (propertiesToJson properties)).depth := by
  obtain ⟨⟨key, value, computed⟩, hproperty, hchild⟩ := List.mem_flatMap.mp h
  have hentry : (Property.entry key value computed).toJson.depth <
      (Json.array (propertiesToJson properties)).depth := by
    rw [propertiesToJson_eq_map]
    exact Json.depth_lt_of_mem (List.mem_map.mpr ⟨_, hproperty, rfl⟩)
  refine Nat.lt_trans ?_ hentry
  simp only [Property.children, List.mem_cons, List.not_mem_nil, or_false] at hchild
  rcases hchild with rfl | rfl
  · exact Json.depth_lt_of_member "key" rfl
  · exact Json.depth_lt_of_member "value" rfl

/-- The documents of the children of a tree are less deep than that of the tree. -/
theorem depth_toJson_lt_of_mem_children {node child : Node} (h : child ∈ node.children) :
    child.toJson.depth < node.toJson.depth := by
  cases node with
  | literal | identifier | this | locals => cases h
  | program nodes =>
    exact Nat.lt_trans (depth_toJson_lt_of_mem h) (Json.depth_lt_of_member "body" rfl)
  | array nodes =>
    exact Nat.lt_trans (depth_toJson_lt_of_mem h) (Json.depth_lt_of_member "elements" rfl)
  | object properties =>
    exact Nat.lt_trans (depth_toJson_lt_of_mem_properties h)
      (Json.depth_lt_of_member "properties" rfl)
  | call first nodes | filter first nodes =>
    rcases List.mem_cons.mp h with rfl | h
    · exact Json.depth_lt_of_member "callee" rfl
    · exact Nat.lt_trans (depth_toJson_lt_of_mem h) (Json.depth_lt_of_member "arguments" rfl)
  | statement expression =>
    cases List.mem_singleton.mp h
    exact Json.depth_lt_of_member "expression" rfl
  | unary operator leading argument =>
    cases List.mem_singleton.mp h
    exact Json.depth_lt_of_member "argument" rfl
  | member holder property computed =>
    simp only [children, List.mem_cons, List.not_mem_nil, or_false] at h
    rcases h with rfl | rfl
    · exact Json.depth_lt_of_member "object" rfl
    · exact Json.depth_lt_of_member "property" rfl
  | assignment left right | logical operator left right | binary operator left right =>
    simp only [children, List.mem_cons, List.not_mem_nil, or_false] at h
    rcases h with rfl | rfl
    · exact Json.depth_lt_of_member "left" rfl
    · exact Json.depth_lt_of_member "right" rfl
  | conditional test alternate consequent =>
    simp only [children, List.mem_cons, List.not_mem_nil, or_false] at h
    rcases h with rfl | rfl | rfl
    · exact Json.depth_lt_of_member "test" rfl
    · exact Json.depth_lt_of_member "alternate" rfl
    · exact Json.depth_lt_of_member "consequent" rfl

end Writing

section Reading

variable {node? : Json → Option Node}

/-- The kind of a node is read back from its name. -/
theorem kind?_name (nested : Bool) (kind : NodeKind) :
    kind? nested (.string kind.name) = some kind := by
  cases kind <;> rfl

/-- What names a node are the members that are listed last under them. -/
theorem documentParts?_ofMembers (names : List String) (members : List (String × Json)) :
    documentParts? names (.ofMembers members) =
      some (names.map (Fields.get? members.reverse)) := by
  simp only [Json.ofMembers, documentParts?, Option.some.injEq]
  exact List.map_congr_left fun name _ => Fields.get?_ofEntries members name

/-- Trees in an array are read back if each of them is. -/
theorem all?_allToJson {nodes : List Node} (h : ∀ node ∈ nodes, node? node.toJson = some node) :
    all? node? (.array (allToJson nodes)) = some nodes := by
  rw [all?]
  induction nodes with
  | nil => rfl
  | cons node rest ih =>
    rw [List.forall_mem_cons] at h
    rw [allToJson, List.mapM_cons, h.1, ih h.2]
    rfl

/-- An entry is read back if its key and its value are. -/
theorem property?_toJson {property : Property}
    (h : ∀ child ∈ property.children, node? child.toJson = some child) :
    property? node? property.toJson = some property := by
  obtain ⟨key, value, computed⟩ := property
  simp only [Property.children, List.forall_mem_cons] at h
  obtain ⟨hkey, hvalue, -⟩ := h
  have hparts := documentParts?_ofMembers ["kind", "key", "value", "computed"]
    [("type", .string "Property"), ("kind", .string "init"), ("key", key.toJson),
      ("value", value.toJson), ("computed", .boolean computed)]
  simp only [Json.ofMembers] at hparts
  simp [property?, Property.toJson, Json.ofMembers, hparts, Fields.get?_cons, hkey, hvalue,
    bareName?, Json.boolean?]

/-- Entries in an array are read back if their keys and values are. -/
theorem mapM_propertiesToJson {properties : List Property}
    (h : ∀ child ∈ properties.flatMap Property.children, node? child.toJson = some child) :
    (propertiesToJson properties).mapM (property? node?) = some properties := by
  induction properties with
  | nil => rfl
  | cons property rest ih =>
    simp only [List.flatMap_cons, List.forall_mem_append] at h
    rw [propertiesToJson_eq_map, List.map_cons, ← propertiesToJson_eq_map, List.mapM_cons,
      property?_toJson h.1, ih h.2]
    rfl

/-- The kind of a tree. -/
def kind : Node → NodeKind
  | .program _ => .program
  | .statement _ => .statement
  | .literal _ => .literal
  | .identifier _ => .identifier
  | .this => .this
  | .locals => .locals
  | .member .. => .member
  | .call .. | .filter .. => .call
  | .assignment .. => .assignment
  | .conditional .. => .conditional
  | .logical .. => .logical
  | .binary .. => .binary
  | .unary .. => .unary
  | .array _ => .array
  | .object _ => .object

/-- A tree is read back if its children are and it is no float that is not finite. -/
theorem ofKind?_toJson {node : Node} (hfinite : ∀ x, node = .literal (.float x) → x.isFinite = true)
    (h : ∀ child ∈ node.children, node? child.toJson = some child) :
    ofKind? node? node.kind node.toJson = some node := by
  cases node with
  | program nodes | array nodes =>
    have hnodes : all? node? (.array (allToJson nodes)) = some nodes := all?_allToJson h
    simp [kind, toJson, tagged, ofKind?, documentParts?_ofMembers, Fields.get?_cons, hnodes]
  | object properties =>
    have hproperties : (propertiesToJson properties).mapM (property? node?) = some properties :=
      mapM_propertiesToJson h
    simp [kind, toJson, tagged, ofKind?, documentParts?_ofMembers, Fields.get?_cons, hproperties]
  | identifier | this | locals =>
    simp [kind, toJson, tagged, ofKind?, documentParts?_ofMembers, Fields.get?_cons, Json.text?]
  | literal value =>
    cases hdocument : value.toJson? with
    | none =>
      obtain rfl : value = .undefined := by cases value <;> first | rfl | cases hdocument
      simp [kind, toJson, tagged, ofKind?, documentParts?_ofMembers, Fields.get?_cons, hdocument]
    | some document =>
      have hvalue : Literal.ofJson? document = some value :=
        Literal.ofJson?_of_toJson? (fun x hx => hfinite x (congrArg literal hx)) hdocument
      simp [kind, toJson, tagged, ofKind?, documentParts?_ofMembers, Fields.get?_cons, hdocument,
        hvalue]
  | member holder property computed =>
    simp only [children, List.forall_mem_cons] at h
    simp [kind, toJson, tagged, ofKind?, documentParts?_ofMembers, Fields.get?_cons, h,
      Json.boolean?]
  | call first nodes | filter first nodes =>
    simp only [children, List.forall_mem_cons] at h
    have hnodes : all? node? (.array (allToJson nodes)) = some nodes := all?_allToJson h.2
    simp [kind, toJson, tagged, ofKind?, documentParts?_ofMembers, Fields.get?_cons, h.1, hnodes,
      Json.boolean?]
  | assignment left right =>
    simp only [children, List.forall_mem_cons] at h
    simp [kind, toJson, tagged, ofKind?, documentParts?_ofMembers, Fields.get?_cons, h, bareName?]
  | logical operator left right =>
    simp only [children, List.forall_mem_cons] at h
    simp [kind, toJson, tagged, ofKind?, documentParts?_ofMembers, Fields.get?_cons, h, bareName?,
      LogicalOperator.ofText?_text]
  | binary operator left right =>
    simp only [children, List.forall_mem_cons] at h
    simp [kind, toJson, tagged, ofKind?, documentParts?_ofMembers, Fields.get?_cons, h, bareName?,
      BinaryOperator.ofText?_text]
  | unary operator leading argument =>
    simp only [children, List.forall_mem_cons] at h
    simp [kind, toJson, tagged, ofKind?, documentParts?_ofMembers, Fields.get?_cons, h, bareName?,
      UnaryOperator.ofText?_text, Json.boolean?]
  | statement | conditional =>
    simp only [children, List.forall_mem_cons] at h
    simp [kind, toJson, tagged, ofKind?, documentParts?_ofMembers, Fields.get?_cons, h]

/-- The kind of a tree is read from its document. -/
theorem documentKind?_toJson (nested : Bool) (node : Node) :
    documentKind? nested node.toJson = some node.kind := by
  have hkind (members : List (String × Json)) (kind : NodeKind)
      (h : Fields.get? members.reverse "type" = none) :
      documentKind? nested (tagged kind members) = some kind := by
    rw [Fields.get?] at h
    rw [tagged, Json.ofMembers, documentKind?, Fields.get?_ofEntries, List.reverse_cons,
      Fields.get?, List.lookup_append, h]
    exact kind?_name nested kind
  cases node with
  | literal value =>
    refine hkind _ _ ?_
    cases value.toJson? <;> rfl
  | _ => exact hkind _ _ rfl

/-- A tree with finite floats is read back from its document. -/
theorem ofDocument?_toJson {depth : Nat} {node : Node} (hdepth : node.toJson.depth ≤ depth)
    (hfinite : ∀ x, Literal.float x ∈ node.literals → x.isFinite = true) (nested : Bool) :
    ofDocument? depth nested node.toJson = some node := by
  induction depth generalizing node nested with
  | zero => exact absurd node.toJson.depth_pos (by omega)
  | succ depth ih =>
    have hchildren : ∀ child ∈ node.children,
        ofDocument? depth true child.toJson = some child := by
      intro child hchild
      have hless := depth_toJson_lt_of_mem_children hchild
      exact ih (by omega) (fun x hx => hfinite x (mem_literals_of_mem_children hchild hx)) true
    have hself : ∀ x, node = .literal (.float x) → x.isFinite = true := by
      rintro x rfl
      exact hfinite x List.mem_cons_self
    rw [ofDocument?, documentKind?_toJson]
    exact ofKind?_toJson hself hchildren

/-- Each thing that is read from an array is read from one of its items. -/
theorem exists_of_mem_mapM {α β : Type} {read : α → Option β} {items : List α} {results : List β}
    (h : items.mapM read = some results) {result : β} (hresult : result ∈ results) :
    ∃ item, read item = some result := by
  induction items generalizing results with
  | nil =>
    cases h
    cases hresult
  | cons item rest ih =>
    simp only [List.mapM_cons, Option.bind_eq_bind, Option.bind_eq_some_iff] at h
    obtain ⟨first, hfirst, others, hothers, h⟩ := h
    cases h
    rcases List.mem_cons.mp hresult with rfl | hresult
    · exact ⟨item, hfirst⟩
    · exact ih hothers hresult

/-- The trees that are read from an array of documents are read one by one. -/
theorem exists_of_mem_all? {document : Json} {nodes : List Node}
    (h : all? node? document = some nodes) : ∀ node ∈ nodes, ∃ part, node? part = some node := by
  cases document with
  | array items => exact fun node hnode => exists_of_mem_mapM h hnode
  | _ => cases h

/-- The key and the value of an entry that is read are read. -/
theorem exists_of_property? {document : Json} {property : Property}
    (h : property? node? document = some property) :
    ∀ child ∈ property.children, ∃ part, node? part = some child := by
  simp only [property?, Option.bind_eq_bind, Option.bind_eq_some_iff] at h
  obtain ⟨parts, -, h⟩ := h
  split at h
  · simp only [Option.bind_eq_some_iff] at h
    obtain ⟨initial, -, h⟩ := h
    split at h
    · simp only [Option.bind_eq_some_iff, Option.pure_def, Option.some.injEq] at h
      obtain ⟨key, hkey, value, hvalue, computed, -, rfl⟩ := h
      simp only [Property.children, List.forall_mem_cons]
      exact ⟨⟨_, hkey⟩, ⟨_, hvalue⟩, nofun⟩
    · cases h
  · cases h

/-- A node that is read is a literal that is read, or made of trees that are. -/
theorem exists_of_ofKind? {kind : NodeKind} {document : Json} {node : Node}
    (h : ofKind? node? kind document = some node) :
    (∀ x, node = .literal (.float x) → x.isFinite = true) ∧
      ∀ child ∈ node.children, ∃ part, node? part = some child := by
  cases kind with
  | this | locals =>
    obtain ⟨parts, -, h⟩ := Option.bind_eq_some_iff.mp h
    cases h
    exact ⟨nofun, nofun⟩
  | literal =>
    obtain ⟨parts, -, h⟩ := Option.bind_eq_some_iff.mp h
    split at h
    · obtain ⟨value, hvalue, h⟩ := Option.bind_eq_some_iff.mp h
      cases h
      exact ⟨fun x hx => Literal.isFinite_of_ofJson? (by cases hx; exact hvalue), nofun⟩
    · cases h
      exact ⟨nofun, nofun⟩
  | assignment =>
    obtain ⟨parts, -, h⟩ := Option.bind_eq_some_iff.mp h
    split at h
    · obtain ⟨plain, -, h⟩ := Option.bind_eq_some_iff.mp h
      split at h
      · obtain ⟨target, htarget, h⟩ := Option.bind_eq_some_iff.mp h
        obtain ⟨value, hvalue, h⟩ := Option.bind_eq_some_iff.mp h
        cases h
        refine ⟨nofun, ?_⟩
        simp only [children, List.forall_mem_cons]
        exact ⟨⟨_, htarget⟩, ⟨_, hvalue⟩, nofun⟩
      · cases h
    · cases h
  | object =>
    obtain ⟨parts, -, h⟩ := Option.bind_eq_some_iff.mp h
    split at h
    · obtain ⟨properties, hproperties, h⟩ := Option.bind_eq_some_iff.mp h
      cases h
      refine ⟨nofun, fun child hchild => ?_⟩
      obtain ⟨property, hproperty, hchild⟩ := List.mem_flatMap.mp hchild
      obtain ⟨item, hitem⟩ := exists_of_mem_mapM hproperties hproperty
      exact exists_of_property? hitem child hchild
    · cases h
  | _ =>
    simp only [ofKind?, Option.bind_eq_bind, Option.bind_eq_some_iff] at h
    obtain ⟨parts, -, h⟩ := h
    split at h
    · simp only [Option.bind_eq_some_iff, Option.pure_def, Option.some.injEq] at h
      grind [children, exists_of_mem_all?]
    · cases h

/-- The floats in what is read are finite. -/
theorem isFinite_of_ofDocument? {depth : Nat} {nested : Bool} {document : Json} {node : Node}
    (h : ofDocument? depth nested document = some node) :
    ∀ x, Literal.float x ∈ node.literals → x.isFinite = true := by
  induction depth generalizing nested document node with
  | zero => cases h
  | succ depth ih =>
    obtain ⟨kind, -, h⟩ := Option.bind_eq_some_iff.mp h
    obtain ⟨hself, hchildren⟩ := exists_of_ofKind? h
    intro x hx
    by_cases hliteral : ∃ value, node = .literal value
    · obtain ⟨value, rfl⟩ := hliteral
      cases List.mem_singleton.mp hx
      exact hself x rfl
    · rw [literals_eq_flatMap fun value hvalue => hliteral ⟨value, hvalue⟩] at hx
      obtain ⟨child, hchild, hx⟩ := List.mem_flatMap.mp hx
      obtain ⟨part, hpart⟩ := hchildren child hchild
      exact ih hpart x hx

end Reading

/-- The document of a tree is read as this tree, with the kinds of its literals, exactly if all
floats in it are finite. In particular a tree that was read from any document is read again from its
own document. -/
theorem ofJson_toJson :
    (∀ node : Node, ofJson? node.toJson = some node ↔
      ∀ x, Literal.float x ∈ node.literals → x.isFinite = true) ∧
    ∀ document node, ofJson? document = some node → ofJson? node.toJson = some node := by
  have hfinite (node : Node) (h : ∀ x, Literal.float x ∈ node.literals → x.isFinite = true) :
      ofJson? node.toJson = some node := ofDocument?_toJson (Nat.le_refl _) h false
  exact ⟨fun node => ⟨isFinite_of_ofDocument?, hfinite node⟩,
    fun document node h => hfinite node (isFinite_of_ofDocument? h)⟩

/-- A filter that is named by a number, applied to `undefined`, `null` and a negative zero, is read
from a document of rows and then from its own document. A literal that is not a number has the
document of `null`, and is not read back. -/
theorem ofJson_toJson_of_rows :
    let zero : Binary64 := Binary64.zero.neg
    let document : Json := .array [.string "CallExpression",
      .array [.string "Literal", .integer 1],
      .array [.array [.integer 2], .array [.integer 2, .null],
        .array [.integer 2, .float zero rfl]],
      .boolean true]
    let node : Node := .filter (.literal (.integer 1))
      [.literal .undefined, .literal .null, .literal (.float zero)]
    ofJson? document = some node ∧ ofJson? node.toJson = some node ∧
      ofJson? (literal (.float .nan)).toJson ≠ some (.literal (.float .nan)) := by
  intro zero document node
  have hread : ofJson? document = some node := rfl
  refine ⟨hread, ofJson_toJson.2 document node hread, fun h => ?_⟩
  have hfinite := (ofJson_toJson.1 _).mp h .nan List.mem_cons_self
  cases hfinite

end Node

end TemplateExpr
