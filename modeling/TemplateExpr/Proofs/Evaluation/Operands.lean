import TemplateExpr.Node.Analysis
import TemplateExpr.Proofs.Evaluation.Compilation
import TemplateExpr.Proofs.Printing.Parts

/-!
# Operands

The operands of a tree are the trees that it is a function of: those of unary and binary operators,
of literals of arrays and objects and of filters without state. Inputs are looked for in them, so
that an input is reached from the whole tree through operands. What is reached in this way is
written, compiles and is made of parts of the whole.
-/

namespace TemplateExpr

variable {σ : Type} {resolver : Resolver σ} {source : String}

/-- The trees that an entry evaluates. -/
def Property.operands : Property → List Node
  | .entry key value computed => if computed then [key, value] else [value]

namespace Node

/-- The trees that a tree is a function of, if it is of a kind that inputs are looked for in. -/
def operands (resolver : Resolver σ) : Node → List Node
  | .unary _ _ argument => [argument]
  | .binary _ left right => [left, right]
  | .filter name arguments => if isPureFilter resolver name then arguments else []
  | .array elements => elements
  | .object properties => properties.flatMap Property.operands
  | _ => []

/-- The tree is reached from another through operands alone. -/
inductive Reaches (resolver : Resolver σ) : Node → Node → Prop
  | here (node : Node) : Reaches resolver node node
  | operand {node operand target : Node} (h : operand ∈ node.operands resolver)
      (hreaches : Reaches resolver operand target) : Reaches resolver node target

mutual

/-- Inputs are reached. -/
theorem reaches_of_mem_inputNodes (node : Node) {input : Node}
    (h : input ∈ node.inputNodes resolver) : Reaches resolver node input := by
  unfold inputNodes at h
  split at h
  case isTrue => simp at h
  case isFalse =>
    cases node with
    | unary operator leading argument =>
      exact .operand List.mem_cons_self (reaches_of_mem_inputNodes argument h)
    | binary operator left right =>
      rcases List.mem_append.mp h with hleft | hright
      · exact .operand (by simp [operands]) (reaches_of_mem_inputNodes left hleft)
      · exact .operand (by simp [operands]) (reaches_of_mem_inputNodes right hright)
    | filter name arguments =>
      simp only at h
      split at h
      case isTrue hpure =>
        obtain ⟨operand, hoperand, hreaches⟩ := reaches_of_mem_allInputNodes arguments h
        exact .operand (by simpa [operands, hpure] using hoperand) hreaches
      case isFalse =>
        cases List.mem_singleton.mp h
        exact .here _
    | array elements =>
      obtain ⟨operand, hoperand, hreaches⟩ := reaches_of_mem_allInputNodes elements h
      exact .operand hoperand hreaches
    | object properties =>
      obtain ⟨operand, hoperand, hreaches⟩ := reaches_of_mem_propertyInputNodes properties h
      exact .operand hoperand hreaches
    | this | locals => simp at h
    | _ =>
      cases List.mem_singleton.mp h
      exact .here _

/-- Each input of a list of nodes is reached from one of them. -/
theorem reaches_of_mem_allInputNodes (nodes : List Node) {input : Node}
    (h : input ∈ allInputNodes resolver nodes) :
    ∃ node ∈ nodes, Reaches resolver node input := by
  cases nodes with
  | nil => simp [allInputNodes] at h
  | cons node rest =>
    rcases List.mem_append.mp h with hnode | hrest
    · exact ⟨node, List.mem_cons_self, reaches_of_mem_inputNodes node hnode⟩
    · obtain ⟨other, hother, hreaches⟩ := reaches_of_mem_allInputNodes rest hrest
      exact ⟨other, List.mem_cons_of_mem _ hother, hreaches⟩

/-- Each input of an object is reached from a computed key or from a value. -/
theorem reaches_of_mem_propertyInputNodes (properties : List Property) {input : Node}
    (h : input ∈ propertyInputNodes resolver properties) :
    ∃ node ∈ properties.flatMap Property.operands, Reaches resolver node input := by
  cases properties with
  | nil => simp [propertyInputNodes] at h
  | cons property rest =>
    obtain ⟨key, value, computed⟩ := property
    simp only [propertyInputNodes, List.mem_append] at h
    rcases h with (hkey | hvalue) | hrest
    · cases computed with
      | false => simp at hkey
      | true => exact ⟨key, by simp [Property.operands], reaches_of_mem_inputNodes key hkey⟩
    · exact ⟨value, by cases computed <;> simp [Property.operands],
        reaches_of_mem_inputNodes value hvalue⟩
    · obtain ⟨other, hother, hreaches⟩ := reaches_of_mem_propertyInputNodes rest hrest
      exact ⟨other, List.mem_append_right _ hother, hreaches⟩

end

/-- The parts of what entries evaluate are parts of the entries. -/
theorem mem_propertyParts {part operand : Node} {properties : List Property}
    (hoperand : operand ∈ properties.flatMap Property.operands) (hpart : part ∈ operand.parts) :
    part ∈ propertyParts properties := by
  induction properties with
  | nil => simp at hoperand
  | cons property rest ih =>
    obtain ⟨key, value, computed⟩ := property
    rcases List.mem_append.mp hoperand with hfirst | hrest
    · cases computed with
      | false =>
        cases List.mem_singleton.mp hfirst
        simp [propertyParts, hpart]
      | true =>
        simp only [Property.operands, if_true, List.mem_cons, List.not_mem_nil, or_false] at hfirst
        rcases hfirst with rfl | rfl <;> simp [propertyParts, hpart]
    · simp [propertyParts, ih hrest]

/-- The parts of an operand are parts of the tree. -/
theorem mem_parts_of_mem_operands {node operand part : Node}
    (hoperand : operand ∈ node.operands resolver) (hpart : part ∈ operand.parts) :
    part ∈ node.parts := by
  cases node with
  | unary operator leading argument =>
    cases List.mem_singleton.mp hoperand
    simp [parts, hpart]
  | binary operator left right =>
    simp only [operands, List.mem_cons, List.not_mem_nil, or_false] at hoperand
    rcases hoperand with rfl | rfl <;> simp [parts, hpart]
  | filter name arguments =>
    simp only [operands] at hoperand
    split at hoperand
    · exact List.mem_cons_of_mem _ (mem_allParts.mpr ⟨operand, hoperand, hpart⟩)
    · simp at hoperand
  | array elements => exact List.mem_cons_of_mem _ (mem_allParts.mpr ⟨operand, hoperand, hpart⟩)
  | object properties => exact List.mem_cons_of_mem _ (mem_propertyParts hoperand hpart)
  | _ => simp [operands] at hoperand

/-- Each of several written trees is written. -/
theorem written_of_mem {nodes : List Node} (h : AllWritten nodes) {node : Node}
    (hnode : node ∈ nodes) : node.Written := by
  induction nodes with
  | nil => simp at hnode
  | cons first rest ih =>
    rcases List.mem_cons.mp hnode with rfl | hrest
    · exact h.1
    · exact ih h.2 hrest

/-- What written entries evaluate is written, but for the values of shorthands that are keywords. -/
theorem written_of_mem_properties {properties : List Property} (h : PropertiesWritten properties)
    (hprinted : ∀ part ∈ propertyParts properties, ¬part.Misprinted) {operand : Node}
    (hoperand : operand ∈ properties.flatMap Property.operands) : operand.Written := by
  induction properties with
  | nil => simp at hoperand
  | cons property rest ih =>
    obtain ⟨key, value, computed⟩ := property
    simp only [propertyParts, List.forall_mem_append] at hprinted
    rcases List.mem_append.mp hoperand with hfirst | hrest
    · cases computed with
      | false =>
        cases List.mem_singleton.mp hfirst
        rcases h.1.2 with hwritten | ⟨hname, rfl⟩
        · exact hwritten
        · cases operand with
          | identifier name => exact ⟨hname, hprinted.1.2 _ List.mem_cons_self⟩
          | _ => exact hname.elim
      | true =>
        simp only [Property.operands, if_true, List.mem_cons, List.not_mem_nil, or_false] at hfirst
        rcases hfirst with rfl | rfl
        · exact h.1.1
        · exact h.1.2
    · exact ih h.2 hprinted.2 hrest

/-- The operands of a written tree are written if all parts are printed as what they are. -/
theorem written_of_mem_operands {node operand : Node} (h : node.Written)
    (hprinted : ∀ part ∈ node.parts, ¬part.Misprinted)
    (hoperand : operand ∈ node.operands resolver) : operand.Written := by
  cases node with
  | unary operator leading argument =>
    cases List.mem_singleton.mp hoperand
    exact h.2
  | binary operator left right =>
    simp only [operands, List.mem_cons, List.not_mem_nil, or_false] at hoperand
    rcases hoperand with rfl | rfl
    · exact h.1
    · exact h.2
  | filter name arguments =>
    simp only [operands] at hoperand
    split at hoperand
    · exact written_of_mem h.2.2 hoperand
    · simp at hoperand
  | array elements => exact written_of_mem h hoperand
  | object properties =>
    simp only [parts, List.forall_mem_cons] at hprinted
    exact written_of_mem_properties h hprinted.2 hoperand
  | _ => simp [operands] at hoperand

/-- Each of several trees that compile does. -/
theorem compile_of_mem {nodes : List Node} {codes : List (Code σ)}
    (h : compileAll resolver source nodes = .ok codes) {node : Node} (hnode : node ∈ nodes) :
    ∃ code, node.compile resolver source = .ok code := by
  induction nodes generalizing codes with
  | nil => simp at hnode
  | cons first rest ih =>
    simp only [compileAll, bind_eq_ok] at h
    obtain ⟨code, hcode, codes, hcodes, -⟩ := h
    rcases List.mem_cons.mp hnode with rfl | hrest
    · exact ⟨code, hcode⟩
    · exact ih hcodes hrest

/-- What entries that compile evaluate compiles. -/
theorem compile_of_mem_properties {properties : List Property} {entries : List (Entry σ)}
    (h : compileProperties resolver source properties = .ok entries) {operand : Node}
    (hoperand : operand ∈ properties.flatMap Property.operands) :
    ∃ code, operand.compile resolver source = .ok code := by
  induction properties generalizing entries with
  | nil => simp at hoperand
  | cons property rest ih =>
    obtain ⟨key, value, computed⟩ := property
    simp only [compileProperties_cons_eq_ok, compileKey_eq_ok] at h
    obtain ⟨keyCode, hkey, valueCode, hvalue, more, hmore, -⟩ := h
    rcases List.mem_append.mp hoperand with hfirst | hrest
    · rcases hkey with ⟨rfl, code, hcode, -⟩ | ⟨rfl, -⟩
      · simp only [Property.operands, if_true, List.mem_cons, List.not_mem_nil, or_false] at hfirst
        rcases hfirst with rfl | rfl
        · exact ⟨code, hcode⟩
        · exact ⟨valueCode, hvalue⟩
      · cases List.mem_singleton.mp hfirst
        exact ⟨valueCode, hvalue⟩
    · exact ih hmore hrest

/-- The operands of a tree that compiles do. -/
theorem compile_of_mem_operands {node operand : Node} {code : Code σ}
    (h : node.compile resolver source = .ok code) (hoperand : operand ∈ node.operands resolver) :
    ∃ code, operand.compile resolver source = .ok code := by
  cases node with
  | unary operator leading argument =>
    cases List.mem_singleton.mp hoperand
    simp only [compile, bind_eq_ok] at h
    obtain ⟨code, hcode, -⟩ := h
    exact ⟨code, hcode⟩
  | binary operator left right =>
    simp only [compile, bind_eq_ok] at h
    obtain ⟨leftCode, hleft, rightCode, hright, -⟩ := h
    simp only [operands, List.mem_cons, List.not_mem_nil, or_false] at hoperand
    rcases hoperand with rfl | rfl
    · exact ⟨leftCode, hleft⟩
    · exact ⟨rightCode, hright⟩
  | filter name arguments =>
    obtain ⟨found, -, codes, hcodes, -⟩ := compile_filter_eq_ok.mp h
    simp only [operands] at hoperand
    split at hoperand
    · exact compile_of_mem hcodes hoperand
    · simp at hoperand
  | array elements =>
    simp only [compile, bind_eq_ok] at h
    obtain ⟨codes, hcodes, -⟩ := h
    exact compile_of_mem hcodes hoperand
  | object properties =>
    simp only [compile, bind_eq_ok] at h
    obtain ⟨entries, hentries, -⟩ := h
    exact compile_of_mem_properties hentries hoperand
  | _ => simp [operands] at hoperand

namespace Reaches

variable {node target : Node}

/-- The parts of what is reached are parts of the tree. -/
theorem mem_parts (h : Reaches resolver node target) {part : Node} (hpart : part ∈ target.parts) :
    part ∈ node.parts := by
  induction h with
  | here node => exact hpart
  | operand hoperand _ ih => exact mem_parts_of_mem_operands hoperand (ih hpart)

/-- What is reached from a written tree is written if all parts are printed as what they are. -/
theorem written (h : Reaches resolver node target) (hwritten : node.Written)
    (hprinted : ∀ part ∈ node.parts, ¬part.Misprinted) : target.Written := by
  induction h with
  | here node => exact hwritten
  | operand hoperand _ ih =>
    apply ih (written_of_mem_operands hwritten hprinted hoperand)
    intro part hpart
    exact hprinted part (mem_parts_of_mem_operands hoperand hpart)

/-- What is reached from a tree that compiles does. -/
theorem compile (h : Reaches resolver node target) {code : Code σ}
    (hcode : node.compile resolver source = .ok code) :
    ∃ code, target.compile resolver source = .ok code := by
  induction h generalizing code with
  | here node => exact ⟨code, hcode⟩
  | operand hoperand _ ih =>
    obtain ⟨operandCode, hoperandCode⟩ := compile_of_mem_operands hcode hoperand
    exact ih hoperandCode

end Reaches

end Node

end TemplateExpr
