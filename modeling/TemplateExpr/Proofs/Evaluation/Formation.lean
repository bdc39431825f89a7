import TemplateExpr.Proofs.Evaluation.Compilation
import TemplateExpr.Proofs.Printing.Parts

/-!
# Well-formed trees

Two things can be wrong with a tree: it applies a filter that is not known, or it assigns to what
is no name and no member access. Compilation reports one of the faults of the parts of a tree if
there is any, and succeeds otherwise. What is never run, such as the name of a member, of a key or
of a filter, is no part and is not looked at.
-/

namespace TemplateExpr

variable {σ : Type} {α β : Type}

namespace Node

/-- What is wrong with a tree itself, whatever its parts are. -/
def fault? (resolver : Resolver σ) (source : String) : Node → Option Error
  | .filter name _ =>
    if (resolver name.filterName).isSome then none
    else some (.unknownFilter name.filterName source)
  | .assignment target _ => if target.isAssignable then none else some (.notAssignable source)
  | _ => none

/-- The fault of a tree is an unknown filter or a target that nothing can be assigned to. -/
theorem errorClass_of_fault? {resolver : Resolver σ} {source : String} {node : Node} {error : Error}
    (h : node.fault? resolver source = some error) :
    error.errorClass = .unknownFilter ∨ error.errorClass = .nonAssignable := by
  cases node with
  | filter name arguments =>
    cases hfound : resolver name.filterName <;> simp [fault?, hfound] at h
    exact .inl (by rw [← h]; rfl)
  | assignment target value =>
    cases hassignable : target.isAssignable <;> simp [fault?, hassignable] at h
    exact .inr (by rw [← h]; rfl)
  | _ => cases h

/-- An outcome reports a fault of one of the trees, or it is a value and there is no fault. -/
def Reports (resolver : Resolver σ) (source : String) (nodes : List Node) : Except Error α → Prop
  | .ok _ => ∀ node ∈ nodes, node.fault? resolver source = none
  | .error error => ∃ node ∈ nodes, node.fault? resolver source = some error

variable {resolver : Resolver σ} {source : String}

namespace Reports

/-- Where there are no trees there is no fault. -/
theorem pure (value : α) : Reports resolver source [] (Pure.pure value : Except Error α) := nofun

/-- The first fault of two steps is reported. -/
theorem bind {nodes nodes' : List Node} {first : Except Error α} {next : α → Except Error β}
    (h : Reports resolver source nodes first)
    (hnext : ∀ value, Reports resolver source nodes' (next value)) :
    Reports resolver source (nodes ++ nodes') (first >>= next) := by
  cases first with
  | error error =>
    obtain ⟨node, hmem, hfault⟩ := h
    exact ⟨node, List.mem_append_left _ hmem, hfault⟩
  | ok value =>
    have hsecond := hnext value
    change Reports resolver source (nodes ++ nodes') (next value)
    cases hvalue : next value with
    | error error =>
      rw [hvalue] at hsecond
      obtain ⟨node, hmem, hfault⟩ := hsecond
      exact ⟨node, List.mem_append_right _ hmem, hfault⟩
    | ok result =>
      rw [hvalue] at hsecond
      exact List.forall_mem_append.mpr ⟨h, hsecond⟩

/-- The last step gives a value if there was no fault before. -/
theorem map {nodes : List Node} {first : Except Error α} (h : Reports resolver source nodes first)
    (f : α → β) : Reports resolver source nodes (do return f (← first)) := by
  cases first <;> exact h

/-- Trees without a fault of their own may be among those whose faults are reported, and their
order does not matter. -/
theorem mono {nodes nodes' : List Node} {outcome : Except Error α}
    (h : Reports resolver source nodes outcome) (hsub : ∀ node ∈ nodes, node ∈ nodes')
    (hrest : ∀ node ∈ nodes', node ∈ nodes ∨ node.fault? resolver source = none) :
    Reports resolver source nodes' outcome := by
  cases outcome with
  | ok value =>
    intro node hnode
    rcases hrest node hnode with hmem | hnone
    · exact h node hmem
    · exact hnone
  | error error =>
    obtain ⟨node, hmem, hfault⟩ := h
    exact ⟨node, hsub node hmem, hfault⟩

/-- The faults of a tree that has none of its own are those of its further parts. -/
theorem of_parts {node : Node} {nodes : List Node} {outcome : Except Error α}
    (hself : node.fault? resolver source = none)
    (hparts : ∀ part, part ∈ node.parts ↔ part = node ∨ part ∈ nodes)
    (h : Reports resolver source nodes outcome) : Reports resolver source node.parts outcome := by
  refine h.mono (fun part hpart => (hparts part).mpr (.inr hpart)) fun part hpart => ?_
  rcases (hparts part).mp hpart with rfl | hpart
  · exact .inr hself
  · exact .inl hpart

/-- There is a value exactly where there is no fault. -/
theorem exists_ok_iff {nodes : List Node} {outcome : Except Error α}
    (h : Reports resolver source nodes outcome) :
    (∃ value, outcome = .ok value) ↔ ∀ node ∈ nodes, node.fault? resolver source = none := by
  cases outcome with
  | ok value => exact ⟨fun _ => h, fun _ => ⟨value, rfl⟩⟩
  | error error =>
    obtain ⟨node, hmem, hfault⟩ := h
    constructor
    · rintro ⟨_, hok⟩
      cases hok
    · intro hnone
      rw [hnone node hmem] at hfault
      cases hfault

end Reports

/-- Compiling a key reports what compiling its tree does, if it is computed. -/
theorem reports_compileKey {property : Node} {nodes : List Node} (computed : Bool)
    (h : Reports resolver source nodes (property.compile resolver source)) :
    Reports resolver source (if computed then nodes else [])
      (compileKey resolver source property computed) := by
  cases computed with
  | true =>
    unfold compileKey
    cases hproperty : property.compile resolver source <;> rw [hproperty] at h <;> exact h
  | false => exact .pure _

mutual

/-- Compiling a tree reports a fault of its parts. -/
theorem reports_compile (node : Node) :
    Reports resolver source node.parts (node.compile resolver source) := by
  cases node with
  | program body =>
    exact ((reports_compileAll body).map _).of_parts rfl (by simp [parts])
  | statement expression =>
    exact ((reports_compile expression).map _).of_parts rfl (by simp [parts])
  | literal | identifier | this | locals =>
    exact (Reports.pure _).of_parts rfl (by simp [parts])
  | member holder property computed =>
    rw [compile_member]
    have hkey := reports_compileKey computed (reports_compile property)
    refine (hkey.bind fun key => (reports_compile holder).map fun path => _).of_parts rfl ?_
    simp [parts, or_comm]
  | call callee arguments =>
    have hparts (part : Node) : part ∈ (call callee arguments).parts ↔
        part = call callee arguments ∨ part ∈ allParts arguments ++ (callee.parts ++ []) := by
      simp [parts, or_comm]
    refine Reports.of_parts rfl hparts ((reports_compileAll arguments).bind fun codes =>
      (reports_compile callee).bind fun code => ?_)
    cases code <;> exact .pure _
  | filter name arguments =>
    rw [compile_filter]
    cases hfound : resolver name.filterName with
    | none => exact ⟨_, mem_parts_self _, by simp [fault?, hfound]⟩
    | some found =>
      exact ((reports_compileAll arguments).map _).of_parts (by simp [fault?, hfound])
        (by simp [parts])
  | assignment target value =>
    cases hassignable : target.isAssignable with
    | false =>
      simp only [compile, hassignable]
      exact ⟨_, mem_parts_self _, by simp [fault?, hassignable]⟩
    | true =>
      simp only [compile, hassignable, if_true]
      exact ((reports_compile target).bind fun _ => (reports_compile value).map _).of_parts
        (by simp [fault?, hassignable]) (by simp [parts])
  | conditional test alternate consequent =>
    exact ((reports_compile test).bind fun _ => (reports_compile alternate).bind fun _ =>
      (reports_compile consequent).map _).of_parts rfl (by simp [parts])
  | logical operator left right | binary operator left right =>
    exact ((reports_compile left).bind fun _ => (reports_compile right).map _).of_parts rfl
      (by simp [parts])
  | unary operator leading argument =>
    exact ((reports_compile argument).map _).of_parts rfl (by simp [parts])
  | array elements =>
    exact ((reports_compileAll elements).map _).of_parts rfl (by simp [parts])
  | object properties =>
    exact ((reports_compileProperties properties).map _).of_parts rfl (by simp [parts])

/-- Compiling trees reports a fault of their parts. -/
theorem reports_compileAll (nodes : List Node) :
    Reports resolver source (allParts nodes) (compileAll resolver source nodes) := by
  cases nodes with
  | nil => exact .pure []
  | cons node rest =>
    exact (reports_compile node).bind fun _ => (reports_compileAll rest).map _

/-- Compiling entries reports a fault of their parts. -/
theorem reports_compileProperties (properties : List Property) :
    Reports resolver source (propertyParts properties)
      (compileProperties resolver source properties) := by
  cases properties with
  | nil => exact .pure []
  | cons property rest =>
    obtain ⟨key, value, computed⟩ := property
    rw [compileProperties_cons]
    have hkey := reports_compileKey computed (reports_compile key)
    refine (hkey.bind fun _ => (reports_compile value).bind fun _ =>
      (reports_compileProperties rest).map _).mono ?_ ?_
    · cases computed <;> simp +contextual [propertyParts]
    · -- A constant key that is not computed is a part, but nothing can be wrong with it.
      cases computed with
      | true => exact fun node hnode => .inl (by simpa [propertyParts] using hnode)
      | false =>
        intro node hnode
        simp only [propertyParts, Bool.false_eq_true, if_false, List.mem_append] at hnode ⊢
        rcases hnode with (hkey | hvalue) | hrest
        · cases key with
          | literal =>
            cases List.mem_singleton.mp hkey
            exact .inr rfl
          | _ => cases hkey
        · exact .inl (.inr (.inl hvalue))
        · exact .inl (.inr (.inr hrest))

end

/-- What is a part of a program is a part of its statements, or has no fault of its own. -/
theorem mem_parts_statements {node part : Node} (h : part ∈ node.parts) :
    part ∈ allParts node.statements ∨ part.fault? resolver source = none := by
  cases node with
  | program body =>
    rcases List.mem_cons.mp h with rfl | hbody
    · exact .inr rfl
    · obtain ⟨inner, hinner, hpart⟩ := mem_allParts.mp hbody
      cases inner with
      | statement expression =>
        rcases List.mem_cons.mp hpart with rfl | hpart
        · exact .inr rfl
        · exact .inl (mem_allParts.mpr ⟨expression, List.mem_map.mpr ⟨_, hinner, rfl⟩, hpart⟩)
      | _ => exact .inl (mem_allParts.mpr ⟨_, List.mem_map.mpr ⟨_, hinner, rfl⟩, hpart⟩)
  | statement expression =>
    rcases List.mem_cons.mp h with rfl | hpart
    · exact .inr rfl
    · exact .inl (by simpa [statements, allParts] using hpart)
  | _ => exact .inl (by simpa [statements, allParts] using h)

/-- Compiling a program reports a fault of its parts. -/
theorem reports_statements (tree : Node) :
    Reports resolver source tree.parts (compileAll resolver source tree.statements) :=
  (reports_compileAll tree.statements).mono (fun _ => mem_parts_of_mem_statements)
    fun _ => mem_parts_statements

end Node

end TemplateExpr
