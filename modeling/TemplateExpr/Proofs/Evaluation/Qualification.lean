import TemplateExpr.Proofs.Evaluation.Formation
import TemplateExpr.Proofs.Writing.Locality

/-!
# Names keep their meaning during a run

Where a name is looked up is decided anew at each use: in the locals if they have the name, else in
the scope. A program without assignments below the locals as a whole cannot change these answers,
whether it succeeds or fails. So the answers may be written into the program beforehand: with each
name replaced by the member of the scope or of the locals that it stands for at first, the program
does the same in every read, write and call.
-/

namespace TemplateExpr

variable {σ : Type} {α β γ : Type}

/-- The place that holds a name where the locals have the names that are told. -/
def Place.qualify (held : String → Bool) : Place → Place
  | .holder name => if held name then .locals else .scope
  | place => place

/-- The location with the place that holds its name where the locals have the names that are
told. -/
def Location.qualify (held : String → Bool) (location : Location) : Location :=
  ⟨location.place.qualify held, location.keys⟩

namespace Environment

/-- Whether locals are supplied or not as is told, and have the names that are told. -/
structure Resolves (supplied : Bool) (held : String → Bool) (env : Environment σ) : Prop where
  isSome_locals : env.locals.isSome = supplied
  shadows_eq : ∀ name, env.shadows name = held name

namespace Resolves

variable {supplied : Bool} {held : String → Bool} {env : Environment σ}

/-- The answers that an environment gives are its own. -/
theorem self (env : Environment σ) : env.Resolves env.locals.isSome env.shadows :=
  ⟨rfl, fun _ => rfl⟩

/-- The memory of the filters has no part in the answers. -/
theorem setMemory (h : env.Resolves supplied held) (memory : σ) :
    Resolves supplied held { env with memory } :=
  ⟨h.isSome_locals, h.shadows_eq⟩

/-- Only locals that are supplied have names. -/
theorem exists_locals {name : String} (h : env.shadows name = true) :
    ∃ locals, env.locals = some locals := by
  cases hlocals : env.locals with
  | none => simp [shadows, hlocals] at h
  | some locals => exact ⟨locals, rfl⟩

/-- What holds a name is what is told. -/
theorem base_qualify (h : env.Resolves supplied held) (place : Place) :
    env.base (place.qualify held) = env.base place := by
  cases place with
  | holder name => cases hheld : held name <;> simp [Place.qualify, base, h.shadows_eq, hheld]
  | _ => rfl

/-- What holds a name is replaced where it is told to be. -/
theorem setBase_qualify (h : env.Resolves supplied held) (place : Place) (value : Value) :
    env.setBase (place.qualify held) value = env.setBase place value := by
  cases place with
  | holder name =>
    cases hheld : held name with
    | false => simp [Place.qualify, setBase, h.shadows_eq, hheld]
    | true =>
      obtain ⟨locals, hlocals⟩ := exists_locals ((h.shadows_eq name).trans hheld)
      simp [Place.qualify, setBase, h.shadows_eq, hheld, hlocals]
  | _ => rfl

/-- What is read at a location is read where it is told to be. -/
theorem read_qualify (h : env.Resolves supplied held) (location : Location) :
    env.read (location.qualify held) = env.read location :=
  congrArg (Value.follow · location.keys) (h.base_qualify location.place)

/-- The receiver at a location is what is told. -/
theorem receiver_qualify (h : env.Resolves supplied held) (location : Location) :
    env.receiver (location.qualify held) = env.receiver location :=
  congrArg (Value.follow · location.keys.dropLast) (h.base_qualify location.place)

/-- What is written at a location is written where it is told to be. -/
theorem put_qualify (h : env.Resolves supplied held) (location : Location) (new : Value) :
    env.put (location.qualify held) new = env.put location new := by
  simp only [put, Location.qualify, h.base_qualify, h.setBase_qualify]

/-- Writing keeps the answers, unless it is done below the locals as a whole. -/
theorem put {after : Environment σ} {location : Location} {new : Value}
    (h : env.Resolves supplied held) (hplace : location.place ≠ .locals)
    (hname : ∀ name, location.place = .holder name → location.keys.head? = some name)
    (hput : env.put location new = .ok after) : after.Resolves supplied held := by
  obtain ⟨written, hwritten, rfl⟩ := put_eq_ok.mp hput
  obtain ⟨place, keys⟩ := location
  cases place with
  | holder name =>
    obtain ⟨rest, rfl⟩ := List.head?_eq_some_iff.mp (hname name rfl)
    refine ⟨?_, fun other => (shadows_setBase_of_put hwritten other).trans (h.shadows_eq other)⟩
    rw [← h.isSome_locals]
    by_cases hshadows : env.shadows name = true
    · obtain ⟨locals, hlocals⟩ := exists_locals hshadows
      simp [setBase, hshadows, hlocals]
    · simp [setBase, hshadows]
  | scope => exact ⟨h.isSome_locals, h.shadows_eq⟩
  | locals => exact absurd rfl hplace
  | temporary value => exact h

end Resolves

end Environment

/-- The comparison of runs from one environment in which names resolve as is told. -/
def Comparison.resolving (host : Host) (source : String) (supplied : Bool) (held : String → Bool) :
    Comparison σ where
  host := host
  host' := host
  source := source
  source' := source
  related := fun env env' => env = env' ∧ env.Resolves supplied held

namespace Comparison

variable {comparison : Comparison σ}

/-- Steps agree as a whole if what the first one gives is translated for the second ones. -/
theorem Agrees.bind_map {run : Run σ α} {run' : Run σ β} {f : α → β} {next : α → Run σ γ}
    {next' : β → Run σ γ} {P : α → Prop} (h : comparison.Agrees (do return f (← run)) run')
    (hgives : ∀ env value after, run env = (.ok value, after) → P value)
    (hnext : ∀ value, P value → comparison.Agrees (next value) (next' (f value))) :
    comparison.Agrees (run >>= next) (run' >>= next') := by
  intro env env' henv
  obtain ⟨houtcome, hafter⟩ := h env env' henv
  rw [Run.bind_apply] at houtcome hafter
  rw [Run.bind_apply, Run.bind_apply]
  rcases hrun : run env with ⟨_ | value, after⟩ <;> rcases hrun' : run' env' with ⟨outcome', after'⟩
  · rw [hrun, hrun'] at houtcome hafter
    cases houtcome with
    | error h => exact ⟨.error h, hafter⟩
  · rw [hrun, hrun'] at houtcome hafter
    cases houtcome with
    | ok => exact hnext value (hgives env value after hrun) after after' hafter

end Comparison

open Comparison

namespace Node

/-- Whether a tree is an assignment below the locals as a whole. -/
def WritesLocals : Node → Prop
  | .assignment target _ => target.root = .locals
  | _ => False

mutual

/-- The tree with each name replaced by the member of the locals or of the scope that it stands for
where the locals have the names that are told. -/
def qualify (held : String → Bool) : Node → Node
  | .program body => .program (qualifyAll held body)
  | .statement expression => .statement (expression.qualify held)
  | .literal value => .literal value
  | .identifier name => .member (if held name then .locals else .this) (.identifier name) false
  | .this => .this
  | .locals => .locals
  | .member holder property computed =>
    .member (holder.qualify held) (if computed then property.qualify held else property) computed
  | .call callee arguments => .call (callee.qualify held) (qualifyAll held arguments)
  | .filter name arguments => .filter name (qualifyAll held arguments)
  | .assignment target value => .assignment (target.qualify held) (value.qualify held)
  | .conditional test alternate consequent =>
    .conditional (test.qualify held) (alternate.qualify held) (consequent.qualify held)
  | .logical operator left right => .logical operator (left.qualify held) (right.qualify held)
  | .binary operator left right => .binary operator (left.qualify held) (right.qualify held)
  | .unary operator leading argument => .unary operator leading (argument.qualify held)
  | .array elements => .array (qualifyAll held elements)
  | .object properties => .object (qualifyProperties held properties)

/-- `Node.qualify` for lists of trees. -/
def qualifyAll (held : String → Bool) : List Node → List Node
  | [] => []
  | node :: rest => node.qualify held :: qualifyAll held rest

/-- `Node.qualify` for the entries of object literals. -/
def qualifyProperties (held : String → Bool) : List Property → List Property
  | [] => []
  | .entry key value computed :: rest =>
    .entry (if computed then key.qualify held else key) (value.qualify held) computed ::
      qualifyProperties held rest

end

section Form

variable {held : String → Bool}

/-- Lists of trees are qualified one by one. -/
theorem qualifyAll_eq_map (nodes : List Node) :
    qualifyAll held nodes = nodes.map (qualify held) := by
  induction nodes with
  | nil => rfl
  | cons node rest ih => rw [qualifyAll, ih, List.map_cons]

/-- What can be assigned to still can be, and nothing else. -/
theorem isAssignable_qualify (node : Node) :
    (node.qualify held).isAssignable = node.isAssignable := by
  cases node <;> rfl

/-- The statements of a program are qualified one by one. -/
theorem statements_qualify (tree : Node) :
    (tree.qualify held).statements = qualifyAll held tree.statements := by
  cases tree with
  | program body =>
    simp only [qualify, statements, qualifyAll_eq_map, List.map_map]
    refine List.map_congr_left fun node _ => ?_
    cases node <;> rfl
  | _ => rfl

/-- A qualified tree has the fault of the tree. -/
theorem fault?_qualify {resolver : Resolver σ} {source : String} (node : Node) :
    (node.qualify held).fault? resolver source = node.fault? resolver source := by
  cases node with
  | assignment target value => simp only [qualify, fault?, isAssignable_qualify]
  | _ => rfl

/-- Whether a tree is one of several trees qualified, or one of the two places. -/
def IsQualified (held : String → Bool) (nodes : List Node) (node : Node) : Prop :=
  (∃ inner ∈ nodes, inner.qualify held = node) ∨ node = .this ∨ node = .locals

/-- There may be further trees. -/
theorem IsQualified.mono {nodes nodes' : List Node} {node : Node}
    (h : IsQualified held nodes node) (hsub : ∀ inner ∈ nodes, inner ∈ nodes') :
    IsQualified held nodes' node := by
  rcases h with ⟨inner, hinner, hnode⟩ | hplace
  · exact .inl ⟨inner, hsub inner hinner, hnode⟩
  · exact .inr hplace

/-- No name is left where trees are qualified. -/
theorem IsQualified.ne_identifier {nodes : List Node} {node : Node}
    (h : IsQualified held nodes node) (name : String) : node ≠ .identifier name := by
  rcases h with ⟨inner, -, rfl⟩ | rfl | rfl
  · cases inner <;> simp [qualify]
  · simp
  · simp

/-- The parts of a qualified tree are its qualified self and qualified further parts. -/
theorem isQualified_parts {node : Node} {nodes further : List Node}
    (hparts : (node.qualify held).parts = node.qualify held :: further)
    (hsub : ∀ inner ∈ nodes, inner ∈ node.parts)
    (h : ∀ part ∈ further, IsQualified held nodes part) :
    ∀ part ∈ (node.qualify held).parts, IsQualified held node.parts part := by
  rw [hparts]
  refine List.forall_mem_cons.mpr ⟨.inl ⟨node, mem_parts_self node, rfl⟩, ?_⟩
  exact fun part hpart => (h part hpart).mono hsub

/-- What is qualified of one of two collections of trees is qualified of both together. -/
theorem isQualified_append {first second nodes nodes' : List Node}
    (h : ∀ part ∈ first, IsQualified held nodes part)
    (h' : ∀ part ∈ second, IsQualified held nodes' part) :
    ∀ part ∈ first ++ second, IsQualified held (nodes ++ nodes') part := by
  refine List.forall_mem_append.mpr ⟨fun part hpart => ?_, fun part hpart => ?_⟩
  · exact (h part hpart).mono fun _ => List.mem_append_left _
  · exact (h' part hpart).mono fun _ => List.mem_append_right _

mutual

/-- The parts of a qualified tree are the qualified parts of the tree, or one of the two places. -/
theorem parts_qualify (node : Node) :
    ∀ part ∈ (node.qualify held).parts, IsQualified held node.parts part := by
  cases node with
  | literal | this | locals => exact isQualified_parts rfl (List.forall_mem_nil _) nofun
  | identifier name =>
    have hparts : ((identifier name).qualify held).parts =
        (identifier name).qualify held :: [if held name then .locals else .this] := by
      cases hheld : held name <;> simp [qualify, parts, hheld]
    refine isQualified_parts hparts (List.forall_mem_nil _) fun part hpart => ?_
    cases hheld : held name <;> simp [hheld] at hpart <;> simp [IsQualified, hpart]
  | program body =>
    exact isQualified_parts rfl (fun _ => List.mem_cons_of_mem _) (allParts_qualify body)
  | statement expression =>
    exact isQualified_parts rfl (fun _ => List.mem_cons_of_mem _) (parts_qualify expression)
  | member holder property computed =>
    refine isQualified_parts rfl (fun _ => List.mem_cons_of_mem _)
      (isQualified_append (parts_qualify holder) ?_)
    cases computed with
    | true => exact parts_qualify property
    | false => exact nofun
  | call callee arguments =>
    exact isQualified_parts rfl (fun _ => List.mem_cons_of_mem _)
      (isQualified_append (parts_qualify callee) (allParts_qualify arguments))
  | filter name arguments =>
    exact isQualified_parts rfl (fun _ => List.mem_cons_of_mem _) (allParts_qualify arguments)
  | assignment left right | logical operator left right | binary operator left right =>
    exact isQualified_parts rfl (fun _ => List.mem_cons_of_mem _)
      (isQualified_append (parts_qualify left) (parts_qualify right))
  | conditional test alternate consequent =>
    exact isQualified_parts rfl (fun _ => List.mem_cons_of_mem _)
      (isQualified_append (isQualified_append (parts_qualify test) (parts_qualify alternate))
        (parts_qualify consequent))
  | unary operator leading argument =>
    exact isQualified_parts rfl (fun _ => List.mem_cons_of_mem _) (parts_qualify argument)
  | array elements =>
    exact isQualified_parts rfl (fun _ => List.mem_cons_of_mem _) (allParts_qualify elements)
  | object properties =>
    exact isQualified_parts rfl (fun _ => List.mem_cons_of_mem _)
      (propertyParts_qualify properties)

/-- The parts of qualified trees are the qualified parts of the trees, or one of the two places. -/
theorem allParts_qualify (nodes : List Node) :
    ∀ part ∈ allParts (qualifyAll held nodes), IsQualified held (allParts nodes) part := by
  cases nodes with
  | nil => exact nofun
  | cons node rest => exact isQualified_append (parts_qualify node) (allParts_qualify rest)

/-- The parts of qualified entries are the qualified parts of the entries, or one of the two
places. -/
theorem propertyParts_qualify (properties : List Property) :
    ∀ part ∈ propertyParts (qualifyProperties held properties),
      IsQualified held (propertyParts properties) part := by
  cases properties with
  | nil => exact nofun
  | cons property rest =>
    obtain ⟨key, value, computed⟩ := property
    refine isQualified_append (isQualified_append ?_ (parts_qualify value))
      (propertyParts_qualify rest)
    cases computed with
    | true => exact parts_qualify key
    | false =>
      -- A key that is not computed is left as it is, and a constant is its own qualification.
      intro part hpart
      cases key with
      | literal value =>
        cases List.mem_singleton.mp hpart
        exact .inl ⟨.literal value, hpart, rfl⟩
      | _ => cases hpart

end

/-- Qualifying a tree without faults in its parts makes none. -/
theorem fault?_parts_qualify {resolver : Resolver σ} {source : String} {node : Node}
    (h : ∀ part ∈ node.parts, part.fault? resolver source = none) :
    ∀ part ∈ (node.qualify held).parts, part.fault? resolver source = none := by
  intro part hpart
  rcases parts_qualify node part hpart with ⟨inner, hinner, rfl⟩ | rfl | rfl
  · rw [fault?_qualify]
    exact h inner hinner
  · rfl
  · rfl

end Form

section Runs

variable {resolver : Resolver σ} {host : Host} {source : String} {supplied : Bool}
  {held : String → Bool}

/-- A tree that is no chain from the locals as a whole denotes nothing below these; and what it
denotes below what holds a name, it denotes below this name. -/
theorem place_of_denotes_of_root (node : Node) (h : node.root ≠ .locals) {location : Location}
    (hlocation : node.Denotes location) :
    location.place ≠ .locals ∧
      ∀ name, location.place = .holder name → location.keys.head? = some name := by
  cases node with
  | identifier | this =>
    cases hlocation
    simp
  | locals => exact absurd rfl h
  | member holder property computed =>
    obtain ⟨inner, key, hinner, rfl⟩ := hlocation
    obtain ⟨hplace, hname⟩ := place_of_denotes_of_root holder h hinner
    refine ⟨hplace, fun name hholder => ?_⟩
    obtain ⟨rest, hkeys⟩ := List.head?_eq_some_iff.mp (hname name hholder)
    simp [Location.push, hkeys]
  | _ =>
    obtain ⟨value, rfl⟩ := hlocation
    simp [Location.ofValue]

/-- What is read agrees if the locations do up to qualification. -/
theorem fetch_qualify {run run' : Run σ Location}
    (h : (resolving host source supplied held).Agrees
      (do return (← run).qualify held) run') :
    (resolving host source supplied held).Agrees (Run.fetch run) (Run.fetch run') := by
  refine h.bind_map (P := fun _ => True) (fun _ _ _ _ => trivial) fun location _ => .inspect ?_
  rintro env _ ⟨rfl, henv⟩
  rw [henv.read_qualify]
  exact .pure _

/-- A write agrees if it is not done below the locals as a whole. -/
theorem write_qualify {location : Location} (hplace : location.place ≠ .locals)
    (hname : ∀ name, location.place = .holder name → location.keys.head? = some name)
    (value : Value) :
    (resolving host source supplied held : Comparison σ).Agrees (Run.write source location value)
      (Run.write source (location.qualify held) value) := by
  rintro env _ ⟨rfl, henv⟩
  have hsame : Run.write source (location.qualify held) value env =
      Run.write source location value env := by
    rw [Run.write_apply, Run.write_apply, henv.put_qualify]
    rfl
  rw [hsame]
  refine ⟨.refl _, rfl, ?_⟩
  rw [Run.write_apply]
  by_cases hkeys : location.keys = []
  · rwa [if_pos hkeys]
  · rw [if_neg hkeys]
    cases hput : env.put location value with
    | ok after => exact henv.put hplace hname hput
    | error fault => exact henv

mutual

/-- A qualified tree denotes the qualified location, if names resolve as is told and nothing is
written below the locals as a whole. -/
theorem resolve_qualify (node : Node) (h : ∀ part ∈ node.parts, ¬part.WritesLocals) :
    (resolving host source supplied held).Agrees
      (do return (← node.resolve resolver host source).qualify held)
      ((node.qualify held).resolve resolver host source) := by
  cases node with
  | program body =>
    simp only [parts, List.forall_mem_cons] at h
    simp only [qualify, resolve, bind_assoc, pure_bind]
    exact (runLast_qualify .undefined body h.2).map Location.ofValue
  | statement expression =>
    simp only [parts, List.forall_mem_cons] at h
    simp only [qualify, resolve, bind_assoc, pure_bind]
    exact (fetch_qualify (resolve_qualify expression h.2)).map Location.ofValue
  | literal value => exact .pure _
  | this | locals => exact .pure _
  | identifier name =>
    have hplace : ((if held name then locals else this).resolve resolver host source : Run σ _) =
        pure ⟨(Place.holder name).qualify held, []⟩ := by
      cases hheld : held name <;> simp only [Place.qualify, hheld] <;> rfl
    simp only [qualify, resolve, hplace, bind_assoc, pure_bind]
    exact .allowed name (.pure _)
  | member holder property computed =>
    simp only [parts, List.forall_mem_cons, List.forall_mem_append] at h
    obtain ⟨-, hholder, hproperty⟩ := h
    simp only [qualify, resolve, bind_assoc, pure_bind]
    refine (resolve_qualify holder hholder).bind_map (P := fun _ => True)
      (fun _ _ _ _ => trivial) fun location _ => ?_
    refine Agrees.bind ?_ fun key => .allowed key (.pure _)
    cases computed with
    | true => exact (fetch_qualify (resolve_qualify property hproperty)).map Value.display
    | false => exact .pure _
  | call callee arguments =>
    simp only [parts, List.forall_mem_cons, List.forall_mem_append] at h
    obtain ⟨-, hcallee, harguments⟩ := h
    simp only [qualify, resolve, bind_assoc, pure_bind, isAssignable_qualify]
    refine (resolve_qualify callee hcallee).bind_map (P := fun _ => True)
      (fun _ _ _ _ => trivial) fun location _ => .inspect ?_
    rintro env _ ⟨rfl, henv⟩
    rw [henv.read_qualify]
    refine (runAll_qualify arguments harguments).bind fun values => .inspect ?_
    rintro env _ ⟨rfl, henv⟩
    rw [henv.receiver_qualify]
    exact (Agrees.call rfl _ _ values).map Location.ofValue
  | filter name arguments =>
    simp only [parts, List.forall_mem_cons] at h
    cases hfound : resolver name.filterName with
    | none =>
      simp only [qualify, resolve, hfound]
      exact .throw fun _ => rfl
    | some found =>
      simp only [qualify, resolve, hfound, bind_assoc, pure_bind]
      refine (runAll_qualify arguments h.2).bind fun values => ?_
      refine Agrees.map (.filter found values ?_) Location.ofValue
      rintro env _ ⟨rfl, henv⟩
      exact ⟨rfl, fun memory => ⟨rfl, henv.setMemory memory⟩⟩
  | assignment target value =>
    simp only [parts, List.forall_mem_cons, List.forall_mem_append] at h
    obtain ⟨hroot, htarget, hvalue⟩ := h
    cases hassignable : target.isAssignable with
    | false =>
      simp only [qualify, resolve, isAssignable_qualify, hassignable]
      exact .throw fun _ => rfl
    | true =>
      simp only [qualify, resolve, isAssignable_qualify, hassignable, if_true, bind_assoc,
        pure_bind]
      refine (resolve_qualify target htarget).bind_map
        (fun _ _ _ => denotes_of_resolve target) fun location hlocation => ?_
      obtain ⟨hplace, hname⟩ := place_of_denotes_of_root target hroot hlocation
      refine (fetch_qualify (resolve_qualify value hvalue)).bind fun value => ?_
      exact (write_qualify hplace hname value).map Location.ofValue
  | conditional test alternate consequent =>
    simp only [parts, List.forall_mem_cons, List.forall_mem_append] at h
    obtain ⟨-, ⟨htest, halternate⟩, hconsequent⟩ := h
    simp only [qualify, resolve, bind_assoc, pure_bind]
    refine (fetch_qualify (resolve_qualify test htest)).bind fun value => ?_
    cases value.isTruthy with
    | true => exact (fetch_qualify (resolve_qualify alternate halternate)).map Location.ofValue
    | false => exact (fetch_qualify (resolve_qualify consequent hconsequent)).map Location.ofValue
  | logical operator left right =>
    simp only [parts, List.forall_mem_cons, List.forall_mem_append] at h
    simp only [qualify, resolve, bind_assoc, pure_bind]
    refine (fetch_qualify (resolve_qualify left h.2.1)).bind fun value => ?_
    cases value.isTruthy == (operator == .or) with
    | true => exact .map (.pure value) Location.ofValue
    | false => exact (fetch_qualify (resolve_qualify right h.2.2)).map Location.ofValue
  | binary operator left right =>
    simp only [parts, List.forall_mem_cons, List.forall_mem_append] at h
    simp only [qualify, resolve, bind_assoc, pure_bind]
    refine (fetch_qualify (resolve_qualify left h.2.1)).bind fun left => ?_
    exact (fetch_qualify (resolve_qualify right h.2.2)).bind fun right => .pure _
  | unary operator leading argument =>
    simp only [parts, List.forall_mem_cons] at h
    simp only [qualify, resolve, bind_assoc, pure_bind]
    exact (fetch_qualify (resolve_qualify argument h.2)).map fun value =>
      Location.ofValue (operator.apply value)
  | array elements =>
    simp only [parts, List.forall_mem_cons] at h
    simp only [qualify, resolve, bind_assoc, pure_bind]
    exact (runAll_qualify elements h.2).map fun values => Location.ofValue (.array values)
  | object properties =>
    simp only [parts, List.forall_mem_cons] at h
    simp only [qualify, resolve, bind_assoc, pure_bind]
    exact (runProperties_qualify [] properties h.2).map fun fields =>
      Location.ofValue (.object fields)

/-- Qualified trees have the values of the trees. -/
theorem runAll_qualify (nodes : List Node) (h : ∀ part ∈ allParts nodes, ¬part.WritesLocals) :
    (resolving host source supplied held).Agrees (runAll resolver host source nodes)
      (runAll resolver host source (qualifyAll held nodes)) := by
  cases nodes with
  | nil => exact .pure []
  | cons node rest =>
    simp only [allParts, List.forall_mem_append] at h
    refine (fetch_qualify (resolve_qualify node h.1)).bind fun value => ?_
    exact (runAll_qualify rest h.2).map (value :: ·)

/-- The last of several qualified trees has the value of the last tree. -/
theorem runLast_qualify (last : Value) (nodes : List Node)
    (h : ∀ part ∈ allParts nodes, ¬part.WritesLocals) :
    (resolving host source supplied held).Agrees (runLast resolver host source last nodes)
      (runLast resolver host source last (qualifyAll held nodes)) := by
  cases nodes with
  | nil => exact .pure last
  | cons node rest =>
    simp only [allParts, List.forall_mem_append] at h
    refine (fetch_qualify (resolve_qualify node h.1)).bind fun value => ?_
    exact runLast_qualify value rest h.2

/-- Qualified entries make the fields that the entries make. -/
theorem runProperties_qualify (fields : List (String × Value)) (properties : List Property)
    (h : ∀ part ∈ propertyParts properties, ¬part.WritesLocals) :
    (resolving host source supplied held).Agrees
      (runProperties resolver host source fields properties)
      (runProperties resolver host source fields (qualifyProperties held properties)) := by
  cases properties with
  | nil => exact .pure fields
  | cons property rest =>
    obtain ⟨key, value, computed⟩ := property
    simp only [propertyParts, List.forall_mem_append] at h
    obtain ⟨⟨hkey, hvalue⟩, hrest⟩ := h
    refine Agrees.bind ?_ fun name =>
      (fetch_qualify (resolve_qualify value hvalue)).bind fun value =>
        runProperties_qualify _ rest hrest
    cases computed with
    | true => exact (fetch_qualify (resolve_qualify key hkey)).map Value.display
    | false => exact .pure _

end

end Runs

end Node

namespace Evaluator

/-- Names keep their meaning. Whether a program without assignments below the locals as a whole
succeeds or fails, afterwards there are locals if there were any and they have the names that they
had. And its outcome and all that it leaves behind are those of the program in which each name is
replaced by the member of the locals or of the scope that it stands for before the run, so that no
name is left to be looked up during the run. -/
theorem evaluate_qualified {resolver : Resolver σ} {source : String} {tree : Node}
    {evaluator : Evaluator σ} (h : ofNode resolver source tree = .ok evaluator)
    (hparts : ∀ part ∈ tree.parts, ¬part.WritesLocals) (host : Host) (env : Environment σ) :
    (evaluator.evaluate host env).2.locals.isSome = env.locals.isSome ∧
      (∀ name, (evaluator.evaluate host env).2.shadows name = env.shadows name) ∧
      (∀ part ∈ (tree.qualify env.shadows).parts, ∀ name, part ≠ .identifier name) ∧
      ∃ qualified, ofNode resolver source (tree.qualify env.shadows) = .ok qualified ∧
        qualified.evaluate host env = evaluator.evaluate host env := by
  have hreports (tree : Node) :
      Node.Reports resolver source tree.parts (ofNode resolver source tree) :=
    (Node.reports_statements tree).map _
  have hnone := (hreports tree).exists_ok_iff.mp ⟨evaluator, h⟩
  obtain ⟨qualified, hqualified⟩ :=
    (hreports (tree.qualify env.shadows)).exists_ok_iff.mpr (Node.fault?_parts_qualify hnone)
  have hagrees : (Comparison.resolving host source env.locals.isSome env.shadows).Agrees
      (evaluator.evaluate host) (qualified.evaluate host) := by
    rw [evaluate_eq_runLast h, evaluate_eq_runLast hqualified, Node.statements_qualify]
    exact Node.runLast_qualify .undefined tree.statements fun part hpart =>
      hparts part (Node.mem_parts_of_mem_statements hpart)
  obtain ⟨houtcome, hafter, hresolves⟩ := hagrees env env ⟨rfl, .self env⟩
  refine ⟨hresolves.isSome_locals, hresolves.shadows_eq, ?_, qualified, hqualified, ?_⟩
  · exact fun part hpart => (Node.parts_qualify tree part hpart).ne_identifier
  · exact Prod.ext (houtcome.eq rfl).symm hafter.symm

/-- The program `a.x = b = 1; b.y = 2` makes a `b` in the scope, since the locals have none, and
then fails, since this `b` is a number. So does `$locals.a.x = this.b = 1; this.b.y = 2`. -/
theorem evaluate_qualified_failing :
    let resolver : Resolver Unit := fun _ => none
    let member (holder : Node) (key : String) : Node := .member holder (.identifier key) false
    let tree (a b : Node) : Node := .program [
      .statement (.assignment (member a "x") (.assignment b (.literal (.integer 1)))),
      .statement (.assignment (member b "y") (.literal (.integer 2)))]
    let names : Node := tree (.identifier "a") (.identifier "b")
    let members : Node := tree (member .locals "a") (member .this "b")
    let env : Environment Unit := ⟨.object [], some (.object [("a", .null)]), ()⟩
    ∃ evaluator, ofNode resolver "a.x = b = 1; b.y = 2" names = .ok evaluator ∧
      (∀ part ∈ names.parts, ¬part.WritesLocals) ∧
      ∃ qualified, ofNode resolver "a.x = b = 1; b.y = 2" members = .ok qualified ∧
        ∀ host, qualified.evaluate host env = (.error (.type (.notWritable "y" .number)),
          ⟨.object [("b", .integer 1)],
            some (.object [("a", .object [("x", .integer 1)])]), ()⟩) := by
  intro resolver member tree names members env
  have hparts : ∀ part ∈ names.parts, ¬part.WritesLocals := by
    simp [names, tree, member, Node.parts, Node.allParts, Node.WritesLocals, Node.root]
  obtain ⟨evaluator, hevaluator, hrun⟩ : ∃ evaluator,
      ofNode resolver "a.x = b = 1; b.y = 2" names = .ok evaluator ∧
      ∀ host, evaluator.evaluate host env = (.error (.type (.notWritable "y" .number)),
        ⟨.object [("b", .integer 1)], some (.object [("a", .object [("x", .integer 1)])]), ()⟩) :=
    ⟨_, rfl, fun _ => rfl⟩
  have hmembers : names.qualify env.shadows = members := rfl
  have hqualified := fun host => (evaluate_qualified hevaluator hparts host env).2.2.2
  rw [hmembers] at hqualified
  obtain ⟨qualified, hok, -⟩ := hqualified fun _ _ _ => .ok .undefined
  refine ⟨evaluator, hevaluator, hparts, qualified, hok, fun host => ?_⟩
  obtain ⟨other, hother, hsame⟩ := hqualified host
  obtain rfl : qualified = other := Except.ok.inj (hok.symm.trans hother)
  exact hsame.trans (hrun host)

end Evaluator

end TemplateExpr
