import TemplateExpr.Proofs.Evaluation.Likeness
import TemplateExpr.Proofs.Writing.Location

/-!
# Shadowing is merging

Where scope and locals are objects, a name means what it means in the one object that the scope
overridden by the locals is. Reads, method calls and writes keep it so, also those that make
containers below a name. What can tell the two apart is what asks for one of them as a whole: the
scope, the locals, and the call of a bare name, which has one of them as receiver.
-/

namespace TemplateExpr

namespace Fields

variable {α : Type}

/-- The fields with those of another collection added in place of those of the same names. -/
def override (fields others : Fields α) : Fields α :=
  others.foldr (fun entry fields => insert entry.1 entry.2 fields) fields

/-- A name has the entry of the overriding fields if they have one. -/
theorem get?_override (fields others : Fields α) (name : String) :
    get? (override fields others) name = (get? others name).or (get? fields name) := by
  induction others with
  | nil => rfl
  | cons entry rest ih =>
    obtain ⟨other, value⟩ := entry
    rw [get?_cons]
    by_cases hname : name = other
    · subst hname
      simp [override]
    · rw [if_neg hname, ← ih]
      exact get?_insert_of_ne _ hname value

/-- Overriding keeps the order. -/
theorem Ordered.override {fields : Fields α} (h : fields.Ordered) (others : Fields α) :
    (Fields.override fields others).Ordered := by
  induction others with
  | nil => exact h
  | cons entry rest ih => exact ih.insert entry.1 entry.2

end Fields

variable {σ : Type}

/-- A write below a property of an object changes this property. -/
theorem Value.put_object (fields : Fields Value) (name : String) (rest : List String)
    (new : Value) :
    (object fields).put (name :: rest) new = (do
      let inner ← ((object fields).get name).orObject.put rest new
      return .object (Fields.insert name inner fields)) := rfl

/-- A write below a name changes the name in the object that holds it. -/
theorem Environment.put_holder {env : Environment σ} {name : String} {fields : Fields Value}
    (hbase : env.base (.holder name) = .object fields) (rest : List String) (new : Value) :
    env.put ⟨.holder name, name :: rest⟩ new = (do
      let inner ← ((Value.object fields).get name).orObject.put rest new
      return env.setBase (.holder name) (.object (Fields.insert name inner fields))) := by
  simp only [put, hbase, Value.put_object, bind_assoc, pure_bind]

/-- The second environment has no locals, and as its scope what scope and locals of the first one
are together. Where the names were in order at first, they are so still. -/
inductive Environment.Merges (ordered : Prop) : Environment σ → Environment σ → Prop
  | intro {scope locals fields : Fields Value} {memory : σ}
    (hfields : ∀ name, fields.get? name = (locals.get? name).or (scope.get? name))
    (hordered : ordered → scope.Ordered ∧ fields.Ordered) :
    Merges ordered ⟨.object scope, some (.object locals), memory⟩ ⟨.object fields, none, memory⟩

namespace Environment.Merges

variable {ordered : Prop} {split merged : Environment σ}

/-- A name means the same in both environments. -/
theorem get_base (h : Merges ordered split merged) (name : String) :
    (split.base (.holder name)).get name = (merged.base (.holder name)).get name := by
  cases h with
  | @intro scope locals fields memory hfields hordered =>
    cases hlocals : locals.get? name <;>
      simp [base, shadows, Value.has, Value.get, Value.property?, hfields, hlocals]

/-- What is read below a name is the same in both environments. -/
theorem read_eq (h : Merges ordered split merged) (name : String) (keys : List String) :
    split.read ⟨.holder name, name :: keys⟩ = merged.read ⟨.holder name, name :: keys⟩ :=
  congrArg (Value.follow · keys) (h.get_base name)

/-- A name is held by an object in both environments, and giving it a new value in both objects
keeps the second environment what the first one is together. -/
theorem exists_holder (h : Merges ordered split merged) (name : String) :
    ∃ holder holder', split.base (.holder name) = .object holder ∧
      merged.base (.holder name) = .object holder' ∧
      ∀ value, Merges ordered
        (split.setBase (.holder name) (.object (Fields.insert name value holder)))
        (merged.setBase (.holder name) (.object (Fields.insert name value holder'))) := by
  cases h with
  | @intro scope locals fields memory hfields hordered =>
    cases hlocals : locals.get? name with
    | some found =>
      refine ⟨locals, fields, ?_, rfl, fun value => ?_⟩
      · simp [base, shadows, Value.has, Value.property?, hlocals]
      · simp only [setBase, shadows, Value.has, Value.property?, hlocals, Option.any_some,
          Option.any_none, Option.isSome_some, if_true]
        refine .intro (fun other => ?_) fun h => ⟨(hordered h).1, (hordered h).2.insert name value⟩
        by_cases hother : other = name
        · simp [hother]
        · rw [Fields.get?_insert_of_ne _ hother, Fields.get?_insert_of_ne _ hother, hfields]
    | none =>
      refine ⟨scope, fields, ?_, rfl, fun value => ?_⟩
      · simp [base, shadows, Value.has, Value.property?, hlocals]
      · simp only [setBase, shadows, Value.has, Value.property?, hlocals, Option.any_some,
          Option.any_none, Option.isSome_none]
        refine .intro (fun other => ?_) fun h =>
          ⟨(hordered h).1.insert name value, (hordered h).2.insert name value⟩
        by_cases hother : other = name
        · simp [hother, hlocals]
        · rw [Fields.get?_insert_of_ne _ hother, Fields.get?_insert_of_ne _ hother, hfields]

/-- A write below a name succeeds in both environments or fails in both. -/
theorem put_cases (h : Merges ordered split merged) (name : String) (rest : List String)
    (new : Value) :
    (∃ fault, split.put ⟨.holder name, name :: rest⟩ new = .error fault ∧
      merged.put ⟨.holder name, name :: rest⟩ new = .error fault) ∨
    ∃ split' merged', split.put ⟨.holder name, name :: rest⟩ new = .ok split' ∧
      merged.put ⟨.holder name, name :: rest⟩ new = .ok merged' ∧
        Merges ordered split' merged' := by
  have hget := h.get_base name
  obtain ⟨holder, holder', hsplit, hmerged, hinsert⟩ := h.exists_holder name
  rw [hsplit, hmerged] at hget
  rw [put_holder hsplit, put_holder hmerged, hget]
  cases ((Value.object holder').get name).orObject.put rest new with
  | error fault => exact .inl ⟨fault, rfl, rfl⟩
  | ok inner => exact .inr ⟨_, _, rfl, rfl, hinsert inner⟩

end Environment.Merges

/-- The comparison of runs from environments of which the second one is the first one merged. -/
def Comparison.merging (host : Host) (source : String) (ordered : Prop) : Comparison σ where
  host := host
  host' := host
  source := source
  source' := source
  related := Environment.Merges ordered

namespace Node

/-- Whether a tree asks for the scope or the locals as a whole: by name, or as the receiver of a
bare name that is called. -/
def TellsApart : Node → Prop
  | .this | .locals | .call (.identifier _) _ => True
  | _ => False

/-- Without asking for scope or locals as a whole, a tree denotes something below a name, or
something that the environment does not hold. -/
theorem place_of_denotes (node : Node) (h : ∀ part ∈ node.parts, ¬part.TellsApart)
    {location : Location} (hlocation : node.Denotes location) :
    (∃ name rest, location = ⟨.holder name, name :: rest⟩) ∨
      ∃ value keys, location = ⟨.temporary value, keys⟩ := by
  cases node with
  | identifier name => exact .inl ⟨name, [], hlocation⟩
  | this | locals => exact absurd trivial (h _ (mem_parts_self _))
  | member holder property computed =>
    obtain ⟨inner, key, hinner, rfl⟩ := hlocation
    simp only [parts, List.forall_mem_cons, List.forall_mem_append] at h
    rcases place_of_denotes holder h.2.1 hinner with ⟨name, rest, rfl⟩ | ⟨value, keys, rfl⟩
    · exact .inl ⟨name, rest ++ [key], rfl⟩
    · exact .inr ⟨value, keys ++ [key], rfl⟩
  | _ =>
    obtain ⟨value, rfl⟩ := hlocation
    exact .inr ⟨value, [], rfl⟩

variable {resolver : Resolver σ} {host : Host} {source : String} {ordered : Prop}

/-- A tree that does not ask for scope or locals as a whole is taken alike in an environment and in
the merged one. -/
theorem alike_merging (node : Node) (h : ∀ part ∈ node.parts, ¬part.TellsApart) :
    node.Alike (.merging host source ordered) resolver := by
  cases node with
  | identifier name => exact fun keys split merged henv => henv.read_eq name keys
  | this | locals => exact absurd trivial (h _ (mem_parts_self _))
  | call callee arguments =>
    refine ⟨rfl, ?_⟩
    intro hassignable location hlocation split merged henv
    cases callee with
    | identifier name => exact absurd trivial (h _ (mem_parts_self _))
    | member holder property computed =>
      obtain ⟨inner, key, hinner, rfl⟩ := hlocation
      simp only [parts, List.forall_mem_cons, List.forall_mem_append] at h
      rw [Environment.receiver_push, Environment.receiver_push]
      rcases place_of_denotes holder h.2.1.2.1 hinner with ⟨name, rest, rfl⟩ | ⟨value, keys, rfl⟩
      · exact henv.read_eq name rest
      · rfl
    | _ => cases hassignable
  | filter name arguments =>
    rintro found - values
    refine .filter found values ?_
    rintro _ _ ⟨hfields, hordered⟩
    exact ⟨rfl, fun memory => .intro hfields hordered⟩
  | assignment target value =>
    intro location hlocation new
    simp only [parts, List.forall_mem_cons, List.forall_mem_append] at h
    rcases place_of_denotes target h.2.1 hlocation with ⟨name, rest, rfl⟩ | ⟨value, keys, rfl⟩
    · exact .write_of_put fun split merged henv => henv.put_cases name rest new
    · exact .write_temporary value keys new
  | _ => trivial

end Node

namespace Evaluator

/-- Shadowing is merging. A program that does not ask for the scope or the locals as a whole has the
same outcome with an object as scope and one as locals as with the scope overridden by the locals
and without locals. Whether it succeeds or fails, it leaves in the second case what the scope that
it leaves in the first case is when overridden by the locals, and the same memory of the filters. -/
theorem evaluate_overridden {resolver : Resolver σ} {source : String} {tree : Node}
    {evaluator : Evaluator σ} (h : ofNode resolver source tree = .ok evaluator)
    (hparts : ∀ part ∈ tree.parts, ¬part.TellsApart) (host : Host) (scope locals : Fields Value)
    (memory : σ) :
    ∃ (outcome : Except Error Value) (scope' locals' merged : Fields Value) (memory' : σ),
      evaluator.evaluate host ⟨.object scope, some (.object locals), memory⟩ =
        (outcome, ⟨.object scope', some (.object locals'), memory'⟩) ∧
      evaluator.evaluate host ⟨.object (scope.override locals), none, memory⟩ =
        (outcome, ⟨.object merged, none, memory'⟩) ∧
      (∀ name, merged.get? name = (scope'.override locals').get? name) ∧
      (scope.Ordered → merged = scope'.override locals') := by
  have halike : ∀ part ∈ Node.allParts tree.statements,
      part.Alike (.merging host source scope.Ordered) resolver := by
    intro part hpart
    refine Node.alike_merging part fun inner hinner => hparts inner ?_
    exact Node.mem_parts_trans tree (Node.mem_parts_of_mem_statements hpart) hinner
  have hagrees : (Comparison.merging host source scope.Ordered).Agrees
      (Node.runLast resolver host source .undefined tree.statements)
      (Node.runLast resolver host source .undefined tree.statements) :=
    Node.runLast_agrees .undefined tree.statements halike
  obtain ⟨houtcome, hafter⟩ := hagrees _ _
    (.intro (Fields.get?_override scope locals) fun h => ⟨h, h.override locals⟩)
  rw [evaluate_eq_runLast h host]
  rcases hsplit : Node.runLast resolver host source .undefined tree.statements
    ⟨.object scope, some (.object locals), memory⟩ with ⟨outcome, split⟩
  rcases hmerged : Node.runLast resolver host source .undefined tree.statements
    ⟨.object (scope.override locals), none, memory⟩ with ⟨outcome', merged⟩
  rw [hsplit, hmerged] at houtcome hafter
  obtain rfl : outcome = outcome' := houtcome.eq rfl
  cases hafter with
  | @intro scope' locals' merged memory' hfields hordered =>
    have hlookup (name : String) :
        merged.get? name = (scope'.override locals').get? name := by
      rw [hfields, Fields.get?_override]
    refine ⟨outcome, scope', locals', merged, memory', rfl, rfl, hlookup, fun hscope => ?_⟩
    exact (hordered hscope).2.ext ((hordered hscope).1.override locals') hlookup

/-- The program `a.x = b; c.y = a.x` writes to the locals, which have an `a`, and makes a `c` in the
scope. In the merged scope it does both. -/
theorem evaluate_below_shadowed_name :
    let scope : Fields Value := [("a", .null), ("b", .integer 2)]
    let locals : Fields Value := [("a", .object [])]
    let member (holder key : String) : Node := .member (.identifier holder) (.identifier key) false
    let tree : Node := .program [.statement (.assignment (member "a" "x") (.identifier "b")),
      .statement (.assignment (member "c" "y") (member "a" "x"))]
    ∃ evaluator : Evaluator Unit,
      ofNode (fun _ => none) "a.x = b; c.y = a.x" tree = .ok evaluator ∧
      (∀ part ∈ tree.parts, ¬part.TellsApart) ∧
      ∀ host, evaluator.evaluate host ⟨.object (scope.override locals), none, ()⟩ =
        (.ok (.integer 2), ⟨.object [("a", .object [("x", .integer 2)]), ("b", .integer 2),
          ("c", .object [("y", .integer 2)])], none, ()⟩) := by
  intro scope locals member tree
  have hparts : ∀ part ∈ tree.parts, ¬part.TellsApart := by
    simp [tree, member, Node.parts, Node.allParts, Node.TellsApart]
  have hscope : scope.Ordered := List.pairwise_pair.mpr (by decide)
  obtain ⟨evaluator, hevaluator, hsplit⟩ : ∃ evaluator : Evaluator Unit,
      ofNode (fun _ => none) "a.x = b; c.y = a.x" tree = .ok evaluator ∧
      ∀ host, evaluator.evaluate host ⟨.object scope, some (.object locals), ()⟩ =
        (.ok (.integer 2), ⟨.object (scope.insert "c" (.object [("y", .integer 2)])),
          some (.object [("a", .object [("x", .integer 2)])]), ()⟩) :=
    ⟨_, rfl, fun _ => rfl⟩
  refine ⟨evaluator, hevaluator, hparts, fun host => ?_⟩
  obtain ⟨outcome, scope', locals', merged, memory', hfirst, hsecond, -, hmerged⟩ :=
    evaluate_overridden hevaluator hparts host scope locals ()
  cases (hsplit host).symm.trans hfirst
  rw [hsecond, hmerged hscope]
  rfl

end Evaluator

end TemplateExpr
