import TemplateExpr.Proofs.Evaluation.Formation
import TemplateExpr.Proofs.Evaluation.Resolution

/-!
# The order of filter calls

Where a tree neither chooses nor short-circuits, every operand is run once, in the order of the source.
To see this, each filter call is given a name of its own, which tells its number and its filter, and the
filter that is found under this name takes a note when it is applied. The notes of a run that succeeds
are the calls in post-order from left to right, and those of a run that fails are the first of them.
-/

namespace TemplateExpr

variable {σ κ α β : Type}

/-- The filter, which in addition takes a note whenever it is applied. -/
def Filter.noting (entry : κ) (filter : Filter σ) : Filter (σ × List κ) :=
  .stateful fun arguments memory =>
    let (outcome, rest) := filter.apply arguments memory.1
    (outcome, rest, memory.2 ++ [entry])

/-- The environment with a memory that also holds notes. -/
def Environment.noted (env : Environment σ) (notes : List κ) : Environment (σ × List κ) :=
  ⟨env.scope, env.locals, env.memory, notes⟩

namespace Environment

variable (env : Environment σ) (notes : List κ)

/-- What is at a place is there whatever the notes are. -/
@[simp] theorem base_noted (place : Place) : (env.noted notes).base place = env.base place := by
  cases place <;> rfl

/-- What is read at a location does not depend on the notes. -/
@[simp] theorem read_noted (location : Location) :
    (env.noted notes).read location = env.read location := by
  rw [read, read, base_noted]

/-- What holds a location does not depend on the notes. -/
@[simp] theorem receiver_noted (location : Location) :
    (env.noted notes).receiver location = env.receiver location := by
  rw [receiver, receiver, base_noted]

/-- Putting a value at a place leaves the notes as they are. -/
theorem setBase_noted (place : Place) (value : Value) :
    (env.noted notes).setBase place value = (env.setBase place value).noted notes := by
  have hshadows (name : String) : (env.noted notes).shadows name = env.shadows name := rfl
  cases place with
  | holder name => cases hname : env.shadows name <;> simp [setBase, hshadows, hname] <;> rfl
  | _ => rfl

/-- Writing leaves the notes as they are. -/
theorem write_noted (place : Place) (key : String) (rest : List String) (new : Value) :
    (env.noted notes).write place key rest new =
      ((env.write place key rest new).1.noted notes, (env.write place key rest new).2) := by
  simp only [write, base_noted, setBase_noted]

end Environment

/-- Besides what the first run does, the second one takes notes. They are the entries in their order
if it succeeds, and the first of the entries if it fails. -/
def Run.Notes (entries : List κ) (run : Run σ α) (noting : Run (σ × List κ) α) : Prop :=
  ∀ env notes, ∃ made, made <+: entries ∧
    (∀ value, (run env).1 = .ok value → made = entries) ∧
    noting (env.noted notes) = ((run env).1, (run env).2.noted (notes ++ made))

namespace Run.Notes

variable {entries entries' : List κ}

/-- A value is given without a note. -/
theorem pure (value : α) :
    Notes ([] : List κ) (Pure.pure value : Run σ α) (Pure.pure value) := by
  intro env notes
  exact ⟨[], List.prefix_rfl, fun _ _ => rfl, by rw [List.append_nil]; rfl⟩

/-- An error prevents all notes. -/
theorem throw (error : Error) :
    Notes entries (throw error : Run σ α) (MonadExcept.throw error) := by
  intro env notes
  exact ⟨[], List.nil_prefix, nofun, by rw [List.append_nil]; rfl⟩

/-- The notes of two steps are those of the first one and then those of the second one. -/
theorem bind {run : Run σ α} {noting : Run (σ × List κ) α} {next : α → Run σ β}
    {next' : α → Run (σ × List κ) β} (h : Notes entries run noting)
    (hnext : ∀ value, Notes entries' (next value) (next' value)) :
    Notes (entries ++ entries') (run >>= next) (noting >>= next') := by
  intro env notes
  obtain ⟨made, hprefix, hall, hrun⟩ := h env notes
  rw [Run.bind_apply, Run.bind_apply, hrun]
  rcases hfirst : run env with ⟨error | value, after⟩
  · exact ⟨made, hprefix.trans (List.prefix_append _ _), nofun, rfl⟩
  · obtain ⟨more, hprefix', hall', hrun'⟩ := hnext value after (notes ++ made)
    obtain rfl := hall value (by rw [hfirst])
    refine ⟨made ++ more, (List.prefix_append_right_inj made).mpr hprefix', ?_, ?_⟩
    · exact fun result hresult => by rw [hall' result hresult]
    · rw [← List.append_assoc]
      exact hrun'

/-- A last step may take no note. -/
theorem bind_silent {run : Run σ α} {noting : Run (σ × List κ) α} {next : α → Run σ β}
    {next' : α → Run (σ × List κ) β} (h : Notes entries run noting)
    (hnext : ∀ value, Notes [] (next value) (next' value)) :
    Notes entries (run >>= next) (noting >>= next') := by
  rw [← List.append_nil entries]
  exact h.bind hnext

/-- A function of the value takes no note. -/
theorem map {run : Run σ α} {noting : Run (σ × List κ) α} (h : Notes entries run noting)
    (f : α → β) : Notes entries (do return f (← run)) (do return f (← noting)) :=
  h.bind_silent fun value => .pure (f value)

/-- The environment may be looked at. -/
theorem inspect {next : Environment σ → Run σ α}
    {next' : Environment (σ × List κ) → Run (σ × List κ) α}
    (hnext : ∀ env notes, Notes entries (next env) (next' (env.noted notes))) :
    Notes entries (do next (← get)) (do next' (← get)) := by
  intro env notes
  exact hnext env notes env notes

/-- An outcome takes no note. -/
theorem ofOutcome (outcome : Except Error Value) :
    Notes ([] : List κ) (Run.ofOutcome outcome : Run σ Value) (Run.ofOutcome outcome) := by
  cases outcome with
  | ok value => exact .pure value
  | error error => exact .throw error

/-- The check of a name takes no note. -/
theorem allowed (source name : String) :
    Notes ([] : List κ) (Run.allowed source name : Run σ String) (Run.allowed source name) := by
  unfold Run.allowed
  cases Sandbox.check name source with
  | ok => exact .pure name
  | error error => exact .throw error

/-- What the environment holds is used without a note. -/
theorem observe {f : Environment σ → α} {f' : Environment (σ × List κ) → α}
    (h : ∀ env notes, f' (env.noted notes) = f env) :
    Notes ([] : List κ) (do return f (← get)) (do return f' (← get)) := by
  apply inspect
  intro env notes
  rw [h env notes]
  exact .pure _

/-- Reading what is at a location takes no note. -/
theorem fetch {run : Run σ Location} {noting : Run (σ × List κ) Location}
    (h : Notes entries run noting) : Notes entries (Run.fetch run) (Run.fetch noting) :=
  h.bind_silent fun location => .observe fun env notes => env.read_noted notes location

/-- Writing takes no note. -/
theorem write (source : String) (location : Location) (value : Value) :
    Notes ([] : List κ) (Run.write source location value : Run σ Value)
      (Run.write source location value) := by
  intro env notes
  refine ⟨[], List.prefix_rfl, fun _ _ => rfl, ?_⟩
  rw [List.append_nil]
  obtain ⟨place, _ | ⟨key, rest⟩⟩ := location
  · rfl
  · simp only [Run.write, Run.bind_apply, Run.get_apply, Run.set_apply, Environment.write_noted]
    rcases env.write place key rest value with ⟨after, fault | _⟩ <;> rfl

/-- A filter that takes a note takes one. -/
theorem filter (entry : κ) (filter : Filter σ) (arguments : List Value) :
    Notes [entry] (Run.filter filter arguments) (Run.filter (filter.noting entry) arguments) := by
  intro env notes
  refine ⟨[entry], List.prefix_rfl, fun _ _ => rfl, ?_⟩
  have happly : (filter.noting entry).apply arguments (env.noted notes).memory =
      ((filter.apply arguments env.memory).1, (filter.apply arguments env.memory).2,
        notes ++ [entry]) := rfl
  simp only [Run.filter, Run.bind_apply, Run.get_apply, Run.set_apply, happly]
  rcases filter.apply arguments env.memory with ⟨error | value, memory⟩ <;> rfl

end Run.Notes

namespace Node

mutual

/-- The names of the filters that a tree calls, one for each call, in post-order from left to right:
the holder before the key, the target before the value, the callee before the arguments, the key of an
entry before its value, and all arguments of a filter, its input first, before the filter. What is never
run, such as a key that is not computed, has no part in it. -/
def called : Node → List String
  | .program body => allCalled body
  | .statement expression => expression.called
  | .literal _ | .identifier _ | .this | .locals => []
  | .member holder property computed =>
    holder.called ++ if computed then property.called else []
  | .call callee arguments => callee.called ++ allCalled arguments
  | .filter name arguments => allCalled arguments ++ [name.filterName]
  | .assignment target value => target.called ++ value.called
  | .conditional test alternate consequent => test.called ++ alternate.called ++ consequent.called
  | .logical _ left right => left.called ++ right.called
  | .binary _ left right => left.called ++ right.called
  | .unary _ _ argument => argument.called
  | .array elements => allCalled elements
  | .object properties => propertiesCalled properties

/-- The names of the filters that trees call one after the other. -/
def allCalled : List Node → List String
  | [] => []
  | node :: rest => node.called ++ allCalled rest

/-- The names of the filters that entries call one after the other. -/
def propertiesCalled : List Property → List String
  | [] => []
  | .entry key value computed :: rest =>
    (if computed then key.called else []) ++ value.called ++ propertiesCalled rest

end

end Node

/-- Names that tell a number and a name. -/
structure Marking where
  mark : Nat → String → String
  unmark : String → Nat × String
  unmark_mark (number : Nat) (name : String) : unmark (mark number name) = (number, name)

namespace Marking

/-- The filters under marked names, each of which notes its own name and its number. -/
def noting (marking : Marking) (resolver : Resolver σ) : Resolver (σ × List (String × Nat)) :=
  fun marked =>
    let (number, name) := marking.unmark marked
    (resolver name).map (Filter.noting (name, number))

/-- Under a marked name the filter of the name is found. -/
theorem noting_mark (marking : Marking) (resolver : Resolver σ) (number : Nat) (name : String) :
    marking.noting resolver (marking.mark number name) =
      (resolver name).map (Filter.noting (name, number)) := by
  rw [noting, marking.unmark_mark]

/-- Each name after as many strokes as its number tells. -/
def strokes : Marking where
  mark number name := String.ofList (List.replicate number '|' ++ ':' :: name.toList)
  unmark marked :=
    ((marked.toList.takeWhile (· = '|')).length,
      String.ofList ((marked.toList.dropWhile (· = '|')).drop 1))
  unmark_mark number name := by
    have hstrokes : ∀ c ∈ List.replicate number '|', decide (c = '|') = true := by simp
    have hends : ∀ c more, ':' :: name.toList = c :: more → decide (c = '|') = false := by
      rintro c more ⟨⟩
      rfl
    rw [String.toList_ofList, takeWhile_append_of_ends hstrokes hends,
      dropWhile_append_of_ends hstrokes hends, List.length_replicate, List.drop_one, List.tail_cons,
      String.ofList_toList]

end Marking

namespace Node

mutual

/-- The tree in which the filter calls are told apart by their numbers, counted from `first` on in the
order of `Node.called`. -/
def numbered (marking : Marking) (first : Nat) : Node → Node
  | .program body => .program (numberedAll marking first body)
  | .statement expression => .statement (expression.numbered marking first)
  | .literal value => .literal value
  | .identifier name => .identifier name
  | .this => .this
  | .locals => .locals
  | .member holder property computed =>
    .member (holder.numbered marking first)
      (if computed then property.numbered marking (first + holder.called.length) else property) computed
  | .call callee arguments =>
    .call (callee.numbered marking first)
      (numberedAll marking (first + callee.called.length) arguments)
  | .filter name arguments =>
    .filter (.identifier (marking.mark (first + (allCalled arguments).length) name.filterName))
      (numberedAll marking first arguments)
  | .assignment target value =>
    .assignment (target.numbered marking first) (value.numbered marking (first + target.called.length))
  | .conditional test alternate consequent =>
    .conditional (test.numbered marking first)
      (alternate.numbered marking (first + test.called.length))
      (consequent.numbered marking (first + (test.called ++ alternate.called).length))
  | .logical operator left right =>
    .logical operator (left.numbered marking first)
      (right.numbered marking (first + left.called.length))
  | .binary operator left right =>
    .binary operator (left.numbered marking first)
      (right.numbered marking (first + left.called.length))
  | .unary operator leading argument => .unary operator leading (argument.numbered marking first)
  | .array elements => .array (numberedAll marking first elements)
  | .object properties => .object (numberedProperties marking first properties)

/-- `Node.numbered` for trees one after the other. -/
def numberedAll (marking : Marking) (first : Nat) : List Node → List Node
  | [] => []
  | node :: rest =>
    node.numbered marking first :: numberedAll marking (first + node.called.length) rest

/-- `Node.numbered` for entries one after the other. -/
def numberedProperties (marking : Marking) (first : Nat) : List Property → List Property
  | [] => []
  | .entry key value computed :: rest =>
    let keyCalls := if computed then key.called else []
    .entry (if computed then key.numbered marking first else key)
        (value.numbered marking (first + keyCalls.length)) computed ::
      numberedProperties marking (first + (keyCalls ++ value.called).length) rest

end

section Form

variable {marking : Marking} {first : Nat}

/-- What can be assigned to still can be, and nothing else. -/
theorem isAssignable_numbered (node : Node) :
    (node.numbered marking first).isAssignable = node.isAssignable := by
  cases node <;> rfl

/-- The names of the filters of a program are those of its statements. -/
theorem allCalled_statements (tree : Node) : allCalled tree.statements = tree.called := by
  cases tree with
  | program body =>
    simp only [statements, called]
    induction body with
    | nil => rfl
    | cons node rest ih =>
      rw [List.map_cons, allCalled, allCalled, ih]
      cases node <;> rfl
  | _ => exact List.append_nil _

/-- The statements of a program are numbered one after the other. -/
theorem statements_numbered (tree : Node) :
    (tree.numbered marking first).statements = numberedAll marking first tree.statements := by
  cases tree with
  | program body =>
    simp only [numbered, statements]
    induction body generalizing first with
    | nil => rfl
    | cons node rest ih =>
      rw [numberedAll, List.map_cons, List.map_cons, numberedAll, ih]
      cases node <;> rfl
  | _ => rfl

/-- A numbered tree has a fault if the tree has one. -/
theorem fault?_numbered {resolver : Resolver σ} {source : String} {node : Node}
    (h : node.fault? resolver source = none) :
    (node.numbered marking first).fault? (marking.noting resolver) source = none := by
  cases node with
  | assignment target value => simpa only [numbered, fault?, isAssignable_numbered] using h
  | filter name arguments =>
    have hname (marked : String) : (identifier marked).filterName = marked := rfl
    simp only [numbered, fault?, hname, marking.noting_mark, Option.isSome_map]
    simpa only [fault?, ite_eq_left_iff, reduceCtorEq] using h
  | _ => rfl

variable {resolver : Resolver σ} {source : String}

mutual

/-- The parts of a numbered tree have no faults if the parts of the tree have none. -/
theorem fault?_parts_numbered (node : Node) (first : Nat)
    (h : ∀ part ∈ node.parts, part.fault? resolver source = none) :
    ∀ part ∈ (node.numbered marking first).parts,
      part.fault? (marking.noting resolver) source = none := by
  have hself : (node.numbered marking first).fault? (marking.noting resolver) source = none :=
    fault?_numbered (h node (mem_parts_self node))
  cases node with
  | literal | identifier | this | locals => exact List.forall_mem_singleton.mpr hself
  | program nodes | array nodes | filter name nodes =>
    exact List.forall_mem_cons.mpr
      ⟨hself, fault?_allParts_numbered nodes first (List.forall_mem_cons.mp h).2⟩
  | statement inner | unary operator leading inner =>
    exact List.forall_mem_cons.mpr
      ⟨hself, fault?_parts_numbered inner first (List.forall_mem_cons.mp h).2⟩
  | member holder property computed =>
    simp only [parts, List.forall_mem_cons, List.forall_mem_append] at h
    refine List.forall_mem_cons.mpr ⟨hself, List.forall_mem_append.mpr
      ⟨fault?_parts_numbered holder first h.2.1, ?_⟩⟩
    cases computed with
    | true => exact fault?_parts_numbered property _ h.2.2
    | false => exact nofun
  | call callee arguments =>
    simp only [parts, List.forall_mem_cons, List.forall_mem_append] at h
    exact List.forall_mem_cons.mpr ⟨hself, List.forall_mem_append.mpr
      ⟨fault?_parts_numbered callee first h.2.1, fault?_allParts_numbered arguments _ h.2.2⟩⟩
  | assignment left right | logical operator left right | binary operator left right =>
    simp only [parts, List.forall_mem_cons, List.forall_mem_append] at h
    exact List.forall_mem_cons.mpr ⟨hself, List.forall_mem_append.mpr
      ⟨fault?_parts_numbered left first h.2.1, fault?_parts_numbered right _ h.2.2⟩⟩
  | conditional test alternate consequent =>
    simp only [parts, List.forall_mem_cons, List.forall_mem_append] at h
    exact List.forall_mem_cons.mpr ⟨hself, List.forall_mem_append.mpr ⟨List.forall_mem_append.mpr
      ⟨fault?_parts_numbered test first h.2.1.1, fault?_parts_numbered alternate _ h.2.1.2⟩,
      fault?_parts_numbered consequent _ h.2.2⟩⟩
  | object properties =>
    exact List.forall_mem_cons.mpr
      ⟨hself, fault?_propertyParts_numbered properties first (List.forall_mem_cons.mp h).2⟩

/-- The parts of numbered trees have no faults if the parts of the trees have none. -/
theorem fault?_allParts_numbered (nodes : List Node) (first : Nat)
    (h : ∀ part ∈ allParts nodes, part.fault? resolver source = none) :
    ∀ part ∈ allParts (numberedAll marking first nodes),
      part.fault? (marking.noting resolver) source = none := by
  cases nodes with
  | nil => exact nofun
  | cons node rest =>
    simp only [allParts, List.forall_mem_append] at h
    exact List.forall_mem_append.mpr
      ⟨fault?_parts_numbered node first h.1, fault?_allParts_numbered rest _ h.2⟩

/-- The parts of numbered entries have no faults if the parts of the entries have none. -/
theorem fault?_propertyParts_numbered (properties : List Property) (first : Nat)
    (h : ∀ part ∈ propertyParts properties, part.fault? resolver source = none) :
    ∀ part ∈ propertyParts (numberedProperties marking first properties),
      part.fault? (marking.noting resolver) source = none := by
  cases properties with
  | nil => exact nofun
  | cons property rest =>
    obtain ⟨key, value, computed⟩ := property
    simp only [propertyParts, List.forall_mem_append] at h
    refine List.forall_mem_append.mpr ⟨List.forall_mem_append.mpr
      ⟨?_, fault?_parts_numbered value _ h.1.2⟩, fault?_propertyParts_numbered rest _ h.2⟩
    cases computed with
    | true => exact fault?_parts_numbered key _ h.1.1
    | false =>
      -- A constant key that is not computed is a part, but nothing can be wrong with it.
      intro part hpart
      cases key with
      | literal =>
        cases List.mem_singleton.mp hpart
        rfl
      | _ => cases hpart

end

end Form

/-- Whether a node decides which of its operands are run. -/
def branches : Node → Bool
  | .conditional .. | .logical .. => true
  | _ => false

/-- Whether a node runs all of its operands and has no fault. -/
def Straight (resolver : Resolver σ) (source : String) (node : Node) : Prop :=
  node.branches = false ∧ node.fault? resolver source = none

section Runs

variable {marking : Marking} {resolver : Resolver σ} {host : Host} {source : String}

/-- The text of a key is that of the numbered key, and the calls of a computed key are noted. -/
theorem notes_spell (key key' : Node) (computed : Bool) {calls : List String} {first : Nat}
    {run : Run σ Value} {noting : Run (σ × List (String × Nat)) Value}
    (h : computed = true → Run.Notes (calls.zipIdx first) run noting) :
    Run.Notes ((if computed then calls else []).zipIdx first) (key.spell computed run)
      ((if computed then key' else key).spell computed noting) := by
  cases computed with
  | true => exact (h rfl).map Value.display
  | false => exact .pure _

mutual

/-- Where all operands are run, a numbered tree denotes the location of the tree, and all calls are
noted. -/
theorem notes_resolve (node : Node) (first : Nat)
    (h : ∀ part ∈ node.parts, part.Straight resolver source) :
    Run.Notes (node.called.zipIdx first) (node.resolve resolver host source)
      ((node.numbered marking first).resolve (marking.noting resolver) host source) := by
  have hself := h node (mem_parts_self node)
  cases node with
  | literal | this | locals => exact .pure _
  | identifier name =>
    exact (Run.Notes.allowed source name).map fun name => Location.mk (.holder name) [name]
  | program body =>
    exact (notes_runLast .undefined body first (List.forall_mem_cons.mp h).2).map Location.ofValue
  | statement expression =>
    exact (notes_resolve expression first (List.forall_mem_cons.mp h).2).fetch.map Location.ofValue
  | member holder property computed =>
    simp only [parts, List.forall_mem_cons, List.forall_mem_append] at h
    simp only [called, numbered, resolve, List.zipIdx_append]
    refine (notes_resolve holder first h.2.1).bind fun location => ?_
    refine (notes_spell property _ computed ?_).bind_silent fun key =>
      (Run.Notes.allowed source key).map location.push
    rintro rfl
    exact (notes_resolve property _ h.2.2).fetch
  | call callee arguments =>
    simp only [parts, List.forall_mem_cons, List.forall_mem_append] at h
    simp only [called, numbered, resolve, List.zipIdx_append, isAssignable_numbered]
    refine (notes_resolve callee first h.2.1).bind fun location => .inspect fun env notes => ?_
    rw [env.read_noted]
    refine (notes_runAll arguments _ h.2.2).bind_silent fun values => .inspect fun env notes => ?_
    rw [env.receiver_noted]
    exact (Run.Notes.ofOutcome _).map Location.ofValue
  | filter name arguments =>
    have harguments := notes_runAll arguments first (List.forall_mem_cons.mp h).2
    cases hfound : resolver name.filterName with
    | none => simp [Straight, fault?, hfound] at hself
    | some found =>
      have hname (marked : String) : (identifier marked).filterName = marked := rfl
      simp only [called, numbered, resolve, List.zipIdx_append, hname, marking.noting_mark, hfound,
        Option.map_some]
      exact harguments.bind fun values => (Run.Notes.filter _ found values).map Location.ofValue
  | assignment target value =>
    simp only [parts, List.forall_mem_cons, List.forall_mem_append] at h
    simp only [called, numbered, resolve, List.zipIdx_append, isAssignable_numbered]
    split
    · exact (notes_resolve target first h.2.1).bind fun location =>
        (notes_resolve value _ h.2.2).fetch.bind_silent fun value =>
          (Run.Notes.write source location value).map Location.ofValue
    · exact .throw _
  | conditional | logical => cases hself.1
  | binary operator left right =>
    simp only [parts, List.forall_mem_cons, List.forall_mem_append] at h
    simp only [called, numbered, resolve, List.zipIdx_append]
    exact (notes_resolve left first h.2.1).fetch.bind fun left =>
      (notes_resolve right _ h.2.2).fetch.map fun right =>
        Location.ofValue (operator.apply left right)
  | unary operator leading argument =>
    exact (notes_resolve argument first (List.forall_mem_cons.mp h).2).fetch.map fun value =>
      Location.ofValue (operator.apply value)
  | array elements =>
    exact (notes_runAll elements first (List.forall_mem_cons.mp h).2).map fun values =>
      Location.ofValue (.array values)
  | object properties =>
    exact (notes_runProperties [] properties first (List.forall_mem_cons.mp h).2).map fun fields =>
      Location.ofValue (.object fields)

/-- The values of numbered trees are those of the trees, and all calls are noted. -/
theorem notes_runAll (nodes : List Node) (first : Nat)
    (h : ∀ part ∈ allParts nodes, part.Straight resolver source) :
    Run.Notes ((allCalled nodes).zipIdx first) (runAll resolver host source nodes)
      (runAll (marking.noting resolver) host source (numberedAll marking first nodes)) := by
  cases nodes with
  | nil => exact .pure []
  | cons node rest =>
    simp only [allParts, List.forall_mem_append] at h
    rw [allCalled, List.zipIdx_append]
    exact (notes_resolve node first h.1).fetch.bind fun value =>
      (notes_runAll rest _ h.2).map (value :: ·)

/-- The last of several numbered trees has the value of the last tree, and all calls are noted. -/
theorem notes_runLast (last : Value) (nodes : List Node) (first : Nat)
    (h : ∀ part ∈ allParts nodes, part.Straight resolver source) :
    Run.Notes ((allCalled nodes).zipIdx first) (runLast resolver host source last nodes)
      (runLast (marking.noting resolver) host source last (numberedAll marking first nodes)) := by
  cases nodes with
  | nil => exact .pure last
  | cons node rest =>
    simp only [allParts, List.forall_mem_append] at h
    rw [allCalled, List.zipIdx_append]
    exact (notes_resolve node first h.1).fetch.bind fun value => notes_runLast value rest _ h.2

/-- Numbered entries make the fields that the entries make, and all calls are noted. -/
theorem notes_runProperties (fields : List (String × Value)) (properties : List Property)
    (first : Nat) (h : ∀ part ∈ propertyParts properties, part.Straight resolver source) :
    Run.Notes ((propertiesCalled properties).zipIdx first)
      (runProperties resolver host source fields properties)
      (runProperties (marking.noting resolver) host source fields
        (numberedProperties marking first properties)) := by
  cases properties with
  | nil => exact .pure fields
  | cons property rest =>
    obtain ⟨key, value, computed⟩ := property
    simp only [propertyParts, List.forall_mem_append] at h
    obtain ⟨⟨hkey, hvalue⟩, hrest⟩ := h
    rw [propertiesCalled, List.zipIdx_append, List.zipIdx_append, List.append_assoc]
    refine Run.Notes.bind (notes_spell key _ computed ?_) fun name =>
      (notes_resolve value _ hvalue).fetch.bind fun value => notes_runProperties _ rest _ hrest
    rintro rfl
    exact (notes_resolve key _ hkey).fetch

end

end Runs

end Node

namespace Evaluator

/-- Every operand is run exactly once, in the order of the source. In a program that neither chooses
nor short-circuits, let each filter call have a name of its own, which tells its number and its filter,
and let the filter note this when it is applied. The program does what it did without the notes. If it
succeeds, the notes are all calls in post-order from left to right, and if it fails they are the first
ones of these. -/
theorem evaluate_in_order {resolver : Resolver σ} {source : String} {tree : Node}
    {evaluator : Evaluator σ} (h : ofNode resolver source tree = .ok evaluator)
    (hbranches : ∀ part ∈ tree.parts, part.branches = false) (marking : Marking) :
    ∃ numbered, ofNode (marking.noting resolver) source (tree.numbered marking 0) = .ok numbered ∧
      ∀ host env, ∃ applied, applied <+: tree.called.zipIdx ∧
        (∀ value, (evaluator.evaluate host env).1 = .ok value → applied = tree.called.zipIdx) ∧
        numbered.evaluate host (env.noted []) =
          ((evaluator.evaluate host env).1, (evaluator.evaluate host env).2.noted applied) := by
  have hfault : ∀ part ∈ tree.parts, part.fault? resolver source = none :=
    ((Node.reports_statements tree).map _).exists_ok_iff.mp ⟨evaluator, h⟩
  obtain ⟨numbered, hnumbered⟩ :=
    ((Node.reports_statements (tree.numbered marking 0)).map _).exists_ok_iff.mpr
      (Node.fault?_parts_numbered tree 0 hfault)
  refine ⟨numbered, hnumbered, fun host env => ?_⟩
  rw [evaluate_eq_runLast h, evaluate_eq_runLast hnumbered, Node.statements_numbered,
    ← Node.allCalled_statements]
  refine Node.notes_runLast .undefined tree.statements 0 (fun part hpart => ?_) env []
  have hmem := Node.mem_parts_of_mem_statements hpart
  exact ⟨hbranches part hmem, hfault part hmem⟩

/-- In `(1 | f) + (2 | g:(3 | f))` the filters are applied in the order `f`, `f`, `g`. -/
theorem evaluate_in_order_nested :
    let resolver : Resolver Unit := fun _ => some (.pure fun values => .ok (values.headD .undefined))
    let number (value : Int64) : Node := .literal (.integer value)
    let tree : Node := .binary .add (.filter (.identifier "f") [number 1])
      (.filter (.identifier "g") [number 2, .filter (.identifier "f") [number 3]])
    let env : Environment Unit := ⟨.object [], none, ()⟩
    ∃ numbered, ofNode (Marking.strokes.noting resolver) "" (tree.numbered Marking.strokes 0) =
        .ok numbered ∧
      ∀ host, numbered.evaluate host (env.noted []) =
        (.ok (.integer 3), env.noted [("f", 0), ("f", 1), ("g", 2)]) := by
  intro resolver number tree env
  obtain ⟨evaluator, hevaluator, hrun⟩ : ∃ evaluator, ofNode resolver "" tree = .ok evaluator ∧
      ∀ host, evaluator.evaluate host env = (.ok (.integer 3), env) := ⟨_, rfl, fun _ => rfl⟩
  have hbranches : ∀ part ∈ tree.parts, part.branches = false := by
    simp [tree, number, Node.parts, Node.allParts, Node.branches]
  obtain ⟨numbered, hnumbered, hnotes⟩ := evaluate_in_order hevaluator hbranches Marking.strokes
  refine ⟨numbered, hnumbered, fun host => ?_⟩
  obtain ⟨applied, -, hall, hsame⟩ := hnotes host env
  rw [hall (.integer 3) (by rw [hrun]), hrun] at hsame
  exact hsame

end Evaluator

end TemplateExpr
