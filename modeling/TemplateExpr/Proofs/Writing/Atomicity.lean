import TemplateExpr.Proofs.Evaluation.Likeness
import TemplateExpr.Proofs.Writing.Location

/-!
# Writes are all or nothing

A write makes containers step by step, and a later step may fail. No failure leaves anything of
these steps behind: neither that of the write itself, nor that of an assignment or of a setter whose
other parts do not assign. The memory of the filters is not part of this, as filters have been
applied by the time when a write fails.
-/

namespace TemplateExpr

variable {σ : Type} {α β : Type}

/-- Whether a computation changes scope and locals only if it succeeds. -/
def Run.IsAtomic (run : Run σ α) : Prop :=
  ∀ env error after, run env = (.error error, after) →
    after.scope = env.scope ∧ after.locals = env.locals

namespace Run

/-- What changes nothing changes nothing when it fails. -/
theorem Keeps.isAtomic {run : Run σ α} (h : run.Keeps) : run.IsAtomic := by
  intro env error after hrun
  have hafter := h env
  rwa [hrun] at hafter

/-- An atomic step may come after steps that change nothing. -/
theorem Keeps.bind_isAtomic {run : Run σ α} {next : α → Run σ β} (h : run.Keeps)
    (hnext : ∀ value, (next value).IsAtomic) : (run >>= next).IsAtomic := by
  intro env error after hrun
  rcases Run.bind_eq_error.mp hrun with hfirst | ⟨value, between, hfirst, hsecond⟩
  · exact h.isAtomic env error after hfirst
  · have hbetween := h env
    rw [hfirst] at hbetween
    obtain ⟨hscope, hlocals⟩ := hnext value between error after hsecond
    exact ⟨hscope.trans hbetween.1, hlocals.trans hbetween.2⟩

/-- A write that fails leaves the whole environment as it was. -/
theorem eq_of_write_error {source : String} {location : Location} {value : Value}
    {env after : Environment σ} {error : Error}
    (h : Run.write source location value env = (.error error, after)) : after = env := by
  rw [Run.write_apply] at h
  split at h
  · cases h
    rfl
  · split at h <;> cases h
    rfl

/-- A write is atomic. -/
theorem write_isAtomic (source : String) (location : Location) (value : Value) :
    (Run.write source location value : Run σ Value).IsAtomic := by
  intro env error after h
  rw [eq_of_write_error h]
  exact ⟨rfl, rfl⟩

end Run

namespace Evaluator

/-- Writes are all or nothing. A write that fails leaves the environment as it was, whatever the
place and the keys are. So does, for scope and locals, a failing setter of a program of one
statement without assignments in it, and the failing evaluation of an assignment without further
ones in it. -/
theorem unchanged_of_error :
    (∀ (source : String) (location : Location) (value : Value) (env after : Environment σ)
      (error : Error),
      Run.write source location value env = (.error error, after) → after = env) ∧
    ∀ (resolver : Resolver σ) (source : String) (tree : Node) (evaluator : Evaluator σ),
      ofNode resolver source tree = .ok evaluator →
      ∀ (host : Host) (env after : Environment σ) (error : Error),
        (∀ target value, tree.statements = [target] → (∀ part ∈ target.parts, ¬part.Assigns) →
          evaluator.assign host value env = (.error error, after) →
          after.scope = env.scope ∧ after.locals = env.locals) ∧
        (∀ target value, tree.statements = [.assignment target value] →
          (∀ part ∈ target.parts ++ value.parts, ¬part.Assigns) →
          evaluator.evaluate host env = (.error error, after) →
          after.scope = env.scope ∧ after.locals = env.locals) := by
  refine ⟨fun _ _ _ _ _ _ => Run.eq_of_write_error, ?_⟩
  intro resolver source tree evaluator h host env after error
  constructor
  · intro target value hsingle htarget herror
    cases hassignable : target.isAssignable with
    | false =>
      rw [assign_of_not_isAssignable h hsingle hassignable] at herror
      cases herror
      exact ⟨rfl, rfl⟩
    | true =>
      rw [assign_eq h hsingle hassignable] at herror
      refine (Node.resolve_keeps target htarget).bind_isAtomic ?_ env error after herror
      exact fun location => Run.write_isAtomic source location value
  · intro target value hsingle hparts herror
    obtain ⟨htarget, hvalue⟩ := List.forall_mem_append.mp hparts
    rw [evaluate_eq_run h hsingle] at herror
    cases hassignable : target.isAssignable with
    | false =>
      rw [Node.run_assignment_of_not_isAssignable value hassignable] at herror
      cases herror
      exact ⟨rfl, rfl⟩
    | true =>
      rw [Node.run_assignment value hassignable] at herror
      refine (Node.resolve_keeps target htarget).bind_isAtomic ?_ env error after herror
      exact fun location => (Node.run_keeps value hvalue).bind_isAtomic fun value =>
        Run.write_isAtomic source location value

/-- Where the locals have a number as `a.n`, neither the setter of `a.n['x']` nor an assignment to
it succeeds or changes anything, and no more does a write under a key of an array that is no
index. -/
theorem unchanged_below_number :
    let host : Host := fun _ _ _ => .ok .undefined
    let env : Environment Unit :=
      ⟨.object [("list", .array [])], some (.object [("a", .object [("n", .integer 5)])]), ()⟩
    let target : Node :=
      .member (.member (.identifier "a") (.identifier "n") false) (.literal (.string "x")) true
    (∃ after, Run.write "this.list.first.x" ⟨.scope, ["list", "first", "x"]⟩ .null env =
      (.error (.type (.notIndex "first")), after) ∧ after = env) ∧
    (∃ evaluator, ofNode (fun _ => none) "a.n['x']" (.program [.statement target]) = .ok evaluator ∧
      (∀ part ∈ target.parts, ¬part.Assigns) ∧
      ∃ after, evaluator.assign host .null env =
          (.error (.type (.notWritable "x" .number)), after) ∧
        after.scope = env.scope ∧ after.locals = env.locals) ∧
    ∃ evaluator, ofNode (fun _ => none) "a.n['x'] = null"
        (.program [.statement (.assignment target (.literal .null))]) = .ok evaluator ∧
      (∀ part ∈ target.parts ++ (Node.literal .null).parts, ¬part.Assigns) ∧
      ∃ after, evaluator.evaluate host env =
          (.error (.type (.notWritable "x" .number)), after) ∧
        after.scope = env.scope ∧ after.locals = env.locals := by
  intro host env target
  have htarget : ∀ part ∈ target.parts, ¬part.Assigns := by
    simp [target, Node.parts, Node.Assigns]
  have hparts : ∀ part ∈ target.parts ++ (Node.literal .null).parts, ¬part.Assigns := by
    simp [target, Node.parts, Node.Assigns]
  have hwrite : Run.write "this.list.first.x" ⟨.scope, ["list", "first", "x"]⟩ .null env =
      (.error (.type (.notIndex "first")), env) := rfl
  obtain ⟨setter, hsetter, hassign⟩ : ∃ evaluator,
      ofNode (fun _ => none) "a.n['x']" (.program [.statement target]) = .ok evaluator ∧
        evaluator.assign host .null env = (.error (.type (.notWritable "x" .number)), env) :=
    ⟨_, rfl, rfl⟩
  obtain ⟨assignment, hassignment, hevaluate⟩ : ∃ evaluator, ofNode (fun _ => none)
      "a.n['x'] = null" (.program [.statement (.assignment target (.literal .null))]) =
        .ok evaluator ∧
      evaluator.evaluate host env = (.error (.type (.notWritable "x" .number)), env) :=
    ⟨_, rfl, rfl⟩
  refine ⟨⟨env, hwrite, unchanged_of_error.1 _ _ _ _ _ _ hwrite⟩,
    ⟨setter, hsetter, htarget, env, hassign, ?_⟩,
    ⟨assignment, hassignment, hparts, env, hevaluate, ?_⟩⟩
  · exact (unchanged_of_error.2 _ _ _ _ hsetter host env _ _).1 target _ rfl htarget hassign
  · exact (unchanged_of_error.2 _ _ _ _ hassignment host env _ _).2 target _ rfl hparts hevaluate

end Evaluator

end TemplateExpr
