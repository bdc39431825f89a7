import TemplateExpr.Code.Run

/-!
# Two runs side by side

A comparison names two ways to run code and the pairs of environments to start from. Two runs
agree if from related environments they give the same value or both fail, and leave related
environments behind. Steps of evaluation keep agreement, so that what code does to one pair of
environments is known from what its parts do.
-/

namespace TemplateExpr

variable {σ : Type} {α β : Type}

/-- Two ways to run code, and the pairs of environments on which they are compared. -/
structure Comparison (σ : Type) where
  host : Host
  host' : Host
  source : String
  source' : String
  related : Environment σ → Environment σ → Prop

/-- A run of two steps is a run of the first one and, if it gives a value, of the second one. -/
theorem Run.bind_apply (run : Run σ α) (next : α → Run σ β) (env : Environment σ) :
    (run >>= next) env = match run env with
      | (.ok value, env) => next value env
      | (.error error, env) => (.error error, env) := by
  change (match run env with | (outcome, env) => ExceptT.bindCont next outcome env) = _
  rcases run env with ⟨_ | _, _⟩ <;> rfl

/-- A value leaves the environment as it is. -/
@[simp] theorem Run.pure_apply (value : α) (env : Environment σ) :
    (pure value : Run σ α) env = (.ok value, env) := rfl

/-- The environment can be looked at. -/
@[simp] theorem Run.get_apply (env : Environment σ) :
    (get : Run σ (Environment σ)) env = (.ok env, env) := rfl

/-- The environment can be replaced. -/
@[simp] theorem Run.set_apply (env env' : Environment σ) :
    (set env' : Run σ PUnit) env = (.ok ⟨⟩, env') := rfl

/-- A run of two steps gives a value if the first one does and then the second one. -/
theorem Run.bind_eq_ok {run : Run σ α} {next : α → Run σ β} {env after : Environment σ}
    {result : β} :
    (run >>= next) env = (.ok result, after) ↔
      ∃ value between,
        run env = (.ok value, between) ∧ next value between = (.ok result, after) := by
  rw [Run.bind_apply]
  rcases run env with ⟨_ | value, between⟩
  · constructor
    · intro h
      cases h
    · rintro ⟨_, _, hfirst, -⟩
      cases hfirst
  · constructor
    · intro h
      exact ⟨value, between, rfl, h⟩
    · rintro ⟨_, _, hfirst, h⟩
      cases hfirst
      exact h

/-- A run of two steps fails if the first one does, or else if the second one does. -/
theorem Run.bind_eq_error {run : Run σ α} {next : α → Run σ β} {env after : Environment σ}
    {error : Error} :
    (run >>= next) env = (.error error, after) ↔ run env = (.error error, after) ∨
      ∃ value between,
        run env = (.ok value, between) ∧ next value between = (.error error, after) := by
  rw [Run.bind_apply]
  rcases run env with ⟨_ | value, between⟩
  · constructor
    · intro h
      cases h
      exact .inl rfl
    · rintro (h | ⟨_, _, h, -⟩)
      · cases h
        rfl
      · cases h
  · constructor
    · intro h
      exact .inr ⟨value, between, rfl, h⟩
    · rintro (h | ⟨_, _, hfirst, h⟩)
      · cases h
      · cases hfirst
        exact h

/-- A value is given in the environment that there is. -/
theorem Run.pure_eq_ok {value result : α} {env after : Environment σ} :
    (pure value : Run σ α) env = (.ok result, after) ↔ value = result ∧ env = after := by
  constructor
  · intro h
    cases h
    exact ⟨rfl, rfl⟩
  · rintro ⟨rfl, rfl⟩
    rfl

/-- A name that is allowed is given as it is. -/
theorem Run.allowed_eq_ok {source name result : String} {env after : Environment σ} :
    Run.allowed source name env = (.ok result, after) ↔
      Sandbox.isForbidden name = false ∧ name = result ∧ env = after := by
  unfold Run.allowed Sandbox.check
  cases Sandbox.isForbidden name with
  | true =>
    constructor
    · intro h
      cases h
    · rintro ⟨h, -⟩
      cases h
  | false => simpa only [Bool.false_eq_true, if_false, true_and] using Run.pure_eq_ok

namespace Comparison

variable {comparison : Comparison σ}

/-- The same value, or two errors.

An error quotes the source, so only errors of runs with the same source have to be the same. -/
inductive SameOutcome (comparison : Comparison σ) : Except Error α → Except Error α → Prop
  | ok (value : α) : SameOutcome comparison (.ok value) (.ok value)
  | error {error error' : Error} (h : comparison.source = comparison.source' → error = error') :
    SameOutcome comparison (.error error) (.error error')

/-- From related environments the two runs give the same outcome and related environments. -/
def Agrees (comparison : Comparison σ) (run run' : Run σ α) : Prop :=
  ∀ env env', comparison.related env env' →
    comparison.SameOutcome (run env).1 (run' env').1 ∧
      comparison.related (run env).2 (run' env').2

/-- One outcome is the same as itself. -/
theorem SameOutcome.refl (outcome : Except Error α) : comparison.SameOutcome outcome outcome := by
  cases outcome with
  | ok value => exact .ok value
  | error error => exact .error fun _ => rfl

/-- With one source the outcomes are equal. -/
theorem SameOutcome.eq {outcome outcome' : Except Error α}
    (h : comparison.SameOutcome outcome outcome') (hsource : comparison.source = comparison.source') :
    outcome = outcome' := by
  cases h with
  | ok value => rfl
  | error h => rw [h hsource]

/-- What is the same as a value is this value. -/
theorem SameOutcome.eq_ok {outcome outcome' : Except Error α} {value : α}
    (h : comparison.SameOutcome outcome outcome') (hvalue : outcome = .ok value) :
    outcome' = .ok value := by
  subst hvalue
  cases h
  rfl

namespace Agrees

/-- A value needs no environment. -/
theorem pure (value : α) : comparison.Agrees (Pure.pure value) (Pure.pure value) := by
  intro env env' h
  exact ⟨.ok value, h⟩

/-- An error needs no environment. -/
theorem throw {error error' : Error} (h : comparison.source = comparison.source' → error = error') :
    comparison.Agrees (throw error : Run σ α) (throw error') := by
  intro env env' henv
  exact ⟨.error h, henv⟩

/-- Steps that agree one by one agree as a whole. -/
theorem bind {run run' : Run σ α} {next next' : α → Run σ β} (h : comparison.Agrees run run')
    (hnext : ∀ value, comparison.Agrees (next value) (next' value)) :
    comparison.Agrees (run >>= next) (run' >>= next') := by
  intro env env' henv
  obtain ⟨houtcome, hafter⟩ := h env env' henv
  rw [Run.bind_apply, Run.bind_apply]
  rcases hrun : run env with ⟨outcome, after⟩
  rcases hrun' : run' env' with ⟨outcome', after'⟩
  rw [hrun, hrun'] at houtcome hafter
  cases houtcome with
  | ok value => exact hnext value after after' hafter
  | error h => exact ⟨.error h, hafter⟩

/-- A function of the value changes nothing. -/
theorem map {run run' : Run σ α} (h : comparison.Agrees run run') (f : α → β) :
    comparison.Agrees (do return f (← run)) (do return f (← run')) :=
  h.bind fun value => .pure (f value)

/-- What is done with the environment has to agree for related environments. -/
theorem inspect {next next' : Environment σ → Run σ α}
    (hnext : ∀ env env', comparison.related env env' →
      comparison.Agrees (next env) (next' env')) :
    comparison.Agrees (do next (← get)) (do next' (← get)) := by
  intro env env' henv
  exact hnext env env' henv env env' henv

/-- What is read from the environment may be used if it is the same on both sides. -/
theorem observe {f : Environment σ → α}
    (h : ∀ env env', comparison.related env env' → f env = f env') :
    comparison.Agrees (do return f (← get)) (do return f (← get)) := by
  apply Agrees.inspect
  intro env env' henv
  rw [h env env' henv]
  exact .pure _

/-- An outcome that the environment has no part in is the same everywhere. -/
theorem ofOutcome (outcome : Except Error Value) :
    comparison.Agrees (Run.ofOutcome outcome) (Run.ofOutcome outcome) := by
  cases outcome with
  | ok value => exact .pure value
  | error error => exact .throw fun _ => rfl

/-- Whether a name is allowed is decided by the name. -/
theorem allowed (name : String) {next next' : String → Run σ α}
    (hnext : comparison.Agrees (next name) (next' name)) :
    comparison.Agrees (Run.allowed comparison.source name >>= next)
      (Run.allowed comparison.source' name >>= next') := by
  unfold Run.allowed Sandbox.check
  by_cases hname : Sandbox.isForbidden name = true
  · simp only [hname, if_true]
    exact .throw fun hsource => by rw [hsource]
  · simp only [hname]
    exact hnext

/-- What a call does is decided by the host, the callee, the receiver and the arguments. -/
theorem call (hhost : comparison.host = comparison.host') (callee receiver : Value)
    (arguments : List Value) :
    comparison.Agrees
      (Run.ofOutcome (comparison.host.call comparison.source callee receiver arguments))
      (Run.ofOutcome (comparison.host'.call comparison.source' callee receiver arguments)) := by
  rw [← hhost]
  cases callee with
  | function name => exact .ofOutcome _
  | undefined | null => exact .pure _
  | _ => exact .throw fun hsource => by rw [hsource]

/-- A filter without state is decided by its arguments. -/
theorem pureFilter (apply : List Value → Except Error Value) (arguments : List Value) :
    comparison.Agrees (Run.filter (.pure apply) arguments)
      (Run.filter (.pure apply) arguments) := by
  intro env env' henv
  exact Agrees.ofOutcome (apply arguments) env env' henv

end Agrees

end Comparison

end TemplateExpr
