import TemplateExpr.Proofs.Evaluation.Comparison

/-!
# What the source is there for

Code is run with the source that it comes from for one reason: errors quote it. With another source
everything goes the same way up to the same value or failure, and an error that quotes the source
quotes the other one. What functions and filters of the host fail with knows nothing of the source.
-/

namespace TemplateExpr

variable {σ : Type} {α β : Type}

/-- The error with the given source in place of the one that it quotes, if it quotes one. -/
def Error.quote (source : String) : Error → Error
  | .lexical error _ => .lexical error source
  | .unfit token fault _ => .unfit token fault source
  | .unexpectedEnd _ => .unexpectedEnd source
  | .notAssignable _ => .notAssignable source
  | .forbidden name _ => .forbidden name source
  | .unknownFilter name _ => .unknownFilter name source
  | .notLiteral _ => .notLiteral source
  | .type (.notCallable kind _) => .type (.notCallable kind source)
  | .type fault => .type fault

/-- Two outcomes are the same, or they are one error that quotes the first source in the one and the
second source in the other. -/
inductive SameButQuote (source source' : String) : Except Error α → Except Error α → Prop
  | same (outcome : Except Error α) : SameButQuote source source' outcome outcome
  | quoted (error : Error) :
    SameButQuote source source' (.error (error.quote source)) (.error (error.quote source'))

/-- What is the same as a value is this value. -/
theorem SameButQuote.eq_ok {source source' : String} {value : α} {outcome : Except Error α}
    (h : SameButQuote source source' (.ok value) outcome) : outcome = .ok value := by
  cases h
  rfl

/-- Two computations have the same outcome but for what an error quotes, and leave the same
environment behind. -/
def Run.SameButQuote (source source' : String) (run run' : Run σ α) : Prop :=
  ∀ env, TemplateExpr.SameButQuote source source' (run env).1 (run' env).1 ∧
    (run' env).2 = (run env).2

namespace Run.SameButQuote

variable {source source' : String}

/-- What does not depend on the source is the same. -/
theorem refl (run : Run σ α) : Run.SameButQuote source source' run run :=
  fun _ => ⟨.same _, rfl⟩

/-- An error quotes its source. -/
theorem quoted (error : Error) :
    Run.SameButQuote source source' (throw (error.quote source) : Run σ α)
      (throw (error.quote source')) :=
  fun _ => ⟨.quoted error, rfl⟩

/-- A value is the same. -/
theorem eq_of_ok {run run' : Run σ α} (h : Run.SameButQuote source source' run run')
    {env after : Environment σ} {value : α} (hrun : run env = (.ok value, after)) :
    run' env = (.ok value, after) := by
  obtain ⟨houtcome, hafter⟩ := h env
  rw [hrun] at houtcome hafter
  exact Prod.ext houtcome.eq_ok hafter

/-- An error is the same but for what it quotes. -/
theorem exists_of_error {run run' : Run σ α} (h : Run.SameButQuote source source' run run')
    {env after : Environment σ} {error : Error} (hrun : run env = (.error error, after)) :
    ∃ error', run' env = (.error error', after) ∧
      TemplateExpr.SameButQuote source source' (.error error : Except Error β) (.error error') := by
  obtain ⟨houtcome, hafter⟩ := h env
  generalize run' env = ended at *
  obtain ⟨outcome, after'⟩ := ended
  rw [hrun] at houtcome hafter
  obtain rfl : after' = after := hafter
  cases houtcome with
  | same => exact ⟨error, rfl, .same _⟩
  | quoted error => exact ⟨_, rfl, .quoted error⟩

/-- Steps that are the same one by one are the same as a whole. -/
theorem bind {run run' : Run σ α} {next next' : α → Run σ β}
    (h : Run.SameButQuote source source' run run')
    (hnext : ∀ value, Run.SameButQuote source source' (next value) (next' value)) :
    Run.SameButQuote source source' (run >>= next) (run' >>= next') := by
  intro env
  rw [Run.bind_apply, Run.bind_apply]
  rcases hrun : run env with ⟨error | value, after⟩
  · obtain ⟨error', hrun', herror⟩ := h.exists_of_error hrun
    rw [hrun']
    exact ⟨herror, rfl⟩
  · rw [h.eq_of_ok hrun]
    exact hnext value after

/-- A function of the value is the same for the same value. -/
theorem map {run run' : Run σ α} (h : Run.SameButQuote source source' run run') (f : α → β) :
    Run.SameButQuote source source' (do return f (← run)) (do return f (← run')) :=
  h.bind fun value => refl (pure (f value))

/-- What is done with the environment is the same if it is for every environment. -/
theorem inspect {next next' : Environment σ → Run σ α}
    (h : ∀ env, Run.SameButQuote source source' (next env) (next' env)) :
    Run.SameButQuote source source' (do next (← get)) (do next' (← get)) :=
  fun env => h env env

/-- A refused name is an error that quotes the source. -/
theorem allowed (source source' name : String) :
    Run.SameButQuote source source' (Run.allowed source name : Run σ String)
      (Run.allowed source' name) := by
  unfold Run.allowed Sandbox.check
  cases Sandbox.isForbidden name with
  | true => exact quoted (.forbidden name source)
  | false => exact refl (pure name)

/-- A call of what is no function is an error that quotes the source. -/
theorem call (host : Host) (source source' : String) (callee receiver : Value)
    (arguments : List Value) :
    Run.SameButQuote source source'
      (Run.ofOutcome (host.call source callee receiver arguments) : Run σ Value)
      (Run.ofOutcome (host.call source' callee receiver arguments)) := by
  cases callee with
  | function | undefined | null => exact refl _
  | _ => exact quoted (.type (.notCallable _ source))

/-- A write without a key is an error that quotes the source. -/
theorem write (source source' : String) (location : Location) (value : Value) :
    Run.SameButQuote source source' (Run.write source location value : Run σ Value)
      (Run.write source' location value) := by
  unfold Run.write
  cases location.keys with
  | nil => exact quoted (.notAssignable source)
  | cons key rest => exact refl _

end Run.SameButQuote

variable {host : Host} {source source' : String}

open Run.SameButQuote
mutual

/-- Code does the same with every source but for what an error quotes. -/
theorem Code.run_sameButQuote (code : Code σ) :
    Run.SameButQuote source source' (code.run host source) (code.run host source') := by
  cases code with
  | constant | scope | locals => exact refl _
  | read path => exact path.resolve_sameButQuote.bind fun location => refl _
  | invoke path arguments =>
    exact path.resolve_sameButQuote.bind fun location => .inspect fun env =>
      (Code.runAll_sameButQuote arguments).bind fun values => .inspect fun env =>
        .call host source source' _ _ values
  | call callee arguments =>
    exact callee.run_sameButQuote.bind fun value =>
      (Code.runAll_sameButQuote arguments).bind fun values =>
        .call host source source' _ _ values
  | filter found arguments =>
    exact (Code.runAll_sameButQuote arguments).bind fun values => refl _
  | assign target value =>
    exact target.resolve_sameButQuote.bind fun location =>
      value.run_sameButQuote.bind fun value => .write source source' location value
  | choose test alternate consequent =>
    refine test.run_sameButQuote.bind fun value => ?_
    cases value.isTruthy with
    | true => exact alternate.run_sameButQuote
    | false => exact consequent.run_sameButQuote
  | logical operator left right =>
    refine left.run_sameButQuote.bind fun value => ?_
    cases value.isTruthy == (operator == .or) with
    | true => exact refl _
    | false => exact right.run_sameButQuote
  | binary operator left right =>
    exact left.run_sameButQuote.bind fun value => right.run_sameButQuote.map _
  | unary operator argument => exact argument.run_sameButQuote.map _
  | array elements => exact (Code.runAll_sameButQuote elements).map _
  | object entries => exact (Entry.runAll_sameButQuote entries).map _
  | sequence body => exact Code.runLast_sameButQuote body

/-- Codes that are run in order do the same with every source. -/
theorem Code.runAll_sameButQuote (codes : List (Code σ)) :
    Run.SameButQuote source source' (Code.runAll host source codes)
      (Code.runAll host source' codes) := by
  cases codes with
  | nil => exact refl _
  | cons code rest =>
    exact code.run_sameButQuote.bind fun value => (Code.runAll_sameButQuote rest).map _

/-- The last of several codes is the same with every source. -/
theorem Code.runLast_sameButQuote (codes : List (Code σ)) {last : Value} :
    Run.SameButQuote source source' (Code.runLast host source last codes)
      (Code.runLast host source' last codes) := by
  cases codes with
  | nil => exact refl _
  | cons code rest =>
    exact code.run_sameButQuote.bind fun value => Code.runLast_sameButQuote rest

/-- A path denotes the same with every source. -/
theorem Path.resolve_sameButQuote (path : Path σ) :
    Run.SameButQuote source source' (path.resolve host source) (path.resolve host source') := by
  obtain ⟨root, keys⟩ := path
  cases root with
  | «variable» name =>
    exact (allowed source source' name).bind fun name => (Key.resolveAll_sameButQuote keys).map _
  | scope | locals => exact (Key.resolveAll_sameButQuote keys).map _
  | temporary code =>
    exact code.run_sameButQuote.bind fun value => (Key.resolveAll_sameButQuote keys).map _

/-- A key has the same text with every source. -/
theorem Key.run_sameButQuote (key : Key σ) :
    Run.SameButQuote source source' (key.run host source) (key.run host source') := by
  cases key with
  | fixed name => exact refl _
  | computed code => exact code.run_sameButQuote.map _

/-- Keys have the same texts with every source. -/
theorem Key.resolveAll_sameButQuote (keys : List (Key σ)) :
    Run.SameButQuote source source' (Key.resolveAll host source keys)
      (Key.resolveAll host source' keys) := by
  cases keys with
  | nil => exact refl _
  | cons key rest =>
    exact key.run_sameButQuote.bind fun name => (allowed source source' name).bind fun name =>
      (Key.resolveAll_sameButQuote rest).map _

/-- Entries make the same fields with every source. -/
theorem Entry.runAll_sameButQuote (entries : List (Entry σ)) {fields : List (String × Value)} :
    Run.SameButQuote source source' (Entry.runAll host source fields entries)
      (Entry.runAll host source' fields entries) := by
  cases entries with
  | nil => exact refl _
  | cons entry rest =>
    obtain ⟨key, value⟩ := entry
    exact key.run_sameButQuote.bind fun name => value.run_sameButQuote.bind fun value =>
      Entry.runAll_sameButQuote rest

end

end TemplateExpr
