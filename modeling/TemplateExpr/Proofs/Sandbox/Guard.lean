import TemplateExpr.Proofs.Sandbox.Events

/-!
# Forbidden keys end a run

Whatever a run does, a forbidden key is the last thing that it does. And unless code of the host
says so, the sandbox refuses nothing else: its errors are about the key that was checked last.
-/

namespace TemplateExpr

variable {σ α β : Type}

namespace Watched

/-- A run of two steps does what the first one does and, if it gives a value, the second one. -/
theorem bind_apply (first : Watched σ α) (next : α → Watched σ β) (env : Environment σ) :
    (first >>= next) env = match first env with
      | ((.ok value, env), events) => ((next value env).1, events ++ (next value env).2)
      | ((.error error, env), events) => ((.error error, env), events) := rfl

/-- A run of two steps fails where the first one does. -/
theorem bind_of_error {first : Watched σ α} {env env' : Environment σ} {error : Error}
    {events : List Event} (h : first env = ((.error error, env'), events))
    (next : α → Watched σ β) : (first >>= next) env = ((.error error, env'), events) := by
  rw [bind_apply, h]

/-- A run of two steps goes on where the first one gives a value. -/
theorem bind_of_ok {first : Watched σ α} {env env' : Environment σ} {value : α}
    {events : List Event} (h : first env = ((.ok value, env'), events)) (next : α → Watched σ β) :
    (first >>= next) env = ((next value env').1, events ++ (next value env').2) := by
  rw [bind_apply, h]

/-- A run of which one event is noted. -/
theorem noted_apply (event : Event) (run : Run σ α) (env : Environment σ) :
    (do
      note event
      silent run : Watched σ α) env = (run env, [event]) := rfl

/-- A key that is forbidden is refused. -/
theorem allowed_of_forbidden {name : String} (h : Sandbox.isForbidden name = true) (source : String)
    (env : Environment σ) :
    allowed source name env = ((.error (.forbidden name source), env), [.key name]) := by
  rw [allowed, noted_apply, Run.allowed, Sandbox.check, if_pos h]
  rfl

/-- Any other key is given as it is. -/
theorem allowed_of_not_forbidden {name : String} (h : Sandbox.isForbidden name = false)
    (source : String) (env : Environment σ) :
    allowed source name env = ((.ok name, env), [.key name]) := by
  rw [allowed, noted_apply, Run.allowed, Sandbox.check, if_neg (by simp [h])]
  rfl

/-- A run that heeds the sandbox. -/
structure Guarded (source : String) (run : Watched σ α) : Prop where
  /-- A forbidden key is the last thing that is done, and the error is about this key. -/
  stops : ∀ env front name rest, (run env).2 = front ++ .key name :: rest →
    Sandbox.isForbidden name = true →
      rest = [] ∧ (run env).1.1 = .error (.forbidden name source)
  /-- Where the host has no part, an error of the sandbox is about the last key. -/
  cause : ∀ env name quoted, (run env).1.1 = .error (.forbidden name quoted) →
    (∀ event ∈ (run env).2, event.isForeign = false) →
      quoted = source ∧ Sandbox.isForbidden name = true ∧
        ∃ front, (run env).2 = front ++ [.key name]

namespace Guarded

variable {source : String}

/-- A run that notes nothing, and no error of the sandbox comes from it. -/
theorem silent {run : Run σ α}
    (h : ∀ env name quoted, (run env).1 ≠ .error (.forbidden name quoted)) :
    Guarded source (Watched.silent run) where
  stops env front name rest hevents _ := by simp [Watched.silent] at hevents
  cause env name quoted herror _ := absurd herror (h env name quoted)

/-- A value is given without a note. -/
theorem pure (value : α) : Guarded source (Pure.pure value : Watched σ α) where
  stops env front name rest hevents _ := by simp [Pure.pure] at hevents
  cause env name quoted herror _ := by cases herror

/-- One event that is no key, and no error of the sandbox unless the host takes over. -/
theorem single (event : Event) {run : Watched σ α} (hevents : ∀ env, (run env).2 = [event])
    (hkey : ∀ name, event ≠ .key name)
    (h : event.isForeign = true ∨
      ∀ env name quoted, (run env).1.1 ≠ .error (.forbidden name quoted)) :
    Guarded source run where
  stops env front name rest hlog _ := by
    have hmem : Event.key name ∈ [event] := by rw [← hevents env, hlog]; simp
    exact absurd (List.mem_singleton.mp hmem).symm (hkey name)
  cause env name quoted herror hinner := by
    rcases h with hforeign | h
    · have := hinner event (by rw [hevents env]; simp)
      simp [hforeign] at this
    · exact absurd herror (h env name quoted)

/-- One run after another. -/
theorem bind {first : Watched σ α} {next : α → Watched σ β} (hfirst : Guarded source first)
    (hnext : ∀ value, Guarded source (next value)) : Guarded source (first >>= next) where
  stops env front name rest hlog hforbidden := by
    rcases hrun : first env with ⟨⟨error | value, env'⟩, events⟩
    · rw [bind_of_error hrun] at hlog ⊢
      have h := hfirst.stops env front name rest
      rw [hrun] at h
      obtain ⟨hrest, herror⟩ := h hlog hforbidden
      cases herror
      exact ⟨hrest, rfl⟩
    · rw [bind_of_ok hrun] at hlog ⊢
      -- The key is among the later events: among the earlier ones it would have ended the run.
      rcases List.append_eq_append_iff.mp hlog with ⟨before, -, hmore⟩ | ⟨after, hevents, hmore⟩
      · exact (hnext value).stops env' before name rest hmore hforbidden
      · cases after with
        | nil => exact (hnext value).stops env' [] name rest hmore.symm hforbidden
        | cons event after =>
          obtain ⟨rfl, rfl⟩ := List.cons.inj hmore
          have h := hfirst.stops env front name after
          rw [hrun] at h
          cases (h hevents hforbidden).2
  cause env name quoted herror hinner := by
    rcases hrun : first env with ⟨⟨error | value, env'⟩, events⟩
    · rw [bind_of_error hrun] at herror hinner ⊢
      have h := hfirst.cause env name quoted
      rw [hrun] at h
      cases herror
      exact h rfl hinner
    · rw [bind_of_ok hrun] at herror hinner ⊢
      obtain ⟨hsource, hforbidden, front, hfront⟩ := (hnext value).cause env' name quoted herror
        fun event hevent => hinner event (List.mem_append_right _ hevent)
      refine ⟨hsource, hforbidden, events ++ front, ?_⟩
      rw [hfront, List.append_assoc]

/-- A key is checked where it is noted. -/
theorem allowed (source name : String) :
    Guarded source (allowed source name : Watched σ String) := by
  cases hforbidden : Sandbox.isForbidden name with
  | true =>
    constructor
    · intro env front name' rest hlog _
      rw [allowed_of_forbidden hforbidden] at hlog ⊢
      obtain ⟨rfl, hname, rfl⟩ : front = [] ∧ Event.key name = .key name' ∧ [] = rest := by
        cases front <;> simp_all
      cases hname
      exact ⟨rfl, rfl⟩
    · intro env name' quoted herror _
      rw [allowed_of_forbidden hforbidden] at herror ⊢
      cases herror
      exact ⟨rfl, hforbidden, [], rfl⟩
  | false =>
    constructor
    · intro env front name' rest hlog hforbidden'
      rw [allowed_of_not_forbidden hforbidden] at hlog
      have hevents : [Event.key name] = front ++ .key name' :: rest := hlog
      have hmem : Event.key name' ∈ [Event.key name] := by rw [hevents]; simp
      cases List.mem_singleton.mp hmem
      rw [hforbidden] at hforbidden'
      contradiction
    · intro env name' quoted herror _
      rw [allowed_of_not_forbidden hforbidden] at herror
      cases herror

/-- Reading is no concern of the sandbox. -/
theorem read (location : Location) : Guarded source (read location : Watched σ Value) :=
  single (.read location) (fun _ => rfl) nofun (.inr fun _ _ _ => nofun)

/-- Writing fails by its place or by a type. -/
theorem write (location : Location) (value : Value) :
    Guarded source (write source location value : Watched σ Value) := by
  refine single (.write location value) (fun _ => rfl) nofun (.inr fun env name quoted => ?_)
  rw [Watched.write, noted_apply]
  obtain ⟨place, _ | ⟨key, rest⟩⟩ := location
  · nofun
  · simp only [Run.write, Run.bind_apply, Run.get_apply, Run.set_apply]
    rcases env.write place key rest value with ⟨after, fault | _⟩ <;> nofun

/-- Calling a value fails by its type, or in the host. -/
theorem call (host : Host) (callee receiver : Value) (arguments : List Value) :
    Guarded source (call host source callee receiver arguments : Watched σ Value) := by
  cases callee with
  | function name => exact single (.call name receiver arguments) (fun _ => rfl) nofun (.inl rfl)
  | _ => exact silent fun _ _ _ => nofun

/-- Filters are code of the host. -/
theorem filter (filter : Filter σ) (arguments : List Value) :
    Guarded source (Watched.filter filter arguments) :=
  single (.filter arguments) (fun _ => rfl) nofun (.inl rfl)

/-- A choice between two runs. -/
theorem ite {condition : Prop} [Decidable condition] {first second : Watched σ α}
    (hfirst : Guarded source first) (hsecond : Guarded source second) :
    Guarded source (if condition then first else second) := by
  split
  · exact hfirst
  · exact hsecond

end Guarded

end Watched

section Runs

open Watched

variable {host : Host} {source : String}

mutual

/-- Code heeds the sandbox. -/
theorem Code.guarded_watch (code : Code σ) : Guarded source (code.watch host source) := by
  cases code with
  | constant value => exact .pure value
  | scope | locals => exact .silent (by rintro _ _ _ ⟨⟩)
  | read path => exact path.guarded_watch.bind .read
  | invoke path arguments =>
    exact path.guarded_watch.bind fun location => (Guarded.read location).bind fun callee =>
      (Code.guarded_watchAll arguments).bind fun values =>
        (Guarded.silent (by rintro _ _ _ ⟨⟩)).bind fun _ => .call host callee _ values
  | call callee arguments =>
    exact callee.guarded_watch.bind fun callee => (Code.guarded_watchAll arguments).bind
      (.call host callee .undefined)
  | filter filter arguments => exact (Code.guarded_watchAll arguments).bind (.filter filter)
  | assign target value =>
    exact target.guarded_watch.bind fun location => value.guarded_watch.bind (.write location)
  | choose test alternate consequent =>
    exact test.guarded_watch.bind fun _ => .ite alternate.guarded_watch consequent.guarded_watch
  | logical operator left right =>
    exact left.guarded_watch.bind fun value => .ite (.pure value) right.guarded_watch
  | binary operator left right =>
    exact left.guarded_watch.bind fun _ => right.guarded_watch.bind fun _ => .pure _
  | unary operator argument => exact argument.guarded_watch.bind fun _ => .pure _
  | array elements => exact (Code.guarded_watchAll elements).bind fun _ => .pure _
  | object entries => exact (Entry.guarded_watchAll entries).bind fun _ => .pure _
  | sequence body => exact Code.guarded_watchLast body

/-- Codes heed the sandbox. -/
theorem Code.guarded_watchAll (codes : List (Code σ)) :
    Guarded source (Code.watchAll host source codes) := by
  cases codes with
  | nil => exact .pure []
  | cons code rest =>
    exact code.guarded_watch.bind fun _ => (Code.guarded_watchAll rest).bind fun _ => .pure _

/-- Codes heed the sandbox if only the last value is kept. -/
theorem Code.guarded_watchLast (codes : List (Code σ)) {last : Value} :
    Guarded source (Code.watchLast host source last codes) := by
  cases codes with
  | nil => exact .pure last
  | cons code rest => exact code.guarded_watch.bind fun _ => Code.guarded_watchLast rest

/-- Paths heed the sandbox. -/
theorem Path.guarded_watch (path : Path σ) : Guarded source (path.watch host source) := by
  obtain ⟨name | _ | _ | code, keys⟩ := path
  · exact (Guarded.allowed source name).bind fun _ =>
      (Key.guarded_watchAll keys).bind fun _ => .pure _
  · exact (Key.guarded_watchAll keys).bind fun _ => .pure _
  · exact (Key.guarded_watchAll keys).bind fun _ => .pure _
  · exact code.guarded_watch.bind fun _ => (Key.guarded_watchAll keys).bind fun _ => .pure _

/-- The code of a key heeds the sandbox. -/
theorem Key.guarded_watch (key : Key σ) : Guarded source (key.watch host source) := by
  cases key with
  | fixed name => exact .pure name
  | computed code => exact code.guarded_watch.bind fun _ => .pure _

/-- Keys heed the sandbox. -/
theorem Key.guarded_watchAll (keys : List (Key σ)) :
    Guarded source (Key.watchAll host source keys) := by
  cases keys with
  | nil => exact .pure []
  | cons key rest =>
    exact key.guarded_watch.bind fun name => (Guarded.allowed source name).bind fun _ =>
      (Key.guarded_watchAll rest).bind fun _ => .pure _

/-- Entries heed the sandbox. -/
theorem Entry.guarded_watchAll (entries : List (Entry σ)) {fields : List (String × Value)} :
    Guarded source (Entry.watchAll host source fields entries) := by
  match entries with
  | [] => exact .pure fields
  | .entry key value :: rest =>
    exact key.guarded_watch.bind fun _ => value.guarded_watch.bind fun _ =>
      Entry.guarded_watchAll rest

end

/-- Programs heed the sandbox. -/
theorem Evaluator.guarded_watch (evaluator : Evaluator σ) :
    Guarded evaluator.source (evaluator.watch host) :=
  Code.guarded_watchLast evaluator.statements

end Runs

end TemplateExpr
