import TemplateExpr.Proofs.Evaluation.Resolution
import TemplateExpr.Proofs.Sandbox.Guard

/-!
# Accesses to forbidden keys

A name and a member access are compiled to one path, whatever they are used for. From the root
outwards the keys of the path get their texts, and each text is checked before anything else is
done. The first forbidden one therefore ends a read, a call and both kinds of assignment alike.
-/

namespace TemplateExpr

variable {σ : Type}

/-- The keys of a path from its root outwards. The name that a path begins at is the first one. -/
def Path.segments : Path σ → List (Key σ)
  | .from (.variable name) keys => .fixed name :: keys
  | .from _ keys => keys

/-- Compute the value that a path begins at, if there is something to compute. -/
def Path.enter (host : Host) (source : String) : Path σ → Watched σ Unit
  | .from (.temporary code) _ => do
    let _ ← code.watch host source
    return ()
  | _ => pure ()

/-- The text of a key, whether or not it is forbidden. -/
def Key.spell (host : Host) (source : String) (key : Key σ) : Watched σ String := do
  let name ← key.watch host source
  Watched.note (.key name)
  return name

/-- The texts of keys in order, whether or not they are forbidden. -/
def Key.spellAll (host : Host) (source : String) : List (Key σ) → Watched σ (List String)
  | [] => pure []
  | key :: rest => do
    let name ← key.spell host source
    return name :: (← Key.spellAll host source rest)

/-- The path comes to a forbidden key. Its root and the keys before this one are computed, none of
these is forbidden, and the text of the key is `name`. -/
def Path.Meets (host : Host) (source : String) (path : Path σ) (env : Environment σ) (name : String)
    (env' : Environment σ) (events : List Event) : Prop :=
  ∃ before key after names, path.segments = before ++ key :: after ∧
    (do
      path.enter host source
      let names ← Key.spellAll host source before
      let name ← key.spell host source
      return (names, name)) env = ((.ok (names, name), env'), events) ∧
    (∀ other ∈ names, Sandbox.isForbidden other = false) ∧ Sandbox.isForbidden name = true

/-- The keys of an access as they are written, each with whether it is computed. -/
def Node.keys : Node → List (Node × Bool)
  | .identifier name => [(.identifier name, false)]
  | .member holder property computed => holder.keys ++ [(property, computed)]
  | _ => []

namespace Watched

variable {α β : Type}

/-- A run of two steps gives a value if the first one does and then the second one. -/
theorem bind_eq_ok {first : Watched σ α} {next : α → Watched σ β} {env env' : Environment σ}
    {result : β} {events : List Event} :
    (first >>= next) env = ((.ok result, env'), events) ↔
      ∃ value between earlier later, first env = ((.ok value, between), earlier) ∧
        next value between = ((.ok result, env'), later) ∧ events = earlier ++ later := by
  rw [bind_apply]
  rcases first env with ⟨⟨error | value, between⟩, earlier⟩
  · simp
  · simp only [Prod.mk.injEq, Except.ok.injEq]
    constructor
    · rintro ⟨houtcome, rfl⟩
      exact ⟨value, between, earlier, _, ⟨⟨rfl, rfl⟩, rfl⟩, Prod.ext houtcome rfl, rfl⟩
    · rintro ⟨_, _, _, later, ⟨⟨rfl, rfl⟩, rfl⟩, hnext, rfl⟩
      rw [hnext]
      exact ⟨rfl, rfl⟩

end Watched

section Keys

open Watched (bind_of_ok bind_of_error allowed_of_forbidden allowed_of_not_forbidden)

variable {host : Host} {source : String} {env env' : Environment σ} {events : List Event}

/-- A key has the text that its code gives, and this is noted last. -/
theorem Key.spell_eq_ok {key : Key σ} {name : String} :
    key.spell host source env = ((.ok name, env'), events) ↔
      ∃ earlier, key.watch host source env = ((.ok name, env'), earlier) ∧
        events = earlier ++ [.key name] := by
  unfold spell
  constructor
  · intro h
    obtain ⟨text, between, earlier, later, hkey, hnote, rfl⟩ := Watched.bind_eq_ok.mp h
    obtain ⟨⟨⟩, _, _, _, hnoted, hgiven, rfl⟩ := Watched.bind_eq_ok.mp hnote
    cases hnoted
    cases hgiven
    exact ⟨earlier, hkey, rfl⟩
  · rintro ⟨earlier, hkey, rfl⟩
    rw [bind_of_ok hkey]
    rfl

/-- Keys whose texts are allowed pass their checks. -/
theorem Key.watchAll_of_spellAll {keys : List (Key σ)} {names : List String}
    (h : Key.spellAll host source keys env = ((.ok names, env'), events))
    (hallowed : ∀ name ∈ names, Sandbox.isForbidden name = false) :
    Key.watchAll host source keys env = ((.ok names, env'), events) := by
  induction keys generalizing names env events with
  | nil => exact h
  | cons key rest ih =>
    obtain ⟨name, between, _, _, hspell, hmore, rfl⟩ := Watched.bind_eq_ok.mp h
    obtain ⟨more, _, later, _, hrest, hgiven, rfl⟩ := Watched.bind_eq_ok.mp hmore
    cases hgiven
    obtain ⟨earlier, hkey, rfl⟩ := Key.spell_eq_ok.mp hspell
    obtain ⟨hname, hmore⟩ := List.forall_mem_cons.mp hallowed
    unfold Key.watchAll
    rw [bind_of_ok hkey, bind_of_ok (allowed_of_not_forbidden hname source between),
      bind_of_ok (ih hrest hmore)]
    simp [Pure.pure]

/-- After keys that pass their checks a forbidden one fails, whatever comes after it. -/
theorem Key.watchAll_of_forbidden {before : List (Key σ)} {key : Key σ} {names : List String}
    {name : String} {between : Environment σ} {earlier later : List Event}
    (hbefore : Key.watchAll host source before env = ((.ok names, between), earlier))
    (hkey : key.spell host source between = ((.ok name, env'), later))
    (hforbidden : Sandbox.isForbidden name = true) (after : List (Key σ)) :
    Key.watchAll host source (before ++ key :: after) env =
      ((.error (.forbidden name source), env'), earlier ++ later) := by
  induction before generalizing names env earlier with
  | nil =>
    cases hbefore
    obtain ⟨events, htext, rfl⟩ := Key.spell_eq_ok.mp hkey
    rw [List.nil_append, Key.watchAll, bind_of_ok htext,
      bind_of_error (allowed_of_forbidden hforbidden source env')]
    rfl
  | cons first rest ih =>
    unfold Key.watchAll at hbefore
    obtain ⟨text, _, _, _, hfirst, hchecked, rfl⟩ := Watched.bind_eq_ok.mp hbefore
    obtain ⟨_, _, _, _, hcheck, hmore, rfl⟩ := Watched.bind_eq_ok.mp hchecked
    obtain ⟨more, _, _, _, hrest, hgiven, rfl⟩ := Watched.bind_eq_ok.mp hmore
    cases hgiven
    rw [List.cons_append, Key.watchAll, bind_of_ok hfirst, bind_of_ok hcheck,
      bind_of_error (ih hrest)]
    simp

/-- A path whose keys fail after its root fails in the same way. -/
theorem Path.watch_of_error {path : Path σ} {between : Environment σ} {error : Error}
    {earlier later : List Event}
    (henter : path.enter host source env = ((.ok (), between), earlier))
    (hkeys : Key.watchAll host source path.segments between = ((.error error, env'), later)) :
    path.watch host source env = ((.error error, env'), earlier ++ later) := by
  obtain ⟨name | _ | _ | code, keys⟩ := path
  -- A name is the first key of its path, so the check that fails can be its own.
  · cases henter
    have hfirst : (Key.fixed name).watch host source env = ((.ok name, env), []) := rfl
    have hwatch : (do
        let name ← Watched.allowed source name
        return name :: (← Key.watchAll host source keys)) env = ((.error error, env'), later) := by
      change Key.watchAll host source (.fixed name :: keys) env = _ at hkeys
      rwa [Key.watchAll, bind_of_ok hfirst] at hkeys
    cases hforbidden : Sandbox.isForbidden name with
    | true =>
      have hcheck := allowed_of_forbidden hforbidden source env
      rw [bind_of_error hcheck] at hwatch
      cases hwatch
      exact bind_of_error hcheck _
    | false =>
      have hcheck := allowed_of_not_forbidden hforbidden source env
      rcases hrest : Key.watchAll host source keys env with ⟨⟨fault | names, after⟩, more⟩
      · rw [bind_of_ok hcheck, bind_of_error hrest] at hwatch
        cases hwatch
        rw [Path.watch, bind_of_ok hcheck, bind_of_error hrest]
        rfl
      · rw [bind_of_ok hcheck, bind_of_ok hrest] at hwatch
        cases hwatch
  · cases henter
    exact bind_of_error hkeys _
  · cases henter
    exact bind_of_error hkeys _
  · obtain ⟨value, _, _, _, hcode, hgiven, rfl⟩ := Watched.bind_eq_ok.mp henter
    cases hgiven
    have hrest : Key.watchAll host source keys between = ((.error error, env'), later) := hkeys
    rw [Path.watch, bind_of_ok hcode, bind_of_error hrest, List.append_nil]

/-- A path that comes to a forbidden key fails there. -/
theorem Path.watch_of_meets {path : Path σ} {name : String}
    (h : path.Meets host source env name env' events) :
    path.watch host source env = ((.error (.forbidden name source), env'), events) := by
  obtain ⟨before, key, after, names, hsegments, hrun, hallowed, hforbidden⟩ := h
  obtain ⟨⟨⟩, _, _, _, henter, hkeys, rfl⟩ := Watched.bind_eq_ok.mp hrun
  obtain ⟨_, _, _, _, hbefore, hlast, rfl⟩ := Watched.bind_eq_ok.mp hkeys
  obtain ⟨_, _, _, _, hkey, hgiven, rfl⟩ := Watched.bind_eq_ok.mp hlast
  cases hgiven
  refine Path.watch_of_error henter ?_
  rw [hsegments,
    Key.watchAll_of_forbidden (Key.watchAll_of_spellAll hbefore hallowed) hkey hforbidden]
  simp

end Keys

/-- A further key comes last. -/
theorem Path.segments_push (path : Path σ) (key : Key σ) :
    (path.push key).segments = path.segments ++ [key] := by
  obtain ⟨root, keys⟩ := path
  cases root <;> rfl

namespace Node

variable {resolver : Resolver σ} {source : String}

/-- What is no access has no keys. -/
theorem segments_of_not_isAssignable {node : Node} {code : Code σ}
    (hcode : node.compile resolver source = .ok code) (h : node.isAssignable = false) :
    code.toPath.segments = [] := by
  cases code with
  | read path =>
    rw [(isAssignable_iff_of_compile hcode).mpr ⟨path, rfl⟩] at h
    contradiction
  | _ => rfl

/-- The keys of an access are compiled in the order in which they are written. -/
theorem mapM_keys_of_compile (node : Node) {code : Code σ}
    (h : node.compile resolver source = .ok code) :
    (node.keys.mapM fun written => compileKey resolver source written.1 written.2) =
      .ok code.toPath.segments := by
  cases node with
  | identifier name =>
    cases h
    rfl
  | member holder property computed =>
    obtain ⟨key, hkey, holderCode, hholder, rfl⟩ := compile_member_eq_ok.mp h
    simp only [keys, List.mapM_append, mapM_keys_of_compile holder hholder, List.mapM_cons,
      List.mapM_nil, hkey, Code.toPath, Path.segments_push]
    rfl
  | _ =>
    rw [segments_of_not_isAssignable h rfl]
    rfl

/-- A name or a member access is compiled to one path, which all its uses share. -/
theorem compile_access {node : Node} {code : Code σ} (hassignable : node.isAssignable = true)
    (hcode : node.compile resolver source = .ok code) :
    ∃ path, code = .read path ∧
      (node.keys.mapM fun written => compileKey resolver source written.1 written.2) =
        .ok path.segments ∧
      (∀ arguments codes, compileAll resolver source arguments = .ok codes →
        compile resolver source (.call node arguments) = .ok (.invoke path codes)) ∧
      (∀ value valueCode, value.compile resolver source = .ok valueCode →
        compile resolver source (.assignment node value) = .ok (.assign path valueCode)) ∧
      ∀ tree evaluator, tree.statements = [node] →
        Evaluator.ofNode resolver source tree = .ok evaluator →
        evaluator.target = some path ∧ evaluator.source = source := by
  obtain ⟨path, rfl⟩ := (isAssignable_iff_of_compile hcode).mp hassignable
  refine ⟨path, rfl, mapM_keys_of_compile node hcode, fun arguments codes hcodes => ?_,
    fun value valueCode hvalue => ?_, fun tree evaluator hsingle hevaluator => ?_⟩
  · refine compile_call_eq_ok.mpr ⟨codes, hcodes, _, hcode, ?_⟩
    rw [if_pos hassignable]
    rfl
  · simp only [compile, if_pos hassignable, hcode, hvalue]
    rfl
  · obtain ⟨code, hcompiled, htarget⟩ := Evaluator.target_of_single hevaluator hsingle
    rw [hcode] at hcompiled
    cases hcompiled
    exact ⟨(htarget path).mpr rfl, (Evaluator.ofNode_eq_ok hevaluator).2.1⟩

end Node

/-- A path that comes to a forbidden key fails there, whatever it is used for. -/
theorem Path.Meets.fails {host : Host} {source : String} {path : Path σ} {env env' : Environment σ}
    {name : String} {events : List Event} (h : path.Meets host source env name env' events) :
    (Code.read path).watch host source env =
        ((.error (.forbidden name source), env'), events) ∧
      (∀ arguments, (Code.invoke path arguments).watch host source env =
        ((.error (.forbidden name source), env'), events)) ∧
      (∀ value, (Code.assign path value).watch host source env =
        ((.error (.forbidden name source), env'), events)) ∧
      ∀ evaluator : Evaluator σ, evaluator.target = some path → evaluator.source = source →
        ∀ value, evaluator.watchAssign host value env =
          ((.error (.forbidden name source), env'), events) := by
  have hpath := Path.watch_of_meets h
  refine ⟨Watched.bind_of_error hpath _, fun arguments => Watched.bind_of_error hpath _,
    fun value => Watched.bind_of_error hpath _, ?_⟩
  rintro evaluator htarget rfl value
  rw [Evaluator.watchAssign, htarget]
  exact Watched.bind_of_error hpath _

/-- The sandbox guards every access. Runs are watched here without being changed, and an access is
compiled to one path with its keys in order. A path that comes to a forbidden key fails there with
an error about this key, be it read, called or assigned to: nothing has been done but what it took
to come to the key, and neither later keys nor arguments nor values have a part in it. In all
evaluation a forbidden key is the last thing that is done, and where the host has no part there is
no error of the sandbox without one. -/
theorem access_guarded (resolver : Resolver σ) (host : Host) (source : String) :
    (∀ code : Code σ, (code.watch host source).erase = code.run host source) ∧
    (∀ evaluator : Evaluator σ, (evaluator.watch host).erase = evaluator.evaluate host ∧
      ∀ value, (evaluator.watchAssign host value).erase = evaluator.assign host value) ∧
    (∀ node code, node.isAssignable = true → node.compile resolver source = .ok code →
      ∃ path, code = .read path ∧
        (node.keys.mapM fun written => Node.compileKey resolver source written.1 written.2) =
          .ok path.segments ∧
        (∀ arguments codes, Node.compileAll resolver source arguments = .ok codes →
          Node.compile resolver source (.call node arguments) = .ok (.invoke path codes)) ∧
        (∀ value valueCode, value.compile resolver source = .ok valueCode →
          Node.compile resolver source (.assignment node value) = .ok (.assign path valueCode)) ∧
        ∀ tree evaluator, tree.statements = [node] →
          Evaluator.ofNode resolver source tree = .ok evaluator →
          evaluator.target = some path ∧ evaluator.source = source) ∧
    (∀ (path : Path σ) env name env' events, path.Meets host source env name env' events →
      (Code.read path).watch host source env =
          ((.error (.forbidden name source), env'), events) ∧
        (∀ arguments, (Code.invoke path arguments).watch host source env =
          ((.error (.forbidden name source), env'), events)) ∧
        (∀ value, (Code.assign path value).watch host source env =
          ((.error (.forbidden name source), env'), events)) ∧
        ∀ evaluator : Evaluator σ, evaluator.target = some path → evaluator.source = source →
          ∀ value, evaluator.watchAssign host value env =
            ((.error (.forbidden name source), env'), events)) ∧
    (∀ (evaluator : Evaluator σ) env front name rest,
      (evaluator.watch host env).2 = front ++ .key name :: rest → Sandbox.isForbidden name = true →
      rest = [] ∧ (evaluator.evaluate host env).1 = .error (.forbidden name evaluator.source)) ∧
    ∀ (evaluator : Evaluator σ) env name quoted,
      (evaluator.evaluate host env).1 = .error (.forbidden name quoted) →
      (∀ event ∈ (evaluator.watch host env).2, event.isForeign = false) →
      quoted = evaluator.source ∧ Sandbox.isForbidden name = true ∧
        ∃ front, (evaluator.watch host env).2 = front ++ [.key name] := by
  refine ⟨Code.erase_watch, fun evaluator => ⟨evaluator.erase_watch, evaluator.erase_watchAssign⟩,
    fun _ _ => Node.compile_access, fun _ _ _ _ _ => Path.Meets.fails, ?_, ?_⟩
  · intro evaluator env front name rest hevents hforbidden
    rw [← evaluator.erase_watch]
    exact evaluator.guarded_watch.stops env front name rest hevents hforbidden
  · intro evaluator env name quoted herror hinner
    rw [← evaluator.erase_watch] at herror
    exact evaluator.guarded_watch.cause env name quoted herror hinner

/-- A computed key `constructor` is met after the name that it is looked up in. -/
theorem access_guarded_constructor :
    let host : Host := fun _ _ _ => .ok .undefined
    let source := "o['constructor']"
    let node : Node := .member (.identifier "o") (.literal (.string "constructor")) true
    let env : Environment Unit := ⟨.object [], none, ()⟩
    let events : List Event := [.key "o", .key "constructor"]
    ∃ path evaluator, node.compile (fun _ => none) source = .ok (.read path) ∧
      Evaluator.ofNode (fun _ => none) source (.program [.statement node]) = .ok evaluator ∧
      evaluator.target = some path ∧ path.Meets host source env "constructor" env events ∧
      evaluator.watchAssign host .null env =
        ((.error (.forbidden "constructor" source), env), events) ∧
      (evaluator.watch host env).2 = events ∧
      (evaluator.evaluate host env).1 = .error (.forbidden "constructor" source) ∧
      ∃ front, (evaluator.watch host env).2 = front ++ [.key "constructor"] := by
  intro host source node env events
  obtain ⟨-, -, hcompile, hfails, hstops, hcause⟩ :=
    access_guarded (fun _ => none : Resolver Unit) host source
  obtain ⟨path, hcode, -, -, -, hevaluator⟩ := hcompile node _ rfl rfl
  cases hcode
  obtain ⟨htarget, hsource⟩ := hevaluator (.program [.statement node]) _ rfl rfl
  have hmeets : Path.Meets host source (.from (.variable "o")
      [.computed (.constant (.string "constructor"))]) env "constructor" env events :=
    ⟨[.fixed "o"], .computed (.constant (.string "constructor")), [], ["o"], rfl, rfl, by decide,
      by decide⟩
  have hinner : ∀ event ∈ events, event.isForeign = false := by simp [events, Event.isForeign]
  refine ⟨_, _, rfl, rfl, htarget, hmeets, (hfails _ _ _ _ _ hmeets).2.2.2 _ htarget hsource .null,
    rfl, (hstops _ env [.key "o"] "constructor" [] rfl (by decide)).2, ?_⟩
  exact And.right (And.right (hcause _ env "constructor" source rfl hinner))

end TemplateExpr
