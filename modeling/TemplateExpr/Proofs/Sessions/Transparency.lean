import TemplateExpr.Proofs.Sessions.Compiled
import TemplateExpr.Session

/-!
# Sessions without a cache

A host takes steps of a session and goes on using the instances that it was given before. Beside it
stands the same host without a cache, for which every request compiles anew. The two agree on all
answers and on the environment, and what the cache holds is told by the requests made so far.

All requests are made by the steps. A filter that compiles sources of its own through the cache of the
session would make more of them while a step is running, and such filters are not considered. The keys
of `orderBy` may come out of a cache too, but this is one for the whole process and never that of a
session.
-/

namespace TemplateExpr

variable {σ : Type}

/-- A request to compile, and what it gave. -/
structure CompileRequest (σ : Type) where
  source : String
  isolated : Bool
  result : Except Error (Instance σ)

/-- The key of a request. -/
def CompileRequest.key (request : CompileRequest σ) : CacheKey := (request.source, request.isolated)

/-- The key that a step compiles, if it does. -/
def SessionStep.key? : SessionStep → Option CacheKey
  | .compile source isolated | .evaluate source isolated | .assign source isolated _ =>
    some (source, isolated)
  | .setScope _ | .setLocals _ => none

/-- What the request of a step gave, if it made one. -/
def SessionAnswer.result? : SessionAnswer σ → Option (Except Error (Instance σ))
  | .compiled found | .finished found _ => some (.ok found)
  | .rejected error => some (.error error)
  | .replaced => none

/-- The request that a step made with its answer. -/
def SessionStep.requests (step : SessionStep) (answer : SessionAnswer σ) :
    List (CompileRequest σ) :=
  match step.key?, answer.result? with
  | some (source, isolated), some result => [⟨source, isolated, result⟩]
  | _, _ => []

/-- What a host does in turn: it takes a step, or uses an instance that it was given before. -/
inductive Move where
  | step (step : SessionStep)
  | evaluateGiven (index : Nat)
  | assignGiven (index : Nat) (value : Value)

/-- A session and all requests made in it. -/
structure Play (σ : Type) where
  session : Session σ
  requests : List (CompileRequest σ)

namespace Play

/-- A session with an empty cache, before the first request. -/
def start (resolver : Resolver σ) (options : Options) (environment : Environment σ) : Play σ :=
  ⟨⟨⟨resolver, options, []⟩, environment⟩, []⟩

/-- The instances that were given out, in order. -/
def given (play : Play σ) : List (Instance σ) :=
  play.requests.filterMap fun request => request.result.toOption

/-- The different keys of the requests that succeeded. -/
def compiledKeys (play : Play σ) : List CacheKey :=
  ((play.requests.filter fun request => request.result.isOk).map CompileRequest.key).dedup

/-- Run something with an instance that was given out, if there is one with the index. -/
def use (play : Play σ) (index : Nat) (run : Evaluator σ → Run σ Value) :
    Option (SessionAnswer σ) × Play σ :=
  match play.given[index]? with
  | none => (none, play)
  | some found =>
    let (outcome, environment) := run found.evaluator play.session.environment
    (some (.finished found outcome), { play with session := { play.session with environment } })

/-- Take a step of the session, and note the request that it makes. -/
def step (host : Host) (play : Play σ) (step : SessionStep) : SessionAnswer σ × Play σ :=
  let (answer, session) := play.session.step host step
  (answer, ⟨session, play.requests ++ step.requests answer⟩)

/-- Make one move. -/
def move (host : Host) (play : Play σ) : Move → Option (SessionAnswer σ) × Play σ
  | .step step =>
    let (answer, play) := play.step host step
    (some answer, play)
  | .evaluateGiven index => play.use index fun evaluator => evaluator.evaluate host
  | .assignGiven index value => play.use index fun evaluator => evaluator.assign host value

/-- A request that succeeded gives out one more instance. -/
theorem given_append (play : Play σ) (session : Session σ) (request : CompileRequest σ) :
    given ⟨session, play.requests ++ [request]⟩ =
      play.given ++ request.result.toOption.toList := by
  unfold given
  rw [List.filterMap_append]
  cases hresult : request.result.toOption <;> simp [hresult]

/-- Make moves in order. Each answer comes with what there is after its move. -/
def run (host : Host) (play : Play σ) : List Move → List (Option (SessionAnswer σ) × Play σ)
  | [] => []
  | move :: rest =>
    let answer := play.move host move
    answer :: answer.2.run host rest

/-- A host that only takes steps runs the session. -/
theorem run_steps (host : Host) (play : Play σ) (steps : List SessionStep) :
    (play.run host (steps.map Move.step)).map (fun answer => (answer.1, answer.2.session)) =
      (play.session.run host steps).map fun answer => (some answer.1, answer.2) := by
  induction steps generalizing play with
  | nil => rfl
  | cons step rest ih => exact congrArg _ (ih (play.step host step).2)

end Play

/-- What a step answers where every request compiles anew. -/
inductive PlainAnswer (σ : Type) where
  | compiled (evaluator : Evaluator σ)
  | finished (evaluator : Evaluator σ) (outcome : Except Error Value)
  | rejected (error : Error)
  | replaced

/-- The answer without the number of the instance. -/
def SessionAnswer.plain : SessionAnswer σ → PlainAnswer σ
  | .compiled found => .compiled found.evaluator
  | .finished found outcome => .finished found.evaluator outcome
  | .rejected error => .rejected error
  | .replaced => .replaced

/-- An environment, and the evaluators that were given out so far. -/
structure PlainPlay (σ : Type) where
  environment : Environment σ
  given : List (Evaluator σ)

namespace PlainPlay

/-- Compile a source and run something with its evaluator. -/
def running (resolver : Resolver σ) (options : Options) (play : PlainPlay σ) (source : String)
    (isolated : Bool) (run : Evaluator σ → Run σ Value) : PlainAnswer σ × PlainPlay σ :=
  match Evaluator.ofSource resolver options source isolated with
  | .error error => (.rejected error, play)
  | .ok evaluator =>
    let (outcome, environment) := run evaluator play.environment
    (.finished evaluator outcome, ⟨environment, play.given ++ [evaluator]⟩)

/-- Take one step. -/
def step (resolver : Resolver σ) (options : Options) (host : Host) (play : PlainPlay σ) :
    SessionStep → PlainAnswer σ × PlainPlay σ
  | .compile source isolated =>
    match Evaluator.ofSource resolver options source isolated with
    | .error error => (.rejected error, play)
    | .ok evaluator => (.compiled evaluator, { play with given := play.given ++ [evaluator] })
  | .evaluate source isolated =>
    play.running resolver options source isolated fun evaluator => evaluator.evaluate host
  | .assign source isolated value =>
    play.running resolver options source isolated fun evaluator => evaluator.assign host value
  | .setScope value =>
    (.replaced, { play with environment := { play.environment with scope := value } })
  | .setLocals value =>
    (.replaced, { play with environment := { play.environment with locals := value } })

/-- Run something with an evaluator that was given out, if there is one with the index. -/
def use (play : PlainPlay σ) (index : Nat) (run : Evaluator σ → Run σ Value) :
    Option (PlainAnswer σ) × PlainPlay σ :=
  match play.given[index]? with
  | none => (none, play)
  | some evaluator =>
    let (outcome, environment) := run evaluator play.environment
    (some (.finished evaluator outcome), { play with environment })

/-- Make one move. -/
def move (resolver : Resolver σ) (options : Options) (host : Host) (play : PlainPlay σ) :
    Move → Option (PlainAnswer σ) × PlainPlay σ
  | .step step =>
    let (answer, play) := play.step resolver options host step
    (some answer, play)
  | .evaluateGiven index => play.use index fun evaluator => evaluator.evaluate host
  | .assignGiven index value => play.use index fun evaluator => evaluator.assign host value

/-- Make moves in order. Each answer comes with what there is after its move. -/
def run (resolver : Resolver σ) (options : Options) (host : Host) (play : PlainPlay σ) :
    List Move → List (Option (PlainAnswer σ) × PlainPlay σ)
  | [] => []
  | move :: rest =>
    let answer := play.move resolver options host move
    answer :: answer.2.run resolver options host rest

end PlainPlay

variable {resolver : Resolver σ} {options : Options}

/-- What a request gave stands in the cache under its number, or compiling failed. -/
def CompileRequest.Answered (resolver : Resolver σ) (options : Options)
    (entries : List (CacheEntry σ)) (request : CompileRequest σ) : Prop :=
  match request.result with
  | .ok found =>
    entries[found.number]? = some ⟨request.source, request.isolated, found.evaluator⟩
  | .error error =>
    Evaluator.ofSource resolver options request.source request.isolated = .error error

/-- A session agrees with a run without cache: they have the same environment and gave out the same
evaluators, and the cache holds what was requested. -/
structure Agrees (resolver : Resolver σ) (options : Options) (play : Play σ) (plain : PlainPlay σ) :
    Prop where
  resolver_eq : play.session.cache.resolver = resolver
  options_eq : play.session.cache.options = options
  compiled : Cache.Compiled resolver options play.session.cache.entries
  answered : ∀ request ∈ play.requests,
    request.Answered resolver options play.session.cache.entries
  requested : ∀ entry ∈ play.session.cache.entries, ∃ request ∈ play.requests,
    request.key = entry.key ∧ request.result.isOk
  environment : play.session.environment = plain.environment
  given : play.given.map Instance.evaluator = plain.given

namespace Agrees

variable {play : Play σ} {plain : PlainPlay σ}

/-- Before the first request there is nothing to agree on but the environment. -/
theorem start (resolver : Resolver σ) (options : Options) (environment : Environment σ) :
    Agrees resolver options (.start resolver options environment) ⟨environment, []⟩ where
  resolver_eq := rfl
  options_eq := rfl
  compiled := .nil resolver options
  answered := by simp [Play.start]
  requested := by simp [Play.start]
  environment := rfl
  given := rfl

/-- Another environment on both sides. -/
theorem replace (h : Agrees resolver options play plain) (environment : Environment σ) :
    Agrees resolver options ⟨{ play.session with environment }, play.requests⟩
      { plain with environment } :=
  { h with environment := rfl }

/-- What was answered stays so when entries are added. -/
theorem answered_append {entries : List (CacheEntry σ)} {request : CompileRequest σ}
    (h : request.Answered resolver options entries) (more : List (CacheEntry σ)) :
    request.Answered resolver options (entries ++ more) := by
  obtain ⟨source, isolated, error | found⟩ := request
  · exact h
  · have hentry : entries[found.number]? = some ⟨source, isolated, found.evaluator⟩ := h
    obtain ⟨hlt, -⟩ := List.getElem?_eq_some_iff.mp hentry
    exact (List.getElem?_append_left hlt).trans hentry

/-- What was requested stays so when requests are added. -/
theorem requested_append {requests : List (CompileRequest σ)} {entry : CacheEntry σ}
    (h : ∃ request ∈ requests, request.key = entry.key ∧ request.result.isOk)
    (more : List (CompileRequest σ)) :
    ∃ request ∈ requests ++ more, request.key = entry.key ∧ request.result.isOk := by
  obtain ⟨request, hrequest, hkey⟩ := h
  exact ⟨request, List.mem_append_left _ hrequest, hkey⟩

/-- A request fails on both sides, or gives the same evaluator on both sides, and after it they
agree in every environment. -/
theorem request (h : Agrees resolver options play plain) (source : String) (isolated : Bool) :
    (∃ error cache, Evaluator.ofSource resolver options source isolated = .error error ∧
      play.session.cache.compile source isolated = (.error error, cache) ∧
      Agrees resolver options
        ⟨{ play.session with cache }, play.requests ++ [⟨source, isolated, .error error⟩]⟩ plain) ∨
    ∃ found cache, Evaluator.ofSource resolver options source isolated = .ok found.evaluator ∧
      play.session.cache.compile source isolated = (.ok found, cache) ∧
      ∀ environment, Agrees resolver options
        ⟨⟨cache, environment⟩, play.requests ++ [⟨source, isolated, .ok found⟩]⟩
        ⟨environment, plain.given ++ [found.evaluator]⟩ := by
  obtain ⟨rfl, rfl, hcompiled, hanswered, hrequested, henvironment, hgiven⟩ := h
  rcases Cache.compile_cases hcompiled source isolated with ⟨error, hfails, hcompile⟩ |
    ⟨number, evaluator, entries, hgives, hcompile, hentry, hentries⟩
  · refine .inl ⟨error, play.session.cache, hfails, hcompile, rfl, rfl, hcompiled, ?_, ?_,
      henvironment, ?_⟩
    · exact List.forall_mem_append.mpr ⟨hanswered, by simpa [CompileRequest.Answered] using hfails⟩
    · exact fun entry hentry => requested_append (hrequested entry hentry) _
    · rw [Play.given_append]
      simpa [Except.toOption] using hgiven
  · have hall : Cache.Compiled play.session.cache.resolver play.session.cache.options entries ∧
        (∀ request ∈ play.requests,
          request.Answered play.session.cache.resolver play.session.cache.options entries) ∧
        ∀ entry ∈ entries, entry ∈ play.session.cache.entries ∨
          entry = ⟨source, isolated, evaluator⟩ := by
      rcases hentries with rfl | ⟨rfl, hnew⟩
      · exact ⟨hcompiled, hanswered, fun entry hentry => .inl hentry⟩
      · exact ⟨hcompiled.append hnew hgives,
          fun request hrequest => answered_append (hanswered request hrequest) _, by simp⟩
    obtain ⟨hcompiled, hanswered, hold⟩ := hall
    refine .inr ⟨⟨number, evaluator⟩, { play.session.cache with entries }, hgives, hcompile,
      fun environment => ⟨rfl, rfl, hcompiled, ?_, fun entry hentry => ?_, rfl, ?_⟩⟩
    · exact List.forall_mem_append.mpr ⟨hanswered, by simpa [CompileRequest.Answered] using hentry⟩
    · rcases hold entry hentry with hbefore | rfl
      · exact requested_append (hrequested entry hbefore) _
      · exact ⟨_, List.mem_append_right _ (List.mem_singleton_self _), rfl, rfl⟩
    · rw [Play.given_append, List.map_append, hgiven]
      rfl

/-- A step that compiles and runs something answers the same on both sides. -/
theorem running (h : Agrees resolver options play plain) (source : String) (isolated : Bool)
    (run : Evaluator σ → Run σ Value) :
    (play.session.running source isolated run).1.plain =
        (plain.running resolver options source isolated run).1 ∧
      ∃ result, (play.session.running source isolated run).1.result? = some result ∧
        Agrees resolver options ⟨(play.session.running source isolated run).2,
          play.requests ++ [⟨source, isolated, result⟩]⟩
          (plain.running resolver options source isolated run).2 := by
  have henvironment := h.environment
  unfold Session.running PlainPlay.running
  rcases h.request source isolated with ⟨error, cache, hfails, hcompile, hagrees⟩ |
    ⟨found, cache, hgives, hcompile, hagrees⟩
  · rw [hcompile, hfails]
    exact ⟨rfl, _, rfl, hagrees⟩
  · rw [hcompile, hgives, henvironment]
    exact ⟨rfl, _, rfl, hagrees _⟩

/-- Every step answers the same on both sides and leaves them in agreement. -/
theorem step (h : Agrees resolver options play plain) (host : Host) (step : SessionStep) :
    (play.step host step).1.plain = (plain.step resolver options host step).1 ∧
      Agrees resolver options (play.step host step).2
        (plain.step resolver options host step).2 := by
  cases step with
  | compile source isolated =>
    simp only [Play.step, Session.step, PlainPlay.step, SessionStep.requests, SessionStep.key?]
    rcases h.request source isolated with ⟨error, cache, hfails, hcompile, hagrees⟩ |
      ⟨found, cache, hgives, hcompile, hagrees⟩
    · rw [hcompile, hfails]
      exact ⟨rfl, hagrees⟩
    · rw [hcompile, hgives]
      refine ⟨rfl, ?_⟩
      have hagrees := hagrees play.session.environment
      rwa [h.environment] at hagrees ⊢
  | evaluate source isolated =>
    obtain ⟨hanswer, result, hresult, hagrees⟩ :=
      h.running source isolated fun evaluator => evaluator.evaluate host
    refine ⟨hanswer, ?_⟩
    simpa [Play.step, Session.step, PlainPlay.step, SessionStep.requests, SessionStep.key?, hresult]
      using hagrees
  | assign source isolated value =>
    obtain ⟨hanswer, result, hresult, hagrees⟩ :=
      h.running source isolated fun evaluator => evaluator.assign host value
    refine ⟨hanswer, ?_⟩
    simpa [Play.step, Session.step, PlainPlay.step, SessionStep.requests, SessionStep.key?, hresult]
      using hagrees
  | setScope value =>
    refine ⟨rfl, ?_⟩
    have hagrees := h.replace { play.session.environment with scope := value }
    simpa [Play.step, Session.step, PlainPlay.step, SessionStep.requests, SessionStep.key?,
      h.environment] using hagrees
  | setLocals value =>
    refine ⟨rfl, ?_⟩
    have hagrees := h.replace { play.session.environment with locals := value }
    simpa [Play.step, Session.step, PlainPlay.step, SessionStep.requests, SessionStep.key?,
      h.environment] using hagrees

/-- An instance that was given out before is the evaluator that was given out without a cache. -/
theorem use (h : Agrees resolver options play plain) (index : Nat)
    (run : Evaluator σ → Run σ Value) :
    (play.use index run).1.map SessionAnswer.plain = (plain.use index run).1 ∧
      Agrees resolver options (play.use index run).2 (plain.use index run).2 := by
  have hgiven : plain.given[index]? = play.given[index]?.map Instance.evaluator := by
    rw [← h.given, List.getElem?_map]
  unfold Play.use PlainPlay.use
  cases hfound : play.given[index]? with
  | none =>
    rw [hfound] at hgiven
    rw [hgiven]
    exact ⟨rfl, h⟩
  | some found =>
    rw [hfound] at hgiven
    rw [hgiven, h.environment]
    exact ⟨rfl, h.replace _⟩

/-- Every move answers the same on both sides and leaves them in agreement. -/
theorem move (h : Agrees resolver options play plain) (host : Host) (move : Move) :
    (play.move host move).1.map SessionAnswer.plain =
        (plain.move resolver options host move).1 ∧
      Agrees resolver options (play.move host move).2
        (plain.move resolver options host move).2 := by
  cases move with
  | step step =>
    obtain ⟨hanswer, hagrees⟩ := h.step host step
    exact ⟨congrArg some hanswer, hagrees⟩
  | evaluateGiven index => exact h.use index _
  | assignGiven index value => exact h.use index _

/-- All moves answer the same on both sides, in the same environments, and at each place there is
something that the session agrees with. -/
theorem run (h : Agrees resolver options play plain) (host : Host) (moves : List Move) :
    (play.run host moves).map (fun answer =>
        (answer.1.map SessionAnswer.plain, answer.2.session.environment)) =
      (plain.run resolver options host moves).map (fun answer =>
        (answer.1, answer.2.environment)) ∧
    ∀ answer ∈ play.run host moves, ∃ plain, Agrees resolver options answer.2 plain := by
  induction moves generalizing play plain with
  | nil => exact ⟨rfl, by simp [Play.run]⟩
  | cons move rest ih =>
    obtain ⟨hanswer, hagrees⟩ := h.move host move
    obtain ⟨hrest, hall⟩ := ih hagrees
    constructor
    · simp only [Play.run, PlainPlay.run, List.map_cons, hanswer, hagrees.environment, hrest]
    · simp only [Play.run, List.forall_mem_cons]
      exact ⟨⟨_, hagrees⟩, hall⟩

/-- Two requests that succeeded gave the same instance exactly if they had one key. -/
theorem found_iff (h : Agrees resolver options play plain) {request request' : CompileRequest σ}
    (hrequest : request ∈ play.requests) (hrequest' : request' ∈ play.requests)
    {found found' : Instance σ} (hfound : request.result = .ok found)
    (hfound' : request'.result = .ok found') :
    (found.number = found'.number ↔ request.key = request'.key) ∧
      (found.number = found'.number → found = found') := by
  have hentry := h.answered request hrequest
  have hentry' := h.answered request' hrequest'
  simp only [CompileRequest.Answered, hfound, hfound'] at hentry hentry'
  refine ⟨h.compiled.number_eq_iff hentry hentry', fun hnumber => ?_⟩
  obtain ⟨number, evaluator⟩ := found
  obtain ⟨number', evaluator'⟩ := found'
  obtain rfl : number = number' := hnumber
  have hequal := hentry.symm.trans hentry'
  simp only [Option.some.injEq, CacheEntry.mk.injEq] at hequal
  rw [hequal.2.2]

/-- A request gave what compiling its key gives. -/
theorem result_map (h : Agrees resolver options play plain) {request : CompileRequest σ}
    (hrequest : request ∈ play.requests) :
    request.result.map Instance.evaluator =
      Evaluator.ofSource resolver options request.source request.isolated := by
  have hanswered := h.answered request hrequest
  unfold CompileRequest.Answered at hanswered
  split at hanswered
  case h_1 found hfound =>
    rw [hfound]
    exact (h.compiled.evaluator _ (List.mem_of_getElem? hanswered)).symm
  case h_2 error hfound =>
    rw [hfound]
    exact hanswered.symm

/-- The entries of the cache are as many as the keys of the requests that succeeded. -/
theorem size (h : Agrees resolver options play plain) :
    play.session.cache.size = play.compiledKeys.length := by
  -- Both sides have each key once, so it is enough that they have the same keys.
  have hmem (key : CacheKey) : key ∈ play.session.cache.entries.map CacheEntry.key ↔
      key ∈ play.compiledKeys := by
    simp only [Play.compiledKeys, List.mem_dedup, List.mem_map, List.mem_filter]
    constructor
    · rintro ⟨entry, hentry, rfl⟩
      obtain ⟨request, hrequest, hkey, hok⟩ := h.requested entry hentry
      exact ⟨request, ⟨hrequest, hok⟩, hkey⟩
    · rintro ⟨⟨source, isolated, error | found⟩, ⟨hrequest, hok⟩, rfl⟩
      · contradiction
      · exact ⟨_, List.mem_of_getElem? (h.answered _ hrequest), rfl⟩
  have hperm : (play.session.cache.entries.map CacheEntry.key).Perm play.compiledKeys :=
    (List.perm_ext_iff_of_nodup h.compiled.nodup (List.nodup_dedup _)).mpr hmem
  rw [← hperm.length_eq, List.length_map]
  rfl

end Agrees

/-- The cache is transparent. After any moves of a host, two requests that succeeded gave the same
instance exactly if they had the same source compiled in the same way, every request gave what
compiling gives, error or evaluator, and the cache has as many entries as there are different
requests that succeeded. All answers and environments are those of a host that compiles anew at each
request. -/
theorem run_transparent (host : Host) (resolver : Resolver σ) (options : Options)
    (environment : Environment σ) (moves : List Move) :
    (∀ answer play, (answer, play) ∈ (Play.start resolver options environment).run host moves →
      (∀ request ∈ play.requests, ∀ request' ∈ play.requests, ∀ found found',
        request.result = .ok found → request'.result = .ok found' →
        (found.number = found'.number ↔ request.key = request'.key) ∧
          (found.number = found'.number → found = found')) ∧
      (∀ request ∈ play.requests, request.result.map Instance.evaluator =
        Evaluator.ofSource resolver options request.source request.isolated) ∧
      play.session.cache.size = play.compiledKeys.length) ∧
    ((Play.start resolver options environment).run host moves).map
        (fun answer => (answer.1.map SessionAnswer.plain, answer.2.session.environment)) =
      (PlainPlay.run resolver options host ⟨environment, []⟩ moves).map
        fun answer => (answer.1, answer.2.environment) := by
  obtain ⟨hanswers, hagrees⟩ := (Agrees.start resolver options environment).run host moves
  refine ⟨fun answer play hplay => ?_, hanswers⟩
  obtain ⟨plain, hagrees⟩ := hagrees _ hplay
  exact ⟨fun request hrequest request' hrequest' found found' =>
      hagrees.found_iff hrequest hrequest',
    fun request => hagrees.result_map, hagrees.size⟩

/-- A source that is compiled in both ways has two instances. -/
theorem run_transparent_literal :
    ∃ answer play, (answer, play) ∈
        (Play.start (fun _ => none : Resolver Unit) {} ⟨.undefined, none, ()⟩).run
          (fun _ _ _ => .ok .undefined)
          [.step (.compile "1" false), .step (.compile "1" true)] ∧
      play.session.cache.size = 2 ∧
      ∃ request ∈ play.requests, ∃ request' ∈ play.requests, ∃ found found',
        request.result = .ok found ∧ request'.result = .ok found' ∧
          found.number ≠ found'.number := by
  have htransparent := (run_transparent (fun _ _ _ => .ok .undefined)
    (fun _ => none : Resolver Unit) {} ⟨.undefined, none, ()⟩
    [.step (.compile "1" false), .step (.compile "1" true)]).1
  refine ⟨_, _, List.mem_of_getElem? (i := 1) rfl, ?_, ?_⟩
  · exact (htransparent _ _ (List.mem_of_getElem? (i := 1) rfl)).2.2
  · obtain ⟨hfound, -⟩ := htransparent _ _ (List.mem_of_getElem? (i := 1) rfl)
    refine ⟨_, List.mem_of_getElem? (i := 0) rfl, _, List.mem_of_getElem? (i := 1) rfl, _, _, rfl,
      rfl, fun hnumber => ?_⟩
    have hkey := (hfound _ (List.mem_of_getElem? (i := 0) rfl) _ (List.mem_of_getElem? (i := 1) rfl)
      _ _ rfl rfl).1.mp hnumber
    exact absurd (congrArg Prod.snd hkey) Bool.false_ne_true

end TemplateExpr
