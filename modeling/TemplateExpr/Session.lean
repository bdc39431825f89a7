import TemplateExpr.Cache

/-!
# Sessions

A session keeps a cache and an environment, and takes steps that compile, evaluate, assign or
replace a part of the environment.

A step compiles one source at most. What it evaluates has no access to the cache: filters are given
the host and their arguments, and `orderBy` compiles its keys anew whenever it is called. Where a
process keeps one cache for all keys of `orderBy`, that cache belongs to no session and is not part of
what is described here.
-/

namespace TemplateExpr

/-- One step of a session. -/
inductive SessionStep where
  | compile (source : String) (isolated : Bool)
  | evaluate (source : String) (isolated : Bool)
  | assign (source : String) (isolated : Bool) (value : Value)
  | setScope (value : Value)
  | setLocals (value : Option Value)

/-- What a step answers. -/
inductive SessionAnswer (σ : Type) where
  | compiled (found : Instance σ)
  | finished (found : Instance σ) (outcome : Except Error Value)
  /-- The source does not compile. -/
  | rejected (error : Error)
  | replaced

/-- A cache and the environment that its evaluators run against. -/
structure Session (σ : Type) where
  cache : Cache σ
  environment : Environment σ

namespace Session

variable {σ : Type}

/-- Compile a source and run something with its evaluator. -/
def running (session : Session σ) (source : String) (isolated : Bool)
    (run : Evaluator σ → Run σ Value) : SessionAnswer σ × Session σ :=
  match session.cache.compile source isolated with
  | (.error error, cache) => (.rejected error, { session with cache })
  | (.ok found, cache) =>
    let (outcome, environment) := run found.evaluator session.environment
    (.finished found outcome, { cache, environment })

/-- Take one step. -/
def step (host : Host) (session : Session σ) : SessionStep → SessionAnswer σ × Session σ
  | .compile source isolated =>
    match session.cache.compile source isolated with
    | (.error error, cache) => (.rejected error, { session with cache })
    | (.ok found, cache) => (.compiled found, { session with cache })
  | .evaluate source isolated =>
    session.running source isolated fun evaluator => evaluator.evaluate host
  | .assign source isolated value =>
    session.running source isolated fun evaluator => evaluator.assign host value
  | .setScope value =>
    (.replaced, { session with environment := { session.environment with scope := value } })
  | .setLocals value =>
    (.replaced, { session with environment := { session.environment with locals := value } })

/-- Take steps in order. Each answer comes with the session after its step. -/
def run (host : Host) (session : Session σ) :
    List SessionStep → List (SessionAnswer σ × Session σ)
  | [] => []
  | step :: rest =>
    let answer := session.step host step
    answer :: answer.2.run host rest

end Session

end TemplateExpr
