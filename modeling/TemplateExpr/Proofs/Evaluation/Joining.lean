import Mathlib.Data.List.TakeWhile
import TemplateExpr.Proofs.Evaluation.Quotation
import TemplateExpr.Proofs.Evaluation.Watching
import TemplateExpr.Proofs.Lexing.Seam

/-!
# One program after another

Two sources with a semicolon between them are one program: its statements are those of the first
source and then those of the second one. It runs the first program and then, unless that fails, the
second one in the environment that the first one leaves, and only the errors tell it apart, as they
quote the joined source.
-/

namespace TemplateExpr

/-- What a phrase of a category is where a semicolon and statements follow it. Statements are more
statements with them, and no other phrase is asked for anything. -/
def Category.Joins (options : Options) : (category : Category) → List Lexeme → category.Tree → Prop
  | .statements, ls, body => ∀ ls' body', Derives options .statements ls' body' →
      Derives options .statements (ls ++ .symbol .semicolon :: ls') (body ++ body')
  | _, _, _ => True

namespace Derives

variable {options : Options}

/-- Statements end before a semicolon as they end at the end. -/
theorem joins {category : Category} {ls : List Lexeme} {tree : category.Tree}
    (h : Derives options category ls tree) : category.Joins options ls tree := by
  induction h with
  | noStatements => exact fun _ _ hbody' => .emptyStatement hbody'
  | lastStatement hnode => exact fun _ _ hbody' => .nextStatement hnode hbody'
  | emptyStatement _ ih => exact fun ls' body' hbody' => .emptyStatement (ih ls' body' hbody')
  | nextStatement hnode _ _ ih =>
    intro ls' body' hbody'
    rw [List.append_assoc]
    exact .nextStatement hnode (ih ls' body' hbody')
  | _ => trivial

/-- No statement begins with a colon. -/
theorem statements_ne_colon {ls rest : List Lexeme} {body : List Node}
    (h : Derives options .statements ls body) : ls ≠ .symbol .colon :: rest := by
  intro hls
  have hcolon : ¬StartsWith Lexeme.beginsExpression ls := by
    rw [hls]
    rintro ⟨_, _, ⟨⟩, hfirst⟩
    cases hfirst
  cases h with
  | noStatements => cases hls
  | lastStatement hnode => exact hcolon hnode.begins.expression
  | emptyStatement => cases hls
  | nextStatement hnode => exact hcolon (hnode.begins.expression.append _)

end Derives

/-- Characters that begin with a colon after white space have a colon for their first lexeme. -/
theorem Scans.exists_colon {chars rest : List Char} {words : List Lexeme} (h : Scans chars words)
    (hcolon : Text.trimStart chars = ':' :: rest) :
    ∃ words', words = .symbol .colon :: words' := by
  cases h with
  | blank hspace =>
    rw [Text.trimStart, List.dropWhile_eq_nil_iff.mpr hspace] at hcolon
    cases hcolon
  | @lexeme space tail left c word words hspace hfirst hword =>
    have hends : ∀ d more, c :: tail = d :: more → Text.isWhiteSpace d = false := by
      rintro d more ⟨⟩
      exact hfirst
    rw [Text.trimStart, dropWhile_append_of_ends hspace hends] at hcolon
    cases hcolon
    cases hword
    exact ⟨words, rfl⟩

namespace Node

/-- The statements of one program after another one are those of both. -/
theorem statements_append (body body' : List Node) :
    (Node.program (body ++ body')).statements =
      (Node.program body).statements ++ (Node.program body').statements := List.map_append

/-- A source is a program if its lexemes are. -/
theorem ofSource_iff_scans {source : String} {tree : Node} :
    ofSource {} source = .ok tree ↔
      ∃ words, Scans source.toList words ∧ Derives {} .program words tree := by
  rw [ofSource_eq_ok]
  constructor
  · rintro ⟨tokens, hscan, hprogram⟩
    exact ⟨_, scan_iff_scans.mp ⟨tokens, hscan, rfl⟩, Parser.derives_of_program hprogram⟩
  · rintro ⟨words, hscans, hderives⟩
    obtain ⟨tokens, hscan, rfl⟩ := scan_iff_scans.mpr hscans
    exact ⟨tokens, hscan, Parser.program_of_derives hderives⟩

/-- With a semicolon between them, two sources are the statements of both. -/
theorem ofSource_append {source source' : String} {tree tree' : Node}
    (h : ofSource {} source = .ok tree) (h' : ofSource {} source' = .ok tree') :
    ∃ body body', tree = .program body ∧ tree' = .program body' ∧
      ofSource {} (source ++ ";" ++ source') = .ok (.program (body ++ body')) := by
  obtain ⟨words, hscans, hprogram⟩ := ofSource_iff_scans.mp h
  obtain ⟨words', hscans', hprogram'⟩ := ofSource_iff_scans.mp h'
  cases hprogram with | @program _ body hbody => ?_
  cases hprogram' with | @program _ body' hbody' => ?_
  refine ⟨body, body', rfl, rfl, ofSource_iff_scans.mpr
    ⟨words ++ .symbol .semicolon :: words', ?_, .program (hbody.joins words' body' hbody')⟩⟩
  simpa using hscans.join hscans'

end Node

namespace Code

variable {σ : Type} {host : Host} {source : String}

/-- Codes are run one after the other. -/
theorem runLast_append (last : Value) (codes codes' : List (Code σ)) :
    runLast host source last (codes ++ codes') =
      runLast host source last codes >>= fun value => runLast host source value codes' := by
  induction codes generalizing last with
  | nil => rfl
  | cons code rest ih =>
    simp only [List.cons_append, runLast, bind_assoc]
    exact bind_congr fun value => ih value

/-- The value that there is before any code is run is the value of no code only. -/
theorem runLast_of_ne_nil {codes : List (Code σ)} (h : codes ≠ []) (last last' : Value) :
    runLast host source last codes = runLast host source last' codes := by
  cases codes with
  | nil => contradiction
  | cons code rest => rfl

end Code

namespace Evaluator

variable {σ : Type} {resolver : Resolver σ}

/-- A source of a program has no mark of a one-time binding. -/
theorem splitOneTime_of_ofSource {source : String} {tree : Node}
    (h : Node.ofSource {} source = .ok tree) : splitOneTime source = (source, false) := by
  obtain ⟨words, hscans, hprogram⟩ := Node.ofSource_iff_scans.mp h
  unfold splitOneTime
  split
  case h_1 hcolon =>
    obtain ⟨words', rfl⟩ := hscans.exists_colon hcolon
    cases hprogram with | program hbody => exact absurd rfl hbody.statements_ne_colon
  case h_2 => rfl

/-- A source of a program compiles if the program does. -/
theorem ofSource_eq_ofNode {source : String} {tree : Node}
    (h : Node.ofSource {} source = .ok tree) :
    ofSource resolver {} source false = ofNode resolver source tree := by
  simp only [ofSource, splitOneTime_of_ofSource h, h, ofNode, bind, Except.bind]
  cases Node.compileAll resolver source tree.statements <;> rfl

/-- A tree compiles if its statements do. -/
theorem exists_ofNode {source : String} {tree : Node} {codes : List (Code σ)}
    (h : Node.compileAll resolver source tree.statements = .ok codes) :
    ∃ evaluator, ofNode resolver source tree = .ok evaluator := by
  simp only [ofNode, h]
  exact ⟨_, rfl⟩

/-- The statements of two programs compile as those of one program, whatever the sources are. -/
theorem compileAll_program_append {source source' : String} {body body' : List Node}
    {first second : Evaluator σ} (joined : String)
    (h : ofNode resolver source (.program body) = .ok first)
    (h' : ofNode resolver source' (.program body') = .ok second) :
    Node.compileAll resolver joined (Node.program (body ++ body')).statements =
      .ok (first.statements ++ second.statements) := by
  obtain ⟨hcodes, -⟩ := ofNode_eq_ok h
  obtain ⟨hcodes', -⟩ := ofNode_eq_ok h'
  rw [Node.statements_append, Node.compileAll_append_eq_ok]
  exact ⟨_, _, Node.compileAll_source _ joined hcodes, Node.compileAll_source _ joined hcodes', rfl⟩

/-- A program runs both of two programs if it does what the first one does and then, where that ends
well, what the second one does. It quotes its own source in the errors of both. -/
structure RunsBoth (host : Host) (first second joined : Evaluator σ) : Prop where
  /-- An error of the first program ends the run. -/
  of_error : ∀ env error after, first.evaluate host env = (.error error, after) →
    SameButQuote first.source joined.source (.error error) (joined.evaluate host env).1 ∧
      (joined.evaluate host env).2 = after
  /-- If there is nothing to go on with, the value is that of the first program. -/
  of_nil : second.statements = [] → ∀ env value after,
    first.evaluate host env = (.ok value, after) → joined.evaluate host env = (.ok value, after)
  /-- The second program begins in the environment that the first one leaves. -/
  of_ok : second.statements ≠ [] → ∀ env value between,
    first.evaluate host env = (.ok value, between) →
      SameButQuote second.source joined.source (second.evaluate host between).1
        (joined.evaluate host env).1 ∧
      (joined.evaluate host env).2 = (second.evaluate host between).2

/-- A program with the statements of two others runs both. -/
theorem runsBoth_of_statements {host : Host} {first second joined : Evaluator σ}
    (h : joined.statements = first.statements ++ second.statements) :
    RunsBoth host first second joined := by
  have hjoined : joined.evaluate host =
      Code.runLast host joined.source .undefined first.statements >>= fun value =>
        Code.runLast host joined.source value second.statements := by
    rw [evaluate, h, Code.runLast_append]
  have hfirst : Run.SameButQuote first.source joined.source (first.evaluate host)
      (Code.runLast host joined.source .undefined first.statements) :=
    Code.runLast_sameButQuote first.statements
  have hgoesOn {env between : Environment σ} {value : Value}
      (hvalue : first.evaluate host env = (.ok value, between)) :
      joined.evaluate host env =
        Code.runLast host joined.source value second.statements between := by
    rw [hjoined, Run.bind_apply, hfirst.eq_of_ok hvalue]
  refine ⟨fun env error after herror => ?_, fun hnil env value after hvalue => ?_,
    fun hne env value between hvalue => ?_⟩
  · obtain ⟨error', herror', hsame⟩ := hfirst.exists_of_error herror
    rw [hjoined, Run.bind_apply, herror']
    exact ⟨hsame, rfl⟩
  · rw [hgoesOn hvalue, hnil]
    rfl
  · rw [hgoesOn hvalue, Code.runLast_of_ne_nil hne value .undefined]
    exact Code.runLast_sameButQuote second.statements between

/-- The sources of two programs with a semicolon between them are the source of one program. Its
statements are those of both, it compiles if both do, and it runs the first program and then the
second one. -/
theorem runsBoth_ofSource_append {source source' : String} {tree tree' : Node}
    (h : Node.ofSource {} source = .ok tree) (h' : Node.ofSource {} source' = .ok tree') :
    (∃ body body', tree = .program body ∧ tree' = .program body' ∧
      Node.ofSource {} (source ++ ";" ++ source') = .ok (.program (body ++ body'))) ∧
    ∀ {σ : Type} (resolver : Resolver σ),
      ((∃ joined, ofSource resolver {} (source ++ ";" ++ source') false = .ok joined) ↔
        (∃ first, ofSource resolver {} source false = .ok first) ∧
        ∃ second, ofSource resolver {} source' false = .ok second) ∧
      ∀ first second joined, ofSource resolver {} source false = .ok first →
        ofSource resolver {} source' false = .ok second →
        ofSource resolver {} (source ++ ";" ++ source') false = .ok joined →
        ∀ host, RunsBoth host first second joined := by
  obtain ⟨body, body', rfl, rfl, hjoined⟩ := Node.ofSource_append h h'
  refine ⟨⟨body, body', rfl, rfl, hjoined⟩, fun {σ} resolver => ?_⟩
  rw [ofSource_eq_ofNode h, ofSource_eq_ofNode h', ofSource_eq_ofNode hjoined]
  refine ⟨⟨fun ⟨joined, hok⟩ => ?_, fun ⟨⟨first, hfirst⟩, second, hsecond⟩ => ?_⟩,
    fun first second joined hfirst hsecond hok host => runsBoth_of_statements ?_⟩
  · obtain ⟨hcodes, -⟩ := ofNode_eq_ok hok
    rw [Node.statements_append, Node.compileAll_append_eq_ok] at hcodes
    obtain ⟨codes, codes', hcodes, hcodes', -⟩ := hcodes
    exact ⟨exists_ofNode (Node.compileAll_source _ source hcodes),
      exists_ofNode (Node.compileAll_source _ source' hcodes')⟩
  · exact exists_ofNode (compileAll_program_append _ hfirst hsecond)
  · obtain ⟨hcodes, -⟩ := ofNode_eq_ok hok
    rw [compileAll_program_append _ hfirst hsecond] at hcodes
    exact (Except.ok.inj hcodes).symm

/-- The sources `a = 2` and `; a()` have a number and an empty statement where they are joined. The
joined program leaves the `a` that the first one makes, and fails in the call as the second one
does, but with an error that quotes `a = 2;; a()`. -/
theorem runsBoth_of_failing_call :
    let resolver : Resolver Unit := fun _ => none
    let host : Host := fun _ _ _ => .ok .undefined
    let env : Environment Unit := ⟨.object [], none, ()⟩
    let between : Environment Unit := ⟨.object [("a", .integer 2)], none, ()⟩
    ∃ first second joined, ofSource resolver {} "a = 2" false = .ok first ∧
      ofSource resolver {} "; a()" false = .ok second ∧
      ofSource resolver {} "a = 2;; a()" false = .ok joined ∧
      RunsBoth host first second joined ∧
      first.evaluate host env = (.ok (.integer 2), between) ∧
      second.evaluate host between = (.error (.type (.notCallable .number "; a()")), between) ∧
      joined.evaluate host env =
        (.error (.type (.notCallable .number "a = 2;; a()")), between) := by
  intro resolver host env between
  have hfirst : Node.ofSource {} "a = 2" = .ok (.program [.statement
      (.assignment (.identifier "a") (.literal (.integer 2)))]) := rfl
  have hsecond : Node.ofSource {} "; a()" = .ok (.program [.statement
      (.call (.identifier "a") [])]) := rfl
  obtain ⟨first, hfirstOk, hrun⟩ : ∃ first, ofSource resolver {} "a = 2" false = .ok first ∧
      first.evaluate host env = (.ok (.integer 2), between) :=
    ⟨_, ofSource_eq_ofNode hfirst, rfl⟩
  obtain ⟨second, hsecondOk, hfails⟩ : ∃ second, ofSource resolver {} "; a()" false = .ok second ∧
      second.evaluate host between =
        (.error (.type (.notCallable .number "; a()")), between) :=
    ⟨_, ofSource_eq_ofNode hsecond, rfl⟩
  obtain ⟨⟨_, _, ⟨⟩, ⟨⟩, hjoined⟩, hprograms⟩ := runsBoth_ofSource_append hfirst hsecond
  obtain ⟨joined, hjoinedOk, hends⟩ : ∃ joined,
      ofSource resolver {} "a = 2;; a()" false = .ok joined ∧ joined.evaluate host env =
        (.error (.type (.notCallable .number "a = 2;; a()")), between) :=
    ⟨_, ofSource_eq_ofNode hjoined, rfl⟩
  obtain ⟨-, hboth⟩ := hprograms resolver
  exact ⟨first, second, joined, hfirstOk, hsecondOk, hjoinedOk,
    hboth first second joined hfirstOk hsecondOk hjoinedOk host, hrun, hfails, hends⟩

end Evaluator

end TemplateExpr
