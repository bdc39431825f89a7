import TemplateExpr.Proofs.Evaluation.Compilation
import TemplateExpr.Proofs.Printing.Parts

/-!
# Code that changes nothing

Code whose effects are to read and to call leaves every environment as it was. Trees compile to
such code if no part of them is an assignment or a filter with state. All code gives the same value
whatever source its errors quote.
-/

namespace TemplateExpr

variable {σ : Type}

/-- Whether an effect leaves the environment as it is. -/
def Effect.IsStill : Effect σ → Prop
  | .reads _ | .calls => True
  | .remembers _ | .writes => False

/-- The comparison of one environment with another, each of which has to stay as it is. -/
def Comparison.staying (host : Host) (source source' : String) (env env' : Environment σ) :
    Comparison σ where
  host := host
  host' := host
  source := source
  source' := source'
  related := fun before before' => before = env ∧ before' = env'

/-- Still effects are the same in two environments with the same values at all places. -/
theorem Comparison.respects_staying {effects : List (Effect σ)}
    (h : ∀ effect ∈ effects, effect.IsStill) (host : Host) (source source' : String)
    {env env' : Environment σ} (hbase : ∀ place, env.base place = env'.base place) :
    (staying host source source' env env').Respects effects := by
  intro effect heffect
  cases effect with
  | reads place =>
    rintro _ _ ⟨rfl, rfl⟩
    exact hbase place
  | calls => rfl
  | remembers | writes => exact (h _ heffect).elim

namespace Code

/-- Code with still effects alone leaves the environment as it is. -/
theorem run_env {code : Code σ} (h : ∀ effect ∈ code.effects, effect.IsStill) (host : Host)
    (source : String) (env : Environment σ) : (code.run host source env).2 = env :=
  have hrespects := Comparison.respects_staying h host source source fun _ => rfl
  (code.run_agrees hrespects env env ⟨rfl, rfl⟩).2.1

/-- Still code gives one value wherever scope and locals are the same, whatever the filters
remember and whatever source its errors quote. -/
theorem run_of_still {code : Code σ} (h : ∀ effect ∈ code.effects, effect.IsStill)
    {host : Host} {source : String} {env env' : Environment σ} {value : Value}
    (hvalue : (code.run host source env).1 = .ok value) (source' : String)
    (hscope : env.scope = env'.scope) (hlocals : env.locals = env'.locals) :
    code.run host source' env' = (.ok value, env') := by
  have hrespects := Comparison.respects_staying h host source source'
    (Environment.base_eq hscope hlocals)
  obtain ⟨houtcome, -, hafter⟩ := code.run_agrees hrespects env env' ⟨rfl, rfl⟩
  exact Prod.ext (houtcome.eq_ok hvalue) hafter

end Code

namespace Comparison

variable {comparison : Comparison σ}

/-- From one environment a value is written in one way. -/
theorem Agrees.write (hrelated : comparison.related = Eq) (location : Location) (value : Value) :
    comparison.Agrees (Run.write comparison.source location value : Run σ Value)
      (Run.write comparison.source' location value) := by
  rintro env env' henv
  rw [hrelated] at henv
  subst henv
  unfold Run.write
  cases location.keys with
  | nil => exact Agrees.throw (fun hsource => by rw [hsource]) env env (by rw [hrelated])
  | cons key rest =>
    refine ⟨SameOutcome.refl _, ?_⟩
    rw [hrelated]

/-- From one environment every effect is the same. -/
theorem respects_of_eq (hhost : comparison.host = comparison.host')
    (hrelated : comparison.related = Eq) (effects : List (Effect σ)) :
    comparison.Respects effects := by
  intro effect _
  cases effect with
  | reads place =>
    intro env env' henv
    rw [hrelated] at henv
    rw [henv]
  | remembers apply =>
    intro arguments env env' henv
    rw [hrelated] at henv ⊢
    subst henv
    exact ⟨SameOutcome.refl _, rfl⟩
  | calls => exact hhost
  | writes => exact fun location value => .write hrelated location value

end Comparison

/-- Code gives one value whatever source its errors quote. -/
theorem Code.run_source {code : Code σ} {host : Host} {source : String} {env : Environment σ}
    {value : Value} (source' : String) (h : (code.run host source env).1 = .ok value) :
    (code.run host source' env).1 = .ok value := by
  let comparison : Comparison σ := {
    host, source, source'
    host' := host
    related := Eq }
  have hagrees := code.run_agrees (comparison.respects_of_eq rfl rfl code.effects)
  exact (hagrees env env rfl).1.eq_ok h

namespace Node

/-- Whether a tree changes something when it is run, other than through its parts: it writes, or it
is a filter with state. -/
def Changes (resolver : Resolver σ) : Node → Prop
  | .assignment .. => True
  | .filter name _ => (resolver name.filterName).any Filter.isStateful = true
  | _ => False

variable {resolver : Resolver σ} {source : String}

mutual

/-- A tree compiles to still code if none of its parts changes something. -/
theorem isStill_of_parts (node : Node) {code : Code σ}
    (hcode : node.compile resolver source = .ok code)
    (h : ∀ part ∈ node.parts, ¬part.Changes resolver) : ∀ effect ∈ code.effects, effect.IsStill := by
  cases node with
  | program body =>
    simp only [compile, bind_eq_ok, pure_eq_ok] at hcode
    obtain ⟨codes, hcodes, rfl⟩ := hcode
    simp only [parts, List.forall_mem_cons] at h
    exact isStill_of_allParts body hcodes h.2
  | statement expression =>
    simp only [compile, bind_eq_ok, pure_eq_ok] at hcode
    obtain ⟨code, hcode, rfl⟩ := hcode
    simp only [parts, List.forall_mem_cons] at h
    have hstill := isStill_of_parts expression hcode h.2
    simpa [Code.effects, Code.allEffects] using hstill
  | literal value =>
    cases hcode
    simp [Code.effects]
  | identifier name =>
    cases hcode
    simp [Code.effects, Path.effects, Root.effects, Key.allEffects, Effect.IsStill]
  | this | locals =>
    cases hcode
    simp [Code.effects, Effect.IsStill]
  | member holder property computed =>
    simp only [compile_member_eq_ok, compileKey_eq_ok] at hcode
    obtain ⟨key, hkey, path, hpath, rfl⟩ := hcode
    simp only [parts, List.forall_mem_cons, List.forall_mem_append] at h
    have hholder := isStill_of_parts holder hpath h.2.1
    have hproperty : ∀ effect ∈ key.effects, effect.IsStill := by
      rcases hkey with ⟨rfl, code, hcode, rfl⟩ | ⟨rfl, rfl⟩
      · exact isStill_of_parts property hcode h.2.2
      · simp [Key.effects]
    simp only [Code.effects, Path.effects_push, Code.effects_toPath, List.forall_mem_append]
    exact ⟨hholder, hproperty⟩
  | call callee arguments =>
    obtain ⟨calleeCode, codes, hcallee, hcodes, heffects⟩ := effects_compile_call hcode
    simp only [parts, List.forall_mem_cons, List.forall_mem_append] at h
    simp only [heffects, List.forall_mem_append, List.forall_mem_singleton]
    exact ⟨⟨isStill_of_parts callee hcallee h.2.1, isStill_of_allParts arguments hcodes h.2.2⟩,
      trivial⟩
  | filter name arguments =>
    obtain ⟨found, hfound, codes, hcodes, rfl⟩ := compile_filter_eq_ok.mp hcode
    simp only [parts, List.forall_mem_cons, Changes, hfound, Option.any_some] at h
    have hfilter : found.effects = [] := by
      cases found with
      | pure apply => rfl
      | stateful apply => exact absurd rfl h.1
    simp only [Code.effects, hfilter, List.append_nil]
    exact isStill_of_allParts arguments hcodes h.2
  | assignment target value =>
    simp only [parts, List.forall_mem_cons] at h
    exact absurd trivial h.1
  | conditional test alternate consequent =>
    simp only [compile, bind_eq_ok, pure_eq_ok] at hcode
    obtain ⟨testCode, htest, alternateCode, halternate, consequentCode, hconsequent, rfl⟩ := hcode
    simp only [parts, List.forall_mem_cons, List.forall_mem_append] at h
    simp only [Code.effects, List.forall_mem_append]
    exact ⟨⟨isStill_of_parts test htest h.2.1.1, isStill_of_parts alternate halternate h.2.1.2⟩,
      isStill_of_parts consequent hconsequent h.2.2⟩
  | logical operator left right | binary operator left right =>
    simp only [compile, bind_eq_ok, pure_eq_ok] at hcode
    obtain ⟨leftCode, hleft, rightCode, hright, rfl⟩ := hcode
    simp only [parts, List.forall_mem_cons, List.forall_mem_append] at h
    simp only [Code.effects, List.forall_mem_append]
    exact ⟨isStill_of_parts left hleft h.2.1, isStill_of_parts right hright h.2.2⟩
  | unary operator leading argument =>
    simp only [compile, bind_eq_ok, pure_eq_ok] at hcode
    obtain ⟨argumentCode, hargument, rfl⟩ := hcode
    simp only [parts, List.forall_mem_cons] at h
    simp only [Code.effects]
    exact isStill_of_parts argument hargument h.2
  | array elements =>
    simp only [compile, bind_eq_ok, pure_eq_ok] at hcode
    obtain ⟨codes, hcodes, rfl⟩ := hcode
    simp only [parts, List.forall_mem_cons] at h
    exact isStill_of_allParts elements hcodes h.2
  | object properties =>
    simp only [compile, bind_eq_ok, pure_eq_ok] at hcode
    obtain ⟨entries, hentries, rfl⟩ := hcode
    simp only [parts, List.forall_mem_cons] at h
    exact isStill_of_propertyParts properties hentries h.2

/-- Trees compile to still codes if none of their parts changes something. -/
theorem isStill_of_allParts (nodes : List Node) {codes : List (Code σ)}
    (hcodes : compileAll resolver source nodes = .ok codes)
    (h : ∀ part ∈ allParts nodes, ¬part.Changes resolver) :
    ∀ effect ∈ Code.allEffects codes, effect.IsStill := by
  cases nodes with
  | nil =>
    cases hcodes
    simp [Code.allEffects]
  | cons node rest =>
    simp only [compileAll, bind_eq_ok, pure_eq_ok] at hcodes
    obtain ⟨code, hcode, codes, hcodes, rfl⟩ := hcodes
    simp only [allParts, List.forall_mem_append] at h
    simp only [Code.allEffects, List.forall_mem_append]
    exact ⟨isStill_of_parts node hcode h.1, isStill_of_allParts rest hcodes h.2⟩

/-- Entries compile to still code if none of their parts changes something. -/
theorem isStill_of_propertyParts (properties : List Property) {entries : List (Entry σ)}
    (hentries : compileProperties resolver source properties = .ok entries)
    (h : ∀ part ∈ propertyParts properties, ¬part.Changes resolver) :
    ∀ effect ∈ Entry.allEffects entries, effect.IsStill := by
  cases properties with
  | nil =>
    cases hentries
    simp [Entry.allEffects]
  | cons property rest =>
    obtain ⟨key, value, computed⟩ := property
    simp only [compileProperties_cons_eq_ok, compileKey_eq_ok] at hentries
    obtain ⟨keyCode, hkey, valueCode, hvalue, more, hmore, rfl⟩ := hentries
    simp only [propertyParts, List.forall_mem_append] at h
    have hkeys : ∀ effect ∈ keyCode.effects, effect.IsStill := by
      rcases hkey with ⟨rfl, code, hcode, rfl⟩ | ⟨rfl, rfl⟩
      · exact isStill_of_parts key hcode h.1.1
      · simp [Key.effects]
    simp only [Entry.allEffects, List.forall_mem_append]
    exact ⟨⟨hkeys, isStill_of_parts value hvalue h.1.2⟩,
      isStill_of_propertyParts rest hmore h.2⟩

end

end Node

end TemplateExpr
