import TemplateExpr.Node.Compile
import TemplateExpr.Proofs.Evaluation.Effects
import TemplateExpr.Proofs.Outcome

/-!
# What trees compile to

Compilation passes the effects of the parts on to the whole, and the source that it is given is
only quoted: whether it succeeds and what code it gives are the same for every source.
-/

namespace TemplateExpr

variable {σ : Type}

/-- Code and the path that it is used as have the same effects. -/
theorem Code.effects_toPath (code : Code σ) : code.toPath.effects = code.effects := by
  cases code <;> simp [toPath, Path.effects, Root.effects, Key.allEffects, effects]

/-- The effects of the keys of a path come in the order of the keys. -/
theorem Key.allEffects_append (keys : List (Key σ)) (key : Key σ) :
    Key.allEffects (keys ++ [key]) = Key.allEffects keys ++ key.effects := by
  induction keys with
  | nil => simp [allEffects]
  | cons first rest ih => simp [allEffects, ih]

/-- One more key adds its effects to those of a path. -/
theorem Path.effects_push (path : Path σ) (key : Key σ) :
    (path.push key).effects = path.effects ++ key.effects := by
  obtain ⟨root, keys⟩ := path
  simp [push, effects, Key.allEffects_append]

namespace Node

variable {resolver : Resolver σ} {source : String}

/-- What the property of a member access or the key of an entry compiles to. -/
def compileKey (resolver : Resolver σ) (source : String) (property : Node) (computed : Bool) :
    Except Error (Key σ) :=
  if computed then Key.computed <$> property.compile resolver source
  else pure (.fixed property.fixedKey)

/-- A key is computed by the code of its tree, or spelled out. -/
theorem compileKey_eq_ok {property : Node} {computed : Bool} {key : Key σ} :
    compileKey resolver source property computed = .ok key ↔
      (computed = true ∧ ∃ code, property.compile resolver source = .ok code ∧
        .computed code = key) ∨ (computed = false ∧ .fixed property.fixedKey = key) := by
  unfold compileKey
  cases computed with
  | true => cases property.compile resolver source <;> simp [Functor.map, Except.map]
  | false => simp [pure, Except.pure]

/-- The key of a member access is compiled before its holder. -/
theorem compile_member (holder property : Node) (computed : Bool) :
    compile resolver source (.member holder property computed) = (do
      let key ← compileKey resolver source property computed
      let path ← holder.compile resolver source
      return .read (path.toPath.push key)) := by
  cases computed <;> rfl

/-- A member access is its key added to the path of its holder. -/
theorem compile_member_eq_ok {holder property : Node} {computed : Bool} {code : Code σ} :
    compile resolver source (.member holder property computed) = .ok code ↔
      ∃ key, compileKey resolver source property computed = .ok key ∧
        ∃ path, holder.compile resolver source = .ok path ∧
          .read (path.toPath.push key) = code := by
  simp only [compile_member, bind_eq_ok, pure_eq_ok]

/-- The name that a filter is looked up by. -/
def filterName : Node → String
  | .identifier name => name
  | other => other.text

/-- A filter is looked up before its arguments are compiled. -/
theorem compile_filter (name : Node) (arguments : List Node) :
    compile resolver source (.filter name arguments) =
      (resolver name.filterName).elim (.error (.unknownFilter name.filterName source))
        fun found => do return .filter found (← compileAll resolver source arguments) := by
  cases name <;> simp only [compile, filterName] <;> split <;>
    simp only [*, Option.elim_none, Option.elim_some]

/-- A filter is found by its name and applied to its arguments. -/
theorem compile_filter_eq_ok {name : Node} {arguments : List Node} {code : Code σ} :
    compile resolver source (.filter name arguments) = .ok code ↔
      ∃ found, resolver name.filterName = some found ∧
        ∃ codes, compileAll resolver source arguments = .ok codes ∧
          .filter found codes = code := by
  rw [compile_filter]
  cases resolver name.filterName with
  | none => simp
  | some found =>
    simp only [Option.elim_some, Option.some.injEq, exists_eq_left', bind_eq_ok, pure_eq_ok]

/-- A call is that of what stands at the end of a path, or of a value. -/
theorem effects_compile_call {callee : Node} {arguments : List Node} {code : Code σ}
    (h : compile resolver source (.call callee arguments) = .ok code) :
    ∃ calleeCode codes, callee.compile resolver source = .ok calleeCode ∧
      compileAll resolver source arguments = .ok codes ∧
      code.effects = calleeCode.effects ++ Code.allEffects codes ++ [.calls] := by
  simp only [compile, bind_eq_ok] at h
  obtain ⟨codes, hcodes, calleeCode, hcallee, h⟩ := h
  refine ⟨calleeCode, codes, hcallee, hcodes, ?_⟩
  cases calleeCode <;> cases h <;> rfl

/-- The key of an entry is compiled before its value. -/
theorem compileProperties_cons (key value : Node) (computed : Bool) (rest : List Property) :
    compileProperties resolver source (.entry key value computed :: rest) = (do
      let keyCode ← compileKey resolver source key computed
      let valueCode ← value.compile resolver source
      return .entry keyCode valueCode :: (← compileProperties resolver source rest)) := by
  cases computed <;> rfl

/-- An entry is a key and a value. -/
theorem compileProperties_cons_eq_ok {key value : Node} {computed : Bool} {rest : List Property}
    {entries : List (Entry σ)} :
    compileProperties resolver source (.entry key value computed :: rest) = .ok entries ↔
      ∃ keyCode, compileKey resolver source key computed = .ok keyCode ∧
        ∃ valueCode, value.compile resolver source = .ok valueCode ∧
          ∃ more, compileProperties resolver source rest = .ok more ∧
            .entry keyCode valueCode :: more = entries := by
  simp only [compileProperties_cons, bind_eq_ok, pure_eq_ok]

/-- Trees compile one after the other. -/
theorem compileAll_append_eq_ok {nodes nodes' : List Node} {codes : List (Code σ)} :
    compileAll resolver source (nodes ++ nodes') = .ok codes ↔
      ∃ front back, compileAll resolver source nodes = .ok front ∧
        compileAll resolver source nodes' = .ok back ∧ front ++ back = codes := by
  induction nodes generalizing codes with
  | nil => simp [compileAll]
  | cons node rest ih =>
    simp only [List.cons_append, compileAll, bind_eq_ok, pure_eq_ok, ih]
    constructor
    · rintro ⟨code, hcode, _, ⟨front, back, hfront, hback, rfl⟩, rfl⟩
      exact ⟨code :: front, back, ⟨code, hcode, front, hfront, rfl⟩, hback, rfl⟩
    · rintro ⟨_, back, ⟨code, hcode, front, hfront, rfl⟩, hback, rfl⟩
      exact ⟨code, hcode, front ++ back, ⟨front, back, hfront, hback, rfl⟩, rfl⟩

mutual

/-- A tree compiles to the same code with every source. -/
theorem compile_source (node : Node) {code : Code σ} (source' : String)
    (h : node.compile resolver source = .ok code) : node.compile resolver source' = .ok code := by
  cases node with
  | program body =>
    simp only [compile, bind_eq_ok] at h ⊢
    obtain ⟨codes, hcodes, h⟩ := h
    exact ⟨codes, compileAll_source body source' hcodes, h⟩
  | statement expression =>
    simp only [compile, bind_eq_ok] at h ⊢
    obtain ⟨code, hcode, h⟩ := h
    exact ⟨code, compile_source expression source' hcode, h⟩
  | literal | identifier | this | locals => exact h
  | member holder property computed =>
    simp only [compile_member_eq_ok, compileKey_eq_ok] at h ⊢
    obtain ⟨key, hkey, path, hpath, h⟩ := h
    refine ⟨key, ?_, path, compile_source holder source' hpath, h⟩
    rcases hkey with ⟨hcomputed, code, hcode, hkey⟩ | hfixed
    · exact .inl ⟨hcomputed, code, compile_source property source' hcode, hkey⟩
    · exact .inr hfixed
  | call callee arguments =>
    simp only [compile, bind_eq_ok] at h ⊢
    obtain ⟨codes, hcodes, code, hcode, h⟩ := h
    exact ⟨codes, compileAll_source arguments source' hcodes,
      code, compile_source callee source' hcode, h⟩
  | filter name arguments =>
    simp only [compile_filter_eq_ok] at h ⊢
    obtain ⟨found, hfound, codes, hcodes, h⟩ := h
    exact ⟨found, hfound, codes, compileAll_source arguments source' hcodes, h⟩
  | assignment target value =>
    simp only [compile] at h ⊢
    split at h
    case isTrue hassignable =>
      rw [if_pos hassignable]
      simp only [bind_eq_ok] at h ⊢
      obtain ⟨path, hpath, code, hcode, h⟩ := h
      exact ⟨path, compile_source target source' hpath,
        code, compile_source value source' hcode, h⟩
    case isFalse => contradiction
  | conditional test alternate consequent =>
    simp only [compile, bind_eq_ok] at h ⊢
    obtain ⟨testCode, htest, alternateCode, halternate, consequentCode, hconsequent, h⟩ := h
    exact ⟨testCode, compile_source test source' htest, alternateCode,
      compile_source alternate source' halternate, consequentCode,
      compile_source consequent source' hconsequent, h⟩
  | logical operator left right | binary operator left right =>
    simp only [compile, bind_eq_ok] at h ⊢
    obtain ⟨leftCode, hleft, rightCode, hright, h⟩ := h
    exact ⟨leftCode, compile_source left source' hleft,
      rightCode, compile_source right source' hright, h⟩
  | unary operator leading argument =>
    simp only [compile, bind_eq_ok] at h ⊢
    obtain ⟨code, hcode, h⟩ := h
    exact ⟨code, compile_source argument source' hcode, h⟩
  | array elements =>
    simp only [compile, bind_eq_ok] at h ⊢
    obtain ⟨codes, hcodes, h⟩ := h
    exact ⟨codes, compileAll_source elements source' hcodes, h⟩
  | object properties =>
    simp only [compile, bind_eq_ok] at h ⊢
    obtain ⟨entries, hentries, h⟩ := h
    exact ⟨entries, compileProperties_source properties source' hentries, h⟩

/-- Trees compile to the same codes with every source. -/
theorem compileAll_source (nodes : List Node) {codes : List (Code σ)} (source' : String)
    (h : compileAll resolver source nodes = .ok codes) :
    compileAll resolver source' nodes = .ok codes := by
  cases nodes with
  | nil => exact h
  | cons node rest =>
    simp only [compileAll, bind_eq_ok] at h ⊢
    obtain ⟨code, hcode, codes, hcodes, h⟩ := h
    exact ⟨code, compile_source node source' hcode,
      codes, compileAll_source rest source' hcodes, h⟩

/-- Entries compile to the same code with every source. -/
theorem compileProperties_source (properties : List Property) {entries : List (Entry σ)}
    (source' : String) (h : compileProperties resolver source properties = .ok entries) :
    compileProperties resolver source' properties = .ok entries := by
  cases properties with
  | nil => exact h
  | cons property rest =>
    obtain ⟨key, value, computed⟩ := property
    simp only [compileProperties_cons_eq_ok, compileKey_eq_ok] at h ⊢
    obtain ⟨keyCode, hkey, valueCode, hvalue, more, hmore, h⟩ := h
    refine ⟨keyCode, ?_, valueCode, compile_source value source' hvalue,
      more, compileProperties_source rest source' hmore, h⟩
    rcases hkey with ⟨hcomputed, code, hcode, hkey⟩ | hfixed
    · exact .inl ⟨hcomputed, code, compile_source key source' hcode, hkey⟩
    · exact .inr hfixed

end

end Node

end TemplateExpr
