/-!
# Peeling computations that may fail

What a sequence of steps that ends well says about its steps.
-/

namespace TemplateExpr

variable {ε α β : Type}

/-- Two steps end well exactly when both do. -/
theorem bind_eq_ok {first : Except ε α} {next : α → Except ε β} {result : β} :
    first >>= next = .ok result ↔ ∃ value, first = .ok value ∧ next value = .ok result := by
  cases first <;> simp [bind, Except.bind]

/-- Two steps fail exactly when the first one does, or the second one after it. -/
theorem bind_eq_error {first : Except ε α} {next : α → Except ε β} {fault : ε} :
    first >>= next = .error fault ↔
      first = .error fault ∨ ∃ value, first = .ok value ∧ next value = .error fault := by
  cases first <;> simp [bind, Except.bind]

/-- A step that cannot fail gives what it is given. -/
theorem pure_eq_ok {value result : α} :
    (pure value : Except ε α) = .ok result ↔ value = result := by
  simp [pure, Except.pure]

/-- A step that cannot fail gives no error. -/
theorem pure_eq_error {value : α} {fault : ε} :
    (pure value : Except ε α) = .error fault ↔ False := by
  simp [pure, Except.pure]

/-- Naming an error otherwise makes no value. -/
theorem mapError_eq_ok {ε' : Type} {first : Except ε α} {name : ε → ε'} {result : α} :
    first.mapError name = .ok result ↔ first = .ok result := by
  cases first with
  | ok value => constructor <;> intro h <;> cases h <;> rfl
  | error fault => exact ⟨nofun, nofun⟩

/-- Of steps in a row, the first one that fails is how all of them end. -/
theorem mapM_eq_error {step : α → Except ε β} {front back : List α} {item : α} {fault : ε}
    (hfront : ∀ earlier ∈ front, ∃ value, step earlier = .ok value)
    (hitem : step item = .error fault) : (front ++ item :: back).mapM step = .error fault := by
  induction front with
  | nil =>
    rw [List.nil_append, List.mapM_cons, hitem]
    rfl
  | cons earlier front ih =>
    obtain ⟨⟨value, hvalue⟩, hrest⟩ := List.forall_mem_cons.mp hfront
    rw [List.cons_append, List.mapM_cons, hvalue, bind_eq_error]
    exact .inr ⟨value, rfl, bind_eq_error.mpr (.inl (ih hrest))⟩

/-- Steps in a row fail if any of them does. -/
theorem exists_mapM_eq_error {step : α → Except ε β} {items : List α} {item : α} {fault : ε}
    (hmem : item ∈ items) (hitem : step item = .error fault) :
    ∃ fault', items.mapM step = .error fault' := by
  induction items with
  | nil => cases hmem
  | cons first rest ih =>
    rw [List.mapM_cons]
    cases hfirst : step first with
    | error fault' => exact ⟨fault', rfl⟩
    | ok value =>
      have hrest : item ∈ rest := by
        rcases List.mem_cons.mp hmem with rfl | hrest
        · rw [hfirst] at hitem
          cases hitem
        · exact hrest
      obtain ⟨fault', hfault⟩ := ih hrest
      rw [hfault]
      exact ⟨fault', rfl⟩

end TemplateExpr
