import Mathlib.Data.List.Forall2
import TemplateExpr.Filter.Sorting
import TemplateExpr.Proofs.Outcome

/-!
# What criteria ask for

A criterion of `orderBy` is written as a text, in which an expression may stand after a sign for the
direction. Without an expression it asks for the items themselves, and so does what is no text. Several
criteria are written as an array of them. The key of an item is what the expression gives in it, and the
row of an item has its keys by all criteria.
-/

namespace TemplateExpr

/-- Steps in a row end well exactly when each of them does. -/
theorem mapM_eq_ok {ε α β : Type} {step : α → Except ε β} {items : List α} {results : List β} :
    items.mapM step = .ok results ↔
      List.Forall₂ (fun item result => step item = .ok result) items results := by
  induction items generalizing results with
  | nil => rw [List.mapM_nil, pure_eq_ok, List.forall₂_nil_left_iff, eq_comm]
  | cons item rest ih =>
    simp only [List.mapM_cons, bind_eq_ok, pure_eq_ok, List.forall₂_cons_left_iff, ih]
    constructor
    · rintro ⟨result, hresult, more, hmore, rfl⟩
      exact ⟨result, more, hresult, hmore, rfl⟩
    · rintro ⟨result, more, hresult, hmore, rfl⟩
      exact ⟨result, hresult, more, hmore, rfl⟩

namespace Sorting

/-- The direction and the expression in a text: a minus sign turns the order around. -/
inductive Directed : List Char → (descending : Bool) → List Char → Prop
  | minus (text : List Char) : Directed ('-' :: text) true text
  | plus (text : List Char) : Directed ('+' :: text) false text
  | unsigned {text : List Char} (hminus : text.head? ≠ some '-') (hplus : text.head? ≠ some '+') :
      Directed text false text

/-- A text is read in one way only. -/
theorem Directed.unique {text expression expression' : List Char} {descending descending' : Bool}
    (h : Directed text descending expression) (h' : Directed text descending' expression') :
    (descending, expression) = (descending', expression') := by
  cases h <;> cases h' <;> first | rfl | contradiction

/-- What is no text asks for the items themselves, from the least. -/
theorem splitDirection_of_kind_ne {spec : Value} (h : spec.kind ≠ .string) :
    splitDirection spec = (false, []) := by
  cases spec <;> first | rfl | contradiction

/-- A text is split where its direction ends. -/
theorem splitDirection_text {text : String} {descending : Bool} {expression : List Char} :
    splitDirection (.string text) = (descending, expression) ↔
      Directed (Text.trim text.toList) descending expression := by
  have hdirected : Directed (Text.trim text.toList) (splitDirection (.string text)).1
      (splitDirection (.string text)).2 := by
    simp only [splitDirection]
    split
    case h_1 rest htrim => exact htrim ▸ .minus rest
    case h_2 rest htrim => exact htrim ▸ .plus rest
    case h_3 htrim htrim' =>
      refine .unsigned (fun hhead => ?_) fun hhead => ?_
      · obtain ⟨rest, hrest⟩ := List.head?_eq_some_iff.mp hhead
        exact htrim rest hrest
      · obtain ⟨rest, hrest⟩ := List.head?_eq_some_iff.mp hhead
        exact htrim' rest hrest
  exact ⟨fun h => by rwa [h] at hdirected, fun h => hdirected.unique h⟩

/-- The criterion that a value asks for: a direction, and an expression or the items themselves. -/
inductive Criterion (resolver : Resolver Unit) : Value → SortKey → Prop
  | items {spec : Value} (h : spec.kind ≠ .string) : Criterion resolver spec ⟨none, false⟩
  | blank {text : String} {descending : Bool}
      (h : Directed (Text.trim text.toList) descending []) :
      Criterion resolver (.string text) ⟨none, descending⟩
  | expression {text : String} {descending : Bool} {source : List Char} {evaluator : Evaluator Unit}
      (h : Directed (Text.trim text.toList) descending source) (hsource : source ≠ [])
      (hcompiles : Evaluator.ofSource resolver {} (String.ofList source) false = .ok evaluator) :
      Criterion resolver (.string text) ⟨some evaluator, descending⟩

/-- The criteria that an argument asks for: those of its items, one after the other, or else its own. -/
inductive Criteria (resolver : Resolver Unit) : Value → List SortKey → Prop
  | several {specs : List Value} {keys : List SortKey} (hsome : specs ≠ [])
      (h : List.Forall₂ (Criterion resolver) specs keys) : Criteria resolver (.array specs) keys
  | single {spec : Value} {key : SortKey} (hsingle : ∀ specs, spec = .array specs → specs = [])
      (h : Criterion resolver spec key) : Criteria resolver spec [key]

/-- The key of an item by a criterion: the item itself, or what the expression gives with the item as
its scope. -/
def SortKey.Gives (host : Host) (key : SortKey) (item value : Value) : Prop :=
  match key.expression with
  | none => value = item
  | some evaluator => (evaluator.evaluate host ⟨item, none, ()⟩).1 = .ok value

/-- The row of an item has a key by each criterion. -/
def HasRow (host : Host) (keys : List SortKey) (item : Value) (row : List Value) : Prop :=
  List.Forall₂ (fun key value => key.Gives host item value) keys row

variable {host : Host} {resolver : Resolver Unit} {keys : List SortKey} {spec item : Value}

/-- A value is read as the criterion that it asks for. -/
theorem SortKey.ofValue_eq_ok_iff {key : SortKey} :
    SortKey.ofValue resolver spec = .ok key ↔ Criterion resolver spec key := by
  by_cases hstring : spec.kind = .string
  · obtain ⟨text, rfl⟩ : ∃ text, spec = .string text := by
      cases spec <;> cases hstring
      exact ⟨_, rfl⟩
    obtain ⟨⟨descending, source⟩, hsplit⟩ : ∃ parts, splitDirection (.string text) = parts := ⟨_, rfl⟩
    have hdirected := splitDirection_text.mp hsplit
    constructor
    · intro h
      rw [ofValue, hsplit] at h
      cases source with
      | nil =>
        cases h
        exact .blank hdirected
      | cons c rest =>
        obtain ⟨evaluator, hcompiles, hkey⟩ := bind_eq_ok.mp h
        cases hkey
        exact .expression hdirected (List.cons_ne_nil c rest) hcompiles
    · intro h
      cases h with
      | items h => exact absurd rfl h
      | blank h =>
        cases hdirected.unique h
        rw [ofValue, hsplit]
      | expression h hsource hcompiles =>
        cases hdirected.unique h
        rw [ofValue, hsplit]
        cases source with
        | nil => exact absurd rfl hsource
        | cons c rest => exact bind_eq_ok.mpr ⟨_, hcompiles, rfl⟩
  · rw [ofValue, splitDirection_of_kind_ne hstring]
    constructor
    · intro h
      cases h
      exact .items hstring
    · intro h
      cases h with
      | items => rfl
      | blank | expression => exact absurd rfl hstring

/-- An argument is read as the criteria that it asks for. -/
theorem keysOf_eq_ok_iff : keysOf resolver spec = .ok keys ↔ Criteria resolver spec keys := by
  unfold keysOf
  split
  case h_1 first rest =>
    rw [mapM_eq_ok]
    constructor
    · exact fun h => .several (List.cons_ne_nil first rest)
        (h.imp fun _ _ hkey => SortKey.ofValue_eq_ok_iff.mp hkey)
    · intro h
      cases h with
      | several hsome h => exact h.imp fun _ _ hkey => SortKey.ofValue_eq_ok_iff.mpr hkey
      | single hsingle h => cases hsingle _ rfl
  case h_2 hother =>
    simp only [bind_eq_ok, pure_eq_ok, SortKey.ofValue_eq_ok_iff]
    constructor
    · rintro ⟨key, hkey, rfl⟩
      refine .single (fun specs hspecs => ?_) hkey
      cases specs with
      | nil => rfl
      | cons first rest => exact absurd hspecs (hother first rest)
    · intro h
      cases h with
      | @several specs _ hsome h =>
        cases specs with
        | nil => exact absurd rfl hsome
        | cons first rest => exact absurd rfl (hother first rest)
      | single hsingle h => exact ⟨_, h, rfl⟩

/-- The key of an item is computed as its criterion gives it. -/
theorem SortKey.ofItem_eq_ok_iff {key : SortKey} {value : Value} :
    key.ofItem host item = .ok value ↔ key.Gives host item value := by
  obtain ⟨expression, descending⟩ := key
  cases expression with
  | none => exact (iff_of_eq (Except.ok.injEq _ _)).trans eq_comm
  | some evaluator => rfl

/-- The row of keys of an item. -/
def rowOf (host : Host) (keys : List SortKey) (item : Value) : Except Error (List Value) :=
  keys.mapM fun key => key.ofItem host item

/-- The row of an item is computed key by key. -/
theorem rowOf_eq_ok_iff {row : List Value} :
    rowOf host keys item = .ok row ↔ HasRow host keys item row := by
  rw [rowOf, mapM_eq_ok, HasRow]
  simp only [SortKey.ofItem_eq_ok_iff]

end Sorting

end TemplateExpr
