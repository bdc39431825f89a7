import Mathlib.Data.List.Sort
import TemplateExpr.Filter.Sorting
import TemplateExpr.Proofs.Outcome

/-!
# Sorting loses and changes no item

Each item is put somewhere among those before it, so that sorting only moves items. The keys are
computed aside: whatever a key expression does to the item that it is run with, the items that come
out are the items that went in.
-/

namespace TemplateExpr.Sorting

variable {α : Type} {less : α → α → Bool}

/-- An item is inserted before those that it is not less than. -/
theorem insertItem_eq_orderedInsert (item : α) (items : List α) :
    insertItem less item items = items.orderedInsert (fun a b => less a b = false) item := by
  induction items with
  | nil => rfl
  | cons other rest ih =>
    rw [insertItem, List.orderedInsert_cons, ih]
    cases less item other <;> rfl

/-- Sorting is the insertion of items from the first to the last one, the greatest in front. -/
theorem sorted_eq_insertionSort (items : List α) :
    sorted less items = (items.reverse.insertionSort fun a b => less a b = false).reverse := by
  simp only [sorted, List.insertionSort, List.foldr_reverse, insertItem_eq_orderedInsert]

/-- Sorting moves items. -/
theorem sorted_perm (items : List α) : (sorted less items).Perm items := by
  rw [sorted_eq_insertionSort]
  exact (List.reverse_perm _).trans ((List.perm_insertionSort _ _).trans (List.reverse_perm items))

variable {host : Host}

/-- The rows of keys stand beside the items that they are computed for. -/
theorem map_snd_rows {keys : List SortKey} {items : List Value}
    {decorated : List (List Value × Value)} (h : rows host keys items = .ok decorated) :
    decorated.map (·.2) = items := by
  induction items generalizing decorated with
  | nil =>
    cases h
    rfl
  | cons item rest ih =>
    simp only [rows, List.mapM_cons, bind_eq_ok, pure_eq_ok] at h
    obtain ⟨_, ⟨row, -, rfl⟩, more, hmore, rfl⟩ := h
    rw [List.map_cons, ih hmore]

/-- What comes out of an array that is sorted are its items, in some order. -/
theorem exists_perm_of_apply {resolver : Resolver Unit} {items arguments : List Value}
    {result : Value} (h : apply host resolver (.array items :: arguments) = .ok result) :
    ∃ moved, result = .array moved ∧ moved.Perm items := by
  simp only [apply, argument, List.getElem?_cons_zero, Option.getD_some, bind_eq_ok,
    pure_eq_ok] at h
  obtain ⟨keys, -, decorated, hrows, rfl⟩ := h
  refine ⟨_, rfl, ?_⟩
  rw [← map_snd_rows hrows]
  exact (sorted_perm decorated).map _

end TemplateExpr.Sorting
