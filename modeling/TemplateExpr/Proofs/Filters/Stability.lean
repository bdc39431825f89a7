import TemplateExpr.Proofs.Filters.Sorting

/-!
# Sorting is stable

Sorted items stand in order, and items that are not in order with one another keep the places they
had among themselves. So a list that is in order already is left as it is. All this rests on the order
of the items that are sorted alone; what it does with others does not matter.
-/

namespace TemplateExpr.Sorting

variable {α : Type} {less : α → α → Bool} {Admitted : α → Prop}

/-- Whether admitted items can be put in order, up to ties: no two of them come before one another,
and what does not come after a second item that does not come after a third one does not come after
this one. -/
structure IsOrder (less : α → α → Bool) (Admitted : α → Prop) : Prop where
  asymm {a b : α} : Admitted a → Admitted b → less a b = true → less b a = false
  trans {a b c : α} : Admitted a → Admitted b → Admitted c →
    less b a = false → less c b = false → less c a = false

/-- Sorted items are in order, the least first. -/
theorem pairwise_sorted (horder : IsOrder less Admitted) {items : List α}
    (hitems : ∀ item ∈ items, Admitted item) :
    (sorted less items).Pairwise fun a b => less b a = false := by
  -- Among admitted items the order is total and transitive, which it need not be among all.
  let before (a b : { item // Admitted item }) : Prop := less a b = false
  let : DecidableRel before := fun a b => inferInstanceAs (Decidable (less a b = false))
  have : Std.Total before := ⟨fun a b => by
    cases hless : less a b with
    | false => exact .inl hless
    | true => exact .inr (horder.asymm a.2 b.2 hless)⟩
  have : IsTrans _ before := ⟨fun a b c hab hbc => horder.trans c.2 b.2 a.2 hbc hab⟩
  obtain ⟨admitted, hadmitted⟩ : ∃ admitted : List { item // Admitted item },
      admitted.map Subtype.val = items.reverse :=
    ⟨_, List.attachWith_map_subtype_val fun item hitem => hitems item (List.mem_reverse.mp hitem)⟩
  rw [sorted_eq_insertionSort, List.pairwise_reverse, ← hadmitted,
    ← List.map_insertionSort before _ Subtype.val admitted fun _ _ _ _ => Iff.rfl, List.pairwise_map]
  exact List.pairwise_insertionSort before admitted

/-- Items in order stay where they are. -/
theorem sorted_of_pairwise {items : List α} (h : items.Pairwise fun a b => less b a = false) :
    sorted less items = items := by
  rw [sorted_eq_insertionSort, (List.pairwise_reverse.mpr h).insertionSort_eq, List.reverse_reverse]

/-- Items of which none comes before another one stay in the order that they are in. -/
theorem filter_sorted {p : α → Bool} {items : List α}
    (h : ∀ item ∈ items, ∀ other ∈ items, p item = true → p other = true →
      less item other = false) :
    (sorted less items).filter p = items.filter p := by
  have hties : (items.reverse.filter p).Pairwise fun a b => less a b = false := by
    refine List.pairwise_of_forall_mem_list fun a ha b hb => ?_
    obtain ⟨ha, hpassed⟩ := List.mem_filter.mp ha
    obtain ⟨hb, hpassed'⟩ := List.mem_filter.mp hb
    exact h a (List.mem_reverse.mp ha) b (List.mem_reverse.mp hb) hpassed hpassed'
  -- Such items are found in their order among the sorted ones, and there are no more of them.
  have hkept := (List.sublist_insertionSort hties List.filter_sublist).filter p
  rw [List.filter_filter] at hkept
  simp only [Bool.and_self] at hkept
  have hsame := hkept.eq_of_length ((List.perm_insertionSort _ _).filter p).length_eq.symm
  rw [sorted_eq_insertionSort, List.filter_reverse, ← hsame, List.filter_reverse,
    List.reverse_reverse]

end TemplateExpr.Sorting
