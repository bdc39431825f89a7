/-!
# Character ranges

A character class is a list of code point ranges in increasing order. Membership stops at
the first range that begins past the character, so a test of an early character is short.
-/

namespace TemplateExpr.Text

/-- Increasing ranges of code points, both ends included. -/
abbrev Ranges := List (Nat × Nat)

/-- Whether one of the ranges holds the character. -/
def Ranges.contains : Ranges → Char → Bool
  | [], _ => false
  | (first, last) :: rest, c =>
    first ≤ c.toNat && (c.toNat ≤ last || Ranges.contains rest c)

/-- A character that is held stands in one of the ranges. -/
theorem Ranges.exists_of_contains {ranges : Ranges} {c : Char} (h : ranges.contains c) :
    ∃ range ∈ ranges, range.1 ≤ c.toNat ∧ c.toNat ≤ range.2 := by
  induction ranges with
  | nil => simp [Ranges.contains] at h
  | cons range rest ih =>
    obtain ⟨first, last⟩ := range
    simp only [Ranges.contains, Bool.and_eq_true, Bool.or_eq_true, decide_eq_true_eq] at h
    rcases h with ⟨low, high | held⟩
    · exact ⟨_, List.mem_cons_self, low, high⟩
    · obtain ⟨range, member, bounds⟩ := ih held
      exact ⟨range, List.mem_cons_of_mem _ member, bounds⟩

end TemplateExpr.Text
