import TemplateExpr.Proofs.Number.Nearest

/-!
# The order of rounded numbers

Rounding keeps order: a larger number is never rounded to a smaller one. It does not keep numbers
apart, as two integers may be rounded to one double. Doubles are compared by their places on the
line, of which only what is not a number has none.
-/

namespace TemplateExpr

/-- A rounded quotient is the whole number below it or the next one. -/
theorem divideNearest_between {num den n : Nat} (hfloor : n * den ≤ num)
    (hnext : num < (n + 1) * den) :
    n ≤ divideNearest .toEven num den ∧ divideNearest .toEven num den ≤ n + 1 := by
  have hsucc : (n + 1) * den = n * den + den := Nat.succ_mul n den
  obtain ⟨rest, rfl⟩ := Nat.exists_eq_add_of_le hfloor
  rw [divideNearest_mul_add (by omega)]
  split
  · omega
  · split <;> omega

/-- Between two whole numbers a larger numerator does not make a rounded quotient smaller. -/
theorem divideNearest_mono_between {num num' den n : Nat} (hfloor : n * den ≤ num)
    (hnext : num' < (n + 1) * den) (h : num ≤ num') :
    divideNearest .toEven num den ≤ divideNearest .toEven num' den := by
  have hsucc : (n + 1) * den = n * den + den := Nat.succ_mul n den
  obtain ⟨rest, rfl⟩ := Nat.exists_eq_add_of_le hfloor
  obtain ⟨rest', rfl⟩ := Nat.exists_eq_add_of_le (Nat.le_trans hfloor h)
  rw [divideNearest_mul_add (by omega), divideNearest_mul_add (by omega)]
  grind

namespace Magnitude

/-- Larger magnitudes have larger sizes. -/
theorem unitsAt_mono {n n' : Nat} (h : n ≤ n') : unitsAt n ≤ unitsAt n' := by
  induction h with
  | refl => exact Nat.le_refl _
  | step _ ih => exact Nat.le_trans ih (Nat.le_of_lt (unitsAt_lt_succ _))

/-- Every size lies between a magnitude and the next one. -/
theorem exists_unitsAt_le_lt (size : Nat) :
    ∃ n, unitsAt n ≤ size ∧ size < unitsAt (n + 1) := by
  induction size with
  | zero => exact ⟨0, Nat.le_refl 0, Nat.lt_of_le_of_lt (Nat.zero_le _) (unitsAt_lt_succ 0)⟩
  | succ size ih =>
    obtain ⟨n, hlow, hhigh⟩ := ih
    rcases Nat.lt_or_ge (size + 1) (unitsAt (n + 1)) with hsame | hnext
    · exact ⟨n, Nat.le_succ_of_le hlow, hsame⟩
    · exact ⟨n + 1, hnext, Nat.lt_of_le_of_lt hhigh (unitsAt_lt_succ (n + 1))⟩

/-- Every quotient lies between a magnitude and the next one. -/
theorem exists_unitsAt_mul_le_lt (num : Nat) {den : Nat} (hden : 0 < den) :
    ∃ n, unitsAt n * den ≤ num ∧ num < unitsAt (n + 1) * den := by
  obtain ⟨n, hlow, hhigh⟩ := exists_unitsAt_le_lt (num / den)
  exact ⟨n, (Nat.le_div_iff_mul_le hden).mp hlow, (Nat.div_lt_iff_lt_mul hden).mp hhigh⟩

/-- A quotient is rounded to the magnitude below it or to the next one, within the range. -/
theorem nearest_between {num den n : Nat} (hden : 0 < den) (hlow : unitsAt n * den ≤ num)
    (hhigh : num < unitsAt (n + 1) * den) :
    min n 0x7FF0000000000000 ≤ (nearest num den).val ∧
      (nearest num den).val ≤ min (n + 1) 0x7FF0000000000000 := by
  have hparts := exponentAt_mul_add n
  obtain ⟨hfloor, hnext⟩ :=
    divideNearest_between (unitsAt_mul n den ▸ hlow) (unitsAt_succ_mul n den ▸ hhigh)
  rw [val_nearest hden hlow hhigh]
  omega

/-- A larger quotient is not rounded to a smaller magnitude. -/
theorem nearest_mono {num num' den : Nat} (hden : 0 < den) (h : num ≤ num') :
    (nearest num den).val ≤ (nearest num' den).val := by
  obtain ⟨n, hlow, hhigh⟩ := exists_unitsAt_mul_le_lt num hden
  obtain ⟨n', hlow', hhigh'⟩ := exists_unitsAt_mul_le_lt num' hden
  rcases Nat.lt_trichotomy n n' with hless | rfl | hmore
  · have hbelow := (nearest_between hden hlow hhigh).2
    have habove := (nearest_between hden hlow' hhigh').1
    omega
  · have hround := divideNearest_mono_between (unitsAt_mul n den ▸ hlow)
      (unitsAt_succ_mul n den ▸ hhigh') h
    have hsum := Nat.add_le_add_left hround (exponentAt n * binade)
    rw [val_nearest hden hlow hhigh, val_nearest hden hlow' hhigh']
    exact Nat.le_min.mpr ⟨Nat.le_trans (Nat.min_le_left _ _) hsum, Nat.min_le_right _ _⟩
  · have hunits : unitsAt (n' + 1) * den ≤ unitsAt n * den :=
      Nat.mul_le_mul_right den (unitsAt_mono hmore)
    omega

end Magnitude

namespace Binary64

/-- The place of a number on the line, if it is a number. -/
def place? : Binary64 → Option Int
  | .nan => none
  | .signed negative m => some (place negative m)

/-- Numbers are ordered as their places are. -/
theorem order_eq (x y : Binary64) :
    x.order y = x.place?.bind fun p => y.place?.map fun q => compare p q := by
  cases x <;> cases y <;> rfl

/-- Numbers are equal if they share a place. -/
theorem same_iff {x y : Binary64} :
    x.same y = true ↔ ∃ p, x.place? = some p ∧ y.place? = some p := by
  rw [same, order_eq, beq_iff_eq]
  cases x.place? <;> cases y.place?
  case some.some p q =>
    simp only [Option.bind_some, Option.map_some, Option.some.injEq, Int.compare_eq_eq]
    constructor
    · rintro rfl
      exact ⟨p, rfl, rfl⟩
    · rintro ⟨r, rfl, rfl⟩
      rfl
  all_goals simp

/-- Equality of doubles goes both ways. -/
theorem same_comm (x y : Binary64) : x.same y = y.same x := by
  rw [Bool.eq_iff_iff, same_iff, same_iff]
  exact exists_congr fun p => and_comm

/-- What is equal to a double is equal to all that this one is equal to. -/
theorem same_trans {x y z : Binary64} (hxy : x.same y = true) (hyz : y.same z = true) :
    x.same z = true := by
  obtain ⟨p, hx, hy⟩ := same_iff.mp hxy
  obtain ⟨q, hy', hz⟩ := same_iff.mp hyz
  cases hy.symm.trans hy'
  exact same_iff.mpr ⟨p, hx, hz⟩

/-- All doubles are equal to themselves but what is not a number. -/
theorem same_self_iff {x : Binary64} : x.same x = true ↔ x ≠ .nan := by
  cases x <;> simp [same_iff, place?]

/-- The place of the double nearest to a whole number. -/
def placeOfInt (n : Int) : Int :=
  place (n < 0) (Magnitude.nearest (n.natAbs * Magnitude.unitsPerOne) 1)

/-- The double nearest to a whole number has a place. -/
theorem place?_ofInt (n : Int) : (ofInt n).place? = some (placeOfInt n) := rfl

/-- A larger whole number is not rounded to a smaller double. -/
theorem placeOfInt_mono {m n : Int} (h : m ≤ n) : placeOfInt m ≤ placeOfInt n := by
  have hmono {a b : Nat} (hab : a ≤ b) :=
    Magnitude.nearest_mono Nat.one_pos (Nat.mul_le_mul_right Magnitude.unitsPerOne hab)
  simp only [placeOfInt, place, decide_eq_true_eq]
  by_cases hm : m < 0
  · by_cases hn : n < 0
    · have hsizes := hmono (by omega : n.natAbs ≤ m.natAbs)
      rw [if_pos hm, if_pos hn]
      omega
    · rw [if_pos hm, if_neg hn]
      omega
  · have hsizes := hmono (by omega : m.natAbs ≤ n.natAbs)
    rw [if_neg hm, if_neg (by omega)]
    omega

end Binary64

end TemplateExpr
