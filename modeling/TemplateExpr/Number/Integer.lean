/-!
# Integers of 64 bits

Results of integer arithmetic are computed without bounds and then brought into range, either
by refusing those outside or by moving them to the nearest end.
-/

namespace TemplateExpr

/-- The 64-bit integer equal to a number, if it is in range. -/
def int64? (n : Int) : Option Int64 :=
  if -0x8000000000000000 ≤ n && n < 0x8000000000000000 then some (Int64.ofInt n) else none

/-- The 64-bit integer nearest to a number. -/
def int64Clamped (n : Int) : Int64 :=
  Int64.ofInt (max (-0x8000000000000000) (min n 0x7FFFFFFFFFFFFFFF))

/-- A number in range is kept as it is, and any other number has no integer. -/
theorem int64?_eq_some_iff {n : Int} {value : Int64} :
    int64? n = some value ↔ value.toInt = n := by
  unfold int64?
  have low := value.le_toInt
  have high := value.toInt_lt
  split
  case isTrue inRange =>
    simp at inRange
    constructor
    · rintro ⟨⟩
      exact Int64.toInt_ofInt_of_le (by omega) (by omega)
    · rintro rfl
      simp
  case isFalse outOfRange =>
    simp at outOfRange
    constructor
    · rintro ⟨⟩
    · omega

/-- Clamping moves a number to the nearest one in range. -/
theorem toInt_int64Clamped (n : Int) :
    (int64Clamped n).toInt = max (-0x8000000000000000) (min n 0x7FFFFFFFFFFFFFFF) :=
  Int64.toInt_ofInt_of_le (by omega) (by omega)

end TemplateExpr
