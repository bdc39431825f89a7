/-!
# Rounding quotients

A quotient of natural numbers is rounded to the nearest whole number. Only an exact half
leaves a choice, which each use of the rule makes for itself. `divideNearest_near` bounds the
error by half a unit.
-/

namespace TemplateExpr

/-- Where a quotient halfway between two whole numbers goes. -/
inductive Tie where
  | toEven
  | up
  deriving DecidableEq

/-- The whole number nearest to `num / den`. -/
def divideNearest (tie : Tie) (num den : Nat) : Nat :=
  let floor := num / den
  let twice := 2 * (num % den)
  if twice < den then floor
  else if den < twice then floor + 1
  else match tie with
    | .toEven => floor + floor % 2
    | .up => floor + 1

/-- The rounded quotient is at most half a unit away. -/
theorem divideNearest_near (tie : Tie) (num : Nat) {den : Nat} (h : 0 < den) :
    2 * num ≤ (2 * divideNearest tie num den + 1) * den ∧
      2 * divideNearest tie num den * den ≤ 2 * num + den := by
  have parts := Nat.div_add_mod num den
  have small := Nat.mod_lt num h
  have next : (2 * (num / den + 1) + 1) * den = 2 * (den * (num / den)) + 3 * den := by
    rw [Nat.mul_comm den]; simp only [Nat.add_mul, Nat.mul_add, Nat.mul_assoc]; omega
  have here : (2 * (num / den) + 1) * den = 2 * (den * (num / den)) + den := by
    rw [Nat.mul_comm den]; simp only [Nat.add_mul, Nat.mul_assoc]; omega
  rw [Nat.add_mul] at next here
  have choice : divideNearest tie num den = num / den ∧ 2 * (num % den) ≤ den ∨
      divideNearest tie num den = num / den + 1 ∧ den ≤ 2 * (num % den) := by
    unfold divideNearest
    cases tie <;> dsimp only <;> split <;> try split
    all_goals omega
  rcases choice with ⟨equal, near⟩ | ⟨equal, near⟩ <;> rw [equal, Nat.add_mul] <;> omega

end TemplateExpr
