import TemplateExpr.Proofs.Filters.Slicing
import TemplateExpr.Proofs.Operations.Integers

/-!
# Slices in integers of 64 bits

The filter `limitTo` is computed here step by step in integers of 64 bits, and a step has no result if a
sum overflows or if a range does not lie in the input. Every step has a result, and in the end it is the
part that unbounded integers give. So the filter is safe, and no part is longer than the limit asks for.
-/

namespace TemplateExpr.Slice

/-- The sum, if it does not overflow. -/
def add? (a b : Int64) : Option Int64 := int64? (a.toInt + b.toInt)

/-- The sum, or the end of the range that it is beyond. -/
def addSaturating (a b : Int64) : Int64 := int64Clamped (a.toInt + b.toInt)

/-- The limit as an integer. The length of the input is negated for a limit that is infinite backwards. -/
def limitWord? (length : Int64) (limit : Binary64) : Option Int64 :=
  if limit.isFinite then some (int64Clamped limit.truncate)
  else if limit.order .zero = some .gt then some length
  else int64? (-length.toInt)

/-- The beginning as an integer. An offset from the end is added to the length. -/
def startWord? (length : Int64) (start : Binary64) : Option Int64 :=
  if start.order .zero = some .lt then
    (add? length (int64Clamped start.truncate)).map fun sum => max sum 0
  else some (int64Clamped start.truncate)

/-- Where the part begins and ends. Only the sum for a limit that is not negative is saturating. -/
def endsWord? (length limit start : Int64) : Option (Int64 × Int64) :=
  if 0 ≤ limit then some (start, addSaturating start limit)
  else if start = 0 then (add? length limit).map fun first => (first, length)
  else (add? start limit).map fun first => (first, start)

/-- A place moved into the input as an index. There is none if the length is negative. -/
def clampWord? (length place : Int64) : Option Nat :=
  if 0 ≤ length then some (max 0 (min place length)).toInt.toNat else none

/-- The items in a range, if it does not end before it begins and lies in the list. -/
def range? {α : Type} (items : List α) (first last : Nat) : Option (List α) :=
  if first ≤ last ∧ last ≤ items.length then some ((items.take last).drop first) else none

/-- The part of a list that is cut out in integers of 64 bits. -/
def partWord? {α : Type} (items : List α) (limit start : Binary64) : Option (List α) := do
  let length ← int64? items.length
  let limit ← limitWord? length limit
  let start ← startWord? length start
  let ends ← endsWord? length limit start
  let first ← clampWord? length ends.1
  let last ← clampWord? length ends.2
  range? items first (max last first)

/-- The filter in integers of 64 bits. -/
def applyWord? (arguments : List Value) : Option Value :=
  let input := argument arguments 0
  let limit := (argument arguments 1).toNumber
  let start := (argument arguments 2).toNumber
  if limit.isNaN then some input
  else match input with
    | .array items => (partWord? items limit start).map Value.array
    | .string _ | .integer _ | .float _ =>
      (partWord? input.display.toList limit start).map fun part => .string (String.ofList part)
    | other => some other

variable {length : Nat} {limit start : Binary64} {size : Int64}

/-- A number in range is an integer. -/
theorem exists_int64? {n : Int} (hlow : -most - 1 ≤ n) (hhigh : n ≤ most) :
    ∃ value, int64? n = some value ∧ value.toInt = n := by
  obtain ⟨value, hvalue⟩ := Option.isSome_iff_exists.mp
    (Arithmetic.isSome_int64?_iff.mpr ⟨hlow, Int.lt_add_one_iff.mpr hhigh⟩)
  exact ⟨value, hvalue, int64?_eq_some_iff.mp hvalue⟩

/-- The limit is an integer. -/
theorem limitWord?_eq (limit : Binary64) (hsize : size.toInt = length) :
    ∃ word, limitWord? size limit = some word ∧ word.toInt = limitOf length limit := by
  have hhigh : size.toInt ≤ most := Int.le_of_lt_add_one size.toInt_lt
  simp only [limitWord?, limitOf, beq_iff_eq]
  split
  · exact ⟨_, rfl, rfl⟩
  · split
    · exact ⟨size, rfl, hsize⟩
    · rw [hsize] at hhigh ⊢
      exact exists_int64? (by unfold most at *; omega) (by unfold most at *; omega)

/-- The larger one of two integers. -/
theorem toInt_max (a b : Int64) : (max a b).toInt = max a.toInt b.toInt := by
  have hmax : max a b = if a ≤ b then b else a := rfl
  simp only [hmax, Int.max_def, apply_ite Int64.toInt, Int64.le_iff_toInt_le]

/-- The smaller one of two integers. -/
theorem toInt_min (a b : Int64) : (min a b).toInt = min a.toInt b.toInt := by
  have hmin : min a b = if a ≤ b then a else b := rfl
  simp only [hmin, Int.min_def, apply_ite Int64.toInt, Int64.le_iff_toInt_le]

/-- The beginning is an integer that is not negative. -/
theorem startWord?_eq (start : Binary64) (hsize : size.toInt = length) :
    ∃ word, startWord? size start = some word ∧ word.toInt = beginOf length start ∧
      0 ≤ beginOf length start := by
  have hhigh : size.toInt ≤ most := Int.le_of_lt_add_one size.toInt_lt
  have hlow : -most - 1 ≤ whole start := (int64Clamped start.truncate).le_toInt
  have hwhole := toInt_int64Clamped start.truncate
  change whole start = _ at hwhole
  simp only [startWord?, beginOf, beq_iff_eq]
  split
  case isTrue hless =>
    have hnonpos := Binary64.truncate_nonpos hless
    obtain ⟨sum, hsum, hvalue⟩ :=
      exists_int64? (n := size.toInt + whole start) (by omega) (by omega)
    have hadd : add? size (int64Clamped start.truncate) = some sum := hsum
    refine ⟨max sum 0, by rw [hadd]; rfl, ?_, Int.le_max_right _ _⟩
    rw [toInt_max, hvalue, hsize]
    rfl
  case isFalse hother =>
    have hnonneg := Binary64.truncate_nonneg hother
    exact ⟨_, rfl, rfl, by omega⟩

/-- The ends are integers. The sum for a limit that is not negative may be moved into range. -/
theorem endsWord?_eq {limitWord startWord : Int64} {n m : Int} (hsize : size.toInt = length)
    (hlimit : limitWord.toInt = n) (hstart : startWord.toInt = m) (hm : 0 ≤ m) :
    ∃ ends, endsWord? size limitWord startWord = some ends ∧
      ends.1.toInt = (bounds length n m).1 ∧ ends.2.toInt = min (bounds length n m).2 most := by
  have hhigh : size.toInt ≤ most := Int.le_of_lt_add_one size.toInt_lt
  have hmost : startWord.toInt ≤ most := Int.le_of_lt_add_one startWord.toInt_lt
  have hleast : -most - 1 ≤ limitWord.toInt := limitWord.le_toInt
  have hnegative : 0 ≤ limitWord ↔ 0 ≤ n := by rw [Int64.le_iff_toInt_le, hlimit]; rfl
  have hzero : startWord = 0 ↔ m = 0 := by rw [← Int64.toInt_inj, hstart]; rfl
  simp only [endsWord?, bounds, hnegative, hzero]
  split
  · refine ⟨_, rfl, hstart, ?_⟩
    rw [addSaturating, toInt_int64Clamped, hstart, hlimit]
    unfold most
    omega
  · split
    · obtain ⟨sum, hsum, hvalue⟩ :=
        exists_int64? (n := size.toInt + limitWord.toInt) (by omega) (by omega)
      refine ⟨(sum, size), by rw [add?, hsum]; rfl, ?_, ?_⟩
      · exact hvalue.trans (by rw [hsize, hlimit])
      · exact hsize.trans (Int.min_eq_left (hsize ▸ hhigh)).symm
    · obtain ⟨sum, hsum, hvalue⟩ :=
        exists_int64? (n := startWord.toInt + limitWord.toInt) (by omega) (by omega)
      refine ⟨(sum, startWord), by rw [add?, hsum]; rfl, ?_, ?_⟩
      · exact hvalue.trans (by rw [hstart, hlimit])
      · exact hstart.trans (Int.min_eq_left (hstart ▸ hmost)).symm

/-- A place is moved into the input, if the input has a length. -/
theorem clampWord?_eq {word : Int64} (hsize : size.toInt = length) :
    clampWord? size word = some (clamp length word.toInt) := by
  have hnonneg : 0 ≤ size := Int64.le_iff_toInt_le.mpr (hsize ▸ Int.natCast_nonneg length)
  have hzero : (0 : Int64).toInt = 0 := rfl
  rw [clampWord?, if_pos hnonneg, toInt_max, toInt_min, hsize, hzero, clamp]
  exact congrArg some (by omega)

/-- A part that ends before it begins is the empty one at its beginning. -/
theorem drop_take_max {α : Type} (items : List α) (first last : Nat) :
    (items.take (max last first)).drop first = (items.take last).drop first := by
  rcases Nat.le_total last first with hempty | hsome
  · rw [Nat.max_eq_right hempty, between_eq_nil items hempty, between_eq_nil items (Nat.le_refl _)]
  · rw [Nat.max_eq_left hsome]

/-- The same of the items of an array and of the characters of a text. -/
theorem between_max (input : Value) (first last : Nat) :
    input.between first (max last first) = input.between first last := by
  cases input <;> simp only [Value.between, drop_take_max]

/-- The part of a list is cut out without an overflow, and its range lies in the list. -/
theorem partWord?_eq {α : Type} {items : List α} (hsize : (items.length : Int) ≤ most)
    (limit start : Binary64) : partWord? items limit start = some (part items limit start) := by
  obtain ⟨size, hlength, hvalue⟩ :=
    exists_int64? (n := items.length) (by unfold most; omega) hsize
  obtain ⟨limitWord, hlimit, hlimitValue⟩ := limitWord?_eq limit hvalue
  obtain ⟨startWord, hstart, hstartValue, hnonneg⟩ := startWord?_eq start hvalue
  obtain ⟨ends, hends, hfirst, hlast⟩ := endsWord?_eq hvalue hlimitValue hstartValue hnonneg
  have hmost (n : Int) : clamp items.length (min n most) = clamp items.length n := by
    simp only [clamp]
    omega
  simp only [partWord?, hlength, hlimit, hstart, hends, clampWord?_eq hvalue, hfirst, hlast, hmost,
    Option.bind_eq_bind, Option.bind_some, range?]
  rw [if_pos ⟨Nat.le_max_right _ _, Nat.max_le.mpr ⟨Nat.min_le_right _ _, Nat.min_le_right _ _⟩⟩,
    drop_take_max]
  rfl

/-- The filter gives a result in integers of 64 bits, the one that it gives in unbounded integers. -/
theorem applyWord?_eq {arguments : List Value}
    (hsize : ((argument arguments 0).extent : Int) ≤ most) :
    applyWord? arguments = some (apply arguments) := by
  simp only [applyWord?, apply]
  generalize argument arguments 0 = input at *
  by_cases hlimit : (argument arguments 1).toNumber.isNaN = true
  · rw [if_pos hlimit, if_pos hlimit]
  · rw [if_neg hlimit, if_neg hlimit]
    cases input with
    | array items => exact congrArg (Option.map _) (partWord?_eq hsize _ _)
    | string text => exact congrArg (Option.map _) (partWord?_eq hsize _ _)
    | integer n => exact congrArg (Option.map _) (partWord?_eq hsize _ _)
    | float x => exact congrArg (Option.map _) (partWord?_eq hsize _ _)
    | _ => rfl

/-- No part is longer than the limit. -/
theorem foundEnds_sub_le (start : Binary64) (hsize : (length : Int) ≤ most) (hlimit : limit ≠ .nan) :
    (foundEnds length limit start).2 - (foundEnds length limit start).1 ≤
      (exactLimit length limit).natAbs := by
  simp only [foundEnds, limitOf_eq hsize hlimit]
  generalize exactLimit length limit = n
  generalize beginOf length start = m
  simp only [bounds, clamp]
  unfold most
  split_ifs <;> dsimp only <;> omega

/-- The filter gives a result in integers of 64 bits without an overflow and without a range outside its
input, the result that unbounded integers give. Of an array, a text or a number it is a part between two
places that are not further apart than the limit says. -/
theorem apply_stays_in_range {arguments : List Value}
    (hsize : ((argument arguments 0).extent : Int) ≤ most) :
    applyWord? arguments = some (apply arguments) ∧
      ((argument arguments 1).toNumber = .nan → apply arguments = argument arguments 0) ∧
      ((argument arguments 0).IsSliceable → (argument arguments 1).toNumber ≠ .nan →
        ∃ first last, apply arguments = (argument arguments 0).between first last ∧
          first ≤ last ∧ last ≤ (argument arguments 0).extent ∧
          last - first ≤
            (exactLimit (argument arguments 0).extent (argument arguments 1).toNumber).natAbs) := by
  refine ⟨applyWord?_eq hsize, fun hnan => ?_, fun hinput hlimit => ?_⟩
  · simp only [apply, hnan]
    rfl
  · have hlong := foundEnds_sub_le (argument arguments 2).toNumber hsize hlimit
    have hfirst : (foundEnds (argument arguments 0).extent (argument arguments 1).toNumber
      (argument arguments 2).toNumber).1 ≤ (argument arguments 0).extent := Nat.min_le_right _ _
    refine ⟨_, _, (apply_eq_between hinput hlimit).trans (between_max _ _ _).symm,
      Nat.le_max_right _ _, Nat.max_le.mpr ⟨foundEnds_le, hfirst⟩, ?_⟩
    omega

/-- Cutting a text backwards from the largest beginning there is stays in range. -/
theorem apply_stays_in_range_far :
    applyWord? [.string "ab", .integer (-1), .float .infinity] =
        some (apply [.string "ab", .integer (-1), .float .infinity]) ∧
      ∃ first last, apply [.string "ab", .integer (-1), .float .infinity] =
          (Value.string "ab").between first last ∧
        first ≤ last ∧ last ≤ (Value.string "ab").extent ∧
          last - first ≤ (exactLimit 2 (.ofInt (-1))).natAbs := by
  obtain ⟨hresult, -, hpart⟩ :=
    @apply_stays_in_range [.string "ab", .integer (-1), .float .infinity] (by decide)
  exact ⟨hresult, hpart (.inr (.inl ⟨"ab", rfl⟩)) (by decide +kernel)⟩

end TemplateExpr.Slice
