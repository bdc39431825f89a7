import Mathlib.Algebra.Order.Monoid.Unbundled.WithTop
import Mathlib.Data.Int.ConditionallyCompleteOrder
import TemplateExpr.Filter.Slice
import TemplateExpr.Proofs.Number.Truncation

/-!
# Slices in unbounded integers

The part that `limitTo` cuts out is stated here in integers without bounds, the infinite beginning
included. The filter computes with integers of 64 bits and asks for the sign of a beginning before its
fraction is cut off. So it differs in two cases: a beginning between minus one and zero is taken for the
end of the input, and beyond all integers a beginning moves closer to its limit, which a negative limit
can tell.
-/

namespace TemplateExpr

/-- Whether a value is an array, a text or a number. -/
def Value.IsSliceable (input : Value) : Prop :=
  (∃ items, input = .array items) ∨ (∃ text, input = .string text) ∨
    (∃ n, input = .integer n) ∨ ∃ x, input = .float x

/-- How many items an array has; of other values, how many characters their text has. -/
def Value.extent : Value → Nat
  | .array items => items.length
  | input => input.display.toList.length

/-- The items of an array, or else the characters of a text, from a first place up to a last one. -/
def Value.between (first last : Nat) : Value → Value
  | .array items => .array ((items.take last).drop first)
  | input => .string (String.ofList ((input.display.toList.take last).drop first))

namespace Slice

/-- The limit as a whole number. An infinite limit is the length, forwards or backwards. -/
def exactLimit (length : Nat) (limit : Binary64) : Int :=
  limit.whole?.getD (if limit = .infinity then length else -length)

/-- The beginning as a whole number, zero if there is none. A negative one is an offset from the end, as
far as the input goes. -/
def exactStart (length : Nat) (start : Binary64) : WithTop Int :=
  start.whole?.elim (if start = .infinity then ⊤ else 0) fun n =>
    ((if n < 0 then max 0 (length + n) else n : Int) : WithTop Int)

/-- Where the part begins and ends. -/
def exactEnds (length : Nat) (limit : Int) (start : WithTop Int) : WithTop Int × WithTop Int :=
  if 0 ≤ limit then (start, start + limit)
  else if start = 0 then (((length + limit : Int) : WithTop Int), ((length : Int) : WithTop Int))
  else (start + limit, start)

/-- A place moved into an input of the given length. -/
def inside (length : Nat) (place : WithTop Int) : Nat := min (place.untopD (length : Int)).toNat length

/-- The places of an input between which the part is that a limit and a beginning ask for. -/
def askedEnds (length : Nat) (limit start : Binary64) : Nat × Nat :=
  let ends := exactEnds length (exactLimit length limit) (exactStart length start)
  (inside length ends.1, inside length ends.2)

/-- The part of an input that a limit and a beginning ask for. -/
def cut (input : Value) (limit start : Binary64) : Value :=
  let ends := askedEnds input.extent limit start
  input.between ends.1 ends.2

/-- The places of an input between which the part is that the filter cuts out. -/
def foundEnds (length : Nat) (limit start : Binary64) : Nat × Nat :=
  let ends := bounds length (limitOf length limit) (beginOf length start)
  (clamp length ends.1, clamp length ends.2)

/-- The largest integer of 64 bits. -/
def most : Int := 0x7FFFFFFFFFFFFFFF

/-- Whether a limit and a beginning make the filter cut out another part: something is asked for from a
beginning between minus one and zero, or a negative limit reaches into the input from a beginning that
is beyond all integers. -/
def Misses (length : Nat) (limit start : Binary64) : Prop :=
  0 < length ∧
    (start.order .zero = some .lt ∧ start.whole? = some 0 ∧ 0 < exactLimit length limit ∨
      most < exactStart length start ∧ most + exactLimit length limit < length ∧
        0 < exactStart length start + exactLimit length limit)

variable {length : Nat} {limit start : Binary64}

/-- The whole number of a finite double is moved into the range of integers. -/
theorem whole_eq {x : Binary64} {n : Int} (h : x.whole? = some n) :
    whole x = max (-most - 1) (min n most) := by
  rw [whole, toInt_int64Clamped, Binary64.truncate_of_whole? h]
  rfl

/-- What is not a number is taken for zero. -/
theorem whole_nan : whole .nan = 0 := rfl

/-- Infinity is taken for the largest integer. -/
theorem whole_infinity : whole .infinity = most := by
  have hlarge := Binary64.two_pow_le_truncate_infinity
  rw [whole, toInt_int64Clamped, most]
  omega

/-- Negative infinity is taken for the least integer. -/
theorem whole_neg_infinity : whole Binary64.infinity.neg = -most - 1 := by
  have hlarge := Binary64.two_pow_le_truncate_infinity
  have hneg : Binary64.infinity.neg.truncate = -Binary64.infinity.truncate := rfl
  rw [whole, toInt_int64Clamped, hneg, most]
  omega

/-- The filter takes the limit to the nearest integer in range. -/
theorem limitOf_eq (hsize : (length : Int) ≤ most) (hlimit : limit ≠ .nan) :
    limitOf length limit = max (-most - 1) (min (exactLimit length limit) most) := by
  unfold limitOf exactLimit
  rw [Binary64.isFinite_eq]
  cases hwhole : limit.whole? with
  | some n => exact whole_eq hwhole
  | none =>
    unfold most at hsize ⊢
    rcases (Binary64.whole?_eq_none_iff.mp hwhole).resolve_left hlimit with rfl | rfl
    · have horder : Binary64.infinity.order .zero = some .gt := by decide
      simp [horder]
      omega
    · have horder : Binary64.infinity.neg.order .zero = some .lt := by decide
      have hother : Binary64.infinity.neg ≠ .infinity := by decide
      simp [horder, hother]
      omega

/-- The filter takes a beginning between minus one and zero for the end of the input. -/
theorem beginOf_of_small (hless : start.order .zero = some .lt) (hwhole : start.whole? = some 0) :
    beginOf length start = length := by
  have hzero : whole start = 0 := whole_eq hwhole
  simp only [beginOf, hless, hzero, beq_self_eq_true, ↓reduceIte, Int.add_zero]
  exact Int.max_eq_left (Int.natCast_nonneg length)

/-- The filter takes all other beginnings to the nearest integer in range. -/
theorem beginOf_eq (hsize : (length : Int) ≤ most)
    (hother : ¬(start.order .zero = some .lt ∧ start.whole? = some 0)) :
    (exactStart length start = ⊤ ∧ beginOf length start = most) ∨
      ∃ n : Int, exactStart length start = n ∧ 0 ≤ n ∧ beginOf length start = min n most := by
  simp only [beginOf, exactStart, beq_iff_eq]
  cases hwhole : start.whole? with
  | some n =>
    refine .inr ⟨_, rfl, ?_⟩
    rw [whole_eq hwhole]
    unfold most at hsize ⊢
    by_cases hless : start.order .zero = some .lt
    · have hnonpos : n ≤ 0 := Binary64.truncate_of_whole? hwhole ▸ Binary64.truncate_nonpos hless
      have hnegative : n ≠ 0 := fun hzero => hother ⟨hless, hzero ▸ hwhole⟩
      rw [if_pos hless, if_pos (by omega)]
      omega
    · have hnonneg : 0 ≤ n := Binary64.truncate_of_whole? hwhole ▸ Binary64.truncate_nonneg hless
      rw [if_neg hless, if_neg (by omega)]
      omega
  | none =>
    rcases Binary64.whole?_eq_none_iff.mp hwhole with rfl | rfl | rfl
    · exact .inr ⟨0, rfl, Int.le_refl 0, whole_nan⟩
    · refine .inl ⟨by rw [Option.elim_none, if_pos rfl], ?_⟩
      rw [if_neg (by decide), whole_infinity]
    · refine .inr ⟨0, rfl, Int.le_refl 0, ?_⟩
      rw [if_pos (by decide), whole_neg_infinity]
      unfold most at hsize ⊢
      omega

/-- A place in an input is that of an integer. -/
theorem inside_coe (n : Int) : inside length n = clamp length n := rfl

/-- The ends of a part that begins at an integer. -/
theorem exactEnds_coe (n m : Int) :
    exactEnds length n m =
      (((bounds length n m).1 : WithTop Int), ((bounds length n m).2 : WithTop Int)) := by
  simp only [exactEnds, bounds, WithTop.coe_eq_zero]
  split
  · rfl
  · split <;> rfl

/-- A part that begins past everything is empty. -/
theorem inside_exactEnds_top (length : Nat) (n : Int) :
    inside length (exactEnds length n ⊤).2 ≤ inside length (exactEnds length n ⊤).1 := by
  have htop : inside length ⊤ = length := Nat.min_self length
  simp only [exactEnds, WithTop.top_add, WithTop.top_ne_zero, if_false, ite_self, htop, Nat.le_refl]

/-- Where a part begins and ends in the input is decided by the nearest integers in range, unless the
beginning is beyond them and the limit reaches back into the input. -/
theorem clamp_bounds_eq {n m : Int} (hsize : (length : Int) ≤ most) (hm : 0 ≤ m)
    (h : length = 0 ∨ m ≤ most ∨ length ≤ most + n ∨ m + n ≤ 0) :
    clamp length (bounds length (max (-most - 1) (min n most)) (min m most)).1 =
        clamp length (bounds length n m).1 ∧
      clamp length (bounds length (max (-most - 1) (min n most)) (min m most)).2 =
        clamp length (bounds length n m).2 := by
  simp only [bounds, clamp]
  unfold most at *
  split_ifs <;> constructor <;> dsimp only <;> omega

/-- A part begins at the end of an input that is taken for its beginning. -/
theorem exactStart_of_small (hwhole : start.whole? = some 0) : exactStart length start = (0 : Int) := by
  rw [exactStart, hwhole]
  rfl

/-- A negative limit reaches back into the input from beyond all integers. -/
theorem clamp_bounds_most {n : Int} (hsize : (length : Int) ≤ most) :
    clamp length (bounds length (max (-most - 1) (min n most)) most).1 <
        clamp length (bounds length (max (-most - 1) (min n most)) most).2 ↔
      0 < length ∧ most + n < length := by
  simp only [bounds, clamp]
  unfold most at *
  split_ifs <;> dsimp only <;> omega

/-- No part that is cut out ends behind the input. -/
theorem foundEnds_le : (foundEnds length limit start).2 ≤ length := Nat.min_le_right _ _

/-- No part that is asked for ends behind the input. -/
theorem askedEnds_le : (askedEnds length limit start).2 ≤ length := Nat.min_le_right _ _

/-- The part that is cut out has the ends that are asked for, or both parts are empty, unless the filter
misses. -/
theorem ends_of_not_misses (hsize : (length : Int) ≤ most) (hlimit : limit ≠ .nan)
    (h : ¬Misses length limit start) :
    foundEnds length limit start = askedEnds length limit start ∨
      ((foundEnds length limit start).2 ≤ (foundEnds length limit start).1 ∧
        (askedEnds length limit start).2 ≤ (askedEnds length limit start).1) := by
  simp only [foundEnds, askedEnds, Prod.mk.injEq]
  rw [limitOf_eq hsize hlimit]
  unfold Misses at h
  generalize exactLimit length limit = n at *
  by_cases hsmall : start.order .zero = some .lt ∧ start.whole? = some 0
  · obtain ⟨hless, hwhole⟩ := hsmall
    rw [beginOf_of_small hless hwhole, exactStart_of_small hwhole, exactEnds_coe]
    have hnothing : length = 0 ∨ n ≤ 0 := by
      by_contra hsome
      exact h ⟨by omega, .inl ⟨hless, hwhole, by omega⟩⟩
    simp only [inside_coe, bounds, clamp]
    unfold most at *
    split_ifs <;> dsimp only <;> omega
  · rcases beginOf_eq hsize hsmall with ⟨htop, hfound⟩ | ⟨m, hstart, hm, hfound⟩
    · rw [htop, hfound]
      refine .inr ⟨Nat.le_of_not_lt fun hsome => ?_, inside_exactEnds_top length n⟩
      obtain ⟨hpositive, hreach⟩ := (clamp_bounds_most hsize).mp hsome
      rw [htop] at h
      exact h ⟨hpositive, .inr ⟨WithTop.coe_lt_top most, hreach, WithTop.coe_lt_top 0⟩⟩
    · rw [hstart, exactEnds_coe, hfound]
      refine .inl (clamp_bounds_eq hsize hm ?_)
      by_contra hmisses
      rw [hstart] at h
      refine h ⟨by omega, .inr ⟨WithTop.coe_lt_coe.mpr (by omega), by omega, ?_⟩⟩
      exact WithTop.coe_lt_coe.mpr (by omega : 0 < m + n)

/-- Where the filter misses, another number of items is cut out than is asked for. -/
theorem sizes_of_misses (hsize : (length : Int) ≤ most) (hlimit : limit ≠ .nan)
    (h : Misses length limit start) :
    (foundEnds length limit start).2 - (foundEnds length limit start).1 ≠
      (askedEnds length limit start).2 - (askedEnds length limit start).1 := by
  simp only [foundEnds, askedEnds]
  rw [limitOf_eq hsize hlimit]
  unfold Misses at h
  generalize exactLimit length limit = n at *
  obtain ⟨hpositive, ⟨hless, hwhole, hsome⟩ | ⟨hbeyond, hreach, hwithin⟩⟩ := h
  · rw [beginOf_of_small hless hwhole, exactStart_of_small hwhole, exactEnds_coe]
    simp only [inside_coe, bounds, clamp]
    unfold most at *
    split_ifs <;> dsimp only <;> omega
  · have hsmall : ¬(start.order .zero = some .lt ∧ start.whole? = some 0) := by
      rintro ⟨-, hwhole⟩
      rw [exactStart_of_small hwhole] at hbeyond
      exact absurd (WithTop.coe_lt_coe.mp hbeyond) (by decide)
    rcases beginOf_eq hsize hsmall with ⟨htop, hfound⟩ | ⟨m, hstart, hm, hfound⟩
    · have hfull := (clamp_bounds_most (n := n) hsize).mpr ⟨hpositive, hreach⟩
      have hempty := inside_exactEnds_top length n
      rw [htop, hfound]
      omega
    · rw [hstart] at hbeyond hwithin
      have hlarge := WithTop.coe_lt_coe.mp hbeyond
      have hreal : 0 < m + n := WithTop.coe_lt_coe.mp hwithin
      rw [hstart, hfound, exactEnds_coe]
      simp only [inside_coe, bounds, clamp]
      unfold most at *
      split_ifs <;> dsimp only <;> omega

/-- As many items are in a part as there are places between its ends. -/
theorem length_between {α : Type} (items : List α) (first : Nat) {last : Nat}
    (hlast : last ≤ items.length) : ((items.take last).drop first).length = last - first := by
  rw [List.length_drop, List.length_take_of_le hlast]

/-- A part whose end is not after its beginning is empty. -/
theorem between_eq_nil {α : Type} (items : List α) {first last : Nat} (h : last ≤ first) :
    (items.take last).drop first = [] :=
  List.drop_eq_nil_of_le (Nat.le_trans (List.length_take_le last items) h)

/-- The part of a list that the filter cuts out. -/
theorem part_eq {α : Type} (items : List α) (limit start : Binary64) :
    part items limit start = (items.take (foundEnds items.length limit start).2).drop
      (foundEnds items.length limit start).1 :=
  rfl

/-- The part of a list that is cut out is the one that is asked for, unless the filter misses. -/
theorem part_eq_iff {α : Type} {items : List α} (hsize : (items.length : Int) ≤ most)
    (hlimit : limit ≠ .nan) :
    part items limit start = (items.take (askedEnds items.length limit start).2).drop
        (askedEnds items.length limit start).1 ↔ ¬Misses items.length limit start := by
  rw [part_eq]
  constructor
  · intro h hmisses
    have hsizes := congrArg List.length h
    rw [length_between _ _ foundEnds_le, length_between _ _ askedEnds_le] at hsizes
    exact sizes_of_misses hsize hlimit hmisses hsizes
  · intro h
    rcases ends_of_not_misses hsize hlimit h with hsame | ⟨hfound, hasked⟩
    · rw [hsame]
    · rw [between_eq_nil _ hfound, between_eq_nil _ hasked]

/-- The filter cuts a part out of an array, or of the text of anything else. -/
theorem apply_eq_between {arguments : List Value} (hinput : (argument arguments 0).IsSliceable)
    (hlimit : (argument arguments 1).toNumber ≠ .nan) :
    let ends := foundEnds (argument arguments 0).extent (argument arguments 1).toNumber
      (argument arguments 2).toNumber
    apply arguments = (argument arguments 0).between ends.1 ends.2 := by
  have hnumber : (argument arguments 1).toNumber.isNaN = false := by
    simpa [Binary64.isNaN] using hlimit
  simp only [apply, hnumber, Bool.false_eq_true, ↓reduceIte]
  generalize argument arguments 0 = input at *
  rcases hinput with ⟨items, rfl⟩ | ⟨text, rfl⟩ | ⟨n, rfl⟩ | ⟨x, rfl⟩ <;> rfl

/-- The filter cuts out the part that the limit and the beginning ask for exactly if it does not miss. -/
theorem apply_eq_cut_iff {arguments : List Value} (hinput : (argument arguments 0).IsSliceable)
    (hsize : ((argument arguments 0).extent : Int) ≤ most)
    (hlimit : (argument arguments 1).toNumber ≠ .nan) :
    apply arguments = cut (argument arguments 0) (argument arguments 1).toNumber
        (argument arguments 2).toNumber ↔
      ¬Misses (argument arguments 0).extent (argument arguments 1).toNumber
        (argument arguments 2).toNumber := by
  rw [apply_eq_between hinput hlimit]
  generalize argument arguments 0 = input at *
  have htext {chars chars' : List Char} :
      Value.string (String.ofList chars) = .string (String.ofList chars') ↔ chars = chars' := by
    rw [Value.string.injEq, String.ofList_inj]
  rcases hinput with ⟨items, rfl⟩ | ⟨text, rfl⟩ | ⟨n, rfl⟩ | ⟨x, rfl⟩
  · exact Value.array.injEq _ _ ▸ part_eq_iff hsize hlimit
  all_goals exact htext.trans (part_eq_iff hsize hlimit)

/-- Two items before the place after the end: only the last one is there. -/
theorem apply_eq_cut_backwards :
    apply [.array [.integer 7, .integer 8, .integer 9], .integer (-2), .integer 4] =
      cut (.array [.integer 7, .integer 8, .integer 9]) (.ofInt (-2)) (.ofInt 4) := by
  refine (apply_eq_cut_iff (.inl ⟨_, rfl⟩) (by decide) (by decide +kernel)).mpr ?_
  have hwhole : (Binary64.ofInt 4).whole? = some 4 := by decide +kernel
  have hstart : exactStart 3 (.ofInt 4) = (4 : Int) := by
    rw [exactStart, hwhole]
    rfl
  rintro ⟨-, ⟨hless, -, -⟩ | ⟨hbeyond, -, -⟩⟩
  · revert hless
    decide +kernel
  · change (most : WithTop Int) < exactStart 3 (.ofInt 4) at hbeyond
    rw [hstart] at hbeyond
    exact absurd (WithTop.coe_lt_coe.mp hbeyond) (by decide)

/-- A beginning just below zero is taken for the end of the text, so that nothing is left. From `10 ^ 20`
back by `10 ^ 19` there is nothing of the text either, but it is cut out as a whole. -/
theorem apply_misses :
    (apply [.string "ab", .integer 1, .float (.ofBits 0xBFE0000000000000)] = .string "" ∧
      cut (.string "ab") (.ofInt 1) (.ofBits 0xBFE0000000000000) = .string "a") ∧
    (apply [.string "ab", .float (.ofInt (-10000000000000000000)), .float (.ofInt 100000000000000000000)] =
        .string "ab" ∧
      cut (.string "ab") (.ofInt (-10000000000000000000)) (.ofInt 100000000000000000000) =
        .string "") := by
  refine ⟨⟨?_, ?_⟩, ?_, ?_⟩ <;> exact congrArg Value.string (by decide +kernel)

end Slice

end TemplateExpr
