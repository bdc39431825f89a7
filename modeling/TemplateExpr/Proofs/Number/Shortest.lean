import TemplateExpr.Proofs.Number.Nearest

/-!
# Shortest decimals read back

The shortest decimal of a magnitude lies in its neighbourhood. One is found at all because a grid
of seventeen digits is finer than every neighbourhood, and dropping the zeros at the end of its
digits does not move it.
-/

namespace TemplateExpr

/-- The number of units of a decimal, as a quotient. -/
def Scaled.units (d : Scaled) : Nat := d.digits * 10 ^ d.exponent.toNat * Magnitude.unitsPerOne

/-- What the number of units of a decimal is divided by. -/
def Scaled.parts (d : Scaled) : Nat := 10 ^ (-d.exponent).toNat

namespace Magnitude

namespace Neighbourhood

/-- A quotient is contained if it is so after it is extended. -/
theorem contains_mul {around : Neighbourhood} {c num den : Nat} (hc : 0 < c) :
    around.Contains (c * num) (c * den) ↔ around.Contains num den := by
  have hmove a b : a * (c * b) = c * (a * b) := Nat.mul_left_comm a c b
  simp only [Contains, hmove, Nat.mul_le_mul_left_iff hc, ne_eq, Nat.mul_right_inj (Nat.ne_of_gt hc)]

/-- A decimal is contained if it is so with a zero more among its digits. -/
theorem contains_ten_mul {around : Neighbourhood} {digits : Nat} {exponent : Int} :
    around.Contains (Scaled.units ⟨10 * digits, exponent⟩) (Scaled.parts ⟨10 * digits, exponent⟩) ↔
      around.Contains (Scaled.units ⟨digits, exponent + 1⟩)
        (Scaled.parts ⟨digits, exponent + 1⟩) := by
  simp only [Scaled.units, Scaled.parts]
  rcases Int.lt_or_le exponent 0 with hnegative | hpositive
  · have hwhole : exponent.toNat = 0 ∧ (exponent + 1).toNat = 0 := by omega
    have hpower : (-exponent).toNat = (-(exponent + 1)).toNat + 1 := by omega
    rw [hwhole.1, hwhole.2, hpower, Nat.pow_succ, Nat.mul_comm (10 ^ _) 10, Nat.mul_assoc 10,
      Nat.mul_assoc 10]
    exact contains_mul (by decide)
  · have hwhole : (-exponent).toNat = 0 ∧ (-(exponent + 1)).toNat = 0 := by omega
    have hpower : (exponent + 1).toNat = exponent.toNat + 1 := by omega
    rw [hwhole.1, hwhole.2, hpower, Nat.pow_succ, Nat.mul_comm 10 digits,
      Nat.mul_comm (10 ^ _) 10, Nat.mul_assoc digits]

/-- A decimal is contained if it is so with zeros more among its digits. -/
theorem contains_pow_mul {around : Neighbourhood} {digits : Nat} {exponent : Int} (zeros : Nat)
    (h : around.Contains (Scaled.units ⟨digits, exponent⟩) (Scaled.parts ⟨digits, exponent⟩)) :
    around.Contains (Scaled.units ⟨10 ^ zeros * digits, exponent - zeros⟩)
      (Scaled.parts ⟨10 ^ zeros * digits, exponent - zeros⟩) := by
  induction zeros with
  | zero => simpa using h
  | succ zeros ih =>
    have hexponent : exponent - zeros = exponent - (zeros + 1 : Nat) + 1 := by omega
    rw [hexponent] at ih
    rw [Nat.pow_succ, Nat.mul_comm (10 ^ zeros), Nat.mul_assoc]
    exact contains_ten_mul.mpr ih

/-- A decimal stays where it is when zeros are dropped. -/
theorem contains_trimmed {around : Neighbourhood} {count : Nat} {d : Scaled}
    (h : around.Contains d.units d.parts) :
    around.Contains (d.trimmed count).units (d.trimmed count).parts := by
  induction count generalizing d with
  | zero => exact h
  | succ count ih =>
    unfold Scaled.trimmed
    split
    case isTrue hzero =>
      obtain ⟨digits, exponent⟩ := d
      refine ih (contains_ten_mul.mp ?_)
      have hdigits : 10 * (digits / 10) = digits := by
        simp only at hzero
        omega
      rwa [hdigits]
    case isFalse => exact h

end Neighbourhood

/-- A decimal of a grid is taken if it is in the neighbourhood. -/
def Neighbourhood.inside (around : Neighbourhood) (exponent : Int) (digits : Nat) : Bool :=
  let scale := Nat.pow 10 (-exponent).toNat
  let den := 2 * unitsPerOne * Nat.pow 10 exponent.toNat
  if around.closed then around.low * scale ≤ digits * den && digits * den ≤ around.high * scale
  else around.low * scale < digits * den && digits * den < around.high * scale

/-- Being inside a neighbourhood is being contained in it as an exact number. -/
theorem Neighbourhood.inside_iff {around : Neighbourhood} {exponent : Int} {digits : Nat} :
    around.inside exponent digits = true ↔
      around.Contains (Scaled.units ⟨digits, exponent⟩) (Scaled.parts ⟨digits, exponent⟩) := by
  have hunits : digits * (2 * unitsPerOne * 10 ^ exponent.toNat) =
      2 * Scaled.units ⟨digits, exponent⟩ := by
    simp only [Scaled.units]
    grind
  simp only [inside, Contains, Scaled.parts, Nat.pow_eq, hunits]
  cases around.closed with
  | true => simp
  | false =>
    simp
    omega

/-- The candidates of a grid are tried in turn. -/
theorem onGrid?_eq (tie : Tie) (around : Neighbourhood) (exponent : Int) :
    onGrid? tie around exponent =
      (let scale := Nat.pow 10 (-exponent).toNat
      let den := 2 * unitsPerOne * Nat.pow 10 exponent.toNat
      let below := around.size * scale / den
      let nearest := divideNearest tie (around.size * scale) den
      if around.inside exponent nearest then some ⟨nearest, exponent⟩
      else if around.inside exponent below then some ⟨below, exponent⟩
      else if around.inside exponent (below + 1) then some ⟨below + 1, exponent⟩
      else none) :=
  rfl

/-- What is found on a grid is in the neighbourhood. -/
theorem contains_of_onGrid? {tie : Tie} {around : Neighbourhood} {exponent : Int} {d : Scaled}
    (h : onGrid? tie around exponent = some d) : around.Contains d.units d.parts := by
  have hinside : around.inside d.exponent d.digits = true := by
    rw [onGrid?_eq] at h
    generalize unitsPerOne = one at h
    simp only at h
    split at h
    · cases h
      assumption
    split at h
    · cases h
      assumption
    split at h
    · cases h
      assumption
    contradiction
  exact Neighbourhood.inside_iff.mp hinside

/-- The search ends on the last grid at the latest if there is a decimal on it. -/
theorem contains_firstOnGrid {tie : Tie} {around : Neighbourhood} {leading : Int} {count more : Nat}
    {d : Scaled} (h : onGrid? tie around (leading + 1 - (count + more : Nat)) = some d) :
    around.Contains (firstOnGrid tie around leading count more).units
      (firstOnGrid tie around leading count more).parts := by
  induction more generalizing count with
  | zero =>
    have hfound : firstOnGrid tie around leading count 0 = d := by
      rw [Nat.add_zero] at h
      rw [firstOnGrid, h, Option.getD_some]
    rw [hfound]
    exact contains_of_onGrid? h
  | succ more ih =>
    unfold firstOnGrid
    split
    case h_1 decimal hfound => exact contains_of_onGrid? hfound
    case h_2 hnone =>
      have hcount : count + 1 + more = count + (more + 1) := by omega
      exact ih (hcount ▸ h)

/-- Three binary places are less than a decimal one. -/
theorem two_pow_le_ten_pow {a b : Nat} (h : a ≤ 3 * b) : 2 ^ a ≤ 10 ^ b := calc
  2 ^ a ≤ 2 ^ (3 * b) := Nat.pow_le_pow_right (by decide) h
  _ = (2 ^ 3) ^ b := Nat.pow_mul 2 3 b
  _ ≤ 10 ^ b := Nat.pow_le_pow_left (by decide) b

/-- There are `2 ^ 1074` units in one. -/
theorem unitsPerOne_eq : ∃ places, places = 1074 ∧ unitsPerOne = 2 ^ places := by
  unfold unitsPerOne
  generalize hplaces : 1074 = places
  exact ⟨places, rfl, rfl⟩

/-- There are units in one. -/
theorem unitsPerOne_pos : 0 < unitsPerOne := by
  obtain ⟨places, -, hone⟩ := unitsPerOne_eq
  rw [hone]
  exact Nat.two_pow_pos places

/-- There are not too many units in one. -/
theorem unitsPerOne_le {places : Nat} (h : 1074 ≤ 3 * places) : unitsPerOne ≤ 10 ^ places := by
  obtain ⟨binaryPlaces, hplaces, hone⟩ := unitsPerOne_eq
  rw [hone]
  exact two_pow_le_ten_pow (hplaces ▸ h)

/-- The search below one counts the places up to the first digit. -/
theorem exponentBelowOne_spec {limit num den : Nat} (h : den ≤ 10 ^ limit * num) :
    ∃ places : Nat, exponentBelowOne limit num den = -(places : Int) ∧ den ≤ 10 ^ places * num := by
  induction limit generalizing num with
  | zero => exact ⟨0, rfl, h⟩
  | succ limit ih =>
    unfold exponentBelowOne
    split
    case isTrue hless => exact ⟨0, rfl, by rwa [Nat.pow_zero, Nat.one_mul]⟩
    case isFalse =>
      obtain ⟨places, hplaces, hspec⟩ := 
        ih (by rwa [← Nat.mul_assoc, ← Nat.pow_succ] : den ≤ 10 ^ limit * (10 * num))
      refine ⟨places + 1, by omega, ?_⟩
      rwa [Nat.pow_succ, Nat.mul_assoc]

/-- A magnitude is at least as large as the place of its first digit. -/
theorem leadingExponent_le {m : Magnitude} (hpositive : 0 < m.units) :
    10 ^ m.leadingExponent.toNat * unitsPerOne ≤ m.units * 10 ^ (-m.leadingExponent).toNat := by
  by_cases hwhole : m.units / unitsPerOne = 0
  · have hlimit {limit : Nat} (h : 1074 ≤ 3 * limit) : unitsPerOne ≤ 10 ^ limit * m.units :=
      Nat.le_trans (unitsPerOne_le h) (Nat.le_mul_of_pos_right _ hpositive)
    have hsearch {limit : Nat} (h : 1074 ≤ 3 * limit) := exponentBelowOne_spec (hlimit h)
    obtain ⟨places, hplaces, hspec⟩ := hsearch (by decide : 1074 ≤ 3 * 400)
    have hleading : m.leadingExponent = -(places : Int) := by
      rw [leadingExponent, if_pos hwhole, hplaces]
    rw [hleading, Int.neg_neg, Int.toNat_natCast, Int.toNat_neg_natCast, Nat.pow_zero, Nat.one_mul,
      Nat.mul_comm]
    exact hspec
  · obtain ⟨more, hmore⟩ : ∃ more, (Nat.toDigits 10 (m.units / unitsPerOne)).length = more + 1 :=
      Nat.exists_eq_add_one_of_ne_zero (by simp)
    have hleading : m.leadingExponent = (more : Int) := by
      rw [leadingExponent, if_neg hwhole, hmore]
      omega
    have hdigits : 10 ^ more ≤ m.units / unitsPerOne := by
      rcases Nat.eq_zero_or_pos more with rfl | hpos
      · exact Nat.pos_of_ne_zero hwhole
      · apply Nat.le_of_not_lt
        intro hless
        have := (Nat.length_toDigits_le_iff (by decide) hpos).mpr hless
        omega
    rw [hleading, Int.toNat_natCast, Int.toNat_neg_natCast, Nat.pow_zero, Nat.mul_one]
    exact (Nat.le_div_iff_mul_le unitsPerOne_pos).mp hdigits

/-- A magnitude is at most `2 ^ 53` times as large as its distance from the one before it. -/
theorem unitsAt_succ_le (n : Nat) : unitsAt (n + 1) ≤ 2 ^ 53 * 2 ^ exponentAt n := by
  have hbits := significandAt_lt n
  have hbinade : 2 * binade = 2 ^ 53 := by decide
  rw [unitsAt_succ]
  exact Nat.mul_le_mul_right _ (by omega)

/-- The distances between magnitudes grow. -/
theorem exponentAt_le_succ (n : Nat) : exponentAt n ≤ exponentAt (n + 1) := by
  simp only [exponentAt, binade]
  omega

/-- A place that lies sixteen places after the first digit of a magnitude is smaller than the
distance of the magnitude from the one before it. -/
theorem unitsPerOne_mul_lt {m : Magnitude} {n : Nat} (hn : m.val = n + 1) {exponent : Int}
    (hexponent : exponent = m.leadingExponent - 16) :
    unitsPerOne * 10 ^ exponent.toNat < 2 ^ exponentAt n * 10 ^ (-exponent).toNat := by
  have hpositive : 0 < m.units := by
    rw [units, hn]
    exact Nat.lt_of_le_of_lt (Nat.zero_le _) (unitsAt_lt_succ n)
  have hleading := leadingExponent_le hpositive
  have hpowers : 10 ^ 16 * 10 ^ exponent.toNat * 10 ^ (-m.leadingExponent).toNat =
      10 ^ m.leadingExponent.toNat * 10 ^ (-exponent).toNat := by
    rw [← Nat.pow_add, ← Nat.pow_add, ← Nat.pow_add]
    congr 1
    omega
  have hplace : 10 ^ 16 * (unitsPerOne * 10 ^ exponent.toNat) ≤
      m.units * 10 ^ (-exponent).toNat := by
    refine Nat.le_of_mul_le_mul_right ?_
      (Nat.pow_pos (by decide) : 0 < 10 ^ (-m.leadingExponent).toNat)
    calc 10 ^ 16 * (unitsPerOne * 10 ^ exponent.toNat) * 10 ^ (-m.leadingExponent).toNat
        = 10 ^ 16 * 10 ^ exponent.toNat * 10 ^ (-m.leadingExponent).toNat * unitsPerOne := by
          generalize unitsPerOne = one
          ac_rfl
      _ = 10 ^ m.leadingExponent.toNat * unitsPerOne * 10 ^ (-exponent).toNat := by
          rw [hpowers, Nat.mul_right_comm]
      _ ≤ m.units * 10 ^ (-m.leadingExponent).toNat * 10 ^ (-exponent).toNat :=
          Nat.mul_le_mul_right _ hleading
      _ = m.units * 10 ^ (-exponent).toNat * 10 ^ (-m.leadingExponent).toNat :=
          Nat.mul_right_comm _ _ _
  have hgap : m.units * 10 ^ (-exponent).toNat ≤
      2 ^ 53 * (2 ^ exponentAt n * 10 ^ (-exponent).toNat) := by
    rw [units, hn, ← Nat.mul_assoc]
    exact Nat.mul_le_mul_right _ (unitsAt_succ_le n)
  have hscale : 0 < 2 ^ exponentAt n * 10 ^ (-exponent).toNat :=
    Nat.mul_pos (Nat.two_pow_pos _) (Nat.pow_pos (by decide))
  generalize unitsPerOne * 10 ^ exponent.toNat = place at *
  generalize 2 ^ exponentAt n * 10 ^ (-exponent).toNat = gap at *
  omega

/-- The multiple of a place that is nearest to a magnitude is in its neighbourhood if the place lies
sixteen places after the first digit. -/
theorem contains_nearest {tie : Tie} {m : Magnitude} (hpositive : m ≠ zero) {exponent : Int}
    (hexponent : exponent = m.leadingExponent - 16) {digits : Nat}
    (hdigits : digits = divideNearest tie (m.neighbourhood.size * 10 ^ (-exponent).toNat)
      (2 * unitsPerOne * 10 ^ exponent.toNat)) :
    m.neighbourhood.Contains (Scaled.units ⟨digits, exponent⟩)
      (Scaled.parts ⟨digits, exponent⟩) := by
  obtain ⟨n, hn⟩ : ∃ n, m.val = n + 1 :=
    Nat.exists_eq_add_one_of_ne_zero fun hzero => hpositive (Fin.ext hzero)
  have hsmall := unitsPerOne_mul_lt hn hexponent
  have hwider := Nat.mul_le_mul_right (10 ^ (-exponent).toNat)
    (Nat.pow_le_pow_right (by decide : 0 < 2) (exponentAt_le_succ n))
  have hnear := divideNearest_near tie (m.neighbourhood.size * 10 ^ (-exponent).toNat)
    (Nat.mul_pos (Nat.mul_pos (by decide) unitsPerOne_pos) (Nat.pow_pos (by decide)) :
      0 < 2 * unitsPerOne * 10 ^ exponent.toNat)
  rw [← hdigits] at hnear
  have hhere : m.units = unitsAt n + 2 ^ exponentAt n := by
    rw [units, hn, unitsAt_succ, unitsAt_eq, Nat.add_mul, Nat.one_mul]
  have hnext : unitsAt (n + 1 + 1) = m.units + 2 ^ exponentAt (n + 1) := by
    rw [units, hn, unitsAt_succ, unitsAt_eq, Nat.add_mul, Nat.one_mul]
  simp only [neighbourhood, Neighbourhood.Contains, Scaled.units, Scaled.parts, hn,
    Nat.add_sub_cancel, hnext] at hnear ⊢
  generalize unitsPerOne = one at *
  generalize 10 ^ exponent.toNat = place at *
  generalize 10 ^ (-exponent).toNat = scale at *
  generalize 2 ^ exponentAt n = below at *
  generalize 2 ^ exponentAt (n + 1) = above at *
  have hlow : (unitsAt n + m.units) * scale + below * scale = 2 * (m.units * scale) := by
    rw [hhere]
    grind
  have hhigh : (m.units + (m.units + above)) * scale = 2 * (m.units * scale) + above * scale := by
    grind
  have hmiddle : 2 * (digits * place * one) = digits * (2 * one * place) := by grind
  have hhalf : 2 * m.units * scale = 2 * (m.units * scale) := Nat.mul_assoc _ _ _
  have hplaces : (2 * digits + 1) * (2 * one * place) =
      2 * (digits * (2 * one * place)) + 2 * (one * place) := by
    grind
  have hplaces' : 2 * digits * (2 * one * place) = 2 * (digits * (2 * one * place)) :=
    Nat.mul_assoc _ _ _
  have hplace : 2 * one * place = 2 * (one * place) := Nat.mul_assoc _ _ _
  rw [hhalf, hplaces, hplaces', hplace] at hnear
  rw [hhigh, hmiddle, hplace]
  refine ⟨by omega, by omega, fun _ => ⟨by omega, by omega⟩⟩

/-- A decimal is found on the grid of seventeen digits. -/
theorem exists_onGrid? (tie : Tie) {m : Magnitude} (hpositive : m ≠ zero) {exponent : Int}
    (hexponent : exponent = m.leadingExponent - 16) :
    ∃ d, onGrid? tie m.neighbourhood exponent = some d := by
  have hinside := Neighbourhood.inside_iff.mpr
    (contains_nearest hpositive hexponent (rfl : _ = divideNearest tie _ _))
  simp only [onGrid?_eq, Nat.pow_eq]
  exact ⟨_, if_pos hinside⟩

/-- The shortest decimal of a magnitude is in its neighbourhood. -/
theorem contains_shortest (tie : Tie) {m : Magnitude} (hpositive : m ≠ zero) :
    m.neighbourhood.Contains (m.shortest tie).units (m.shortest tie).parts := by
  have hexponent : m.leadingExponent + 1 - (1 + 16 : Nat) = m.leadingExponent - 16 := by omega
  obtain ⟨d, hfound⟩ := exists_onGrid? tie hpositive hexponent
  exact Neighbourhood.contains_trimmed (contains_firstOnGrid hfound)

/-- There are powers of two around all magnitudes. -/
theorem high_neighbourhood_le (m : Magnitude) :
    ∃ places, places ≤ 2100 ∧ m.neighbourhood.high ≤ 2 ^ places := by
  refine ⟨1 + (53 + exponentAt m.val), ?_, ?_⟩
  · have := m.isLt
    simp only [exponentAt, binade]
    omega
  · have hnext := unitsAt_succ_le m.val
    have hhere := unitsAt_lt_succ m.val
    rw [← Nat.pow_add] at hnext
    rw [Nat.pow_add 2 1, Nat.pow_one]
    simp only [neighbourhood, units]
    omega

end Magnitude

namespace Binary64

open Magnitude Neighbourhood

/-- A neighbourhood lies above zero. -/
theorem low_neighbourhood_pos {m : Magnitude} (hpositive : m ≠ .zero) :
    0 < m.neighbourhood.low := by
  obtain ⟨n, hn⟩ : ∃ n, m.val = n + 1 :=
    Nat.exists_eq_add_one_of_ne_zero fun hzero => hpositive (Fin.ext hzero)
  have hunits : 0 < m.units := by
    rw [Magnitude.units, hn]
    exact Nat.lt_of_le_of_lt (Nat.zero_le _) (unitsAt_lt_succ n)
  exact Nat.add_pos_right _ hunits

/-- A decimal in the neighbourhood of a magnitude has digits. -/
theorem digits_pos_of_contains {m : Magnitude} (hpositive : m ≠ .zero) {d : Scaled}
    (h : m.neighbourhood.Contains d.units d.parts) : 0 < d.digits := by
  apply Nat.pos_of_ne_zero
  intro hzero
  have hlow : 0 < m.neighbourhood.low * d.parts :=
    Nat.mul_pos (low_neighbourhood_pos hpositive) (Nat.pow_pos (by decide))
  have hless := h.1
  simp only [Scaled.units, hzero, Nat.zero_mul] at hless
  omega

/-- A decimal in the neighbourhood of a magnitude is not too large. -/
theorem exponent_le_of_contains {m : Magnitude} (hpositive : m ≠ .zero) {d : Scaled}
    (h : m.neighbourhood.Contains d.units d.parts) : d.exponent ≤ 400 := by
  apply Int.not_lt.mp
  intro hlarge
  obtain ⟨places, hplaces, hone⟩ := unitsPerOne_eq
  obtain ⟨most, hmost, hhigh⟩ := high_neighbourhood_le m
  have hdigits := digits_pos_of_contains hpositive h
  have hparts : d.parts = 1 := by
    have hnone : (-d.exponent).toNat = 0 := by omega
    rw [Scaled.parts, hnone, Nat.pow_zero]
  have hless := h.2.1
  have hpower : 2 ^ (3 * d.exponent.toNat + places) ≤ d.units := by
    have htens := two_pow_le_ten_pow (Nat.le_refl (3 * d.exponent.toNat))
    rw [Scaled.units, hone, Nat.pow_add]
    refine Nat.mul_le_mul_right _ (Nat.le_trans htens ?_)
    exact Nat.le_mul_of_pos_left _ hdigits
  rw [hparts, Nat.mul_one] at hless
  have hbound : 2 ^ (3 * d.exponent.toNat + places) ≤ 2 ^ most := by omega
  have := (Nat.pow_le_pow_iff_right (by decide : 1 < 2)).mp hbound
  omega

/-- A decimal in the neighbourhood of a magnitude is not too small. -/
theorem le_exponent_of_contains {m : Magnitude} (hpositive : m ≠ .zero) {d : Scaled}
    (h : m.neighbourhood.Contains d.units d.parts) : -400 ≤ d.exponent + d.digits.log2 := by
  apply Int.not_lt.mp
  intro hsmall
  obtain ⟨places, hplaces, hone⟩ := unitsPerOne_eq
  have hdigits : d.digits ≤ 2 ^ (d.digits.log2 + 1) := Nat.le_of_lt Nat.lt_log2_self
  have hunits : d.units ≤ 2 ^ (d.digits.log2 + 1) * 2 ^ places := by
    have hwhole : d.exponent.toNat = 0 := by omega
    rw [Scaled.units, hone, hwhole, Nat.pow_zero, Nat.mul_one]
    exact Nat.mul_le_mul_right _ hdigits
  have hparts : 2 ^ (3 * (-d.exponent).toNat) ≤ m.neighbourhood.low * d.parts :=
    Nat.le_trans (two_pow_le_ten_pow (Nat.le_refl _))
      (Nat.le_mul_of_pos_left _ (low_neighbourhood_pos hpositive))
  have hless := h.1
  have hbound : 2 ^ (3 * (-d.exponent).toNat) ≤ 2 ^ (1 + (d.digits.log2 + 1 + places)) := by
    rw [Nat.pow_add 2 1, Nat.pow_one, Nat.pow_add 2 (d.digits.log2 + 1)]
    omega
  have := (Nat.pow_le_pow_iff_right (by decide : 1 < 2)).mp hbound
  omega

/-- A decimal in the neighbourhood of a magnitude is read as the magnitude. -/
theorem ofDecimal_of_contains {m : Magnitude} (hpositive : m ≠ .zero) {d : Scaled}
    (h : m.neighbourhood.Contains d.units d.parts) :
    ofDecimal false d.digits d.exponent = .signed false m := by
  have hdigits := digits_pos_of_contains hpositive h
  have hsmall := le_exponent_of_contains hpositive h
  have hlarge := exponent_le_of_contains hpositive h
  have hnearest : nearest d.units d.parts = m :=
    nearest_of_contains hpositive (Nat.pow_pos (by decide)) h
  unfold ofDecimal
  rw [if_neg (by simp; omega), if_neg (by omega), ofUnits]
  exact congrArg _ hnearest

end Binary64

end TemplateExpr
