import TemplateExpr.Filter.Grouping
import TemplateExpr.Proofs.Number.WholeDecimals

/-!
# Grouped integers

A row of digits is grouped by commas from the right: all groups have three digits but the first one,
which may have fewer. There is only one such text for a row, so that the places of its commas and the
digits between them say everything about it.

The filter `number` groups the digits of the double nearest to an integer. So it writes an integer
exactly if this has at most 53 bits before its final zeros, and otherwise it writes the whole number
that the double is.
-/

namespace TemplateExpr.Grouping

/-- A text has the given digits in groups of three with commas between them; only the first group may
have fewer. -/
def IsGrouped (digits text : List Char) : Prop :=
  ∃ first groups, text = [','].intercalate (first :: groups) ∧ (first :: groups).flatten = digits ∧
    first ≠ [] ∧ first.length ≤ 3 ∧ ∀ group ∈ groups, group.length = 3

/-- Groups of three have a multiple of three digits. -/
theorem length_flatten_groups {groups : List (List Char)} (h : ∀ group ∈ groups, group.length = 3) :
    groups.flatten.length = 3 * groups.length := by
  induction groups with
  | nil => rfl
  | cons group groups ih =>
    rw [List.flatten_cons, List.length_append, List.length_cons, h group List.mem_cons_self,
      ih fun other hother => h other (List.mem_cons_of_mem _ hother)]
    omega

/-- Digits are grouped from the right. -/
theorem isGrouped_groupThousands {digits : List Char} (h : digits ≠ []) :
    IsGrouped digits (groupThousands digits) := by
  induction digits with
  | nil => contradiction
  | cons c rest ih =>
    cases rest with
    | nil => exact ⟨[c], [], rfl, rfl, List.cons_ne_nil _ _, by simp, by simp⟩
    | cons d rest =>
      obtain ⟨first, groups, htext, hdigits, hfirst, hlength, hgroups⟩ := ih (List.cons_ne_nil _ _)
      have hsizes := congrArg List.length hdigits
      rw [List.flatten_cons, List.length_append, length_flatten_groups hgroups, List.length_cons]
        at hsizes
      have hpositive := List.length_pos_iff.mpr hfirst
      rw [groupThousands, htext]
      split
      case isTrue hfull =>
        -- The first group is full, so that the next digit begins a group of its own.
        refine ⟨[c], first :: groups, ?_, congrArg (c :: ·) hdigits, List.cons_ne_nil _ _, by simp, ?_⟩
        · rw [List.intercalate_cons_cons]
          rfl
        · rintro group (_ | ⟨_, hgroup⟩)
          · omega
          · exact hgroups group hgroup
      case isFalse hroom =>
        refine ⟨c :: first, groups, ?_, congrArg (c :: ·) hdigits, List.cons_ne_nil _ _, ?_, hgroups⟩
        · cases groups <;> simp [List.intercalate_cons_cons]
        · rw [List.length_cons]
          omega

/-- The first digit stays at the front. -/
theorem head?_groupThousands (digits : List Char) : (groupThousands digits).head? = digits.head? := by
  fun_cases groupThousands digits <;> rfl

/-- The last digit stays at the end. -/
theorem getLast?_groupThousands (digits : List Char) :
    (groupThousands digits).getLast? = digits.getLast? := by
  fun_induction groupThousands digits with
  | case1 => rfl
  | case2 c => rfl
  | case3 c d rest hfull ih =>
    rw [List.getLast?_cons, List.getLast?_cons, ih, List.getLast?_cons_cons, List.getLast?_cons]
    rfl
  | case4 c d rest hroom ih =>
    rw [List.getLast?_cons, ih, List.getLast?_cons_cons, List.getLast?_cons]
    rfl

/-- Without its commas a grouped text is the digits. -/
theorem IsGrouped.filter_ne_comma {digits text : List Char} (h : IsGrouped digits text)
    (hdigits : ',' ∉ digits) : text.filter (· ≠ ',') = digits := by
  obtain ⟨first, groups, rfl, rfl, -⟩ := h
  have hself {group : List Char} (hgroup : ',' ∉ group) : group.filter (· ≠ ',') = group :=
    List.filter_eq_self.mpr fun c hc => decide_eq_true fun hcomma => hgroup (hcomma ▸ hc)
  induction groups generalizing first with
  | nil =>
    rw [List.flatten_singleton] at hdigits
    rw [List.intercalate_singleton, List.flatten_singleton, hself hdigits]
  | cons second groups ih =>
    rw [List.flatten_cons, List.mem_append, not_or] at hdigits
    rw [List.intercalate_cons_cons, List.filter_append, List.filter_append, hself hdigits.1,
      ih second hdigits.2]
    exact congrArg (· ++ (second :: groups).flatten) (List.append_nil first)

/-- Between its commas a grouped text has the groups. -/
theorem IsGrouped.splitOn_comma {digits text : List Char} (h : IsGrouped digits text)
    (hdigits : ',' ∉ digits) :
    ∃ first groups, text.splitOn ',' = first :: groups ∧ (first :: groups).flatten = digits ∧
      first ≠ [] ∧ first.length ≤ 3 ∧ ∀ group ∈ groups, group.length = 3 := by
  obtain ⟨first, groups, rfl, rfl, hsizes⟩ := h
  have hcommas : ∀ group ∈ first :: groups, ',' ∉ group := fun group hgroup hcomma =>
    hdigits (List.mem_flatten_of_mem hgroup hcomma)
  exact ⟨first, groups, List.splitOn_intercalate ',' hcommas (List.cons_ne_nil _ _), rfl, hsizes⟩

/-- A text groups what it has between its commas, if this has the sizes of groups. -/
theorem isGrouped_of_splitOn_comma {text first : List Char} {groups : List (List Char)}
    (h : text.splitOn ',' = first :: groups) (hfirst : first ≠ []) (hlength : first.length ≤ 3)
    (hgroups : ∀ group ∈ groups, group.length = 3) : IsGrouped (first :: groups).flatten text := by
  refine ⟨first, groups, ?_, rfl, hfirst, hlength, hgroups⟩
  rw [← h, List.intercalate_splitOn]

/-- Digits can be grouped in one way only: their number says how long the first group is. -/
theorem IsGrouped.unique {digits text other : List Char} (h : IsGrouped digits text)
    (hother : IsGrouped digits other) : text = other := by
  obtain ⟨first, groups, rfl, rfl, hfirst, hlength, hgroups⟩ := h
  obtain ⟨lead, others, rfl, hdigits, hlead, hroom, hothers⟩ := hother
  have hsizes := congrArg List.length hdigits
  rw [List.flatten_cons, List.flatten_cons, List.length_append, List.length_append,
    length_flatten_groups hgroups, length_flatten_groups hothers] at hsizes
  have hpositive := List.length_pos_iff.mpr hfirst
  have hleading := List.length_pos_iff.mpr hlead
  have hsame : first.length = lead.length := by omega
  have hcount : groups.length = others.length := by omega
  have hlengths : (first :: groups).map List.length = (lead :: others).map List.length := by
    rw [List.map_cons, List.map_cons, List.map_eq_replicate_iff.mpr hgroups,
      List.map_eq_replicate_iff.mpr hothers, hsame, hcount]
  rw [List.eq_iff_flatten_eq.mpr ⟨hdigits.symm, hlengths⟩]

/-- Digits have no commas among them. -/
theorem comma_notMem {digits : List Char} (h : ∀ c ∈ digits, c.isDigit) : ',' ∉ digits := by
  intro hcomma
  have hdigit := h ',' hcomma
  contradiction

/-- A text is the grouped text of some digits exactly if it is these digits without its commas, has no
comma at either end, and has three digits in every part between the commas but the first one, which has
one to three. -/
theorem eq_groupThousands_iff {digits : List Char} (hne : digits ≠ [])
    (hdigits : ∀ c ∈ digits, c.isDigit) (text : List Char) :
    text = groupThousands digits ↔
      text.filter (· ≠ ',') = digits ∧ text.head? ≠ some ',' ∧ text.getLast? ≠ some ',' ∧
        ∃ first groups, text.splitOn ',' = first :: groups ∧
          (∀ group ∈ first :: groups, ∀ c ∈ group, c.isDigit) ∧
          1 ≤ first.length ∧ first.length ≤ 3 ∧ ∀ group ∈ groups, group.length = 3 := by
  have hcomma := comma_notMem hdigits
  constructor
  · rintro rfl
    have hgrouped := isGrouped_groupThousands hne
    obtain ⟨first, groups, hsplit, hflat, hfirst, hlength, hgroups⟩ := hgrouped.splitOn_comma hcomma
    refine ⟨hgrouped.filter_ne_comma hcomma, ?_, ?_, first, groups, hsplit, ?_,
      List.length_pos_iff.mpr hfirst, hlength, hgroups⟩
    · rw [head?_groupThousands]
      exact fun hhead => hcomma (List.mem_of_head? hhead)
    · rw [getLast?_groupThousands]
      exact fun hlast => hcomma (List.mem_of_getLast? hlast)
    · rw [← List.forall_mem_flatten, hflat]
      exact hdigits
  · -- The text groups its own digits, which are the given ones, and that can be done in one way.
    rintro ⟨hfilter, -, -, first, groups, hsplit, hall, hpositive, hlength, hgroups⟩
    have hgrouped := isGrouped_of_splitOn_comma hsplit (List.length_pos_iff.mp hpositive) hlength hgroups
    have hsame : (first :: groups).flatten = digits := by
      rw [← hgrouped.filter_ne_comma (comma_notMem (List.forall_mem_flatten.mpr hall)), hfilter]
    rw [hsame] at hgrouped
    exact hgrouped.unique (isGrouped_groupThousands hne)

/-- Seven digits have two commas. -/
theorem eq_groupThousands_seven_digits :
    "1234567".toList ≠ [] ∧ (∀ c ∈ "1234567".toList, c.isDigit) ∧
      "1,234,567".toList = groupThousands "1234567".toList := by
  have hne : "1234567".toList ≠ [] := List.cons_ne_nil _ _
  -- `List.all` looks at the digits only, where a decision of `∀ c` may go through all characters.
  have hdigits : ∀ c ∈ "1234567".toList, c.isDigit := List.all_eq_true.mp (by decide)
  have hsplit : "1,234,567".toList.splitOn ',' = ["1".toList, "234".toList, "567".toList] := by decide
  have hall : ∀ group ∈ ["1".toList, "234".toList, "567".toList], group.all Char.isDigit := by decide
  refine ⟨hne, hdigits, (eq_groupThousands_iff hne hdigits _).mpr ⟨by decide, by decide, by decide, ?_⟩⟩
  exact ⟨_, _, hsplit, fun group hgroup => List.all_eq_true.mp (hall group hgroup), by decide, by decide,
    by decide⟩

/-- The decimal of a whole number has no point. -/
theorem decimalText_whole (negative : Bool) (k : Nat) :
    decimalText ⟨negative, k, 0⟩ none = String.ofList
      ((if negative && k != 0 then ['-'] else []) ++ groupThousands (Nat.toDigits 10 k)) := by
  have hlength : 0 < (Nat.toDigits 10 k).length := List.length_pos_iff.mpr Nat.toDigits_ne_nil
  have hpadding : 0 + 1 - (Nat.toDigits 10 k).length = 0 := by omega
  simp [decimalText, Decimal.roundTo, Decimal.normalize, Decimal.dropZeros, Decimal.digits, hpadding]

/-- The digits of a number have no commas among them. -/
theorem comma_notMem_toDigits (k : Nat) : ',' ∉ Nat.toDigits 10 k :=
  comma_notMem fun _ hc => Nat.isDigit_of_mem_toDigits (by decide) (by decide) hc

/-- The text of an integer is its digits, after a minus sign if it is negative. -/
theorem toList_toString (n : Int) :
    (toString n).toList = (if n < 0 then ['-'] else []) ++ Nat.toDigits 10 n.natAbs := by
  rw [Int.toString_eq_repr, Int.repr_eq_if]
  split
  case isTrue hnonneg =>
    have hsize : n.toNat = n.natAbs := by omega
    rw [if_neg (by omega), hsize, Nat.repr_eq_ofList_toDigits, String.toList_ofList, List.nil_append]
  case isFalse hnegative =>
    have hsize : (-n).toNat = n.natAbs := by omega
    rw [if_pos (by omega), hsize, Nat.repr_eq_ofList_toDigits, String.toList_append]
    exact congrArg (['-'] ++ ·) String.toList_ofList

/-- The text of a whole double is its digits in groups, after a minus sign if it is negative. -/
theorem numberText_of_units (negative : Bool) {m : Magnitude} {k : Nat} (hk : k ≤ 2 ^ 94)
    (h : m.units = k * Magnitude.unitsPerOne) :
    numberText (.signed negative m) none = String.ofList
      ((if negative && k != 0 then ['-'] else []) ++ groupThousands (Nat.toDigits 10 k)) := by
  rw [numberText, if_neg (Magnitude.ne_infinity_of_units_le hk h), Decimal.ofBinary64?_of_units negative hk h]
  exact decimalText_whole negative k

/-- An integer is written as the digits of its double in groups, after a minus sign if it is negative.
Without the commas these are the digits of the integer exactly if it has at most 53 bits before its
final zeros. -/
theorem apply_integer (n : Int64) :
    ∃ (m : Int) (text : List Char),
      (Binary64.ofInt n.toInt).units? = some (m * Magnitude.unitsPerOne) ∧
      IsGrouped (Nat.toDigits 10 m.natAbs) text ∧
      apply [.integer n] = .string (String.ofList ((if n.toInt < 0 then ['-'] else []) ++ text)) ∧
      (((if n.toInt < 0 then ['-'] else []) ++ text).filter (· ≠ ',') = (toString n.toInt).toList ↔
        ∃ bits zeros, n.toInt.natAbs = bits * 2 ^ zeros ∧ bits ≤ 2 ^ 53) := by
  have hrange : n.toInt.natAbs ≤ 2 ^ 94 := by
    have hlow := n.le_toInt
    have hhigh := n.toInt_lt
    omega
  obtain ⟨m, k, hdouble, hk, hunits, hsome, hexact⟩ := Binary64.exists_ofInt hrange
  have hgrouped : IsGrouped (Nat.toDigits 10 k) (groupThousands (Nat.toDigits 10 k)) :=
    isGrouped_groupThousands Nat.toDigits_ne_nil
  have hsign : (if decide (n.toInt < 0) && k != 0 then ['-'] else []) =
      if n.toInt < 0 then ['-'] else [] := by
    by_cases hnegative : n.toInt < 0
    · simp [hnegative, hsome hnegative]
    · simp [hnegative]
  refine ⟨if n.toInt < 0 then -(k : Int) else k, groupThousands (Nat.toDigits 10 k), ?_, ?_, ?_, ?_⟩
  · have hfinite := Magnitude.ne_infinity_of_units_le hk hunits
    rw [hdouble, Binary64.units?, if_neg hfinite, hunits, Nat.cast_mul]
    by_cases hnegative : n.toInt < 0
    · rw [decide_eq_true hnegative, if_pos rfl, if_pos hnegative, Int.neg_mul]
    · rw [decide_eq_false hnegative, if_neg Bool.false_ne_true, if_neg hnegative]
  · have hsize : (if n.toInt < 0 then -(k : Int) else k).natAbs = k := by split <;> omega
    rw [hsize]
    exact hgrouped
  · rw [← hsign, ← numberText_of_units _ hk hunits, ← hdouble]
    rfl
  · have hminus : (if n.toInt < 0 then ['-'] else []).filter (· ≠ ',') =
        if n.toInt < 0 then ['-'] else [] := by
      split <;> rfl
    rw [← hexact, toList_toString, List.filter_append, hminus, List.append_cancel_left_eq,
      hgrouped.filter_ne_comma (comma_notMem_toDigits k)]
    refine ⟨fun hdigits => ?_, fun hsame => congrArg (Nat.toDigits 10) hsame⟩
    rw [← Nat.ofDigitChars_ten_toDigits (n := k), hdigits, Nat.ofDigitChars_ten_toDigits]

/-- Beyond `2 ^ 53` the digits of another integer may be written. -/
theorem apply_integer_beyond_doubles :
    apply [.integer 9007199254740993] = .string "9,007,199,254,740,992" ∧
      "9,007,199,254,740,992".toList.filter (· ≠ ',') ≠ (toString (9007199254740993 : Int)).toList := by
  refine ⟨congrArg Value.string (by decide +kernel), ?_⟩
  rw [toList_toString]
  decide +kernel

end TemplateExpr.Grouping
