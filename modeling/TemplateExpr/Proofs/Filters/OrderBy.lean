import TemplateExpr.Proofs.Evaluation.Joining
import TemplateExpr.Proofs.Filters.Criteria
import TemplateExpr.Proofs.Filters.Precedence
import TemplateExpr.Proofs.Filters.Stability
import TemplateExpr.Proofs.Number.Exactness

/-!
# What `orderBy` gives

Where every number among the keys is compared as what it is, the rows of keys stand in the order of the
first criterion that tells them apart, each in its direction. An array is sorted by such rows: no item
stands after one that it comes before, and items that no criterion tells apart stay as they were.
-/

namespace TemplateExpr.Sorting

/-- Keys that are compared as what they are stand in one order. -/
theorem keyOrder_trans {a b c : Value} (ha : IsSharp a) (hb : IsSharp b) (hc : IsSharp c)
    (hab : keyOrder a b ≠ .gt) (hbc : keyOrder b c ≠ .gt) : keyOrder a c ≠ .gt := by
  intro hac
  obtain ⟨hkind, hkind', hkind'', hblurs⟩ := blurs_of_keyOrder hab hbc hac
  rcases hblurs with hnan | ⟨x, i, j, -, hi, hj, hsame, hsame'⟩
  · cases b <;> cases hkind' <;> cases hnan
    exact hb rfl
  · cases a <;> cases hkind <;> cases hi
    cases c <;> cases hkind'' <;> cases hj
    obtain ⟨p, hp, hx⟩ := Binary64.same_iff.mp hsame
    obtain ⟨q, hq, hx'⟩ := Binary64.same_iff.mp hsame'
    cases hx.symm.trans hx'
    have hplaces := Binary64.placeOfInt_lt (Int.compare_eq_gt.mp hac) hc ha
    rw [Binary64.place?_ofInt, Option.some.injEq] at hp hq
    omega

/-- The order of two keys in the direction of a criterion. -/
def SortKey.order (key : SortKey) (a b : Value) : Ordering :=
  if key.descending then keyOrder b a else keyOrder a b

/-- The order in a direction turns around with the keys. -/
theorem SortKey.order_swap (key : SortKey) (a b : Value) : key.order b a = (key.order a b).swap := by
  unfold order
  split <;> exact keyOrder_swap _ _

/-- Keys that are equal are so in every direction. -/
theorem SortKey.order_eq_iff {key : SortKey} {a b : Value} :
    key.order a b = .eq ↔ keyOrder a b = .eq := by
  unfold order
  split
  · rw [keyOrder_swap, Ordering.swap_eq_eq]
  · rfl

/-- Keys that are compared as what they are stand in one order, whatever the direction is. -/
theorem SortKey.order_trans {key : SortKey} {a b c : Value} (ha : IsSharp a) (hb : IsSharp b)
    (hc : IsSharp c) (hab : key.order a b ≠ .gt) (hbc : key.order b c ≠ .gt) :
    key.order a c ≠ .gt := by
  unfold order at *
  split at hab
  case isTrue hdescending =>
    rw [if_pos hdescending] at hbc ⊢
    exact keyOrder_trans hc hb ha hbc hab
  case isFalse hascending =>
    rw [if_neg hascending] at hbc ⊢
    exact keyOrder_trans ha hb hc hab hbc

/-- What is in no order either way is equal. -/
theorem eq_of_ne_gt {order : Ordering} (h : order ≠ .gt) (h' : order.swap ≠ .gt) : order = .eq := by
  cases order
  case lt => exact absurd rfl h'
  case eq => rfl
  case gt => exact absurd rfl h

/-- What stands between two keys that are equal is equal to both. -/
theorem SortKey.order_eq_of_between {key : SortKey} {a b c : Value} (ha : IsSharp a)
    (hb : IsSharp b) (hc : IsSharp c) (hab : key.order a b ≠ .gt) (hbc : key.order b c ≠ .gt)
    (hac : key.order a c = .eq) : key.order a b = .eq ∧ key.order b c = .eq := by
  have hca : key.order c a ≠ .gt := by
    rw [key.order_swap, hac]
    decide
  have hba := key.order_trans hb hc ha hbc hca
  have hcb := key.order_trans hc ha hb hca hab
  rw [key.order_swap] at hba hcb
  exact ⟨eq_of_ne_gt hab hba, eq_of_ne_gt hbc hcb⟩

/-- Rows are in the order of their first keys, and where these are equal in that of the others. -/
theorem rowOrder_cons (key : SortKey) (keys : List SortKey) (a b : Value) (as bs : List Value) :
    rowOrder (key :: keys) (a :: as) (b :: bs) = (key.order a b).then (rowOrder keys as bs) := by
  rw [rowOrder, SortKey.order, ← keyOrder_swap]

/-- The order of two rows turns around with them. -/
theorem rowOrder_swap (keys : List SortKey) (row row' : List Value) :
    rowOrder keys row' row = (rowOrder keys row row').swap := by
  induction keys generalizing row row' with
  | nil => rfl
  | cons key keys ih =>
    cases row <;> cases row'
    case cons.cons a as b bs =>
      rw [rowOrder_cons, rowOrder_cons, Ordering.swap_then, key.order_swap, ih]
    all_goals rfl

/-- A row does not come after another one by their first keys, and where these are equal not by the
others. -/
theorem rowOrder_cons_ne_gt {key : SortKey} {keys : List SortKey} {a b : Value} {as bs : List Value} :
    rowOrder (key :: keys) (a :: as) (b :: bs) ≠ .gt ↔
      key.order a b ≠ .gt ∧ (key.order a b = .eq → rowOrder keys as bs ≠ .gt) := by
  rw [rowOrder_cons, ne_eq, Ordering.then_eq_gt, not_or, not_and]

/-- Whether a row has one key for each criterion, and each is compared as what it is. -/
def IsSharpRow (keys : List SortKey) (row : List Value) : Prop :=
  row.length = keys.length ∧ ∀ key ∈ row, IsSharp key

/-- The first key of a row and the others are compared as what they are. -/
theorem IsSharpRow.exists_cons {key : SortKey} {keys : List SortKey} {row : List Value}
    (h : IsSharpRow (key :: keys) row) :
    ∃ a as, row = a :: as ∧ IsSharp a ∧ IsSharpRow keys as := by
  obtain ⟨hlength, hsharp⟩ := h
  cases row with
  | nil => cases hlength
  | cons a as =>
    obtain ⟨ha, has⟩ := List.forall_mem_cons.mp hsharp
    exact ⟨a, as, rfl, ha, Nat.succ.inj hlength, has⟩

/-- Rows that are compared as what they are stand in one order. -/
theorem rowOrder_trans {keys : List SortKey} {row row' row'' : List Value}
    (h : IsSharpRow keys row) (h' : IsSharpRow keys row') (h'' : IsSharpRow keys row'')
    (hfirst : rowOrder keys row row' ≠ .gt) (hsecond : rowOrder keys row' row'' ≠ .gt) :
    rowOrder keys row row'' ≠ .gt := by
  induction keys generalizing row row' row'' with
  | nil => exact nofun
  | cons key keys ih =>
    obtain ⟨a, as, rfl, ha, has⟩ := h.exists_cons
    obtain ⟨b, bs, rfl, hb, hbs⟩ := h'.exists_cons
    obtain ⟨c, cs, rfl, hc, hcs⟩ := h''.exists_cons
    rw [rowOrder_cons_ne_gt] at hfirst hsecond ⊢
    obtain ⟨hab, hrest⟩ := hfirst
    obtain ⟨hbc, hrest'⟩ := hsecond
    refine ⟨key.order_trans ha hb hc hab hbc, fun hac => ?_⟩
    -- Equal first keys have none but equal ones between them, so that the others decide all along.
    obtain ⟨hequal, hequal'⟩ := key.order_eq_of_between ha hb hc hab hbc hac
    exact ih has hbs hcs (hrest hequal) (hrest' hequal')

/-- Rows that are equal to one row are equal. -/
theorem rowOrder_eq_of_eq {keys : List SortKey} {row row' row'' : List Value}
    (h : IsSharpRow keys row) (h' : IsSharpRow keys row') (h'' : IsSharpRow keys row'')
    (hequal : rowOrder keys row row' = .eq) (hequal' : rowOrder keys row row'' = .eq) :
    rowOrder keys row' row'' = .eq := by
  have hback : rowOrder keys row' row = .eq := by rw [rowOrder_swap, hequal, Ordering.swap_eq]
  have hback' : rowOrder keys row'' row = .eq := by rw [rowOrder_swap, hequal', Ordering.swap_eq]
  have hne {order : Ordering} (horder : order = .eq) : order ≠ .gt := by
    rw [horder]
    decide
  refine eq_of_ne_gt (rowOrder_trans h' h h'' (hne hback) (hne hequal')) ?_
  rw [← rowOrder_swap]
  exact rowOrder_trans h'' h h' (hne hback') (hne hequal)

/-! The order that is meant is stated without the comparison of keys and rows, which is shown to be it. -/

/-- Whether a key comes before another one in the direction of a criterion. -/
def SortKey.Before (key : SortKey) (a b : Value) : Prop :=
  if key.descending then b.SortsBefore a else a.SortsBefore b

/-- Whether a row comes before another one: the first criterion that tells their keys apart decides. -/
inductive RowBefore : List SortKey → List Value → List Value → Prop
  | first {key : SortKey} {keys : List SortKey} {a b : Value} {as bs : List Value}
      (h : key.Before a b) : RowBefore (key :: keys) (a :: as) (b :: bs)
  | next {key : SortKey} {keys : List SortKey} {a b : Value} {as bs : List Value}
      (hwith : a.SortsWith b) (h : RowBefore keys as bs) : RowBefore (key :: keys) (a :: as) (b :: bs)

/-- Whether two rows are in order: the second one does not come before the first one, or the first one
before the second one if the whole order is reversed. -/
def InOrder (keys : List SortKey) (reverse : Bool) (row row' : List Value) : Prop :=
  if reverse then ¬RowBefore keys row row' else ¬RowBefore keys row' row

/-- Keys are compared in the direction of a criterion. -/
theorem SortKey.order_eq_lt_iff {key : SortKey} {a b : Value} (ha : IsSharp a) (hb : IsSharp b) :
    key.order a b = .lt ↔ key.Before a b := by
  unfold order Before
  split
  · exact keyOrder_eq_lt_iff hb ha
  · exact keyOrder_eq_lt_iff ha hb

/-- Rows are compared by the first criterion that tells their keys apart. -/
theorem rowOrder_eq_lt_iff {keys : List SortKey} {row row' : List Value} (h : IsSharpRow keys row)
    (h' : IsSharpRow keys row') : rowOrder keys row row' = .lt ↔ RowBefore keys row row' := by
  induction keys generalizing row row' with
  | nil => exact iff_of_false nofun nofun
  | cons key keys ih =>
    obtain ⟨a, as, rfl, ha, has⟩ := h.exists_cons
    obtain ⟨b, bs, rfl, hb, hbs⟩ := h'.exists_cons
    rw [rowOrder_cons, Ordering.then_eq_lt, SortKey.order_eq_lt_iff ha hb, SortKey.order_eq_iff,
      keyOrder_eq_eq_iff ha hb, ih has hbs]
    constructor
    · rintro (hfirst | ⟨hwith, hnext⟩)
      · exact .first hfirst
      · exact .next hwith hnext
    · intro hbefore
      cases hbefore with
      | first hfirst => exact .inl hfirst
      | next hwith hnext => exact .inr ⟨hwith, hnext⟩

/-- Rows of keys that are not told apart are equal. -/
theorem rowOrder_eq_of_forall₂ {keys : List SortKey} {row row' : List Value} (h : IsSharpRow keys row)
    (h' : IsSharpRow keys row') (hwith : List.Forall₂ Value.SortsWith row row') :
    rowOrder keys row row' = .eq := by
  induction keys generalizing row row' with
  | nil => rfl
  | cons key keys ih =>
    obtain ⟨a, as, rfl, ha, has⟩ := h.exists_cons
    obtain ⟨b, bs, rfl, hb, hbs⟩ := h'.exists_cons
    obtain ⟨hfirst, hothers⟩ := List.forall₂_cons.mp hwith
    rw [rowOrder_cons, Ordering.then_eq_eq, SortKey.order_eq_iff]
    exact ⟨(keyOrder_eq_eq_iff ha hb).mpr hfirst, ih has hbs hothers⟩

/-- Whether an item with its row goes before another one. -/
def rowLess (keys : List SortKey) (reverse : Bool) (entry entry' : List Value × Value) : Bool :=
  let order := rowOrder keys entry.1 entry'.1
  (if reverse then order.swap else order) == .lt

/-- Two rows are in order unless the second one has to go before the first one. -/
theorem inOrder_iff {keys : List SortKey} {reverse : Bool} {entry entry' : List Value × Value}
    (h : IsSharpRow keys entry.1) (h' : IsSharpRow keys entry'.1) :
    InOrder keys reverse entry.1 entry'.1 ↔ rowLess keys reverse entry' entry = false := by
  unfold InOrder rowLess
  cases reverse with
  | true =>
    rw [if_pos rfl, ← rowOrder_eq_lt_iff h h', rowOrder_swap keys entry'.1]
    cases rowOrder keys entry'.1 entry.1 <;> decide
  | false =>
    rw [if_neg Bool.false_ne_true, ← rowOrder_eq_lt_iff h' h]
    cases rowOrder keys entry'.1 entry.1 <;> decide

/-- Rows that are compared as what they are can be put in order. -/
theorem isOrder_rowLess (keys : List SortKey) (reverse : Bool) :
    IsOrder (rowLess keys reverse) fun entry => IsSharpRow keys entry.1 where
  asymm {a b} _ _ h := by
    simp only [rowLess, rowOrder_swap keys a.1 b.1] at h ⊢
    cases reverse <;> cases horder : rowOrder keys a.1 b.1 <;> rw [horder] at h <;>
      first | rfl | cases h
  trans {a b c} ha hb hc hab hbc := by
    have hforth {a b : List Value × Value} :
        rowLess keys false b a = false ↔ rowOrder keys a.1 b.1 ≠ .gt := by
      rw [rowLess, rowOrder_swap keys a.1 b.1]
      cases rowOrder keys a.1 b.1 <;> decide
    have hback {a b : List Value × Value} :
        rowLess keys true b a = false ↔ rowOrder keys b.1 a.1 ≠ .gt := by
      rw [rowLess]
      cases rowOrder keys b.1 a.1 <;> decide
    cases reverse with
    | true =>
      rw [hback] at hab hbc ⊢
      exact rowOrder_trans hc hb ha hbc hab
    | false =>
      rw [hforth] at hab hbc ⊢
      exact rowOrder_trans ha hb hc hab hbc

variable {host : Host} {resolver : Resolver Unit} {keys : List SortKey}

/-- Items stand beside their rows. -/
theorem rows_eq_ok {decorated : List (List Value × Value)}
    (h : ∀ entry ∈ decorated, HasRow host keys entry.2 entry.1) :
    rows host keys (decorated.map (·.2)) = .ok decorated := by
  rw [rows, mapM_eq_ok, List.forall₂_map_left_iff, List.forall₂_same]
  intro entry hentry
  exact bind_eq_ok.mpr ⟨entry.1, rowOf_eq_ok_iff.mpr (h entry hentry), rfl⟩

/-- Items that have rows can be put beside them. -/
theorem exists_decorated {P : List Value → Prop} {items : List Value}
    (h : ∀ item ∈ items, ∃ row, HasRow host keys item row ∧ P row) :
    ∃ decorated : List (List Value × Value), decorated.map (·.2) = items ∧
      ∀ entry ∈ decorated, HasRow host keys entry.2 entry.1 ∧ P entry.1 := by
  induction items with
  | nil => exact ⟨[], rfl, List.forall_mem_nil _⟩
  | cons item rest ih =>
    obtain ⟨⟨row, hrow⟩, hrest⟩ := List.forall_mem_cons.mp h
    obtain ⟨decorated, rfl, hdecorated⟩ := ih hrest
    exact ⟨(row, item) :: decorated, rfl, List.forall_mem_cons.mpr ⟨hrow, hdecorated⟩⟩

/-- An item has one row only. -/
theorem HasRow.unique {item : Value} {row row' : List Value} (h : HasRow host keys item row)
    (h' : HasRow host keys item row') : row = row' :=
  Except.ok.inj ((rowOf_eq_ok_iff.mpr h).symm.trans (rowOf_eq_ok_iff.mpr h'))

/-- Items with rows are sorted by them. -/
theorem apply_eq_ok {items rest : List Value} {decorated : List (List Value × Value)}
    (hkeys : Criteria resolver (argument rest 0) keys)
    (hrows : rows host keys items = .ok decorated) :
    apply host resolver (.array items :: rest) =
      .ok (.array ((sorted (rowLess keys (argument rest 1).isTruthy) decorated).map (·.2))) := by
  rw [← keysOf_eq_ok_iff] at hkeys
  simp only [argument] at hkeys
  simp only [apply, argument, List.getElem?_cons_zero, List.getElem?_cons_succ, Option.getD_some,
    hkeys, hrows, bind, Except.bind]
  rfl

/-- Whether no criterion tells two items apart. -/
def Tied (host : Host) (keys : List SortKey) (item item' : Value) : Prop :=
  ∃ row row', HasRow host keys item row ∧ HasRow host keys item' row' ∧
    List.Forall₂ Value.SortsWith row row'

/-- Items that are not told apart have equal rows. -/
theorem Tied.rowOrder_eq {item item' : Value} {row row' : List Value} (h : Tied host keys item item')
    (hrow : HasRow host keys item row) (hrow' : HasRow host keys item' row')
    (hsharp : IsSharpRow keys row) (hsharp' : IsSharpRow keys row') :
    rowOrder keys row row' = .eq := by
  obtain ⟨_, _, hown, hown', hwith⟩ := h
  cases hrow.unique hown
  cases hrow'.unique hown'
  exact rowOrder_eq_of_forall₂ hsharp hsharp' hwith

/-- An array is sorted by the criteria of an argument, where every key expression compiles and has a
value for every item, and every number among the values is compared as what it is.

Then what comes out are the items themselves, whatever the key expressions assign. No item stands after
one that it comes before by their keys, or the other way around if the order is reversed. Items that no
criterion tells apart stay as they were among themselves, and what is sorted once stays so. -/
theorem apply_sorts_stably {items rest : List Value}
    (hkeys : Criteria resolver (argument rest 0) keys)
    (hrows : ∀ item ∈ items, ∃ row, HasRow host keys item row ∧ ∀ key ∈ row, IsSharp key) :
    ∃ moved, apply host resolver (.array items :: rest) = .ok (.array moved) ∧
      moved.Perm items ∧
      moved.Pairwise (fun item item' => ∃ row row', HasRow host keys item row ∧
        HasRow host keys item' row' ∧ InOrder keys (argument rest 1).isTruthy row row') ∧
      (∀ item ∈ items, ∀ p : Value → Bool,
        (∀ other ∈ items, p other = true → Tied host keys item other) →
          moved.filter p = items.filter p) ∧
      apply host resolver (.array moved :: rest) = .ok (.array moved) := by
  obtain ⟨decorated, rfl, hdecorated⟩ := exists_decorated hrows
  have hrow : ∀ entry ∈ decorated, HasRow host keys entry.2 entry.1 :=
    fun entry hentry => (hdecorated entry hentry).1
  have hsharp : ∀ entry ∈ decorated, IsSharpRow keys entry.1 := fun entry hentry =>
    ⟨(hrow entry hentry).length_eq.symm, (hdecorated entry hentry).2⟩
  let less := rowLess keys (argument rest 1).isTruthy
  have hperm : (sorted less decorated).Perm decorated := sorted_perm decorated
  have hrow' : ∀ entry ∈ sorted less decorated, HasRow host keys entry.2 entry.1 :=
    fun entry hentry => hrow entry (hperm.mem_iff.mp hentry)
  have hsharp' : ∀ entry ∈ sorted less decorated, IsSharpRow keys entry.1 :=
    fun entry hentry => hsharp entry (hperm.mem_iff.mp hentry)
  have hsorted := pairwise_sorted (isOrder_rowLess keys (argument rest 1).isTruthy) hsharp
  refine ⟨(sorted less decorated).map (·.2), apply_eq_ok hkeys (rows_eq_ok hrow), hperm.map _,
    List.pairwise_map.mpr (hsorted.imp_of_mem fun {entry entry'} hentry hentry' hless =>
      ⟨entry.1, entry'.1, hrow' entry hentry, hrow' entry' hentry',
        (inOrder_iff (hsharp' entry hentry) (hsharp' entry' hentry')).mpr hless⟩), ?_, ?_⟩
  · intro item hitem p htied
    obtain ⟨entry, hentry, rfl⟩ := List.mem_map.mp hitem
    rw [List.filter_map, List.filter_map, filter_sorted]
    -- Two items that are not told apart from a third one have equal rows, and none of them goes first.
    have hequal : ∀ other ∈ decorated, p other.2 = true → rowOrder keys entry.1 other.1 = .eq :=
      fun other hother hpassed =>
        (htied other.2 (List.mem_map_of_mem hother) hpassed).rowOrder_eq (hrow entry hentry)
          (hrow other hother) (hsharp entry hentry) (hsharp other hother)
    intro entry' hentry' entry'' hentry'' hpassed hpassed'
    have hsame := rowOrder_eq_of_eq (hsharp entry hentry) (hsharp entry' hentry')
      (hsharp entry'' hentry'') (hequal entry' hentry' hpassed) (hequal entry'' hentry'' hpassed')
    simp only [less, rowLess, hsame]
    cases (argument rest 1).isTruthy <;> rfl
  · rw [apply_eq_ok hkeys (rows_eq_ok hrow'), sorted_of_pairwise hsorted]

/-- Sorted by `-k = j` and then by `+t`, all in reverse, items come in the order of `j`, numbers before
texts. Items whose keys differ by case alone stay as they are, and no item gets a `k`. -/
theorem apply_sorts_stably_by_assigning_key :
    let host : Host := fun _ _ _ => .ok .undefined
    let resolver : Resolver Unit := fun _ => none
    let item (j : Value) (t : String) : Value := .object [("j", j), ("t", .string t)]
    let items := [item (.string "a") "z", item (.integer 2) "y", item (.integer 1) "x",
      item (.integer 1) "X"]
    let moved := [item (.integer 1) "x", item (.integer 1) "X", item (.integer 2) "y",
      item (.string "a") "z"]
    let rest : List Value := [.array [.string "-k = j", .string "+t"], .boolean true]
    ∃ keys, Criteria resolver (argument rest 0) keys ∧
      (∀ item ∈ items, ∃ row, HasRow host keys item row ∧ ∀ key ∈ row, IsSharp key) ∧
      Tied host keys (item (.integer 1) "x") (item (.integer 1) "X") ∧
      apply host resolver (.array items :: rest) = .ok (.array moved) ∧
      moved.Perm items ∧
      moved.Pairwise (fun item item' => ∃ row row', HasRow host keys item row ∧
        HasRow host keys item' row' ∧ InOrder keys (argument rest 1).isTruthy row row') ∧
      (∀ item ∈ items, ∀ p : Value → Bool,
        (∀ other ∈ items, p other = true → Tied host keys item other) →
          moved.filter p = items.filter p) ∧
      apply host resolver (.array moved :: rest) = .ok (.array moved) := by
  intro host resolver item items moved rest
  obtain ⟨assigning, hassigning, hassigned⟩ : ∃ evaluator,
      Evaluator.ofSource resolver {} "k = j" false = .ok evaluator ∧
        ∀ j t, (evaluator.evaluate host ⟨item j t, none, ()⟩).1 = .ok j := by
    have htree : Node.ofSource {} "k = j" =
        .ok (.program [.statement (.assignment (.identifier "k") (.identifier "j"))]) := rfl
    rw [Evaluator.ofSource_eq_ofNode htree]
    exact ⟨_, rfl, fun _ _ => rfl⟩
  obtain ⟨reading, hreading, hread⟩ : ∃ evaluator,
      Evaluator.ofSource resolver {} "t" false = .ok evaluator ∧
        ∀ j t, (evaluator.evaluate host ⟨item j t, none, ()⟩).1 = .ok (.string t) := by
    have htree : Node.ofSource {} "t" = .ok (.program [.statement (.identifier "t")]) := rfl
    rw [Evaluator.ofSource_eq_ofNode htree]
    exact ⟨_, rfl, fun _ _ => rfl⟩
  let keys : List SortKey := [⟨some assigning, true⟩, ⟨some reading, false⟩]
  have hkeys : Criteria resolver (argument rest 0) keys :=
    .several (List.cons_ne_nil _ _) (.cons
      (.expression (.minus ['k', ' ', '=', ' ', 'j']) (List.cons_ne_nil _ _) hassigning) (.cons
      (.expression (.plus ['t']) (List.cons_ne_nil _ _) hreading) .nil))
  have hrow (j : Value) (t : String) : HasRow host keys (item j t) [j, .string t] :=
    .cons (hassigned j t) (.cons (hread j t) .nil)
  have htext (t : String) : IsSharp (.string t) := trivial
  have hsharp (j : Value) (t : String) (hj : IsSharp j) :
      ∃ row, HasRow host keys (item j t) row ∧ ∀ key ∈ row, IsSharp key :=
    ⟨_, hrow j t, List.forall_mem_cons.mpr ⟨hj, List.forall_mem_cons.mpr
      ⟨htext t, List.forall_mem_nil _⟩⟩⟩
  have hone : IsSharp (.integer 1) := by
    unfold IsSharp
    decide
  have htwo : IsSharp (.integer 2) := by
    unfold IsSharp
    decide
  have hrows : ∀ item ∈ items,
      ∃ row, HasRow host keys item row ∧ ∀ key ∈ row, IsSharp key := by
    simp only [items, List.forall_mem_cons]
    exact ⟨hsharp _ "z" (htext "a"), hsharp _ "y" htwo, hsharp _ "x" hone, hsharp _ "X" hone,
      List.forall_mem_nil _⟩
  have htied : Tied host keys (item (.integer 1) "x") (item (.integer 1) "X") :=
    ⟨_, _, hrow _ "x", hrow _ "X", .cons ((keyOrder_eq_eq_iff hone hone).mp rfl)
      (.cons ((keyOrder_eq_eq_iff (htext "x") (htext "X")).mp rfl) .nil)⟩
  have hmoved : apply host resolver (.array items :: rest) = .ok (.array moved) := by
    let decorated : List (List Value × Value) :=
      [([.string "a", .string "z"], item (.string "a") "z"),
        ([.integer 2, .string "y"], item (.integer 2) "y"),
        ([.integer 1, .string "x"], item (.integer 1) "x"),
        ([.integer 1, .string "X"], item (.integer 1) "X")]
    have hdecorated : ∀ entry ∈ decorated, HasRow host keys entry.2 entry.1 := by
      simp only [decorated, List.forall_mem_cons]
      exact ⟨hrow _ "z", hrow _ "y", hrow _ "x", hrow _ "X", List.forall_mem_nil _⟩
    exact apply_eq_ok hkeys (rows_eq_ok hdecorated)
  obtain ⟨others, hothers, hsorted⟩ := apply_sorts_stably hkeys hrows
  cases hmoved.symm.trans hothers
  exact ⟨keys, hkeys, hrows, htied, hmoved, hsorted⟩

end TemplateExpr.Sorting
