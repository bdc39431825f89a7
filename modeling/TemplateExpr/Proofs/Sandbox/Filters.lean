import Mathlib.Data.List.Forall2
import TemplateExpr.Proofs.Filters.OrderBy
import TemplateExpr.Proofs.Filters.Searching
import TemplateExpr.Proofs.Sandbox.Guard

/-!
# Forbidden names in filters

Filters are given names as data. The keys of `orderBy` are expressions and heed the sandbox like all
others: a key that comes to a forbidden name makes the whole filter fail. The needle of `filter` is
looked up without a check, so whether an item is kept can tell what is stored under any name. Two
arrays that differ in this alone are searched alike exactly where the needle's own questions about the
name have the same answer.
-/

namespace TemplateExpr

/-- Whether two values differ at most in what they store under a name. -/
def Value.AlikeBut (name : String) : Value → Value → Prop
  | .object fields, .object fields' =>
    ∀ other ≠ name, Fields.get? fields other = Fields.get? fields' other
  | value, value' => value = value'

/-- What is stored under other names is the same. -/
theorem Value.AlikeBut.get {name other : String} {value value' : Value}
    (h : value.AlikeBut name value') (hother : other ≠ name) :
    value.get other = value'.get other := by
  unfold AlikeBut at h
  split at h
  · exact congrArg (Option.getD · .undefined) (h other hother)
  · rw [h]

/-- Changing what a name stores leaves all else alike. -/
theorem Value.alikeBut_cons (name : String) (value value' : Value) (fields : List (String × Value)) :
    (Value.object ((name, value) :: fields)).AlikeBut name (.object ((name, value') :: fields)) := by
  intro other hother
  rw [Fields.get?_cons, Fields.get?_cons, if_neg hother, if_neg hother]

namespace Search

variable {host : Host} {fields : List (String × Value)}

/-- Whether an item has all texts that an object asks for. -/
def accepts (fields : List (String × Value)) (item : Value) : Bool :=
  fields.all fun entry => fieldMatches item entry.1 entry.2

/-- Searching an array for an object gives the items that have all texts it asks for. -/
theorem apply_object (items : List Value) :
    apply host [.array items, .object fields] = .ok (.array (items.filter (accepts fields))) :=
  apply_eq_filter rfl (fun _ _ => rfl) items []

/-- Whether the same places of two arrays are kept. -/
def KeepsSame (host : Host) (needle : Value) (items items' : List Value) : Prop :=
  ∃ kept : List (Value × Value), kept.Sublist (items.zip items') ∧
    apply host [.array items, needle] = .ok (.array (kept.map Prod.fst)) ∧
    apply host [.array items', needle] = .ok (.array (kept.map Prod.snd))

/-- Where one of the two components of pairs is filtered as the other one is, the same pairs are
left. -/
theorem exists_sublist_iff {α : Type} {p : α → Bool} {pairs : List (α × α)} :
    (∃ kept : List (α × α), kept.Sublist pairs ∧ (pairs.map Prod.fst).filter p = kept.map Prod.fst ∧
        (pairs.map Prod.snd).filter p = kept.map Prod.snd) ↔
      ∀ pair ∈ pairs, p pair.1 = p pair.2 := by
  constructor
  · rintro ⟨kept, hsublist, hfirst, hsecond⟩
    -- Either component decides alone which pairs are left: as many are, and all of them pass.
    have hkept (side : α × α → α) (h : (pairs.map side).filter p = kept.map side) :
        kept = pairs.filter (p ∘ side) := by
      rw [List.filter_map] at h
      have hpass : kept.filter (p ∘ side) = kept := by
        refine List.filter_eq_self.mpr fun pair hpair => ?_
        obtain ⟨pair', hpair', hside⟩ := List.mem_map.mp (h ▸ List.mem_map_of_mem hpair)
        rw [Function.comp_apply, ← hside]
        exact (List.mem_filter.mp hpair').2
      have hlength := congrArg List.length h
      rw [List.length_map, List.length_map] at hlength
      exact (hpass ▸ hsublist.filter (p ∘ side)).eq_of_length hlength.symm
    intro pair hpair
    have hsame := (hkept Prod.fst hfirst).symm.trans (hkept Prod.snd hsecond)
    have hmem : pair ∈ pairs.filter (p ∘ Prod.fst) ↔ pair ∈ pairs.filter (p ∘ Prod.snd) := by
      rw [hsame]
    rw [List.mem_filter, List.mem_filter, and_iff_right hpair, and_iff_right hpair] at hmem
    exact Bool.eq_iff_iff.mpr hmem
  · intro h
    refine ⟨pairs.filter (p ∘ Prod.fst), List.filter_sublist, List.filter_map, ?_⟩
    have hsecond : pairs.filter (p ∘ Prod.snd) = pairs.filter (p ∘ Prod.fst) :=
      List.filter_congr fun pair hpair => (h pair hpair).symm
    rw [List.filter_map, hsecond]

/-- The same places are kept exactly if each two items in one place are accepted both or neither. -/
theorem keepsSame_iff {items items' : List Value} (h : items.length = items'.length) :
    KeepsSame host (.object fields) items items' ↔
      ∀ pair ∈ items.zip items', accepts fields pair.1 = accepts fields pair.2 := by
  rw [← exists_sublist_iff, List.map_fst_zip h.le, List.map_snd_zip h.ge]
  simp only [KeepsSame, apply_object, Except.ok.injEq, Value.array.injEq]

/-- Questions about other names have the same answer. -/
theorem fieldMatches_of_alikeBut {name other : String} {item item' expected : Value}
    (h : item.AlikeBut name item') (hother : other ≠ name) (hwhole : other ≠ "$") :
    fieldMatches item other expected = fieldMatches item' other expected := by
  rw [fieldMatches, fieldMatches, if_neg hwhole, if_neg hwhole, h.get hother]

/-- Whether an item has what an object asks for under names other than the given one. -/
def AcceptsApart (name : String) (fields : List (String × Value)) (item : Value) : Prop :=
  ∀ entry ∈ fields, entry.1 ≠ name → entry.1 ≠ "$" → fieldMatches item entry.1 entry.2 = true

/-- Whether an item has the texts that an object asks for under the name, and those that it asks for
anywhere. -/
def AcceptsUnder (name : String) (fields : List (String × Value)) (item : Value) : Prop :=
  ∀ entry ∈ fields, entry.1 = name ∨ entry.1 = "$" → fieldMatches item entry.1 entry.2 = true

/-- An item is accepted for what it has under the name and apart from it. -/
theorem accepts_iff (name : String) {item : Value} :
    accepts fields item = true ↔ AcceptsApart name fields item ∧ AcceptsUnder name fields item := by
  rw [accepts, List.all_eq_true]
  constructor
  · exact fun h => ⟨fun entry hentry _ _ => h entry hentry, fun entry hentry _ => h entry hentry⟩
  · rintro ⟨hapart, hunder⟩ entry hentry
    by_cases hname : entry.1 = name ∨ entry.1 = "$"
    · exact hunder entry hentry hname
    · rw [not_or] at hname
      exact hapart entry hentry hname.1 hname.2

/-- Items that differ under the name alone have the same apart from it. -/
theorem acceptsApart_congr {name : String} {item item' : Value} (h : item.AlikeBut name item') :
    AcceptsApart name fields item ↔ AcceptsApart name fields item' := by
  refine forall₂_congr fun entry _ => forall₂_congr fun hname hwhole => ?_
  rw [fieldMatches_of_alikeBut h hname hwhole]

/-- Items that differ under the name alone are accepted both or neither, unless they have all that is
asked for apart from the name, and only one of them has what is asked for under it. -/
theorem accepts_eq_iff {name : String} {item item' : Value} (h : item.AlikeBut name item') :
    accepts fields item = accepts fields item' ↔
      (AcceptsApart name fields item →
        (AcceptsUnder name fields item ↔ AcceptsUnder name fields item')) := by
  rw [Bool.eq_iff_iff, accepts_iff name, accepts_iff name, ← acceptsApart_congr h,
    and_congr_right_iff]

end Search

namespace Sorting

variable {host : Host} {resolver : Resolver Unit} {keys : List SortKey} {item : Value} {error : Error}

/-- A text asks for its expression, in the direction of its sign. -/
theorem SortKey.ofValue_eq_ok {spec : Value} {descending : Bool} {c : Char} {text : List Char}
    {evaluator : Evaluator Unit} (hsplit : splitDirection spec = (descending, c :: text))
    (h : Evaluator.ofSource resolver {} (String.ofList (c :: text)) false = .ok evaluator) :
    SortKey.ofValue resolver spec = .ok ⟨some evaluator, descending⟩ := by
  simp only [ofValue, hsplit, h]
  rfl

/-- Whether an expression comes to a name as it is run with an item as its scope. -/
def ComesTo (host : Host) (evaluator : Evaluator Unit) (item : Value) (name : String) : Prop :=
  .key name ∈ (evaluator.watch host ⟨item, none, ()⟩).2

/-- An expression that comes to a forbidden name gives no key but an error about this name. -/
theorem ofItem_of_comesTo {evaluator : Evaluator Unit} {descending : Bool} {name : String}
    (h : ComesTo host evaluator item name) (hforbidden : Sandbox.isForbidden name = true) :
    SortKey.ofItem host ⟨some evaluator, descending⟩ item =
      .error (.forbidden name evaluator.source) := by
  obtain ⟨front, rest, hevents⟩ := List.append_of_mem h
  have hstops := (evaluator.guarded_watch.stops _ front name rest hevents hforbidden).2
  change (evaluator.evaluate host ⟨item, none, ()⟩).1 = _
  rw [← evaluator.erase_watch]
  exact hstops

/-- The rows of items end with the first item whose row does. -/
theorem rows_eq_error {front back : List Value}
    (hfront : ∀ earlier ∈ front, ∃ row, rowOf host keys earlier = .ok row)
    (hitem : rowOf host keys item = .error error) :
    rows host keys (front ++ item :: back) = .error error := by
  refine mapM_eq_error (fun earlier hearlier => ?_) (bind_eq_error.mpr (.inl hitem))
  obtain ⟨row, hrow⟩ := hfront earlier hearlier
  exact ⟨(row, earlier), bind_eq_ok.mpr ⟨row, hrow, rfl⟩⟩

/-- An item whose row of keys fails makes the filter fail. -/
theorem apply_eq_error {items rest : List Value}
    (hkeys : keysOf resolver (argument rest 0) = .ok keys)
    (hrows : rows host keys items = .error error) :
    apply host resolver (.array items :: rest) = .error error := by
  simp only [argument] at hkeys
  simp only [apply, argument, List.getElem?_cons_zero, List.getElem?_cons_succ, Option.getD_some,
    hkeys, hrows, bind, Except.bind]

/-- Sorting by an expression that comes to a forbidden name with some item fails. Where nothing fails
before, neither an item nor an earlier key of this one, the error is about the name. -/
theorem apply_of_comesTo {before after : List SortKey} {evaluator : Evaluator Unit}
    {descending : Bool} {rest : List Value} {name : String}
    (hforbidden : Sandbox.isForbidden name = true)
    (hkeys : keysOf resolver (argument rest 0) =
      .ok (before ++ ⟨some evaluator, descending⟩ :: after))
    (hcomes : ComesTo host evaluator item name) :
    (∀ items, item ∈ items → ∃ error, apply host resolver (.array items :: rest) = .error error) ∧
      ∀ front back,
        (∀ earlier ∈ front, ∃ row,
          rowOf host (before ++ ⟨some evaluator, descending⟩ :: after) earlier = .ok row) →
        (∀ key ∈ before, ∃ value, key.ofItem host item = .ok value) →
        apply host resolver (.array (front ++ item :: back) :: rest) =
          .error (.forbidden name evaluator.source) := by
  have hkey : SortKey.ofItem host ⟨some evaluator, descending⟩ item =
      .error (.forbidden name evaluator.source) := ofItem_of_comesTo hcomes hforbidden
  constructor
  · intro items hitem
    obtain ⟨fault, hrow⟩ : ∃ fault,
        rowOf host (before ++ ⟨some evaluator, descending⟩ :: after) item = .error fault :=
      exists_mapM_eq_error (List.mem_append_right before List.mem_cons_self) hkey
    obtain ⟨error, hrows⟩ : ∃ error,
        rows host (before ++ ⟨some evaluator, descending⟩ :: after) items = .error error :=
      exists_mapM_eq_error hitem (bind_eq_error.mpr (.inl hrow))
    exact ⟨error, apply_eq_error hkeys hrows⟩
  · intro front back hfront hbefore
    exact apply_eq_error hkeys (rows_eq_error hfront (mapM_eq_error hbefore hkey))

end Sorting

/-- What the filters do with a forbidden name. Where two arrays differ only in what their items store
under it, `filter` keeps the same places for an object exactly if no two items in one place, which have
the rest of what the object asks for, can be told apart by what it asks for under the name or anywhere.
A key of `orderBy` that comes to the name makes the filter fail, and where nothing fails before it the
error is that of the sandbox. -/
theorem filters_given_forbidden (host : Host) {name : String}
    (hforbidden : Sandbox.isForbidden name = true) :
    (∀ fields items items', List.Forall₂ (Value.AlikeBut name) items items' →
      (Search.KeepsSame host (.object fields) items items' ↔
        ∀ pair ∈ items.zip items', Search.AcceptsApart name fields pair.1 →
          (Search.AcceptsUnder name fields pair.1 ↔ Search.AcceptsUnder name fields pair.2))) ∧
    ∀ (resolver : Resolver Unit) (rest : List Value) (before after : List Sorting.SortKey)
      (evaluator : Evaluator Unit) (descending : Bool) (item : Value),
      Sorting.keysOf resolver (argument rest 0) =
        .ok (before ++ ⟨some evaluator, descending⟩ :: after) →
      Sorting.ComesTo host evaluator item name →
      (∀ items, item ∈ items →
        ∃ error, Sorting.apply host resolver (.array items :: rest) = .error error) ∧
      ∀ front back,
        (∀ earlier ∈ front, ∃ row,
          Sorting.rowOf host (before ++ ⟨some evaluator, descending⟩ :: after) earlier = .ok row) →
        (∀ key ∈ before, ∃ value, key.ofItem host item = .ok value) →
        Sorting.apply host resolver (.array (front ++ item :: back) :: rest) =
          .error (.forbidden name evaluator.source) := by
  constructor
  · intro fields items items' halike
    rw [Search.keepsSame_iff halike.length_eq]
    refine forall₂_congr fun pair hpair => Search.accepts_eq_iff ?_
    exact (List.forall₂_iff_zip.mp halike).2 hpair
  · intro resolver rest before after evaluator descending item hkeys hcomes
    exact Sorting.apply_of_comesTo hforbidden hkeys hcomes

/-- Asked for an `x` under `constructor` and an `a` under `n`, an item without the `a` is dropped and
another one kept, whatever changes under `constructor` but for the `x`. Sorted by `-k` and `n[k]`, an
item whose `k` is `constructor` makes the filter fail after an item whose `k` is `a`. -/
theorem filters_given_constructor :
    let host : Host := fun _ _ _ => .ok .undefined
    let resolver : Resolver Unit := fun _ => none
    let stored (n text : String) : Value := .object [("constructor", .string text), ("n", .string n)]
    let asked : List (String × Value) := [("constructor", .string "x"), ("n", .string "a")]
    let keyed (k : String) : Value := .object [("k", .string k), ("n", .object [])]
    let rest : List Value := [.array [.string "-k", .string "n[k]"]]
    Sandbox.isForbidden "constructor" = true ∧
      Search.KeepsSame host (.object asked) [stored "a" "xy", stored "b" "x"]
        [stored "a" "zX", stored "b" "y"] ∧
      Sorting.apply host resolver (.array [keyed "a", keyed "constructor"] :: rest) =
        .error (.forbidden "constructor" "n[k]") := by
  intro host resolver stored asked keyed rest
  have hforbidden : Sandbox.isForbidden "constructor" = true := by decide
  obtain ⟨hfilter, hsort⟩ := filters_given_forbidden host hforbidden
  have hasked (item : Value) : Search.AcceptsUnder "constructor" asked item ↔
      Search.fieldMatches item "constructor" (.string "x") = true := by
    simp [Search.AcceptsUnder, asked]
  have hkept : ∀ pair ∈ [stored "a" "xy", stored "b" "x"].zip [stored "a" "zX", stored "b" "y"],
      Search.AcceptsApart "constructor" asked pair.1 →
        (Search.AcceptsUnder "constructor" asked pair.1 ↔
          Search.AcceptsUnder "constructor" asked pair.2) := by
    simp only [List.zip_cons_cons, List.zip_nil_left, List.forall_mem_cons, hasked]
    refine ⟨fun _ => iff_of_true rfl rfl, fun hapart => ?_, List.forall_mem_nil _⟩
    have hmissing : Search.fieldMatches (stored "b" "x") "n" (.string "a") = false := rfl
    have hfound := hapart ("n", .string "a") (by simp [asked]) (by decide) (by decide)
    exact absurd hfound (by simp [hmissing])
  have htree : Node.ofSource {} "k" = .ok (.program [.statement (.identifier "k")]) := rfl
  have htree' : Node.ofSource {} "n[k]" =
      .ok (.program [.statement (.member (.identifier "n") (.identifier "k") true)]) := rfl
  obtain ⟨plain, hplain, hgiven⟩ : ∃ evaluator,
      Evaluator.ofSource resolver {} "k" false = .ok evaluator ∧
        ∀ k, (evaluator.evaluate host ⟨keyed k, none, ()⟩).1 = .ok (.string k) := by
    rw [Evaluator.ofSource_eq_ofNode htree]
    exact ⟨_, rfl, fun _ => rfl⟩
  obtain ⟨reading, hreading, hsource, hevents, hpassed⟩ : ∃ evaluator,
      Evaluator.ofSource resolver {} "n[k]" false = .ok evaluator ∧ evaluator.source = "n[k]" ∧
        (evaluator.watch host ⟨keyed "constructor", none, ()⟩).2 =
          [.key "n", .key "k", .read ⟨.holder "k", ["k"]⟩, .key "constructor"] ∧
        (evaluator.evaluate host ⟨keyed "a", none, ()⟩).1 = .ok .undefined := by
    rw [Evaluator.ofSource_eq_ofNode htree']
    exact ⟨_, rfl, rfl, rfl, rfl⟩
  have hkeys : Sorting.keysOf resolver (argument rest 0) =
      .ok ([⟨some plain, true⟩] ++ ⟨some reading, false⟩ :: []) := by
    have hfirst : Sorting.SortKey.ofValue resolver (.string "-k") = .ok ⟨some plain, true⟩ :=
      Sorting.SortKey.ofValue_eq_ok rfl hplain
    have hsecond : Sorting.SortKey.ofValue resolver (.string "n[k]") = .ok ⟨some reading, false⟩ :=
      Sorting.SortKey.ofValue_eq_ok rfl hreading
    simp only [rest, argument, List.getElem?_cons_zero, Option.getD_some, Sorting.keysOf,
      List.mapM_cons, List.mapM_nil, hfirst, hsecond]
    rfl
  have hcomes : Sorting.ComesTo host reading (keyed "constructor") "constructor" := by
    rw [Sorting.ComesTo, hevents]
    simp
  have hrow : ∃ row, Sorting.rowOf host ([⟨some plain, true⟩] ++ ⟨some reading, false⟩ :: [])
      (keyed "a") = .ok row := by
    refine ⟨[.string "a", .undefined], ?_⟩
    simp only [Sorting.rowOf, List.singleton_append, List.mapM_cons, List.mapM_nil,
      Sorting.SortKey.ofItem, hgiven, hpassed]
    rfl
  refine ⟨hforbidden, (hfilter _ _ _ (.cons (Value.alikeBut_cons _ _ _ _)
    (.cons (Value.alikeBut_cons _ _ _ _) .nil))).mpr hkept, ?_⟩
  rw [← hsource]
  exact (hsort resolver rest [⟨some plain, true⟩] [] reading false (keyed "constructor") hkeys
    hcomes).2 [keyed "a"] [] (List.forall_mem_singleton.mpr hrow)
      (List.forall_mem_singleton.mpr ⟨_, hgiven "constructor"⟩)

/-- What `constructor` stores shows in whether an item is kept. -/
theorem filter_tells_constructor :
    let host : Host := fun _ _ _ => .ok .undefined
    let stored (text : String) : Value := .object [("constructor", .string text)]
    Sandbox.isForbidden "constructor" = true ∧
      List.Forall₂ (Value.AlikeBut "constructor") [stored "x"] [stored "y"] ∧
      Search.apply host [.array [stored "x"], stored "x"] = .ok (.array [stored "x"]) ∧
      Search.apply host [.array [stored "y"], stored "x"] = .ok (.array []) ∧
      ¬Search.KeepsSame host (stored "x") [stored "x"] [stored "y"] := by
  intro host stored
  have hkept : Search.apply host [.array [stored "x"], stored "x"] = .ok (.array [stored "x"]) := rfl
  have hdropped : Search.apply host [.array [stored "y"], stored "x"] = .ok (.array []) := rfl
  refine ⟨by decide, .cons (Value.alikeBut_cons _ _ _ _) .nil, hkept, hdropped, ?_⟩
  · rintro ⟨kept, -, hfirst, hsecond⟩
    rw [hkept] at hfirst
    rw [hdropped] at hsecond
    simp only [Except.ok.injEq, Value.array.injEq] at hfirst hsecond
    rw [List.map_eq_nil_iff.mp hsecond.symm] at hfirst
    cases hfirst

end TemplateExpr
