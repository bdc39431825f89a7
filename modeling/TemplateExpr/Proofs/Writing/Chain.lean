import TemplateExpr.Proofs.Outcome
import TemplateExpr.Proofs.Writing.Property

/-!
# Laws of a write along a chain

A write changes values step by step on its way, and a later step may fail. Still it is all or
nothing: once a step has made something, all steps after it succeed. So a write either gives what
`Value.put` makes of the whole value at once, or leaves everything as it was. The laws of a single
write carry over to `Value.put`.
-/

namespace TemplateExpr

namespace Value

/-- The value with a new value at the end of a chain of keys, if each container on the way can hold
its key. -/
def put (value : Value) : (keys : List String) → Value → Except TypeFault Value
  | [], new => .ok new
  | key :: rest, new => do
    let (_, slot) ← value.openSlot key
    value.set key (← slot.put rest new)

/-- A missing value is written along a chain like an empty object. -/
theorem put_orObject (value : Value) {keys : List String} (hkeys : keys ≠ []) (new : Value) :
    value.orObject.put keys new = value.put keys new := by
  cases keys with
  | nil => contradiction
  | cons key rest =>
    simp only [put, openSlot_eq, set_orObject, get_orObject]

/-- A write along a chain makes the property of the first key and puts it in its place. -/
theorem put_cons_eq_ok {value written new : Value} {key : String} {rest : List String} :
    value.put (key :: rest) new = .ok written ↔
      ∃ inner, (value.get key).put rest new = .ok inner ∧ value.set key inner = .ok written := by
  have hslot : (value.get key).orObject.put rest new = (value.get key).put rest new := by
    cases rest with
    | nil => rfl
    | cons next rest => exact put_orObject _ (List.cons_ne_nil next rest) new
  simp only [put, openSlot_eq]
  cases hset : value.set key (value.get key).orObject with
  | error fault =>
    simp only [Except.map, bind, Except.bind, reduceCtorEq, false_iff]
    rintro ⟨inner, -, hwritten⟩
    obtain ⟨other, hother⟩ := exists_set (value.get key).orObject hwritten
    simp [hset] at hother
  | ok opened =>
    change ((value.get key).orObject.put rest new >>= fun inner => value.set key inner) = _ ↔ _
    rw [hslot, bind_eq_ok]

/-- Along a chain from a missing value everything can be made. -/
theorem exists_put_of_isNullish {value : Value} (h : value.isNullish = true) (keys : List String)
    (new : Value) : ∃ written, value.put keys new = .ok written := by
  induction keys generalizing value with
  | nil => exact ⟨new, rfl⟩
  | cons key rest ih =>
    have hset (inner : Value) : value.set key inner = .ok (.object [(key, inner)]) := by
      cases value <;> simp_all [isNullish, set]
    have hget : value.get key = .undefined := by
      cases value <;> simp_all [isNullish, get, property?]
    have hmissing : (value.get key).isNullish = true := by
      rw [hget]
      rfl
    obtain ⟨inner, hinner⟩ := ih hmissing
    exact ⟨_, put_cons_eq_ok.mpr ⟨inner, hinner, hset inner⟩⟩

/-- A write along a chain is all or nothing: its steps together put the new value, or they leave
the value as it was. -/
theorem write_eq_put (value : Value) (key : String) (rest : List String) (new : Value) :
    value.write key rest new = match value.put (key :: rest) new with
      | .ok written => (written, .ok ())
      | .error fault => (value, .error fault) := by
  induction rest generalizing value key with
  | nil =>
    simp only [write, put, openSlot_eq]
    cases hset : value.set key new with
    | error fault => simp [set_eq_error _ hset, Except.map, bind, Except.bind]
    | ok written =>
      obtain ⟨opened, hopened⟩ := exists_set (value.get key).orObject hset
      simp [hopened, hset, Except.map, bind, Except.bind]
  | cons next rest ih =>
    rw [write, put, openSlot_eq]
    cases hset : value.set key (value.get key).orObject with
    | error fault => rfl
    | ok opened =>
      simp only [Except.map, bind, Except.bind, ih, set_set _ hset]
      cases hput : (value.get key).orObject.put (next :: rest) new with
      | ok inner =>
        obtain ⟨written, hwritten⟩ := exists_set inner hset
        simp [hwritten, Except.toOption]
      | error fault =>
        -- All writes into a slot that was just made succeed, so this slot was there before.
        have hpresent : (value.get key).isNullish = false := by
          rw [put_orObject _ (List.cons_ne_nil next rest)] at hput
          refine Bool.eq_false_iff.mpr fun hmissing => ?_
          obtain ⟨written, hwritten⟩ := exists_put_of_isNullish hmissing (next :: rest) new
          simp [hwritten] at hput
        have hslot : (value.get key).orObject = value.get key := by simp [orObject, hpresent]
        rw [hslot] at hset ⊢
        have hopened : opened = value := Except.ok.inj (hset.symm.trans (set_get hset hpresent))
        simp [hset, hopened, Except.toOption]

/-- What was written along a chain is read along it. -/
theorem follow_of_put {value written new : Value} {keys : List String}
    (h : value.put keys new = .ok written) : written.follow keys = new := by
  induction keys generalizing value written with
  | nil => exact (Except.ok.inj h).symm
  | cons key rest ih =>
    obtain ⟨inner, hinner, hset⟩ := put_cons_eq_ok.mp h
    change (written.get key).follow rest = new
    rw [get_of_set hset]
    exact ih hinner

/-- Whether a chain can be written does not depend on the new value. -/
theorem exists_put {value written first : Value} {keys : List String} (second : Value)
    (h : value.put keys first = .ok written) : ∃ other, value.put keys second = .ok other := by
  induction keys generalizing value written with
  | nil => exact ⟨second, rfl⟩
  | cons key rest ih =>
    obtain ⟨inner, hinner, hset⟩ := put_cons_eq_ok.mp h
    obtain ⟨inner', hinner'⟩ := ih hinner
    obtain ⟨other, hother⟩ := exists_set inner' hset
    exact ⟨other, put_cons_eq_ok.mpr ⟨inner', hinner', hother⟩⟩

/-- The second of two writes along one chain wins. -/
theorem put_put {value written first : Value} {keys : List String} (second : Value)
    (h : value.put keys first = .ok written) : written.put keys second = value.put keys second := by
  induction keys generalizing value written with
  | nil => rfl
  | cons key rest ih =>
    obtain ⟨inner, hinner, hset⟩ := put_cons_eq_ok.mp h
    obtain ⟨other, hother⟩ := exists_put second h
    obtain ⟨inner', hinner', hset'⟩ := put_cons_eq_ok.mp hother
    rw [hother]
    refine put_cons_eq_ok.mpr ⟨inner', ?_, ?_⟩
    · rw [get_of_set hset, ih hinner, hinner']
    · rw [set_set inner' hset, hset']

/-- A write along a chain leaves every other chain alone that turns off somewhere, but for the
length of an array that it made longer. -/
theorem follow_of_put_of_ne {value written new : Value} {shared rest more : List String}
    {key other : String} (h : value.put (shared ++ key :: rest) new = .ok written)
    (hne : other ≠ key) :
    written.follow (shared ++ other :: more) = value.follow (shared ++ other :: more) ∨
      (other = "length" ∧ more = []) ∧ (value.follow shared).GrewTo (written.follow shared) := by
  induction shared generalizing value written with
  | nil =>
    obtain ⟨inner, -, hset⟩ := put_cons_eq_ok.mp h
    change (written.get other).follow more = (value.get other).follow more ∨ _
    rcases get_of_set_of_ne hset hne with hsame | ⟨rfl, hgrew⟩
    · exact .inl (by rw [hsame])
    · cases more with
      | nil => exact .inr ⟨⟨rfl, rfl⟩, hgrew⟩
      | cons next more =>
        -- A length is a number, below which nothing is read before or after.
        obtain ⟨items, grown, rfl, rfl, -⟩ := hgrew
        left
        change Value.undefined.follow more = Value.undefined.follow more
        rfl
  | cons first shared ih =>
    obtain ⟨inner, hinner, hset⟩ := put_cons_eq_ok.mp h
    have hfirst : written.get first = inner := get_of_set hset
    change (written.get first).follow _ = _ ∨ _ ∧ GrewTo _ ((written.get first).follow shared)
    rw [hfirst]
    exact ih hinner

end Value

end TemplateExpr
