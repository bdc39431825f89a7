import Mathlib.Data.List.Forall2
import TemplateExpr.Proofs.Values.Address
import TemplateExpr.Proofs.Writing.Location

/-!
# How much a write adds to arrays

A write may pass through any number of arrays, and each of them is made long enough for its key. Still at
most one of them becomes longer: its new places hold undefined, so what stands behind the one that is
written to is made anew, from objects alone. The limit on one step is therefore the limit on all of them
together.

Places are compared before and after. Those at and below the place of the new value are left out, as what
stands there was put there.
-/

namespace TemplateExpr

variable {σ : Type}

namespace Value

/-- Whether a key of a chain means a step: it spells the index, or it is the name. -/
def Step.IsSpelledBy : Step → String → Prop
  | .item index, key => arrayIndex? key = some index
  | .field name, key => name = key

/-- The number of places of an array. -/
def size? : Value → Option Nat
  | .array items => some items.length
  | _ => none

/-- The number of places of the array at some place, if there is an array. -/
def sizeAt? (value : Value) (address : List Step) : Option Nat := (value.at? address).bind size?

/-- Whether an array was made longer for a place past its end: up to that place, by no more than a write
may add, and with undefined before it. -/
structure Padded (items padded : List Value) (index : Nat) : Prop where
  outside : items.length ≤ index
  length : padded.length = index + 1
  bounded : padded.length ≤ items.length + maxArrayGrowth
  undefined : ∀ place, items.length ≤ place → place < index → padded[place]? = some .undefined

/-- Whether there is an array at some place that was made longer, for a place on the way to the
target. -/
def GrewAt (value written : Value) (target address : List Step) : Prop :=
  ∃ items padded index, value.at? address = some (.array items) ∧
    written.at? address = some (.array padded) ∧ Padded items padded index ∧
    address ++ [.item index] <+: target

/-- What is done to a value when a new one is put right inside: the other places are as they were, and if
the value is an array, it has as many of them as before or was made longer. -/
structure PutInside (value : Value) (step : Step) (new written : Value) : Prop where
  inner : written.inner? step = some new
  others : ∀ other ≠ step,
    (written.inner? other).getD .undefined = (value.inner? other).getD .undefined
  size : written.size? = value.size? ∨ ∃ items padded index, step = .item index ∧
    value = .array items ∧ written = .array padded ∧ Padded items padded index

variable {value written new : Value} {items : List Value} {key : String} {keys : List String}
  {step : Step} {address rest : List Step}

section Places

/-- No step leads on from undefined. -/
theorem sizeAt?_undefined (address : List Step) : Value.undefined.sizeAt? address = none := by
  cases address <;> rfl

/-- The sizes of what is inside are those seen from the value right inside. -/
theorem sizeAt?_cons (value : Value) (step : Step) (rest : List Step) :
    value.sizeAt? (step :: rest) = ((value.inner? step).getD .undefined).sizeAt? rest := by
  rw [sizeAt?, at?_cons]
  cases value.inner? step with
  | none => exact (sizeAt?_undefined rest).symm
  | some inner => rfl

/-- The arrays inside are those seen from the value right inside. -/
theorem at?_cons_eq_array :
    value.at? (step :: rest) = some (.array items) ↔
      ((value.inner? step).getD .undefined).at? rest = some (.array items) := by
  rw [at?_cons]
  cases value.inner? step with
  | none => cases rest <;> simp [at?, inner?]
  | some inner => rfl

/-- There is no array at a place that undefined does not have. -/
theorem not_grewAt_undefined {target : List Step} : ¬ Value.undefined.GrewAt written target address := by
  rintro ⟨items, padded, index, hbefore, -⟩
  cases address with
  | nil => cases hbefore
  | cons step rest => cases hbefore

end Places

section Steps

/-- An array is made longer than the places it has if the one that is written is not among them. -/
theorem padded_of_arrayPlace {grown : List Value} {index : Nat}
    (h : arrayPlace items key = .ok (index, grown)) (houtside : items.length ≤ index) (new : Value) :
    Padded items (grown.set index new) index := by
  obtain ⟨-, hnear, rfl⟩ := arrayPlace_eq_ok.mp h
  have hlength :
      ((items ++ List.replicate (index + 1 - items.length) Value.undefined).set index new).length =
        index + 1 := by
    rw [List.length_set, List.length_append, List.length_replicate]
    omega
  refine ⟨houtside, hlength, by omega, fun place hnew hplace => ?_⟩
  rw [List.getElem?_set_ne (by omega), List.getElem?_append_right hnew,
    List.getElem?_replicate_of_lt (by omega)]

/-- Writing a property puts the new value at a place that the key means. -/
theorem exists_step_of_set (h : value.set key new = .ok written) :
    ∃ step : Step, step.IsSpelledBy key ∧ value.get key = (value.inner? step).getD .undefined ∧
      value.PutInside step new written := by
  cases value with
  | undefined | null =>
    cases h
    refine ⟨.field key, rfl, rfl, ⟨?_, ?_, .inl rfl⟩⟩
    · simp [inner?, Fields.get?_cons]
    · rintro (index | name) hne
      · rfl
      · have hname : name ≠ key := fun h => hne (congrArg Step.field h)
        simp [inner?, Fields.get?_cons, hname]
  | object fields =>
    cases h
    refine ⟨.field key, rfl, rfl, ⟨Fields.get?_insert_self fields key new, ?_, .inl rfl⟩⟩
    rintro (index | name) hne
    · rfl
    · have hname : name ≠ key := fun h => hne (congrArg Step.field h)
      rw [inner?, inner?, Fields.get?_insert_of_ne fields hname]
  | array items =>
    obtain ⟨index, grown, hplace, rfl⟩ := set_array_eq_ok.mp h
    obtain ⟨hindex, hinside⟩ := inside_of_arrayPlace hplace
    have hlength : key ≠ "length" := by
      rintro rfl
      simp [arrayIndex?_length] at hindex
    have hget : (array items).get key = (items[index]?).getD .undefined := by
      simp [get, property?, hlength, hindex]
    refine ⟨.item index, hindex, hget, ⟨?_, ?_, ?_⟩⟩
    · rw [inner?, List.getElem?_set_self hinside]
    · obtain ⟨-, -, rfl⟩ := arrayPlace_eq_ok.mp hplace
      rintro (other | name) hne
      · have hother : index ≠ other := fun h => hne (congrArg Step.item h.symm)
        rw [inner?, inner?, List.getElem?_set_ne hother, getD_append_undefined]
      · rfl
    · by_cases houtside : items.length ≤ index
      · exact .inr ⟨items, _, index, rfl, rfl, rfl, padded_of_arrayPlace hplace houtside new⟩
      · obtain ⟨-, -, rfl⟩ := arrayPlace_eq_ok.mp hplace
        have hnone : index + 1 - items.length = 0 := by omega
        simp [size?, hnone]
  | _ => simp [set] at h

/-- What grew right inside grew inside. -/
theorem GrewAt.cons {inner : Value} {target : List Step} (hinner : written.inner? step = some inner)
    (h : ((value.inner? step).getD .undefined).GrewAt inner target address) :
    value.GrewAt written (step :: target) (step :: address) := by
  obtain ⟨items, padded, index, hbefore, hafter, hpadded, hprefix⟩ := h
  refine ⟨items, padded, index, at?_cons_eq_array.mpr hbefore, ?_, hpadded,
    List.cons_prefix_cons.mpr ⟨rfl, hprefix⟩⟩
  rw [at?_cons_eq_array, hinner]
  exact hafter

end Steps

/-- A write along a chain puts the new value at a place that the keys mean. At most one array grew for
that, and the others have as many places as before. -/
theorem exists_target_of_put (h : value.put keys new = .ok written) :
    ∃ target : List Step, List.Forall₂ Step.IsSpelledBy target keys ∧
      written.at? target = some new ∧
      ∃ grown : Option (List Step), (∀ address ∈ grown, value.GrewAt written target address) ∧
        ∀ address, address ∉ grown → ¬ target <+: address →
          written.sizeAt? address = value.sizeAt? address := by
  induction keys generalizing value written with
  | nil =>
    cases h
    exact ⟨[], .nil, rfl, none, by simp, fun address _ hbelow => absurd List.nil_prefix hbelow⟩
  | cons key rest ih =>
    obtain ⟨inner, hinner, hset⟩ := put_cons_eq_ok.mp h
    obtain ⟨step, hspelled, hget, hput⟩ := exists_step_of_set hset
    obtain ⟨target, htarget, hnew, grown, hgrown, hsame⟩ := ih hinner
    rw [hget] at hgrown hsame
    have hat : written.at? (step :: target) = some new :=
      at?_cons_eq_some.mpr ⟨inner, hput.inner, hnew⟩
    -- What is not in the value itself is either beside the step or seen from right inside.
    have hrest : ∀ other more, ¬ step :: target <+: other :: more →
        (other = step → more ∉ grown) →
        written.sizeAt? (other :: more) = value.sizeAt? (other :: more) := by
      intro other more hbelow hmore
      rw [sizeAt?_cons, sizeAt?_cons]
      by_cases hother : other = step
      · subst hother
        rw [hput.inner, Option.getD_some]
        exact hsame more (hmore rfl) fun hprefix => hbelow (List.cons_prefix_cons.mpr ⟨rfl, hprefix⟩)
      · rw [hput.others other hother]
    refine ⟨step :: target, .cons hspelled htarget, hat, ?_⟩
    obtain hsize | ⟨items, padded, index, rfl, rfl, rfl, hpadded⟩ := hput.size
    · refine ⟨grown.map (step :: ·), ?_, ?_⟩
      · intro address haddress
        obtain ⟨more, hmore, rfl⟩ := Option.map_eq_some_iff.mp haddress
        exact (hgrown more hmore).cons hput.inner
      · intro address haddress hbelow
        cases address with
        | nil => exact hsize
        | cons other more =>
          refine hrest other more hbelow fun hother hmore => haddress ?_
          rw [hother]
          exact Option.map_eq_some_iff.mpr ⟨more, hmore, rfl⟩
    · -- The value is the array that grew. There was nothing at the step, so nothing grew inside.
      have hmissing : ((array items).inner? (.item index)).getD .undefined = .undefined := by
        rw [inner?, List.getElem?_eq_none hpadded.outside, Option.getD_none]
      rw [hmissing] at hgrown
      refine ⟨some [], ?_, ?_⟩
      · rintro address ⟨⟩
        exact ⟨items, padded, index, rfl, rfl, hpadded,
          List.cons_prefix_cons.mpr ⟨rfl, List.nil_prefix⟩⟩
      · intro address haddress hbelow
        cases address with
        | nil => exact absurd rfl haddress
        | cons other more =>
          exact hrest other more hbelow fun _ hmore => not_grewAt_undefined (hgrown more hmore)

end Value

namespace Environment

/-- The values that an environment consists of. -/
inductive Root where
  | scope
  | locals

/-- A place inside one of the values of an environment. -/
structure Site where
  root : Root
  steps : List Value.Step

/-- The scope, or the locals if there are any. -/
def root? (env : Environment σ) : Root → Option Value
  | .scope => some env.scope
  | .locals => env.locals

/-- The value at a place of an environment. -/
def at? (env : Environment σ) (site : Site) : Option Value :=
  (env.root? site.root).bind fun value => value.at? site.steps

/-- The number of places of the array at a place of an environment, if there is an array. -/
def sizeAt? (env : Environment σ) (site : Site) : Option Nat := (env.at? site).bind Value.size?

/-- Which of the values of an environment a place is, if it is in the environment. -/
def rootOf? (env : Environment σ) : Place → Option Root
  | .holder name => some (if env.shadows name then .locals else .scope)
  | .scope => some .scope
  | .locals => env.locals.map fun _ => .locals
  | .temporary _ => none

/-- The environment with one of its values replaced. -/
def setRoot (env : Environment σ) : Root → Value → Environment σ
  | .scope, value => { env with scope := value }
  | .locals, value => { env with locals := some value }

/-- What becomes of the arrays of an environment when a new value is put at the target, if there is one.
At most one of them grew, on the way to the target, and the others have as many places as before, other
than at and below the target. -/
structure Growth (env after : Environment σ) (target grown : Option Site) : Prop where
  longer : ∀ site ∈ grown, ∃ goal ∈ target, ∃ items padded index,
    env.at? site = some (.array items) ∧ after.at? site = some (.array padded) ∧
      Value.Padded items padded index ∧
      site.root = goal.root ∧ site.steps ++ [.item index] <+: goal.steps
  kept : ∀ site, site ∉ grown →
    (∀ goal ∈ target, ¬ (site.root = goal.root ∧ goal.steps <+: site.steps)) →
    after.sizeAt? site = env.sizeAt? site

variable {env : Environment σ} {place : Place} {root other : Root} {value : Value}

/-- A replaced value reads back as the new one. -/
@[simp]
theorem root?_setRoot_self (env : Environment σ) (root : Root) (value : Value) :
    (env.setRoot root value).root? root = some value := by
  cases root <;> rfl

/-- Replacing one value leaves the other alone. -/
theorem root?_setRoot_of_ne (h : other ≠ root) (value : Value) :
    (env.setRoot root value).root? other = env.root? other := by
  cases root <;> cases other <;> first | rfl | exact absurd rfl h

/-- A value that is put at a place outside the environment is lost. -/
theorem setBase_of_rootOf?_eq_none (h : env.rootOf? place = none) (value : Value) :
    env.setBase place value = env := by
  obtain ⟨scope, locals, memory⟩ := env
  cases place with
  | locals =>
    cases locals with
    | none => rfl
    | some locals => cases h
  | temporary => rfl
  | _ => cases h

/-- A place of the environment is one of its values, and a value that is put there replaces it. -/
theorem setBase_of_rootOf?_eq_some (h : env.rootOf? place = some root) (value : Value) :
    env.root? root = some (env.base place) ∧ env.setBase place value = env.setRoot root value := by
  obtain ⟨scope, locals, memory⟩ := env
  cases place with
  | holder name =>
    cases h
    cases locals with
    | none => exact ⟨rfl, rfl⟩
    | some locals => cases hhas : locals.has name <;> simp [shadows, base, setBase, setRoot, root?, hhas]
  | scope =>
    cases h
    exact ⟨rfl, rfl⟩
  | locals =>
    cases locals with
    | none => cases h
    | some locals =>
      cases h
      exact ⟨rfl, rfl⟩
  | temporary => cases h

/-- What stands at a place of one of the values stands there in the environment. -/
theorem at?_of_root? (h : env.root? root = some value) (steps : List Value.Step) :
    env.at? ⟨root, steps⟩ = value.at? steps := by
  rw [at?, h, Option.bind_some]

end Environment

/-- A write that succeeds puts the new value at a place that its keys mean, or what it writes to is not
in the environment, which then stays as it was. At most one array of the environment becomes longer, one
on the way to the place, by at most as many places as a write may add. All of these hold undefined but
for the one on the way. Every other array keeps its length, other than what the new value replaced and
what is inside of it. -/
theorem Run.write_growth {source : String} {location : Location} {new result : Value}
    {env after : Environment σ} (h : Run.write source location new env = (.ok result, after)) :
    ∃ target grown : Option Environment.Site,
      (target = none → after = env) ∧
      (∀ goal ∈ target, List.Forall₂ Value.Step.IsSpelledBy goal.steps location.keys ∧
        after.at? goal = some new) ∧
      env.Growth after target grown := by
  obtain ⟨-, rfl, hput⟩ := write_eq_ok.mp h
  obtain ⟨written, hwritten, rfl⟩ := Environment.put_eq_ok.mp hput
  obtain ⟨steps, hspelled, hnew, grown, hgrown, hkept⟩ := Value.exists_target_of_put hwritten
  cases hroot : env.rootOf? location.place with
  | none =>
    rw [Environment.setBase_of_rootOf?_eq_none hroot]
    exact ⟨none, none, fun _ => rfl, by simp, ⟨by simp, fun _ _ _ => rfl⟩⟩
  | some root =>
    obtain ⟨hbefore, hset⟩ := Environment.setBase_of_rootOf?_eq_some hroot written
    rw [hset]
    have hat := Environment.at?_of_root? hbefore
    have hat' := Environment.at?_of_root? (env.root?_setRoot_self root written)
    refine ⟨some ⟨root, steps⟩, grown.map (⟨root, ·⟩), nofun, ?_, ⟨?_, ?_⟩⟩
    · rintro goal ⟨⟩
      exact ⟨hspelled, (hat' steps).trans hnew⟩
    · intro site hsite
      obtain ⟨address, haddress, rfl⟩ := Option.map_eq_some_iff.mp hsite
      obtain ⟨items, padded, index, hitems, hpadded, hadded, hway⟩ := hgrown address haddress
      exact ⟨⟨root, steps⟩, rfl, items, padded, index, (hat address).trans hitems,
        (hat' address).trans hpadded, hadded, rfl, hway⟩
    · rintro ⟨other, address⟩ hsite hbelow
      by_cases hother : other = root
      · subst hother
        rw [Environment.sizeAt?, Environment.sizeAt?, hat, hat']
        refine hkept address (fun haddress => hsite ?_) fun hprefix => hbelow _ rfl ⟨rfl, hprefix⟩
        exact Option.map_eq_some_iff.mpr ⟨address, haddress, rfl⟩
      · rw [Environment.sizeAt?, Environment.sizeAt?, Environment.at?, Environment.at?,
          Environment.root?_setRoot_of_ne hother]

/-- Two places are added for a write two past the end, and the object behind them is new. -/
theorem Run.write_growth_past_end :
    let env : Environment Unit := ⟨.object [("list", .array [.null])], none, ()⟩
    let after : Environment Unit :=
      ⟨.object [("list", .array [.null, .undefined, .object [("name", .array [])]])], none, ()⟩
    let location : Location := ⟨.scope, ["list", "2", "name"]⟩
    Run.write "list[2].name" location (.array []) env = (.ok (.array []), after) ∧
      ∃ target grown : Option Environment.Site,
        (target = none → after = env) ∧
        (∀ goal ∈ target, List.Forall₂ Value.Step.IsSpelledBy goal.steps location.keys ∧
          after.at? goal = some (.array [])) ∧
        env.Growth after target grown := by
  intro env after location
  have h : Run.write "list[2].name" location (.array []) env = (.ok (.array []), after) := by rfl
  exact ⟨h, write_growth h⟩

end TemplateExpr
