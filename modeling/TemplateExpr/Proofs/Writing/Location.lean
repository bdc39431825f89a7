import TemplateExpr.Proofs.Evaluation.Comparison
import TemplateExpr.Proofs.Writing.Chain

/-!
# Laws of a write at a location

What a write does to the environment. It is all or nothing, it is read back at its location, it
leaves all other chains from the same root and the other one of scope and locals alone, and a second
write at its location makes it as if it had not been. A name begins its own chain, so a write must
also not change which of scope and locals a name is looked up in.
-/

namespace TemplateExpr

variable {σ : Type}

namespace Value

/-- What was written is a property. -/
theorem has_of_set {value written new : Value} {key : String}
    (h : value.set key new = .ok written) : written.has key = true := by
  cases value with
  | undefined | null =>
    cases h
    simp [has, property?, Fields.get?_cons]
  | object fields =>
    cases h
    simp [has, property?]
  | array items =>
    obtain ⟨index, grown, hplace, rfl⟩ := set_array_eq_ok.mp h
    obtain ⟨hindex, hinside⟩ := inside_of_arrayPlace hplace
    have hlength : key ≠ "length" := by
      rintro rfl
      simp [arrayIndex?_length] at hindex
    simp [has, property?, hlength, hindex, hinside]
  | _ => simp [set] at h

/-- Writing a property that is there neither makes nor removes another one. -/
theorem has_of_set_of_ne {value written new : Value} {key other : String}
    (h : value.set key new = .ok written) (hpresent : value.has key = true) (hne : other ≠ key) :
    written.has other = value.has other := by
  cases value with
  | object fields =>
    cases h
    simp [has, property?, Fields.get?_insert_of_ne fields hne]
  | array items =>
    obtain ⟨index, grown, hplace, rfl⟩ := set_array_eq_ok.mp h
    obtain ⟨hindex, -, rfl⟩ := arrayPlace_eq_ok.mp hplace
    have hlength : key ≠ "length" := by
      rintro rfl
      simp [arrayIndex?_length] at hindex
    have hinside : index < items.length := by
      simpa [has, property?, hlength, hindex] using hpresent
    have hnone : index + 1 - items.length = 0 := by omega
    simp only [has, property?, hnone, List.replicate_zero, List.append_nil]
    split
    · rfl
    · cases arrayIndex? other with
      | none => rfl
      | some place =>
        simp only [Option.bind_some, List.getElem?_set]
        split
        case isTrue hplace => simp [← hplace, hinside]
        case isFalse => rfl
  | _ => simp [has, property?, set] at h hpresent

end Value

namespace Environment

/-- Putting at a place what is there changes nothing. -/
theorem setBase_base (env : Environment σ) (place : Place) :
    env.setBase place (env.base place) = env := by
  obtain ⟨scope, locals, memory⟩ := env
  cases place with
  | holder name =>
    cases locals with
    | none => rfl
    | some locals =>
      by_cases hhas : locals.has name = true <;> simp [setBase, base, shadows, hhas]
  | scope => rfl
  | locals => cases locals <;> rfl
  | temporary value => rfl

/-- The environment with a new value at a location, if each container on the way can hold its
key. -/
def put (env : Environment σ) (location : Location) (new : Value) :
    Except TypeFault (Environment σ) := do
  return env.setBase location.place (← (env.base location.place).put location.keys new)

/-- A write changes the value at the place of the location. -/
theorem put_eq_ok {env after : Environment σ} {location : Location} {new : Value} :
    env.put location new = .ok after ↔
      ∃ written, (env.base location.place).put location.keys new = .ok written ∧
        env.setBase location.place written = after := by
  simp only [put, bind_eq_ok, pure_eq_ok]

/-- A write in the environment is all or nothing. -/
theorem write_eq_put (env : Environment σ) (place : Place) (key : String) (rest : List String)
    (new : Value) :
    env.write place key rest new = match env.put ⟨place, key :: rest⟩ new with
      | .ok after => (after, .ok ())
      | .error fault => (env, .error fault) := by
  simp only [write, put, Value.write_eq_put]
  cases (env.base place).put (key :: rest) new with
  | ok written => rfl
  | error fault => simp only [setBase_base]; rfl

end Environment

/-- A write either puts the new value at its location and gives it back, or it fails and leaves the
environment as it was. -/
theorem Run.write_apply (source : String) (location : Location) (value : Value)
    (env : Environment σ) :
    Run.write source location value env =
      if location.keys = [] then (.error (.notAssignable source), env)
      else match env.put location value with
        | .ok after => (.ok value, after)
        | .error fault => (.error (.type fault), env) := by
  obtain ⟨place, keys⟩ := location
  cases keys with
  | nil => rfl
  | cons key rest =>
    simp only [Run.write, Run.bind_apply, Run.get_apply, Run.set_apply, Environment.write_eq_put,
      reduceCtorEq, if_false]
    cases env.put ⟨place, key :: rest⟩ value <;> rfl

/-- A write succeeds if the location has keys and can be written. -/
theorem Run.write_eq_ok {source : String} {location : Location} {value result : Value}
    {env after : Environment σ} :
    Run.write source location value env = (.ok result, after) ↔
      location.keys ≠ [] ∧ value = result ∧ env.put location value = .ok after := by
  rw [Run.write_apply]
  by_cases hkeys : location.keys = []
  · rw [if_pos hkeys]
    constructor
    · intro h
      cases h
    · rintro ⟨h, -⟩
      exact absurd hkeys h
  · rw [if_neg hkeys]
    cases env.put location value with
    | ok written =>
      constructor
      · intro h
        cases h
        exact ⟨hkeys, rfl, rfl⟩
      · rintro ⟨-, rfl, h⟩
        cases h
        rfl
    | error fault =>
      constructor
      · intro h
        cases h
      · rintro ⟨-, -, h⟩
        cases h

/-- Writes agree if the new value is put at the location on both sides, or on neither and for the
same reason. -/
theorem Comparison.Agrees.write_of_put {comparison : Comparison σ} {location : Location}
    {new : Value}
    (h : ∀ env env', comparison.related env env' →
      (∃ fault, env.put location new = .error fault ∧ env'.put location new = .error fault) ∨
      ∃ after after', env.put location new = .ok after ∧ env'.put location new = .ok after' ∧
        comparison.related after after') :
    comparison.Agrees (Run.write comparison.source location new)
      (Run.write comparison.source' location new) := by
  intro env env' henv
  rw [Run.write_apply, Run.write_apply]
  by_cases hkeys : location.keys = []
  · rw [if_pos hkeys, if_pos hkeys]
    exact ⟨.error fun hsource => by rw [hsource], henv⟩
  · rw [if_neg hkeys, if_neg hkeys]
    rcases h env env' henv with ⟨fault, hput, hput'⟩ | ⟨after, after', hput, hput', hafter⟩
    · rw [hput, hput']
      exact ⟨.error fun _ => rfl, henv⟩
    · rw [hput, hput']
      exact ⟨.ok new, hafter⟩

/-- A write to what the environment does not hold changes nothing. -/
theorem Comparison.Agrees.write_temporary {comparison : Comparison σ} (value : Value)
    (keys : List String) (new : Value) :
    comparison.Agrees (Run.write comparison.source ⟨.temporary value, keys⟩ new)
      (Run.write comparison.source' ⟨.temporary value, keys⟩ new) := by
  refine .write_of_put fun env env' henv => ?_
  have hput (env : Environment σ) :
      env.put ⟨.temporary value, keys⟩ new = (value.put keys new).map fun _ => env := rfl
  rw [hput, hput]
  cases value.put keys new with
  | error fault => exact .inl ⟨fault, rfl, rfl⟩
  | ok written => exact .inr ⟨env, env', rfl, rfl, henv⟩

namespace Location

/-- Whether a location is in the environment. A chain from a name begins with the name, and a chain
from the locals needs locals. -/
def IsStored (env : Environment σ) : Location → Prop
  | ⟨.holder name, keys⟩ => keys.head? = some name
  | ⟨.scope, _⟩ => True
  | ⟨.locals, _⟩ => env.locals.isSome = true
  | ⟨.temporary _, _⟩ => False

/-- The location of another chain of keys from the same root. A name is itself a key of what holds
it, so from there all names are reached. -/
def along : Location → List String → Location
  | ⟨.holder _, _⟩, name :: rest => ⟨.holder name, name :: rest⟩
  | ⟨place, _⟩, keys => ⟨place, keys⟩

end Location

namespace Environment

/-- Whether a place is in the locals. -/
def isInLocals (env : Environment σ) : Place → Bool
  | .holder name => env.shadows name
  | .locals => true
  | .scope | .temporary _ => false

/-- What is not at the place stays as it is. -/
theorem setBase_other (env : Environment σ) (place : Place) (value : Value) :
    (if env.isInLocals place then (env.setBase place value).scope = env.scope
      else (env.setBase place value).locals = env.locals) ∧
    (env.setBase place value).memory = env.memory := by
  cases place with
  | holder name =>
    by_cases hshadows : env.shadows name = true <;> simp [isInLocals, setBase, hshadows]
  | scope | locals | temporary => simp [isInLocals, setBase]

/-- Writing under a name keeps every name resolved against the same one of scope and locals. -/
theorem shadows_setBase {env : Environment σ} {name : String} {new written : Value}
    (h : (env.base (.holder name)).set name new = .ok written) (other : String) :
    (env.setBase (.holder name) written).shadows other = env.shadows other := by
  obtain ⟨scope, locals, memory⟩ := env
  cases locals with
  | none => rfl
  | some locals =>
    by_cases hname : locals.has name = true
    · simp only [base, shadows, Option.any_some, hname, if_true, Option.getD_some] at h
      simp only [setBase, shadows, Option.any_some, hname, if_true]
      by_cases hother : other = name
      · rw [hother, hname, Value.has_of_set h]
      · exact Value.has_of_set_of_ne h hname hother
    · simp [setBase, shadows, hname]

/-- A write below a name keeps every name resolved against the same one of scope and locals. -/
theorem shadows_setBase_of_put {env : Environment σ} {name : String} {rest : List String}
    {new written : Value} (h : (env.base (.holder name)).put (name :: rest) new = .ok written)
    (other : String) : (env.setBase (.holder name) written).shadows other = env.shadows other := by
  obtain ⟨inner, -, hset⟩ := Value.put_cons_eq_ok.mp h
  exact shadows_setBase hset other

/-- Two names that resolve alike are held by the same value. -/
theorem base_holder_congr {env : Environment σ} {name other : String}
    (h : env.shadows name = env.shadows other) :
    env.base (.holder name) = env.base (.holder other) := by
  simp [base, h]

section Laws

variable {env after : Environment σ} {location : Location} {new : Value}

/-- After a write the place of the location holds what was made of it. -/
theorem base_setBase {written : Value} (hstored : location.IsStored env)
    (h : (env.base location.place).put location.keys new = .ok written) :
    (env.setBase location.place written).base location.place = written := by
  obtain ⟨place, keys⟩ := location
  cases place with
  | holder name =>
    obtain ⟨rest, rfl⟩ := List.head?_eq_some_iff.mp hstored
    have hsame := shadows_setBase_of_put h name
    rw [base, hsame]
    by_cases hshadows : env.shadows name = true <;> simp [setBase, hshadows]
  | scope => rfl
  | locals =>
    obtain ⟨locals, hlocals⟩ := Option.isSome_iff_exists.mp hstored
    simp [base, setBase, hlocals]
  | temporary => exact hstored.elim

/-- After a write a second one to the same place leaves nothing of it. -/
theorem setBase_setBase {written : Value} (hstored : location.IsStored env)
    (h : (env.base location.place).put location.keys new = .ok written) (value : Value) :
    (env.setBase location.place written).setBase location.place value =
      env.setBase location.place value := by
  obtain ⟨place, keys⟩ := location
  cases place with
  | holder name =>
    obtain ⟨rest, rfl⟩ := List.head?_eq_some_iff.mp hstored
    have hsame := shadows_setBase_of_put h name
    rw [setBase, hsame]
    by_cases hshadows : env.shadows name = true <;> simp [setBase, hshadows]
  | scope => rfl
  | locals => cases hlocals : env.locals <;> simp [setBase, hlocals]
  | temporary => rfl

/-- What was written at a location is read there. -/
theorem read_of_put (hstored : location.IsStored env) (h : env.put location new = .ok after) :
    after.read location = new := by
  obtain ⟨written, hwritten, rfl⟩ := put_eq_ok.mp h
  rw [read, base_setBase hstored hwritten]
  exact Value.follow_of_put hwritten

/-- Whether a location can be written does not depend on the new value. -/
theorem exists_put (second : Value) (h : env.put location new = .ok after) :
    ∃ other, env.put location second = .ok other := by
  obtain ⟨written, hwritten, -⟩ := put_eq_ok.mp h
  obtain ⟨other, hother⟩ := Value.exists_put second hwritten
  exact ⟨_, put_eq_ok.mpr ⟨other, hother, rfl⟩⟩

/-- The second of two writes at one location wins. -/
theorem put_put (second : Value) (hstored : location.IsStored env)
    (h : env.put location new = .ok after) :
    after.put location second = env.put location second := by
  obtain ⟨written, hwritten, rfl⟩ := put_eq_ok.mp h
  simp only [put, base_setBase hstored hwritten, setBase_setBase hstored hwritten,
    Value.put_put second hwritten]

/-- A write at a location leaves every other chain from the same root alone that turns off
somewhere, but for the length of an array that it made longer. -/
theorem read_of_put_of_ne {shared rest more : List String} {key other : String}
    (hstored : location.IsStored env) (h : env.put location new = .ok after)
    (hkeys : location.keys = shared ++ key :: rest) (hne : other ≠ key) :
    after.read (location.along (shared ++ other :: more)) =
        env.read (location.along (shared ++ other :: more)) ∨
      (other = "length" ∧ more = []) ∧
        (env.read (location.along shared)).GrewTo (after.read (location.along shared)) := by
  obtain ⟨written, hwritten, rfl⟩ := put_eq_ok.mp h
  have hbase := base_setBase hstored hwritten
  rw [hkeys] at hwritten
  have hframe : written.follow (shared ++ other :: more) =
        (env.base location.place).follow (shared ++ other :: more) ∨
      (other = "length" ∧ more = []) ∧
        ((env.base location.place).follow shared).GrewTo (written.follow shared) :=
    Value.follow_of_put_of_ne hwritten hne
  obtain ⟨place, keys⟩ := location
  subst hkeys
  cases place with
  | holder name =>
    cases shared with
    | nil =>
      -- The other chain begins with another name, which may be held by the other context.
      obtain rfl : key = name := Option.some.inj hstored
      have hshadows := shadows_setBase_of_put hwritten
      by_cases hsame : env.shadows other = env.shadows key
      · have hbefore := base_holder_congr hsame
        have hafter : (env.setBase (.holder key) written).base (.holder other) =
            (env.setBase (.holder key) written).base (.holder key) :=
          base_holder_congr (((hshadows other).trans hsame).trans (hshadows key).symm)
        simp only [Location.along, List.nil_append, read, hbefore, hafter, hbase]
        exact hframe
      · left
        simp only [Location.along, List.nil_append, read, base, hshadows other]
        cases hkey : env.shadows key <;> simp_all [setBase]
    | cons first shared =>
      obtain rfl : first = name := Option.some.inj hstored
      simp only [Location.along, List.cons_append, read, hbase]
      exact hframe
  | scope | locals =>
    simp only [Location.along, read, hbase]
    exact hframe
  | temporary => exact hstored.elim

end Laws

end Environment

end TemplateExpr
