import Mathlib.Data.List.Dedup
import TemplateExpr.Cache

/-!
# What a cache holds

A cache holds each key once, and under it what compiling the key gives. Compiling through the cache
keeps this. It fails exactly where compiling fails, leaves what is there in place, and adds an entry
only for a key that has none.
-/

namespace TemplateExpr

variable {σ : Type}

/-- What a cache tells entries apart by: the source as it was given, and how it was compiled. -/
abbrev CacheKey := String × Bool

/-- The key of an entry. -/
def CacheEntry.key (entry : CacheEntry σ) : CacheKey := (entry.source, entry.isolated)

namespace Cache

/-- Entries with different keys, each with what compiling its key gives. -/
structure Compiled (resolver : Resolver σ) (options : Options) (entries : List (CacheEntry σ)) :
    Prop where
  nodup : (entries.map CacheEntry.key).Nodup
  evaluator : ∀ entry ∈ entries,
    Evaluator.ofSource resolver options entry.source entry.isolated = .ok entry.evaluator

/-- Nothing is compiled in an empty cache. -/
theorem Compiled.nil (resolver : Resolver σ) (options : Options) : Compiled resolver options [] :=
  ⟨.nil, by simp⟩

/-- What is found is the entry of the key, by its number. -/
theorem find?_eq_some {source : String} {isolated : Bool} {number : Nat}
    {entries : List (CacheEntry σ)} {found : Instance σ}
    (h : find? source isolated number entries = some found) :
    ∃ index, found.number = number + index ∧
      entries[index]? = some ⟨source, isolated, found.evaluator⟩ := by
  induction entries generalizing number with
  | nil => simp [find?] at h
  | cons entry rest ih =>
    simp only [find?] at h
    split at h
    case isTrue hkey =>
      simp only [Bool.and_eq_true, decide_eq_true_eq] at hkey
      obtain ⟨rfl, rfl⟩ := hkey
      cases h
      exact ⟨0, rfl, rfl⟩
    case isFalse =>
      obtain ⟨index, hnumber, hentry⟩ := ih h
      exact ⟨index + 1, by omega, hentry⟩

/-- Nothing is found exactly if no entry has the key. -/
theorem find?_eq_none {source : String} {isolated : Bool} {number : Nat}
    {entries : List (CacheEntry σ)} :
    find? source isolated number entries = none ↔
      (source, isolated) ∉ entries.map CacheEntry.key := by
  induction entries generalizing number with
  | nil => simp [find?]
  | cons entry rest ih =>
    simp only [find?, List.map_cons, List.mem_cons, not_or]
    split
    case isTrue hkey =>
      simp only [Bool.and_eq_true, decide_eq_true_eq] at hkey
      simp [CacheEntry.key, hkey]
    case isFalse hkey =>
      have hne : ¬(source, isolated) = entry.key := by
        intro hequal
        obtain ⟨rfl, rfl⟩ := Prod.mk.inj hequal
        simp at hkey
      rw [ih, and_iff_right hne]

/-- How compiling through a cache can go: it fails and leaves the cache as it is, it gives what is
there already, or it adds one entry under a new key. -/
theorem compile_cases {cache : Cache σ} (h : Compiled cache.resolver cache.options cache.entries)
    (source : String) (isolated : Bool) :
    (∃ error, Evaluator.ofSource cache.resolver cache.options source isolated = .error error ∧
      cache.compile source isolated = (.error error, cache)) ∨
    ∃ number evaluator entries,
      Evaluator.ofSource cache.resolver cache.options source isolated = .ok evaluator ∧
      cache.compile source isolated = (.ok ⟨number, evaluator⟩, { cache with entries }) ∧
      entries[number]? = some ⟨source, isolated, evaluator⟩ ∧
      (entries = cache.entries ∨
        entries = cache.entries ++ [⟨source, isolated, evaluator⟩] ∧
          (source, isolated) ∉ cache.entries.map CacheEntry.key) := by
  unfold compile
  cases hfind : find? source isolated 0 cache.entries with
  | some found =>
    obtain ⟨index, hnumber, hentry⟩ := find?_eq_some hfind
    rw [Nat.zero_add] at hnumber
    rw [← hnumber] at hentry
    have hcompiled := h.evaluator _ (List.mem_of_getElem? hentry)
    exact .inr ⟨found.number, found.evaluator, cache.entries, hcompiled, rfl, hentry, .inl rfl⟩
  | none =>
    cases hcompiled : Evaluator.ofSource cache.resolver cache.options source isolated with
    | error error => exact .inl ⟨error, rfl, rfl⟩
    | ok evaluator =>
      refine .inr ⟨cache.entries.length, evaluator,
        cache.entries ++ [⟨source, isolated, evaluator⟩], rfl, rfl, ?_, .inr ⟨rfl, ?_⟩⟩
      · simp
      · exact find?_eq_none.mp hfind

/-- A new entry with what compiling its key gives. -/
theorem Compiled.append {resolver : Resolver σ} {options : Options} {entries : List (CacheEntry σ)}
    (h : Compiled resolver options entries) {entry : CacheEntry σ}
    (hnew : entry.key ∉ entries.map CacheEntry.key)
    (hentry : Evaluator.ofSource resolver options entry.source entry.isolated =
      .ok entry.evaluator) : Compiled resolver options (entries ++ [entry]) where
  nodup := by
    rw [List.map_append]
    exact List.nodup_append.mpr ⟨h.nodup, List.nodup_singleton _, by grind⟩
  evaluator := by
    simp only [List.forall_mem_append, List.forall_mem_singleton]
    exact ⟨h.evaluator, hentry⟩

/-- Two numbers are those of entries with one key exactly if they are equal. -/
theorem Compiled.number_eq_iff {resolver : Resolver σ} {options : Options}
    {entries : List (CacheEntry σ)} (h : Compiled resolver options entries) {number number' : Nat}
    {entry entry' : CacheEntry σ} (hentry : entries[number]? = some entry)
    (hentry' : entries[number']? = some entry') : number = number' ↔ entry.key = entry'.key := by
  constructor
  · rintro rfl
    rw [hentry] at hentry'
    rw [Option.some.inj hentry']
  · intro hkey
    obtain ⟨hnumber, -⟩ := List.getElem?_eq_some_iff.mp hentry
    refine (List.getElem?_inj (by rwa [List.length_map]) h.nodup).mp ?_
    rw [List.getElem?_map, List.getElem?_map, hentry, hentry']
    exact congrArg some hkey

end Cache

end TemplateExpr
