import Mathlib.Logic.Function.Basic

/-!
# Caches of a table

A cache keeps entries of a table that were valid when they were looked up.  It
is told when to drop them, and knows nothing about later writes to the table.
-/

namespace TranslationCache

variable {Page Entry : Type*}

/-- The cached entry of each page. -/
abbrev Cache (Page Entry : Type*) := Page → Option Entry

def empty : Cache Page Entry := fun _ => none

section Operations

variable [DecidableEq Page]

/-- A miss on a valid entry fills the cache; a hit leaves it as it is. -/
def access (valid : Entry → Bool) (table : Page → Entry)
    (cache : Cache Page Entry) (page : Page) : Cache Page Entry :=
  if cache page = none ∧ valid (table page) = true then
    Function.update cache page (some (table page))
  else cache

def accessAll (valid : Entry → Bool) (table : Page → Entry)
    (cache : Cache Page Entry) (pages : List Page) : Cache Page Entry :=
  pages.foldl (access valid table) cache

def drop (cache : Cache Page Entry) (page : Page) : Cache Page Entry :=
  Function.update cache page none

def dropAll (cache : Cache Page Entry) (pages : List Page) :
    Cache Page Entry :=
  pages.foldl drop cache

theorem dropAll_apply (cache : Cache Page Entry) (pages : List Page)
    (page : Page) :
    dropAll cache pages page = if page ∈ pages then none else cache page := by
  induction pages generalizing cache with
  | nil => simp [dropAll]
  | cons first rest ih =>
      have hstep : dropAll cache (first :: rest) page =
          dropAll (drop cache first) rest page := rfl
      rw [hstep, ih]
      by_cases hrest : page ∈ rest
      · simp [hrest]
      · by_cases hfirst : page = first
        · subst hfirst
          simp [hrest, drop]
        · simp [hrest, hfirst, drop]

end Operations

/-- Every cached entry is the entry of the table, and valid. -/
def Coherent (valid : Entry → Bool) (table : Page → Entry)
    (cache : Cache Page Entry) : Prop :=
  ∀ page entry, cache page = some entry →
    table page = entry ∧ valid entry = true

namespace Coherent

variable {valid : Entry → Bool} {table table' : Page → Entry}
  {cache : Cache Page Entry}

theorem of_empty : Coherent valid table empty := by
  intro page entry h
  cases h

/-- A table may change where nothing is cached. -/
theorem rewrite (h : Coherent valid table cache)
    (hsame : ∀ page, cache page ≠ none → table' page = table page) :
    Coherent valid table' cache := by
  intro page entry hcached
  obtain ⟨hentry, hvalid⟩ := h page entry hcached
  have hne : cache page ≠ none := by
    rw [hcached]
    exact Option.some_ne_none entry
  exact ⟨(hsame page hne).trans hentry, hvalid⟩

/-- What is cached was valid, so other entries may be replaced. -/
theorem grow (h : Coherent valid table cache)
    (hsame : ∀ page, valid (table page) = true → table' page = table page) :
    Coherent valid table' cache := by
  refine h.rewrite fun page hne => hsame page ?_
  obtain ⟨entry, hcached⟩ := Option.ne_none_iff_exists'.1 hne
  obtain ⟨hentry, hvalid⟩ := h page entry hcached
  rw [hentry, hvalid]

variable [DecidableEq Page]

theorem access (h : Coherent valid table cache) (page : Page) :
    Coherent valid table (access valid table cache page) := by
  unfold TranslationCache.access
  split
  · rename_i hmiss
    intro page' entry hcached
    by_cases heq : page' = page
    · subst heq
      rw [Function.update_self, Option.some.injEq] at hcached
      subst hcached
      exact ⟨rfl, hmiss.2⟩
    · rw [Function.update_of_ne heq] at hcached
      exact h page' entry hcached
  · exact h

theorem accessAll (h : Coherent valid table cache) (pages : List Page) :
    Coherent valid table (accessAll valid table cache pages) := by
  induction pages generalizing cache with
  | nil => exact h
  | cons page rest ih => exact ih (h.access page)

/-- The pages that are dropped may be written. -/
theorem dropAll (h : Coherent valid table cache) (pages : List Page)
    (hsame : ∀ page, page ∉ pages → table' page = table page) :
    Coherent valid table' (dropAll cache pages) := by
  intro page entry hcached
  rw [dropAll_apply] at hcached
  split at hcached
  · cases hcached
  · rename_i hkept
    obtain ⟨hentry, hvalid⟩ := h page entry hcached
    exact ⟨(hsame page hkept).trans hentry, hvalid⟩

end Coherent

end TranslationCache
