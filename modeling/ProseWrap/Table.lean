/-!
# Small tables

A table is a list of keys with their values, looked up from the front. It
serves where there are few keys. The one law is `get?_set`: setting a key
changes what is found under it and nothing else.
-/

namespace ProseWrap

/-- A table from keys to values. -/
abbrev Table (κ ν : Type) := List (κ × ν)

namespace Table

variable {κ ν : Type} [DecidableEq κ]

/-- The value of a key. -/
def get? (table : Table κ ν) (key : κ) : Option ν := table.lookup key

/-- The table in which a key has a new value. -/
def set (table : Table κ ν) (key : κ) (value : ν) : Table κ ν :=
  (key, value) :: table.filter fun entry => entry.1 ≠ key

/-- Removing one key leaves the others. -/
theorem lookup_filter_ne {key other : κ} (h : other ≠ key) (table : Table κ ν) :
    (table.filter fun entry => entry.1 ≠ key).lookup other = table.lookup other := by
  induction table with
  | nil => rfl
  | cons entry rest ih =>
    obtain ⟨k, v⟩ := entry
    by_cases hk : k = key
    · subst hk
      have hno : (other == k) = false := by simpa using h
      simpa [List.filter_cons, List.lookup_cons, hno] using ih
    · have : decide (k ≠ key) = true := by simpa using hk
      rw [List.filter_cons, this, if_pos rfl, List.lookup_cons, List.lookup_cons, ih]

/-- Setting a key changes what is found under it and nothing else. -/
theorem get?_set (table : Table κ ν) (key other : κ) (value : ν) :
    get? (set table key value) other = if other = key then some value else get? table other := by
  by_cases h : other = key
  · subst h
    simp [get?, set]
  · have hno : (other == key) = false := by simpa using h
    simp only [get?, set, List.lookup_cons, hno, h, if_false]
    exact lookup_filter_ne h table

@[simp] theorem get?_nil (key : κ) : get? ([] : Table κ ν) key = none := rfl

end Table

end ProseWrap
