import ProseWrap.Text.Search

/-!
# Lookups with a memory

`Text.firstPlace` says where a needle is found by looking at every offset, from
the origin up to the end of the text. A plain search goes through the rest of
the text and finds the same place (`indexOf_eq_firstPlace`). A `Finder` answers
from memory if the last lookup of the needle began no later and found nothing
before the new origin; otherwise it searches, and forgets what it knew of the
needle. What it knows is right at each step, so that its answers are those of
the plain search however the origins jump and the needles alternate
(`lookups_eq_firstPlaces`).
-/

namespace ProseWrap.Text

variable {α : Type} [DecidableEq α]

/-- Whether the characters of `text` from offset `k` on begin with `needle`. -/
def standsAt (text needle : List α) (k : Nat) : Bool := slice text k (k + needle.length) == needle

/-- The least offset at which `needle` stands, among those from `origin` up to
the end of `text`. An origin before the text is moved to its start, and one
past the text to its end. -/
def firstPlace (text needle : List α) (origin : Int) : Option Nat :=
  let start := min origin.toNat text.length
  (List.range' start (text.length + 1 - start)).find? (standsAt text needle)

example : firstPlace [1, 2, 1, 2] [2] (-3) = some 1 ∧ firstPlace [1, 2, 1, 2] [1, 2] 1 = some 2 ∧
    firstPlace [1, 2, 1, 2] [1] 3 = none ∧ firstPlace [1, 2, 1, 2] [] 9 = some 4 := by decide

theorem standsAt_eq_isPrefixOf (text needle : List α) (k : Nat) :
    standsAt text needle k = needle.isPrefixOf (text.drop k) := by
  rw [Bool.eq_iff_iff, standsAt, beq_iff_eq, List.isPrefixOf_iff_prefix, List.prefix_iff_eq_take, slice,
    Nat.add_sub_cancel_left]
  exact eq_comm

/-- A search through the rest of a text looks at the offsets from there on, the
end included. -/
theorem searchAt_eq_find? {text rest : List α} (needle : List α) {k : Nat} (hrest : text.drop k = rest) :
    searchAt needle k rest = (List.range' k (rest.length + 1)).find? (standsAt text needle) := by
  induction rest generalizing k with
  | nil =>
    rw [List.length_nil, List.range'_one, List.find?_singleton, standsAt_eq_isPrefixOf, hrest]
    cases needle <;> rfl
  | cons c rest ih =>
    have hnext : text.drop (k + 1) = rest := by rw [← List.drop_drop, hrest, List.drop_one, List.tail_cons]
    rw [searchAt, List.length_cons, List.range'_succ, List.find?_cons, standsAt_eq_isPrefixOf, hrest, ← ih hnext]
    cases needle.isPrefixOf (c :: rest) <;> rfl

theorem indexOf_eq_firstPlace (text needle : List α) (origin : Int) :
    indexOf text needle origin = firstPlace text needle origin := by
  have hle : min origin.toNat text.length ≤ text.length := Nat.min_le_right _ _
  rw [indexOf, firstPlace, searchAt_eq_find? needle rfl, List.length_drop, Nat.sub_add_comm hle]

/-- Whatever a finder remembers, it answers a list of lookups one by one as if
it remembered nothing. -/
theorem Finder.findAll_eq_map {text : List α} (finder : Finder text) (lookups : List (List α × Int)) :
    finder.findAll lookups = lookups.map fun lookup => indexOf text lookup.1 lookup.2 := by
  induction lookups generalizing finder with
  | nil => rfl
  | cons lookup rest ih => rw [findAll, find_fst, ih, List.map_cons]

/-- A finder that is asked for any needles from any origins, in any order,
finds each needle at the first place where it stands. -/
theorem lookups_eq_firstPlaces (text : List α) (lookups : List (List α × Int)) :
    (Finder.fresh text).findAll lookups = lookups.map fun lookup => firstPlace text lookup.1 lookup.2 := by
  rw [Finder.findAll_eq_map]
  exact List.map_congr_left fun lookup _ => indexOf_eq_firstPlace text lookup.1 lookup.2

end ProseWrap.Text
