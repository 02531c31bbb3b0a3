/-!
# Sorting

`sortBy` sorts by insertion. Values that come before each other keep the order
in which they stand.
-/

namespace ProseWrap

variable {α : Type} (before : α → α → Bool)

/-- Puts a value into a list that is in order. -/
def insertInto (value : α) : List α → List α
  | [] => [value]
  | other :: rest => if before value other then value :: other :: rest else other :: insertInto value rest

/-- The values in order. -/
def sortBy (values : List α) : List α := values.foldr (insertInto before) []

end ProseWrap
