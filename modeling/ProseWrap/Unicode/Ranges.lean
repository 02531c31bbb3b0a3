/-!
# Tables of code point ranges

A character property is a list of ranges in ascending order. `inRanges` and
`inStrides` look a code point up and stop at the first range that begins after
it, so the common characters, which have small code points, are found at once.

All tables are those of one version of Unicode, 17.0.
-/

namespace ProseWrap.Unicode

/-- Whether `n` lies in one of the ranges `(first, last)`, which are in
ascending order. -/
def inRanges (n : Nat) : List (Nat × Nat) → Bool
  | [] => false
  | (first, last) :: rest => if n < first then false else n ≤ last || inRanges n rest

/-- Whether `n` is one of `first`, `first + step`, … up to `last` for some
entry `(first, last, step)`; the entries are in ascending order. -/
def inStrides (n : Nat) : List (Nat × Nat × Nat) → Bool
  | [] => false
  | (first, last, step) :: rest =>
    if n < first then false
    else if n ≤ last then (n - first) % step == 0
    else inStrides n rest

/-- How far the code point `n` is moved by the first entry
`(first, last, step, shift)` that holds it, and 0 if none does; the entries are
in ascending order. -/
def shiftOf (n : Nat) : List (Nat × Nat × Nat × Int) → Int
  | [] => 0
  | (first, last, step, shift) :: rest =>
    if n < first then 0
    else if n ≤ last then (if (n - first) % step == 0 then shift else shiftOf n rest)
    else shiftOf n rest

end ProseWrap.Unicode
