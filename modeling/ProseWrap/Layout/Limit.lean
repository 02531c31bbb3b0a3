import ProseWrap.Number.Basic

/-!
# Line limits

A limit says which widths a line may have. A line length of 0 stands for no
limit. Any other number admits the widths up to it, which for a fraction are
those up to the whole number below; an infinite length admits every width or
none, and what is not a number admits none.
-/

namespace ProseWrap

/-- Which widths a line may have. -/
inductive Limit where
  | unlimited
  | atMost (width : Int)
  | nothing
  deriving DecidableEq, Repr

namespace Limit

/-- Whether a line may have a width. -/
def admits : Limit → Int → Bool
  | unlimited, _ => true
  | atMost limit, width => width ≤ limit
  | nothing, _ => false

/-- The limit that a whole number stands for. -/
def ofInt (n : Int) : Limit := if n = 0 then unlimited else atMost n

/-- The limit that a number stands for. -/
def ofNumber : Number → Limit
  | .finite value => if value = 0 then unlimited else atMost value.floor
  | .infinite negative => if negative then nothing else unlimited
  | .nan => nothing

end Limit

end ProseWrap
