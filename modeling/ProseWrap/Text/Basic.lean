/-!
# Text

A run of text is a list of characters, and an offset into it counts characters.
`slice` cuts a range out; `sliceSigned` does so with offsets that may be
negative or past the end.
-/

namespace ProseWrap

/-- A run of text. -/
abbrev Text := List Char

namespace Text

/-- The characters from offset `start` up to offset `stop`; nothing if
`stop ≤ start`. -/
def slice (text : List α) (start stop : Nat) : List α := (text.drop start).take (stop - start)

/-- The offset that `i` stands for in a text of the given length: a negative
one counts from the end, and one outside the text is moved to its nearer
edge. -/
def offsetOf (length : Nat) (i : Int) : Nat :=
  if i < 0 then (length + i).toNat else min i.toNat length

/-- The slice between two signed offsets. -/
def sliceSigned (text : List α) (start stop : Int) : List α :=
  slice text (offsetOf text.length start) (offsetOf text.length stop)

/-- Whether `part` stands somewhere in `text`. -/
def hasPart (text part : Text) : Bool :=
  match text with
  | [] => part.isEmpty
  | c :: rest => part.isPrefixOf (c :: rest) || hasPart rest part

end Text

end ProseWrap
