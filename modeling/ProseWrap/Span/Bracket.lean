import ProseWrap.Span.Code
import ProseWrap.Text.Ascii

/-!
# Bracket partners

Which closing bracket belongs to which opening one, for square brackets and for
parentheses. Only *active* characters count: those outside code spans that are
not part of a backslash escape.
-/

namespace ProseWrap

namespace Span

/-- The span at the front of a list, if it starts at offset `i`. -/
def startingAt? (i : Nat) : List Span → Option Span
  | [] => none
  | span :: _ => if span.start = i then some span else none

/-- The active characters of the text `rest`, which begins at offset `i`, with
their offsets. Nothing before offset `resume` is active; `codes` are the code
spans that have not been passed yet. -/
def activeFrom (codes : List Span) (resume i : Nat) : Text → List (Nat × Char)
  | [] => []
  | c :: rest =>
    if i < resume then activeFrom codes resume (i + 1) rest
    else
      let codes := codes.dropWhile fun code => code.start < i
      match startingAt? i codes with
      | some code => activeFrom codes code.stop (i + 1) rest
      | none =>
        if Text.startsEscape (c :: rest) then activeFrom codes (i + 2) (i + 1) rest
        else (i, c) :: activeFrom codes resume (i + 1) rest

/-- The active characters of a text with their offsets, given its code
spans. -/
def active (codes : List Span) (text : Text) : List (Nat × Char) := activeFrom codes 0 0 text

/-- The offsets of each closed pair of brackets among active characters, where
`stack` holds the offsets of the brackets that are open already, the innermost
first. -/
def pairsFrom (opener closer : Char) (stack : List Nat) : List (Nat × Char) → List (Nat × Nat)
  | [] => []
  | (i, c) :: rest =>
    if c == opener then pairsFrom opener closer (i :: stack) rest
    else if c == closer then
      match stack with
      | [] => pairsFrom opener closer [] rest
      | j :: outer => (j, i) :: pairsFrom opener closer outer rest
    else pairsFrom opener closer stack rest

end Span

/-- The bracket pairs of a text: opening and closing offset of each. -/
structure Brackets where
  square : List (Nat × Nat)
  round : List (Nat × Nat)

namespace Brackets

/-- The bracket pairs of a text, given its code spans. -/
def ofText (codes : List Span) (text : Text) : Brackets :=
  let characters := Span.active codes text
  ⟨Span.pairsFrom '[' ']' [] characters, Span.pairsFrom '(' ')' [] characters⟩

/-- The closing partner of the square bracket at an offset. -/
def squareClose? (brackets : Brackets) (i : Nat) : Option Nat := brackets.square.lookup i

/-- The closing partner of the parenthesis at an offset. -/
def roundClose? (brackets : Brackets) (i : Nat) : Option Nat := brackets.round.lookup i

end Brackets

end ProseWrap
