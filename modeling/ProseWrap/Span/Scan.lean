import ProseWrap.Span.Emphasis
import ProseWrap.Span.Leaf

/-!
# All spans of a text

`Forest.ofText` finds the leaf spans of a text, then the emphasis around and
between them, and puts them together in one forest.
-/

namespace ProseWrap

/-- The emphasis of a text, given its leaf spans. -/
def Span.emphasisAround (text : Text) (leaves : List Span) : List Span :=
  Span.emphasis text (leaves.map fun leaf => (leaf.start, leaf.stop))

/-- All spans of a text. -/
def Forest.ofText (text : Text) : Forest :=
  let leaves := Span.leaves text
  .ofSorted (Span.sort (leaves ++ Span.emphasisAround text leaves))

end ProseWrap
