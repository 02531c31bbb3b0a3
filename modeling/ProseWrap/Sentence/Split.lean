import ProseWrap.Sentence.Boundary
import ProseWrap.Span.Scan

/-!
# Sentences

`split` cuts a text into its sentences. `fragments` restates emphasis that
holds several sentences as one emphasis per sentence, each between the same
markers.
-/

namespace ProseWrap.Sentence

/-- The slices of a text from `start` to the first offset, from there to the
second, and so on. -/
def cut (text : Text) (start : Int) : List Int → List Text
  | [] => []
  | stop :: rest => Text.sliceSigned text start stop :: cut text stop rest

/-- The slices of a text between `start`, the boundaries and `stop`, trimmed,
without empty ones. -/
def slices (text : Text) (boundaries : List Int) (start stop : Int) : List Text :=
  ((cut text start (boundaries ++ [stop])).map Text.trim).filter fun sentence => !sentence.isEmpty

/-- Where the sentences of a whole text end. -/
def boundariesOf (set : Abbreviations) (text : Text) : List Nat :=
  boundaries set text (Forest.ofText text).roots 0 text.length

/-- The sentences of a text. -/
def split (set : Abbreviations) (text : Text) : List Text :=
  slices text ((boundariesOf set text).map Int.ofNat) 0 text.length

/-- The sentences that emphasis holds, each between the markers of that
emphasis; any other span, and emphasis of a single sentence, is left as it is.
Only the outermost emphasis is taken apart. -/
def fragments (set : Abbreviations) (text : Text) (span : Span) (children : Forest) : List Text :=
  let whole := Text.slice text span.start span.stop
  if span.isEmphasis then
    let ends := boundaries set text children.roots span.contentStart span.contentStop
    let sentences := slices text (ends.map Int.ofNat) span.contentStart span.contentStop
    if ends.isEmpty || sentences.length < 2 then [whole]
    else
      let opener := Text.slice text span.start span.contentStart
      let closer := Text.slice text span.contentStop span.stop
      sentences.map fun sentence => opener ++ sentence ++ closer
  else [whole]

end ProseWrap.Sentence
