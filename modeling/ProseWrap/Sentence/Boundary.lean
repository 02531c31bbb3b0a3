import ProseWrap.Sentence.Abbreviation
import ProseWrap.Sentence.Chars
import ProseWrap.Span.Basic
import ProseWrap.Unicode.Alphanumeric

/-!
# Where sentences end

`boundaries` are the offsets at which the sentences of a text end, except at
its end. A sentence ends after a full stop, an exclamation or a question mark,
and the closing quotes after it, when a gap follows and then, after opening
quotes or emphasis markers, a capital letter; a full stop after an abbreviation
ends none. In a script without spaces a sentence ends after its terminators and
closers as soon as anything follows.

Spans are not looked into. Emphasis whose content ends with a terminator can
end a sentence.
-/

namespace ProseWrap.Sentence

/-- How many of the first `limit` characters of a text, from the front, satisfy
`p` without a break. -/
def runLength (p : Char → Bool) : Nat → Text → Nat
  | 0, _ => 0
  | _, [] => 0
  | limit + 1, c :: rest => if p c then runLength p limit rest + 1 else 0

/-- The offset after the run of characters that satisfy `p` from offset `i` on,
within `stop`. -/
def runEnd (p : Char → Bool) (text : Text) (stop i : Nat) : Nat :=
  i + runLength p (stop - i) (text.drop i)

/-- A character that may end a sentence: where it stands, where the text goes
on after it, and how far back the word that it ends may reach. -/
structure Candidate where
  index : Nat
  after : Nat
  floor : Int

/-- The word that ends at an offset, not reaching below `floor`, without what
comes before its first letter or digit. A floor before the text counts from the
end of the text, unless a gap comes first. -/
def wordBefore (text : Text) (index : Nat) (floor : Int) : Text :=
  let back := ((text.take index).drop floor.toNat).reverse.takeWhile fun c => !Text.isGap c
  let start : Int := if floor < 0 ∧ back.length = index then floor else index - back.length
  (Text.sliceSigned text start (index + 1)).dropWhile fun c => !Unicode.isAlphanumeric c

/-- Where the sentence ends that the terminator `c` ends, if it ends one. -/
def spacedBoundary? (set : Abbreviations) (text : Text) (stop : Nat) (c : Char) (place : Candidate) :
    Option Nat :=
  let boundary := runEnd mayCloseQuote text stop place.after
  let gapEnd := runEnd Text.isGap text stop boundary
  let first := runEnd (fun c => mayOpenQuote c || isLeadingMarker c) text stop gapEnd
  if boundary < gapEnd ∧ first < stop ∧ (text[first]?.map opensSentence).getD false
      ∧ ¬(c = '.' ∧ set.endsText (wordBefore text place.index place.floor)) then some boundary
  else none

/-- What a candidate yields: a boundary, and where to look on if not at the
next character. -/
structure Finding where
  boundary : Option Nat
  resume : Option Nat

/-- What a terminator of a script without spaces yields, when the text goes on
at `after`. The terminators and closers after it are not looked at again. -/
def unspacedFinding (text : Text) (stop after : Nat) : Finding :=
  let resume := runEnd (fun c => isUnspacedCloser c || isUnspacedTerminator c) text stop after
  ⟨if runEnd Text.isGap text stop resume < stop then some resume else none, some resume⟩

/-- What the character `c` yields as a candidate. -/
def judge (set : Abbreviations) (text : Text) (stop : Nat) (c : Char) (place : Candidate) :
    Finding :=
  if isTerminator c then
    let boundary := spacedBoundary? set text stop c place
    ⟨boundary, boundary⟩
  else if isUnspacedTerminator c then unspacedFinding text stop place.after
  else ⟨none, none⟩

/-- What a span yields: a boundary if it is emphasis whose content ends with a
terminator. -/
def judgeSpan (set : Abbreviations) (text : Text) (stop : Nat) (span : Span) : Finding :=
  let boundary :=
    if span.isEmphasis && span.contentStart < span.contentStop then
      match text[span.contentStop - 1]? with
      | some c =>
        (judge set text stop c ⟨span.contentStop - 1, span.stop, span.contentStart⟩).boundary
      | none => none
    else none
  ⟨boundary, some span.stop⟩

/-- The boundaries in the text `rest`, which begins at offset `i`, from offset
`resume` on and up to `stop`; `spans` have not been passed yet, and `last` is
the boundary before. -/
def boundariesFrom (set : Abbreviations) (text : Text) (stop : Nat) (floor : Int) (spans : List Span)
    (resume i last : Nat) : Text → List Nat
  | [] => []
  | c :: rest =>
    if stop ≤ i then []
    else if i < resume then boundariesFrom set text stop floor spans resume (i + 1) last rest
    else
      let spans := spans.dropWhile fun span => span.stop ≤ i
      let plain := judge set text stop c ⟨i, i + 1, floor⟩
      let found : Finding :=
        match spans with
        | [] => plain
        | span :: _ =>
          if span.start = i then judgeSpan set text stop span
          else if span.start < i then ⟨none, some span.stop⟩
          else plain
      let new := found.boundary.filter fun boundary => last < boundary
      new.toList ++
        boundariesFrom set text stop floor spans (found.resume.getD (i + 1)) (i + 1) (new.getD last) rest

/-- Where the sentences of a text end between the offsets `start` and `stop`;
`spans` are disjoint and in the order of the text. -/
def boundaries (set : Abbreviations) (text : Text) (spans : List Span) (start : Int) (stop : Nat) :
    List Nat :=
  boundariesFrom set text stop start spans 0 start.toNat 0 (text.drop start.toNat)

end ProseWrap.Sentence
