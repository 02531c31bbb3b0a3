import ProseWrap.Span.Basic
import ProseWrap.Table
import ProseWrap.Text.Ascii
import ProseWrap.Text.Blank
import ProseWrap.Unicode.Punctuation

/-!
# Emphasis

Emphasis is marked by runs of marker characters outside the leaf spans
(`delimiters`). What stands around a run decides whether it can open or close
emphasis. The runs are paired with a stack (`emphasis`): each closer looks down
the stack for an opener that it fits, and the openers above the one found are
dropped.

A closer that finds no opener records how deep the stack was, and later closers
of the same class do not look below that depth again.
-/

namespace ProseWrap

/-- A run of markers, of which `remaining` from offset `start` on have not been
used yet. -/
structure Delimiter where
  marker : Marker
  start : Nat
  remaining : Nat
  length : Nat
  canOpen : Bool
  canClose : Bool
  deriving DecidableEq, Repr

namespace Delimiter

/-! ## Runs of markers -/

/-- Whether a neighbour of a run counts as white space; the edges of the text
do. -/
def isSpaceBeside (c : Option Char) : Bool := (c.map Text.isBlank).getD true

/-- Whether a neighbour of a run is punctuation. -/
def isPunctuationBeside (c : Option Char) : Bool := (c.map Unicode.isPunctuation).getD false

/-- Whether a run with these neighbours stands at the left of a word. -/
def leftFlanking (before after : Option Char) : Bool :=
  !isSpaceBeside after &&
    (!isPunctuationBeside after || isSpaceBeside before || isPunctuationBeside before)

/-- Whether a run with these neighbours stands at the right of a word. -/
def rightFlanking (before after : Option Char) : Bool := leftFlanking after before

/-- The unused run of `length` markers at offset `start` between two
characters. A run of underscores inside a word neither opens nor closes. -/
def ofRun (marker : Marker) (start length : Nat) (before after : Option Char) : Delimiter :=
  let left := leftFlanking before after
  let right := rightFlanking before after
  if marker = .underscore then
    ⟨marker, start, length, length, left && (!right || isPunctuationBeside before),
      right && (!left || isPunctuationBeside after)⟩
  else ⟨marker, start, length, length, left, right⟩

/-- Passes the ranges that start at or before offset `i`: the offset after
them, and the ranges left. -/
def passRanges (i : Nat) : List (Nat × Nat) → Nat × List (Nat × Nat)
  | [] => (i, [])
  | (start, stop) :: rest =>
    if start ≤ i then passRanges (max i stop) rest else (i, (start, stop) :: rest)

/-- The runs of markers of the text `rest`, which begins at offset `i` after
the character `before`, from offset `resume` on and outside the ranges
`leaves`. -/
def collect (leaves : List (Nat × Nat)) (resume i : Nat) (before : Option Char) :
    Text → List Delimiter
  | [] => []
  | c :: rest =>
    if i < resume then collect leaves resume (i + 1) (some c) rest
    else
      match passRanges i leaves with
      | (next, leaves) =>
        if i < next then collect leaves next (i + 1) (some c) rest
        else if Text.startsEscape (c :: rest) then collect leaves (i + 2) (i + 1) (some c) rest
        else
          match Marker.ofChar? c with
          | none => collect leaves resume (i + 1) (some c) rest
          | some marker =>
            let run := ((c :: rest).takeWhile (· == c)).length
            let length :=
              match leaves with
              | (start, _) :: _ => min run (start - i)
              | [] => run
            ofRun marker i length before (c :: rest)[length]? ::
              collect leaves (i + length) (i + 1) (some c) rest

/-! ## Pairs of runs -/

/-- How many markers of an opener and a closer of the same kind make a pair; 0
if they do not fit. -/
def pairSize (opener closer : Delimiter) : Nat :=
  match opener.marker with
  | .star | .underscore =>
    if (opener.canClose || closer.canOpen) && (opener.length + closer.length) % 3 == 0
        && !(opener.length % 3 == 0 && closer.length % 3 == 0) then 0
    else if 3 ≤ opener.remaining ∧ 3 ≤ closer.remaining then 3
    else if 2 ≤ opener.remaining ∧ 2 ≤ closer.remaining then 2
    else 1
  | .tilde =>
    if opener.remaining = closer.remaining ∧ opener.remaining ≤ 2 then opener.remaining else 0
  | .caret => if opener.remaining = 1 ∧ closer.remaining = 1 then 1 else 0
  | .equals => if opener.remaining = 2 ∧ closer.remaining = 2 then 2 else 0

/-- Whether an opener and a closer make a pair. -/
def fits (opener closer : Delimiter) : Bool :=
  opener.marker == closer.marker && pairSize opener closer != 0

/-- The first of the upper `depth` runs of a stack that fits a closer, and the
stack below it. -/
def findOpener (closer : Delimiter) : Nat → List Delimiter → Option (Delimiter × List Delimiter)
  | 0, _ => none
  | _, [] => none
  | depth + 1, opener :: below =>
    if opener.fits closer then some (opener, below) else findOpener closer depth below

/-- The emphasis between an opener and a closer. -/
def spanBetween (opener closer : Delimiter) : Span :=
  let used := pairSize opener closer
  let start := opener.start + opener.remaining - used
  ⟨.emphasis closer.marker (.ofMarkers closer.marker used), start, closer.start + used, start + used,
    closer.start⟩

/-- The opener after `used` of its markers have been used; its outer ones are
left. -/
def useAsOpener (opener : Delimiter) (used : Nat) : Delimiter :=
  { opener with remaining := opener.remaining - used }

/-- The closer after `used` of its markers have been used; its outer ones are
left. -/
def useAsCloser (closer : Delimiter) (used : Nat) : Delimiter :=
  { closer with start := closer.start + used, remaining := closer.remaining - used }

/-- Puts a run back on a stack unless it is used up. -/
def pushRest (run : Delimiter) (stack : List Delimiter) : List Delimiter :=
  if 0 < run.remaining then run :: stack else stack

/-- What decides which openers a closer fits: its marker, its length modulo 3,
and whether it could open. -/
def floorClass (closer : Delimiter) : Marker × Nat × Bool :=
  (closer.marker, closer.length % 3, closer.canOpen)

/-- For each class of closers, the depth of the stack below which they find no
opener. -/
abbrev Floors := Table (Marker × Nat × Bool) Nat

/-- The depth below which closers of the class of `closer` find no opener. -/
def Floors.floor (floors : Floors) (closer : Delimiter) : Nat :=
  (Table.get? floors closer.floorClass).getD 0

/-- What pairing one closer leaves: the emphasis found, the stack, the floors,
and the closer. -/
structure Pairing where
  spans : List Span
  stack : List Delimiter
  floors : Floors
  closer : Delimiter

/-- Pairs a closer with openers of the stack until it is used up or finds none.
Every pair uses up at least one of its markers, so as many rounds as it has
markers are enough. -/
def pairCloser : Nat → List Delimiter → Floors → Delimiter → Pairing
  | 0, stack, floors, closer => ⟨[], stack, floors, closer⟩
  | rounds + 1, stack, floors, closer =>
    if closer.remaining = 0 then ⟨[], stack, floors, closer⟩
    else
      match findOpener closer (stack.length - floors.floor closer) stack with
      | none => ⟨[], stack, Table.set floors closer.floorClass stack.length, closer⟩
      | some (opener, below) =>
        let used := pairSize opener closer
        let next := pairCloser rounds ((opener.useAsOpener used).pushRest below) floors
          (closer.useAsCloser used)
        { next with spans := spanBetween opener closer :: next.spans }

/-- The emphasis that a list of runs makes, in the order in which it is
closed. -/
def pairAll (stack : List Delimiter) (floors : Floors) : List Delimiter → List Span
  | [] => []
  | run :: rest =>
    let paired : Pairing :=
      if run.canClose then pairCloser run.remaining stack floors run else ⟨[], stack, floors, run⟩
    let stack := if run.canOpen then paired.closer.pushRest paired.stack else paired.stack
    paired.spans ++ pairAll stack paired.floors rest

end Delimiter

/-- The runs of markers of a text outside the given ranges. -/
def Span.delimiters (text : Text) (leaves : List (Nat × Nat)) : List Delimiter :=
  Delimiter.collect leaves 0 0 none text

/-- The emphasis of a text outside the given ranges, in the order in which it
is closed: what encloses comes after what is enclosed. -/
def Span.emphasis (text : Text) (leaves : List (Nat × Nat)) : List Span :=
  Delimiter.pairAll [] [] (Span.delimiters text leaves)

end ProseWrap
