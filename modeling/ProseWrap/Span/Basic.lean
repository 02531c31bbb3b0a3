import ProseWrap.Sorting
import ProseWrap.Text.Basic

/-!
# Spans

A span is a stretch of a text that must stay together when lines are broken:
code, a link, a formula, an emphasised phrase. `SpanKind` says what it is.
Spans are disjoint or nested, and `Forest` holds them with what they enclose:
`roots` are the outermost ones, `flatten` lists all of them.
-/

namespace ProseWrap

/-- What stands after the bracketed text of a link or an image: a destination
in parentheses, a label in brackets, empty brackets, or nothing. -/
inductive BracketForm where
  | inline
  | reference
  | collapsed
  | shortcut
  deriving DecidableEq, Repr

/-- How a link is written. -/
inductive LinkForm where
  | bracket (form : BracketForm)
  | autolink
  | wiki
  deriving DecidableEq, Repr

/-- Where the target of an image or of a link around it is given: in place, or
by a label. -/
inductive TargetForm where
  | inline
  | reference
  deriving DecidableEq, Repr

/-- How a footnote is written: in place, or by a number or a name. -/
inductive FootnoteForm where
  | inline
  | numeric
  | named
  deriving DecidableEq, Repr

/-- The tags of template languages. -/
inductive TemplateTag where
  | angle
  | percent
  | block
  | output
  deriving DecidableEq, Repr

namespace TemplateTag

/-- What a template tag begins with. -/
def opener : TemplateTag → Text
  | angle => ['\x7b', '\x7b', '<']
  | percent => ['\x7b', '\x7b', '%']
  | block => ['\x7b', '%']
  | output => ['\x7b', '\x7b']

/-- What a template tag ends with. -/
def closer : TemplateTag → Text
  | angle => ['>', '\x7d', '\x7d']
  | percent => ['%', '\x7d', '\x7d']
  | block => ['%', '\x7d']
  | output => ['\x7d', '\x7d']

/-- The template tags, in the order in which they are tried: one that begins
with another one's opener comes before it. -/
def all : List TemplateTag := [angle, percent, block, output]

end TemplateTag

/-- The characters that mark emphasis. -/
inductive Marker where
  | star
  | underscore
  | tilde
  | caret
  | equals
  deriving DecidableEq, Repr

namespace Marker

/-- The character of a marker. -/
def toChar : Marker → Char
  | star => '*'
  | underscore => '_'
  | tilde => '~'
  | caret => '^'
  | equals => '='

/-- The marker that a character is. -/
def ofChar? : Char → Option Marker
  | '*' => some star
  | '_' => some underscore
  | '~' => some tilde
  | '^' => some caret
  | '=' => some equals
  | _ => none

end Marker

/-- What emphasis stands for. -/
inductive EmphasisRole where
  | emphasis
  | strong
  | strongEmphasis
  | strikethrough
  | subscript
  | superscript
  | highlight
  deriving DecidableEq, Repr

/-- How heavy emphasis is: one, two or three markers on each side. -/
inductive EmphasisStrength where
  | italic
  | bold
  | boldItalic
  deriving DecidableEq, Repr

namespace EmphasisRole

/-- The style that `count` markers on each side stand for. -/
def ofMarkers : Marker → Nat → EmphasisRole
  | .tilde, count => if count = 2 then strikethrough else subscript
  | .caret, _ => superscript
  | .equals, _ => highlight
  | _, count => if count = 3 then strongEmphasis else if count = 2 then strong else emphasis

/-- The weight of a style. -/
def weight : EmphasisRole → EmphasisStrength
  | emphasis | subscript | superscript => .italic
  | strong | strikethrough | highlight => .bold
  | strongEmphasis => .boldItalic

end EmphasisRole

/-- What a span is. -/
inductive SpanKind where
  | code
  | link (form : LinkForm)
  | image (form : BracketForm)
  | linkedImage (image target : TargetForm)
  | footnote (form : FootnoteForm)
  | template (tag : TemplateTag)
  | emphasis (marker : Marker) (style : EmphasisRole)
  | htmlTag
  | htmlEntity
  | math (display : Bool)
  | emoji
  deriving DecidableEq, Repr

/-- A stretch of a text from `start` up to `stop`. What it encloses between its
own delimiters lies from `contentStart` up to `contentStop`; a span without
delimiters is its own content. -/
structure Span where
  kind : SpanKind
  start : Nat
  stop : Nat
  contentStart : Nat
  contentStop : Nat
  deriving DecidableEq, Repr

namespace Span

/-- A span that is its own content. -/
def whole (kind : SpanKind) (start stop : Nat) : Span := ⟨kind, start, stop, start, stop⟩

/-- Whether a span is emphasis. -/
def isEmphasis (span : Span) : Bool :=
  match span.kind with
  | .emphasis _ _ => true
  | _ => false

/-- The span with its offsets counted in another way. -/
def mapOffsets (f : Nat → Nat) (span : Span) : Span :=
  { span with
    start := f span.start
    stop := f span.stop
    contentStart := f span.contentStart
    contentStop := f span.contentStop }

/-- Whether one span comes before another one in the order of a text: it starts
earlier, or it starts at the same place and ends no earlier. -/
def comesBefore (a b : Span) : Bool := a.start < b.start || (a.start == b.start && b.stop ≤ a.stop)

/-- The spans in the order of the text. -/
def sort (spans : List Span) : List Span := sortBy comesBefore spans

end Span

/-- Spans side by side, each with the spans that it encloses. -/
inductive Forest where
  | nil
  | cons (span : Span) (children rest : Forest)
  deriving DecidableEq, Repr

namespace Forest

/-- The outermost spans. -/
def roots : Forest → List Span
  | nil => []
  | cons span _ rest => span :: rest.roots

/-- The outermost spans, each with what it encloses. -/
def trees : Forest → List (Span × Forest)
  | nil => []
  | cons span children rest => (span, children) :: rest.trees

/-- All spans with their children, a span before what it encloses. -/
def flatten : Forest → List (Span × Forest)
  | nil => []
  | cons span children rest => (span, children) :: (children.flatten ++ rest.flatten)

/-- All spans with how many other spans enclose them, a span before what it
encloses. -/
def depths (depth : Nat) : Forest → List (Span × Nat)
  | nil => []
  | cons span children rest => (span, depth) :: (children.depths (depth + 1) ++ rest.depths depth)

/-- Divides a forest into the trees at its front that start before `stop` and
the trees after them. -/
def divide (stop : Nat) : Forest → Forest × Forest
  | nil => (nil, nil)
  | cons span children rest =>
    if span.start < stop then
      let parts := rest.divide stop
      (cons span children parts.1, parts.2)
    else (nil, cons span children rest)

/-- Puts a span in front of a forest: the trees that start inside it become its
children. -/
def enclose (span : Span) (forest : Forest) : Forest :=
  let parts := forest.divide span.stop
  cons span parts.1 parts.2

/-- The forest of spans that are given in the order of the text. -/
def ofSorted (spans : List Span) : Forest := spans.foldr enclose nil

/-- Whether an offset lies strictly inside one of the spans from position `low`
up to position `high` of an array in the order of the text, found by halving;
`fuel` bounds the number of halvings. -/
def insideBetween (spans : Array Span) (offset : Int) : Nat → Nat → Nat → Bool
  | 0, _, _ => false
  | fuel + 1, low, high =>
    if low < high then
      let middle := (low + high - 1) / 2
      match spans[middle]? with
      | none => false
      | some span =>
        if offset ≤ span.start then insideBetween spans offset fuel low middle
        else if span.stop ≤ offset then insideBetween spans offset fuel (middle + 1) high
        else true
    else false

/-- Whether an offset lies strictly inside one of the spans, which are disjoint
and in the order of the text. -/
def inside (spans : List Span) (offset : Int) : Bool :=
  insideBetween spans.toArray offset spans.length 0 spans.length

end Forest

end ProseWrap
