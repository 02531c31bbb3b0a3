import ProseWrap.Line.Basic

/-!
# Blocks

A document is a sequence of blocks, and each block is one or more whole lines.
Only *prose* may be wrapped: paragraphs, list items, quotations and
definitions, with the text of each of their lines. All other blocks are kept as
they stand.
-/

namespace ProseWrap

/-- What the lines of prose begin with. -/
inductive ProseForm where
  | paragraph (indent : Text)
  | listItem (indent marker : Text) (ordered : Bool) (continuation : Text)
  | quote (indent : Text) (depth : Nat)
  | definition (marker : Text)
  deriving DecidableEq, Repr

/-- Prose: its form, and its lines without what they begin with. -/
structure Prose where
  form : ProseForm
  lines : List Text
  deriving DecidableEq, Repr

/-- The format of front matter. -/
inductive FrontMatter where
  | yaml
  | toml
  deriving DecidableEq, Repr

/-- What a block is. -/
inductive BlockKind where
  | prose (prose : Prose)
  | term (lines : List Text)
  | quotedStructure (indent : Text) (depth : Nat)
  | heading (level : Nat) (underlined : Bool)
  | code (fenced : Bool)
  | frontMatter (format : FrontMatter)
  | table
  | html
  | thematicBreak
  | reference
  | directive
  | blank
  deriving DecidableEq, Repr

/-- How far a block reaches: its last line, and the line at which reading goes
on. Both are counted from the first line of the block. -/
structure Extent where
  last : Nat
  next : Nat
  deriving DecidableEq, Repr

/-- How many lines further reading goes on. It never stays where it is. -/
def Extent.step (extent : Extent) : Nat := max extent.next 1

/-- A block and how far it reaches. -/
structure Section where
  kind : BlockKind
  extent : Extent
  deriving DecidableEq, Repr

/-- A block of a document: its first and last line, and the offsets between
which it stands. -/
structure Block where
  kind : BlockKind
  firstLine : Nat
  lastLine : Nat
  start : Nat
  stop : Nat
  deriving DecidableEq, Repr

namespace Block

/-- The prose that a block is. -/
def prose? (block : Block) : Option Prose :=
  match block.kind with
  | .prose prose => some prose
  | _ => none

/-- The blocks of sections that lie one after the other on lines, the first of
which has the number `first`. -/
def place (first : Nat) (lines : List Line) : List Section → List Block
  | [] => []
  | part :: others =>
    let block : Block :=
      { kind := part.kind
        firstLine := first
        lastLine := first + part.extent.last
        start := (lines.head?.map Line.start).getD 0
        stop := (lines[part.extent.last]?.map Line.stop).getD 0 }
    block :: place (first + part.extent.step) (lines.drop part.extent.step) others

end Block

end ProseWrap
