import ProseWrap.Block.Outline
import ProseWrap.Report
import ProseWrap.Wrap.Part

/-!
# Wrapping documents

`Document.wrap` lays out the prose of a document and keeps everything else as
it stands. `wrapAt` does so for the one block on a given line and says what is
to be put in the place of what. `wrapLine` lays out a single run of text that
is not part of a document.

Each of the three also comes as a run from a configuration (`wrapText`,
`wrapTextAt`, `wrapTextLine`), with its warnings and events.
-/

namespace ProseWrap

/-! ## Blocks -/

/-- What the lines of prose of a form begin with. Under the mark of a
definition stand as many spaces as the mark takes columns. -/
def ProseForm.leads : ProseForm → Leads
  | paragraph indent => ⟨indent, indent⟩
  | listItem indent marker _ continuation => ⟨indent ++ marker ++ [' '], continuation⟩
  | quote indent depth =>
    let lead := indent ++ (List.replicate depth ['>', ' ']).flatten
    ⟨lead, lead⟩
  | definition marker =>
    ⟨marker, List.replicate (Line.columns (Block.colonAsSpace marker)) ' '⟩

/-- The style in which prose of a form is laid out: in a definition sentences
always run on. -/
def ProseForm.style (style : Style) : ProseForm → Style
  | definition _ => { style with sentenceLines := .runOn }
  | _ => style

namespace Line

/-- The newline that new lines between given ones have: that of the first one
with any. -/
def innerNewline (lines : List Line) : Newline :=
  ((lines.find? fun line => line.newline != .none).map Line.newline).getD .lf

/-- The newline after the last line. -/
def lastNewline (lines : List Line) : Newline := (lines.getLast?.map Line.newline).getD .none

end Line

/-- Prose that has been laid out: its lines, the newline between them, and the
one after them. -/
structure Rendering where
  lines : List Text
  newline : Newline
  lastNewline : Newline
  deriving DecidableEq, Repr

namespace Rendering

/-- The lines without the last newline. -/
def body (rendering : Rendering) : Text := List.intercalate rendering.newline.text rendering.lines

/-- The lines with all their newlines. -/
def source (rendering : Rendering) : Text := rendering.body ++ rendering.lastNewline.text

end Rendering

/-- Lays out prose that stands on the lines `sources`. -/
def Prose.render (style : Style) (sources : List Line) (prose : Prose) : Rendering :=
  let style := prose.form.style style
  { lines :=
      Part.renderAll style prose.form.leads (sources.map Line.text)
        (Part.split style.preserveBreaks prose.lines)
    newline := Line.innerNewline sources
    lastNewline := Line.lastNewline sources }

/-- The lines of a document that a block stands on. -/
def Block.sources (lines : List Line) (block : Block) : List Line :=
  (lines.drop block.firstLine).take (block.lastLine + 1 - block.firstLine)

/-- A block after wrapping: laid out if it is prose, and as it stood
otherwise. -/
def Block.wrapped (style : Style) (lines : List Line) (block : Block) : Text :=
  match block.prose? with
  | some prose => (prose.render style (block.sources lines)).source
  | none => Line.join (block.sources lines)

/-! ## Documents -/

namespace Document

/-- The document with its prose laid out. -/
def wrap (style : Style) (document : Document) : Text :=
  document.blocks.flatMap (Block.wrapped style document.lines)

/-- The block that holds the line with an index. -/
def blockAt? (document : Document) (index : Nat) : Option Block :=
  if index < document.lines.length then
    document.blocks.find? fun block => block.firstLine ≤ index && index ≤ block.lastLine
  else none

/-- The block of prose that holds the line with an index. -/
def proseAt? (document : Document) (index : Nat) : Option (Block × Prose) := do
  let block ← document.blockAt? index
  let prose ← block.prose?
  some (block, prose)

end Document

/-- A text that is to be put in the place of what stands between two offsets,
and the first and the last line, counted from 1, that this touches. -/
structure Replacement where
  start : Nat
  stop : Nat
  firstLine : Nat
  lastLine : Nat
  text : Text
  deriving DecidableEq, Repr

/-- The document in which a replacement has been made. -/
def Replacement.apply (replacement : Replacement) (text : Text) : Text :=
  text.take replacement.start ++ replacement.text ++ text.drop replacement.stop

/-- Lays out a block of prose in place. The newline after it is not touched. -/
def Document.wrapBlock (style : Style) (document : Document) (block : Block) (prose : Prose) :
    Replacement :=
  let rendering := prose.render style (block.sources document.lines)
  { start := block.start
    stop := block.stop - rendering.lastNewline.text.length
    firstLine := block.firstLine + 1
    lastLine := block.lastLine + 1
    text := rendering.body }

/-- Lays out the block on a line, counted from 0, if it is prose. -/
def Document.wrapAt (style : Style) (document : Document) (index : Nat) : Option Replacement :=
  (document.proseAt? index).map fun found => document.wrapBlock style found.1 found.2

/-! ## Single lines -/

/-- The lines of a run of text that is not part of a document. A text that is
already a line of its own stays as it is. -/
def wrapLine (style : Style) (text : Text) : List Text :=
  if (Text.trim text).isEmpty then []
  else if style.admits text && style.sentenceLines == .runOn
      && !text.any (fun c => c == '\r' || c == '\n') then [text]
  else style.layout ⟨[], []⟩ (Text.trim text)

/-! ## Runs -/

/-- Cuts a text into lines and blocks. -/
def Document.read (text : Text) : Report Document := do
  let document := Document.ofText text
  Report.tell (.classified document.blocks.length document.lines.length)
  return document

/-- Wraps a text under options. -/
def Options.wrapText (options : Options) (text : Text) : Report Text := do
  let document ← Document.read text
  Report.tell (.wrapping document.blocks.length options)
  return document.wrap options.style

/-- Wraps a text. -/
def wrapText (config : Config) (fixed : Bool) (text : Text) : Report Text := do
  let options ← config.accept fixed
  options.wrapText text

/-- Wraps a text and then what came of it, some number of times, and gives what
came each time. -/
def wrapRepeatedly (config : Config) (fixed : Bool) (text : Text) : Nat → Report (List Text)
  | 0 => return []
  | passes + 1 => do
    let wrapped ← wrapText config fixed text
    let further ← wrapRepeatedly config fixed wrapped passes
    return wrapped :: further

/-- The index of a line that is counted from 1. -/
def lineIndex? (line : Number) : Option Nat :=
  match line.toNat? with
  | some (index + 1) => some index
  | _ => none

/-- Lays out the block on a line, counted from 1. The configuration is looked
at only if there is prose. -/
def wrapTextAt (config : Config) (text : Text) (line : Number) (fixed : Bool := false) :
    Report (Option Replacement) :=
  match lineIndex? line with
  | none => return none
  | some index => do
    let document ← Document.read text
    match document.proseAt? index with
    | none => return none
    | some (block, prose) =>
      let options ← config.accept fixed
      return some (document.wrapBlock options.style block prose)

/-- The lines of a run of text that is not part of a document. -/
def wrapTextLine (config : Config) (text : Text) (fixed : Bool := false) : Report (List Text) := do
  let options ← config.accept fixed
  return wrapLine options.style text

end ProseWrap
