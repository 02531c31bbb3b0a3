import ProseWrap.Block.Reading

/-!
# The blocks of a document

`outline` reads the lines of a document from the first to the last. Each line
that is not part of the block before it begins a new block, and the first test
that it passes tells which (`readSection`). Every line lands in exactly one
block.

A definition needs something that it defines: it is read as one only after a
term, after another definition, or after a paragraph, which then becomes the
term.
-/

namespace ProseWrap

namespace Block

/-- A block that has been read: what it is, how far it reaches, the column of
the list item that is open after it, and the sections before it. -/
structure Reading where
  kind : BlockKind
  extent : Extent
  column : Option Nat
  before : List Section

/-- The sections, the last one first, with a paragraph at the front made a
term; nothing if they do not begin with something that can be defined. -/
def attach? : List Section → Option (List Section)
  | [] => none
  | part :: before =>
    match part.kind with
    | .term _ => some (part :: before)
    | .prose ⟨.definition _, _⟩ => some (part :: before)
    | .prose ⟨.paragraph _, lines⟩ => some ({ part with kind := .term lines } :: before)
    | _ => none

/-- The same across one blank section. -/
def makeTerm? (before : List Section) : Option (List Section) :=
  match before with
  | part :: earlier =>
    if part.kind = .blank then (attach? earlier).map (part :: ·) else attach? before
  | [] => none

/-- The column of the list item that is still open at a line: a line that is
indented less and begins no item leaves the list. -/
def openColumn (column : Option Nat) (text : Text) : Option Nat :=
  column.filter fun c =>
    c ≤ Line.indentWidth text || (Line.itemMark? (Text.trimStart text)).isSome

/-- The block that begins with a line that is neither blank nor indented code,
nor a fence, a heading nor a thematic break. -/
def readProseOrOther (column : Option Nat) (before : List Section) (text : Text) (rest : List Text) :
    Reading :=
  let content := Line.content text
  let other (kind : BlockKind) (extent : Extent) : Reading := ⟨kind, extent, column, before⟩
  match Line.quoteMark? content with
  | some quote =>
    let read := readQuote text quote rest
    ⟨read.1, read.2, column, before⟩
  | none =>
  match Line.itemMark? content with
  | some item =>
    let read := readItem text item rest
    ⟨read.1, read.2, some (Line.columns (itemIndent (Line.indent text) item.marker)), before⟩
  | none =>
  match Line.htmlKind? content with
  | some kind =>
    let last := countHtml kind text rest
    other .html ⟨last, last + 1⟩
  | none =>
    if Line.beginsTable content (rest.headD []) then
      let last := countTable rest
      other .table ⟨last, last + 1⟩
    else if Line.isReference content then other .reference ⟨0, 1⟩
    else if Line.isDirective content then other .directive ⟨0, 1⟩
    else
      match Line.definitionMark? text, makeTerm? before with
      | some body, some promoted =>
        let read := readDefinition column body rest
        ⟨read.1, read.2, column, promoted⟩
      | _, _ =>
        let read := readParagraph column text rest
        ⟨read.1, read.2, column, before⟩

/-- The block that begins with a line, where `column` is that of the list item
open before it and `before` are the sections before it, the last one first. -/
def readSection (column : Option Nat) (before : List Section) (text : Text) (rest : List Text) :
    Reading :=
  if Line.isBlank text then
    let last := (rest.takeWhile Line.isBlank).length
    ⟨.blank, ⟨last, last + 1⟩, column, before⟩
  else
    let column := openColumn column text
    let content := Line.content text
    let least := column.getD 0 + 4
    if least ≤ Line.indentWidth text then
      let last := countIndented least rest
      ⟨.code false, ⟨last, last + 1⟩, column, before⟩
    else
      match Line.fence? content with
      | some fence =>
        let closes (line : Text) : Bool := Line.endsFence fence (Text.trimStart line)
        let stop := countThrough closes rest + 1
        ⟨.code true, ⟨stop - 1, stop⟩, column, before⟩
      | none =>
        if 0 < Line.atxLevel content then ⟨.heading (Line.atxLevel content) false, ⟨0, 1⟩, column, before⟩
        else if Line.isThematicBreak content then ⟨.thematicBreak, ⟨0, 1⟩, column, before⟩
        else readProseOrOther column before text rest

/-- The sections of some lines, before the first of which `skip` lines are
passed over. -/
def outlineFrom (skip : Nat) (column : Option Nat) (before : List Section) : List Text → List Section
  | [] => before.reverse
  | text :: rest =>
    match skip with
    | skip + 1 => outlineFrom skip column before rest
    | 0 =>
      let read := readSection column before text rest
      outlineFrom (read.extent.step - 1) read.column (⟨read.kind, read.extent⟩ :: read.before) rest

/-- The sections of a document, given its lines. Front matter can only be at
its start. -/
def outline (lines : List Text) : List Section :=
  match lines with
  | [] => []
  | text :: rest =>
    match frontMatter? text rest with
    | some (format, extent) => outlineFrom (extent.step - 1) none [⟨.frontMatter format, extent⟩] rest
    | none => outlineFrom 0 none [] (text :: rest)

end Block

/-- A document, cut into lines and into blocks. -/
structure Document where
  lines : List Line
  blocks : List Block

/-- The lines and blocks of a document. -/
def Document.ofText (text : Text) : Document :=
  let lines := Line.split text
  ⟨lines, Block.place 0 lines (Block.outline (lines.map Line.text))⟩

end ProseWrap
