import ProseWrap.Block.Basic
import ProseWrap.Line.Markup

/-!
# Reading a block

How far a block reaches from its first line. The functions here take the text
of the first line and the texts of the lines after it, and tell what the block
is, which of the lines is its last, and at which line reading goes on. Some
find the last line of the block and go on after it, others find the line to go
on at and leave the block with the line before.

A list item sets the column from which structure inside it is measured; the
readers of prose need that column, because a line that is indented further is
not structure.
-/

namespace ProseWrap.Block

/-- Whether some of the tests for structure hold of a line, which comes without
its indentation. -/
def isMarked (text : Text) : Bool :=
  (Line.fence? text).isSome || 0 < Line.atxLevel text || Line.isThematicBreak text
    || (Line.itemMark? text).isSome

/-- Whether a line ends a paragraph, a list item or a definition before it. -/
def endsProse (column : Option Nat) (text next : Text) : Bool :=
  if Line.isBlank text then true
  else if column.getD 0 + 3 < Line.indentWidth text then false
  else
    let content := Text.trimStart text
    isMarked content || (Line.quoteMark? content).isSome || (Line.definitionMark? text).isSome
      || Line.beginsTable content next

/-- The lines that go on with a list item or a definition whose text begins at
column `least`. -/
def continuation (column : Option Nat) (least : Nat) : List Text → List Text
  | [] => []
  | text :: rest =>
    if endsProse column text (rest.headD []) || Line.indentWidth text < least then []
    else Text.trimStart text :: continuation column least rest

/-! ## Paragraphs -/

/-- How a paragraph turns out: prose, a heading because it is underlined, or a
term because a definition follows. -/
inductive Outcome where
  | plain
  | underlined (level : Nat)
  | defined
  deriving DecidableEq, Repr

/-- The lines that go on with a paragraph, and how it turns out. -/
def paragraphRest (column : Option Nat) : List Text → List Text × Outcome
  | [] => ([], .plain)
  | text :: rest =>
    let level := if Line.indentWidth text ≤ 3 then Line.underlineLevel (Text.trimStart text) else 0
    if 0 < level then ([], .underlined level)
    else if (Line.definitionMark? text).isSome then ([], .defined)
    else if endsProse column text (rest.headD []) then ([], .plain)
    else
      let more := paragraphRest column rest
      (Text.trimStart text :: more.1, more.2)

/-- The block that a paragraph turns out to be, and how far it reaches. The
line at which the paragraph stops belongs to it only if it is its underline. -/
def readParagraph (column : Option Nat) (text : Text) (rest : List Text) : BlockKind × Extent :=
  let more := paragraphRest column rest
  let lines := Line.content text :: more.1
  let stop := more.1.length + 1
  match more.2 with
  | .plain => (.prose ⟨.paragraph (Line.indent text), lines⟩, ⟨stop - 1, stop⟩)
  | .defined => (.term lines, ⟨stop - 1, stop⟩)
  | .underlined level => (.heading level true, ⟨stop, stop + 1⟩)

/-! ## Quotations -/

/-- What a line quotes, if it is quoted at the given indentation and depth. -/
def quotedAt? (indent : Text) (depth : Nat) (text : Text) : Option Text :=
  if Line.indent text = indent then
    match Line.quoteMark? (Line.content text) with
    | some quote => if quote.depth = depth then some quote.content else none
    | none => none
  else none

/-- What the lines at the front of a list quote, as long as they belong to the
same quotation. -/
def quotedRun (indent : Text) (depth : Nat) : List Text → List Text
  | [] => []
  | text :: rest =>
    match quotedAt? indent depth text with
    | some quoted => quoted :: quotedRun indent depth rest
    | none => []

/-- Whether what a line quotes is not plain prose. -/
def isQuotedStructure (quoted : Text) : Bool :=
  let content := Text.trimStart quoted
  4 ≤ Line.indentWidth quoted || isMarked content || content.head? == some '|'
    || (Line.htmlKind? content).isSome || Line.isReference content
    || (Line.definitionMark? quoted).isSome || 0 < Line.underlineLevel content

/-- Whether what a line quotes ends quoted prose before it. -/
def endsQuotedProse (quoted next : Text) : Bool :=
  let content := Text.trimStart quoted
  Line.beginsTable content next || isMarked content || (Line.definitionMark? quoted).isSome
    || 0 < Line.underlineLevel content

/-- The quoted lines that go on with quoted prose. -/
def quotedProse : List Text → List Text
  | [] => []
  | quoted :: rest =>
    if Line.isBlank quoted || endsQuotedProse quoted (rest.headD []) then []
    else Text.trimStart quoted :: quotedProse rest

/-- How many of some lines come up to and with the first that satisfies
`closes`; all of them if none does. -/
def countThrough (closes : Text → Bool) (lines : List Text) : Nat :=
  match lines.findIdx? closes with
  | some k => k + 1
  | none => lines.length

/-- The quotation that begins with a line, and how far it reaches. -/
def readQuote (text : Text) (quote : Line.QuoteMark) (rest : List Text) : BlockKind × Extent :=
  let indent := Line.indent text
  let quoted := quotedRun indent quote.depth rest
  if Line.isBlank quote.content then (.quotedStructure indent quote.depth, ⟨1 - 1, 1⟩)
  else if isQuotedStructure quote.content then
    let count :=
      match Line.fence? (Text.trimStart quote.content) with
      | some fence => countThrough (fun inner => Line.endsFence fence (Text.trimStart inner)) quoted
      | none => (quoted.takeWhile fun inner => !Line.isBlank inner).length
    let stop := count + 1
    (.quotedStructure indent quote.depth, ⟨stop - 1, stop⟩)
  else
    let more := quotedProse quoted
    let stop := more.length + 1
    (.prose ⟨.quote indent quote.depth, Text.trimStart quote.content :: more⟩, ⟨stop - 1, stop⟩)

/-! ## List items and definitions -/

/-- What the further lines of a list item begin with. -/
def itemIndent (indent marker : Text) : Text := indent ++ List.replicate (marker.length + 1) ' '

/-- The list item that begins with a line, and how far it reaches. -/
def readItem (text : Text) (item : Line.ItemMark) (rest : List Text) : BlockKind × Extent :=
  let indent := Line.indent text
  let further := itemIndent indent item.marker
  let column := Line.columns further
  let more := continuation (some column) column rest
  let stop := more.length + 1
  (.prose ⟨.listItem indent item.marker item.ordered further, item.content :: more⟩, ⟨stop - 1, stop⟩)

/-- The marker of a definition with a space in place of its colon. -/
def colonAsSpace (marker : Text) : Text := marker.map fun c => if c == ':' then ' ' else c

/-- The definition that begins with a line, and how far it reaches. -/
def readDefinition (column : Option Nat) (body : Line.DefinitionMark) (rest : List Text) :
    BlockKind × Extent :=
  let more := continuation column (Line.columns (colonAsSpace body.marker)) rest
  let stop := more.length + 1
  (.prose ⟨.definition body.marker, body.content :: more⟩, ⟨stop - 1, stop⟩)

/-! ## Blocks that are not prose -/

/-- How many further lines indented code takes: those that are indented far
enough, and the blank ones between them. -/
def countIndented (least : Nat) (rest : List Text) : Nat :=
  let run := rest.takeWhile fun text => Line.isBlank text || least ≤ Line.indentWidth text
  (Text.dropEndWhile Line.isBlank run).length

/-- How many further lines a block of HTML takes. -/
def countHtml (kind : Line.HtmlKind) (text : Text) (rest : List Text) : Nat :=
  match kind with
  | .generic => (rest.takeWhile fun line => !Line.isBlank line).length
  | _ =>
    let closes := Line.endsHtml kind (Text.trimStart text)
    if closes text then 0 else countThrough closes rest

/-- How many further lines a table takes. -/
def countTable (rest : List Text) : Nat :=
  (rest.takeWhile fun text => !Line.isBlank text && text.any (· == '|')).length

/-- The front matter that begins with the first line of a document, and how far
it reaches. -/
def frontMatter? (text : Text) (rest : List Text) : Option (FrontMatter × Extent) :=
  let fence := Text.trimEnd text
  let closes (line : Text) : Bool :=
    Text.trimEnd line == fence || (fence == ['-', '-', '-'] && Text.trimEnd line == ['.', '.', '.'])
  if fence == ['-', '-', '-'] || fence == ['+', '+', '+'] then
    (rest.findIdx? closes).map fun k =>
      let last := k + 1
      (if fence == ['+', '+', '+'] then .toml else .yaml, ⟨last, last + 1⟩)
  else none

end ProseWrap.Block
