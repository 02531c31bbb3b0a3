import ProseWrap.Block.Basic
import ProseWrap.Wrap.Style

/-!
# Parts of prose

A hard break stays where it is, so prose is laid out in parts: a part ends with
a line that ends with a hard break, and with every line if breaks are to be
preserved (`Part.split`).

A part of a single line that is narrow enough stays as it was written, and so
does a part of nothing but blanks. The last line of any other part is given its
hard break back (`Part.render`).
-/

namespace ProseWrap

/-- Lines of prose that are laid out together, and whether the last of them
ends with a hard break. -/
structure Part where
  lines : List Text
  hardBreak : Bool
  deriving DecidableEq, Repr

namespace Part

/-- The parts of some lines of prose. -/
def split (preserveBreaks : Bool) : List Text → List Part
  | [] => []
  | line :: rest =>
    if preserveBreaks || Line.isHardBroken line then
      ⟨[line], Line.isHardBroken line⟩ :: split preserveBreaks rest
    else
      match split preserveBreaks rest with
      | [] => [⟨[line], false⟩]
      | part :: others => ⟨line :: part.lines, part.hardBreak⟩ :: others

/-- The text of a part, on one line. -/
def text (part : Part) : Text :=
  List.intercalate [' '] ((part.lines.map Text.trim).filter fun line => !line.isEmpty)

/-- The lines with two spaces after the last one. -/
def addHardBreak : List Text → List Text
  | [] => []
  | [line] => [line ++ [' ', ' ']]
  | line :: rest => line :: addHardBreak rest

/-- The lines of a part. The line on which it began is `source`, and `last`
says that no part follows. -/
def render (style : Style) (leads : Leads) (source : Text) (last : Bool) (part : Part) : List Text :=
  let text := part.text
  if text.isEmpty then [source]
  else if style.sentenceLines == .runOn && part.lines.length == 1 && style.admits (Text.trimEnd source)
  then [source]
  else
    let lines := style.layout leads text
    if part.hardBreak && !last && text.getLast? != some '\\' then addHardBreak lines else lines

/-- The lines of the parts after the first, whose lines began as `sources`. -/
def renderRest (style : Style) (lead : Text) (sources : List Text) : List Part → List Text
  | [] => []
  | part :: rest =>
    part.render style ⟨lead, lead⟩ (sources.headD []) rest.isEmpty
      ++ renderRest style lead (sources.drop part.lines.length) rest

/-- The lines of parts, whose lines began as `sources`. -/
def renderAll (style : Style) (leads : Leads) (sources : List Text) : List Part → List Text
  | [] => []
  | part :: rest =>
    part.render style leads (sources.headD []) rest.isEmpty
      ++ renderRest style leads.further (sources.drop part.lines.length) rest

end Part

end ProseWrap
