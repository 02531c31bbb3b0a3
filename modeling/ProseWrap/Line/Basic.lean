import ProseWrap.Text.Blank

/-!
# Lines

A document is a list of lines, each with the newline that ends it
(`Line.split`). A line feed ends a line, alone or after a carriage return; a
carriage return by itself is a character like any other.
-/

namespace ProseWrap

/-- What ends a line. Only the last line of a document may have no newline. -/
inductive Newline where
  | none
  | lf
  | crlf
  deriving DecidableEq, Repr

/-- The characters of a newline. -/
def Newline.text : Newline → Text
  | none => []
  | lf => ['\n']
  | crlf => ['\r', '\n']

/-- A line of a document: its text, the newline after it, and the offset at
which it starts. -/
structure Line where
  text : Text
  newline : Newline
  start : Nat
  deriving DecidableEq, Repr

namespace Line

/-- The line as it stands in the document. -/
def source (line : Line) : Text := line.text ++ line.newline.text

/-- The offset after the newline of a line. -/
def stop (line : Line) : Nat := line.start + line.text.length + line.newline.text.length

/-- The lines of the text `rest`. The first of them starts at offset `start`,
and its characters so far are `current`, in reverse. -/
def splitFrom (start : Nat) (current : Text) : Text → List Line
  | [] => if current.isEmpty then [] else [⟨current.reverse, .none, start⟩]
  | c :: rest =>
    if c == '\n' then
      match current with
      | '\r' :: before =>
        ⟨before.reverse, .crlf, start⟩ :: splitFrom (start + before.length + 2) [] rest
      | _ => ⟨current.reverse, .lf, start⟩ :: splitFrom (start + current.length + 1) [] rest
    else splitFrom start (c :: current) rest

/-- The lines of a document. -/
def split (document : Text) : List Line := splitFrom 0 [] document

/-- The lines of a document, each with its index. -/
def indexed (document : Text) : List (Line × Nat) := (split document).zipIdx

/-- The document that a list of lines makes. -/
def join (lines : List Line) : Text := lines.flatMap source

/-! ## Indentation -/

/-- Whether a line holds nothing but spaces and tabs. -/
def isBlank (text : Text) : Bool := text.all Text.isIndent

/-- The spaces and tabs at the start of a line. -/
def indent (text : Text) : Text := text.takeWhile Text.isIndent

/-- A line without the spaces and tabs at its start. -/
def content (text : Text) : Text := text.dropWhile Text.isIndent

/-- The column after some spaces and tabs that begin at a given column. A tab
goes on to the next column that is a multiple of 4; anything else ends the
count. -/
def columnsFrom (column : Nat) : Text → Nat
  | [] => column
  | c :: rest =>
    if c == '\t' then columnsFrom (column + (4 - column % 4)) rest
    else if c == ' ' then columnsFrom (column + 1) rest
    else column

/-- How many columns the spaces and tabs at the start of a text take. -/
def columns (text : Text) : Nat := columnsFrom 0 text

/-- How many columns a line is indented. -/
def indentWidth (text : Text) : Nat := columns (indent text)

/-- Whether a line ends with a hard break: two spaces, or a backslash. -/
def isHardBroken (text : Text) : Bool :=
  match text.reverse with
  | '\\' :: _ => true
  | ' ' :: ' ' :: _ => true
  | _ => false

end Line

end ProseWrap
