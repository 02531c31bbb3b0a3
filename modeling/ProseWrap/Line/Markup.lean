import ProseWrap.Line.Marker
import ProseWrap.Unicode.Lowercase

/-!
# Lines of HTML, tables, references and templates

The lines that begin a block of HTML or a table, define a reference, or hold a
template directive; and `beginsBlock`, which tells the words that must not
begin a line of prose because they would be read as one of these or of the
marks of a block.
-/

namespace ProseWrap.Line

/-! ## HTML -/

/-- What a block of HTML is: a comment, an element whose text is not Markdown,
or any other. -/
inductive HtmlKind where
  | comment
  | raw
  | generic
  deriving DecidableEq, Repr

/-- The elements whose text is not Markdown. -/
def rawElements : List Text :=
  [['s', 'c', 'r', 'i', 'p', 't'], ['p', 'r', 'e'], ['s', 't', 'y', 'l', 'e'],
    ['t', 'e', 'x', 't', 'a', 'r', 'e', 'a']]

/-- Whether a text after the name of an element ends there, at a space or tab,
or at the tag's end. -/
def endsTagName (rest : Text) : Bool :=
  (rest.head?.map fun c => Text.isIndent c || c == '>').getD true

/-- The element that a line opens, if its text is not Markdown; letter case
does not matter. -/
def rawElement? (text : Text) : Option Text :=
  match text with
  | '<' :: rest =>
    rawElements.find? fun name =>
      (rest.take name.length).map Char.toLower == name && endsTagName (rest.drop name.length)
  | _ => none

/-- Whether a line begins with an opening or a closing tag. -/
def opensTag (text : Text) : Bool :=
  match text with
  | '<' :: rest =>
    let named := if rest.head? == some '/' then rest.drop 1 else rest
    let after := named.dropWhile fun c => c.isAlphanum || c == '-'
    (named.head?.map Char.isAlpha).getD false && (endsTagName after || ['/', '>'].isPrefixOf after)
  | _ => false

/-- Whether a line begins with an instruction or a declaration. -/
def opensDeclaration (text : Text) : Bool :=
  match text with
  | '<' :: '?' :: _ => true
  | '<' :: '!' :: c :: _ => c.isUpper
  | _ => false

/-- The block of HTML that a line begins. -/
def htmlKind? (text : Text) : Option HtmlKind :=
  if ['<', '!', '-', '-'].isPrefixOf text then some .comment
  else if (rawElement? text).isSome then some .raw
  else if opensTag text || opensDeclaration text then some .generic
  else none

/-- Whether a line ends the block of HTML that the line `opener` began. A blank
line ends a generic block, which is not asked here. -/
def endsHtml (kind : HtmlKind) (opener text : Text) : Bool :=
  match kind with
  | .comment => Text.hasPart text ['-', '-', '>']
  | .raw =>
    Text.hasPart (Unicode.lowercase text) ('<' :: '/' :: (rawElement? opener).getD [] ++ ['>'])
  | .generic => false

/-! ## Tables, references and templates -/

/-- The parts of a text between the occurrences of a character. -/
def splitAtChar (c : Char) : Text → List Text
  | [] => [[]]
  | d :: rest =>
    let parts := splitAtChar c rest
    if d == c then [] :: parts
    else
      match parts with
      | [] => [[d]]
      | part :: others => (d :: part) :: others

/-- Whether a text is hyphens with an optional colon at each end. -/
def isRule (text : Text) : Bool :=
  let dashes := if text.head? == some ':' then text.drop 1 else text
  let after := dashes.dropWhile (· == '-')
  dashes.head? == some '-' && (after == [] || after == [':'])

/-- Whether a text is a cell of the row below the head of a table. -/
def isDelimiterCell (text : Text) : Bool := isRule (Text.dropEndWhile Text.isIndent (content text))

/-- Whether a line is the row below the head of a table: cells of hyphens
between bars, which may also stand at both ends of the row. -/
def isDelimiterRow (text : Text) : Bool :=
  let cells := splitAtChar '|' (if text.head? == some '|' then text.drop 1 else text)
  let last := cells.getLast?.getD []
  cells.dropLast.all isDelimiterCell &&
    (isDelimiterCell last || (cells.length ≠ 1 && isBlank last))

/-- Whether a line begins a table: it begins with a bar, or it has one and the
next line is the row below a head. -/
def beginsTable (text next : Text) : Bool :=
  text.head? == some '|' || (text.contains '|' && isDelimiterRow (Text.trim next))

/-- Whether a line defines a reference: a label in brackets and a colon. -/
def isReference (text : Text) : Bool :=
  match text with
  | '[' :: rest =>
    let label := rest.takeWhile (· != ']')
    !label.isEmpty && [']', ':'].isPrefixOf (rest.drop label.length)
  | _ => false

/-- Whether a text is `opener`, something on one line, and `closer`. -/
def isEnclosed (opener closer text : Text) : Bool :=
  let inner := (text.drop opener.length).take (text.length - opener.length - closer.length)
  opener.length + closer.length ≤ text.length && opener.isPrefixOf text && closer.isSuffixOf text
    && !inner.any Text.isLineEnd

/-- Whether a line is a template directive and nothing else. -/
def isDirective (text : Text) : Bool :=
  let body := Text.dropEndWhile Text.isIndent text
  let opens := [['\x7b', '\x7b', '<'], ['\x7b', '\x7b', '%']]
  let closes := [['>', '\x7d', '\x7d'], ['%', '\x7d', '\x7d']]
  opens.any (fun opener => closes.any fun closer => isEnclosed opener closer body)
    || isEnclosed ['\x7b', '%'] ['%', '\x7d'] body

/-! ## Words -/

/-- Whether a text is a character repeated between `low` and `high` times. -/
def isRun (c : Char) (low high : Nat) (text : Text) : Bool :=
  text.all (· == c) && low ≤ text.length && text.length ≤ high

/-- Whether a word by itself is a mark: number signs, a bullet, a number with
its full stop or parenthesis, equals signs, hyphens of a table, a colon, or
stars or underscores of a thematic break. -/
def isMark (word : Text) : Bool :=
  isRun '#' 1 6 word || word == ['-'] || word == ['+'] || word == ['*']
    || ((enumerator? word).map fun item => item.marker == word).getD false
    || isRun '=' 1 word.length word || isRule word || word == [':']
    || isRun '*' 3 word.length word || isRun '_' 3 word.length word

/-- Whether a line that begins with a word would be read as something other
than prose. -/
def beginsBlock (word : Text) : Bool :=
  word.head? == some '>' || word.head? == some '|' || isMark word
    || ['\x60', '\x60', '\x60'].isPrefixOf word || ['~', '~', '~'].isPrefixOf word || isReference word

end ProseWrap.Line
