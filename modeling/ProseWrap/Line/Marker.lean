import ProseWrap.Line.Basic

/-!
# Lines that begin or end a block

The marks of Markdown that stand at the start of a line: fences around code,
headings, thematic breaks, list items, quotations and definitions. Each
function takes the line without its indentation, except `definitionMark?`,
which needs it.
-/

namespace ProseWrap.Line

/-- Whether a text is empty or begins with a space or a tab. -/
def endsMark (rest : Text) : Bool := (rest.head?.map Text.isIndent).getD true

/-! ## Fences -/

/-- A run of backticks or tildes that opens a block of code. -/
structure Fence where
  char : Char
  length : Nat
  deriving DecidableEq, Repr

/-- The fence that a line opens: three or more backticks or tildes. What
follows stays on the line, and after backticks it has none. -/
def fence? (text : Text) : Option Fence :=
  match text with
  | [] => none
  | c :: _ =>
    let length := (text.takeWhile (· == c)).length
    let info := text.drop length
    if (c == '\x60' || c == '~') && 3 ≤ length && !info.any Text.isLineEnd
        && !(c == '\x60' && info.contains c) then some ⟨c, length⟩
    else none

/-- Whether a line closes a fence: at least as many of its characters and
nothing else. -/
def endsFence (fence : Fence) (text : Text) : Bool :=
  let length := (text.takeWhile (· == fence.char)).length
  fence.length ≤ length && isBlank (text.drop length)

/-! ## Headings and thematic breaks -/

/-- The level of a heading that begins with one to six number signs; 0 if there
is none. -/
def atxLevel (text : Text) : Nat :=
  let level := (text.takeWhile (· == '#')).length
  if 1 ≤ level ∧ level ≤ 6 ∧ endsMark (text.drop level) then level else 0

/-- The level that a line gives to the paragraph before it by underlining: 1
for equals signs, 2 for hyphens, 0 for any other line. -/
def underlineLevel (text : Text) : Nat :=
  match text with
  | [] => 0
  | c :: rest =>
    if (c == '=' || c == '-') && isBlank (rest.dropWhile (· == c)) then (if c == '=' then 1 else 2)
    else 0

/-- Whether a line is a thematic break: three or more stars, hyphens or
underscores, with nothing but spaces and tabs between and after them. -/
def isThematicBreak (text : Text) : Bool :=
  match text with
  | [] => false
  | c :: _ =>
    (c == '*' || c == '-' || c == '_') && text.all (fun d => d == c || Text.isIndent d)
      && 3 ≤ text.count c

/-! ## List items, quotations and definitions -/

/-- The marker of a list item and what follows it. -/
structure ItemMark where
  marker : Text
  ordered : Bool
  content : Text
  deriving DecidableEq, Repr

/-- The bullet at the start of a line. -/
def bullet? (text : Text) : Option ItemMark :=
  match text with
  | [] => none
  | c :: rest =>
    if (c == '-' || c == '*' || c == '+') && endsMark rest then some ⟨[c], false, content rest⟩
    else none

/-- The number at the start of a line: one to nine digits and a full stop or a
parenthesis. -/
def enumerator? (text : Text) : Option ItemMark :=
  let digits := text.takeWhile Char.isDigit
  match text.drop digits.length with
  | [] => none
  | c :: rest =>
    if 1 ≤ digits.length && digits.length ≤ 9 && (c == '.' || c == ')') && endsMark rest then
      some ⟨digits ++ [c], true, content rest⟩
    else none

/-- The marker of the list item that a line begins. -/
def itemMark? (text : Text) : Option ItemMark := (bullet? text).or (enumerator? text)

/-- How deep a line is quoted and what is quoted. -/
structure QuoteMark where
  depth : Nat
  content : Text
  deriving DecidableEq, Repr

/-- Takes quotation marks off a text that is quoted `depth` times already, at
most `fuel` of them. One space belongs to each mark; up to three more spaces or
tabs may stand before the next one. -/
def unquote : Nat → Nat → Text → QuoteMark
  | fuel + 1, depth, '>' :: rest =>
    let rest := if rest.head? == some ' ' then rest.drop 1 else rest
    let gap := (indent rest).length
    if gap ≤ 3 ∧ (rest.drop gap).head? = some '>' then unquote fuel (depth + 1) (rest.drop gap)
    else ⟨depth + 1, rest⟩
  | _, depth, text => ⟨depth, text⟩

/-- The quotation that a line belongs to. -/
def quoteMark? (text : Text) : Option QuoteMark :=
  if text.head? == some '>' then some (unquote text.length 0 text) else none

/-- What comes before a definition and the definition. -/
structure DefinitionMark where
  marker : Text
  content : Text
  deriving DecidableEq, Repr

/-- The definition that a line begins: up to three spaces or tabs, a colon,
more spaces or tabs, and something that is not blank. -/
def definitionMark? (text : Text) : Option DefinitionMark :=
  let lead := indent text
  match text.drop lead.length with
  | ':' :: rest =>
    let gap := indent rest
    match rest.drop gap.length with
    | [] => none
    | c :: more =>
      if lead.length ≤ 3 ∧ gap ≠ [] ∧ ¬ Text.isBlank c then some ⟨lead ++ ':' :: gap, c :: more⟩
      else none
  | _ => none

end ProseWrap.Line
