import ProseWrap.Lint.Address
import ProseWrap.Wrap.Document

/-!
# The rule on line lengths

The rule finds lines that are wider than a limit (`Rule.findings`) and mends
what wrapping can mend (`Rule.mend`).

Unless the rule is strict, addresses count as placeholders, and lines that no
wrapping could shorten are exempt (`resistsWrapping`).
-/

namespace ProseWrap.Lint

/-! ## Configuration -/

/-- Which text is wrapped to mend a document. -/
inductive MendMode where
  /-- The paragraphs with a line that is too wide, each line on its own. -/
  | paragraphs
  /-- All prose. -/
  | everything
  /-- All prose, with each sentence on a line of its own. -/
  | sentences
  deriving DecidableEq, Repr

/-- The mode with a name. -/
def MendMode.ofName? (name : Text) : Option MendMode :=
  if name == "default".toList then some .paragraphs
  else if name == "normalize".toList then some .everything
  else if name == "sentence-per-line".toList then some .sentences
  else none

/-- What a user asks of the rule. -/
structure RuleConfig where
  lineLength : Setting LengthValue := .missing
  codeBlocks : Setting Bool := .missing
  tables : Setting Bool := .missing
  headings : Setting Bool := .missing
  paragraphs : Setting Bool := .missing
  strict : Setting Bool := .missing
  mends : Setting Bool := .missing
  mendMode : Setting Text := .missing
  lengthMode : Setting Text := .missing
  abbreviations : Setting (List Text) := .missing
  deriving DecidableEq

/-- The rule: which blocks it looks at, how strict it is, how it mends, and its
options for wrapping. -/
structure Rule where
  codeBlocks : Bool
  tables : Bool
  headings : Bool
  paragraphs : Bool
  strict : Bool
  mends : Bool
  mendMode : Option MendMode
  options : Options
  deriving DecidableEq

/-- The configuration of the wrapping that a rule does. -/
def RuleConfig.wrapping (config : RuleConfig) : Config where
  lineLength := config.lineLength
  lengthMode := config.lengthMode
  abbreviations := .given (config.abbreviations.getD [])

/-- The rule that a configuration asks for. -/
def RuleConfig.resolve (config : RuleConfig) : Report Rule := do
  let options ← config.wrapping.resolve
  return {
    codeBlocks := config.codeBlocks.getD true
    tables := config.tables.getD false
    headings := config.headings.getD true
    paragraphs := config.paragraphs.getD true
    strict := config.strict.getD false
    mends := config.mends.getD false
    mendMode :=
      match config.mendMode.value? with
      | some name => MendMode.ofName? name
      | none => some .paragraphs
    options }

/-! ## Findings -/

/-- A line, counted from 1, that is wider than the limit, or that has no width
because nothing can be measured. -/
structure Finding where
  line : Nat
  width : Option Nat
  limit : Nat
  deriving DecidableEq, Repr

namespace Finding

/-- The column, counted from 1, after the limit. -/
def column (finding : Finding) : Nat := finding.limit + 1

/-- The wording of a finding. -/
def message (finding : Finding) : String :=
  "Line length " ++ (finding.width.map toString).getD "undefined" ++ " exceeds "
    ++ toString finding.limit ++ " characters"

end Finding

/-- Whether a line is a row of equals signs or hyphens. -/
def isUnderline (text : Text) : Bool :=
  !text.isEmpty && (text.all (· == '=') || text.all (· == '-'))

/-- The text without the quotation marks at its start, each with one space or
tab after it. -/
def withoutQuotes : Text → Text
  | [] => []
  | c :: rest =>
    if c == '>' then
      match rest with
      | [] => []
      | d :: more => if Text.isIndent d then withoutQuotes more else withoutQuotes (d :: more)
    else c :: rest

/-- The text without the mark of a list item or a heading at its start. -/
def withoutMark (text : Text) : Text :=
  match Line.itemMark? text with
  | some item => item.content
  | none => if Line.atxLevel text = 0 then text else Line.content (text.drop (Line.atxLevel text))

/-- Whether a text is nothing but a link or an image. -/
def isLoneLink (text : Text) : Bool :=
  match (Forest.ofText text).roots with
  | [span] =>
    span.start == 0 && span.stop == text.length &&
      match span.kind with
      | .link _ => true
      | .image _ => true
      | .linkedImage _ _ => true
      | _ => false
  | _ => false

/-- Whether wrapping cannot shorten a line: it defines a reference, underlines
a heading, or holds one address, link or image. -/
def resistsWrapping (text : Text) : Bool :=
  let text := Text.trim text
  let content := withoutMark (withoutQuotes text)
  Line.isReference text || isUnderline text || isAddress content || isLoneLink content

namespace Rule

/-- The greatest width of a line; 0 stands for no limit. -/
def limit (rule : Rule) : Nat := rule.options.lineLength.toNat?.getD 0

/-- Whether the rule looks at blocks of a kind. -/
def checks (rule : Rule) : BlockKind → Bool
  | .code _ => rule.codeBlocks
  | .table => rule.tables
  | .heading _ _ => rule.headings
  | .blank => false
  | .frontMatter _ => false
  | .html => rule.strict
  | _ => rule.paragraphs

/-- The width of a line as the rule counts it. -/
def width (rule : Rule) (text : Text) : Option Nat :=
  if rule.strict || !Text.hasPart text ['h', 't', 't', 'p'] then measure? rule.options.lengthMode text
  else measure? rule.options.lengthMode (shorten text)

/-- What the rule finds on the line with an index. -/
def finding? (rule : Rule) (index : Nat) (text : Text) : Option Finding :=
  let text := Text.trimEnd text
  let width := rule.width text
  if width.any (· ≤ rule.limit) then none
  else if !rule.strict && resistsWrapping text then none
  else some ⟨index + 1, width, rule.limit⟩

/-- What the rule finds in a document. -/
def findings (rule : Rule) (document : Document) : List Finding :=
  (document.blocks.filter fun block => rule.checks block.kind).flatMap fun block =>
    ((block.sources document.lines).zipIdx block.firstLine).filterMap fun entry =>
      rule.finding? entry.2 entry.1.text

/-- Checks a text. -/
def check (rule : Rule) (text : Text) : Report (List Finding) :=
  if rule.limit = 0 then return []
  else do return rule.findings (← Document.read text)

end Rule

/-! ## Mending -/

/-- A text that is being mended, the first lines of the paragraphs that are
done, and what was told so far, the last event first. -/
structure Mending where
  text : Text
  done : List Nat
  events : List Event

/-- Lays out the paragraph of a finding, unless that is done already. -/
def Mending.step (style : Style) (mending : Mending) (finding : Finding) : Mending :=
  let document := Document.ofText mending.text
  let events := .classified document.blocks.length document.lines.length :: mending.events
  match document.wrapAt style (finding.line - 1) with
  | none => { mending with events }
  | some replacement =>
    if mending.done.contains replacement.firstLine then { mending with events }
    else ⟨replacement.apply mending.text, replacement.firstLine :: mending.done, events⟩

namespace Rule

/-- The options with which the rule wraps. They are settled once more, from the
length mode instead of its name, which fails if there is none. -/
def rewrapping (rule : Rule) : Except Fault Options :=
  if rule.options.lengthMode.isSome then .ok rule.options else .error .namelessMode

/-- Looks for the paragraphs that findings are in, without options to lay them
out. The first one that is found ends this with a fault. -/
def failFindings (fault : Fault) (text : Text) (findings : List Finding) : Report Text :=
  let document := Document.ofText text
  let read : Event := .classified document.blocks.length document.lines.length
  let missed := findings.reverse.takeWhile fun finding =>
    (document.proseAt? (finding.line - 1)).isNone
  if missed.length < findings.length then
    ⟨.error fault, [], List.replicate (missed.length + 1) read⟩
  else ⟨.ok text, [], List.replicate missed.length read ++ [.mended 0 findings.length]⟩

/-- Lays out the paragraphs that findings are in, from the last one to the
first, so that the numbers of the lines before stay right. -/
def mendFindings (rule : Rule) (text : Text) (findings : List Finding) : Report Text :=
  match rule.rewrapping with
  | .error fault => failFindings fault text findings
  | .ok options =>
    let style := { options with preserveBreaks := true }.style
    let mending := findings.reverse.foldl (Mending.step style) ⟨text, [], []⟩
    ⟨.ok mending.text, [], (.mended mending.done.length findings.length :: mending.events).reverse⟩

/-- Lays out the paragraphs that have a line that is too wide. -/
def mendParagraphs (rule : Rule) (text : Text) : Report Text := do
  let findings ← rule.check text
  if findings.isEmpty then return text else rule.mendFindings text findings

/-- The text after mending. There is none if the rule does not know its
mode. -/
def mend (rule : Rule) (text : Text) : Report (Option Text) := do
  if !rule.mends || !rule.paragraphs then return some text
  else
    match rule.mendMode with
    | some .everything => do
      let options ← Report.ofExcept rule.rewrapping
      return some (← options.wrapText text)
    | some .sentences => do
      let options ← Report.ofExcept rule.rewrapping
      return some (← { options with sentencePerLine := true }.wrapText text)
    | some .paragraphs => return some (← rule.mendParagraphs text)
    | none => return none

end Rule

/-- What the rule finds in a text, the text after mending, and what the rule
still finds there. -/
structure Outcome where
  findings : List Finding
  mended : Option Text
  remaining : Option (List Finding)
  deriving DecidableEq, Repr

/-- Checks a text, mends it, and checks it again. -/
def run (config : RuleConfig) (text : Text) : Report Outcome := do
  let rule ← config.resolve
  let findings ← rule.check text
  match ← rule.mend text with
  | none => return ⟨findings, none, none⟩
  | some mended => return ⟨findings, some mended, some (← rule.check mended)⟩

end ProseWrap.Lint
