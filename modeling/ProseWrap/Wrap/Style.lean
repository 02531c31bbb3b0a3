import ProseWrap.Layout.Packing
import ProseWrap.Settings.Options

/-!
# Laying out a run of text

A style is what options come to once they are put to use. `Style.layout` makes
the lines of a run of text: it is cut into tokens, the tokens are put into
groups (`Style.groups`), one for each line, and every line begins with its
lead.

Where sentences have lines of their own, a line break follows each sentence,
unless the next sentence begins with a word that would be read as the start of
a block (`sentenceGroups`).
-/

namespace ProseWrap

/-- How sentences share lines: they run on; each is a line; or each begins a
line and is broken after its clauses where it is too wide. -/
inductive SentenceLines where
  | runOn
  | whole
  | clauses
  deriving DecidableEq, Repr

/-- How text is laid out. -/
structure Style where
  limit : Limit
  lengthMode : LengthMode
  breakOnSentences : Bool
  preserveBreaks : Bool
  sentenceLines : SentenceLines
  abbreviations : Abbreviations

/-- The limit that options set. Without a length mode no width compares with a
line length, so that nothing is narrow enough unless every width is. -/
def Options.limit (options : Options) : Limit :=
  if options.lengthMode.isSome then .ofNumber options.lineLength
  else if options.lineLength = .finite 0 then .unlimited
  else .nothing

/-- The style that options ask for. In which mode widths are measured is of no
consequence if the options have none. -/
def Options.style (options : Options) : Style where
  limit := options.limit
  lengthMode := options.lengthMode.getD .chars
  breakOnSentences := options.breakOnSentences
  preserveBreaks := options.preserveBreaks
  sentenceLines :=
    if options.sentencePerLine then .whole
    else if options.semanticLineBreaks then .clauses
    else .runOn
  abbreviations := .ofList (options.abbreviations.getD [])

/-! ## Sentences -/

/-- Sentences that are finished, the last one first, and the tokens of the
current one, the last one first. -/
structure Grouping where
  done : List (List Token)
  current : List Token

namespace Grouping

/-- No sentence begun. -/
def empty : Grouping := ⟨[], []⟩

/-- Takes the last finished sentence up again if the next token may not begin a
line. -/
def reopen (grouping : Grouping) (token : Token) : Grouping :=
  match grouping.current, grouping.done with
  | [], last :: before => if token.beginsBlock then ⟨before, last.reverse⟩ else grouping
  | _, _ => grouping

/-- Ends the current sentence if it has tokens. -/
def finish (grouping : Grouping) : Grouping :=
  if grouping.current.isEmpty then grouping else ⟨grouping.current.reverse :: grouping.done, []⟩

/-- Adds a token. -/
def add (grouping : Grouping) (token : Token) : Grouping :=
  let grouping := grouping.reopen token
  let grouping := { grouping with current := token :: grouping.current }
  if token.sentenceEnd then grouping.finish else grouping

end Grouping

/-- The tokens of each sentence that begins a line. -/
def sentenceGroups (tokens : List Token) : List (List Token) :=
  (tokens.foldl Grouping.add .empty).finish.done.reverse

/-! ## Lines -/

/-- The lines of sentences that are broken after their clauses. The first line
has the first lead. -/
def packSentences (leads : Leads) (mode : LengthMode) (limit : Limit) :
    List (List Token) → List (List Token)
  | [] => []
  | sentence :: rest =>
    let furtherLeads : Leads := ⟨leads.further, leads.further⟩
    packClauses (leads.shape mode limit false) sentence
      ++ rest.flatMap (packClauses (furtherLeads.shape mode limit false))

namespace Style

/-- The tokens of a text. -/
def tokens (style : Style) (sentences : SentenceHandling) (text : Text) : List Token :=
  tokenize style.lengthMode style.abbreviations sentences text

/-- The tokens of each line of a text. -/
def groups (style : Style) (leads : Leads) (text : Text) : List (List Token) :=
  match style.sentenceLines with
  | .whole => sentenceGroups (style.tokens .split text)
  | .clauses =>
    packSentences leads style.lengthMode style.limit (sentenceGroups (style.tokens .split text))
  | .runOn =>
    pack (leads.shape style.lengthMode style.limit style.breakOnSentences)
      (style.tokens (if style.breakOnSentences then .marked else .ignored) text)

/-- The lines of a text. -/
def layout (style : Style) (leads : Leads) (text : Text) : List Text :=
  leads.render (style.groups leads text)

/-- Whether a text is narrow enough for a line. -/
def admits (style : Style) (text : Text) : Bool :=
  style.limit.admits (measure style.lengthMode text)

end Style

end ProseWrap
