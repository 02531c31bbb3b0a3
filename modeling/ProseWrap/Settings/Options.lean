import ProseWrap.Settings.Config
import ProseWrap.Sentence.Abbreviation
import ProseWrap.Width

/-!
# Options

Options are a configuration in which everything is settled. `Config.options`
checks a configuration and fills in the defaults: the line length is checked
first and the length mode last. Abbreviations of which nothing would be left
are dropped, and `Config.warnings` tells which.

A configuration that is already complete can be taken at its word
(`Config.settled?`), without a check of the line length.

Two names are found among those of the length modes although they belong to
none (`LengthMode.strayNames`). They are accepted, and leave options without a
length mode: nothing can be measured then.
-/

namespace ProseWrap

/-- A configuration in which everything is settled. There is no length mode if
one of the stray names was asked for. -/
structure Options where
  lineLength : Number
  breakOnSentences : Bool
  preserveBreaks : Bool
  sentencePerLine : Bool
  semanticLineBreaks : Bool
  abbreviations : Option (List Text)
  lengthMode : Option LengthMode
  deriving DecidableEq

/-- The options that an empty configuration stands for. -/
def Options.default : Options where
  lineLength := .ofNat 80
  breakOnSentences := true
  preserveBreaks := false
  sentencePerLine := false
  semanticLineBreaks := false
  abbreviations := none
  lengthMode := some .chars

namespace LengthMode

/-- The name of a length mode. -/
def name : LengthMode → Text
  | chars => ['c', 'h', 'a', 'r', 's']
  | visual => ['v', 'i', 's', 'u', 'a', 'l']
  | bytes => ['b', 'y', 't', 'e', 's']

/-- The length modes by their names, with the further names that they go by. -/
def names : List (String × LengthMode) :=
  [("chars", chars), ("characters", chars), ("visual", visual), ("display", visual),
   ("visual-width", visual), ("visual_width", visual), ("bytes", bytes)]

/-- Names that are found among those of the length modes, but belong to
none. -/
def strayNames : List String := ["constructor", "__proto__"]

/-- What a name stands for, in any case and with blanks around it: a length
mode, or none for a stray name. -/
def ofName (name : Text) : Except Fault (Option LengthMode) :=
  let key := Unicode.lowercase (Text.trim name)
  match names.find? fun entry => entry.1.toList == key with
  | some entry => .ok (some entry.2)
  | none =>
    if strayNames.any fun stray => stray.toList == key then .ok none
    else .error (.lengthMode name)

/-- The length mode whose own name this is. -/
def ofOwnName? (name : Text) : Option LengthMode :=
  [chars, visual, bytes].find? fun mode => mode.name == name

end LengthMode

/-- The count that a line length is, if it is one. -/
def LengthValue.toNat? : LengthValue → Option Nat
  | number value => value.toNat?
  | _ => none

/-- The number that a line length is, if it is one. -/
def LengthValue.number? : LengthValue → Option Number
  | number value => some value
  | _ => none

namespace Config

/-- Whether nothing would be left of an abbreviation. -/
def isEmptyEntry (entry : Text) : Bool :=
  (Text.trim (Text.dropEndWhile (· == '.') entry)).isEmpty

/-- The line length that a configuration asks for. -/
def checkedLength (config : Config) : Except Fault Nat :=
  let value := config.lineLength.getD (.number Options.default.lineLength)
  match value.toNat? with
  | some length => .ok length
  | none => .error (.lineLength value)

/-- The length mode that a configuration asks for. An empty name stands for the
default. -/
def checkedMode (config : Config) : Except Fault (Option LengthMode) :=
  match config.lengthMode.getD [] with
  | [] => .ok Options.default.lengthMode
  | name => LengthMode.ofName name

/-- The options that a configuration stands for. -/
def options (config : Config) : Except Fault Options :=
  match config.checkedLength, config.checkedMode with
  | .error fault, _ => .error fault
  | .ok _, .error fault => .error fault
  | .ok lineLength, .ok lengthMode =>
    .ok {
      lineLength := .ofNat lineLength
      breakOnSentences := config.breakOnSentences.getD Options.default.breakOnSentences
      preserveBreaks := config.preserveBreaks.getD Options.default.preserveBreaks
      sentencePerLine := config.sentencePerLine.getD Options.default.sentencePerLine
      semanticLineBreaks := config.semanticLineBreaks.getD Options.default.semanticLineBreaks
      abbreviations := config.abbreviations.value?.map (·.filter fun entry => !isEmptyEntry entry)
      lengthMode }

/-- The warnings about a configuration: one for each abbreviation that is
dropped. If the line length is wrong, nothing else is looked at. -/
def warnings (config : Config) : List Warning :=
  match config.checkedLength with
  | .error _ => []
  | .ok _ => ((config.abbreviations.getD []).filter isEmptyEntry).map .emptyAbbreviation

/-- The options that a complete configuration spells out: every setting but the
abbreviations is given, and the length mode by its own name. -/
def settled? (config : Config) : Option Options := do
  let lineLength ← config.lineLength.value?.bind LengthValue.number?
  let breakOnSentences ← config.breakOnSentences.value?
  let preserveBreaks ← config.preserveBreaks.value?
  let sentencePerLine ← config.sentencePerLine.value?
  let semanticLineBreaks ← config.semanticLineBreaks.value?
  let lengthMode ← config.lengthMode.value?.bind LengthMode.ofOwnName?
  some { lineLength, breakOnSentences, preserveBreaks, sentencePerLine, semanticLineBreaks,
         abbreviations := config.abbreviations.value?, lengthMode := some lengthMode }

/-- The options of a configuration that is taken at its word: one that is
`fixed` and complete. -/
def taken? (config : Config) (fixed : Bool) : Option Options :=
  if fixed then config.settled? else none

end Config

end ProseWrap
