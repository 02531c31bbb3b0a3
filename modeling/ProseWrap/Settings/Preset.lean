import ProseWrap.Settings.Options

/-!
# Presets

A preset is a named configuration for a common way of wrapping. Presets leave
the abbreviations and the length mode open.
-/

namespace ProseWrap

/-- A common way of wrapping. -/
inductive Preset where
  | wrap
  | normalize
  | sentencePerLine
  | semantic
  deriving DecidableEq, Repr

namespace Preset

/-- All presets, in the order in which they are listed. -/
def all : List Preset := [wrap, normalize, sentencePerLine, semantic]

/-- The name of a preset. -/
def name : Preset → String
  | wrap => "wrap"
  | normalize => "normalize"
  | sentencePerLine => "sentencePerLine"
  | semantic => "semantic"

/-- The line length of 80. -/
def eighty : Setting LengthValue := .given (.number (.ofNat 80))

/-- The line length that sets no limit. -/
def noLimit : Setting LengthValue := .given (.number (.ofNat 0))

/-- The configuration of a preset. -/
def config : Preset → Config
  | wrap =>
    { lineLength := eighty, breakOnSentences := .given true, preserveBreaks := .given false,
      sentencePerLine := .given false, semanticLineBreaks := .given false }
  | normalize =>
    { lineLength := eighty, breakOnSentences := .given false, preserveBreaks := .given false,
      sentencePerLine := .given false, semanticLineBreaks := .given false }
  | sentencePerLine =>
    { lineLength := noLimit, preserveBreaks := .given false, sentencePerLine := .given true,
      semanticLineBreaks := .given false }
  | semantic =>
    { lineLength := eighty, preserveBreaks := .given false, sentencePerLine := .given false,
      semanticLineBreaks := .given true }

/-- The preset with a name. -/
def ofName (name : Text) : Except Fault Preset :=
  match all.find? fun preset => preset.name.toList == name with
  | some preset => .ok preset
  | none => .error (.preset name)

end Preset

end ProseWrap
