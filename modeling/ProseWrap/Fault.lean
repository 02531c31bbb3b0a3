import ProseWrap.Number.Shortest
import ProseWrap.Text.Quoted

/-!
# Faults and warnings

A fault is the reason why settings cannot be used; a warning tells of a part of
them that is left out. `Fault.message` and `Warning.message` are the wordings.
-/

namespace ProseWrap

/-- What may be given as a line length. Only a whole number that is not
negative is right. -/
inductive LengthValue where
  | number (value : Number)
  | text (value : Text)
  | flag (value : Bool)
  deriving DecidableEq

/-- A line length as a message shows it. -/
def LengthValue.display : LengthValue → String
  | number value => value.text
  | text value => String.ofList value
  | flag value => if value then "true" else "false"

/-- Why settings cannot be used. -/
inductive Fault where
  | lineLength (value : LengthValue)
  | lengthMode (name : Text)
  /-- What stands in the place of a length mode is no name at all. -/
  | namelessMode
  | preset (name : Text)
  | codePoint (value : Number)
  deriving DecidableEq

/-- The wording of a fault. -/
def Fault.message : Fault → String
  | lineLength value =>
    "Invalid line length: " ++ value.display ++ ". Expected a non-negative integer (0 = unlimited)"
  | lengthMode name =>
    "Unknown length mode: " ++ String.ofList name ++ ". Available modes: chars, visual, bytes"
  | namelessMode => "value.trim is not a function"
  | preset name =>
    "Unknown preset: " ++ String.ofList name
      ++ ". Available presets: wrap, normalize, sentencePerLine, semantic"
  | codePoint value => "Invalid code point " ++ value.text

/-- What is left out of settings. -/
inductive Warning where
  | emptyAbbreviation (entry : Text)
  deriving DecidableEq

/-- The wording of a warning. -/
def Warning.message : Warning → String
  | emptyAbbreviation entry =>
    "Ignoring empty abbreviation entry: " ++ String.ofList (Text.quote entry)

end ProseWrap
