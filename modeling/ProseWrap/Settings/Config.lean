import ProseWrap.Fault

/-!
# Configurations

A configuration says what its user wants and leaves the rest open. A setting
can be left out (`missing`), set back to its default on purpose (`cleared`), or
given a value. The difference between the first two shows when one
configuration is laid over another (`Config.onto`): a setting that is left out
keeps what was there before.
-/

namespace ProseWrap

/-- One setting of a configuration. -/
inductive Setting (α : Type) where
  | missing
  | cleared
  | given (value : α)
  deriving DecidableEq, Repr

namespace Setting

/-- The value of a setting, if it has one. -/
def value? {α : Type} : Setting α → Option α
  | given value => some value
  | _ => none

/-- The value of a setting, or the default. -/
def getD {α : Type} (setting : Setting α) (default : α) : α := setting.value?.getD default

/-- The setting `upper` laid over `lower`. -/
def onto {α : Type} (upper lower : Setting α) : Setting α :=
  match upper with
  | missing => lower
  | _ => upper

@[simp] theorem missing_onto {α : Type} (lower : Setting α) : onto missing lower = lower := rfl

@[simp] theorem onto_missing {α : Type} (upper : Setting α) : onto upper missing = upper := by
  cases upper <;> rfl

@[simp] theorem given_onto {α : Type} (value : α) (lower : Setting α) :
    onto (given value) lower = given value := rfl

end Setting

/-- What a user asks for. -/
structure Config where
  /-- The width of a line; 0 stands for no limit. -/
  lineLength : Setting LengthValue := .missing
  /-- Whether the first word of a sentence is kept from the end of a line. -/
  breakOnSentences : Setting Bool := .missing
  /-- Whether each line of prose is wrapped on its own. -/
  preserveBreaks : Setting Bool := .missing
  /-- Whether each sentence is put on a line of its own, however long. -/
  sentencePerLine : Setting Bool := .missing
  /-- Whether each sentence begins a line, and a long one is broken after its
  clauses. -/
  semanticLineBreaks : Setting Bool := .missing
  /-- Abbreviations besides the common ones. -/
  abbreviations : Setting (List Text) := .missing
  /-- The name of what a width counts. -/
  lengthMode : Setting Text := .missing
  deriving DecidableEq

namespace Config

/-- The configuration `upper` laid over `lower`. -/
def onto (upper lower : Config) : Config where
  lineLength := upper.lineLength.onto lower.lineLength
  breakOnSentences := upper.breakOnSentences.onto lower.breakOnSentences
  preserveBreaks := upper.preserveBreaks.onto lower.preserveBreaks
  sentencePerLine := upper.sentencePerLine.onto lower.sentencePerLine
  semanticLineBreaks := upper.semanticLineBreaks.onto lower.semanticLineBreaks
  abbreviations := upper.abbreviations.onto lower.abbreviations
  lengthMode := upper.lengthMode.onto lower.lengthMode

@[simp] theorem empty_onto (lower : Config) : onto {} lower = lower := rfl

@[simp] theorem onto_empty (upper : Config) : onto upper {} = upper := by
  simp [onto]

end Config

end ProseWrap
