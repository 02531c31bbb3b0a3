import ProseWrap.Settings.Options

/-!
# Traces

A trace tells what was done to a document: how it was cut into blocks, that it
was wrapped, and how many paragraphs were mended. An event is written on the
channel of the part of the program that it is about, if tracing is switched on
(`Switch.isOn`).
-/

namespace ProseWrap

/-- Something that was done. -/
inductive Event where
  | classified (blocks lines : Nat)
  | wrapping (blocks : Nat) (options : Options)
  | mended (paragraphs warnings : Nat)
  deriving DecidableEq

/-- A part of what is written about an event. -/
inductive Detail where
  | words (text : String)
  | count (number : Nat)
  | options (options : Options)
  deriving DecidableEq

/-- The channel of a part of the program. -/
def channel (scope : String) : String := "[mdreflow:" ++ scope ++ "]"

namespace Event

/-- The part of the program that an event is about. -/
def scope : Event → String
  | classified _ _ => "blocks"
  | wrapping _ _ => "reflow"
  | mended _ _ => "line-length"

/-- What is written about an event after its channel. -/
def details : Event → List Detail
  | classified blocks lines =>
    [.words "classified", .count blocks, .words "blocks from", .count lines, .words "lines"]
  | wrapping blocks options =>
    [.words "reflowing", .count blocks, .words "blocks", .options options]
  | mended paragraphs warnings =>
    [.words "reflowed", .count paragraphs, .words "paragraphs for", .count warnings,
     .words "warnings"]

/-- What is written about an event: its channel, and the details. -/
def entry (event : Event) : String × List Detail := (channel event.scope, event.details)

end Event

/-- What switches tracing on and off: a flag, and a variable of the
environment. -/
structure Switch where
  flag : Option Bool := none
  environment : Option Text := none
  deriving DecidableEq, Repr

namespace Switch

/-- Whether events are written. -/
def isOn (switch : Switch) : Bool :=
  switch.flag == some true || switch.environment == some ['1']

/-- What is written when details are sent to the channel of a part of the
program. -/
def write {α : Type} (switch : Switch) (scope : String) (details : List α) :
    List (String × List α) :=
  if switch.isOn then [(channel scope, details)] else []

end Switch

end ProseWrap
