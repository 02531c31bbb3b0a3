import ProseWrap.Settings.Preset
import ProseWrap.Wrap.Document

/-!
# Sessions

A session keeps a configuration, changes it by commands, and wraps texts with
it. Commands run as calls (`Call`), which read and assign the configuration and
may end with a fault. Nothing takes back what a call assigned before its fault.
Changes are therefore checked before they are assigned (`Session.update`).
-/

namespace ProseWrap

/-- A configuration that is kept and changed. -/
structure Session where
  config : Config
  deriving DecidableEq

/-- What a session can be told to do. -/
inductive Command where
  | lineLength (value : Setting LengthValue)
  | lengthMode (name : Setting Text)
  | sentencePerLine (on : Setting Bool)
  | semanticLineBreaks (on : Setting Bool)
  | preserveBreaks (on : Setting Bool)
  | breakOnSentences (on : Setting Bool)
  | addAbbreviations (entries : List Text)
  | preset (name : Text)
  | showConfig
  | wrap (text : Text)
  | wrapLine (text : Text)
  deriving DecidableEq

/-- What a command answers. -/
inductive Answer where
  | changed
  | config (config : Config)
  | text (text : Text)
  | lines (lines : List Text)
  deriving DecidableEq

/-- A run that uses a session. It leaves a session behind also if it ends with
a fault. -/
def Call (α : Type) : Type := Session → Session × Report α

namespace Call

/-- A call that leaves the session as it is. -/
def lift {α : Type} (report : Report α) : Call α := fun session => (session, report)

/-- Runs `next` on the result of a call, with the session that the call left.
If the call ends with a fault, that session is what remains. -/
def bind {α β : Type} (call : Call α) (next : α → Call β) : Call β := fun session =>
  let done := call session
  match done.2.result with
  | .error fault => (done.1, ⟨.error fault, done.2.warnings, done.2.events⟩)
  | .ok value =>
    let rest := next value done.1
    (rest.1, ⟨rest.2.result, done.2.warnings ++ rest.2.warnings, done.2.events ++ rest.2.events⟩)

instance : Monad Call where
  pure value := lift (Report.pure value)
  bind := bind

/-- The configuration of the session. -/
def config : Call Config := fun session => (session, Report.pure session.config)

/-- Gives the session another configuration, whatever it is. -/
def assign (config : Config) : Call Unit := fun _ => (⟨config⟩, Report.pure ())

end Call

namespace Session

/-- A session with a configuration that has been checked. -/
def start (config : Config) : Report Session := do
  let _ ← config.resolve
  return ⟨config⟩

/-- Makes changes to the configuration, after a check. -/
def update (changes : Config) : Call Answer := do
  let next := changes.onto (← Call.config)
  let _ ← Call.lift next.resolve
  Call.assign next
  return .changed

/-- Lays a preset over the configuration. -/
def usePreset (name : Text) : Call Answer := do
  let preset ← Call.lift (Report.ofExcept (Preset.ofName name))
  update preset.config

/-- Adds to the abbreviations. -/
def addAbbreviations (entries : List Text) : Call Answer := do
  let config ← Call.config
  update { abbreviations := .given (config.abbreviations.getD [] ++ entries) }

/-- Wraps a text under the configuration. -/
def wrap (text : Text) : Call Text := do
  Call.lift (wrapText (← Call.config) false text)

/-- Wraps a single line under the configuration. -/
def wrapLine (text : Text) : Call (List Text) := do
  Call.lift (wrapTextLine (← Call.config) text)

/-- Runs a command. -/
def run : Command → Call Answer
  | .lineLength value => update { lineLength := value }
  | .lengthMode name => update { lengthMode := name }
  | .sentencePerLine on => update { sentencePerLine := on }
  | .semanticLineBreaks on => update { semanticLineBreaks := on }
  | .preserveBreaks on => update { preserveBreaks := on }
  | .breakOnSentences on => update { breakOnSentences := on }
  | .addAbbreviations entries => addAbbreviations entries
  | .preset name => usePreset name
  | .showConfig => do return .config (← Call.config)
  | .wrap text => do return .text (← wrap text)
  | .wrapLine text => do return .lines (← wrapLine text)

/-- The session after a command, and what came of the command. -/
def step (session : Session) (command : Command) : Session × Report Answer := run command session

/-- The sessions after each of some commands, and what came of each. -/
def steps (session : Session) : List Command → List (Session × Report Answer)
  | [] => []
  | command :: rest =>
    let done := session.step command
    done :: steps done.1 rest

end Session

/-- Wraps a text with a preset. -/
def wrapWithPreset (name text : Text) : Report Text := do
  let session ← Session.start {}
  (Call.bind (Session.usePreset name) (fun _ => Session.wrap text) session).2

end ProseWrap
