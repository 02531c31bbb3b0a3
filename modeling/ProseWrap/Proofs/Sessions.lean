import ProseWrap.Proofs.FixedConfigs
import ProseWrap.Session

/-!
# What sessions keep

A session is *valid* if its configuration can be settled. A command that only
reads leaves the session as it is (`Call.Reads`). Any other command asks for
changes (`Session.changes`), which are laid over the configuration.

Nothing takes back what a call has assigned. Changes that are refused are still
never seen, because they are assigned only after the check: `Session.update`
either assigns them or ends before it does (`Session.update_of_ok`,
`Session.update_of_error`). `Session.step_cases` says this for all commands. So
a session that was started stays valid whatever it is told, and in a valid
session nothing that reads can fail.

A stray name for the length mode is not refused. The session holds it, its
options are without a length mode (`Session.step_lengthMode`), and no line is
then narrow enough unless there is no limit at all
(`Options.admits_limit_of_stray`).
-/

namespace ProseWrap

/-! ## Calls -/

namespace Call

variable {α β : Type} {session : Session} {fault : Fault} {value : α}

/-- A call that succeeds is followed by the next one, in the session that it
left. -/
theorem bind_of_ok (call : Call α) (next : α → Call β) (h : (call session).2.result = .ok value) :
    ((call >>= next) session).1 = (next value (call session).1).1 ∧
      ((call >>= next) session).2.result = (next value (call session).1).2.result := by
  simp only [Bind.bind, bind, h, and_self]

/-- A call that fails is the last one, and the session that it left remains. -/
theorem bind_of_error (call : Call α) (next : α → Call β) (h : (call session).2.result = .error fault) :
    ((call >>= next) session).1 = (call session).1 ∧ ((call >>= next) session).2.result = .error fault := by
  simp only [Bind.bind, bind, h, and_self]

/-- The call leaves every session as it is, whether or not it fails. -/
def Reads (call : Call α) : Prop := ∀ session, (call session).1 = session

theorem reads_lift (report : Report α) : (lift report).Reads := fun _ => rfl

theorem reads_config : config.Reads := fun _ => rfl

theorem Reads.bind {call : Call α} {next : α → Call β} (h : call.Reads) (hnext : ∀ value, (next value).Reads) :
    (call >>= next).Reads := by
  intro session
  cases hresult : (call session).2.result with
  | error fault => rw [(bind_of_error call next hresult).1, h]
  | ok value => rw [(bind_of_ok call next hresult).1, hnext, h]

end Call

/-! ## Length modes -/

/-- Without a length mode no line is narrow enough, unless there is no
limit. -/
theorem Options.admits_limit_of_stray {options : Options} (h : options.lengthMode = none) (width : Int) :
    options.limit.admits width = decide (options.lineLength = .ofNat 0) := by
  have hzero : Number.ofNat 0 = .finite 0 := rfl
  rw [limit, h, hzero, if_neg (by simp)]
  split
  · rename_i hlength
    rw [decide_eq_true hlength]
    rfl
  · rename_i hlength
    rw [decide_eq_false hlength]
    rfl

/-! ## Commands -/

/-- Whether a command only reads the configuration. -/
def Command.reads : Command → Bool
  | .showConfig => true
  | .wrap _ => true
  | .wrapLine _ => true
  | _ => false

namespace Session

/-- The configuration of a session can be settled. -/
def Valid (session : Session) : Prop := ∃ options, session.config.options = .ok options

/-- The changes that a command asks for. -/
def changes (session : Session) : Command → Except Fault Config
  | .lineLength value => .ok { lineLength := value }
  | .lengthMode name => .ok { lengthMode := name }
  | .sentencePerLine on => .ok { sentencePerLine := on }
  | .semanticLineBreaks on => .ok { semanticLineBreaks := on }
  | .preserveBreaks on => .ok { preserveBreaks := on }
  | .breakOnSentences on => .ok { breakOnSentences := on }
  | .addAbbreviations entries =>
    .ok { abbreviations := .given (session.config.abbreviations.getD [] ++ entries) }
  | .preset name => (Preset.ofName name).map Preset.config
  | .showConfig => .ok {}
  | .wrap _ => .ok {}
  | .wrapLine _ => .ok {}

/-- The session after some commands. -/
def after (session : Session) (commands : List Command) : Session :=
  commands.foldl (fun session command => (session.step command).1) session

variable {session : Session} {command : Command} {config changes : Config} {options : Options} {fault : Fault}

theorem after_cons (session : Session) (command : Command) (commands : List Command) :
    session.after (command :: commands) = (session.step command).1.after commands := rfl

/-- A session is started just if its configuration can be settled, and then has
this configuration. -/
theorem start_eq_ok : (start config).result = .ok session ↔ session.config = config ∧ session.Valid := by
  obtain ⟨own⟩ := session
  constructor
  · intro h
    obtain ⟨options, hoptions, hresult⟩ := Report.result_bind_eq_ok.mp h
    cases Except.ok.inj hresult
    exact ⟨rfl, options, hoptions⟩
  · rintro ⟨rfl, options, hoptions⟩
    exact Report.result_bind_eq_ok.mpr ⟨options, hoptions, rfl⟩

/-- Changes with which the configuration can be settled are assigned. -/
theorem update_of_ok (h : (changes.onto session.config).options = .ok options) :
    (update changes session).1 = ⟨changes.onto session.config⟩ ∧
      (update changes session).2.result = .ok .changed :=
  Call.bind_of_ok (Call.lift (changes.onto session.config).resolve) _ h

/-- Changes with which it cannot be settled are not, for the check comes
first. -/
theorem update_of_error (h : (changes.onto session.config).options = .error fault) :
    (update changes session).1 = session ∧ (update changes session).2.result = .error fault :=
  Call.bind_of_error (Call.lift (changes.onto session.config).resolve) _ h

-- a check that came second would not undo what was assigned
example :
    let config : Config := { lengthMode := .given "lines".toList }
    let done := (do Call.assign config; Call.lift config.resolve : Call Options) ⟨{}⟩
    done.1.config = config ∧ done.2.result = .error (.lengthMode "lines".toList) := by
  decide +kernel

/-- A command that only reads leaves the session as it is. -/
theorem reads_run (hreads : command.reads = true) : (run command).Reads := by
  cases command with
  | showConfig => exact Call.reads_config.bind fun _ => Call.reads_lift _
  | wrap text =>
    exact (Call.reads_config.bind fun _ => Call.reads_lift _).bind fun _ => Call.reads_lift _
  | wrapLine text =>
    exact (Call.reads_config.bind fun _ => Call.reads_lift _).bind fun _ => Call.reads_lift _
  | _ => cases hreads

/-- A command that asks for changes makes them. -/
theorem step_of_changes (hreads : command.reads = false) (hchanges : session.changes command = .ok changes) :
    (session.step command).1 = (update changes session).1 ∧
      (session.step command).2.result = (update changes session).2.result := by
  cases command with
  | preset name =>
    replace hchanges : (Preset.ofName name).map Preset.config = .ok changes := hchanges
    cases hpreset : Preset.ofName name with
    | error fault =>
      rw [hpreset] at hchanges
      cases hchanges
    | ok preset =>
      rw [hpreset] at hchanges
      cases Except.ok.inj hchanges
      exact Call.bind_of_ok (Call.lift (Report.ofExcept (Preset.ofName name))) _ hpreset
  | showConfig => cases hreads
  | wrap => cases hreads
  | wrapLine => cases hreads
  | _ => cases Except.ok.inj hchanges; exact ⟨rfl, rfl⟩

/-- A command that cannot say what changes it asks for makes none. -/
theorem step_of_no_changes (hchanges : session.changes command = .error fault) :
    (session.step command).1 = session ∧ (session.step command).2.result = .error fault := by
  cases command with
  | preset name =>
    replace hchanges : (Preset.ofName name).map Preset.config = .error fault := hchanges
    cases hpreset : Preset.ofName name with
    | error fault' =>
      rw [hpreset] at hchanges
      cases Except.error.inj hchanges
      exact Call.bind_of_error (Call.lift (Report.ofExcept (Preset.ofName name))) _ hpreset
    | ok preset =>
      rw [hpreset] at hchanges
      cases hchanges
  | _ => cases hchanges

/-- Changes that can be settled are made. -/
theorem step_of_settled (hreads : command.reads = false) (hchanges : session.changes command = .ok changes)
    (hsettled : (changes.onto session.config).options = .ok options) :
    (session.step command).1 = ⟨changes.onto session.config⟩ ∧
      (session.step command).2.result = .ok .changed := by
  obtain ⟨hleft, hresult⟩ := step_of_changes hreads hchanges
  rw [hleft, hresult]
  exact update_of_ok hsettled

/-- Changes that cannot be settled are refused. -/
theorem step_of_refused (hreads : command.reads = false) (hchanges : session.changes command = .ok changes)
    (hrefused : (changes.onto session.config).options = .error fault) :
    (session.step command).1 = session ∧ (session.step command).2.result = .error fault := by
  obtain ⟨hleft, hresult⟩ := step_of_changes hreads hchanges
  rw [hleft, hresult]
  exact update_of_error hrefused

/-- What a command can do: fail, read, or make the changes that it asks for.
Only the last changes the session, and then its configuration can be
settled. -/
theorem step_cases (session : Session) (command : Command) :
    (∃ fault, (session.step command).2.result = .error fault ∧ (session.step command).1 = session) ∨
    (command.reads = true ∧ (session.step command).1 = session) ∨
    ∃ changes, command.reads = false ∧ session.changes command = .ok changes ∧
      (session.step command).2.result = .ok .changed ∧
      (session.step command).1.config = changes.onto session.config ∧ (session.step command).1.Valid := by
  cases hreads : command.reads with
  | true => exact .inr (.inl ⟨rfl, reads_run hreads session⟩)
  | false =>
    cases hchanges : session.changes command with
    | error fault =>
      obtain ⟨hsame, hresult⟩ := step_of_no_changes hchanges
      exact .inl ⟨fault, hresult, hsame⟩
    | ok changes =>
      cases hoptions : (changes.onto session.config).options with
      | error fault =>
        obtain ⟨hsame, hresult⟩ := step_of_refused hreads hchanges hoptions
        exact .inl ⟨fault, hresult, hsame⟩
      | ok options =>
        obtain ⟨hdone, hresult⟩ := step_of_settled hreads hchanges hoptions
        exact .inr (.inr ⟨changes, rfl, rfl, hresult, congrArg Session.config hdone, hdone ▸ ⟨options, hoptions⟩⟩)

/-- In a valid session texts are wrapped under its configuration. -/
theorem step_wrap (h : session.Valid) (text : Text) :
    ∃ out, (wrapText session.config false text).result = .ok out ∧
      (session.step (.wrap text)).2.result = .ok (.text out) := by
  obtain ⟨options, hoptions⟩ := h
  have hout : (wrapText session.config false text).result = .ok ((Document.ofText text).wrap options.style) := by
    rw [wrapText_result, show (session.config.accept false).result = .ok options from hoptions]
    rfl
  exact ⟨_, hout, (Call.bind_of_ok (Session.wrap text) _ hout).2⟩

/-- In a valid session single lines are wrapped under its configuration. -/
theorem step_wrapLine (h : session.Valid) (text : Text) :
    ∃ lines, (wrapTextLine session.config text).result = .ok lines ∧
      (session.step (.wrapLine text)).2.result = .ok (.lines lines) := by
  obtain ⟨options, hoptions⟩ := h
  have hlines : (wrapTextLine session.config text).result = .ok (ProseWrap.wrapLine options.style text) := by
    rw [wrapTextLine_result, show (session.config.accept false).result = .ok options from hoptions]
    rfl
  exact ⟨_, hlines, (Call.bind_of_ok (Session.wrapLine text) _ hlines).2⟩

/-- In a valid session a command that only reads does not fail. -/
theorem step_of_reads (h : session.Valid) (hreads : command.reads = true) :
    ∃ answer, (session.step command).2.result = .ok answer := by
  cases command with
  | showConfig => exact ⟨_, rfl⟩
  | wrap text =>
    obtain ⟨out, -, hresult⟩ := step_wrap h text
    exact ⟨_, hresult⟩
  | wrapLine text =>
    obtain ⟨lines, -, hresult⟩ := step_wrapLine h text
    exact ⟨_, hresult⟩
  | _ => cases hreads

/-- A length mode is taken by any name that stands for one, and by a stray name
too. -/
theorem step_lengthMode (h : session.Valid) {name : Text} {mode : Option LengthMode}
    (hname : LengthMode.ofName name = .ok mode) :
    let done := session.step (.lengthMode (.given name))
    done.1.config = { session.config with lengthMode := .given name } ∧ done.2.result = .ok .changed ∧
      ∃ options, done.1.config.options = .ok options ∧ options.lengthMode = mode := by
  intro done
  obtain ⟨before, hbefore⟩ := h
  obtain ⟨length, hlength, -⟩ := Config.checked_of_options hbefore
  have hmode : Config.checkedMode { session.config with lengthMode := .given name } = .ok mode := by
    cases name with
    | nil =>
      have hrefused : LengthMode.ofName [] = .error (.lengthMode []) := by decide +kernel
      cases hrefused.symm.trans hname
    | cons c rest => exact hname
  obtain ⟨options, hoptions, hsame⟩ :=
    Config.options_of_checked { session.config with lengthMode := .given name } hlength hmode
  have hchanges : session.changes (.lengthMode (.given name)) = .ok { lengthMode := .given name } := rfl
  obtain ⟨hleft, hresult⟩ := step_of_settled rfl hchanges hoptions
  exact ⟨congrArg Session.config hleft, hresult, options, by rwa [hleft], hsame⟩

/-! ## All commands -/

/-- A command keeps a session valid. -/
theorem Valid.step (h : session.Valid) (command : Command) : (session.step command).1.Valid := by
  rcases session.step_cases command with ⟨_, -, hsame⟩ | ⟨-, hsame⟩ | ⟨_, -, -, -, -, hvalid⟩
  · rwa [hsame]
  · rwa [hsame]
  · exact hvalid

/-- Commands keep a session valid. -/
theorem Valid.after (h : session.Valid) (commands : List Command) : (session.after commands).Valid := by
  induction commands generalizing session with
  | nil => exact h
  | cons command commands ih =>
    rw [after_cons]
    exact ih (h.step command)

/-- Each command is run in the session that the commands before it have
left. -/
theorem getElem?_steps (session : Session) (earlier : List Command) (command : Command) (later : List Command) :
    (session.steps (earlier ++ command :: later))[earlier.length]? = some ((session.after earlier).step command) := by
  induction earlier generalizing session with
  | nil => rfl
  | cons first earlier ih =>
    rw [List.cons_append, steps, List.length_cons, List.getElem?_cons_succ, after_cons]
    exact ih _

end Session

/-- A session that was started holds a valid configuration after each command,
whichever commands came before. A command that fails leaves the configuration
as it was. One that reads never fails and never changes it; it shows the
configuration, or wraps what it is given as this is wrapped under the
configuration. The other commands lay their changes over the configuration if
it is then still valid.

This goes for the length mode with every name that is found, stray ones too.
With one of these the options have no length mode, and no line is narrow enough
unless no line length is set. -/
theorem session_stays_valid (config : Config) (session : Session) (earlier later : List Command) (command : Command)
    (hstart : (Session.start config).result = .ok session) :
    let before := session.after earlier
    let done := before.step command
    session.config = config ∧
    (session.steps (earlier ++ command :: later))[earlier.length]? = some done ∧
    (∃ options, done.1.config.resolve.result = .ok options) ∧
    (∀ fault, done.2.result = .error fault → done.1.config = before.config) ∧
    (command.reads = true → done.1.config = before.config ∧ ∃ answer, done.2.result = .ok answer) ∧
    (command = .showConfig → done.2.result = .ok (.config done.1.config)) ∧
    (∀ text, command = .wrap text →
      ∃ out, (wrapText done.1.config false text).result = .ok out ∧ done.2.result = .ok (.text out)) ∧
    (∀ text, command = .wrapLine text →
      ∃ lines, (wrapTextLine done.1.config text).result = .ok lines ∧ done.2.result = .ok (.lines lines)) ∧
    (∀ changes options, command.reads = false → before.changes command = .ok changes →
      (changes.onto before.config).resolve.result = .ok options →
      done.1.config = changes.onto before.config ∧ done.2.result = .ok .changed) ∧
    ∀ name mode, command = .lengthMode (.given name) → LengthMode.ofName name = .ok mode →
      done.1.config = { before.config with lengthMode := .given name } ∧ done.2.result = .ok .changed ∧
      ∃ options, done.1.config.resolve.result = .ok options ∧ options.lengthMode = mode ∧
        (mode = none → ∀ width, options.limit.admits width = decide (options.lineLength = .ofNat 0)) := by
  intro before done
  obtain ⟨hconfig, hvalid⟩ := Session.start_eq_ok.mp hstart
  have hbefore : before.Valid := hvalid.after earlier
  refine ⟨hconfig, session.getElem?_steps earlier command later, hbefore.step command, fun fault hfault => ?_,
    fun hreads => ?_, ?_, ?_, ?_, fun changes options hreads hchanges hsettled => ?_, ?_⟩
  · rcases before.step_cases command with ⟨_, -, hsame⟩ | ⟨-, hsame⟩ | ⟨_, -, -, hresult, -⟩
    · exact congrArg Session.config hsame
    · exact congrArg Session.config hsame
    · cases hresult.symm.trans hfault
  · exact ⟨congrArg Session.config (Session.reads_run hreads before), Session.step_of_reads hbefore hreads⟩
  · rintro rfl
    rfl
  · rintro text rfl
    rw [show done.1 = before from Session.reads_run rfl before]
    exact Session.step_wrap hbefore text
  · rintro text rfl
    rw [show done.1 = before from Session.reads_run rfl before]
    exact Session.step_wrapLine hbefore text
  · obtain ⟨hdone, hresult⟩ := Session.step_of_settled hreads hchanges hsettled
    exact ⟨congrArg Session.config hdone, hresult⟩
  · rintro name mode rfl hname
    obtain ⟨hconfig, hresult, options, hoptions, hmode⟩ := Session.step_lengthMode hbefore hname
    exact ⟨hconfig, hresult, options, hoptions, hmode, fun hnone =>
      Options.admits_limit_of_stray (hmode.trans hnone)⟩

/-- After a preset, a line length that is refused and a stray name that is
taken, a length mode that is not known is refused, and the configuration is
that of the preset with the stray name. -/
theorem session_stays_valid_refused :
    let config : Config := { lengthMode := .given " Display".toList, lineLength := .cleared }
    let session : Session := ⟨config⟩
    let earlier : List Command :=
      [.preset "semantic".toList, .lineLength (.given (.number (.ofInt (-1)))),
       .lengthMode (.given "Constructor".toList)]
    let command : Command := .lengthMode (.given "lines".toList)
    let done := (session.after earlier).step command
    (Session.start config).result = .ok session ∧ LengthMode.ofName "Constructor".toList = .ok none ∧
      done.2.result = .error (.lengthMode "lines".toList) ∧
      done.1.config = { Preset.semantic.config.onto config with lengthMode := .given "Constructor".toList } ∧
      ∃ options, done.1.config.resolve.result = .ok options := by
  intro config session earlier command done
  have hstart : (Session.start config).result = .ok session := by decide +kernel
  obtain ⟨-, -, hvalid, hfails, -⟩ := session_stays_valid config session earlier [] command hstart
  have hfault : done.2.result = .error (.lengthMode "lines".toList) := by decide +kernel
  have hsame : done.1.config = (session.after earlier).config := hfails _ hfault
  have hbefore : (session.after earlier).config =
      { Preset.semantic.config.onto config with lengthMode := .given "Constructor".toList } := by decide +kernel
  exact ⟨hstart, by decide +kernel, hfault, hsame.trans hbefore, hvalid⟩

end ProseWrap
