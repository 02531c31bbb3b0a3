import ProseWrap.Trace

/-!
# Reports

A report is the result of a run, or the fault that ended it, together with the
warnings and the events up to there. Reports are chained by `bind`: what a
later run warns of and tells comes after what the earlier one did, and nothing
runs after a fault.
-/

namespace ProseWrap

/-- What came of a run. -/
structure Report (α : Type) where
  result : Except Fault α
  warnings : List Warning
  events : List Event

namespace Report

/-- A result without warnings and events. -/
def pure {α : Type} (value : α) : Report α := ⟨.ok value, [], []⟩

/-- Runs `next` on the result of a report. -/
def bind {α β : Type} (report : Report α) (next : α → Report β) : Report β :=
  match report.result with
  | .error fault => ⟨.error fault, report.warnings, report.events⟩
  | .ok value =>
    let rest := next value
    ⟨rest.result, report.warnings ++ rest.warnings, report.events ++ rest.events⟩

theorem result_bind {α β : Type} {report : Report α} {value : α} (h : report.result = .ok value)
    (next : α → Report β) : (report.bind next).result = (next value).result := by
  rw [bind, h]

theorem result_bind_eq_ok {α β : Type} {report : Report α} {next : α → Report β} {value : β} :
    (report.bind next).result = .ok value ↔
      ∃ middle, report.result = .ok middle ∧ (next middle).result = .ok value := by
  unfold bind
  split <;> simp_all

instance : Monad Report where
  pure := pure
  bind := bind

/-- A run that can only fail. -/
def ofExcept {α : Type} (result : Except Fault α) : Report α := ⟨result, [], []⟩

/-- A run that only tells of an event. -/
def tell (event : Event) : Report Unit := ⟨.ok (), [], [event]⟩

/-- The reports of one run after the other. -/
def collect {α : Type} : List (Report α) → Report (List α)
  | [] => pure []
  | report :: rest => report.bind fun value => (collect rest).bind fun values => pure (value :: values)

end Report

/-- Settles a configuration. -/
def Config.resolve (config : Config) : Report Options := ⟨config.options, config.warnings, []⟩

/-- Settles a configuration, taking it at its word if it is `fixed` and
complete. -/
def Config.accept (config : Config) (fixed : Bool) : Report Options :=
  match config.taken? fixed with
  | some options => Report.pure options
  | none => config.resolve

end ProseWrap
