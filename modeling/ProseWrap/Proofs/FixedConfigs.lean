import ProseWrap.Proofs.InPlace

/-!
# Configurations that are taken at their word

A configuration that is fixed and complete is taken at its word instead of
being checked. `Config.Spells` says when a configuration is complete, and which
options it spells out. Checking these options would find the same settings,
with one exception: the line length of a complete configuration is any number,
and nobody asks whether it is a count. So taking a configuration at its word
agrees with checking it just if its line length is one
(`accept_agrees_with_resolve_iff`).
-/

namespace ProseWrap

namespace LengthMode

theorem ofOwnName?_eq_some {name : Text} {mode : LengthMode} : ofOwnName? name = some mode ↔ name = mode.name := by
  constructor
  · intro h
    have hname := List.find?_some h
    simpa using (beq_iff_eq.mp hname).symm
  · rintro rfl
    cases mode <;> rfl

/-- The own name of a length mode is one of its names. -/
theorem ofName_name (mode : LengthMode) : ofName mode.name = .ok (some mode) := by
  cases mode <;> decide +kernel

end LengthMode

theorem Setting.value?_eq_some {α : Type} {setting : Setting α} {value : α} :
    setting.value? = some value ↔ setting = .given value := by
  cases setting <;> simp [value?]

theorem LengthValue.number?_eq_some {value : LengthValue} {number : Number} :
    value.number? = some number ↔ value = .number number := by
  cases value <;> simp [number?]

/-- Options that have the same settings, but for the abbreviations. -/
def Options.SameSettings (options other : Options) : Prop :=
  { options with abbreviations := other.abbreviations } = other

/-- Two results agree: both are the same fault, or both are options with the
same settings and with a count as their line length. -/
def ResultsAgree (result other : Except Fault Options) : Prop :=
  (∃ fault, result = .error fault ∧ other = .error fault) ∨
    ∃ options options', result = .ok options ∧ other = .ok options' ∧ options.SameSettings options' ∧
      ∃ length, options.lineLength = .ofNat length

namespace Config

variable {config : Config} {options : Options}

/-- A complete configuration: all settings of the options are given, the line
length as a number and the length mode by its own name. Only the abbreviations
may be left out. -/
structure Spells (config : Config) (options : Options) : Prop where
  lineLength : config.lineLength = .given (.number options.lineLength)
  breakOnSentences : config.breakOnSentences = .given options.breakOnSentences
  preserveBreaks : config.preserveBreaks = .given options.preserveBreaks
  sentencePerLine : config.sentencePerLine = .given options.sentencePerLine
  semanticLineBreaks : config.semanticLineBreaks = .given options.semanticLineBreaks
  lengthMode : ∃ mode, config.lengthMode = .given mode.name ∧ options.lengthMode = some mode
  abbreviations : config.abbreviations.value? = options.abbreviations

theorem settled?_eq_some : config.settled? = some options ↔ config.Spells options := by
  simp only [settled?, Option.bind_eq_bind, Option.bind_eq_some_iff, Setting.value?_eq_some,
    LengthValue.number?_eq_some, LengthMode.ofOwnName?_eq_some]
  constructor
  · rintro ⟨length, ⟨value, hvalue, rfl⟩, sentences, hsentences, preserve, hpreserve, whole, hwhole, clauses,
      hclauses, mode, ⟨name, hname, rfl⟩, hoptions⟩
    cases Option.some.inj hoptions
    exact ⟨hvalue, hsentences, hpreserve, hwhole, hclauses, ⟨mode, hname, rfl⟩, rfl⟩
  · rintro ⟨hvalue, hsentences, hpreserve, hwhole, hclauses, ⟨mode, hname, hmode⟩, habbreviations⟩
    refine ⟨_, ⟨_, hvalue, rfl⟩, _, hsentences, _, hpreserve, _, hwhole, _, hclauses, mode, ⟨_, hname, rfl⟩, ?_⟩
    rw [habbreviations, ← hmode]

theorem Spells.checkedMode (h : config.Spells options) : config.checkedMode = .ok options.lengthMode := by
  obtain ⟨mode, hname, hmode⟩ := h.lengthMode
  have hgiven : config.lengthMode.getD [] = mode.name := by rw [hname]; rfl
  unfold Config.checkedMode
  rw [hgiven, hmode]
  cases mode <;> exact LengthMode.ofName_name _

theorem Spells.lineLength_getD (h : config.Spells options) (default : LengthValue) :
    config.lineLength.getD default = .number options.lineLength := by
  rw [h.lineLength]
  rfl

/-- Checking a complete configuration finds the options that it spells out if
its line length is a count, and drops the abbreviations of which nothing would
be left. -/
theorem Spells.options_of_count (h : config.Spells options) {length : Nat}
    (hlength : options.lineLength = .ofNat length) :
    config.options = .ok { options with
      abbreviations := options.abbreviations.map (·.filter fun entry => !isEmptyEntry entry) } := by
  have hchecked : config.checkedLength = .ok length := by
    unfold checkedLength
    simp only [h.lineLength_getD, LengthValue.toNat?, Number.toNat?_eq_some.mpr hlength]
  unfold Config.options
  rw [hchecked, h.checkedMode, h.breakOnSentences, h.preserveBreaks, h.sentencePerLine, h.semanticLineBreaks,
    h.abbreviations, hlength]
  rfl

/-- Checking a complete configuration finds fault with a line length that is
not a count. -/
theorem Spells.options_of_not_count (h : config.Spells options)
    (hlength : ∀ length, options.lineLength ≠ .ofNat length) :
    config.options = .error (.lineLength (.number options.lineLength)) := by
  have hnone : options.lineLength.toNat? = none :=
    Option.eq_none_iff_forall_ne_some.mpr fun length hsome => hlength length (Number.toNat?_eq_some.mp hsome)
  have hchecked : config.checkedLength = .error (.lineLength (.number options.lineLength)) := by
    unfold checkedLength
    simp only [h.lineLength_getD, LengthValue.toNat?, hnone]
  unfold Config.options
  rw [hchecked]

/-- A configuration that can be settled has a line length that is a count, and
a length mode that passes its check. -/
theorem checked_of_options (h : config.options = .ok options) :
    ∃ length, config.checkedLength = .ok length ∧ options.lineLength = .ofNat length ∧
      config.checkedMode = .ok options.lengthMode := by
  unfold Config.options at h
  split at h
  · cases h
  · cases h
  · rename_i length mode hlength hmode
    cases Except.ok.inj h
    exact ⟨length, hlength, rfl, hmode⟩

/-- No other setting is checked. -/
theorem options_of_checked (config : Config) {length : Nat} {mode : Option LengthMode}
    (hlength : config.checkedLength = .ok length) (hmode : config.checkedMode = .ok mode) :
    ∃ options, config.options = .ok options ∧ options.lengthMode = mode := by
  unfold Config.options
  rw [hlength, hmode]
  exact ⟨_, rfl, rfl⟩

theorem accept_of_spells (h : config.Spells options) : (config.accept true).result = .ok options := by
  rw [accept, taken?, if_pos rfl, settled?_eq_some.mpr h]
  rfl

/-- A configuration that is not fixed or not complete is checked. -/
theorem accept_of_not_spells {fixed : Bool} (h : ∀ options, fixed = true → ¬config.Spells options) :
    config.accept fixed = config.resolve := by
  have hnone : config.taken? fixed = none := by
    unfold taken?
    split
    · rename_i hfixed
      exact Option.eq_none_iff_forall_ne_some.mpr fun options hsome => h options hfixed (settled?_eq_some.mp hsome)
    · rfl
  rw [accept, hnone]

end Config

/-- Taking a configuration at its word agrees with checking it, but for the
fixed and complete ones with a line length that is not a count. These are
accepted as they are, though checking them finds fault with the line length. -/
theorem accept_agrees_with_resolve_iff (config : Config) (fixed : Bool) :
    (ResultsAgree (config.accept fixed).result config.resolve.result ↔
      ∀ options, fixed = true → config.Spells options → ∃ length, options.lineLength = .ofNat length) ∧
    ∀ options, fixed = true → config.Spells options → (∀ length, options.lineLength ≠ .ofNat length) →
      (config.accept fixed).result = .ok options ∧
        config.resolve.result = .error (.lineLength (.number options.lineLength)) := by
  have hbypass : ∀ options, fixed = true → config.Spells options → (∀ length, options.lineLength ≠ .ofNat length) →
      (config.accept fixed).result = .ok options ∧
        config.resolve.result = .error (.lineLength (.number options.lineLength)) := by
    rintro options rfl hspells hlength
    exact ⟨Config.accept_of_spells hspells, hspells.options_of_not_count hlength⟩
  refine ⟨⟨fun hagree options hfixed hspells => ?_, fun hlength => ?_⟩, hbypass⟩
  · by_contra hnone
    obtain ⟨haccept, hresolve⟩ := hbypass options hfixed hspells (not_exists.mp hnone)
    rw [haccept, hresolve] at hagree
    rcases hagree with ⟨_, hfault, -⟩ | ⟨_, _, -, hok, -⟩
    · cases hfault
    · cases hok
  · by_cases htaken : ∃ options, fixed = true ∧ config.Spells options
    · obtain ⟨options, rfl, hspells⟩ := htaken
      obtain ⟨length, hcount⟩ := hlength options rfl hspells
      exact .inr ⟨options, _, Config.accept_of_spells hspells, hspells.options_of_count hcount, rfl, length, hcount⟩
    · rw [Config.accept_of_not_spells fun options hfixed hspells => htaken ⟨options, hfixed, hspells⟩]
      show ResultsAgree config.options config.options
      cases hoptions : config.options with
      | error fault => exact .inl ⟨fault, rfl, rfl⟩
      | ok options =>
        obtain ⟨length, -, hlength, -⟩ := Config.checked_of_options hoptions
        exact .inr ⟨options, options, rfl, rfl, rfl, length, hlength⟩

/-- A fixed configuration with a negative line length is accepted, though
checking it fails. -/
theorem fixed_length_goes_unchecked :
    let config : Config := {
      lineLength := .given (.number (.ofInt (-1)))
      breakOnSentences := .given true
      preserveBreaks := .given false
      sentencePerLine := .given false
      semanticLineBreaks := .given false
      lengthMode := .given LengthMode.chars.name }
    (config.accept true).result = .ok { Options.default with lineLength := .ofInt (-1) } ∧
      config.resolve.result = .error (.lineLength (.number (.ofInt (-1)))) ∧
      ¬ResultsAgree (config.accept true).result config.resolve.result := by
  intro config
  have haccept : (config.accept true).result = .ok { Options.default with lineLength := .ofInt (-1) } := by
    decide +kernel
  have hresolve : config.resolve.result = .error (.lineLength (.number (.ofInt (-1)))) := by decide +kernel
  refine ⟨haccept, hresolve, fun hagree => ?_⟩
  rw [haccept, hresolve] at hagree
  rcases hagree with ⟨_, hfault, -⟩ | ⟨_, _, -, hok, -⟩
  · cases hfault
  · cases hok

end ProseWrap
