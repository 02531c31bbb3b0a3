import ProseWrap.Proofs.HardBreaks
import ProseWrap.Proofs.Newlines
import ProseWrap.Proofs.Stability
import ProseWrap.Proofs.Widths

/-!
# Texts that fit already

If breaks are preserved and sentences run on, each line of prose is a part of
its own, and a part that is narrow enough stays as it was written. So a text in
which every line is narrow enough does not change (`wrapText_eq_self_of_fits`).

Prose has one line for each line that it stands on, whatever its form, so no
line of the text is passed over. And what is written for a block has the
newline of its first line throughout, so the text must not mix newlines.
-/

namespace ProseWrap

/-! ## Widths that are admitted -/

/-- A whole number admits the widths up to it, and 0 admits all. -/
theorem Limit.admits_ofNumber_ofNat {length width : Nat} (h : length = 0 ∨ width ≤ length) :
    (Limit.ofNumber (.ofNat length)).admits width = true := by
  rcases Nat.eq_zero_or_pos length with rfl | hpos
  · rfl
  · have hle : width ≤ length := h.resolve_left (by omega)
    have hne : (length : Rat) ≠ 0 := by simp; omega
    have hfloor : (length : Rat).floor = length := Rat.floor_intCast length
    simp only [ofNumber, Number.ofNat, if_neg hne, admits, hfloor, decide_eq_true_eq]
    omega

theorem ProseForm.admits_style (form : ProseForm) (style : Style) (text : Text) :
    (form.style style).admits text = style.admits text := by
  cases form <;> rfl

theorem ProseForm.preserveBreaks_style (form : ProseForm) (style : Style) :
    (form.style style).preserveBreaks = style.preserveBreaks := by
  cases form <;> rfl

/-- A text that fits a line is empty, or the style of the options admits it.
Without a length mode it is empty if any line length is set. -/
theorem Options.admits_of_fits {options : Options} {length : Nat} {text : Text}
    (hlength : options.lineLength = .ofNat length)
    (h : length = 0 ∨ ∃ width ∈ measure? options.lengthMode text, width ≤ length) :
    text = [] ∨ options.style.admits text = true := by
  have hstyle : options.style.admits text =
      options.limit.admits (measure (options.lengthMode.getD .chars) text) := rfl
  rw [hstyle, limit, hlength]
  cases hmode : options.lengthMode with
  | none =>
    rcases h with rfl | ⟨width, hwidth, hle⟩
    · exact .inr rfl
    · have hempty : text = [] ∧ 0 = width := by simpa [measure?, hmode] using hwidth
      exact .inl hempty.1
  | some mode =>
    right
    refine Limit.admits_ofNumber_ofNat (h.imp_right ?_)
    rintro ⟨width, hwidth, hle⟩
    rw [hmode, measure?_some] at hwidth
    cases hwidth
    exact hle

/-! ## Parts of one line -/

namespace Part

variable {style : Style}

theorem split_true (lines : List Text) :
    split true lines = lines.map fun line => ⟨[line], Line.isHardBroken line⟩ := by
  induction lines with
  | nil => rfl
  | cons line rest ih => rw [split, if_pos (by rfl), ih, List.map_cons]

/-- A line of nothing but blanks has no text. -/
theorem text_of_trimEnd_eq_nil {line source : Text} (hsuffix : line <:+ source) (h : Text.trimEnd source = [])
    (hardBreak : Bool) : text ⟨[line], hardBreak⟩ = [] := by
  have hblank : ∀ c ∈ line, Text.isBlank c := fun c hc => List.rdropWhile_eq_nil_iff.mp h c (hsuffix.subset hc)
  have htrim : Text.trim line = [] :=
    List.rdropWhile_eq_nil_iff.mpr fun c hc => hblank c ((List.dropWhile_sublist _).subset hc)
  simp [text, htrim]

/-- A part of a single line that is blank or narrow enough stays as it was
written. -/
theorem render_of_admits (hrun : style.sentenceLines = .runOn) (leads : Leads) {line source : Text} (last : Bool)
    (hardBreak : Bool) (hsuffix : line <:+ source)
    (hadmits : Text.trimEnd source = [] ∨ style.admits (Text.trimEnd source) = true) :
    render style leads source last ⟨[line], hardBreak⟩ = [source] := by
  unfold render
  dsimp only
  rcases hadmits with hblank | hadmits
  · rw [text_of_trimEnd_eq_nil hsuffix hblank, if_pos (by rfl)]
  · split
    · rfl
    · rw [if_pos (by simp [hrun, hadmits])]

/-- If each line is a part of its own and all are blank or narrow enough, all
stay as they were written. -/
theorem renderEach_of_admits (hrun : style.sentenceLines = .runOn) (leads : Leads) {sources lines : List Text}
    (hsuffix : List.Forall₂ (· <:+ ·) lines sources)
    (hadmits : ∀ source ∈ sources, Text.trimEnd source = [] ∨ style.admits (Text.trimEnd source) = true) :
    renderEach style leads sources (split true lines) = sources.map fun source => [source] := by
  rw [split_true]
  induction hsuffix generalizing leads with
  | nil => rfl
  | cons hline _ ih =>
    obtain ⟨hfirst, hrest⟩ := List.forall_mem_cons.mp hadmits
    rw [List.map_cons, renderEach, List.headD_cons, render_of_admits hrun leads _ _ hline hfirst, List.map_cons]
    exact congrArg _ (ih _ hrest)

end Part

/-- Prose of which all lines are blank or narrow enough keeps the lines that it
stands on. -/
theorem Prose.lines_render_of_admits {style : Style} (hrun : style.sentenceLines = .runOn)
    (hbreaks : style.preserveBreaks = true) {prose : Prose} {sources : List Line}
    (hw : prose.WrittenOn (sources.map Line.text))
    (hadmits : ∀ source ∈ sources,
      Text.trimEnd source.text = [] ∨ style.admits (Text.trimEnd source.text) = true) :
    (prose.render style sources).lines = sources.map Line.text := by
  have hrun' := ProseForm.sentenceLines_style hrun prose.form
  have hadmits' : ∀ source ∈ sources.map Line.text,
      Text.trimEnd source = [] ∨ (prose.form.style style).admits (Text.trimEnd source) = true := by
    intro source hs
    obtain ⟨line, hl, rfl⟩ := List.mem_map.mp hs
    rw [prose.form.admits_style]
    exact hadmits line hl
  show Part.renderAll (prose.form.style style) _ _ (Part.split (prose.form.style style).preserveBreaks _) = _
  rw [prose.form.preserveBreaks_style, hbreaks, ← Part.flatten_renderEach,
    Part.renderEach_of_admits hrun' _ hw.suffix hadmits', ← List.flatMap_def, List.flatMap_singleton']

/-! ## Lines with one newline -/

/-- Lines that all have one newline, but for the last one that may have none,
are their texts with this newline between and the last newline after them. -/
theorem Line.Unbroken.join_texts {newline : Newline} {lines : List Line} (h : Unbroken lines) (hne : lines ≠ [])
    (hnewline : ∀ line ∈ lines, line.newline = newline ∨ line.newline = .none) :
    List.intercalate newline.text (lines.map text) ++ (lastNewline lines).text = join lines := by
  induction lines with
  | nil => exact absurd rfl hne
  | cons line rest ih =>
    obtain ⟨hfirst, hrest⟩ := List.forall_mem_cons.mp hnewline
    obtain ⟨-, -, hnone, h⟩ := h
    cases rest with
    | nil => simp [List.intercalate, lastNewline, source]
    | cons next rest =>
      have hline : line.newline = newline := hfirst.resolve_right fun hn => by cases (hnone hn).2
      have hlast : lastNewline (line :: next :: rest) = lastNewline (next :: rest) := by simp [lastNewline]
      rw [hlast, join_cons, ← ih h (by simp) hrest, source, hline]
      simp only [List.map_cons, List.intercalate_cons_cons, List.append_assoc]

/-- New lines between lines that all have one newline, but for the last one,
have it too. -/
theorem Line.Unbroken.innerNewline_eq {newline : Newline} {lines : List Line} (h : Unbroken lines)
    (hlength : 1 < lines.length) (hnewline : ∀ line ∈ lines, line.newline = newline ∨ line.newline = .none) :
    innerNewline lines = newline := by
  rcases lines with _ | ⟨line, _ | ⟨next, rest⟩⟩
  · simp at hlength
  · simp at hlength
  · obtain ⟨-, -, hnone, -⟩ := h
    have hsome : line.newline ≠ .none := fun hn => by cases (hnone hn).2
    have hline := (hnewline line List.mem_cons_self).resolve_right hsome
    rw [innerNewline, List.find?_cons_of_pos (by simpa using hsome)]
    exact hline

/-! ## Blocks -/

/-- A block of which all lines are blank or narrow enough is laid out as it
stands. -/
theorem Block.StandsAt.wrapped_of_admits {lines : List Line} {first : Nat} {block : Block}
    (h : StandsAt lines first block) (hl : Line.Unbroken lines) {style : Style}
    (hrun : style.sentenceLines = .runOn) (hbreaks : style.preserveBreaks = true) {newline : Newline}
    (hnewline : ∀ line ∈ lines, line.newline = newline ∨ line.newline = .none)
    (hadmits : ∀ line ∈ lines,
      Text.trimEnd line.text = [] ∨ style.admits (Text.trimEnd line.text) = true) :
    block.wrapped style lines = Line.join (block.sources lines) := by
  have hsub : ∀ line ∈ block.sources lines, line ∈ lines := fun line hs =>
    List.mem_of_mem_drop (List.mem_of_mem_take hs)
  unfold wrapped
  split
  · rename_i prose hprose
    have hw := h.writtenOn prose (prose?_eq_some.mp hprose)
    have hlines := Prose.lines_render_of_admits hrun hbreaks hw fun line hs => hadmits line (hsub line hs)
    have hown := h.unbroken hl
    have hown' : ∀ line ∈ block.sources lines, line.newline = newline ∨ line.newline = .none :=
      fun line hs => hnewline line (hsub line hs)
    rw [Rendering.source, Rendering.body, hlines, ← hown.join_texts h.sources_ne_nil hown']
    show List.intercalate (Line.innerNewline (block.sources lines)).text _ ++
      (Line.lastNewline (block.sources lines)).text = _
    congr 1
    -- with a single line nothing lies between lines, so it does not matter
    -- that no newline is known
    by_cases hlength : 1 < (block.sources lines).length
    · rw [hown.innerNewline_eq hlength hown']
    · exact Text.intercalate_eq_of_length_le (by rw [List.length_map]; omega) _ _
  · rfl

/-! ## Texts -/

/-- If breaks are preserved and sentences run on, a text whose lines all end
with the same newline, but for the last one that may have none, and are all
narrow enough does not change. -/
theorem wrapText_eq_self_of_fits (config : Config) (fixed : Bool) (options : Options) (length : Nat) (text : Text)
    (newline : Newline) (hoptions : (config.accept fixed).result = .ok options)
    (hlength : options.lineLength = .ofNat length) (hbreaks : options.preserveBreaks = true)
    (hwhole : options.sentencePerLine = false) (hclauses : options.semanticLineBreaks = false)
    (hnewline : ∀ line ∈ Line.split text, line.newline = newline ∨ line.newline = .none)
    (hfits : length = 0 ∨
      ∀ line ∈ Line.split text, ∃ width ∈ measure? options.lengthMode (Text.trimEnd line.text), width ≤ length) :
    (wrapText config fixed text).result = .ok text := by
  have hrun : options.style.sentenceLines = .runOn := by simp [Options.style, hwhole, hclauses]
  have hadmits : ∀ line ∈ Line.split text,
      Text.trimEnd line.text = [] ∨ options.style.admits (Text.trimEnd line.text) = true := fun line hline =>
    Options.admits_of_fits hlength (hfits.imp_right fun h => h line hline)
  have hsettled : (Document.ofText text).Settled options.style := by
    intro block hb
    obtain ⟨n, hn⟩ := (tiles_ofText text).standsAt hb
    exact hn.wrapped_of_admits (Line.unbroken_split text) hrun hbreaks hnewline hadmits
  rw [wrapText_result, hoptions, ← congrArg Except.ok (wrap_of_settled hsettled)]
  rfl

/-- A quotation, a list item that goes on, a hard break and an unfinished last
line stay as they are. -/
theorem wrapText_eq_self_of_fits_narrow :
    let config : Config := { lineLength := .given (.number (.ofNat 5)), preserveBreaks := .given true }
    let options : Options := { Options.default with lineLength := .ofNat 5, preserveBreaks := true }
    let text : Text := ">a\r\n> b\r\n\r\n- c  \r\n   d\r\n\r\ne f\\\r\ng".toList
    (config.accept false).result = .ok options ∧
      (∀ line ∈ Line.split text, line.newline = .crlf ∨ line.newline = .none) ∧
      (∀ line ∈ Line.split text, ∃ width ∈ measure? (some .chars) (Text.trimEnd line.text), width ≤ 5) ∧
      (wrapText config false text).result = .ok text := by
  intro config options text
  have hoptions : (config.accept false).result = .ok options := by decide +kernel
  have hnewline : ∀ line ∈ Line.split text, line.newline = .crlf ∨ line.newline = .none := by decide +kernel
  have hnarrow : ∀ line ∈ Line.split text, measure .chars (Text.trimEnd line.text) ≤ 5 := by decide +kernel
  have hfits : ∀ line ∈ Line.split text, ∃ width ∈ measure? (some .chars) (Text.trimEnd line.text), width ≤ 5 :=
    fun line hline => ⟨_, measure?_some _ _, hnarrow line hline⟩
  exact ⟨hoptions, hnewline, hfits, wrapText_eq_self_of_fits config false options 5 text .crlf hoptions rfl rfl rfl
    rfl hnewline (.inr hfits)⟩

end ProseWrap
