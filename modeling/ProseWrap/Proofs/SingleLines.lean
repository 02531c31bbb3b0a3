import ProseWrap.Proofs.FirstWords
import ProseWrap.Proofs.Newlines
import ProseWrap.Proofs.Sentences

/-!
# Paragraphs of a single line

A run of text can be laid out on its own (`wrapLine`) or as a document. The two
decide apart whether the text stays as it is: the one measures it as it was
given, the other measures the line that it stands on without the blanks at its
end. And a document lays out its prose part by part, with leads, hard breaks
and newlines of the paragraph. On a paragraph of one line without blanks at its
ends all this comes to the same (`Part.render_eq_wrapLine`), in every style:
the line has no indentation that could lead the further ones, it is a part of
its own whether breaks are preserved or not, and a hard break at its end is
followed by nothing.
-/

namespace ProseWrap

/-! ## Trimmed texts -/

theorem Text.trimEnd_of_trim {text : Text} (h : trim text = text) : trimEnd text = text := by
  have hidempotent : trimEnd (trim text) = trim text := List.rdropWhile_idempotent isBlank (trimStart text)
  rwa [h] at hidempotent

theorem Line.indent_of_trim {text : Text} (h : Text.trim text = text) : indent text = [] := by
  refine indent_eq_nil fun c hc => ?_
  obtain ⟨rest, hrest⟩ := List.head?_eq_some_iff.mp hc
  have hblank := Text.head_trim (h.trans hrest)
  constructor <;> (rintro rfl; cases hblank)

theorem Line.content_of_trim {text : Text} (h : Text.trim text = text) : content text = text := by
  have happend : indent text ++ content text = text := List.takeWhile_append_dropWhile
  rwa [indent_of_trim h] at happend

/-- A text without line feeds is one line, which nothing ends. -/
theorem Line.split_of_feed_not_mem {text : Text} (hne : text ≠ []) (h : '\n' ∉ text) :
    split text = [⟨text, .none, 0⟩] := by
  have hchars := splitFrom_chars 0 [] text [] h
  rw [List.append_nil, List.append_nil] at hchars
  rw [split, hchars, splitFrom, if_neg (by simpa using hne), List.reverse_reverse]

/-! ## Parts -/

theorem Part.split_singleton (preserveBreaks : Bool) (line : Text) :
    split preserveBreaks [line] = [⟨[line], Line.isHardBroken line⟩] := by
  cases hbroken : Line.isHardBroken line <;> simp [split, hbroken]

/-- A last part of one trimmed line is laid out as the line on its own. -/
theorem Part.render_eq_wrapLine (style : Style) {text : Text} (hne : text ≠ []) (htrim : Text.trim text = text)
    (hline : ∀ c ∈ text, c ≠ '\r' ∧ c ≠ '\n') (hardBreak : Bool) :
    (⟨[text], hardBreak⟩ : Part).render style ⟨[], []⟩ text true = wrapLine style text := by
  have hempty : text.isEmpty = false := by simpa using hne
  have htext : (⟨[text], hardBreak⟩ : Part).text = text := by simp [Part.text, htrim, hempty, List.intercalate]
  have hreturns : (text.any fun c => c == '\r' || c == '\n') = false :=
    List.any_eq_false.mpr fun c hc => by simp [hline c hc]
  rw [render, wrapLine, htext, htrim, hempty, hreturns, Text.trimEnd_of_trim htrim]
  cases style.sentenceLines == .runOn <;> cases style.admits text <;> simp

/-- So is prose that is one paragraph of such a line. New lines in it end with
line feeds, and it ends with none. -/
theorem Prose.render_eq_wrapLine (style : Style) {text : Text} (hne : text ≠ []) (htrim : Text.trim text = text)
    (hline : ∀ c ∈ text, c ≠ '\r' ∧ c ≠ '\n') :
    (⟨.paragraph [], [text]⟩ : Prose).render style [⟨text, .none, 0⟩] = ⟨wrapLine style text, .lf, .none⟩ := by
  rw [render, Part.split_singleton]
  show Rendering.mk (Part.render style ⟨[], []⟩ text true _ ++ []) _ _ = _
  rw [Part.render_eq_wrapLine style hne htrim hline, List.append_nil]
  rfl

/-! ## Documents -/

/-- A paragraph that is a whole document of one trimmed line has this line as
it stands: there is nothing to strip from it. -/
theorem Block.prose_of_trim {text : Text} (hne : text ≠ []) (htrim : Text.trim text = text) (hfeed : '\n' ∉ text)
    {block : Block} {indent : Text} {lines : List Text} (hblocks : (Document.ofText text).blocks = [block])
    (hkind : block.kind = .prose ⟨.paragraph indent, lines⟩) :
    block.sources (Line.split text) = [⟨text, .none, 0⟩] ∧ block.prose? = some ⟨.paragraph [], [text]⟩ := by
  have hsources : block.sources (Line.split text) = [⟨text, .none, 0⟩] := by
    have hall := flatMap_sources text
    rw [hblocks, List.flatMap_singleton] at hall
    exact hall.trans (Line.split_of_feed_not_mem hne hfeed)
  obtain ⟨n, hn⟩ := (tiles_ofText text).standsAt (hblocks ▸ List.mem_singleton_self block)
  obtain ⟨first, rest, htexts, hindent, hlines⟩ := hn.writtenOn _ hkind
  rw [hsources] at htexts
  cases htexts
  rw [Line.indent_of_trim htrim] at hindent
  rw [Line.content_of_trim htrim] at hlines
  subst hindent hlines
  exact ⟨hsources, prose?_eq_some.mpr hkind⟩

/-- A document that is one paragraph of one trimmed line is laid out as the
line on its own. -/
theorem Document.wrap_eq_join_wrapLine (style : Style) {text : Text} (htrim : Text.trim text = text)
    (hline : ∀ c ∈ text, c ≠ '\r' ∧ c ≠ '\n') {block : Block} {indent : Text} {lines : List Text}
    (hblocks : (ofText text).blocks = [block]) (hkind : block.kind = .prose ⟨.paragraph indent, lines⟩) :
    (ofText text).wrap style = List.intercalate ['\n'] (wrapLine style text) := by
  have hne : text ≠ [] := by
    rintro rfl
    cases hblocks
  obtain ⟨hsources, hprose⟩ := Block.prose_of_trim hne htrim (fun hmem => (hline _ hmem).2 rfl) hblocks hkind
  calc (ofText text).wrap style
      = block.wrapped style (Line.split text) := by rw [wrap, hblocks, List.flatMap_singleton]; rfl
    _ = ((⟨.paragraph [], [text]⟩ : Prose).render style [⟨text, .none, 0⟩]).source := by
        rw [Block.wrapped, hprose, hsources]
    _ = List.intercalate ['\n'] (wrapLine style text) := by
        rw [Prose.render_eq_wrapLine style hne htrim hline, Rendering.source]
        exact List.append_nil _

/-- Under options that are accepted, a text that is one paragraph of one line
without blanks at its ends is wrapped to the lines that are made of it as a
single line, with line feeds between them. -/
theorem wrapText_eq_join_wrapTextLine (config : Config) (fixed : Bool) (options : Options) (text : Text) (block : Block)
    (indent : Text) (lines : List Text) (hoptions : (config.accept fixed).result = .ok options)
    (hline : ∀ c ∈ text, c ≠ '\r' ∧ c ≠ '\n') (htrim : Text.trim text = text)
    (hblocks : (Document.ofText text).blocks = [block]) (hkind : block.kind = .prose ⟨.paragraph indent, lines⟩) :
    ∃ laid, (wrapTextLine config text fixed).result = .ok laid ∧
      (wrapText config fixed text).result = .ok (List.intercalate ['\n'] laid) := by
  refine ⟨wrapLine options.style text, ?_, ?_⟩
  · rw [wrapTextLine_result, hoptions]
    rfl
  · rw [wrapText_result, hoptions, ← Document.wrap_eq_join_wrapLine options.style htrim hline hblocks hkind]
    rfl

/-- Two sentences that are broken after a clause, the last of which ends with a
backslash. -/
theorem wrapText_eq_join_wrapTextLine_clauses :
    let config : Config :=
      { lineLength := .given (.number (.ofNat 9)), semanticLineBreaks := .given true, preserveBreaks := .given true }
    let text : Text := "Go, they said. Aa bb\\".toList
    let laid : List Text := ["Go,".toList, "they".toList, "said.".toList, "Aa bb\\".toList]
    (config.accept false).result = .ok
        { Options.default with lineLength := .ofNat 9, semanticLineBreaks := true, preserveBreaks := true } ∧
      (Document.ofText text).blocks = [⟨.prose ⟨.paragraph [], [text]⟩, 0, 0, 0, 21⟩] ∧
      (wrapTextLine config text).result = .ok laid ∧
      (wrapText config false text).result = .ok (List.intercalate ['\n'] laid) := by
  intro config text laid
  have hoptions : (config.accept false).result = .ok
      { Options.default with lineLength := .ofNat 9, semanticLineBreaks := true, preserveBreaks := true } := by
    decide +kernel
  have hblocks : (Document.ofText text).blocks = [⟨.prose ⟨.paragraph [], [text]⟩, 0, 0, 0, 21⟩] := by decide +kernel
  have hlaid : (wrapTextLine config text).result = .ok laid := by decide +kernel
  have hline : text.all (fun c => c ≠ '\r' && c ≠ '\n') = true := by decide +kernel
  obtain ⟨other, hother, hwrap⟩ := wrapText_eq_join_wrapTextLine config false _ text _ [] [text] hoptions
    (fun c hc => by simpa using List.all_eq_true.mp hline c hc) (by decide +kernel) hblocks rfl
  cases hlaid.symm.trans hother
  exact ⟨hoptions, hblocks, hlaid, hwrap⟩

end ProseWrap
