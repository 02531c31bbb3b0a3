import ProseWrap.Proofs.Groups
import ProseWrap.Proofs.Partition
import ProseWrap.Proofs.Tokens

/-!
# Wrapping keeps the content

Wrapping a document changes blanks, the marks of quotations and, where
sentences have lines of their own, the markers of emphasis; it loses, repeats
and moves nothing else (`wrapText_keeps_content`).

The steps follow the layout: a text and its lines (`layout_without`), a part
(`render_without`), the parts of prose (`renderAll_without`), prose and the
lines it is written on (`Inked`, `WrittenOn.inked`), a block
(`wrapped_without`) and the document (`wrap_without`). All of them are about
what is left after deleting the characters that satisfy `p`, which holds of
blanks at least.
-/

namespace ProseWrap

open Text (without without_append without_nil)

/-! ## Lines of a text -/

theorem joinTexts_without {p : Char → Bool} (hp : ∀ c, Text.isBlank c → p c) (tokens : List Token) :
    without p (Token.joinTexts tokens) = tokens.flatMap fun token => without p token.text := by
  rw [Token.joinTexts, Text.without_intercalate (Text.without_space hp), List.flatMap_map]

theorem render_without {p : Char → Bool} (hp : ∀ c, Text.isBlank c → p c) {leads : Leads}
    (hfurther : without p leads.further = []) {groups : List (List Token)} (hne : groups ≠ []) :
    (leads.render groups).flatMap (without p) =
      without p leads.first ++ groups.flatten.flatMap fun token => without p token.text := by
  cases groups with
  | nil => exact absurd rfl hne
  | cons group rest =>
    have hrest : (rest.map fun group => leads.further ++ Token.joinTexts group).flatMap (without p) =
        rest.flatten.flatMap fun token => without p token.text := by
      induction rest with
      | nil => rfl
      | cons other rest ih =>
        rw [List.map_cons, List.flatMap_cons, ih (by simp), without_append, hfurther, List.nil_append,
          joinTexts_without hp, List.flatten_cons, List.flatMap_append]
    rw [Leads.render, List.flatMap_cons, hrest, without_append, joinTexts_without hp, List.flatten_cons,
      List.flatMap_append, List.append_assoc]

theorem groups_ne_nil (style : Style) (leads : Leads) {c : Char} {rest : Text} (hc : Text.isBlank c = false) :
    style.groups leads (c :: rest) ≠ [] := by
  have hgap : Text.isGap c = false := by
    by_contra h
    rw [Text.isBlank_of_isGap (by simpa using h)] at hc
    cases hc
  intro h
  have hflat := style.flatten_groups leads (c :: rest)
  rw [h] at hflat
  exact tokenize_ne_nil style.lengthMode hgap hflat.symm

/-- The lines of a text hold what it holds, after the first lead. -/
theorem layout_without {p : Char → Bool} (hp : ∀ c, Text.isBlank c → p c) {style : Style} {leads : Leads}
    (hmarker : style.handling = .split → ∀ marker : Marker, p marker.toChar)
    (hfurther : without p leads.further = []) {c : Char} {rest : Text} (hc : Text.isBlank c = false) :
    (style.layout leads (c :: rest)).flatMap (without p) =
      without p leads.first ++ without p (c :: rest) := by
  rw [Style.layout, render_without hp hfurther (groups_ne_nil style leads hc), style.flatten_groups, Style.tokens,
    tokenize_without _ (fun c hc => hp c (Text.isBlank_of_isGap hc)) fun h => ⟨hp, hmarker h⟩]

/-! ## Parts -/

namespace Part

theorem split_spec (preserveBreaks : Bool) (lines : List Text) :
    (split preserveBreaks lines).flatMap Part.lines = lines ∧
      ∀ part ∈ split preserveBreaks lines, part.lines ≠ [] := by
  fun_induction split preserveBreaks lines with
  | case1 => simp
  | case2 line rest _ ih => simp [ih.1]; exact ih.2
  | case3 line rest _ hnil ih =>
    rw [hnil] at ih
    simp [← ih.1]
  | case4 line rest _ part others hcons ih =>
    rw [hcons] at ih
    refine ⟨by simp [← ih.1], fun other ho => ?_⟩
    rcases List.mem_cons.mp ho with rfl | ho
    · exact List.cons_ne_nil _ _
    · exact ih.2 other (List.mem_cons_of_mem _ ho)

theorem addHardBreak_without {p : Char → Bool} (hp : ∀ c, Text.isBlank c → p c) (lines : List Text) :
    (addHardBreak lines).flatMap (without p) = lines.flatMap (without p) := by
  fun_induction addHardBreak lines with
  | case1 => rfl
  | case2 line =>
    have hspaces : without p [' ', ' '] = [] := Text.without_spaces hp 2
    simp [hspaces]
  | case3 line rest _ ih => rw [List.flatMap_cons, List.flatMap_cons, ih]

theorem text_without {p : Char → Bool} (hp : ∀ c, Text.isBlank c → p c) (part : Part) :
    without p part.text = part.lines.flatMap (without p) := by
  rw [text, Text.without_intercalate (Text.without_space hp)]
  induction part.lines with
  | nil => rfl
  | cons line lines ih =>
    rw [List.map_cons, List.filter_cons, List.flatMap_cons, ← ih]
    split
    · rw [List.flatMap_cons, Text.without_trim hp]
    · rename_i hempty
      simp only [Bool.not_eq_true, Bool.not_eq_false'] at hempty
      rw [Text.without_isEmpty_trim hp hempty, List.nil_append]

/-- The text of a part does not begin with a blank. -/
theorem head_text {part : Part} {c : Char} {rest : Text} (h : part.text = c :: rest) :
    Text.isBlank c = false := by
  have hlines : ∀ line ∈ (part.lines.map Text.trim).filter fun line => !line.isEmpty,
      line ≠ [] ∧ ∀ d more, line = d :: more → Text.isBlank d = false := by
    intro line hl
    obtain ⟨hmem, hne⟩ := List.mem_filter.mp hl
    obtain ⟨source, -, rfl⟩ := List.mem_map.mp hmem
    exact ⟨by simpa using hne, fun d more hd => Text.head_trim hd⟩
  rw [text] at h
  cases hl : (part.lines.map Text.trim).filter fun line => !line.isEmpty with
  | nil =>
    rw [hl] at h
    cases h
  | cons line others =>
    rw [hl] at h
    obtain ⟨hne, hhead⟩ := hlines line (hl ▸ List.mem_cons_self)
    obtain ⟨d, more, rfl⟩ := List.exists_cons_of_ne_nil hne
    have hd : d = c := by
      cases others with
      | nil => exact (List.cons.inj h).1
      | cons second others => exact (List.cons.inj h).1
    exact hd ▸ hhead d more rfl

variable {p : Char → Bool} (hp : ∀ c, Text.isBlank c → p c) {style : Style}
  (hmarker : style.handling = .split → ∀ marker : Marker, p marker.toChar)

include hp hmarker

/-- The lines of a part hold what it holds, after the first lead. -/
theorem render_without (leads : Leads) (hfurther : without p leads.further = []) (part : Part)
    {line source : Text} {lines : List Text} (last : Bool) (hlines : part.lines = line :: lines)
    (hsource : without p source = without p leads.first ++ without p line) :
    (part.render style leads source last).flatMap (without p) =
      without p leads.first ++ part.lines.flatMap (without p) := by
  have htext := text_without hp part
  unfold render
  dsimp only
  split
  · rename_i hempty
    rw [List.isEmpty_iff.mp hempty, without_nil] at htext
    rw [← htext, List.append_nil, List.flatMap_singleton, hsource]
    rw [hlines, List.flatMap_cons] at htext
    rw [(List.append_eq_nil_iff.mp htext.symm).1, List.append_nil]
  · rename_i hempty
    split
    · rename_i hverbatim
      simp only [Bool.and_eq_true, beq_iff_eq] at hverbatim
      have hone : lines = [] := by
        have := hverbatim.1.2
        rw [hlines, List.length_cons] at this
        exact List.length_eq_zero_iff.mp (by omega)
      rw [List.flatMap_singleton, hsource, hlines, hone, List.flatMap_singleton]
    · obtain ⟨c, rest, hc⟩ := List.exists_cons_of_ne_nil (by simpa using hempty)
      have hlayout : (style.layout leads (c :: rest)).flatMap (without p) = _ :=
        layout_without hp hmarker hfurther (head_text hc)
      rw [hc] at htext
      rw [hc, ← htext, ← hlayout]
      split
      · exact addHardBreak_without hp _
      · rfl

/-- The lines of the parts after the first hold what the parts hold. -/
theorem renderRest_without {lead : Text} (hlead : without p lead = []) (sources : List Text)
    (parts : List Part) (hne : ∀ part ∈ parts, part.lines ≠ [])
    (hsources : sources.map (without p) = (parts.flatMap Part.lines).map (without p)) :
    (renderRest style lead sources parts).flatMap (without p) =
      (parts.flatMap Part.lines).flatMap (without p) := by
  induction parts generalizing sources with
  | nil => rfl
  | cons part parts ih =>
    obtain ⟨line, lines, hlines⟩ := List.exists_cons_of_ne_nil (hne part List.mem_cons_self)
    cases sources with
    | nil => simp [hlines] at hsources
    | cons source sources =>
      have hdrop : ((source :: sources).drop part.lines.length).map (without p) =
          (parts.flatMap Part.lines).map (without p) := by
        rw [List.map_drop, hsources, List.flatMap_cons, List.map_append, List.drop_left' (by simp)]
      have hfirst : without p source = without p line := by
        rw [List.flatMap_cons, hlines] at hsources
        exact (List.cons.inj hsources).1
      have hrender := render_without hp hmarker ⟨lead, lead⟩ hlead part parts.isEmpty
        hlines (by rw [hfirst, hlead, List.nil_append])
      rw [renderRest, List.flatMap_append, List.headD_cons, hrender,
        ih _ (fun other ho => hne other (List.mem_cons_of_mem _ ho)) hdrop, hlead, List.nil_append,
        List.flatMap_cons, List.flatMap_append]

/-- The lines of parts hold what the parts hold, after the first lead. -/
theorem renderAll_without {leads : Leads} (hfurther : without p leads.further = []) {source : Text}
    {sources lines : List Text} {line : Text} (parts : List Part) (hne : ∀ part ∈ parts, part.lines ≠ [])
    (hparts : parts.flatMap Part.lines = line :: lines)
    (hsource : without p source = without p leads.first ++ without p line)
    (hsources : sources.map (without p) = lines.map (without p)) :
    (renderAll style leads (source :: sources) parts).flatMap (without p) =
      without p leads.first ++ (line :: lines).flatMap (without p) := by
  cases parts with
  | nil => cases hparts
  | cons part parts =>
    obtain ⟨first, more, hlines⟩ := List.exists_cons_of_ne_nil (hne part List.mem_cons_self)
    have hsplit : first = line ∧ more ++ parts.flatMap Part.lines = lines := by
      rw [List.flatMap_cons, hlines, List.cons_append] at hparts
      exact List.cons.inj hparts
    have hdrop : ((source :: sources).drop part.lines.length).map (without p) =
        (parts.flatMap Part.lines).map (without p) := by
      rw [hlines, List.length_cons, List.drop_succ_cons, List.map_drop, hsources, ← hsplit.2,
        List.map_append, List.drop_left' (by simp)]
    have hrender := render_without hp hmarker leads hfurther part parts.isEmpty hlines
      (by rw [hsplit.1, hsource])
    rw [renderAll, List.flatMap_append, List.headD_cons, hrender, renderRest_without hp hmarker hfurther _
      parts (fun other ho => hne other (List.mem_cons_of_mem _ ho)) hdrop, ← hparts, List.flatMap_cons,
      List.flatMap_append, List.append_assoc]

end Part

/-! ## Prose -/

/-- A list item is its marker, its gap and its content. -/
theorem append_of_itemMark? {text : Text} {item : Line.ItemMark} (h : Line.itemMark? text = some item) :
    ∃ rest, text = item.marker ++ (Line.indent rest ++ item.content) := by
  rcases Option.or_eq_some_iff.mp h with h | ⟨-, h⟩
  · unfold Line.bullet? at h
    split at h
    · cases h
    · rename_i c rest _
      split at h <;> cases h
      exact ⟨rest, congrArg (c :: ·) List.takeWhile_append_dropWhile.symm⟩
  · unfold Line.enumerator? at h
    dsimp only at h
    split at h
    · cases h
    · rename_i c rest hdrop
      split at h <;> cases h
      refine ⟨rest, ?_⟩
      have hrest : Line.indent rest ++ Line.content rest = rest := List.takeWhile_append_dropWhile
      rw [hrest, List.append_assoc, List.singleton_append, ← hdrop, Text.drop_length_takeWhile,
        List.takeWhile_append_dropWhile]

theorem itemMark?_without {p : Char → Bool} (hp : ∀ c, Text.isBlank c → p c) {text : Text}
    {item : Line.ItemMark} (h : Line.itemMark? text = some item) :
    without p text = without p item.marker ++ without p item.content := by
  obtain ⟨rest, hrest⟩ := append_of_itemMark? h
  conv => lhs; rw [hrest]
  rw [without_append, without_append, Text.without_indent hp, List.nil_append]

theorem unquote_without {p : Char → Bool} (hp : ∀ c, Text.isBlank c → p c) (hquote : p '>')
    (fuel depth : Nat) (text : Text) : without p (Line.unquote fuel depth text).content = without p text := by
  have hmark : without p ['>'] = [] := Text.without_eq_nil (by simpa using hquote)
  have hspace (rest : Text) :
      without p (if rest.head? == some ' ' then rest.drop 1 else rest) = without p rest := by
    split
    · rename_i hhead
      obtain ⟨more, rfl⟩ := List.head?_eq_some_iff.mp (by simpa using hhead)
      rw [List.drop_one, List.tail_cons, Text.without_cons ' ' more, Text.without_space hp, List.nil_append]
    · rfl
  fun_induction Line.unquote fuel depth text with
  | case1 fuel depth rest rest' gap hcond ih =>
    have hdrop : without p (rest'.drop gap) = without p rest' := by
      rw [show rest'.drop gap = Line.content rest' from Text.drop_length_takeWhile _ _,
        Text.without_content hp]
    rw [ih, hdrop, hspace, Text.without_cons '>' rest, hmark, List.nil_append]
  | case2 fuel depth rest rest' gap hcond => rw [hspace, Text.without_cons '>' rest, hmark, List.nil_append]
  | case3 => rfl

/-- Taking marks off leaves an end of the text. -/
theorem unquote_suffix (fuel depth : Nat) (text : Text) : (Line.unquote fuel depth text).content <:+ text := by
  have hspace (rest : Text) : (if rest.head? == some ' ' then rest.drop 1 else rest) <:+ rest := by
    split
    · exact List.drop_suffix _ _
    · exact List.suffix_rfl
  fun_induction Line.unquote fuel depth text with
  | case1 fuel depth rest rest' gap _ ih =>
    exact ((ih.trans (List.drop_suffix _ _)).trans (hspace rest)).trans (List.suffix_cons _ _)
  | case2 fuel depth rest rest' gap _ => exact (hspace rest).trans (List.suffix_cons _ _)
  | case3 => exact List.suffix_rfl

theorem le_depth_unquote (fuel depth : Nat) (text : Text) : depth ≤ (Line.unquote fuel depth text).depth := by
  fun_induction Line.unquote fuel depth text with
  | case1 fuel depth rest rest' gap _ ih => omega
  | case2 fuel depth rest rest' gap _ => exact Nat.le_succ depth
  | case3 => exact Nat.le_refl _

/-- As many marks as a text is quoted by are all of them. -/
theorem unquote_depth (fuel depth : Nat) (text : Text) :
    Line.unquote ((Line.unquote fuel depth text).depth - depth) depth text = Line.unquote fuel depth text := by
  fun_induction Line.unquote fuel depth text with
  | case1 fuel depth rest rest' gap hmark ih =>
    have hle := le_depth_unquote fuel (depth + 1) (rest'.drop gap)
    rw [show (Line.unquote fuel (depth + 1) (rest'.drop gap)).depth - depth =
      (Line.unquote fuel (depth + 1) (rest'.drop gap)).depth - (depth + 1) + 1 by omega, Line.unquote]
    exact (if_pos hmark).trans ih
  | case2 fuel depth rest rest' gap hmark =>
    rw [Nat.add_sub_cancel_left, Line.unquote]
    exact if_neg hmark
  | case3 fuel depth text => rw [Nat.sub_self, Line.unquote]; simp

/-- A line that is quoted at an indentation and a depth has that indentation
and that many marks. -/
theorem unquote_of_quotedAt? {indent text quoted : Text} {depth : Nat}
    (h : Block.quotedAt? indent depth text = some quoted) :
    Line.indent text = indent ∧ Line.unquote depth 0 (Line.content text) = ⟨depth, quoted⟩ := by
  unfold Block.quotedAt? at h
  split at h
  · rename_i hindent
    split at h
    · rename_i quote hquote
      split at h <;> cases h
      rename_i hdepth
      unfold Line.quoteMark? at hquote
      split at hquote <;> cases hquote
      refine ⟨hindent, ?_⟩
      have hmarks := unquote_depth (Line.content text).length 0 (Line.content text)
      rw [hdepth, Nat.sub_zero] at hmarks
      rw [hmarks, ← hdepth]
    · cases h
  · cases h

theorem quotedAt?_without {p : Char → Bool} (hp : ∀ c, Text.isBlank c → p c) (hquote : p '>')
    {indent text quoted : Text} {depth : Nat} (h : Block.quotedAt? indent depth text = some quoted) :
    without p text = without p quoted := by
  have hmarks := unquote_without hp hquote depth 0 (Line.content text)
  rw [(unquote_of_quotedAt? h).2, Text.without_content hp] at hmarks
  exact hmarks.symm

/-- A definition is its marker and its content. -/
theorem append_of_definitionMark? {text : Text} {body : Line.DefinitionMark}
    (h : Line.definitionMark? text = some body) : text = body.marker ++ body.content := by
  unfold Line.definitionMark? at h
  dsimp only at h
  split at h
  · rename_i rest hcolon
    split at h
    · cases h
    · rename_i c more hdrop
      split at h <;> cases h
      rw [Line.indent, Text.drop_length_takeWhile] at hcolon hdrop
      rw [← hdrop, Line.indent, Line.indent, List.append_assoc, List.cons_append,
        List.takeWhile_append_dropWhile, ← hcolon, List.takeWhile_append_dropWhile]
  · cases h

/-- The first of the lines `texts` holds the first lead and the first line of
the prose, each further one holds the further line, and a further lead holds
nothing. -/
def Prose.Inked (p : Char → Bool) (prose : Prose) (texts : List Text) : Prop :=
  without p prose.form.leads.further = [] ∧
  ∃ first rest line lines, texts = first :: rest ∧ prose.lines = line :: lines ∧
    without p first = without p prose.form.leads.first ++ without p line ∧
    rest.map (without p) = lines.map (without p)

/-- The mark of a quotation counts for nothing, if the prose is one. -/
def ProseForm.Unmarked (p : Char → Bool) : ProseForm → Prop
  | quote _ _ => p '>'
  | _ => True

/-- The style of a form takes emphasis apart only if the style does. -/
theorem ProseForm.handling_style {style : Style} (form : ProseForm)
    (h : (form.style style).handling = .split) : style.handling = .split := by
  cases form with
  | definition marker => cases hb : style.breakOnSentences <;> simp [ProseForm.style, Style.handling, hb] at h
  | paragraph => exact h
  | listItem => exact h
  | quote => exact h

section

variable {p : Char → Bool} (hp : ∀ c, Text.isBlank c → p c)

include hp

theorem map_trimStart_without (texts : List Text) :
    texts.map (without p) = (texts.map Text.trimStart).map (without p) := by
  rw [List.map_map]
  exact List.map_congr_left fun text _ => (Text.without_trimStart hp text).symm

theorem quoted_map_without (hquote : p '>') {indent : Text} {depth : Nat} {texts quoted : List Text}
    (h : texts.map (Block.quotedAt? indent depth) = quoted.map some) :
    texts.map (without p) = quoted.map (without p) := by
  induction texts generalizing quoted with
  | nil => rw [List.map_eq_nil_iff.mp h.symm]
  | cons text texts ih =>
    cases quoted with
    | nil => cases h
    | cons inner quoted =>
      obtain ⟨htext, hrest⟩ := List.cons.inj h
      rw [List.map_cons, List.map_cons, quotedAt?_without hp hquote htext, ih hrest]

theorem quoteLead_without (hquote : p '>') {indent : Text} (hindent : without p indent = []) (depth : Nat) :
    without p (indent ++ (List.replicate depth ['>', ' ']).flatten) = [] := by
  have hmark : without p ['>', ' '] = [] :=
    Text.without_eq_nil fun c hc => by
      simp only [List.mem_cons, List.not_mem_nil, or_false] at hc
      rcases hc with rfl | rfl
      · exact hquote
      · exact hp ' ' (by decide)
  rw [without_append, hindent, Text.without_flatten, List.nil_append, List.flatMap_eq_nil_iff]
  intro mark hm
  rw [List.eq_of_mem_replicate hm, hmark]

/-- Prose holds what the lines that it is written on hold. -/
theorem Prose.WrittenOn.inked {prose : Prose} {texts : List Text} (hw : prose.WrittenOn texts)
    (hne : texts ≠ []) (hform : prose.form.Unmarked p) : prose.Inked p texts := by
  obtain ⟨form, lines⟩ := prose
  cases form with
  | paragraph indent =>
    obtain ⟨first, rest, rfl, rfl, hlines⟩ := hw
    refine ⟨Text.without_indent hp first, first, rest, _, _, rfl, hlines, ?_, map_trimStart_without hp rest⟩
    rw [ProseForm.leads, Text.without_indent hp, Text.without_content hp, List.nil_append]
  | listItem indent marker ordered further =>
    obtain ⟨first, rest, content, rfl, rfl, hitem, rfl, hlines⟩ := hw
    refine ⟨?_, first, rest, _, _, rfl, hlines, ?_, map_trimStart_without hp rest⟩
    · rw [ProseForm.leads, Block.itemIndent, without_append, Text.without_indent hp, Text.without_spaces hp,
        List.nil_append]
    · rw [← Text.without_content hp first, itemMark?_without hp hitem, ProseForm.leads, without_append,
        without_append, Text.without_indent hp, Text.without_space hp, List.nil_append, List.append_nil]
  | quote indent depth =>
    obtain ⟨quoted, hquoted, hlines⟩ := hw
    obtain ⟨first, rest, rfl⟩ := List.exists_cons_of_ne_nil hne
    cases quoted with
    | nil => cases hquoted
    | cons inner others =>
      obtain ⟨hfirst, hrest⟩ := List.cons.inj hquoted
      have hindent : without p indent = [] := by
        rw [← (unquote_of_quotedAt? hfirst).1, Text.without_indent hp]
      refine ⟨quoteLead_without hp hform hindent depth, first, rest, _, _, rfl, hlines, ?_, ?_⟩
      · rw [ProseForm.leads, quoteLead_without hp hform hindent depth, List.nil_append,
          Text.without_trimStart hp, quotedAt?_without hp hform hfirst]
      · rw [quoted_map_without hp hform hrest, map_trimStart_without hp]
  | definition marker =>
    obtain ⟨first, rest, content, rfl, hbody, hlines⟩ := hw
    refine ⟨Text.without_spaces hp _, first, rest, _, _, rfl, hlines, ?_, map_trimStart_without hp rest⟩
    conv => lhs; rw [append_of_definitionMark? hbody]
    rw [without_append, ProseForm.leads]

/-! ## Blocks and documents -/

theorem join_without (lines : List Line) :
    without p (Line.join lines) = (lines.map Line.text).flatMap (without p) := by
  rw [Line.join, Text.without_flatMap, List.flatMap_map]
  refine List.flatMap_congr fun line _ => ?_
  rw [Line.source, without_append, Text.without_newline hp, List.append_nil]

variable {style : Style} (hmarker : style.handling = .split → ∀ marker : Marker, p marker.toChar)

include hmarker

theorem prose_render_without {prose : Prose} {sources : List Line}
    (hi : prose.Inked p (sources.map Line.text)) :
    without p (prose.render style sources).source = without p (Line.join sources) := by
  obtain ⟨hfurther, first, rest, line, lines, htexts, hlines, hfirst, hrest⟩ := hi
  obtain ⟨hparts, hne⟩ := Part.split_spec (prose.form.style style).preserveBreaks prose.lines
  have hform : (prose.form.style style).handling = .split → ∀ marker : Marker, p marker.toChar :=
    fun h => hmarker (prose.form.handling_style h)
  have hall := Part.renderAll_without hp hform hfurther _ hne (hparts.trans hlines) hfirst hrest
  rw [Rendering.source, without_append, Rendering.body, Text.without_intercalate (Text.without_newline hp _),
    Text.without_newline hp, List.append_nil, join_without hp, htexts, List.flatMap_cons, hfirst,
    List.append_assoc]
  have hflat : rest.flatMap (without p) = lines.flatMap (without p) := by
    rw [List.flatMap_def, List.flatMap_def, hrest]
  simp only [Prose.render, htexts]
  rw [hall, List.flatMap_cons, hflat]

/-- Wrapping a block keeps what it holds. -/
theorem wrapped_without {lines : List Line} {first : Nat} {block : Block}
    (hs : Block.StandsAt lines first block)
    (hform : ∀ prose, block.kind = .prose prose → prose.form.Unmarked p) :
    without p (block.wrapped style lines) = without p (Line.join (block.sources lines)) := by
  unfold Block.wrapped
  split
  · rename_i prose hprose
    have hkind := Block.prose?_eq_some.mp hprose
    exact prose_render_without hp hmarker ((hs.writtenOn prose hkind).inked hp
      (mt List.map_eq_nil_iff.mp hs.sources_ne_nil) (hform prose hkind))
  · rfl

/-- Wrapping a document keeps what it holds. -/
theorem wrap_without (text : Text)
    (hform : ∀ block ∈ (Document.ofText text).blocks, ∀ prose, block.kind = .prose prose →
      prose.form.Unmarked p) :
    without p ((Document.ofText text).wrap style) = without p text := by
  have hblocks : ∀ block ∈ (Document.ofText text).blocks,
      without p (block.wrapped style (Line.split text)) =
        without p (Line.join (block.sources (Line.split text))) := by
    intro block hb
    obtain ⟨n, hn⟩ := (tiles_ofText text).standsAt hb
    exact wrapped_without hp hmarker hn (hform block hb)
  calc without p ((Document.ofText text).wrap style)
      = (Document.ofText text).blocks.flatMap
          (fun block => without p (block.wrapped style (Line.split text))) := Text.without_flatMap _ _
    _ = (Document.ofText text).blocks.flatMap
          (fun block => without p (Line.join (block.sources (Line.split text)))) :=
        List.flatMap_congr hblocks
    _ = without p text := by rw [← Text.without_flatMap, flatMap_join_sources]

end

/-! ## Texts under a configuration -/

/-- A text is wrapped whenever its configuration is accepted, and then in the
style of its options. -/
theorem wrapText_result (config : Config) (fixed : Bool) (text : Text) :
    (wrapText config fixed text).result =
      (config.accept fixed).result.map fun options => (Document.ofText text).wrap options.style := by
  show ((config.accept fixed).bind fun options => options.wrapText text).result = _
  unfold Report.bind
  split <;> rename_i h <;> rw [h] <;> rfl

/-- So are the lines of a single run of text. -/
theorem wrapTextLine_result (config : Config) (fixed : Bool) (text : Text) :
    (wrapTextLine config text fixed).result =
      (config.accept fixed).result.map fun options => wrapLine options.style text := by
  show ((config.accept fixed).bind fun options => Report.pure (wrapLine options.style text)).result = _
  unfold Report.bind
  split <;> rename_i h <;> rw [h] <;> rfl

/-- The characters that wrapping may change where sentences run on: blanks and
marks of quotations. -/
def Text.isBlankOrQuote (c : Char) : Bool := isBlank c || c == '>'

/-- The characters that wrapping may change in any style: blanks, marks of
quotations and markers. -/
def Text.isBlankOrMark (c : Char) : Bool :=
  isBlank c || c == '>' || ['*', '_', '~', '^', '='].contains c

/-- Wrapping loses, repeats and moves nothing but blanks, marks of quotations
and markers of emphasis; where sentences run on it keeps the markers too, and
if no quoted prose is there, all but blanks. -/
theorem wrapText_keeps_content (config : Config) (fixed : Bool) (options : Options) (text : Text)
    (hoptions : (config.accept fixed).result = .ok options) :
    ∃ out, (wrapText config fixed text).result = .ok out ∧
      (options.sentencePerLine = false → options.semanticLineBreaks = false →
        without Text.isBlankOrQuote out = without Text.isBlankOrQuote text ∧
        ((∀ block ∈ (Document.ofText text).blocks, ∀ indent depth lines,
            block.kind ≠ .prose ⟨.quote indent depth, lines⟩) →
          without Text.isBlank out = without Text.isBlank text)) ∧
      without Text.isBlankOrMark out = without Text.isBlankOrMark text := by
  refine ⟨(Document.ofText text).wrap options.style, by rw [wrapText_result, hoptions]; rfl, ?_, ?_⟩
  · intro hwhole hclauses
    have hrun : options.style.handling = .split → ∀ p : Char → Bool, ∀ marker : Marker, p marker.toChar := by
      simp only [Style.handling, Options.style, hwhole, hclauses]
      cases options.breakOnSentences <;> simp
    refine ⟨?_, fun hquote => ?_⟩
    · refine wrap_without (fun c hc => by simp [Text.isBlankOrQuote, hc]) (fun h => hrun h _) text ?_
      intro block _ prose _
      cases prose.form <;> trivial
    · refine wrap_without (fun c hc => hc) (fun h => hrun h _) text fun block hb prose hprose => ?_
      obtain ⟨form, lines⟩ := prose
      cases form with
      | quote indent depth => exact absurd hprose (hquote block hb indent depth lines)
      | paragraph => trivial
      | listItem => trivial
      | definition => trivial
  · refine wrap_without (fun c hc => by simp [Text.isBlankOrMark, hc]) (fun _ marker => ?_) text ?_
    · cases marker <;> rfl
    · intro block _ prose _
      cases prose.form <;> trivial

/-- Under the default configuration nothing of a text but blanks and marks of
quotations changes. -/
theorem wrapText_keeps_content_default :
    (Config.accept {} false).result = .ok Options.default ∧
      ∃ out, (wrapText {} false ['>', 'a', '\n', '>', ' ', 'b']).result = .ok out ∧
        without Text.isBlankOrQuote out = ['a', 'b'] := by
  refine ⟨rfl, ?_⟩
  obtain ⟨out, hout, hrun, -⟩ := wrapText_keeps_content {} false Options.default ['>', 'a', '\n', '>', ' ', 'b'] rfl
  exact ⟨out, hout, (hrun rfl rfl).1⟩

end ProseWrap
