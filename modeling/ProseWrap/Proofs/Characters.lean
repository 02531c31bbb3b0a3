import ProseWrap.Proofs.Content

/-!
# The characters of a layout

Prose that is laid out has no characters but those of the lines that it stood
on, spaces and the marks of quotations (`Prose.mem_of_mem_render`), in every
style. So no line of it holds a line feed.
-/

namespace ProseWrap

/-- The lines of texts, each after its lead. -/
def Leads.write (leads : Leads) : List Text → List Text
  | [] => []
  | text :: rest => (leads.first ++ text) :: rest.map (leads.further ++ ·)

theorem Leads.render_eq_write (leads : Leads) (groups : List (List Token)) :
    leads.render groups = leads.write (groups.map Token.joinTexts) := by
  cases groups with
  | nil => rfl
  | cons group rest => simp [render, write]

theorem Part.addHardBreak_write (leads : Leads) (texts : List Text) :
    addHardBreak (leads.write texts) = leads.write (addHardBreak texts) := by
  have hmap (lead : Text) (texts : List Text) :
      addHardBreak (texts.map (lead ++ ·)) = (addHardBreak texts).map (lead ++ ·) := by
    fun_induction addHardBreak texts with
    | case1 => rfl
    | case2 text => simp [addHardBreak]
    | case3 text rest hrest ih =>
      rw [List.map_cons, List.map_cons, ← ih, addHardBreak]
      simpa using hrest
  cases texts with
  | nil => rfl
  | cons text rest =>
    cases rest with
    | nil => simp [Leads.write, addHardBreak]
    | cons second rest => simpa [Leads.write, addHardBreak] using hmap leads.further (second :: rest)

/-! ## There are lines -/

namespace Part

theorem addHardBreak_ne_nil {lines : List Text} (h : lines ≠ []) : addHardBreak lines ≠ [] := by
  fun_cases addHardBreak lines with
  | case1 => exact absurd rfl h
  | case2 => exact List.cons_ne_nil _ _
  | case3 => exact List.cons_ne_nil _ _

theorem layout_text_ne_nil (style : Style) (leads : Leads) {part : Part} (h : part.text ≠ []) :
    style.layout leads part.text ≠ [] := by
  obtain ⟨c, rest, hc⟩ := List.exists_cons_of_ne_nil h
  have hne : style.groups leads (c :: rest) ≠ [] := groups_ne_nil style leads (head_text hc)
  obtain ⟨group, groups, hgroups⟩ := List.exists_cons_of_ne_nil hne
  rw [Style.layout, hc, hgroups]
  exact List.cons_ne_nil _ _

theorem render_ne_nil (style : Style) (leads : Leads) (source : Text) (last : Bool) (part : Part) :
    part.render style leads source last ≠ [] := by
  unfold render
  dsimp only
  split
  · exact List.cons_ne_nil _ _
  · rename_i hempty
    split
    · exact List.cons_ne_nil _ _
    · have hlayout := layout_text_ne_nil style leads (mt List.isEmpty_iff.mpr hempty)
      split
      · exact addHardBreak_ne_nil hlayout
      · exact hlayout

end Part

/-- Prose that is laid out has lines. -/
theorem Prose.render_ne_nil (style : Style) (sources : List Line) {prose : Prose} (h : prose.lines ≠ []) :
    (prose.render style sources).lines ≠ [] := by
  obtain ⟨hparts, -⟩ := Part.split_spec (prose.form.style style).preserveBreaks prose.lines
  rw [render]
  cases hsplit : Part.split (prose.form.style style).preserveBreaks prose.lines with
  | nil =>
    rw [hsplit] at hparts
    exact absurd hparts.symm h
  | cons part parts =>
    exact List.append_ne_nil_of_left_ne_nil (Part.render_ne_nil _ _ _ _ part) _

/-! ## Characters with a property -/

section

variable {P : Char → Prop}

theorem Text.forall_mem_intercalate {separator : Text} {texts : List Text} (hs : ∀ c ∈ separator, P c)
    (ht : ∀ text ∈ texts, ∀ c ∈ text, P c) : ∀ c ∈ List.intercalate separator texts, P c := by
  induction texts with
  | nil => simp
  | cons text rest ih =>
    obtain ⟨htext, hrest⟩ := List.forall_mem_cons.mp ht
    by_cases hnil : rest = []
    · subst hnil
      rwa [List.intercalate_singleton]
    · rw [List.intercalate_cons_of_ne_nil hnil]
      exact List.forall_mem_append.mpr ⟨List.forall_mem_append.mpr ⟨htext, hs⟩, ih hrest⟩

theorem Leads.forall_mem_write {leads : Leads} (hfirst : ∀ c ∈ leads.first, P c)
    (hfurther : ∀ c ∈ leads.further, P c) {texts : List Text} (ht : ∀ text ∈ texts, ∀ c ∈ text, P c) :
    ∀ line ∈ leads.write texts, ∀ c ∈ line, P c := by
  cases texts with
  | nil => simp [write]
  | cons text rest =>
    obtain ⟨htext, hrest⟩ := List.forall_mem_cons.mp ht
    refine List.forall_mem_cons.mpr ⟨List.forall_mem_append.mpr ⟨hfirst, htext⟩, fun line hl => ?_⟩
    obtain ⟨other, ho, rfl⟩ := List.mem_map.mp hl
    exact List.forall_mem_append.mpr ⟨hfurther, hrest other ho⟩

theorem Part.forall_mem_headD {sources : List Text} (hsources : ∀ source ∈ sources, ∀ c ∈ source, P c) :
    ∀ c ∈ sources.headD [], P c := by
  cases sources with
  | nil => simp
  | cons source sources => exact hsources source List.mem_cons_self

variable (hspace : P ' ')

include hspace

theorem Style.forall_mem_layout (style : Style) {leads : Leads} (hfirst : ∀ c ∈ leads.first, P c)
    (hfurther : ∀ c ∈ leads.further, P c) {text : Text} (ht : ∀ c ∈ text, P c) :
    ∀ line ∈ style.layout leads text, ∀ c ∈ line, P c := by
  rw [layout, Leads.render_eq_write]
  refine Leads.forall_mem_write hfirst hfurther fun joined hj => ?_
  obtain ⟨group, hgroup, rfl⟩ := List.mem_map.mp hj
  refine Text.forall_mem_intercalate (by simpa using hspace) fun word hw => ?_
  obtain ⟨token, htoken, rfl⟩ := List.mem_map.mp hw
  have hmem : token ∈ style.tokens style.handling text := by
    rw [← style.flatten_groups leads]
    exact List.mem_flatten_of_mem hgroup htoken
  exact fun c hc => ht c (mem_of_mem_tokenize hmem hc)

namespace Part

theorem forall_mem_text {part : Part} (hlines : ∀ line ∈ part.lines, ∀ c ∈ line, P c) :
    ∀ c ∈ part.text, P c := by
  refine Text.forall_mem_intercalate (by simpa using hspace) fun trimmed ht => ?_
  obtain ⟨line, hline, rfl⟩ := List.mem_map.mp (List.mem_filter.mp ht).1
  exact fun c hc => hlines line hline c ((Text.trim_sublist line).subset hc)

theorem forall_mem_addHardBreak {lines : List Text} (hlines : ∀ line ∈ lines, ∀ c ∈ line, P c) :
    ∀ line ∈ addHardBreak lines, ∀ c ∈ line, P c := by
  fun_induction addHardBreak lines with
  | case1 => exact hlines
  | case2 line =>
    refine List.forall_mem_singleton.mpr (List.forall_mem_append.mpr ⟨hlines line List.mem_cons_self, ?_⟩)
    simpa using hspace
  | case3 line rest _ ih =>
    obtain ⟨hline, hrest⟩ := List.forall_mem_cons.mp hlines
    exact List.forall_mem_cons.mpr ⟨hline, ih hrest⟩

theorem forall_mem_render (style : Style) {leads : Leads} (hfirst : ∀ c ∈ leads.first, P c)
    (hfurther : ∀ c ∈ leads.further, P c) {source : Text} (hsource : ∀ c ∈ source, P c) (last : Bool)
    {part : Part} (hlines : ∀ line ∈ part.lines, ∀ c ∈ line, P c) :
    ∀ line ∈ part.render style leads source last, ∀ c ∈ line, P c := by
  have hlayout := style.forall_mem_layout hspace hfirst hfurther (forall_mem_text hspace hlines)
  unfold render
  dsimp only
  split
  · exact List.forall_mem_singleton.mpr hsource
  · split
    · exact List.forall_mem_singleton.mpr hsource
    · split
      · exact forall_mem_addHardBreak hspace hlayout
      · exact hlayout

theorem forall_mem_renderRest (style : Style) {lead : Text} (hlead : ∀ c ∈ lead, P c) {sources : List Text}
    (hsources : ∀ source ∈ sources, ∀ c ∈ source, P c) {parts : List Part}
    (hparts : ∀ part ∈ parts, ∀ line ∈ part.lines, ∀ c ∈ line, P c) :
    ∀ line ∈ renderRest style lead sources parts, ∀ c ∈ line, P c := by
  induction parts generalizing sources with
  | nil => simp [renderRest]
  | cons part parts ih =>
    obtain ⟨hpart, hrest⟩ := List.forall_mem_cons.mp hparts
    refine List.forall_mem_append.mpr ⟨?_, ih (fun source hs => hsources source (List.mem_of_mem_drop hs)) hrest⟩
    exact forall_mem_render hspace style hlead hlead (forall_mem_headD hsources) parts.isEmpty hpart

theorem forall_mem_renderAll (style : Style) {leads : Leads} (hfirst : ∀ c ∈ leads.first, P c)
    (hfurther : ∀ c ∈ leads.further, P c) {sources : List Text}
    (hsources : ∀ source ∈ sources, ∀ c ∈ source, P c) {parts : List Part}
    (hparts : ∀ part ∈ parts, ∀ line ∈ part.lines, ∀ c ∈ line, P c) :
    ∀ line ∈ renderAll style leads sources parts, ∀ c ∈ line, P c := by
  cases parts with
  | nil => simp [renderAll]
  | cons part parts =>
    obtain ⟨hpart, hrest⟩ := List.forall_mem_cons.mp hparts
    refine List.forall_mem_append.mpr ⟨?_, ?_⟩
    · exact forall_mem_render hspace style hfirst hfurther (forall_mem_headD hsources) parts.isEmpty hpart
    · exact forall_mem_renderRest hspace style hfurther
        (fun source hs => hsources source (List.mem_of_mem_drop hs)) hrest

end Part

/-! ## Prose -/

/-- What holds of spaces, marks of quotations and the characters of the lines
that prose is written on, holds of the characters of its leads and of its
lines. -/
theorem Prose.WrittenOn.forall_mem {prose : Prose} {texts : List Text} (hw : prose.WrittenOn texts)
    (hne : texts ≠ []) (hquote : P '>') (ht : ∀ text ∈ texts, ∀ c ∈ text, P c) :
    (∀ c ∈ prose.form.leads.first, P c) ∧ (∀ c ∈ prose.form.leads.further, P c) ∧
      ∀ line ∈ prose.lines, ∀ c ∈ line, P c := by
  have hspaces (n : Nat) : ∀ c ∈ List.replicate n ' ', P c := fun c hc => List.eq_of_mem_replicate hc ▸ hspace
  have hindent {text : Text} (h : ∀ c ∈ text, P c) : ∀ c ∈ Line.indent text, P c :=
    fun c hc => h c ((List.takeWhile_prefix _).subset hc)
  have htrim {texts : List Text} (ht : ∀ text ∈ texts, ∀ c ∈ text, P c) :
      ∀ line ∈ texts.map Text.trimStart, ∀ c ∈ line, P c := by
    intro line hl
    obtain ⟨text, hmem, rfl⟩ := List.mem_map.mp hl
    exact fun c hc => ht text hmem c ((List.dropWhile_sublist _).subset hc)
  obtain ⟨form, lines⟩ := prose
  cases form with
  | paragraph indent =>
    obtain ⟨first, rest, rfl, rfl, hlines⟩ := hw
    obtain ⟨hfirst, hrest⟩ := List.forall_mem_cons.mp ht
    refine ⟨hindent hfirst, hindent hfirst, ?_⟩
    rw [hlines]
    exact List.forall_mem_cons.mpr ⟨fun c hc => hfirst c ((List.dropWhile_sublist _).subset hc), htrim hrest⟩
  | listItem indent marker ordered further =>
    obtain ⟨first, rest, content, rfl, rfl, hitem, rfl, hlines⟩ := hw
    obtain ⟨hfirst, hrest⟩ := List.forall_mem_cons.mp ht
    obtain ⟨more, hmore⟩ := append_of_itemMark? hitem
    have hcontent : ∀ c ∈ Line.content first, P c := fun c hc => hfirst c ((List.dropWhile_sublist _).subset hc)
    rw [hmore] at hcontent
    simp only [List.forall_mem_append] at hcontent
    refine ⟨?_, List.forall_mem_append.mpr ⟨hindent hfirst, hspaces _⟩, ?_⟩
    · exact List.forall_mem_append.mpr ⟨List.forall_mem_append.mpr ⟨hindent hfirst, hcontent.1⟩, hspaces 1⟩
    · rw [hlines]
      exact List.forall_mem_cons.mpr ⟨hcontent.2.2, htrim hrest⟩
  | quote indent depth =>
    obtain ⟨quoted, hquoted, hlines⟩ := hw
    have hlead : ∀ c ∈ indent ++ (List.replicate depth ['>', ' ']).flatten, P c := by
      refine List.forall_mem_append.mpr ⟨?_, fun c hc => ?_⟩
      · obtain ⟨first, hfirst⟩ := List.exists_mem_of_ne_nil texts hne
        obtain ⟨inner, -, hat⟩ := List.mem_map.mp (hquoted ▸ List.mem_map_of_mem hfirst)
        rw [← (unquote_of_quotedAt? hat.symm).1]
        exact hindent (ht first hfirst)
      · obtain ⟨mark, hmark, hc⟩ := List.mem_flatten.mp hc
        rw [List.eq_of_mem_replicate hmark] at hc
        simp only [List.mem_cons, List.not_mem_nil, or_false] at hc
        rcases hc with rfl | rfl
        · exact hquote
        · exact hspace
    refine ⟨hlead, hlead, ?_⟩
    rw [hlines]
    refine htrim fun inner hinner => ?_
    obtain ⟨text, htext, hat⟩ := List.mem_map.mp (hquoted ▸ List.mem_map_of_mem hinner)
    have hsuffix := unquote_suffix depth 0 (Line.content text)
    rw [(unquote_of_quotedAt? hat).2] at hsuffix
    exact fun c hc => ht text htext c ((List.dropWhile_sublist _).subset (hsuffix.subset hc))
  | definition marker =>
    obtain ⟨first, rest, content, rfl, hbody, hlines⟩ := hw
    obtain ⟨hfirst, hrest⟩ := List.forall_mem_cons.mp ht
    rw [append_of_definitionMark? hbody, List.forall_mem_append] at hfirst
    refine ⟨hfirst.1, hspaces _, ?_⟩
    rw [hlines]
    exact List.forall_mem_cons.mpr ⟨hfirst.2, htrim hrest⟩

end

/-- Prose that is laid out has no characters but those of its lines, spaces and
marks of quotations. -/
theorem Prose.mem_of_mem_render (style : Style) {prose : Prose} {sources : List Line}
    (hw : prose.WrittenOn (sources.map Line.text)) (hne : sources ≠ []) {line : Text}
    (hline : line ∈ (prose.render style sources).lines) {c : Char} (hc : c ∈ line) :
    c = ' ' ∨ c = '>' ∨ ∃ source ∈ sources, c ∈ source.text := by
  have hsources : ∀ text ∈ sources.map Line.text, ∀ c ∈ text,
      c = ' ' ∨ c = '>' ∨ ∃ source ∈ sources, c ∈ source.text := by
    intro text ht c hc
    obtain ⟨source, hs, rfl⟩ := List.mem_map.mp ht
    exact .inr (.inr ⟨source, hs, hc⟩)
  obtain ⟨hfirst, hfurther, hlines⟩ :=
    hw.forall_mem (.inl rfl) (mt List.map_eq_nil_iff.mp hne) (.inr (.inl rfl)) hsources
  refine Part.forall_mem_renderAll (.inl rfl) _ hfirst hfurther hsources ?_ line hline c hc
  intro part hp other ho
  refine hlines other ?_
  rw [← (Part.split_spec (prose.form.style style).preserveBreaks prose.lines).1]
  exact List.mem_flatMap.mpr ⟨part, hp, ho⟩

end ProseWrap
