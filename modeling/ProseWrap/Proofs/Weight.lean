import ProseWrap.Proofs.Characters

/-!
# The weight of prose

Lines can be weighed so that a layout is never heavier than the lines that it
comes from, in styles in which sentences run on. A line weighs as much as it
has ink under the marks of its quotation, and at least 1 (`ProseForm.weight`).
A layout keeps the ink or loses some of it, and each of its lines has some; a
line that stays as it stood, because there is no ink or because it fits, is one
of the lines that were there.
-/

namespace ProseWrap

open Text (ink total)

/-- In lines with these leads, what stands after a lead weighs no more than its
ink, and the first lead no more than `base`. -/
structure Leads.WeighedBy (weight : Text → Nat) (base : Nat) (leads : Leads) : Prop where
  first : ∀ text, 0 < ink text → weight (leads.first ++ text) ≤ base + ink text
  further : ∀ text, 0 < ink text → weight (leads.further ++ text) ≤ ink text

section

variable {weight : Text → Nat} {base : Nat} {leads : Leads} {style : Style}

theorem Leads.WeighedBy.total_write_le (h : leads.WeighedBy weight base) {texts : List Text}
    (hink : ∀ text ∈ texts, 0 < ink text) : total weight (leads.write texts) ≤ base + total ink texts := by
  cases texts with
  | nil => exact Nat.zero_le _
  | cons text rest =>
    obtain ⟨htext, hrest⟩ := List.forall_mem_cons.mp hink
    have hfurther : total weight (rest.map (leads.further ++ ·)) ≤ total ink rest := by
      clear hink
      induction rest with
      | nil => exact Nat.le_refl _
      | cons other rest ih =>
        obtain ⟨hother, hrest⟩ := List.forall_mem_cons.mp hrest
        exact Nat.add_le_add (h.further other hother) (ih hrest)
    have hfirst := h.first text htext
    rw [write, Text.total_cons, Text.total_cons]
    omega

/-! ## Parts -/

namespace Part

/-- A hard break has no ink. -/
theorem total_ink_addHardBreak (texts : List Text) : total ink (addHardBreak texts) = total ink texts := by
  fun_induction addHardBreak texts with
  | case1 => rfl
  | case2 text =>
    have hspaces : ink [' ', ' '] = 0 := rfl
    rw [Text.total_cons, Text.total_cons, Text.ink_append, hspaces, Nat.add_zero]
  | case3 text rest _ ih => rw [Text.total_cons, Text.total_cons, ih]

theorem ink_pos_addHardBreak {texts : List Text} (h : ∀ text ∈ texts, 0 < ink text) :
    ∀ text ∈ addHardBreak texts, 0 < ink text := by
  fun_induction addHardBreak texts with
  | case1 => exact h
  | case2 text =>
    refine List.forall_mem_singleton.mpr ?_
    rw [Text.ink_append]
    exact Nat.add_pos_left (h text List.mem_cons_self) _
  | case3 text rest _ ih =>
    obtain ⟨htext, hrest⟩ := List.forall_mem_cons.mp h
    exact List.forall_mem_cons.mpr ⟨htext, ih hrest⟩

/-- The text of a part has no more ink than its lines. -/
theorem ink_text_le (part : Part) : ink part.text ≤ total ink part.lines := by
  rw [text, Text.ink_intercalate]
  induction part.lines with
  | nil => exact Nat.le_refl _
  | cons line lines ih =>
    have hline := Text.ink_le_of_sublist (Text.trim_sublist line)
    rw [List.map_cons, List.filter_cons, Text.total_cons]
    split
    · rw [Text.total_cons]
      omega
    · omega

end Part

theorem ink_joinTexts (group : List Token) :
    ink (Token.joinTexts group) = total ink (group.map Token.text) := by
  rw [Token.joinTexts, Text.ink_intercalate]

theorem total_ink_joinTexts (groups : List (List Token)) :
    total ink (groups.map Token.joinTexts) = total ink (groups.flatten.map Token.text) := by
  induction groups with
  | nil => rfl
  | cons group groups ih =>
    rw [List.map_cons, Text.total_cons, ih, ink_joinTexts, List.flatten_cons, List.map_append, Text.total_append]

/-- Where sentences run on, the texts of the lines of a layout have the ink of
the text, each of them some. -/
theorem ink_groups (hrun : style.sentenceLines = .runOn) (leads : Leads) (text : Text) :
    (∀ line ∈ (style.groups leads text).map Token.joinTexts, 0 < ink line) ∧
      total ink ((style.groups leads text).map Token.joinTexts) = ink text := by
  have hsplit : style.handling ≠ .split := by
    simp only [Style.handling, hrun]
    split <;> simp
  have hflat := style.flatten_groups leads text
  constructor
  · intro line hline
    obtain ⟨group, hgroup, rfl⟩ := List.mem_map.mp hline
    have hne : group ≠ [] := by
      simp only [Style.groups, hrun] at hgroup
      exact ne_nil_of_mem_pack hgroup
    obtain ⟨token, rest, rfl⟩ := List.exists_cons_of_ne_nil hne
    have htoken : token ∈ style.tokens style.handling text := by
      rw [← hflat]
      exact List.mem_flatten_of_mem hgroup List.mem_cons_self
    rw [ink_joinTexts, List.map_cons, Text.total_cons]
    exact Nat.add_pos_left (ink_of_mem_tokenize htoken) _
  · rw [total_ink_joinTexts, hflat, ← Text.ink_flatten, ← List.flatMap, ink, Text.without_flatMap,
      Style.tokens, tokenize_without style.lengthMode (fun c hc => hc) (fun h => absurd h hsplit)]
    rfl

namespace Part

/-- A part weighs no more than the lines that it comes from, which are the
first of `sources`. -/
theorem total_render_le (h : leads.WeighedBy weight base) (hrun : style.sentenceLines = .runOn) {part : Part}
    (hpart : part.lines ≠ []) {sources : List Text} (hne : sources ≠ []) (last : Bool)
    (hown : base + total ink part.lines ≤ total weight (sources.take part.lines.length)) :
    total weight (part.render style leads (sources.headD []) last) ≤
      total weight (sources.take part.lines.length) := by
  have hkept : total weight [sources.headD []] ≤ total weight (sources.take part.lines.length) := by
    obtain ⟨source, others, rfl⟩ := List.exists_cons_of_ne_nil hne
    obtain ⟨line, lines, hlines⟩ := List.exists_cons_of_ne_nil hpart
    rw [hlines, List.length_cons, List.take_succ_cons]
    simp only [List.headD_cons, Text.total_cons, Text.total_nil]
    omega
  unfold render
  dsimp only
  split
  · exact hkept
  · split
    · exact hkept
    · obtain ⟨hpos, hsum⟩ := ink_groups hrun leads part.text
      have hlines : total weight (style.layout leads part.text) ≤ base + ink part.text := by
        rw [Style.layout, Leads.render_eq_write, ← hsum]
        exact h.total_write_le hpos
      have hbroken : total weight (addHardBreak (style.layout leads part.text)) ≤ base + ink part.text := by
        rw [Style.layout, Leads.render_eq_write, addHardBreak_write, ← hsum, ← total_ink_addHardBreak]
        exact h.total_write_le (ink_pos_addHardBreak hpos)
      have htext := part.ink_text_le
      split <;> omega

/-- Each line weighs at least as much as there is ink in the line of prose that
stands on it. -/
def Covers (weight : Text → Nat) (sources lines : List Text) : Prop :=
  List.Forall₂ (fun source line => ink line ≤ weight source) sources lines

theorem Covers.total_le {sources lines : List Text} (h : Covers weight sources lines) :
    total ink lines ≤ total weight sources := by
  unfold Covers at h
  induction h with
  | nil => exact Nat.le_refl _
  | cons hline _ ih => exact Nat.add_le_add hline ih

theorem Covers.append {sources front back : List Text} (h : Covers weight sources (front ++ back)) :
    Covers weight (sources.take front.length) front ∧ Covers weight (sources.drop front.length) back :=
  ⟨List.forall₂_take_append _ _ _ h, List.forall₂_drop_append _ _ _ h⟩

theorem total_take_add_total_drop (weight : Text → Nat) (n : Nat) (sources : List Text) :
    total weight (sources.take n) + total weight (sources.drop n) = total weight sources := by
  rw [← Text.total_append, List.take_append_drop]

/-- The parts after the first weigh no more than the lines that they come
from. -/
theorem total_renderRest_le {lead : Text} (h : Leads.WeighedBy weight 0 ⟨lead, lead⟩)
    (hrun : style.sentenceLines = .runOn) (sources : List Text) (parts : List Part)
    (hne : ∀ part ∈ parts, part.lines ≠ []) (hsources : Covers weight sources (parts.flatMap Part.lines)) :
    total weight (renderRest style lead sources parts) ≤ total weight sources := by
  induction parts generalizing sources with
  | nil => exact Nat.zero_le _
  | cons part parts ih =>
    obtain ⟨hpart, hparts⟩ := List.forall_mem_cons.mp hne
    have hcover := Covers.append (List.flatMap_cons ▸ hsources)
    have hnil : sources ≠ [] := by
      rintro rfl
      rw [List.take_nil] at hcover
      exact hpart (List.forall₂_nil_left_iff.mp hcover.1)
    have hown := hcover.1.total_le
    have hrender := total_render_le h hrun hpart hnil parts.isEmpty (by rwa [Nat.zero_add])
    have hrest := ih _ hparts hcover.2
    have htotal := total_take_add_total_drop weight part.lines.length sources
    rw [renderRest, Text.total_append]
    omega

/-- Parts weigh no more than the lines that they come from. -/
theorem total_renderAll_le (h : leads.WeighedBy weight base) (hrun : style.sentenceLines = .runOn)
    {source line : Text} {sources lines : List Text} (parts : List Part)
    (hne : ∀ part ∈ parts, part.lines ≠ []) (hparts : parts.flatMap Part.lines = line :: lines)
    (hfirst : base + ink line ≤ weight source) (hsources : Covers weight sources lines) :
    total weight (renderAll style leads (source :: sources) parts) ≤
      total weight (source :: sources) := by
  cases parts with
  | nil => cases hparts
  | cons part parts =>
    obtain ⟨hpart, hrest⟩ := List.forall_mem_cons.mp hne
    have hcover : Covers weight (source :: sources) (part.lines ++ parts.flatMap Part.lines) := by
      rw [← List.flatMap_cons, hparts]
      exact .cons (by omega) hsources
    have hown : base + total ink part.lines ≤ total weight ((source :: sources).take part.lines.length) := by
      obtain ⟨first, more, hlines⟩ := List.exists_cons_of_ne_nil hpart
      rw [List.flatMap_cons, hlines, List.cons_append] at hparts
      obtain ⟨rfl, rfl⟩ := List.cons.inj hparts
      have hmore := (Covers.append hsources).1.total_le
      rw [hlines, List.length_cons, List.take_succ_cons, Text.total_cons, Text.total_cons]
      omega
    have hfurther : Leads.WeighedBy weight 0 ⟨leads.further, leads.further⟩ :=
      ⟨by simpa using h.further, h.further⟩
    have hrender := total_render_le h hrun hpart (List.cons_ne_nil _ _) parts.isEmpty hown
    have hlater := total_renderRest_le hfurther hrun _ parts hrest (Covers.append hcover).2
    have htotal := total_take_add_total_drop weight part.lines.length (source :: sources)
    rw [renderAll, Text.total_append]
    omega

end Part

end

/-! ## Prose -/

/-- What a line of prose holds under the marks of its quotation. -/
def ProseForm.inner : ProseForm → Text → Text
  | quote _ depth, line => (Line.unquote depth 0 (Line.content line)).content
  | _, line => line

/-- What a line of prose weighs: as much as it has ink under its marks, and at
least 1. -/
def ProseForm.weight (form : ProseForm) (line : Text) : Nat := max 1 (ink (form.inner line))

/-- What the first lead of prose weighs. The marks of a quotation weigh
nothing. -/
def ProseForm.leadWeight : ProseForm → Nat
  | quote _ _ => 0
  | form => ink form.leads.first

theorem ProseForm.weight_pos (form : ProseForm) (line : Text) : 0 < form.weight line :=
  Nat.le_max_left _ _

/-- Under as many marks as are taken off stands the text, or an end of it. -/
theorem unquote_marks_suffix (fuel depth : Nat) (text : Text) :
    (Line.unquote fuel depth ((List.replicate fuel ['>', ' ']).flatten ++ text)).content <:+ text := by
  induction fuel generalizing depth with
  | zero => exact unquote_suffix 0 depth text
  | succ fuel ih =>
    rw [List.replicate_succ, List.flatten_cons]
    simp only [List.cons_append, List.nil_append, Line.unquote, List.head?_cons, beq_self_eq_true, if_true,
      List.drop_succ_cons, List.drop_zero]
    split
    · rename_i hmark
      cases fuel with
      | zero =>
        exact (unquote_suffix 0 _ _).trans (List.drop_suffix _ _)
      | succ fuel => simpa [Line.indent, List.replicate_succ, Text.isIndent] using ih (depth + 1)
    · rename_i hmark
      cases fuel with
      | zero => exact List.suffix_rfl
      | succ fuel => exact absurd (by simp [Line.indent, List.replicate_succ, Text.isIndent]) hmark

theorem ink_indent (text : Text) : ink (Line.indent text) = 0 :=
  Text.ink_eq_zero fun _ hc => Text.isGap_of_isIndent (List.mem_takeWhile_imp hc)

theorem ink_spaces (n : Nat) : ink (List.replicate n ' ') = 0 :=
  Text.ink_eq_zero fun c hc => by
    rw [List.eq_of_mem_replicate hc]
    rfl

theorem ink_indent_add_ink_content (text : Text) :
    ink (Line.indent text) + ink (Line.content text) = ink text := by
  rw [← Text.ink_append, Line.indent, Line.content, List.takeWhile_append_dropWhile]

theorem ProseForm.weight_le {form : ProseForm} {line : Text} {n : Nat} (hn : 0 < n)
    (h : ink (form.inner line) ≤ n) : form.weight line ≤ n :=
  Nat.max_le.mpr ⟨hn, h⟩

theorem ProseForm.ink_inner_le (form : ProseForm) (line : Text) : ink (form.inner line) ≤ form.weight line :=
  Nat.le_max_right _ _

/-- After the lead of a quotation stands nothing under its marks but what comes
after the lead. -/
theorem ink_inner_quote_le {indent : Text} (hindent : ∀ c ∈ indent, Text.isIndent c) (depth : Nat) (text : Text) :
    ink ((ProseForm.quote indent depth).inner
      (indent ++ (List.replicate depth ['>', ' ']).flatten ++ text)) ≤ ink text := by
  refine Text.ink_le_of_sublist ?_
  rw [ProseForm.inner, List.append_assoc, Line.content, List.dropWhile_append_of_pos hindent]
  cases depth with
  | zero => exact (unquote_suffix 0 0 _).sublist.trans (List.dropWhile_sublist _)
  | succ depth => exact (unquote_marks_suffix (depth + 1) 0 text).sublist

theorem inner_of_quotedAt? {indent text quoted : Text} {depth : Nat}
    (h : Block.quotedAt? indent depth text = some quoted) :
    (ProseForm.quote indent depth).inner text = quoted := by
  rw [ProseForm.inner, (unquote_of_quotedAt? h).2]

section

variable {prose : Prose} {texts : List Text}

/-- The leads of prose are weighed by the weight of its form. -/
theorem Prose.WrittenOn.weighedBy (hw : prose.WrittenOn texts) (hne : texts ≠ []) :
    prose.form.leads.WeighedBy prose.form.weight prose.form.leadWeight := by
  obtain ⟨form, lines⟩ := prose
  -- but for quotations, a line is weighed with its lead, and the further leads
  -- have no ink
  have hplain (hinner : ∀ line, form.inner line = line) (hbase : form.leadWeight = ink form.leads.first)
      (hfurther : ink form.leads.further = 0) : form.leads.WeighedBy form.weight form.leadWeight :=
    ⟨fun text hpos => form.weight_le (by omega) (by rw [hinner, Text.ink_append, hbase]),
      fun text hpos => form.weight_le hpos (by rw [hinner, Text.ink_append, hfurther, Nat.zero_add])⟩
  cases form with
  | paragraph indent =>
    obtain ⟨first, rest, rfl, rfl, -⟩ := hw
    exact hplain (fun _ => rfl) rfl (ink_indent first)
  | listItem indent marker ordered further =>
    obtain ⟨first, rest, content, rfl, rfl, -, rfl, -⟩ := hw
    refine hplain (fun _ => rfl) rfl ?_
    rw [ProseForm.leads, Block.itemIndent, Text.ink_append, ink_indent, ink_spaces]
  | quote indent depth =>
    obtain ⟨quoted, hquoted, -⟩ := hw
    obtain ⟨first, rest, rfl⟩ := List.exists_cons_of_ne_nil hne
    have hindent : ∀ c ∈ indent, Text.isIndent c := by
      cases quoted with
      | nil => cases hquoted
      | cons inner others =>
        rw [← (unquote_of_quotedAt? (List.cons.inj hquoted).1).1]
        exact fun c hc => List.mem_takeWhile_imp hc
    have hle (text : Text) (hpos : 0 < ink text) :=
      ProseForm.weight_le hpos (ink_inner_quote_le hindent depth text)
    exact ⟨fun text hpos => (hle text hpos).trans (Nat.le_add_left _ _), hle⟩
  | definition marker => exact hplain (fun _ => rfl) rfl (ink_spaces _)

/-- The lines of prose are covered by the lines that it is written on, the
first one together with the first lead. -/
theorem Prose.WrittenOn.covers (hw : prose.WrittenOn texts) (hne : texts ≠ []) :
    ∃ first rest line lines, texts = first :: rest ∧ prose.lines = line :: lines ∧
      prose.form.leadWeight + ink line ≤ prose.form.weight first ∧
      Part.Covers prose.form.weight rest lines := by
  obtain ⟨form, lines⟩ := prose
  have htrim (text : Text) : ink (Text.trimStart text) ≤ ink text :=
    Text.ink_le_of_sublist (List.dropWhile_sublist _)
  have hplain (hinner : ∀ line, form.inner line = line) (rest : List Text) :
      Part.Covers form.weight rest (rest.map Text.trimStart) := by
    refine List.forall₂_map_right_iff.mpr (List.forall₂_same.mpr fun text _ => ?_)
    have hline := form.ink_inner_le text
    rw [hinner] at hline
    exact (htrim text).trans hline
  cases form with
  | paragraph indent =>
    obtain ⟨first, rest, rfl, rfl, hlines⟩ := hw
    refine ⟨first, rest, _, _, rfl, hlines, ?_, hplain (fun _ => rfl) rest⟩
    exact (ink_indent_add_ink_content first).trans_le (Nat.le_max_right _ _)
  | listItem indent marker ordered further =>
    obtain ⟨first, rest, content, rfl, rfl, hitem, rfl, hlines⟩ := hw
    refine ⟨first, rest, _, _, rfl, hlines, ?_, hplain (fun _ => rfl) rest⟩
    obtain ⟨more, hmore⟩ := append_of_itemMark? hitem
    dsimp only at hmore
    have hfirst := ink_indent_add_ink_content first
    rw [hmore, Text.ink_append, Text.ink_append, ink_indent more] at hfirst
    have hspace : ink [' '] = 0 := rfl
    refine le_trans ?_ (ProseForm.ink_inner_le _ first)
    simp only [ProseForm.leadWeight, ProseForm.leads, ProseForm.inner, Text.ink_append]
    omega
  | quote indent depth =>
    obtain ⟨quoted, hquoted, hlines⟩ := hw
    rw [← List.forall₂_eq_eq_eq, List.forall₂_map_left_iff, List.forall₂_map_right_iff] at hquoted
    have hline {text inner : Text} (h : Block.quotedAt? indent depth text = some inner) :
        ink (Text.trimStart inner) ≤ (ProseForm.quote indent depth).weight text := by
      rw [← inner_of_quotedAt? h]
      exact (htrim _).trans (ProseForm.ink_inner_le _ text)
    cases hquoted with
    | nil => exact absurd rfl hne
    | cons hfirst hrest =>
      refine ⟨_, _, _, _, rfl, hlines, ?_, List.forall₂_map_right_iff.mpr (hrest.imp fun _ _ => hline)⟩
      rw [ProseForm.leadWeight, Nat.zero_add]
      exact hline hfirst
  | definition marker =>
    obtain ⟨first, rest, content, rfl, hbody, hlines⟩ := hw
    refine ⟨first, rest, _, _, rfl, hlines, ?_, hplain (fun _ => rfl) rest⟩
    refine le_trans (Nat.le_of_eq ?_) (ProseForm.ink_inner_le _ first)
    show ink marker + ink content = ink first
    rw [append_of_definitionMark? hbody, Text.ink_append]

end

theorem ProseForm.sentenceLines_style {style : Style} (hrun : style.sentenceLines = .runOn) (form : ProseForm) :
    (form.style style).sentenceLines = .runOn := by
  cases form with
  | definition marker => rfl
  | paragraph | listItem | quote => exact hrun

/-- Where sentences run on, prose that is laid out weighs no more than the
lines that it stood on. -/
theorem Prose.total_render_le {style : Style} (hrun : style.sentenceLines = .runOn) {prose : Prose}
    {sources : List Line} (hw : prose.WrittenOn (sources.map Line.text)) (hne : sources ≠ []) :
    total prose.form.weight (prose.render style sources).lines ≤
      total prose.form.weight (sources.map Line.text) := by
  have hne : sources.map Line.text ≠ [] := mt List.map_eq_nil_iff.mp hne
  obtain ⟨first, rest, line, lines, htexts, hlines, hfirst, hrest⟩ := hw.covers hne
  obtain ⟨hparts, hparts_ne⟩ := Part.split_spec (prose.form.style style).preserveBreaks prose.lines
  rw [Prose.render, htexts]
  exact Part.total_renderAll_le (hw.weighedBy hne) (prose.form.sentenceLines_style hrun) _ hparts_ne
    (hparts.trans hlines) hfirst hrest

/-! ## Carriage returns -/

theorem content_append_return (text : Text) :
    Line.content (text ++ ['\r']) = Line.content text ++ ['\r'] := by
  rw [Line.content, Line.content, List.dropWhile_append]
  split
  · rename_i hempty
    rw [List.isEmpty_iff.mp hempty]
    rfl
  · rfl

theorem indent_append_return (text : Text) : Line.indent (text ++ ['\r']) = Line.indent text := by
  rw [Line.indent, Line.indent, List.takeWhile_append]
  split
  · rename_i hall
    rw [(List.takeWhile_prefix _).eq_of_length hall]
    exact List.append_nil text
  · rfl

/-- A carriage return after a text stays when marks are taken off. -/
theorem unquote_append_return (fuel depth : Nat) (text : Text) :
    (Line.unquote fuel depth (text ++ ['\r'])).content = (Line.unquote fuel depth text).content ++ ['\r'] := by
  have hspace (rest : Text) :
      (if (rest ++ ['\r']).head? == some ' ' then (rest ++ ['\r']).drop 1 else rest ++ ['\r']) =
        (if rest.head? == some ' ' then rest.drop 1 else rest) ++ ['\r'] := by
    cases rest with
    | nil => rfl
    | cons c rest => by_cases hc : c = ' ' <;> simp [hc]
  have hdrop (rest : Text) : (rest ++ ['\r']).drop (Line.indent rest).length =
      rest.drop (Line.indent rest).length ++ ['\r'] :=
    List.drop_append_of_le_length (List.takeWhile_prefix _).length_le
  have hhead (rest : Text) : (rest ++ ['\r']).head? = some '>' ↔ rest.head? = some '>' := by
    cases rest <;> simp
  fun_induction Line.unquote fuel depth text with
  | case1 fuel depth rest rest' gap hmark ih =>
    rw [List.cons_append, Line.unquote]
    simp only [hspace, indent_append_return, hdrop, hhead]
    rw [if_pos hmark]
    exact ih
  | case2 fuel depth rest rest' gap hmark =>
    rw [List.cons_append, Line.unquote]
    simp only [hspace, indent_append_return, hdrop, hhead]
    rw [if_neg hmark]
  | case3 fuel depth text hother =>
    rw [Line.unquote]
    rintro more rest hfuel htext
    cases text with
    | nil => simp at htext
    | cons c text =>
      obtain ⟨rfl, -⟩ := List.cons.inj htext
      exact hother more text hfuel rfl

/-- A line is not lighter with a carriage return after it. -/
theorem ProseForm.weight_le_append_return (form : ProseForm) (line : Text) :
    form.weight line ≤ form.weight (line ++ ['\r']) := by
  have hinner : form.inner (line ++ ['\r']) = form.inner line ++ ['\r'] := by
    cases form with
    | quote indent depth => rw [inner, inner, content_append_return, unquote_append_return]
    | paragraph | listItem | definition => rfl
  rw [weight, weight, hinner, Text.ink_append]
  omega

/-- The lines of a text that is made of lines weigh no more than these. -/
theorem total_split_le {weight : Text → Nat} (hreturn : ∀ text, weight text ≤ weight (text ++ ['\r']))
    {newline : Newline} (hnewline : newline ≠ .none) (last : Newline) {lines : List Text} (hne : lines ≠ [])
    (hfeed : ∀ line ∈ lines, '\n' ∉ line) :
    total weight ((Line.split (List.intercalate newline.text lines ++ last.text)).map Line.text) ≤
      total weight lines := by
  have hfirst {first line : Text} {newline : Newline}
      (h : first = line ∨ newline = .lf ∧ line = first ++ ['\r']) : weight first ≤ weight line := by
    rcases h with rfl | ⟨-, rfl⟩
    · exact Nat.le_refl _
    · exact hreturn first
  suffices ∀ start, total weight ((Line.splitFrom start [] (List.intercalate newline.text lines ++ last.text)).map
      Line.text) ≤ total weight lines from this 0
  induction lines with
  | nil => exact absurd rfl hne
  | cons line rest ih =>
    intro start
    obtain ⟨hline, hlines⟩ := List.forall_mem_cons.mp hfeed
    by_cases hnil : rest = []
    · subst hnil
      rw [List.intercalate_singleton]
      by_cases hlast : last = .none
      · rw [Line.splitFrom_chars _ _ _ _ hline, hlast, Newline.text, Line.splitFrom]
        split
        · exact Nat.zero_le _
        · simp
      · obtain ⟨first, next, hsplit, htext⟩ := Line.splitFrom_line start [] hline hlast
        rw [List.append_nil] at hsplit
        simpa [hsplit, Line.splitFrom] using hfirst htext
    · obtain ⟨first, next, hsplit, htext⟩ :=
        Line.splitFrom_line start (List.intercalate newline.text rest ++ last.text) hline hnewline
      rw [List.intercalate_cons_of_ne_nil hnil, List.append_assoc, List.append_assoc, hsplit, List.map_cons]
      exact Nat.add_le_add (hfirst htext) (ih hnil hlines next)

end ProseWrap
