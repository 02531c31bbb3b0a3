import ProseWrap.Proofs.Structure
import ProseWrap.Proofs.Characters

/-!
# Carriage returns

A text with a carriage return before each line feed (`Text.withReturns`) has
the same lines and the same blocks, and each of its lines ends with both
characters where it ended with a line feed (`forall₂_split_withReturns`). What
is written for a block has its carriage returns too, unless the block has no
newline that could tell (`Block.InventsNewline`): such a block is the last line
of the text.
-/

namespace ProseWrap

/-! ## Texts with carriage returns -/

/-- The text with a carriage return before each line feed. -/
def Text.withReturns (text : Text) : Text := text.flatMap fun c => if c = '\n' then ['\r', '\n'] else [c]

namespace Text

@[simp] theorem withReturns_nil : withReturns [] = [] := rfl

@[simp] theorem withReturns_append (front back : Text) :
    withReturns (front ++ back) = withReturns front ++ withReturns back := List.flatMap_append

theorem withReturns_cons_feed (rest : Text) : withReturns ('\n' :: rest) = '\r' :: '\n' :: withReturns rest := rfl

theorem withReturns_cons {c : Char} (hc : c ≠ '\n') (rest : Text) :
    withReturns (c :: rest) = c :: withReturns rest := by
  simp [withReturns, hc]

theorem length_withReturns (text : Text) : (withReturns text).length = text.length + text.count '\n' := by
  induction text with
  | nil => rfl
  | cons c rest ih =>
    by_cases hc : c = '\n'
    · subst hc
      simp only [withReturns_cons_feed, List.length_cons, List.count_cons_self, ih]
      omega
    · simp only [withReturns_cons hc, List.length_cons, List.count_cons_of_ne hc, ih]
      omega

theorem withReturns_of_not_mem {text : Text} (h : '\n' ∉ text) : withReturns text = text := by
  induction text with
  | nil => rfl
  | cons c rest ih =>
    obtain ⟨hc, hrest⟩ := List.ne_and_not_mem_of_not_mem_cons h
    rw [withReturns_cons (Ne.symm hc), ih hrest]

/-- Line feeds between texts without any become carriage returns and line
feeds. -/
theorem withReturns_intercalate {texts : List Text} (h : ∀ text ∈ texts, '\n' ∉ text) :
    withReturns (List.intercalate ['\n'] texts) = List.intercalate ['\r', '\n'] texts := by
  induction texts with
  | nil => rfl
  | cons text rest ih =>
    obtain ⟨htext, hrest⟩ := List.forall_mem_cons.mp h
    cases rest with
    | nil =>
      rw [List.intercalate_singleton, List.intercalate_singleton]
      exact withReturns_of_not_mem htext
    | cons next rest =>
      rw [List.intercalate_cons_cons, withReturns_append, withReturns_append, ih hrest, withReturns_of_not_mem htext,
        List.intercalate_cons_cons]
      rfl

/-- At most one text has nothing between. -/
theorem intercalate_eq_of_length_le {texts : List Text} (h : texts.length ≤ 1) (separator other : Text) :
    List.intercalate separator texts = List.intercalate other texts := by
  rcases texts with _ | ⟨text, _ | ⟨next, rest⟩⟩
  · rfl
  · rfl
  · simp at h

theorem mem_intercalate_of_one_lt {c : Char} {texts : List Text} (h : 1 < texts.length) :
    c ∈ List.intercalate [c] texts := by
  rcases texts with _ | ⟨text, _ | ⟨next, rest⟩⟩
  · simp at h
  · simp at h
  · simp [List.intercalate]

end Text

/-! ## Lines with carriage returns -/

namespace Line

/-- The second line is the first one with a carriage return before its line
feed, wherever it starts. -/
structure Returned (line other : Line) : Prop where
  feed_not_mem : '\n' ∉ line.text
  text : other.text = line.text
  newline : line.newline = .none ∧ other.newline = .none ∨ line.newline = .lf ∧ other.newline = .crlf

theorem Returned.source {line other : Line} (h : Returned line other) :
    other.source = line.source.withReturns := by
  rw [Line.source, Line.source, Text.withReturns_append, Text.withReturns_of_not_mem h.feed_not_mem, h.text]
  rcases h.newline with ⟨hl, ho⟩ | ⟨hl, ho⟩ <;> rw [hl, ho] <;> rfl

theorem join_returned {lines others : List Line} (h : List.Forall₂ Returned lines others) :
    join others = (join lines).withReturns := by
  induction h with
  | nil => rfl
  | cons hline _ ih => rw [join_cons, join_cons, Text.withReturns_append, hline.source, ih]

theorem map_text_returned {lines others : List Line} (h : List.Forall₂ Returned lines others) :
    others.map text = lines.map text := by
  induction h with
  | nil => rfl
  | cons hline _ ih => rw [List.map_cons, List.map_cons, hline.text, ih]

/-- New lines between lines of which some have a newline get a carriage return
too. -/
theorem innerNewline_returned {lines others : List Line} (h : List.Forall₂ Returned lines others)
    (hnewline : ∃ line ∈ lines, line.newline ≠ .none) :
    innerNewline lines = .lf ∧ innerNewline others = .crlf := by
  induction h with
  | nil => simp at hnewline
  | cons hline _ ih =>
    rcases hline.newline with ⟨hl, ho⟩ | ⟨hl, ho⟩
    · have hrest := ih (by simpa [hl] using hnewline)
      simpa [innerNewline, hl, ho] using hrest
    · simp [innerNewline, hl, ho]

/-- New lines between lines without any newline have a line feed, and none
comes after them. -/
theorem newlines_of_forall_none {lines : List Line} (h : ∀ line ∈ lines, line.newline = .none) :
    innerNewline lines = .lf ∧ lastNewline lines = .none := by
  have hfind : lines.find? (fun line => line.newline != .none) = none :=
    List.find?_eq_none.mpr fun line hl => by simp [h line hl]
  refine ⟨by rw [innerNewline, hfind]; rfl, ?_⟩
  rw [lastNewline]
  cases hlast : lines.getLast? with
  | none => rfl
  | some last => exact h last (List.mem_of_getLast? hlast)

theorem lastNewline_returned {lines others : List Line} (h : List.Forall₂ Returned lines others) :
    (lastNewline others).text = (lastNewline lines).text.withReturns := by
  induction h with
  | nil => rfl
  | @cons line other lines others hline hrest ih =>
    cases hrest with
    | nil => rcases hline.newline with ⟨hl, ho⟩ | ⟨hl, ho⟩ <;> simp [lastNewline, hl, ho] <;> rfl
    | cons => simpa [lastNewline] using ih

theorem forall_none_returned {lines others : List Line} (h : List.Forall₂ Returned lines others)
    (hnone : ∀ line ∈ lines, line.newline = .none) : ∀ other ∈ others, other.newline = .none := by
  induction h with
  | nil => simp
  | cons hline _ ih =>
    obtain ⟨hfirst, hrest⟩ := List.forall_mem_cons.mp hnone
    refine List.forall_mem_cons.mpr ⟨?_, ih hrest⟩
    rcases hline.newline with ⟨-, ho⟩ | ⟨hl, -⟩
    · exact ho
    · rw [hl] at hfirst
      cases hfirst

/-- The lines of a text are the same with carriage returns, but for their
newlines. -/
theorem forall₂_splitFrom_withReturns (start start' : Nat) (current rest : Text) (hcurrent : '\n' ∉ current)
    (hreturn : '\r' ∉ current) (hrest : '\r' ∉ rest) :
    List.Forall₂ Returned (splitFrom start current rest) (splitFrom start' current rest.withReturns) := by
  fun_induction splitFrom start current rest generalizing start' with
  | case1 start current hempty => simp [splitFrom, hempty]
  | case2 start current hempty =>
    simp only [Text.withReturns_nil, splitFrom, hempty, Bool.false_eq_true, if_false]
    exact .cons ⟨by simpa using hcurrent, rfl, .inl ⟨rfl, rfl⟩⟩ .nil
  | case3 start c rest hc before ih => exact absurd List.mem_cons_self hreturn
  | case4 start current c rest hc hcr ih =>
    obtain rfl : c = '\n' := by simpa using hc
    have hsplit : splitFrom start' current (Text.withReturns ('\n' :: rest)) =
        ⟨current.reverse, .crlf, start'⟩ :: splitFrom (start' + current.length + 2) [] (Text.withReturns rest) := by
      simp [Text.withReturns_cons_feed, splitFrom]
    rw [hsplit]
    exact .cons ⟨by simpa using hcurrent, rfl, .inr ⟨rfl, rfl⟩⟩
      (ih _ (by simp) (by simp) (List.not_mem_of_not_mem_cons hrest))
  | case5 start current c rest hc ih =>
    have hne : c ≠ '\n' := by simpa using hc
    obtain ⟨hfirst, hrest⟩ := List.ne_and_not_mem_of_not_mem_cons hrest
    have hsplit : splitFrom start' current (c :: Text.withReturns rest) =
        splitFrom start' (c :: current) (Text.withReturns rest) := by
      simp [splitFrom, hne]
    rw [Text.withReturns_cons hne, hsplit]
    exact ih start' (List.not_mem_cons_of_ne_of_not_mem (Ne.symm hne) hcurrent)
      (List.not_mem_cons_of_ne_of_not_mem hfirst hreturn) hrest

theorem forall₂_split_withReturns {text : Text} (h : '\r' ∉ text) :
    List.Forall₂ Returned (split text) (split text.withReturns) :=
  forall₂_splitFrom_withReturns 0 0 [] text (by simp) (by simp) h

/-- Only the last line of a text has no newline, and it has characters. -/
theorem Unbroken.of_forall_none {own rest : List Line} (h : Unbroken (own ++ rest)) (hne : own ≠ [])
    (hnone : ∀ line ∈ own, line.newline = .none) :
    ∃ line, own = [line] ∧ rest = [] ∧ line.text ≠ [] := by
  obtain ⟨line, others, rfl⟩ := List.exists_cons_of_ne_nil hne
  obtain ⟨-, -, hlast, -⟩ := h
  obtain ⟨htext, hrest⟩ := hlast (hnone line List.mem_cons_self)
  obtain ⟨rfl, rfl⟩ := List.append_eq_nil_iff.mp hrest
  exact ⟨line, rfl, rfl, htext⟩

end Line

/-! ## Blocks with carriage returns -/

namespace Block

/-- The block is prose that goes on several lines although the lines it stands
on have no newline: nothing tells what the new lines are to end with, and they
get a line feed. -/
def InventsNewline (style : Style) (lines : List Line) (block : Block) : Prop :=
  ∃ prose ∈ block.prose?, (∀ line ∈ block.sources lines, line.newline = .none) ∧
    1 < (prose.render style (block.sources lines)).lines.length

instance (style : Style) (lines : List Line) (block : Block) : Decidable (block.InventsNewline style lines) :=
  inferInstanceAs (Decidable (∃ prose ∈ block.prose?, _ ∧ _))

variable {lines others : List Line} {first : Nat} {block : Block} {style : Style}

theorem sources_returned (h : List.Forall₂ Line.Returned lines others) (block : Block) :
    List.Forall₂ Line.Returned (block.sources lines) (block.sources others) :=
  List.forall₂_take _ (List.forall₂_drop _ h)

/-- Prose depends on the texts of its lines only. -/
theorem lines_render_returned (h : List.Forall₂ Line.Returned lines others) (style : Style) (prose : Prose) :
    (prose.render style others).lines = (prose.render style lines).lines := by
  rw [Prose.render, Prose.render, Line.map_text_returned h]

theorem StandsAt.feed_not_mem_render (h : StandsAt lines first block) (hl : Line.Unbroken lines)
    (style : Style) {prose : Prose} (hprose : block.prose? = some prose) :
    ∀ text ∈ (prose.render style (block.sources lines)).lines, '\n' ∉ text := by
  intro text ht hmem
  have hw := h.writtenOn prose (prose?_eq_some.mp hprose)
  rcases prose.mem_of_mem_render style hw h.sources_ne_nil ht hmem with hc | hc | ⟨source, hs, hc⟩
  · cases hc
  · cases hc
  · exact (h.unbroken hl).feed_not_mem hs hc

/-- What is written for a block gets its carriage returns. -/
theorem StandsAt.wrapped_returned (h : StandsAt lines first block) (hl : Line.Unbroken lines)
    (hlines : List.Forall₂ Line.Returned lines others) (hknown : ¬block.InventsNewline style lines) :
    block.wrapped style others = (block.wrapped style lines).withReturns := by
  have hsources := sources_returned hlines block
  unfold wrapped
  split
  · rename_i prose hprose
    have hfeed := h.feed_not_mem_render hl style hprose
    rw [Rendering.source, Rendering.source, Text.withReturns_append]
    congr 1
    · rw [Rendering.body, Rendering.body, lines_render_returned hsources]
      by_cases hnewline : ∃ line ∈ block.sources lines, line.newline ≠ .none
      · obtain ⟨hlf, hcrlf⟩ := Line.innerNewline_returned hsources hnewline
        simp only [Prose.render, hlf, hcrlf, Newline.text]
        exact (Text.withReturns_intercalate hfeed).symm
      · have hnone : ∀ line ∈ block.sources lines, line.newline = .none := by simpa using hnewline
        -- With at most one line there is no newline to choose.
        have hle : (prose.render style (block.sources lines)).lines.length ≤ 1 :=
          Nat.not_lt.mp fun hlt => hknown ⟨prose, hprose, hnone, hlt⟩
        rw [show (prose.render style (block.sources lines)).newline = .lf from
          (Line.newlines_of_forall_none hnone).1]
        exact (Text.intercalate_eq_of_length_le hle _ _).trans (Text.withReturns_intercalate hfeed).symm
    · exact Line.lastNewline_returned hsources
  · exact Line.join_returned hsources

/-- What is written for a block with a newline of its own making does not get
them. -/
theorem InventsNewline.wrapped_returned (h : block.InventsNewline style lines)
    (hlines : List.Forall₂ Line.Returned lines others) :
    (block.wrapped style others).length < (block.wrapped style lines).withReturns.length := by
  obtain ⟨prose, hprose, hnone, hlt⟩ := h
  have hsources := sources_returned hlines block
  obtain ⟨hinner, hlast⟩ := Line.newlines_of_forall_none hnone
  obtain ⟨hinner', hlast'⟩ := Line.newlines_of_forall_none (Line.forall_none_returned hsources hnone)
  have hrender : prose.render style (block.sources others) = prose.render style (block.sources lines) := by
    rw [Prose.render, Prose.render, Line.map_text_returned hsources, hinner, hinner', hlast, hlast']
  have hmem : '\n' ∈ (prose.render style (block.sources lines)).source := by
    refine List.mem_append_left _ ?_
    rw [Rendering.body, show (prose.render style (block.sources lines)).newline = .lf from hinner]
    exact Text.mem_intercalate_of_one_lt hlt
  simp only [wrapped, Option.mem_def.mp hprose, hrender, Text.length_withReturns]
  have hcount := List.count_pos_iff.mpr hmem
  omega

/-- A block with a newline of its own making is the last line, and the text
ends within it. -/
theorem StandsAt.of_inventsNewline (h : StandsAt lines first block) (hl : Line.Unbroken lines)
    (hinvents : block.InventsNewline style lines) :
    block.firstLine = block.lastLine ∧ block.lastLine + 1 = lines.length ∧
      (Line.join lines).getLast? ≠ some '\n' := by
  obtain ⟨prose, -, hnone, -⟩ := hinvents
  have hsplit := h.split
  rw [hsplit, List.append_assoc] at hl
  obtain ⟨line, hown, hrest, htext⟩ := hl.append.2.1.of_forall_none h.sources_ne_nil hnone
  have hlength := congrArg List.length hown
  rw [sources, List.length_take, List.length_drop, List.length_singleton] at hlength
  have hle := h.le_lastLine
  have hlt := h.lastLine_lt
  have hfirst := h.firstLine
  have hdrop := List.drop_eq_nil_iff.mp hrest
  refine ⟨by omega, by omega, ?_⟩
  rw [hsplit, hown, hrest, List.append_nil, Line.join_append, Line.join_cons, Line.join_nil, List.append_nil,
    Line.source, hnone line (by rw [hown]; exact List.mem_cons_self), Newline.text, List.append_nil,
    List.getLast?_append_of_ne_nil _ htext]
  have hmem : line ∈ block.sources lines ++ lines.drop (block.lastLine + 1) := by
    rw [hown]
    exact List.mem_append_left _ List.mem_cons_self
  exact fun hlast => hl.append.2.1.feed_not_mem hmem (List.mem_of_getLast? hlast)

/-- What is written for blocks depends on which lines they stand on and not on
where these start. -/
theorem flatMap_wrapped_place (style : Style) (lines : List Line) (first : Nat) (own other : List Line)
    (parts : List Section) :
    (place first own parts).flatMap (wrapped style lines) =
      (place first other parts).flatMap (wrapped style lines) := by
  induction parts generalizing first own other with
  | nil => rfl
  | cons part parts ih =>
    rw [place, place, List.flatMap_cons, List.flatMap_cons,
      ih _ (own.drop part.extent.step) (other.drop part.extent.step)]
    rfl

/-- Of blocks that stand one after the other all get their carriage returns, or
else what is written for them is too short. -/
theorem Tiles.flatMap_wrapped_returned_iff {blocks : List Block} (h : Tiles lines first blocks)
    (hl : Line.Unbroken lines) (hlines : List.Forall₂ Line.Returned lines others) :
    (blocks.flatMap (wrapped style others)).length ≤
        (Text.withReturns (blocks.flatMap (wrapped style lines))).length ∧
      (blocks.flatMap (wrapped style others) = Text.withReturns (blocks.flatMap (wrapped style lines)) ↔
        ∀ block ∈ blocks, ¬block.InventsNewline style lines) := by
  induction blocks generalizing first with
  | nil => simp
  | cons block blocks ih =>
    obtain ⟨hle, hiff⟩ := ih h.2
    rw [List.flatMap_cons, List.flatMap_cons, Text.withReturns_append, List.forall_mem_cons]
    by_cases hinvents : block.InventsNewline style lines
    · have hlt := hinvents.wrapped_returned hlines
      simp only [List.length_append]
      refine ⟨by omega, fun heq => ?_, fun hall => absurd hinvents hall.1⟩
      have hlength := congrArg List.length heq
      simp only [List.length_append] at hlength
      omega
    · rw [h.1.wrapped_returned hl hlines hinvents, List.append_cancel_left_eq, hiff]
      simp only [List.length_append]
      exact ⟨by omega, (and_iff_right hinvents).symm⟩

end Block

/-! ## Documents with carriage returns -/

/-- A text with carriage returns is wrapped as its blocks are on its own
lines. -/
theorem wrap_withReturns {text : Text} (h : '\r' ∉ text) (style : Style) :
    (Document.ofText text.withReturns).wrap style =
      (Document.ofText text).blocks.flatMap (Block.wrapped style (Line.split text.withReturns)) := by
  have htexts := Line.map_text_returned (Line.forall₂_split_withReturns h)
  rw [Document.wrap, Document.ofText, Document.ofText, htexts]
  exact Block.flatMap_wrapped_place ..

/-- A text with a carriage return before each line feed is wrapped like the
text without them, and has them in the same places again, just if no block
invents a newline. Only a paragraph or the like can do so that is a single line
at the end of a text which does not end with a newline. -/
theorem wrapText_withReturns_iff (config : Config) (fixed : Bool) (options : Options) (text : Text)
    (hoptions : (config.accept fixed).result = .ok options) (hreturn : '\r' ∉ text) :
    let document := Document.ofText text
    ∃ out, (wrapText config fixed text).result = .ok out ∧
      ((wrapText config fixed text.withReturns).result = .ok out.withReturns ↔
        ∀ block ∈ document.blocks, ¬block.InventsNewline options.style document.lines) ∧
      ∀ block ∈ document.blocks, block.InventsNewline options.style document.lines →
        block.firstLine = block.lastLine ∧ block.lastLine + 1 = document.lines.length ∧
          text.getLast? ≠ some '\n' := by
  intro document
  have hresult (text : Text) :
      (wrapText config fixed text).result = .ok ((Document.ofText text).wrap options.style) := by
    rw [wrapText_result, hoptions]
    rfl
  have htiles := tiles_ofText text
  have hunbroken := Line.unbroken_split text
  refine ⟨document.wrap options.style, hresult text, ?_, fun block hblock hinvents => ?_⟩
  · rw [hresult, wrap_withReturns hreturn, Except.ok.injEq]
    exact (htiles.flatMap_wrapped_returned_iff hunbroken (Line.forall₂_split_withReturns hreturn)).2
  · obtain ⟨n, hn⟩ := htiles.standsAt hblock
    have hlast := hn.of_inventsNewline hunbroken hinvents
    rwa [Line.join_split] at hlast

/-- A paragraph that is laid out anew and a last line that fits keep their
carriage returns. -/
theorem wrapText_withReturns_narrow :
    let config : Config := { lineLength := .given (.number (.ofNat 5)) }
    let text : Text := "aa bb cc\n\n- d\n\nee".toList
    (config.accept false).result = .ok { Options.default with lineLength := .finite 5 } ∧ '\r' ∉ text ∧
      (wrapText config false text.withReturns).result =
        .ok "aa bb\r\ncc\r\n\r\n- d\r\n\r\nee".toList := by
  intro config text
  have hoptions : (config.accept false).result = .ok { Options.default with lineLength := .finite 5 } := by
    decide +kernel
  have hreturn : '\r' ∉ text := by decide +kernel
  obtain ⟨out, hout, hiff, -⟩ := wrapText_withReturns_iff config false _ text hoptions hreturn
  have hwrapped : (wrapText config false text).result = .ok "aa bb\ncc\n\n- d\n\nee".toList := by decide +kernel
  obtain rfl : out = "aa bb\ncc\n\n- d\n\nee".toList := Except.ok.inj (hout.symm.trans hwrapped)
  refine ⟨hoptions, hreturn, (hiff.mpr ?_).trans (by decide +kernel)⟩
  decide +kernel

/-- A last line without a newline that has to be broken gets a bare line
feed. -/
theorem last_line_invents_newline :
    let config : Config := { lineLength := .given (.number (.ofNat 5)) }
    let text : Text := "# h\naa bb cc".toList
    '\n' ∈ text ∧ '\r' ∉ text ∧
      ∃ out, (wrapText config false text).result = .ok out ∧
        (wrapText config false text.withReturns).result ≠ .ok out.withReturns := by
  refine ⟨by decide, by decide, "# h\naa bb\ncc".toList, ?_, ?_⟩
  · decide +kernel
  · decide +kernel

end ProseWrap
