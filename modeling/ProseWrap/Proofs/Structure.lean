import ProseWrap.Proofs.Rereading
import ProseWrap.Proofs.Content

/-!
# The structure of a wrapped document

A wrapped document is written block by block. `Document.passages` gives the
lines of each block and those that are written for it, and the lines of the
result are what is written (`splitFrom_wrapped`).
-/

namespace ProseWrap

/-- The lines of each block, and the lines that are written for it when the
document is wrapped. -/
def Document.passages (style : Style) (document : Document) : List Block.Passage :=
  document.blocks.map fun block =>
    ⟨(block.sources document.lines).map Line.text,
      (Line.split (block.wrapped style document.lines)).map Line.text⟩

theorem Newline.getLast?_append {newline : Newline} (text : Text) (h : newline ≠ .none) :
    (text ++ newline.text).getLast? = some '\n' := by
  cases newline with
  | none => exact absurd rfl h
  | lf => simp [Newline.text]
  | crlf => simp [Newline.text]

namespace Block

variable {lines : List Line} {first : Nat} {blocks : List Block} {block : Block}

theorem StandsAt.unbroken (h : StandsAt lines first block) (hl : Line.Unbroken lines) :
    Line.Unbroken (block.sources lines) := by
  rw [h.split] at hl
  exact hl.append.1.append.2.1

/-- A block that does not end with the lines ends with a newline, and so does
what is written for it. -/
theorem StandsAt.getLast?_wrapped (h : StandsAt lines first block) (hl : Line.Unbroken lines)
    (hend : block.lastLine + 1 < lines.length) (style : Style) :
    (block.wrapped style lines).getLast? = some '\n' := by
  have hlast := List.getLast?_eq_some_getLast h.sources_ne_nil
  generalize (block.sources lines).getLast h.sources_ne_nil = last at hlast
  have hnewline : last.newline ≠ .none := by
    rw [h.split, List.append_assoc] at hl
    refine hl.append.2.1.append.2.2 ?_ last hlast
    simp
    omega
  unfold wrapped
  split
  · rw [Rendering.source]
    refine Newline.getLast?_append _ ?_
    rw [Prose.render, Line.lastNewline, hlast]
    exact hnewline
  · obtain ⟨front, hfront⟩ := List.getLast?_eq_some_iff.mp hlast
    rw [hfront, Line.join_append, Line.join_cons, Line.join_nil, List.append_nil, Line.source,
      ← List.append_assoc]
    exact Newline.getLast?_append _ hnewline

/-- The lines of a block that is not prose are written as they are. -/
theorem StandsAt.map_text_split_wrapped (h : StandsAt lines first block) (hl : Line.Unbroken lines)
    (hprose : block.prose? = none) (style : Style) :
    (Line.split (block.wrapped style lines)).map Line.text = (block.sources lines).map Line.text := by
  rw [wrapped, hprose]
  exact (h.unbroken hl).map_text_split

/-- The lines of what is written for some blocks are the lines of what is
written for each. -/
theorem Tiles.splitFrom_wrapped (h : Tiles lines first blocks) (hl : Line.Unbroken lines) (style : Style)
    (start : Nat) :
    ∃ groups : List (List Line),
      Line.splitFrom start [] (blocks.flatMap (wrapped style lines)) = groups.flatten ∧
      groups.map Line.join = blocks.map (wrapped style lines) ∧
      groups.map (List.map Line.text) =
        blocks.map fun block => (Line.split (block.wrapped style lines)).map Line.text := by
  induction blocks generalizing first start with
  | nil => exact ⟨[], rfl, rfl, rfl⟩
  | cons block blocks ih =>
    obtain ⟨groups, hsplit, hjoin, htext⟩ := ih h.2 (start + (block.wrapped style lines).length)
    refine ⟨Line.splitFrom start [] (block.wrapped style lines) :: groups, ?_, ?_, ?_⟩
    · rw [List.flatMap_cons, List.flatten_cons, ← hsplit]
      cases blocks with
      | nil => simp [Line.splitFrom]
      | cons next blocks =>
        have hend : block.lastLine + 1 < lines.length :=
          Nat.lt_of_le_of_lt h.2.1.le_lastLine h.2.1.lastLine_lt
        rw [Line.splitFrom_append _ _ _ _ (.inl (h.1.getLast?_wrapped hl hend style))]
        rfl
    · simp [Line.join_splitFrom, hjoin]
    · rw [List.map_cons, List.map_cons, htext, Line.split, Line.map_text_splitFrom start 0]

/-- The blocks of sections have their kinds and as many lines. -/
theorem forall₂_place (front lines : List Line) {parts : List Section}
    (hl : Laid parts (lines.map Line.text)) :
    List.Forall₂ (fun part block => block.kind = part.kind ∧
      (block.sources (front ++ lines)).length = part.count) parts (place front.length lines parts) := by
  induction parts generalizing front lines with
  | nil => exact .nil
  | cons part parts ih =>
    obtain ⟨hnext, hle, -, hl⟩ := hl
    rw [List.length_map] at hle
    have hrest := ih (front ++ lines.take part.count) (lines.drop part.count) (by rwa [List.map_drop])
    rw [List.append_assoc, List.take_append_drop, List.length_append, List.length_take_of_le hle] at hrest
    rw [place, Section.step_eq_count hnext]
    refine .cons ⟨rfl, ?_⟩ hrest
    rw [sources, List.length_take, List.drop_left]
    dsimp only
    rw [Nat.add_assoc, Nat.add_sub_cancel_left, Nat.min_eq_left hle]

end Block

/-! ## Documents -/

/-- The lines of the blocks are the lines of the document. -/
theorem flatMap_own_passages (style : Style) (text : Text) :
    ((Document.ofText text).passages style).flatMap Block.Passage.own =
      (Line.split text).map Line.text := by
  rw [← flatMap_sources text, Document.passages, List.flatMap_map, List.map_flatMap]
  rfl

theorem map_bare_outline (text : Text) :
    ((Block.outline ((Line.split text).map Line.text)).map Section.bare).map Section.kind =
      (Document.ofText text).blocks.map fun block => block.kind.bare := by
  rw [List.map_map, ← List.forall₂_eq_eq_eq, List.forall₂_map_left_iff, List.forall₂_map_right_iff]
  exact (Block.forall₂_place [] _ (Block.laid_outline _)).imp fun _ _ h => congrArg BlockKind.bare h.1.symm

theorem map_count_outline (text : Text) :
    (Block.outline ((Line.split text).map Line.text)).map Section.count =
      ((Document.ofText text).blocks.map (Block.sources (Line.split text))).map List.length := by
  rw [List.map_map, ← List.forall₂_eq_eq_eq, List.forall₂_map_left_iff, List.forall₂_map_right_iff]
  exact (Block.forall₂_place [] _ (Block.laid_outline _)).imp fun _ _ h => h.2.symm

/-- The passages of a document are those of its outline. -/
theorem fits_passages (style : Style) (text : Text) :
    List.Forall₂ Block.Fits (Block.outline (((Document.ofText text).passages style).flatMap Block.Passage.own))
      ((Document.ofText text).passages style) := by
  rw [flatMap_own_passages]
  have hplace := Block.forall₂_place [] (Line.split text) (Block.laid_outline _)
  rw [List.nil_append, List.forall₂_iff_zip] at hplace
  rw [Document.passages, List.forall₂_map_right_iff, List.forall₂_iff_zip]
  refine ⟨hplace.1, fun {part block} hmem => ?_⟩
  obtain ⟨hkind, hcount⟩ := hplace.2 hmem
  obtain ⟨n, hn⟩ := (tiles_ofText text).standsAt (List.of_mem_zip hmem).2
  refine ⟨?_, (List.length_map _).trans hcount, fun hprose => ?_⟩
  · exact mt List.map_eq_nil_iff.mp hn.sources_ne_nil
  · refine hn.map_text_split_wrapped (Line.unbroken_split text) ?_ style
    exact Option.eq_none_iff_forall_ne_some.mpr fun prose h =>
      hprose prose (hkind.symm.trans (Block.prose?_eq_some.mp h))

/-- Blocks hold what was written for each of them just if they have as many
lines as were written. -/
theorem slices_iff (style : Style) (text : Text) :
    let document := Document.ofText text
    let wrapped := document.wrap style
    (Document.ofText wrapped).blocks.map (fun block => Text.slice wrapped block.start block.stop) =
        document.blocks.map (Block.wrapped style document.lines) ↔
      (Block.outline ((Line.split wrapped).map Line.text)).map Section.count =
        (document.passages style).map fun passage => passage.written.length := by
  intro document wrapped
  have hslices : (Document.ofText wrapped).blocks.map (fun block => Text.slice wrapped block.start block.stop) =
      ((Document.ofText wrapped).blocks.map (Block.sources (Line.split wrapped))).map Line.join := by
    rw [List.map_map]
    exact List.map_congr_left fun block hb => slice_of_mem_blocks hb
  have hlengths : (document.passages style).map (fun passage => passage.written.length) =
      (document.blocks.map (Block.wrapped style document.lines)).map
        fun written => ((Line.split written).map Line.text).length := by
    rw [Document.passages, List.map_map, List.map_map]
    rfl
  rw [hslices, map_count_outline, hlengths]
  constructor
  · intro h
    rw [← h, List.map_map, List.map_map, List.map_map]
    refine List.map_congr_left fun block hb => ?_
    obtain ⟨n, hn⟩ := (tiles_ofText wrapped).standsAt hb
    show (block.sources (Line.split wrapped)).length =
      ((Line.split (Line.join (block.sources (Line.split wrapped)))).map Line.text).length
    rw [(hn.unbroken (Line.unbroken_split wrapped)).map_text_split, List.length_map]
  · intro h
    obtain ⟨groups, hsplit, hjoin, htext⟩ :=
      (tiles_ofText text).splitFrom_wrapped (Line.unbroken_split text) style 0
    suffices (Document.ofText wrapped).blocks.map (Block.sources (Line.split wrapped)) = groups by
      rw [this]
      exact hjoin
    refine List.eq_iff_flatten_eq.mpr ⟨?_, ?_⟩
    · rw [← List.flatMap, flatMap_sources]
      exact hsplit
    · have hgroups := congrArg (List.map List.length) htext
      rw [h, List.map_map]
      rw [List.map_map, List.map_map] at hgroups
      refine hgroups.symm.trans (List.map_congr_left fun group _ => ?_)
      exact List.length_map _

/-- The lines of a wrapped document are those that are written for its
blocks. -/
theorem flatMap_written_passages (style : Style) (text : Text) :
    ((Document.ofText text).passages style).flatMap Block.Passage.written =
      (Line.split ((Document.ofText text).wrap style)).map Line.text := by
  obtain ⟨groups, hsplit, -, htext⟩ :=
    (tiles_ofText text).splitFrom_wrapped (Line.unbroken_split text) style 0
  rw [show Line.split ((Document.ofText text).wrap style) = groups.flatten from hsplit, List.map_flatten,
    htext, Document.passages, List.flatMap_map]
  rfl

/-- What is written for a document is read back just if the wrapped document
has the blocks of the document: of the same kinds, and each with what was
written for it. -/
theorem readsBack_passages_iff {style : Style} {text : Text} :
    let document := Document.ofText text
    let wrapped := document.wrap style
    Block.ReadsBack (document.passages style) ↔
      (Document.ofText wrapped).blocks.map (fun block => block.kind.bare) =
          document.blocks.map (fun block => block.kind.bare) ∧
        (Document.ofText wrapped).blocks.map (fun block => Text.slice wrapped block.start block.stop) =
          document.blocks.map (Block.wrapped style document.lines) := by
  intro document wrapped
  have hslices := slices_iff style text
  dsimp only at hslices
  rw [Block.readsBack_iff (fits_passages style text), Block.SameOutline, flatMap_own_passages,
    flatMap_written_passages, hslices, ← map_bare_outline, ← map_bare_outline]
  refine and_congr_left fun _ => ⟨congrArg _, fun h => ?_⟩
  have hbare (parts : List Section) : parts.map Section.bare =
      ((parts.map Section.bare).map Section.kind).map fun kind => ⟨kind, .through 0⟩ := by
    simp [Section.bare]
  rw [hbare, h, ← hbare]

/-- Wrapping keeps the structure of a text just if what it writes for prose,
tables, references and directives, and under other list items than before, is
read back in its place: exactly then the result has blocks of the same kinds in
the same order, each with what was written for it. Blocks that are not prose
are written as they were. -/
theorem wrapText_keeps_structure_iff (config : Config) (fixed : Bool) (options : Options) (text : Text)
    (hoptions : (config.accept fixed).result = .ok options) :
    ∃ out, (wrapText config fixed text).result = .ok out ∧
      let document := Document.ofText text
      let again := Document.ofText out
      (again.blocks.map (fun block => block.kind.bare) = document.blocks.map (fun block => block.kind.bare) ∧
          again.blocks.map (fun block => Text.slice out block.start block.stop) =
            document.blocks.map (Block.wrapped options.style document.lines) ↔
        Block.ReadsBack (document.passages options.style)) ∧
      ∀ block ∈ document.blocks, block.prose? = none →
        block.wrapped options.style document.lines = Text.slice text block.start block.stop := by
  refine ⟨(Document.ofText text).wrap options.style, by rw [wrapText_result, hoptions]; rfl, ?_, ?_⟩
  · exact readsBack_passages_iff.symm
  · intro block hb hprose
    rw [slice_of_mem_blocks hb, Block.wrapped, hprose]
    rfl

/-- A heading, a paragraph, a list item and code stay what they are. -/
theorem wrapText_keeps_structure_default :
    (Config.accept {} false).result = .ok Options.default ∧
      Block.ReadsBack ((Document.ofText "# a\nb\nc\n- d\n  e\n\n      f\n".toList).passages Options.default.style) ∧
      ∃ out, (wrapText {} false "# a\nb\nc\n- d\n  e\n\n      f\n".toList).result = .ok out ∧
        (Document.ofText out).blocks.map (fun block => block.kind.bare) =
          [.heading 1 false, .prose ⟨.paragraph [], []⟩,
            .prose ⟨.listItem [] ['-'] false [' ', ' '], []⟩, .blank, .code false] := by
  have hback : Block.ReadsBack
      ((Document.ofText "# a\nb\nc\n- d\n  e\n\n      f\n".toList).passages Options.default.style) := by
    decide +kernel
  obtain ⟨out, hout, hiff, -⟩ := wrapText_keeps_structure_iff {} false Options.default
    "# a\nb\nc\n- d\n  e\n\n      f\n".toList rfl
  refine ⟨rfl, hback, out, hout, (hiff.mpr hback).1.trans ?_⟩
  decide +kernel

/-- A table goes on as long as there are bars, so it takes a paragraph after it
that is joined to a line with a bar: the structure is not kept. -/
theorem table_takes_paragraph :
    ∃ out, (wrapText {} false "| a |\nfoo\nbar|baz\n".toList).result = .ok out ∧
      (Document.ofText out).blocks.map (fun block => block.kind.bare) = [.table] ∧
      (Document.ofText "| a |\nfoo\nbar|baz\n".toList).blocks.map (fun block => block.kind.bare) =
        [.table, .prose ⟨.paragraph [], []⟩] := by
  refine ⟨_, rfl, ?_, ?_⟩
  · decide +kernel
  · decide +kernel

end ProseWrap
