import ProseWrap.Proofs.Deletion
import ProseWrap.Proofs.Mending

/-!
# Laying out blocks in place

There are two ways to wrap a document. `Document.wrap` writes it anew, block
after block. `Document.wrapAt` takes one line, lays out the block of prose that
holds it, and tells what is to be put in the place of what.

The two agree: each line of a block leads to the same replacement, and if the
replacements of all blocks of prose are made at once (`Replacement.applyAll`),
what comes of it is the document as it is written anew (`wrap_eq_applyAll`). A
replacement ends before the last newline of its block, so the text between two
replacements begins with the newline of the first one and goes on with the
blocks that are not prose.
-/

namespace ProseWrap

/-! ## Numbers of lines -/

theorem Number.toNat?_eq_some {number : Number} {n : Nat} : number.toNat? = some n ↔ number = .ofNat n := by
  constructor
  · intro h
    cases number with
    | finite value =>
      simp only [toNat?] at h
      split at h
      · rename_i hwhole
        obtain ⟨hden, hnum⟩ := hwhole
        have hn : value.num = n := by
          have := Option.some.inj h
          omega
        refine congrArg Number.finite (Rat.ext ?_ ?_)
        · rw [Rat.num_natCast, hn]
        · rw [Rat.den_natCast, hden]
      · cases h
    | infinite => cases h
    | nan => cases h
  · rintro rfl
    simp [toNat?, ofNat]

theorem lineIndex?_eq_some {number : Number} {index : Nat} :
    lineIndex? number = some index ↔ number = .ofNat (index + 1) := by
  rw [← Number.toNat?_eq_some]
  unfold lineIndex?
  split
  · rename_i n hn
    simp [hn]
  · rename_i hn
    simp only [reduceCtorEq, false_iff]
    exact hn index

theorem Line.join_take_prefix (lines : List Line) (n : Nat) : join (lines.take n) <+: join lines :=
  ⟨join (lines.drop n), by rw [← join_append, List.take_append_drop]⟩

/-! ## All replacements at once -/

/-- The text from an offset on, in which all replacements have been made at
once. They are given in the order in which they stand. -/
def Replacement.applyAll (text : Text) (offset : Nat) : List Replacement → Text
  | [] => text.drop offset
  | replacement :: rest =>
    Text.slice text offset replacement.start ++ replacement.text ++ applyAll text replacement.stop rest

/-- What is to be put in the place of a block, if it is prose. -/
def Document.replacement? (style : Style) (document : Document) (block : Block) : Option Replacement :=
  block.prose?.map (document.wrapBlock style block)

namespace Block

variable {document : Document} {first : Nat} {block : Block} {blocks : List Block}

/-- A replacement stands where its block does and leaves the last newline of
the block alone. -/
theorem StandsAt.wrapBlock_bounds (h : StandsAt document.lines first block) (style : Style) (prose : Prose) :
    let replacement := document.wrapBlock style block prose
    replacement.start ≤ replacement.stop ∧ replacement.stop ≤ block.stop ∧
      Text.slice (Line.join document.lines) replacement.stop block.stop =
        (Line.lastNewline (block.sources document.lines)).text := by
  intro replacement
  obtain ⟨body, hbody⟩ := Line.exists_join_eq_append h.sources_ne_nil
  have hblock : block.stop =
      block.start + (body.length + (Line.lastNewline (block.sources document.lines)).text.length) := by
    rw [h.stop, h.start, h.join_take, hbody, List.length_append, List.length_append]
  have hstart : replacement.start = block.start := rfl
  have hstop : replacement.stop = block.start + body.length := by
    show block.stop - (Line.lastNewline (block.sources document.lines)).text.length = _
    omega
  refine ⟨by omega, by omega, ?_⟩
  have hslice := h.slice_eq
  rw [hbody, hblock, Text.slice, Nat.add_sub_cancel_left] at hslice
  rw [hstop, hblock, Text.slice, ← List.drop_drop, Nat.add_sub_add_left, ← List.drop_take, hslice, List.drop_left]

theorem StandsAt.start_le_stop (h : StandsAt document.lines first block) : block.start ≤ block.stop := by
  rw [h.stop, h.start, h.join_take, List.length_append]
  omega

/-- From an offset on that lies before the blocks, making the replacements of
the blocks writes what lies between and then the blocks. -/
theorem Tiles.applyAll_eq (h : Tiles document.lines first blocks) (style : Style) (offset : Nat)
    (hoffset : offset ≤ (Line.join (document.lines.take first)).length) :
    Replacement.applyAll (Line.join document.lines) offset (blocks.filterMap (document.replacement? style)) =
      Text.slice (Line.join document.lines) offset (Line.join (document.lines.take first)).length ++
        blocks.flatMap (wrapped style document.lines) := by
  induction blocks generalizing first offset with
  | nil =>
    rw [show first = document.lines.length from h, List.take_length]
    simp [Replacement.applyAll, Text.slice, List.take_of_length_le]
  | cons block blocks ih =>
    obtain ⟨hb, h⟩ := h
    have hle := hb.start_le_stop
    rw [← hb.start] at hoffset ⊢
    rw [List.filterMap_cons, List.flatMap_cons]
    cases hprose : block.prose? with
    | none =>
      -- the block is a part of what lies before the next replacement
      simp only [Document.replacement?, hprose, Option.map_none, wrapped]
      have hrest := ih h offset (by rw [← hb.stop]; omega)
      rw [← hb.stop, ← Text.slice_append_slice hoffset hle, hb.slice_eq, List.append_assoc] at hrest
      exact hrest
    | some prose =>
      obtain ⟨-, hstop, hnewline⟩ := hb.wrapBlock_bounds style prose
      have hrest := ih h (document.wrapBlock style block prose).stop (by rw [← hb.stop]; exact hstop)
      rw [← hb.stop, hnewline] at hrest
      simp only [Document.replacement?, hprose, Option.map_some, wrapped, Replacement.applyAll]
      rw [hrest]
      simp only [Document.wrapBlock, Rendering.source, Prose.render, List.append_assoc]

end Block

/-! ## Documents -/

variable {text : Text}

/-- Writing a document anew is making the replacements of all its blocks of
prose at once. -/
theorem wrap_eq_applyAll (style : Style) (text : Text) :
    (Document.ofText text).wrap style =
      Replacement.applyAll text 0
        ((Document.ofText text).blocks.filterMap ((Document.ofText text).replacement? style)) := by
  have htiles : Block.Tiles (Document.ofText text).lines 0 (Document.ofText text).blocks := tiles_ofText text
  have hall := htiles.applyAll_eq style 0 (Nat.zero_le _)
  rw [show Line.join (Document.ofText text).lines = text from Line.join_split text] at hall
  rw [hall]
  rfl

/-- On a line of a block stands the replacement of the block. -/
theorem wrapAt_of_mem_blocks (style : Style) {block : Block} (hb : block ∈ (Document.ofText text).blocks)
    {index : Nat} (hfirst : block.firstLine ≤ index) (hlast : index ≤ block.lastLine) :
    (Document.ofText text).wrapAt style index = (Document.ofText text).replacement? style block := by
  rw [Document.wrapAt, proseAt?_of_mem_blocks hb hfirst hlast, Document.replacement?, Option.map_map]
  rfl

/-- Each line from where a tiling begins is held by a block of it. -/
theorem Block.Tiles.exists_mem {lines : List Line} {first : Nat} {blocks : List Block}
    (h : Block.Tiles lines first blocks) {index : Nat} (hfirst : first ≤ index) (hlt : index < lines.length) :
    ∃ block ∈ blocks, block.firstLine ≤ index ∧ index ≤ block.lastLine := by
  induction blocks generalizing first with
  | nil => exact absurd hlt (by rw [← show first = lines.length from h]; omega)
  | cons block blocks ih =>
    by_cases hlast : index ≤ block.lastLine
    · exact ⟨block, List.mem_cons_self, h.1.firstLine ▸ hfirst, hlast⟩
    · obtain ⟨other, ho, hindex⟩ := ih h.2 (by omega)
      exact ⟨other, List.mem_cons_of_mem _ ho, hindex⟩

/-- Each line of a document is held by exactly one of its blocks. -/
theorem existsUnique_block {index : Nat} (hlt : index < (Document.ofText text).lines.length) :
    ∃! block, block ∈ (Document.ofText text).blocks ∧ block.firstLine ≤ index ∧ index ≤ block.lastLine := by
  have htiles := tiles_ofText text
  obtain ⟨block, hb, hfirst, hlast⟩ := htiles.exists_mem (Nat.zero_le index) hlt
  refine ⟨block, ⟨hb, hfirst, hlast⟩, fun other ⟨ho, hfirst', hlast'⟩ => ?_⟩
  have hfound := htiles.find?_eq hb hfirst hlast
  rw [htiles.find?_eq ho hfirst' hlast'] at hfound
  exact Option.some.inj hfound

/-- No block is found by a number that is none of a line. -/
theorem wrapAt_of_length_le (style : Style) {index : Nat} (h : (Document.ofText text).lines.length ≤ index) :
    (Document.ofText text).wrapAt style index = none := by
  rw [Document.wrapAt, Document.proseAt?, Document.blockAt?, if_neg (Nat.not_lt.mpr h)]
  rfl

/-- There is no replacement for a line just if the block that holds it is not
prose. -/
theorem wrapAt_eq_none_iff (style : Style) {index : Nat} (hlt : index < (Document.ofText text).lines.length) :
    (Document.ofText text).wrapAt style index = none ↔
      ∃ block ∈ (Document.ofText text).blocks,
        block.firstLine ≤ index ∧ index ≤ block.lastLine ∧ block.prose? = none := by
  obtain ⟨block, ⟨hb, hfirst, hlast⟩, hunique⟩ := existsUnique_block hlt
  rw [wrapAt_of_mem_blocks style hb hfirst hlast, Document.replacement?, Option.map_eq_none_iff]
  refine ⟨fun hprose => ⟨block, hb, hfirst, hlast, hprose⟩, fun ⟨other, ho, hfirst', hlast', hprose⟩ => ?_⟩
  rwa [← hunique other ⟨ho, hfirst', hlast'⟩]

/-! ## Texts under a configuration -/

/-- If the configuration is accepted, the paragraph at a line is laid out in
the style of its options. -/
theorem wrapTextAt_result {config : Config} {fixed : Bool} {options : Options}
    (hoptions : (config.accept fixed).result = .ok options) (text : Text) (number : Number) :
    (wrapTextAt config text number fixed).result =
      .ok ((lineIndex? number).bind ((Document.ofText text).wrapAt options.style)) := by
  unfold wrapTextAt
  cases lineIndex? number with
  | none => rfl
  | some index =>
    rw [Option.bind_some, Document.wrapAt]
    have hread : (Document.read text).result = .ok (Document.ofText text) := rfl
    refine (Report.result_bind hread _).trans ?_
    cases (Document.ofText text).proseAt? index with
    | none => rfl
    | some found => exact Report.result_bind hoptions _

/-- One replacement for each block of prose, in order. -/
theorem forall₂_replacements (style : Style) (document : Document) (blocks : List Block) :
    List.Forall₂ (fun block replacement => block ∈ blocks ∧ document.replacement? style block = some replacement)
      (blocks.filter fun block => block.prose?.isSome) (blocks.filterMap (document.replacement? style)) := by
  induction blocks with
  | nil => exact .nil
  | cons block blocks ih =>
    have hrest := ih.imp fun other replacement h => (⟨List.mem_cons_of_mem block h.1, h.2⟩ :
      other ∈ block :: blocks ∧ document.replacement? style other = some replacement)
    cases hprose : block.prose? with
    | none =>
      rw [List.filter_cons_of_neg (by simp [hprose]),
        List.filterMap_cons_none (by rw [Document.replacement?, hprose]; rfl)]
      exact hrest
    | some prose =>
      have hsome : document.replacement? style block = some (document.wrapBlock style block prose) := by
        rw [Document.replacement?, hprose]
        rfl
      rw [List.filter_cons_of_pos (by simp [hprose]), List.filterMap_cons_some hsome]
      exact .cons ⟨List.mem_cons_self, hsome⟩ hrest

/-- Wrapping a text as a whole and laying out its paragraphs one by one agree.
Every line of a block of prose leads to one and the same replacement, which
stands in the place of the block without its last newline; all of them made at
once give the text as it is wrapped. Each line is held by exactly one block,
and there is no replacement just if the number is none of a line or the block
on that line is not prose. -/
theorem wrapText_agrees_with_wrapTextAt (config : Config) (fixed : Bool) (options : Options) (text : Text)
    (hoptions : (config.accept fixed).result = .ok options) :
    let document := Document.ofText text
    (∃ replacements,
      List.Forall₂ (fun block replacement =>
          replacement.start = block.start ∧ replacement.start ≤ replacement.stop ∧
          replacement.stop ≤ text.length ∧
          Text.slice text replacement.stop block.stop =
            (Line.lastNewline (block.sources document.lines)).text ∧
          ∀ line, block.firstLine + 1 ≤ line → line ≤ block.lastLine + 1 →
            (wrapTextAt config text (.ofNat line) fixed).result = .ok (some replacement))
        (document.blocks.filter fun block => block.prose?.isSome) replacements ∧
      (wrapText config fixed text).result = .ok (Replacement.applyAll text 0 replacements)) ∧
    (∀ index < document.lines.length,
      ∃! block, block ∈ document.blocks ∧ block.firstLine ≤ index ∧ index ≤ block.lastLine) ∧
    ∀ number, (wrapTextAt config text number fixed).result = .ok none ↔
      (¬∃ index < document.lines.length, number = .ofNat (index + 1)) ∨
        ∃ index block, number = .ofNat (index + 1) ∧ block ∈ document.blocks ∧
          block.firstLine ≤ index ∧ index ≤ block.lastLine ∧ block.prose? = none := by
  intro document
  refine ⟨⟨_, (forall₂_replacements options.style document document.blocks).imp ?_, ?_⟩,
    fun index => existsUnique_block, fun number => ?_⟩
  · rintro block replacement ⟨hb, hsome⟩
    obtain ⟨prose, hprose, rfl⟩ := Option.map_eq_some_iff.mp hsome
    obtain ⟨n, hn⟩ := (tiles_ofText text).standsAt hb
    have hn : Block.StandsAt document.lines n block := hn
    obtain ⟨hle, hstop, hnewline⟩ := hn.wrapBlock_bounds options.style prose
    have hjoin : Line.join document.lines = text := Line.join_split text
    rw [hjoin] at hnewline
    have hend : block.stop ≤ text.length := by
      rw [hn.stop, ← hjoin]
      exact (Line.join_take_prefix document.lines _).length_le
    refine ⟨rfl, hle, hstop.trans hend, hnewline, fun line hfirst hlast => ?_⟩
    obtain ⟨index, rfl⟩ : ∃ index, line = index + 1 := ⟨line - 1, by omega⟩
    rw [wrapTextAt_result hoptions, lineIndex?_eq_some.mpr rfl, Option.bind_some,
      wrapAt_of_mem_blocks options.style hb (by omega) (by omega), hsome]
  · rw [wrapText_result, hoptions, ← wrap_eq_applyAll]
    rfl
  · rw [wrapTextAt_result hoptions, Except.ok.injEq, Option.bind_eq_none_iff]
    constructor
    · intro hnone
      by_cases hline : ∃ index < document.lines.length, number = .ofNat (index + 1)
      · obtain ⟨index, hlt, hnumber⟩ := hline
        obtain ⟨block, hb, hholds⟩ :=
          (wrapAt_eq_none_iff options.style hlt).mp (hnone index (lineIndex?_eq_some.mpr hnumber))
        exact .inr ⟨index, block, hnumber, hb, hholds⟩
      · exact .inl hline
    · rintro (hline | ⟨index, block, hnumber, hb, hfirst, hlast, hprose⟩) other hother
      · have hnumber := lineIndex?_eq_some.mp hother
        exact wrapAt_of_length_le _ (Nat.not_lt.mp fun hlt => hline ⟨other, hlt, hnumber⟩)
      · obtain rfl : index = other :=
          Option.some.inj ((lineIndex?_eq_some.mpr hnumber).symm.trans hother)
        rw [wrapAt_of_mem_blocks options.style hb hfirst hlast, Document.replacement?, hprose]
        rfl

/-- A paragraph of two lines and an unfinished list item, each with one
replacement; the heading before them has none. -/
theorem wrapText_agrees_with_wrapTextAt_narrow :
    let config : Config := { lineLength := .given (.number (.ofNat 5)) }
    let text : Text := "# h\r\naa bb\r\ncc dd\r\n- e f g".toList
    let paragraph : Replacement := ⟨5, 17, 2, 3, "aa bb\r\ncc dd".toList⟩
    let item : Replacement := ⟨19, 26, 4, 4, "- e f\n  g".toList⟩
    (config.accept false).result = .ok { Options.default with lineLength := .finite 5 } ∧
      (wrapTextAt config text (.ofNat 1)).result = .ok none ∧
      (wrapTextAt config text (.ofNat 3)).result = .ok (some paragraph) ∧
      (wrapText config false text).result = .ok (Replacement.applyAll text 0 [paragraph, item]) := by
  intro config text paragraph item
  have hoptions : (config.accept false).result = .ok { Options.default with lineLength := .finite 5 } := by
    decide +kernel
  obtain ⟨⟨replacements, hblocks, hwrap⟩, -, hnone⟩ :=
    wrapText_agrees_with_wrapTextAt config false _ text hoptions
  have hprose : ((Document.ofText text).blocks.filter fun block => block.prose?.isSome) =
      [⟨.prose ⟨.paragraph [], ["aa bb".toList, "cc dd".toList]⟩, 1, 2, 5, 19⟩,
        ⟨.prose ⟨.listItem [] ['-'] false [' ', ' '], ["e f g".toList]⟩, 3, 3, 19, 26⟩] := by
    decide +kernel
  rw [hprose] at hblocks
  obtain ⟨first, rest, ⟨-, -, -, -, hfirst⟩, hrest, rfl⟩ := List.forall₂_cons_left_iff.mp hblocks
  obtain ⟨second, none, ⟨-, -, -, -, hsecond⟩, hnil, rfl⟩ := List.forall₂_cons_left_iff.mp hrest
  obtain rfl := List.forall₂_nil_left_iff.mp hnil
  have hparagraph : (wrapTextAt config text (.ofNat 3)).result = .ok (some paragraph) := by decide +kernel
  have hitem : (wrapTextAt config text (.ofNat 4)).result = .ok (some item) := by decide +kernel
  obtain rfl : first = paragraph :=
    Option.some.inj (Except.ok.inj ((hfirst 3 (by decide) (by decide)).symm.trans hparagraph))
  obtain rfl : second = item :=
    Option.some.inj (Except.ok.inj ((hsecond 4 (by decide) (by decide)).symm.trans hitem))
  refine ⟨hoptions, (hnone _).mpr (.inr ⟨0, ⟨.heading 1 false, 0, 0, 0, 5⟩, rfl, ?_⟩), hparagraph, hwrap⟩
  decide +kernel

end ProseWrap
