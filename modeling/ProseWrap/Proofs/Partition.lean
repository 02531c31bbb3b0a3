import ProseWrap.Proofs.Lines
import ProseWrap.Proofs.Reading
import ProseWrap.Wrap.Document

/-!
# Blocks and the lines they stand on

The sections of an outline take the lines of a document one after the other
(`Laid`, `laid_outline`). Placed on these lines, they become blocks that tile
the document (`Tiles`, `tiles_ofText`): each block begins on the line after the
one before it and at the offset where that one stops, and the last block ends
with the document. What stands between the offsets of a block are its own lines
(`StandsAt.slice_eq`), so the blocks of a document are the document
(`flatMap_join_sources`).
-/

namespace ProseWrap

namespace Block

/-! ## Sections on lines -/

/-- The sections take the texts one after the other and all of them, reading
goes on right after each, and their prose is written on what they take. -/
def Laid : List Section → List Text → Prop
  | [], texts => texts = []
  | part :: others, texts =>
    part.extent.next = part.count ∧ part.count ≤ texts.length ∧
      (∀ prose, part.kind = .prose prose → prose.WrittenOn (texts.take part.count)) ∧
      Laid others (texts.drop part.count)

theorem Laid.append {front back : List Section} {own rest : List Text} (hf : Laid front own)
    (hb : Laid back rest) : Laid (front ++ back) (own ++ rest) := by
  induction front generalizing own with
  | nil =>
    rw [show own = [] from hf]
    exact hb
  | cons part front ih =>
    obtain ⟨hnext, hle, hw, hf⟩ := hf
    refine ⟨hnext, hle.trans (List.sublist_append_left own rest).length_le, ?_, ?_⟩
    · rw [List.take_append_of_le_length hle]
      exact hw
    · rw [List.drop_append_of_le_length hle]
      exact ih hf

theorem Laid.of_promotion {parts olds : List Section} {texts : List Text}
    (h : List.Forall₂ IsPromotion parts olds) (ho : Laid olds texts) : Laid parts texts := by
  induction h generalizing texts with
  | nil => exact ho
  | cons hp _ ih =>
    obtain ⟨hnext, hle, hw, ho⟩ := ho
    have hcount := hp.count_eq
    refine ⟨by rw [hp.1, hnext, hcount], hcount ▸ hle, fun prose h => ?_, hcount ▸ ih ho⟩
    rcases hp.2 with hkind | ⟨indent, lines, -, hkind⟩
    · rw [hcount]
      exact hw prose (hkind ▸ h)
    · rw [hkind] at h
      cases h

/-- A section that has been read lies on the line it was read from and the
lines it takes. -/
theorem Reading.Sound.laid {read : Reading} {before : List Section} {text : Text} {rest : List Text}
    (h : read.Sound before text rest) :
    Laid [⟨read.kind, read.extent⟩] (text :: rest.take read.more) := by
  have hlen : (rest.take read.more).length = read.more := List.length_take_of_le h.more_le
  refine ⟨h.next_eq, by simp [hlen], fun prose hp => ?_, ?_⟩
  · rw [List.take_of_length_le (by simp [hlen])]
    exact h.writtenOn prose hp
  · exact List.drop_eq_nil_of_le (by simp [hlen])

/-- If the sections before lie on the texts `done`, and the section read last
also takes `skip` of the texts to come, the outline lies on all of them. -/
theorem laid_outlineFrom (skip : Nat) (column : Option Nat) (before : List Section)
    (done texts : List Text) (hskip : skip ≤ texts.length)
    (hb : Laid before.reverse (done ++ texts.take skip)) :
    Laid (outlineFrom skip column before texts) (done ++ texts) := by
  fun_induction outlineFrom skip column before texts generalizing done with
  | case1 => simpa using hb
  | case2 column before text rest skip ih =>
    have := ih (done ++ [text]) (by simpa using hskip) (by simpa using hb)
    simpa using this
  | case3 column before text rest read ih =>
    have hs : read.Sound before text rest := readSection_sound column before text rest
    rw [Extent.step_eq hs.next_eq, hs.next_eq, Nat.add_sub_cancel] at ih ⊢
    have := ih (done ++ [text]) hs.more_le ?_
    · simpa using this
    · rw [List.reverse_cons]
      have hold := Laid.of_promotion (List.forall₂_reverse_iff.mpr hs.before) hb
      simpa using hold.append hs.laid

/-- The sections of a document take its lines one after the other. -/
theorem laid_outline (texts : List Text) : Laid (outline texts) texts := by
  cases texts with
  | nil => rfl
  | cons text rest =>
    unfold outline
    dsimp only
    split
    · rename_i format extent hf
      obtain ⟨hle, hnext⟩ := frontMatter?_extent hf
      rw [Extent.step_eq hnext, hnext, Nat.add_sub_cancel]
      refine laid_outlineFrom extent.last none _ [text] rest hle ?_
      exact ⟨hnext, by simp [hle], by simp, by simp [Laid]⟩
    · exact laid_outlineFrom 0 none [] [] (text :: rest) (Nat.zero_le _) rfl

/-- Passing over lines is the same as reading on after them. -/
theorem outlineFrom_skip (skip : Nat) (column : Option Nat) (before : List Section)
    (texts : List Text) :
    outlineFrom skip column before texts = outlineFrom 0 column before (texts.drop skip) := by
  induction texts generalizing skip with
  | nil => simp [outlineFrom]
  | cons text rest ih =>
    cases skip with
    | zero => rfl
    | succ skip =>
      rw [outlineFrom, List.drop_succ_cons]
      exact ih skip

/-! ## Blocks on lines -/

/-- A block stands on the lines from the one numbered `first` on, and between
the offsets at which these lines start and stop; its prose is written on
them. -/
structure StandsAt (lines : List Line) (first : Nat) (block : Block) : Prop where
  firstLine : block.firstLine = first
  le_lastLine : first ≤ block.lastLine
  lastLine_lt : block.lastLine < lines.length
  start : block.start = (Line.join (lines.take first)).length
  stop : block.stop = (Line.join (lines.take (block.lastLine + 1))).length
  writtenOn : ∀ prose, block.kind = .prose prose →
    prose.WrittenOn ((block.sources lines).map Line.text)

/-- From the line numbered `first` on, the blocks stand on the lines one after
the other. -/
def Tiles (lines : List Line) : Nat → List Block → Prop
  | first, [] => first = lines.length
  | first, block :: others => StandsAt lines first block ∧ Tiles lines (block.lastLine + 1) others

/-- Sections that take the lines after `front` become blocks that stand
there. -/
theorem tiles_place (front lines : List Line) (parts : List Section)
    (hp : Line.Placed (Line.join front).length lines) (hl : Laid parts (lines.map Line.text)) :
    Tiles (front ++ lines) front.length (place front.length lines parts) := by
  induction parts generalizing front lines with
  | nil =>
    rw [List.map_eq_nil_iff.mp hl]
    simp [place, Tiles]
  | cons part parts ih =>
    obtain ⟨hnext, hle, hw, hl⟩ := hl
    rw [List.length_map] at hle
    have hstep := Section.step_eq_count hnext
    obtain ⟨own, rest, rfl, hown⟩ : ∃ own rest, lines = own ++ rest ∧ own.length = part.count :=
      ⟨lines.take part.count, lines.drop part.count, (List.take_append_drop ..).symm,
        List.length_take_of_le hle⟩
    obtain ⟨ho, hr⟩ := hp.append
    have hne : own ≠ [] := List.ne_nil_of_length_eq_add_one hown
    have htake : (own ++ rest).take part.count = own := by rw [← hown, List.take_left]
    have hdrop : (own ++ rest).drop part.count = rest := by rw [← hown, List.drop_left]
    have hlength : own.length = part.extent.last + 1 := hown
    have hlast : front.length + part.extent.last + 1 = front.length + own.length := by omega
    rw [← List.map_take, htake] at hw
    rw [← List.map_drop, hdrop] at hl
    rw [place]
    refine ⟨⟨rfl, Nat.le_add_right _ _, by simp [hlength]; omega, ?_, ?_, fun prose h => ?_⟩, ?_⟩
    · cases own with
      | nil => exact absurd rfl hne
      | cons line own =>
        simp only [List.cons_append, List.head?_cons, Option.map_some, Option.getD_some, List.take_left]
        exact ho.1
    · have hstop : (own ++ rest)[part.extent.last]? = own.getLast? := by
        rw [List.getElem?_append_left (by omega), List.getLast?_eq_getElem?, hlength, Nat.add_sub_cancel]
      simp only [hstop]
      rw [hlast, ← List.length_append, ← List.append_assoc, List.take_left,
        List.getLast?_eq_some_getLast hne]
      simp only [Option.map_some, Option.getD_some]
      rw [ho.getLast_stop (List.getLast?_eq_some_getLast hne), Line.join_append, List.length_append]
    · simp only [sources]
      rw [hlast, List.drop_left, Nat.add_sub_cancel_left, List.take_left]
      exact hw prose h
    · simp only
      rw [hlast, hstep, hdrop, ← hown, ← List.length_append, ← List.append_assoc]
      refine ih (front ++ own) rest ?_ hl
      rwa [Line.join_append, List.length_append]

/-! ## Tilings -/

variable {lines : List Line} {first : Nat} {blocks : List Block} {block : Block}

theorem prose?_eq_some {prose : Prose} : block.prose? = some prose ↔ block.kind = .prose prose := by
  unfold prose?
  split <;> simp_all

/-- Where a block stands, the document is what comes before, the lines of the
block, and the rest. -/
theorem StandsAt.split (h : StandsAt lines first block) :
    lines = lines.take first ++ block.sources lines ++ lines.drop (block.lastLine + 1) := by
  have hle := h.le_lastLine
  conv => lhs; rw [← List.take_append_drop first lines]
  rw [sources, h.firstLine, List.append_assoc]
  congr 1
  conv => lhs; rw [← List.take_append_drop (block.lastLine + 1 - first) (lines.drop first)]
  rw [List.drop_drop, show first + (block.lastLine + 1 - first) = block.lastLine + 1 by omega]

theorem StandsAt.sources_ne_nil (h : StandsAt lines first block) : block.sources lines ≠ [] := by
  have hle := h.le_lastLine
  have hlt := h.lastLine_lt
  refine List.ne_nil_of_length_pos ?_
  rw [sources, h.firstLine, List.length_take, List.length_drop]
  omega

/-- The document up to the end of a block is what comes before and the lines of
the block. -/
theorem StandsAt.join_take (h : StandsAt lines first block) :
    Line.join (lines.take (block.lastLine + 1)) =
      Line.join (lines.take first) ++ Line.join (block.sources lines) := by
  have hle := h.le_lastLine
  rw [← Line.join_append, sources, h.firstLine, ← List.take_add,
    show first + (block.lastLine + 1 - first) = block.lastLine + 1 by omega]

/-- What stands between the offsets of a block are its lines. -/
theorem StandsAt.slice_eq (h : StandsAt lines first block) :
    Text.slice (Line.join lines) block.start block.stop = Line.join (block.sources lines) := by
  have hstop : block.stop = block.start + (Line.join (block.sources lines)).length := by
    rw [h.stop, h.start, h.join_take, List.length_append]
  conv => lhs; rw [h.split]
  rw [hstop, h.start, Line.slice_join]

/-- The lines of the blocks, one after the other, are the lines. -/
theorem Tiles.flatMap_sources (h : Tiles lines first blocks) :
    blocks.flatMap (sources lines) = lines.drop first := by
  induction blocks generalizing first with
  | nil =>
    rw [show first = lines.length from h]
    simp
  | cons block blocks ih =>
    obtain ⟨hb, h⟩ := h
    have hle := hb.le_lastLine
    rw [List.flatMap_cons, ih h, sources, hb.firstLine]
    conv => rhs; rw [← List.take_append_drop (block.lastLine + 1 - first) (lines.drop first)]
    rw [List.drop_drop, show first + (block.lastLine + 1 - first) = block.lastLine + 1 by omega]

/-- Each block of a tiling stands somewhere. -/
theorem Tiles.standsAt (h : Tiles lines first blocks) (hb : block ∈ blocks) :
    ∃ n, StandsAt lines n block := by
  induction blocks generalizing first with
  | nil => cases hb
  | cons other blocks ih =>
    rcases List.mem_cons.mp hb with rfl | hb
    · exact ⟨first, h.1⟩
    · exact ih h.2 hb

/-- A block begins on the line after the block before it, and where that one
stops. -/
theorem Tiles.next {k : Nat} {next : Block} (h : Tiles lines first blocks)
    (hk : blocks[k]? = some block) (hn : blocks[k + 1]? = some next) :
    next.firstLine = block.lastLine + 1 ∧ next.start = block.stop := by
  induction blocks generalizing first k with
  | nil => cases hk
  | cons other blocks ih =>
    obtain ⟨ho, h⟩ := h
    cases k with
    | succ k => exact ih h hk hn
    | zero =>
      cases hk
      cases blocks with
      | nil => cases hn
      | cons second blocks =>
        cases hn
        exact ⟨h.1.firstLine, h.1.start.trans ho.stop.symm⟩

/-- The last block ends with the lines. -/
theorem Tiles.last (h : Tiles lines first blocks) (hl : blocks.getLast? = some block) :
    block.lastLine + 1 = lines.length ∧ block.stop = (Line.join lines).length := by
  induction blocks generalizing first with
  | nil => cases hl
  | cons other blocks ih =>
    obtain ⟨ho, h⟩ := h
    cases blocks with
    | nil =>
      obtain rfl : other = block := by simpa using hl
      have hend : other.lastLine + 1 = lines.length := h
      exact ⟨hend, by rw [ho.stop, hend, List.take_length]⟩
    | cons second blocks => exact ih h (by simpa using hl)

end Block

/-- The blocks of a document stand on its lines one after the other. -/
theorem tiles_ofText (text : Text) :
    Block.Tiles (Line.split text) 0 (Document.ofText text).blocks :=
  Block.tiles_place [] (Line.split text) _ (Line.placed_split text) (Block.laid_outline _)

theorem slice_of_mem_blocks {text : Text} {block : Block} (hb : block ∈ (Document.ofText text).blocks) :
    Text.slice text block.start block.stop = Line.join (block.sources (Line.split text)) := by
  obtain ⟨n, hn⟩ := (tiles_ofText text).standsAt hb
  rw [← hn.slice_eq, Line.join_split]

theorem flatMap_sources (text : Text) :
    (Document.ofText text).blocks.flatMap (Block.sources (Line.split text)) = Line.split text :=
  (tiles_ofText text).flatMap_sources

/-- The lines of the blocks of a document make up the document. -/
theorem flatMap_join_sources (text : Text) :
    (Document.ofText text).blocks.flatMap (fun block => Line.join (block.sources (Line.split text))) = text :=
  calc (Document.ofText text).blocks.flatMap (fun block => Line.join (block.sources (Line.split text)))
      = Line.join ((Document.ofText text).blocks.flatMap (Block.sources (Line.split text))) := by
        rw [Line.join, List.flatMap_assoc]
        rfl
    _ = text := by rw [flatMap_sources, Line.join_split]

/-- The blocks of a document cover its lines exactly once and in order. There
are none only if the text is empty; the first begins on line 0 at offset 0,
each next one on the line after the one before it and where that one stops, and
the last ends with the last line and the text. So what stands between their
offsets is the text again. The last line of a block that is read at a line is
one of those that are there, and the line at which reading goes on comes right
after it; that reading is kept from staying where it is never changes anything.
The lines of the blocks before are left alone. -/
theorem blocks_partition_document (text : Text) :
    let document := Document.ofText text
    document.lines = Line.split text ∧
    (document.blocks = [] ↔ text = []) ∧
    (∀ block, document.blocks.head? = some block → block.firstLine = 0 ∧ block.start = 0) ∧
    (∀ k block next, document.blocks[k]? = some block → document.blocks[k + 1]? = some next →
      next.firstLine = block.lastLine + 1 ∧ next.start = block.stop) ∧
    (∀ block ∈ document.blocks, block.firstLine ≤ block.lastLine) ∧
    (∀ block, document.blocks.getLast? = some block →
      block.lastLine + 1 = document.lines.length ∧ block.stop = text.length) ∧
    document.blocks.flatMap (fun block => Text.slice text block.start block.stop) = text ∧
    (∀ line rest format extent, Block.frontMatter? line rest = some (format, extent) →
      extent.last ≤ rest.length ∧ extent.next = extent.last + 1 ∧ extent.step = extent.next ∧
      Block.outline (line :: rest) =
        Block.outlineFrom 0 none [⟨.frontMatter format, extent⟩] ((line :: rest).drop extent.next)) ∧
    ∀ column before line rest,
      let read := Block.readSection column before line rest
      read.extent.last ≤ rest.length ∧ read.extent.next = read.extent.last + 1 ∧
      read.extent.step = read.extent.next ∧
      read.before.map Section.extent = before.map Section.extent ∧
      Block.outlineFrom 0 column before (line :: rest) =
        Block.outlineFrom 0 read.column (⟨read.kind, read.extent⟩ :: read.before)
          ((line :: rest).drop read.extent.next) := by
  intro document
  have htiles : Block.Tiles (Line.split text) 0 document.blocks := tiles_ofText text
  refine ⟨rfl, ?_, fun block h => ?_, fun k block next => htiles.next, fun block hb => ?_,
    fun block h => ?_, ?_, fun line rest format extent h => ?_, fun column before line rest => ?_⟩
  · constructor
    · intro h
      rw [h] at htiles
      exact Line.split_eq_nil.mp (List.length_eq_zero_iff.mp (Eq.symm htiles))
    · rintro rfl
      rfl
  · obtain ⟨others, ho⟩ := List.head?_eq_some_iff.mp h
    rw [ho] at htiles
    exact ⟨htiles.1.firstLine, by rw [htiles.1.start]; rfl⟩
  · obtain ⟨n, hn⟩ := htiles.standsAt hb
    exact hn.firstLine ▸ hn.le_lastLine
  · have hlast := htiles.last h
    rwa [Line.join_split] at hlast
  · exact (List.flatMap_congr fun block hb => slice_of_mem_blocks hb).trans (flatMap_join_sources text)
  · obtain ⟨hle, hnext⟩ := Block.frontMatter?_extent h
    refine ⟨hle, hnext, Extent.step_eq hnext, ?_⟩
    rw [Block.outline, h, hnext, List.drop_succ_cons, ← Block.outlineFrom_skip]
    simp only [Extent.step_eq hnext, hnext, Nat.add_sub_cancel]
  · have hs := Block.readSection_sound column before line rest
    refine ⟨hs.more_le, hs.next_eq, Extent.step_eq hs.next_eq, hs.map_extent, ?_⟩
    rw [Block.outlineFrom_zero_cons, Block.outlineFrom_skip, hs.next_eq, List.drop_succ_cons]

end ProseWrap
