import ProseWrap.Lint.Rule
import ProseWrap.Proofs.Structure

/-!
# Mending paragraphs

The rule mends the paragraphs of its findings one after the other, from the
last one to the first, and reads the text anew each time. What it is meant to
do is simpler: lay out the prose that has findings where it stands, and keep
everything else (`mended`).

The two agree as long as reading anew brings up the same prose (`KeepsPlaces`).
Each time the text is then one in which the blocks from some line on are mended
and those before stand as they did (`mendedFrom`).

Reading anew can fail to do so because a block is read with the lines after it.
A line that comes into being when prose is laid out can close front matter with
the first line of the text. What was prose between the two is none any more,
and stays as it stood although it has findings.
-/

namespace ProseWrap

/-- Lines end with the newline after the last one. -/
theorem Line.exists_join_eq_append {lines : List Line} (hne : lines ≠ []) :
    ∃ body, join lines = body ++ (lastNewline lines).text := by
  obtain ⟨front, last, rfl⟩ := (List.eq_nil_or_concat lines).resolve_left hne
  refine ⟨join front ++ last.text, ?_⟩
  simp [lastNewline, join_append, source]

theorem Document.wrapBlock_firstLine (style : Style) (document : Document) (block : Block) (prose : Prose) :
    (document.wrapBlock style block prose).firstLine = block.firstLine + 1 := rfl

namespace Block

variable {lines : List Line} {first : Nat} {blocks front back : List Block} {block : Block}

/-! ## Blocks and line numbers -/

theorem Tiles.le_firstLine (h : Tiles lines first blocks) (hb : block ∈ blocks) : first ≤ block.firstLine := by
  induction blocks generalizing first with
  | nil => cases hb
  | cons other blocks ih =>
    have hfirst := h.1.firstLine
    have hlast := h.1.le_lastLine
    rcases List.mem_cons.mp hb with rfl | hb
    · omega
    · have hle := ih h.2 hb
      omega

/-- Blocks stand before the line where the blocks after them begin. -/
theorem Tiles.lastLine_lt_of_append {next : Nat} (h : Tiles lines first (front ++ back))
    (hback : Tiles lines next back) : first ≤ next ∧ ∀ block ∈ front, block.lastLine < next := by
  induction front generalizing first with
  | nil =>
    refine ⟨?_, by simp⟩
    cases back with
    | nil => exact (Eq.trans h (Eq.symm hback)).le
    | cons block back => exact (h.1.firstLine.symm.trans hback.1.firstLine).le
  | cons block front ih =>
    obtain ⟨hle, hfront⟩ := ih h.2
    have hlast := h.1.le_lastLine
    exact ⟨by omega, List.forall_mem_cons.mpr ⟨hle, hfront⟩⟩

theorem Tiles.exists_of_append (h : Tiles lines first (front ++ back)) : ∃ next, Tiles lines next back := by
  induction front generalizing first with
  | nil => exact ⟨first, h⟩
  | cons block front ih => exact ih h.2

/-- A block is found by each of its lines. -/
theorem Tiles.find?_eq (h : Tiles lines first blocks) (hb : block ∈ blocks) {index : Nat}
    (hfirst : block.firstLine ≤ index) (hlast : index ≤ block.lastLine) :
    blocks.find? (fun block => block.firstLine ≤ index && index ≤ block.lastLine) = some block := by
  induction blocks generalizing first with
  | nil => cases hb
  | cons other blocks ih =>
    rcases List.mem_cons.mp hb with rfl | hb
    · exact List.find?_cons_of_pos (by simp [hfirst, hlast])
    · have hle := h.2.le_firstLine hb
      rw [List.find?_cons_of_neg (by simp; omega)]
      exact ih h.2 hb

theorem StandsAt.length_sources (h : StandsAt lines first block) :
    (block.sources lines).length = block.lastLine + 1 - block.firstLine := by
  have hlt := h.lastLine_lt
  have hle := h.le_lastLine
  rw [sources, List.length_take, List.length_drop]
  omega

/-! ## Blocks in the midst of other lines -/

/-- Before other lines a block stands on the same lines as before, if they end
with a newline or nothing follows. -/
theorem StandsAt.sources_split (h : StandsAt lines first block) (hl : Line.Unbroken lines)
    (hp : Line.Placed 0 lines) {tail : Text} (htail : block.lastLine + 1 = lines.length → tail = []) :
    block.sources (Line.split (Line.join (lines.take (block.lastLine + 1)) ++ tail)) = block.sources lines := by
  have hlt := h.lastLine_lt
  have hle := h.firstLine ▸ h.le_lastLine
  rw [← List.take_append_drop (block.lastLine + 1) lines] at hl hp
  obtain ⟨hown, -, hlast⟩ := hl.append
  have hend : tail = [] ∨
      ∀ last, (lines.take (block.lastLine + 1)).getLast? = some last → last.newline ≠ .none := by
    by_cases heq : block.lastLine + 1 = lines.length
    · exact .inl (htail heq)
    · refine .inr (hlast ?_)
      rw [ne_eq, List.drop_eq_nil_iff]
      omega
  rw [Line.split, hown.splitFrom_join hp.append.1 tail hend, sources, sources,
    List.drop_append_of_le_length (by rw [List.length_take]; omega),
    List.take_append_of_le_length (by rw [List.length_drop, List.length_take]; omega), List.drop_take,
    List.take_take, Nat.min_self]

/-- Laying a block out in place puts what is written for it in the place of its
lines. -/
theorem StandsAt.apply_wrapBlock (h : StandsAt lines first block) {style : Style} {prose : Prose}
    (hprose : block.prose? = some prose) {document : Document}
    (hsources : block.sources document.lines = block.sources lines) (tail : Text) :
    (document.wrapBlock style block prose).apply (Line.join (lines.take (block.lastLine + 1)) ++ tail) =
      Line.join (lines.take first) ++ (block.wrapped style lines ++ tail) := by
  obtain ⟨body, hbody⟩ := Line.exists_join_eq_append h.sources_ne_nil
  have htext : Line.join (lines.take (block.lastLine + 1)) ++ tail =
      Line.join (lines.take first) ++ body ++ ((Line.lastNewline (block.sources lines)).text ++ tail) := by
    rw [h.join_take, hbody]
    simp only [List.append_assoc]
  have hstop : block.stop - (Line.lastNewline (block.sources lines)).text.length =
      (Line.join (lines.take first) ++ body).length := by
    rw [h.stop, h.join_take, hbody]
    simp only [List.length_append]
    omega
  simp only [Document.wrapBlock, Replacement.apply, hsources, Prose.render, wrapped, hprose, Rendering.source]
  rw [htext, hstop, h.start, List.drop_left]
  simp only [List.append_assoc, List.take_left]

end Block

/-- On a line of a block stands the prose of the block. -/
theorem proseAt?_of_mem_blocks {text : Text} {block : Block} (hb : block ∈ (Document.ofText text).blocks)
    {index : Nat} (hfirst : block.firstLine ≤ index) (hlast : index ≤ block.lastLine) :
    (Document.ofText text).proseAt? index = block.prose?.map (block, ·) := by
  have htiles := tiles_ofText text
  obtain ⟨n, hn⟩ := htiles.standsAt hb
  have hlt : index < (Document.ofText text).lines.length := Nat.lt_of_le_of_lt hlast hn.lastLine_lt
  rw [Document.proseAt?, Document.blockAt?, if_pos hlt, htiles.find?_eq hb hfirst hlast]
  simp only [Option.bind_eq_bind, Option.bind_some]
  cases block.prose? <;> rfl

namespace Lint

/-! ## What mending is meant to do -/

/-- The findings on the lines of a block. -/
def findingsOn (findings : List Finding) (block : Block) : List Finding :=
  findings.filter fun finding => block.firstLine < finding.line && finding.line ≤ block.lastLine + 1

theorem findingsOn_append (earlier later : List Finding) (block : Block) :
    findingsOn (earlier ++ later) block = findingsOn earlier block ++ findingsOn later block :=
  List.filter_append ..

theorem findingsOn_eq_nil {findings : List Finding} {block : Block}
    (h : ∀ finding ∈ findings, finding.line ≤ block.firstLine ∨ block.lastLine + 1 < finding.line) :
    findingsOn findings block = [] := by
  refine List.filter_eq_nil_iff.mpr fun finding hf => ?_
  have hline := h finding hf
  simp only [Bool.and_eq_true, decide_eq_true_eq, not_and]
  omega

theorem mem_findingsOn {findings : List Finding} {block : Block} {finding : Finding} :
    finding ∈ findingsOn findings block ↔
      finding ∈ findings ∧ block.firstLine < finding.line ∧ finding.line ≤ block.lastLine + 1 := by
  simp [findingsOn]

/-- A block after mending: laid out if it is prose and has findings, and as it
stood otherwise. -/
def mended (style : Style) (findings : List Finding) (lines : List Line) (block : Block) : Text :=
  if findingsOn findings block = [] then Line.join (block.sources lines) else block.wrapped style lines

/-- The text in which the blocks from a line on are mended. -/
def mendedFrom (style : Style) (findings : List Finding) (document : Document) (first : Nat) : Text :=
  document.blocks.flatMap fun block =>
    if first ≤ block.firstLine then mended style findings document.lines block
    else Line.join (block.sources document.lines)

/-- A block is found again by its findings. When all blocks after it are
mended, its last finding leads to the prose that stood there; when the block is
mended too, its other findings lead to prose that begins on the same line, or
to none. -/
def KeepsPlace (style : Style) (findings : List Finding) (document : Document) (block : Block) : Prop :=
  (∀ finding ∈ (findingsOn findings block).getLast?,
    (Document.ofText (mendedFrom style findings document (block.lastLine + 1))).proseAt? (finding.line - 1) =
      document.proseAt? (finding.line - 1)) ∧
  ∀ finding ∈ (findingsOn findings block).dropLast,
    ∀ found ∈ (Document.ofText (mendedFrom style findings document block.firstLine)).proseAt? (finding.line - 1),
      ∃ own ∈ document.proseAt? (finding.line - 1), found.1.firstLine = own.1.firstLine

instance (style : Style) (findings : List Finding) (document : Document) (block : Block) :
    Decidable (KeepsPlace style findings document block) :=
  inferInstanceAs (Decidable (_ ∧ _))

/-- While mending goes from the last block to the first, each block is found
again by its findings. -/
def KeepsPlaces (style : Style) (findings : List Finding) (document : Document) : Prop :=
  ∀ block ∈ document.blocks, KeepsPlace style findings document block

instance (style : Style) (findings : List Finding) (document : Document) :
    Decidable (KeepsPlaces style findings document) :=
  inferInstanceAs (Decidable (∀ block ∈ document.blocks, _))

/-- None of the findings of a block leads to prose any more, once all blocks
after it are mended. -/
def LosesPlace (style : Style) (findings : List Finding) (document : Document) (block : Block) : Prop :=
  ∀ finding ∈ findingsOn findings block,
    (Document.ofText (mendedFrom style findings document (block.lastLine + 1))).proseAt? (finding.line - 1) = none

instance (style : Style) (findings : List Finding) (document : Document) (block : Block) :
    Decidable (LosesPlace style findings document block) :=
  inferInstanceAs (Decidable (∀ finding ∈ findingsOn findings block, _))

/-! ## One step -/

variable {mending : Mending} {finding : Finding}

/-- A finding that leads to no prose changes nothing, and so does one that
leads to prose which is done. -/
theorem Mending.step_of_done (style : Style)
    (h : ∀ found ∈ (Document.ofText mending.text).proseAt? (finding.line - 1),
      found.1.firstLine + 1 ∈ mending.done) :
    (mending.step style finding).text = mending.text ∧ (mending.step style finding).done = mending.done := by
  unfold Mending.step Document.wrapAt
  dsimp only
  cases hfound : (Document.ofText mending.text).proseAt? (finding.line - 1) with
  | none => exact ⟨rfl, rfl⟩
  | some found =>
    rw [Option.map_some]
    dsimp only
    rw [Document.wrapBlock_firstLine, if_pos (List.contains_iff_mem.mpr (h found hfound))]
    exact ⟨rfl, rfl⟩

/-- A finding that leads to prose lays it out. -/
theorem Mending.step_of_found (style : Style) {block : Block} {prose : Prose}
    (h : (Document.ofText mending.text).proseAt? (finding.line - 1) = some (block, prose))
    (hdone : block.firstLine + 1 ∉ mending.done) :
    (mending.step style finding).text =
        ((Document.ofText mending.text).wrapBlock style block prose).apply mending.text ∧
      (mending.step style finding).done = (block.firstLine + 1) :: mending.done := by
  unfold Mending.step Document.wrapAt
  dsimp only
  rw [h, Option.map_some]
  dsimp only
  rw [Document.wrapBlock_firstLine, if_neg (mt List.contains_iff_mem.mp hdone)]
  exact ⟨rfl, rfl⟩

/-- Findings that all lead to none, or to what is done, change nothing. -/
theorem Mending.foldl_step_of_done (style : Style) {mending : Mending} {findings : List Finding}
    (h : ∀ finding ∈ findings, ∀ found ∈ (Document.ofText mending.text).proseAt? (finding.line - 1),
      found.1.firstLine + 1 ∈ mending.done) :
    (findings.foldl (Mending.step style) mending).text = mending.text ∧
      (findings.foldl (Mending.step style) mending).done = mending.done := by
  induction findings generalizing mending with
  | nil => exact ⟨rfl, rfl⟩
  | cons finding findings ih =>
    obtain ⟨hfinding, hrest⟩ := List.forall_mem_cons.mp h
    obtain ⟨htext, hdone⟩ := Mending.step_of_done style hfinding
    have hstep := @ih (mending.step style finding) (by rwa [htext, hdone])
    rwa [htext, hdone] at hstep

/-! ## One block -/

section

variable {style : Style} {text : Text} {findings : List Finding} {front back : List Block} {block : Block}
  {first : Nat}

/-- The text in which the last blocks are mended is the lines before them and
what is written for them. -/
theorem mendedFrom_eq (style : Style) (findings : List Finding)
    (hblocks : (Document.ofText text).blocks = front ++ back) (hback : Block.Tiles (Line.split text) first back) :
    mendedFrom style findings (Document.ofText text) first =
      Line.join ((Line.split text).take first) ++ back.flatMap (mended style findings (Line.split text)) := by
  have htiles := tiles_ofText text
  rw [hblocks] at htiles
  obtain ⟨-, hbefore⟩ := htiles.lastLine_lt_of_append hback
  have hlines : front.flatMap (Block.sources (Line.split text)) = (Line.split text).take first := by
    have hall := htiles.flatMap_sources
    rw [List.flatMap_append, hback.flatMap_sources, List.drop_zero] at hall
    exact List.append_cancel_right (hall.trans (List.take_append_drop ..).symm)
  rw [mendedFrom, hblocks, List.flatMap_append]
  congr 1
  · rw [← hlines, Line.join, List.flatMap_assoc]
    refine List.flatMap_congr fun block hb => if_neg ?_
    obtain ⟨n, hn⟩ := (tiles_ofText text).standsAt (hblocks ▸ List.mem_append_left back hb)
    have hlast := hbefore block hb
    have hle := hn.firstLine ▸ hn.le_lastLine
    omega
  · exact List.flatMap_congr fun block hb => if_pos (hback.le_firstLine hb)

/-- On the lines of the findings of a block stands the prose of the block. -/
theorem proseAt?_of_mem_findingsOn (hb : block ∈ (Document.ofText text).blocks)
    (hfinding : finding ∈ findingsOn findings block) :
    (Document.ofText text).proseAt? (finding.line - 1) = block.prose?.map (block, ·) := by
  obtain ⟨-, hfirst, hlast⟩ := mem_findingsOn.mp hfinding
  exact proseAt?_of_mem_blocks hb (by omega) (by omega)

/-- A block that is not laid out is the same before and after mending. -/
theorem mendedFrom_of_kept (hblocks : (Document.ofText text).blocks = front ++ block :: back)
    (htiles : Block.Tiles (Line.split text) first (block :: back))
    (hkept : mended style findings (Line.split text) block = Line.join (block.sources (Line.split text))) :
    mendedFrom style findings (Document.ofText text) first =
      mendedFrom style findings (Document.ofText text) (block.lastLine + 1) := by
  have hblocks' : (Document.ofText text).blocks = (front ++ [block]) ++ back := by simp [hblocks]
  rw [mendedFrom_eq style findings hblocks htiles, mendedFrom_eq style findings hblocks' htiles.2,
    htiles.1.join_take, List.flatMap_cons, hkept, List.append_assoc]

/-- Laying out the prose of a block, after which all is mended, mends the
block. -/
theorem apply_mendedFrom (hblocks : (Document.ofText text).blocks = front ++ block :: back)
    (htiles : Block.Tiles (Line.split text) first (block :: back)) {prose : Prose}
    (hprose : block.prose? = some prose) (hfindings : findingsOn findings block ≠ []) :
    let later := mendedFrom style findings (Document.ofText text) (block.lastLine + 1)
    ((Document.ofText later).wrapBlock style block prose).apply later =
      mendedFrom style findings (Document.ofText text) first := by
  intro later
  have hblocks' : (Document.ofText text).blocks = (front ++ [block]) ++ back := by simp [hblocks]
  have hlater : later = Line.join ((Line.split text).take (block.lastLine + 1)) ++
      back.flatMap (mended style findings (Line.split text)) := mendedFrom_eq style findings hblocks' htiles.2
  have hsources : block.sources (Document.ofText later).lines = block.sources (Line.split text) := by
    rw [hlater]
    refine htiles.1.sources_split (Line.unbroken_split text) (Line.placed_split text) fun hend => ?_
    cases back with
    | nil => rfl
    | cons next back => exact absurd hend (Nat.ne_of_lt (htiles.2.1.le_lastLine.trans_lt htiles.2.1.lastLine_lt))
  have hwritten : mended style findings (Line.split text) block = block.wrapped style (Line.split text) :=
    if_neg hfindings
  rw [mendedFrom_eq style findings hblocks htiles, List.flatMap_cons, hwritten,
    ← htiles.1.apply_wrapBlock hprose hsources, ← hlater]

/-- When all blocks after a block are mended, a finding that leads to the block
mends it. -/
theorem step_of_block (hblocks : (Document.ofText text).blocks = front ++ block :: back)
    (htiles : Block.Tiles (Line.split text) first (block :: back)) (hfindings : findingsOn findings block ≠ [])
    (htext : mending.text = mendedFrom style findings (Document.ofText text) (block.lastLine + 1))
    (hdone : ∀ line ∈ mending.done, block.lastLine + 1 < line)
    (hfound : (Document.ofText mending.text).proseAt? (finding.line - 1) = block.prose?.map (block, ·)) :
    (mending.step style finding).text = mendedFrom style findings (Document.ofText text) first ∧
      (∀ line ∈ (mending.step style finding).done, first < line) ∧
      (block.prose?.isSome → block.firstLine + 1 ∈ (mending.step style finding).done) := by
  have hfirst := htiles.1.firstLine
  have hle := htiles.1.le_lastLine
  cases hprose : block.prose? with
  | none =>
    rw [hprose, Option.map_none] at hfound
    obtain ⟨hsame, hdone'⟩ := Mending.step_of_done style (by rw [hfound]; simp)
    have hkept : mended style findings (Line.split text) block = Line.join (block.sources (Line.split text)) := by
      rw [mended, if_neg hfindings, Block.wrapped, hprose]
    rw [hsame, hdone', htext, mendedFrom_of_kept hblocks htiles hkept]
    exact ⟨rfl, fun line hline => by have := hdone line hline; omega, by simp⟩
  | some prose =>
    rw [hprose, Option.map_some] at hfound
    obtain ⟨hmended, hdone'⟩ := Mending.step_of_found style hfound fun hmem => by
      have := hdone _ hmem
      omega
    rw [hmended, hdone', htext, apply_mendedFrom hblocks htiles hprose hfindings]
    refine ⟨rfl, List.forall_mem_cons.mpr ⟨by omega, fun line hline => ?_⟩, fun _ => List.mem_cons_self⟩
    have := hdone line hline
    omega

/-- When all blocks after a block are mended, its findings mend it. -/
theorem foldl_step_findingsOn (hkeeps : KeepsPlace style findings (Document.ofText text) block)
    (hblocks : (Document.ofText text).blocks = front ++ block :: back)
    (htiles : Block.Tiles (Line.split text) first (block :: back))
    (htext : mending.text = mendedFrom style findings (Document.ofText text) (block.lastLine + 1))
    (hdone : ∀ line ∈ mending.done, block.lastLine + 1 < line) :
    let after := (findingsOn findings block).reverse.foldl (Mending.step style) mending
    after.text = mendedFrom style findings (Document.ofText text) first ∧ ∀ line ∈ after.done, first < line := by
  have hfirst := htiles.1.firstLine
  have hle := htiles.1.le_lastLine
  have hmem : block ∈ (Document.ofText text).blocks := by simp [hblocks]
  have hprose (finding : Finding) (hfinding : finding ∈ findingsOn findings block) :=
    proseAt?_of_mem_findingsOn hmem hfinding
  obtain ⟨hlast, hearlier⟩ := hkeeps
  rcases List.eq_nil_or_concat (findingsOn findings block) with hnil | ⟨earlier, last, hconcat⟩
  · rw [hnil, mendedFrom_of_kept hblocks htiles (if_pos hnil)]
    exact ⟨htext, fun line hline => by have := hdone line hline; omega⟩
  · rw [List.concat_eq_append] at hconcat
    have hne : findingsOn findings block ≠ [] := by simp [hconcat]
    rw [hconcat] at hlast hearlier hprose ⊢
    rw [List.getLast?_concat] at hlast
    rw [List.dropLast_concat, hfirst] at hearlier
    have hfound := (hlast last rfl).trans (hprose last (by simp))
    rw [← htext] at hfound
    obtain ⟨htext', hdone', hmine⟩ := step_of_block hblocks htiles hne htext hdone hfound
    -- The other findings lead to the block that was just mended, or to
    -- nothing.
    have hrest : ∀ finding ∈ earlier.reverse,
        ∀ found ∈ (Document.ofText (mending.step style last).text).proseAt? (finding.line - 1),
          found.1.firstLine + 1 ∈ (mending.step style last).done := by
      intro finding hf found hfound
      rw [htext'] at hfound
      have hf := List.mem_reverse.mp hf
      obtain ⟨own, hown, hline⟩ := hearlier finding hf found hfound
      rw [hprose finding (List.mem_append_left _ hf)] at hown
      obtain ⟨prose, hsome, rfl⟩ := Option.map_eq_some_iff.mp hown
      rw [hline]
      exact hmine (by rw [hsome]; rfl)
    rw [List.reverse_append, List.reverse_singleton, List.singleton_append, List.foldl_cons]
    obtain ⟨htext'', hdone''⟩ := Mending.foldl_step_of_done style hrest
    dsimp only
    rw [htext'', hdone'']
    exact ⟨htext', hdone'⟩

/-- Going through the findings of the last blocks mends these blocks. -/
theorem foldl_step_blocks (hkeeps : ∀ block ∈ back, KeepsPlace style findings (Document.ofText text) block)
    (hblocks : (Document.ofText text).blocks = front ++ back) (hback : Block.Tiles (Line.split text) first back) :
    let after := (back.flatMap (findingsOn findings)).reverse.foldl (Mending.step style) ⟨text, [], []⟩
    after.text = mendedFrom style findings (Document.ofText text) first ∧ ∀ line ∈ after.done, first < line := by
  induction back generalizing front first with
  | nil =>
    have hend : first = (Line.split text).length := hback
    rw [mendedFrom_eq style findings hblocks hback, hend, List.take_length, Line.join_split]
    simp
  | cons block back ih =>
    obtain ⟨hplace, hkeeps⟩ := List.forall_mem_cons.mp hkeeps
    obtain ⟨htext, hdone⟩ := ih hkeeps (by simpa using hblocks : _ = (front ++ [block]) ++ back) hback.2
    rw [List.flatMap_cons, List.reverse_append, List.foldl_append]
    exact foldl_step_findingsOn hplace hblocks hback htext hdone

/-- A block that has lost its place stays as it stood. -/
theorem foldl_step_of_losesPlace (hkeeps : ∀ later ∈ back, KeepsPlace style findings (Document.ofText text) later)
    (hloses : LosesPlace style findings (Document.ofText text) block)
    (hblocks : (Document.ofText text).blocks = front ++ block :: back)
    (htiles : Block.Tiles (Line.split text) first (block :: back)) :
    (((block :: back).flatMap (findingsOn findings)).reverse.foldl (Mending.step style) ⟨text, [], []⟩).text =
      mendedFrom style findings (Document.ofText text) (block.lastLine + 1) := by
  obtain ⟨htext, -⟩ := foldl_step_blocks hkeeps (by simpa using hblocks : _ = (front ++ [block]) ++ back) htiles.2
  rw [List.flatMap_cons, List.reverse_append, List.foldl_append, ← htext]
  refine (Mending.foldl_step_of_done style fun finding hfinding found hfound => ?_).1
  rw [htext, hloses finding (List.mem_reverse.mp hfinding)] at hfound
  cases hfound

end

/-! ## The findings of a rule -/

/-- What the rule finds in a block. -/
def Rule.findingsIn (rule : Rule) (lines : List Line) (block : Block) : List Finding :=
  if rule.checks block.kind then
    ((block.sources lines).zipIdx block.firstLine).filterMap fun entry => rule.finding? entry.2 entry.1.text
  else []

theorem Rule.findings_eq (rule : Rule) (document : Document) :
    rule.findings document = document.blocks.flatMap (rule.findingsIn document.lines) := by
  unfold Rule.findings Rule.findingsIn
  induction document.blocks with
  | nil => rfl
  | cons block blocks ih =>
    rw [List.flatMap_cons, ← ih, List.filter_cons]
    split <;> rfl

/-- What the rule finds in a block is on the lines of the block. -/
theorem Rule.line_of_mem_findingsIn {rule : Rule} {lines : List Line} {first : Nat} {block : Block}
    (h : Block.StandsAt lines first block) {finding : Finding} (hf : finding ∈ rule.findingsIn lines block) :
    block.firstLine < finding.line ∧ finding.line ≤ block.lastLine + 1 := by
  unfold Rule.findingsIn at hf
  split at hf
  · obtain ⟨⟨line, index⟩, hentry, hfinding⟩ := List.mem_filterMap.mp hf
    have hline : finding.line = index + 1 := by
      unfold Rule.finding? at hfinding
      dsimp only at hfinding
      split at hfinding
      · cases hfinding
      · split at hfinding <;> cases hfinding
        rfl
    have hle := List.le_snd_of_mem_zipIdx hentry
    have hlt := List.snd_lt_add_of_mem_zipIdx hentry
    rw [h.length_sources] at hlt
    dsimp only at hle hlt
    omega
  · cases hf

/-- If each block has findings on its own lines, these are the findings on its
lines. -/
theorem findingsOn_flatMap {lines : List Line} {first : Nat} {blocks : List Block}
    (h : Block.Tiles lines first blocks) {own : Block → List Finding}
    (hown : ∀ block ∈ blocks, ∀ finding ∈ own block,
      block.firstLine < finding.line ∧ finding.line ≤ block.lastLine + 1) :
    ∀ block ∈ blocks, findingsOn (blocks.flatMap own) block = own block := by
  induction blocks generalizing first with
  | nil => simp
  | cons block blocks ih =>
    obtain ⟨hfirst, hrest⟩ := List.forall_mem_cons.mp hown
    have hmine : findingsOn (own block) block = own block :=
      List.filter_eq_self.mpr fun finding hf => by simpa using hfirst finding hf
    have hlater : findingsOn (blocks.flatMap own) block = [] := findingsOn_eq_nil fun finding hf => by
      obtain ⟨other, ho, hf⟩ := List.mem_flatMap.mp hf
      have hle := h.2.le_firstLine ho
      have hline := hrest other ho finding hf
      omega
    refine List.forall_mem_cons.mpr ⟨?_, fun other ho => ?_⟩
    · rw [List.flatMap_cons, findingsOn_append, hmine, hlater, List.append_nil]
    · have hearlier : findingsOn (own block) other = [] := findingsOn_eq_nil fun finding hf => by
        have hle := h.2.le_firstLine ho
        have hline := hfirst finding hf
        omega
      rw [List.flatMap_cons, findingsOn_append, hearlier, List.nil_append]
      exact ih h.2 hrest other ho

theorem Rule.check_result (rule : Rule) (text : Text) :
    (rule.check text).result = .ok (if rule.limit = 0 then [] else rule.findings (Document.ofText text)) := by
  unfold Rule.check
  split <;> rfl

/-- The findings of a rule are those on the lines of each block, one after the
other. -/
theorem Rule.flatMap_findingsOn {rule : Rule} {text : Text} {findings : List Finding}
    (hcheck : (rule.check text).result = .ok findings) :
    (Document.ofText text).blocks.flatMap (findingsOn findings) = findings := by
  obtain rfl := Except.ok.inj ((rule.check_result text).symm.trans hcheck)
  split
  · exact List.flatMap_eq_nil_iff.mpr fun _ _ => rfl
  · rw [rule.findings_eq]
    refine List.flatMap_congr (findingsOn_flatMap (tiles_ofText text) fun block hb finding hf => ?_)
    obtain ⟨n, hn⟩ := (tiles_ofText text).standsAt hb
    exact Rule.line_of_mem_findingsIn hn hf

/-- The style in which the rule lays out the paragraphs of its findings: each
line on its own. -/
def Rule.mendingStyle (rule : Rule) : Style := { rule.options with preserveBreaks := true }.style

theorem Rule.mend_eq {rule : Rule} {text : Text} (hmends : rule.mends = true) (hparagraphs : rule.paragraphs = true)
    (hmode : rule.mendMode = some .paragraphs) :
    rule.mend text = (rule.mendParagraphs text).bind fun mended => Report.pure (some mended) := by
  rw [Rule.mend, hmends, hparagraphs, hmode]
  rfl

theorem Rule.mend_result {rule : Rule} {text : Text} {findings : List Finding} (hmends : rule.mends = true)
    (hparagraphs : rule.paragraphs = true) (hmode : rule.mendMode = some .paragraphs)
    (hmeasures : rule.options.lengthMode.isSome = true) (hcheck : (rule.check text).result = .ok findings) :
    (rule.mend text).result =
      .ok (some (findings.reverse.foldl (Mending.step rule.mendingStyle) ⟨text, [], []⟩).text) := by
  have hparts : (rule.mendParagraphs text).result =
      .ok (findings.reverse.foldl (Mending.step rule.mendingStyle) ⟨text, [], []⟩).text := by
    refine (Report.result_bind hcheck _).trans ?_
    cases findings with
    | nil => rfl
    | cons finding findings =>
      simp only [Rule.mendFindings, Rule.rewrapping, hmeasures, if_true]
      rfl
  rw [Rule.mend_eq hmends hparagraphs hmode, Report.result_bind hparts]
  rfl

theorem length_takeWhile_lt_iff {α : Type} {p : α → Bool} {l : List α} :
    (l.takeWhile p).length < l.length ↔ ∃ x ∈ l, p x = false := by
  induction l with
  | nil => simp
  | cons x l ih => cases h : p x <;> simp [h, ih]

/-- Without options to wrap with, the first finding in prose ends in a
fault. -/
theorem Rule.failFindings_result (fault : Fault) (text : Text) (findings : List Finding) :
    (Rule.failFindings fault text findings).result =
      if ∃ finding ∈ findings, ((Document.ofText text).proseAt? (finding.line - 1)).isSome then .error fault
      else .ok text := by
  have hmissed : (findings.reverse.takeWhile fun finding =>
      ((Document.ofText text).proseAt? (finding.line - 1)).isNone).length < findings.length ↔
      ∃ finding ∈ findings, ((Document.ofText text).proseAt? (finding.line - 1)).isSome := by
    have hlength := length_takeWhile_lt_iff (l := findings.reverse)
      (p := fun finding => ((Document.ofText text).proseAt? (finding.line - 1)).isNone)
    rw [List.length_reverse] at hlength
    simpa using hlength
  unfold Rule.failFindings
  simp only [hmissed]
  split <;> rfl

/-- Without a length mode nothing can be laid out: mending fails as soon as a
finding is in prose, and changes nothing otherwise. -/
theorem Rule.mend_result_of_stray {rule : Rule} {text : Text} {findings : List Finding} (hmends : rule.mends = true)
    (hparagraphs : rule.paragraphs = true) (hmode : rule.mendMode = some .paragraphs)
    (hstray : rule.options.lengthMode = none) (hcheck : (rule.check text).result = .ok findings) :
    (rule.mend text).result =
      if ∃ finding ∈ findings, ((Document.ofText text).proseAt? (finding.line - 1)).isSome then
        .error .namelessMode
      else .ok (some text) := by
  have hparts : (rule.mendParagraphs text).result =
      if ∃ finding ∈ findings, ((Document.ofText text).proseAt? (finding.line - 1)).isSome then
        .error .namelessMode
      else .ok text := by
    refine (Report.result_bind hcheck _).trans ?_
    cases findings with
    | nil => rfl
    | cons finding findings =>
      rw [← Rule.failFindings_result]
      simp only [Rule.mendFindings, Rule.rewrapping, hstray]
      rfl
  rw [Rule.mend_eq hmends hparagraphs hmode, Report.bind]
  split at hparts
  · rw [hparts, if_pos ‹_›]
  · rw [hparts, if_neg ‹_›]
    rfl

/-! ## Texts -/

/-- A text stays as it is if no block from a line on has findings. -/
theorem mendedFrom_eq_self (style : Style) {findings : List Finding} {text : Text} {first : Nat}
    (h : ∀ block ∈ (Document.ofText text).blocks, first ≤ block.firstLine → findingsOn findings block = []) :
    mendedFrom style findings (Document.ofText text) first = text := by
  refine Eq.trans (List.flatMap_congr fun block hb => ?_) (flatMap_join_sources text)
  split
  · rename_i hle
    exact if_pos (h block hb hle)
  · rfl

/-- A single finding is where it was, for nothing is mended before it. -/
theorem keepsPlaces_of_length_le_one (style : Style) {findings : List Finding} (text : Text)
    (h : findings.length ≤ 1) : KeepsPlaces style findings (Document.ofText text) := by
  intro block hb
  have hlength : (findingsOn findings block).length ≤ 1 := (List.length_filter_le ..).trans h
  refine ⟨fun finding hfinding => ?_, fun finding hfinding => ?_⟩
  · obtain ⟨hmem, -, hlast⟩ := mem_findingsOn.mp (List.mem_of_getLast? hfinding)
    obtain ⟨only, rfl⟩ := List.length_eq_one_iff.mp (Nat.le_antisymm h (List.length_pos_of_mem hmem))
    obtain rfl := List.mem_singleton.mp hmem
    have hlater : ∀ later ∈ (Document.ofText text).blocks, block.lastLine + 1 ≤ later.firstLine →
        findingsOn [finding] later = [] := fun later _ hle =>
      findingsOn_eq_nil (List.forall_mem_singleton.mpr (.inl (hlast.trans hle)))
    rw [mendedFrom_eq_self style hlater]
  · have hnil : (findingsOn findings block).dropLast = [] :=
      List.length_eq_zero_iff.mp (by rw [List.length_dropLast]; omega)
    rw [hnil] at hfinding
    cases hfinding

/-- If each block is found again, going through the findings of a rule lays out
the prose that has any. -/
theorem foldl_step_of_keepsPlaces {rule : Rule} {text : Text} {findings : List Finding}
    (hcheck : (rule.check text).result = .ok findings)
    (hkeeps : KeepsPlaces style findings (Document.ofText text)) :
    (findings.reverse.foldl (Mending.step style) ⟨text, [], []⟩).text =
      (Document.ofText text).blocks.flatMap fun block =>
        if findingsOn findings block = [] then Text.slice text block.start block.stop
        else block.wrapped style (Document.ofText text).lines := by
  obtain ⟨htext, -⟩ := foldl_step_blocks hkeeps (List.nil_append _).symm (tiles_ofText text)
  rw [Rule.flatMap_findingsOn hcheck] at htext
  refine htext.trans (List.flatMap_congr fun block hb => ?_)
  rw [if_pos (Nat.zero_le _), mended, slice_of_mem_blocks hb]
  rfl

/-- Mending lays out the prose that has findings, each line on its own, and
keeps all other blocks as they stand, if each block is found again by its
findings. With a single finding this is always so. It fails to do so from the
first block on, counted from the end, that has lost its place: this block is
left as it stood, whatever it has findings for.

Without a length mode nothing can be laid out. Mending then ends with a fault
as soon as a finding is in prose, and changes nothing otherwise. -/
theorem mend_lays_out_found_prose (rule : Rule) (text : Text) (hmends : rule.mends = true)
    (hparagraphs : rule.paragraphs = true) (hmode : rule.mendMode = some .paragraphs) :
    let document := Document.ofText text
    ∃ findings, (rule.check text).result = .ok findings ∧
      (findings.length ≤ 1 → KeepsPlaces rule.mendingStyle findings document) ∧
      (rule.options.lengthMode.isSome = true → ∃ out, (rule.mend text).result = .ok (some out) ∧
        (KeepsPlaces rule.mendingStyle findings document →
          out = document.blocks.flatMap fun block =>
            if findingsOn findings block = [] then Text.slice text block.start block.stop
            else block.wrapped rule.mendingStyle document.lines) ∧
        ∀ front block back, document.blocks = front ++ block :: back →
          (∀ later ∈ back, KeepsPlace rule.mendingStyle findings document later) →
          LosesPlace rule.mendingStyle findings document block →
          (((block :: back).flatMap (findingsOn findings)).reverse.foldl (Mending.step rule.mendingStyle)
              ⟨text, [], []⟩).text = mendedFrom rule.mendingStyle findings document (block.lastLine + 1)) ∧
      (rule.options.lengthMode = none → (rule.mend text).result =
        if ∃ finding ∈ findings, (document.proseAt? (finding.line - 1)).isSome then .error .namelessMode
        else .ok (some text)) := by
  intro document
  have hcheck := rule.check_result text
  refine ⟨_, hcheck, keepsPlaces_of_length_le_one _ text, fun hmeasures => ?_, fun hstray =>
    Rule.mend_result_of_stray hmends hparagraphs hmode hstray hcheck⟩
  refine ⟨_, Rule.mend_result hmends hparagraphs hmode hmeasures hcheck, foldl_step_of_keepsPlaces hcheck,
    fun front block back hblocks hkeeps hloses => ?_⟩
  obtain ⟨first, htiles⟩ := (hblocks ▸ tiles_ofText text).exists_of_append
  exact foldl_step_of_losesPlace hkeeps hloses hblocks htiles

/-- A paragraph with two findings and a list item with one are laid out; a
heading with one stays. -/
theorem mend_lays_out_found_prose_narrow :
    let rule : Rule := ⟨true, false, true, true, false, true, some .paragraphs,
      { Options.default with lineLength := .finite 3 }⟩
    let text : Text := "a b c\nd e f\n# j k\n- g h\n".toList
    rule.mends = true ∧ rule.paragraphs = true ∧ rule.mendMode = some .paragraphs ∧
      ∃ findings, (rule.check text).result = .ok findings ∧ findings.map Finding.line = [1, 2, 3, 4] ∧
        KeepsPlaces rule.mendingStyle findings (Document.ofText text) ∧
        (rule.mend text).result = .ok (some "a b\nc\nd e\nf\n# j k\n- g\n  h\n".toList) := by
  intro rule text
  obtain ⟨findings, hcheck, -, hmends, -⟩ := mend_lays_out_found_prose rule text rfl rfl rfl
  obtain ⟨out, hmend, hout, -⟩ := hmends rfl
  have hfound : (rule.check text).result =
      .ok [⟨1, some 5, 3⟩, ⟨2, some 5, 3⟩, ⟨3, some 5, 3⟩, ⟨4, some 5, 3⟩] := by
    decide +kernel
  obtain rfl := Except.ok.inj (hcheck.symm.trans hfound)
  have hkeeps : KeepsPlaces rule.mendingStyle [⟨1, some 5, 3⟩, ⟨2, some 5, 3⟩, ⟨3, some 5, 3⟩, ⟨4, some 5, 3⟩]
      (Document.ofText text) := by
    decide +kernel
  refine ⟨rfl, rfl, rfl, _, hcheck, rfl, hkeeps, hmend.trans ?_⟩
  rw [hout hkeeps]
  decide +kernel

/-- When the last paragraph is laid out, a line of pluses comes to stand by
itself. With the first line of the text it encloses front matter, in which the
paragraph before is not found again: it has lost its place. -/
theorem broken_line_makes_front_matter :
    let rule : Rule := ⟨true, false, true, true, false, true, some .paragraphs,
      { Options.default with lineLength := .finite 3 }⟩
    let text : Text := "+++\n\na b c\n\nd +++ e\n".toList
    let document := Document.ofText text
    ∃ findings out, (rule.check text).result = .ok findings ∧ (rule.mend text).result = .ok (some out) ∧
      (out ≠ document.blocks.flatMap fun block =>
        if findingsOn findings block = [] then Text.slice text block.start block.stop
        else block.wrapped rule.mendingStyle document.lines) ∧
      ∃ block ∈ document.blocks, findingsOn findings block ≠ [] ∧
        LosesPlace rule.mendingStyle findings document block ∧
        ¬KeepsPlace rule.mendingStyle findings document block := by
  refine ⟨[⟨3, some 5, 3⟩, ⟨5, some 7, 3⟩], "+++\n\na b c\n\nd\n+++\ne\n".toList, ?_, ?_, ?_, ?_⟩
  · decide +kernel
  · decide +kernel
  · decide +kernel
  · decide +kernel

end Lint

end ProseWrap
