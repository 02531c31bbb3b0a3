import ProseWrap.Proofs.Structure
import ProseWrap.Proofs.Weight

/-!
# Wrapping again

A document is *settled* if each of its blocks is laid out as it stands.
Wrapping changes nothing in a settled document (`wrap_of_settled`). Where
sentences run on, the converse holds: a document that wrapping leaves as it is,
is settled (`settled_of_wrap`). It is not enough for this that the whole text
stays, since a line that one block lost could be written for the next one. But
what is written for a block weighs no more than the block, so it never holds
the lines of the block and others (`Block.Passage.Tight`), and what one block
loses no later one can make up for (`written_eq_own`).
-/

namespace ProseWrap

namespace Block

/-- What is written for a block is not the lines of the block together with
others. -/
def Passage.Tight (passage : Passage) : Prop :=
  ∀ front back, passage.written = front ++ passage.own ++ back → front = [] ∧ back = []

/-- What is not heavier than the lines of the block does not hold them and
others. -/
theorem Passage.tight_of_total_le {passage : Passage} {weight : Text → Nat} (hpos : ∀ text, 0 < weight text)
    (h : Text.total weight passage.written ≤ Text.total weight passage.own) : passage.Tight := by
  have hnil (lines : List Text) (htotal : Text.total weight lines = 0) : lines = [] := by
    cases lines with
    | nil => rfl
    | cons line lines =>
      have := hpos line
      rw [Text.total_cons] at htotal
      omega
  intro front back heq
  rw [heq, Text.total_append, Text.total_append] at h
  exact ⟨hnil front (by omega), hnil back (by omega)⟩

/-- If the lines of blocks are written again, after the lines `front` that were
lost before, then none were lost and each block has the lines that are written
for it. -/
theorem written_eq_own {passages : List Passage} (htight : ∀ passage ∈ passages, passage.Tight)
    {front : List Text} (h : passages.flatMap Passage.written = front ++ passages.flatMap Passage.own) :
    front = [] ∧ ∀ passage ∈ passages, passage.written = passage.own := by
  induction passages generalizing front with
  | nil => exact ⟨by simpa using h.symm, by simp⟩
  | cons passage passages ih =>
    obtain ⟨hfirst, hrest⟩ := List.forall_mem_cons.mp htight
    rw [List.flatMap_cons, List.flatMap_cons, ← List.append_assoc] at h
    rcases List.append_eq_append_iff.mp h with ⟨lost, hlost, hlater⟩ | ⟨back, hwritten, hlater⟩
    · -- lines of the block are not written for it, so they are lost for the later blocks
      obtain ⟨rfl, heq⟩ := ih hrest hlater
      rw [List.append_nil] at hlost
      obtain ⟨rfl, -⟩ := hfirst front [] (by rw [List.append_nil, hlost])
      exact ⟨rfl, List.forall_mem_cons.mpr ⟨hlost.symm, heq⟩⟩
    · obtain ⟨rfl, rfl⟩ := hfirst front back hwritten
      have hsame : passages.flatMap Passage.written = [] ++ passages.flatMap Passage.own := hlater.symm
      rw [List.nil_append, List.append_nil] at hwritten
      exact ⟨rfl, List.forall_mem_cons.mpr ⟨hwritten, (ih hrest hsame).2⟩⟩

variable {lines : List Line} {first : Nat} {block : Block} {style : Style}

theorem innerNewline_ne_none (lines : List Line) : Line.innerNewline lines ≠ .none := by
  unfold Line.innerNewline
  cases hfind : lines.find? fun line => line.newline != .none with
  | none => simp
  | some line => simpa using List.find?_some hfind

/-- Where sentences run on, what is written for a block is not the lines of the
block together with others. -/
theorem StandsAt.tight (h : StandsAt lines first block) (hl : Line.Unbroken lines)
    (hrun : style.sentenceLines = .runOn) :
    Passage.Tight ⟨(block.sources lines).map Line.text,
      (Line.split (block.wrapped style lines)).map Line.text⟩ := by
  have hne := h.sources_ne_nil
  cases hprose : block.prose? with
  | none =>
    rw [h.map_text_split_wrapped hl hprose style]
    exact Passage.tight_of_total_le (fun _ => Nat.one_pos) (Nat.le_refl _)
  | some prose =>
    have hw := h.writtenOn prose (prose?_eq_some.mp hprose)
    have hfeed : ∀ line ∈ (prose.render style (block.sources lines)).lines, '\n' ∉ line := by
      intro line hline hmem
      rcases Prose.mem_of_mem_render style hw hne hline hmem with hc | hc | ⟨source, hs, hc⟩
      · cases hc
      · cases hc
      · exact (h.unbroken hl).feed_not_mem hs hc
    have hlines : prose.lines ≠ [] := by
      obtain ⟨_, _, _, _, -, hlines, -⟩ := hw.covers (mt List.map_eq_nil_iff.mp hne)
      rw [hlines]
      exact List.cons_ne_nil _ _
    refine Passage.tight_of_total_le prose.form.weight_pos ?_
    rw [wrapped, hprose]
    exact (total_split_le prose.form.weight_le_append_return (innerNewline_ne_none _) _
      (Prose.render_ne_nil style _ hlines) hfeed).trans (Prose.total_render_le hrun hw hne)

end Block

/-! ## Documents -/

/-- Each block of a document is laid out as it stands. -/
def Document.Settled (style : Style) (document : Document) : Prop :=
  ∀ block ∈ document.blocks, block.wrapped style document.lines = Line.join (block.sources document.lines)

instance Document.decidableSettled (style : Style) (document : Document) :
    Decidable (document.Settled style) :=
  inferInstanceAs (Decidable (∀ block ∈ document.blocks, _))

/-- Wrapping changes nothing in a settled document. -/
theorem wrap_of_settled {style : Style} {text : Text} (h : (Document.ofText text).Settled style) :
    (Document.ofText text).wrap style = text :=
  (List.flatMap_congr h).trans (flatMap_join_sources text)

/-- Where sentences run on, a document that wrapping does not change is
settled. -/
theorem settled_of_wrap {style : Style} (hrun : style.sentenceLines = .runOn) {text : Text}
    (h : (Document.ofText text).wrap style = text) : (Document.ofText text).Settled style := by
  have htiles := tiles_ofText text
  have htight : ∀ passage ∈ (Document.ofText text).passages style, passage.Tight := by
    intro passage hp
    obtain ⟨block, hb, rfl⟩ := List.mem_map.mp hp
    obtain ⟨n, hn⟩ := htiles.standsAt hb
    exact hn.tight (Line.unbroken_split text) hrun
  have hsame : ((Document.ofText text).passages style).flatMap Block.Passage.written =
      [] ++ ((Document.ofText text).passages style).flatMap Block.Passage.own := by
    rw [flatMap_written_passages, h, List.nil_append, flatMap_own_passages]
  have hown := (Block.written_eq_own htight hsame).2
  obtain ⟨groups, hsplit, hjoin, htext⟩ := htiles.splitFrom_wrapped (Line.unbroken_split text) style 0
  -- the lines of the whole are those of the blocks, and each block keeps as
  -- many as it has
  have hgroups : groups = (Document.ofText text).blocks.map (Block.sources (Line.split text)) := by
    refine List.eq_iff_flatten_eq.mpr ⟨?_, ?_⟩
    · rw [← hsplit, ← List.flatMap, flatMap_sources]
      exact congrArg Line.split h
    · have hwritten : (Document.ofText text).blocks.map
          (fun block => (Line.split (block.wrapped style (Line.split text))).map Line.text) =
          ((Document.ofText text).blocks.map (Block.sources (Line.split text))).map (List.map Line.text) := by
        rw [List.map_map]
        exact List.map_congr_left fun block hb => hown _ (List.mem_map_of_mem hb)
      rw [hwritten] at htext
      have hlengths := congrArg (List.map List.length) htext
      simpa [List.map_map, Function.comp_def] using hlengths
  rw [hgroups, List.map_map] at hjoin
  exact fun block hb => (List.map_inj_left.mp hjoin block hb).symm

/-- What wrapping makes of a text does not change when it is wrapped again if
each of its blocks is laid out as it stands; where sentences run on, it does
not change only then. -/
theorem wrapText_idempotent_of_settled (config : Config) (fixed : Bool) (options : Options) (text : Text)
    (hoptions : (config.accept fixed).result = .ok options) :
    ∃ out, (wrapText config fixed text).result = .ok out ∧
      ((Document.ofText out).Settled options.style → (wrapText config fixed out).result = .ok out) ∧
      (options.sentencePerLine = false → options.semanticLineBreaks = false →
        (wrapText config fixed out).result = .ok out → (Document.ofText out).Settled options.style) := by
  have hresult (text : Text) :
      (wrapText config fixed text).result = .ok ((Document.ofText text).wrap options.style) := by
    rw [wrapText_result, hoptions]
    rfl
  refine ⟨_, hresult text, fun hsettled => ?_, fun hwhole hclauses hagain => ?_⟩
  · rw [hresult, wrap_of_settled hsettled]
  · rw [hresult] at hagain
    refine settled_of_wrap ?_ (Except.ok.inj hagain)
    simp [Options.style, hwhole, hclauses]

/-- A list item and a quotation that were filled stay as they are. -/
theorem wrapText_idempotent_default :
    (Config.accept {} false).result = .ok Options.default ∧
      ∃ out, (wrapText {} false "- a\n  b\n\n> c\n> d\n".toList).result = .ok out ∧
        (Document.ofText out).Settled Options.default.style ∧ (wrapText {} false out).result = .ok out := by
  refine ⟨rfl, ?_⟩
  obtain ⟨out, hout, hstays, -⟩ := wrapText_idempotent_of_settled {} false Options.default
    "- a\n  b\n\n> c\n> d\n".toList rfl
  have hfilled : (wrapText {} false "- a\n  b\n\n> c\n> d\n".toList).result = .ok "- a b\n\n> c d\n".toList := by
    decide +kernel
  obtain rfl : out = "- a b\n\n> c d\n".toList := Except.ok.inj (hout.symm.trans hfilled)
  have hsettled : (Document.ofText "- a b\n\n> c d\n".toList).Settled Options.default.style := by decide +kernel
  exact ⟨_, hout, hsettled, hstays hsettled⟩

/-- Dots that stand apart end a sentence. They are glued to the word before
them, and if that makes an abbreviation longer no sentence ends there any more:
the next time the two lines become one. -/
theorem glued_dots_join_sentences :
    let config : Config := { sentencePerLine := .given true }
    ∃ out again, (wrapText config false "Ask Dr. ... He left.".toList).result = .ok out ∧
      (wrapText config false out).result = .ok again ∧ again ≠ out := by
  refine ⟨"Ask Dr....\nHe left.".toList, "Ask Dr.... He left.".toList, ?_, ?_, ?_⟩
  · decide +kernel
  · decide +kernel
  · decide +kernel

end ProseWrap
