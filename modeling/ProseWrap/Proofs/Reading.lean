import Mathlib.Data.List.DropRight
import Mathlib.Data.List.Forall2
import ProseWrap.Block.Outline

/-!
# What a block takes

A reader of a block tells which line is its last and at which line reading goes
on. The last line is one of those that are there, and reading always goes on
right after it. The lines of prose are those that it was read from, each
without what it began with (`Prose.WrittenOn`), and of the blocks before at
most one changes, which becomes a term. `Reading.Sound` says all this of a
reading, and `readSection_sound` that every reading is so.
-/

namespace ProseWrap

/-- The lines of prose are those of `texts` without what these begin with. -/
def Prose.WrittenOn (prose : Prose) (texts : List Text) : Prop :=
  match prose.form with
  | .paragraph indent =>
    ∃ first rest, texts = first :: rest ∧ indent = Line.indent first ∧
      prose.lines = Line.content first :: rest.map Text.trimStart
  | .listItem indent marker ordered further =>
    ∃ first rest content, texts = first :: rest ∧ indent = Line.indent first ∧
      Line.itemMark? (Line.content first) = some ⟨marker, ordered, content⟩ ∧
      further = Block.itemIndent indent marker ∧ prose.lines = content :: rest.map Text.trimStart
  | .quote indent depth =>
    ∃ quoted : List Text, texts.map (Block.quotedAt? indent depth) = quoted.map some ∧
      prose.lines = quoted.map Text.trimStart
  | .definition marker =>
    ∃ first rest content, texts = first :: rest ∧
      Line.definitionMark? first = some ⟨marker, content⟩ ∧ prose.lines = content :: rest.map Text.trimStart

namespace Block

/-! ## Blocks that are not prose -/

theorem countThrough_le (closes : Text → Bool) (lines : List Text) :
    countThrough closes lines ≤ lines.length := by
  unfold countThrough
  split
  · rename_i k hk
    obtain ⟨hlt, -⟩ := List.findIdx?_eq_some_iff_getElem.mp hk
    exact hlt
  · exact Nat.le_refl _

theorem length_takeWhile_le {α : Type} (p : α → Bool) (l : List α) :
    (l.takeWhile p).length ≤ l.length := (List.takeWhile_prefix p).length_le

theorem countIndented_le (least : Nat) (rest : List Text) : countIndented least rest ≤ rest.length :=
  Nat.le_trans (List.rdropWhile_prefix _ _).length_le (length_takeWhile_le _ _)

theorem countHtml_le (kind : Line.HtmlKind) (text : Text) (rest : List Text) :
    countHtml kind text rest ≤ rest.length := by
  unfold countHtml
  split
  · exact length_takeWhile_le _ _
  · dsimp only
    split
    · exact Nat.zero_le _
    · exact countThrough_le _ _

theorem countTable_le (rest : List Text) : countTable rest ≤ rest.length := length_takeWhile_le _ _

theorem frontMatter?_extent {text : Text} {rest : List Text} {format : FrontMatter} {extent : Extent}
    (h : frontMatter? text rest = some (format, extent)) :
    extent.last ≤ rest.length ∧ extent.next = extent.last + 1 := by
  unfold frontMatter? at h
  dsimp only at h
  split at h
  · obtain ⟨k, hk, he⟩ := Option.map_eq_some_iff.mp h
    obtain ⟨hlt, -⟩ := List.findIdx?_eq_some_iff_getElem.mp hk
    cases he
    exact ⟨hlt, rfl⟩
  · cases h

/-! ## Prose -/

theorem continuation_eq (column : Option Nat) (least : Nat) (rest : List Text) :
    (continuation column least rest).length ≤ rest.length ∧
      continuation column least rest =
        (rest.take (continuation column least rest).length).map Text.trimStart := by
  fun_induction continuation column least rest with
  | case1 => simp
  | case2 => simp
  | case3 text rest _ ih =>
    refine ⟨by simpa using ih.1, ?_⟩
    rw [List.length_cons, List.take_succ_cons, List.map_cons, ← ih.2]

theorem paragraphRest_eq (column : Option Nat) (rest : List Text) :
    (paragraphRest column rest).1.length ≤ rest.length ∧
      (paragraphRest column rest).1 =
        (rest.take (paragraphRest column rest).1.length).map Text.trimStart := by
  fun_induction paragraphRest column rest with
  | case1 => simp
  | case2 => simp
  | case3 => simp
  | case4 => simp
  | case5 text rest _ _ _ _ more ih =>
    refine ⟨by simpa using ih.1, ?_⟩
    rw [List.length_cons, List.take_succ_cons, List.map_cons, ← ih.2]

/-- The line that underlines a paragraph comes after the lines that go on with
it. -/
theorem paragraphRest_underlined {column : Option Nat} {rest : List Text} {level : Nat}
    (h : (paragraphRest column rest).2 = .underlined level) :
    (paragraphRest column rest).1.length + 1 ≤ rest.length := by
  fun_induction paragraphRest column rest with
  | case1 => cases h
  | case2 => simp
  | case3 => cases h
  | case4 => cases h
  | case5 text rest _ _ _ _ more ih => simpa using ih h

theorem readParagraph_extent (column : Option Nat) (text : Text) (rest : List Text) :
    (readParagraph column text rest).2.last ≤ rest.length ∧
      (readParagraph column text rest).2.next = (readParagraph column text rest).2.last + 1 := by
  unfold readParagraph
  dsimp only
  split
  · exact ⟨(paragraphRest_eq column rest).1, rfl⟩
  · exact ⟨(paragraphRest_eq column rest).1, rfl⟩
  · exact ⟨paragraphRest_underlined (by assumption), rfl⟩

theorem readParagraph_writtenOn {column : Option Nat} {text : Text} {rest : List Text} {prose : Prose}
    (h : (readParagraph column text rest).1 = .prose prose) :
    prose.WrittenOn (text :: rest.take (readParagraph column text rest).2.last) := by
  unfold readParagraph at h ⊢
  dsimp only at h ⊢
  split at h
  · cases h
    exact ⟨text, _, rfl, rfl, congrArg (Line.content text :: ·) (paragraphRest_eq column rest).2⟩
  · cases h
  · cases h

theorem quotedRun_eq (indent : Text) (depth : Nat) (rest : List Text) :
    (quotedRun indent depth rest).length ≤ rest.length ∧
      ∀ n ≤ (quotedRun indent depth rest).length,
        (rest.take n).map (quotedAt? indent depth) = ((quotedRun indent depth rest).take n).map some := by
  fun_induction quotedRun indent depth rest with
  | case1 => simp
  | case2 text rest quoted hq ih =>
    refine ⟨by simpa using ih.1, fun n hn => ?_⟩
    cases n with
    | zero => rfl
    | succ n =>
      rw [List.take_succ_cons, List.take_succ_cons, List.map_cons, List.map_cons, hq,
        ih.2 n (by simpa using hn)]
  | case3 => simp

theorem quotedProse_eq (quoted : List Text) :
    (quotedProse quoted).length ≤ quoted.length ∧
      quotedProse quoted = (quoted.take (quotedProse quoted).length).map Text.trimStart := by
  fun_induction quotedProse quoted with
  | case1 => simp
  | case2 => simp
  | case3 text rest _ ih =>
    refine ⟨by simpa using ih.1, ?_⟩
    rw [List.length_cons, List.take_succ_cons, List.map_cons, ← ih.2]

theorem readQuote_extent (text : Text) (quote : Line.QuoteMark) (rest : List Text) :
    (readQuote text quote rest).2.last ≤ rest.length ∧
      (readQuote text quote rest).2.next = (readQuote text quote rest).2.last + 1 := by
  have hrun := (quotedRun_eq (Line.indent text) quote.depth rest).1
  unfold readQuote
  dsimp only
  split
  · exact ⟨Nat.zero_le _, rfl⟩
  · split
    · refine ⟨?_, rfl⟩
      split
      · exact Nat.le_trans (countThrough_le _ _) hrun
      · exact Nat.le_trans (length_takeWhile_le _ _) hrun
    · exact ⟨Nat.le_trans (quotedProse_eq _).1 hrun, rfl⟩

theorem readQuote_writtenOn {text : Text} {quote : Line.QuoteMark} {rest : List Text} {prose : Prose}
    (hq : Line.quoteMark? (Line.content text) = some quote)
    (h : (readQuote text quote rest).1 = .prose prose) :
    prose.WrittenOn (text :: rest.take (readQuote text quote rest).2.last) := by
  have hfirst : quotedAt? (Line.indent text) quote.depth text = some quote.content := by
    simp [quotedAt?, hq]
  have hrun := (quotedRun_eq (Line.indent text) quote.depth rest).2
  unfold readQuote at h ⊢
  dsimp only at h ⊢
  split at h
  · cases h
  · split at h
    · cases h
    · rename_i hblank hplain
      cases h
      simp only [hblank, hplain, Bool.false_eq_true, if_false]
      generalize quotedRun (Line.indent text) quote.depth rest = run at hrun
      obtain ⟨hle, heq⟩ := quotedProse_eq run
      refine ⟨quote.content :: run.take (quotedProse run).length, ?_, ?_⟩
      · rw [Nat.add_sub_cancel, List.map_cons, List.map_cons, hfirst, hrun _ hle]
      · rw [List.map_cons, ← heq]

theorem readItem_extent (text : Text) (item : Line.ItemMark) (rest : List Text) :
    (readItem text item rest).2.last ≤ rest.length ∧
      (readItem text item rest).2.next = (readItem text item rest).2.last + 1 :=
  ⟨(continuation_eq _ _ rest).1, rfl⟩

theorem readItem_writtenOn {text : Text} {item : Line.ItemMark} {rest : List Text} {prose : Prose}
    (hi : Line.itemMark? (Line.content text) = some item)
    (h : (readItem text item rest).1 = .prose prose) :
    prose.WrittenOn (text :: rest.take (readItem text item rest).2.last) := by
  cases h
  exact ⟨text, _, item.content, rfl, rfl, hi, rfl, congrArg (item.content :: ·) (continuation_eq _ _ rest).2⟩

theorem readDefinition_extent (column : Option Nat) (body : Line.DefinitionMark) (rest : List Text) :
    (readDefinition column body rest).2.last ≤ rest.length ∧
      (readDefinition column body rest).2.next = (readDefinition column body rest).2.last + 1 :=
  ⟨(continuation_eq _ _ rest).1, rfl⟩

theorem readDefinition_writtenOn {column : Option Nat} {text : Text} {body : Line.DefinitionMark}
    {rest : List Text} {prose : Prose} (hb : Line.definitionMark? text = some body)
    (h : (readDefinition column body rest).1 = .prose prose) :
    prose.WrittenOn (text :: rest.take (readDefinition column body rest).2.last) := by
  cases h
  exact ⟨text, _, body.content, rfl, hb, congrArg (body.content :: ·) (continuation_eq _ _ rest).2⟩

/-! ## Sections -/

end Block

/-- How far a block reaches after which reading goes on. -/
abbrev Extent.through (last : Nat) : Extent := ⟨last, last + 1⟩

/-- Where reading goes on right after the last line, it goes on as it was
told. -/
theorem Extent.step_eq {extent : Extent} (h : extent.next = extent.last + 1) : extent.step = extent.next := by
  rw [step, h]
  exact Nat.max_eq_left (Nat.le_add_left 1 _)

/-- How many lines a section has. -/
abbrev Section.count (part : Section) : Nat := part.extent.last + 1

theorem Section.step_eq_count {part : Section} (h : part.extent.next = part.count) :
    part.extent.step = part.count :=
  (Extent.step_eq h).trans h

namespace Block

/-- How many lines a section takes after its first one. -/
abbrev Reading.more (read : Reading) : Nat := read.extent.last

/-- A section that stays as it was, or a paragraph that becomes a term on the
same lines. -/
def IsPromotion (part old : Section) : Prop :=
  part.extent = old.extent ∧ (part.kind = old.kind ∨
    ∃ indent lines, old.kind = .prose ⟨.paragraph indent, lines⟩ ∧ part.kind = .term lines)

theorem IsPromotion.refl (part : Section) : IsPromotion part part := ⟨rfl, .inl rfl⟩

theorem IsPromotion.count_eq {part old : Section} (h : IsPromotion part old) : part.count = old.count := by
  rw [Section.count, h.1]

theorem attach?_forall₂ {before promoted : List Section} (h : attach? before = some promoted) :
    List.Forall₂ IsPromotion promoted before := by
  unfold attach? at h
  split at h
  · cases h
  · split at h <;> cases h
    · exact List.forall₂_same.mpr fun part _ => .refl part
    · exact List.forall₂_same.mpr fun part _ => .refl part
    · exact .cons ⟨rfl, .inr ⟨_, _, ‹_›, rfl⟩⟩ (List.forall₂_same.mpr fun part _ => .refl part)

/-- Making a term changes at most one section, and only into a term on the same
lines. -/
theorem makeTerm?_forall₂ {before promoted : List Section} (h : makeTerm? before = some promoted) :
    List.Forall₂ IsPromotion promoted before := by
  unfold makeTerm? at h
  split at h
  · split at h
    · obtain ⟨earlier, he, rfl⟩ := Option.map_eq_some_iff.mp h
      exact .cons (.refl _) (attach?_forall₂ he)
    · exact attach?_forall₂ h
  · cases h

/-- What a reading of a section holds to: it takes lines that are there,
reading goes on right after them, its prose is written on them, and the
sections before it keep their lines. -/
structure Reading.Sound (read : Reading) (before : List Section) (text : Text) (rest : List Text) :
    Prop where
  more_le : read.more ≤ rest.length
  next_eq : read.extent.next = read.extent.last + 1
  writtenOn : ∀ prose, read.kind = .prose prose → prose.WrittenOn (text :: rest.take read.more)
  before : List.Forall₂ IsPromotion read.before before

theorem Reading.Sound.of_other {kind : BlockKind} {last : Nat} {column : Option Nat}
    {before : List Section} {text : Text} {rest : List Text} (hlast : last ≤ rest.length)
    (hkind : ∀ prose, kind ≠ .prose prose) :
    (⟨kind, .through last, column, before⟩ : Reading).Sound before text rest :=
  ⟨hlast, rfl, fun prose h => absurd h (hkind prose), List.forall₂_same.mpr fun part _ => .refl part⟩

/-- The sections before a reading keep their lines. -/
theorem Reading.Sound.map_extent {read : Reading} {before : List Section} {text : Text} {rest : List Text}
    (h : read.Sound before text rest) : read.before.map Section.extent = before.map Section.extent := by
  rw [← List.forall₂_eq_eq_eq, List.forall₂_map_left_iff, List.forall₂_map_right_iff]
  exact h.before.imp fun _ _ h => h.1

theorem Reading.Sound.map_count {read : Reading} {before : List Section} {text : Text} {rest : List Text}
    (h : read.Sound before text rest) : read.before.map Section.count = before.map Section.count := by
  have hcounts := congrArg (List.map fun extent => extent.last + 1) h.map_extent
  rwa [List.map_map, List.map_map] at hcounts

theorem readProseOrOther_sound (column : Option Nat) (before : List Section) (text : Text)
    (rest : List Text) : (readProseOrOther column before text rest).Sound before text rest := by
  have hsame : List.Forall₂ IsPromotion before before := List.forall₂_same.mpr fun part _ => .refl part
  unfold readProseOrOther
  dsimp only
  split
  · rename_i quote hq
    exact ⟨(readQuote_extent _ _ _).1, (readQuote_extent _ _ _).2, fun prose h => readQuote_writtenOn hq h, hsame⟩
  · split
    · rename_i item hi
      exact ⟨(readItem_extent _ _ _).1, (readItem_extent _ _ _).2, fun prose h => readItem_writtenOn hi h, hsame⟩
    · split
      · exact .of_other (countHtml_le _ _ _) (by simp)
      · split
        · exact .of_other (countTable_le _) (by simp)
        · split
          · exact .of_other (Nat.zero_le _) (by simp)
          · split
            · exact .of_other (Nat.zero_le _) (by simp)
            · split
              · rename_i body promoted hb hp
                exact ⟨(readDefinition_extent _ _ _).1, (readDefinition_extent _ _ _).2,
                  fun prose h => readDefinition_writtenOn hb h,
                  makeTerm?_forall₂ hp⟩
              · exact ⟨(readParagraph_extent _ _ _).1, (readParagraph_extent _ _ _).2,
                  fun prose h => readParagraph_writtenOn h, hsame⟩

/-- A section takes its first line and further ones that are there, reading
goes on after them, and the lines of the sections before are left alone. -/
theorem readSection_sound (column : Option Nat) (before : List Section) (text : Text)
    (rest : List Text) : (readSection column before text rest).Sound before text rest := by
  unfold readSection
  dsimp only
  split
  · exact .of_other (length_takeWhile_le _ _) (by simp)
  · split
    · exact .of_other (countIndented_le _ _) (by simp)
    · split
      · exact .of_other (countThrough_le _ _) (by simp)
      · split
        · exact .of_other (Nat.zero_le _) (by simp)
        · split
          · exact .of_other (Nat.zero_le _) (by simp)
          · exact readProseOrOther_sound _ _ _ _

/-- After a section that has been read, its further lines are passed over. -/
theorem outlineFrom_zero_cons (column : Option Nat) (before : List Section) (text : Text) (rest : List Text) :
    let read := readSection column before text rest
    outlineFrom 0 column before (text :: rest) =
      outlineFrom read.more read.column (⟨read.kind, read.extent⟩ :: read.before) rest := by
  intro read
  have hnext : read.extent.next = read.more + 1 := (readSection_sound column before text rest).next_eq
  rw [outlineFrom]
  show outlineFrom (read.extent.step - 1) _ _ _ = _
  rw [Extent.step_eq hnext, hnext, Nat.add_sub_cancel]

end Block

end ProseWrap
