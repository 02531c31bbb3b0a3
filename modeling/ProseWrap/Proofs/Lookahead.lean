import Mathlib.Data.List.TakeWhile
import ProseWrap.Proofs.Deletion
import ProseWrap.Proofs.Reading

/-!
# How far a reader looks ahead

A reader decides with the lines after a block where the block ends. `opening`
tells what a line begins as far as the line alone can tell, and
`readSection_eq` reads a block from that; `SectionReading` lists all that can
come of it, with what is then known of the line. Blocks of prose, tables,
references and directives depend on the text of the line that comes next
(`BlockKind.looksAhead`). All other blocks only depend on whether that line is
blank, how it is indented and whether it is quoted: if the lines that follow
are changed to lines that are alike in this (`Ahead`), the same block is read
(`readSection_congr_ahead`).
-/

namespace ProseWrap

/-- Whether the text of the line after a block can make it a block of another
kind or length. -/
def BlockKind.looksAhead : BlockKind → Bool
  | .prose _ | .term _ | .table | .reference | .directive => true
  | _ => false

/-- A kind of block without the lines of its text. -/
def BlockKind.bare : BlockKind → BlockKind
  | .prose text => .prose ⟨text.form, []⟩
  | .term _ => .term []
  | kind => kind

theorem BlockKind.eq_prose_of_bare {kind : BlockKind} {prose : Prose}
    (h : kind.bare = (BlockKind.prose prose).bare) :
    ∃ lines, kind = .prose ⟨prose.form, lines⟩ := by
  cases kind with
  | prose other =>
    obtain ⟨form, lines⟩ := other
    obtain rfl : form = prose.form := by simpa [BlockKind.bare] using h
    exact ⟨lines, rfl⟩
  | _ => cases h

/-- What the form of prose tells of the line it begins with. -/
def ProseForm.Begins (form : ProseForm) (text : Text) : Prop :=
  match form with
  | .paragraph indent | .listItem indent _ _ _ =>
    Line.indent text = indent ∧ Line.quoteMark? (Line.content text) = none
  | .quote indent depth =>
    Line.indent text = indent ∧ ∃ content, Line.quoteMark? (Line.content text) = some ⟨depth, content⟩ ∧
      Line.isBlank content = false
  | .definition marker =>
    (∃ content, Line.definitionMark? text = some ⟨marker, content⟩) ∧
      Line.quoteMark? (Line.content text) = none

/-- Whether a block is something that a definition can define. -/
def BlockKind.isDefinable : BlockKind → Bool
  | .term _ | .prose ⟨.paragraph _, _⟩ => true
  | _ => false

/-- Whether a block is structure: neither text nor blank lines, nor what only
the start of a document can be. -/
def BlockKind.isStructure : BlockKind → Bool
  | .prose _ | .term _ | .blank | .frontMatter _ => false
  | _ => true

/-- Whether a form is that of a definition. -/
def ProseForm.isDefinition : ProseForm → Bool
  | .definition _ => true
  | _ => false

/-- A section without its lines, its number of lines included. -/
def Section.bare (part : Section) : Section := ⟨part.kind.bare, .through 0⟩

namespace Block

/-! ## What a line begins -/

/-- What a line begins, as far as the line alone can tell. -/
inductive Opening where
  | blank
  | indented
  | fence (mark : Line.Fence)
  | heading (level : Nat)
  | thematicBreak
  | quote (mark : Line.QuoteMark)
  | item (mark : Line.ItemMark)
  | html (kind : Line.HtmlKind)
  | plain

/-- What a line begins when the list item at `column` is open. -/
def opening (column : Option Nat) (text : Text) : Opening :=
  let content := Line.content text
  if Line.isBlank text then .blank
  else if (openColumn column text).getD 0 + 4 ≤ Line.indentWidth text then .indented
  else
    match Line.fence? content with
    | some mark => .fence mark
    | none =>
      if 0 < Line.atxLevel content then .heading (Line.atxLevel content)
      else if Line.isThematicBreak content then .thematicBreak
      else
        match Line.quoteMark? content with
        | some mark => .quote mark
        | none =>
          match Line.itemMark? content with
          | some mark => .item mark
          | none =>
            match Line.htmlKind? content with
            | some kind => .html kind
            | none => .plain

/-- The block that begins with a line that has no mark of its own. -/
def readPlain (column : Option Nat) (before : List Section) (text : Text) (rest : List Text) : Reading :=
  let content := Line.content text
  if Line.beginsTable content (rest.headD []) then ⟨.table, .through (countTable rest), column, before⟩
  else if Line.isReference content then ⟨.reference, .through 0, column, before⟩
  else if Line.isDirective content then ⟨.directive, .through 0, column, before⟩
  else
    match Line.definitionMark? text, makeTerm? before with
    | some body, some promoted =>
      ⟨(readDefinition column body rest).1, (readDefinition column body rest).2, column, promoted⟩
    | _, _ => ⟨(readParagraph column text rest).1, (readParagraph column text rest).2, column, before⟩

/-- The block that begins with a line. -/
def Opening.read (column : Option Nat) (before : List Section) (text : Text) (rest : List Text) :
    Opening → Reading
  | .blank => ⟨.blank, .through (rest.takeWhile Line.isBlank).length, column, before⟩
  | .indented =>
    ⟨.code false, .through (countIndented ((openColumn column text).getD 0 + 4) rest), openColumn column text, before⟩
  | .fence mark =>
    ⟨.code true, .through (countThrough (fun line => Line.endsFence mark (Text.trimStart line)) rest),
      openColumn column text, before⟩
  | .heading level => ⟨.heading level false, .through 0, openColumn column text, before⟩
  | .thematicBreak => ⟨.thematicBreak, .through 0, openColumn column text, before⟩
  | .quote mark =>
    ⟨(readQuote text mark rest).1, (readQuote text mark rest).2, openColumn column text, before⟩
  | .item mark =>
    ⟨(readItem text mark rest).1, (readItem text mark rest).2,
      some (Line.columns (itemIndent (Line.indent text) mark.marker)), before⟩
  | .html kind => ⟨.html, .through (countHtml kind text rest), openColumn column text, before⟩
  | .plain => readPlain (openColumn column text) before text rest

/-- A block is read by what its first line begins. -/
theorem readSection_eq (column : Option Nat) (before : List Section) (text : Text) (rest : List Text) :
    readSection column before text rest = (opening column text).read column before text rest := by
  unfold readSection opening
  dsimp only
  split
  · rfl
  · split
    · rfl
    · cases Line.fence? (Line.content text) with
      | some mark => rfl
      | none =>
        dsimp only
        split
        · rfl
        · split
          · rfl
          · unfold readProseOrOther
            dsimp only
            cases Line.quoteMark? (Line.content text) with
            | some mark => rfl
            | none =>
              cases Line.itemMark? (Line.content text) with
              | some mark => rfl
              | none =>
                cases Line.htmlKind? (Line.content text) with
                | some kind => rfl
                | none => rfl

/-- A quotation is structure or prose, and prose does not begin with a blank
line. -/
theorem readQuote_kind (text : Text) (mark : Line.QuoteMark) (rest : List Text) :
    (readQuote text mark rest).1 = .quotedStructure (Line.indent text) mark.depth ∨
      Line.isBlank mark.content = false ∧
        ∃ lines, (readQuote text mark rest).1 = .prose ⟨.quote (Line.indent text) mark.depth, lines⟩ := by
  unfold readQuote
  dsimp only
  split
  · exact .inl rfl
  · rename_i hblank
    split
    · exact .inl rfl
    · exact .inr ⟨by simpa using hblank, _, rfl⟩

/-- What a line can be read as: blank lines, structure, a quotation, a list
item, a definition after something that it defines, or else a paragraph, which
turns out to be a term if a definition follows. -/
inductive SectionReading (column : Option Nat) (before : List Section) (text : Text) (rest : List Text) :
    Reading → Prop where
  | blank (hblank : Line.isBlank text = true) :
      SectionReading column before text rest ⟨.blank, .through (rest.takeWhile Line.isBlank).length, column, before⟩
  | other {kind : BlockKind} {extent : Extent} {column' : Option Nat} (hblank : Line.isBlank text = false)
      (hkind : kind.isStructure = true) : SectionReading column before text rest ⟨kind, extent, column', before⟩
  | quote {mark : Line.QuoteMark} {lines : List Text} {extent : Extent} (hblank : Line.isBlank text = false)
      (hmark : Line.quoteMark? (Line.content text) = some mark) (hcontent : Line.isBlank mark.content = false) :
      SectionReading column before text rest
        ⟨.prose ⟨.quote (Line.indent text) mark.depth, lines⟩, extent, openColumn column text, before⟩
  | item {mark : Line.ItemMark} {column' : Option Nat} (hblank : Line.isBlank text = false)
      (hquote : Line.quoteMark? (Line.content text) = none) (hmark : Line.itemMark? (Line.content text) = some mark) :
      SectionReading column before text rest
        ⟨(readItem text mark rest).1, (readItem text mark rest).2, column', before⟩
  | definition {column' : Option Nat} {body : Line.DefinitionMark} {promoted : List Section}
      (hblank : Line.isBlank text = false) (hquote : Line.quoteMark? (Line.content text) = none)
      (hmark : Line.definitionMark? text = some body) (hterm : makeTerm? before = some promoted) :
      SectionReading column before text rest
        ⟨(readDefinition column' body rest).1, (readDefinition column' body rest).2, column', promoted⟩
  | term {lines : List Text} {extent : Extent} {column' : Option Nat} (hblank : Line.isBlank text = false) :
      SectionReading column before text rest ⟨.term lines, extent, column', before⟩
  | paragraph {column' : Option Nat} (hblank : Line.isBlank text = false)
      (hquote : Line.quoteMark? (Line.content text) = none)
      (hplain : ∀ body promoted, Line.definitionMark? text = some body → makeTerm? before ≠ some promoted) :
      SectionReading column before text rest
        ⟨.prose ⟨.paragraph (Line.indent text), Line.content text :: (paragraphRest column' rest).1⟩,
          .through (paragraphRest column' rest).1.length, column', before⟩

theorem sectionReading (column : Option Nat) (before : List Section) (text : Text) (rest : List Text) :
    SectionReading column before text rest (readSection column before text rest) := by
  unfold readSection
  dsimp only
  split
  · exact .blank ‹_›
  · rename_i hblank
    rw [Bool.not_eq_true] at hblank
    split
    · exact .other hblank rfl
    · split
      · exact .other hblank rfl
      · split
        · exact .other hblank rfl
        · split
          · exact .other hblank rfl
          · unfold readProseOrOther
            dsimp only
            split
            · rename_i mark hmark
              rcases readQuote_kind text mark rest with hkind | ⟨hcontent, lines, hkind⟩ <;> rw [hkind]
              · exact .other hblank rfl
              · exact .quote hblank hmark hcontent
            · rename_i hquote
              split
              · exact .item hblank hquote ‹_›
              · split
                · exact .other hblank rfl
                · split
                  · exact .other hblank rfl
                  · split
                    · exact .other hblank rfl
                    · split
                      · exact .other hblank rfl
                      · split
                        · exact .definition hblank hquote ‹_› ‹_›
                        · rename_i hplain
                          unfold readParagraph
                          dsimp only
                          split
                          · exact .paragraph hblank hquote hplain
                          · exact .term hblank
                          · exact .other hblank rfl

/-! ## Lines that are alike -/

/-- Two runs of lines begin alike: with the same blank lines and then, if any
line follows, with one that is indented and quoted in the same way. -/
inductive Ahead : List Text → List Text → Prop where
  | nil : Ahead [] []
  | blank {text : Text} {later later' : List Text} (isBlank : Line.isBlank text = true)
      (rest : Ahead later later') : Ahead (text :: later) (text :: later')
  | line {text text' : Text} {later later' : List Text} (isBlank : Line.isBlank text = false)
      (isBlank' : Line.isBlank text' = false) (indent : Line.indent text' = Line.indent text)
      (quoted : ∀ indent depth, (quotedAt? indent depth text').map Line.isBlank =
        (quotedAt? indent depth text).map Line.isBlank) : Ahead (text :: later) (text' :: later')

theorem map_not_isBlank {first first' : Option Text}
    (h : first'.map Line.isBlank = first.map Line.isBlank) :
    (first.map fun text => !Line.isBlank text) = first'.map fun text => !Line.isBlank text := by
  have hnot (line : Option Text) :
      (line.map fun text => !Line.isBlank text) = (line.map Line.isBlank).map not := by
    cases line <;> rfl
  rw [hnot, ← h, hnot]

theorem Ahead.isBlank_head? {later later' : List Text} (h : Ahead later later') :
    later'.head?.map Line.isBlank = later.head?.map Line.isBlank := by
  cases h with
  | nil => rfl
  | blank isBlank rest => rfl
  | line isBlank isBlank' indent quoted => simp [isBlank, isBlank']

theorem Ahead.eq_nil {later later' : List Text} (h : Ahead later later') (hnil : later = []) : later' = [] := by
  cases h with
  | nil => rfl
  | blank isBlank rest => cases hnil
  | line isBlank isBlank' indent quoted => cases hnil

/-- Quoted lines that follow begin alike. -/
theorem Ahead.quotedRun_head? {later later' : List Text} (h : Ahead later later') (indent : Text)
    (depth : Nat) : (quotedRun indent depth later').head?.map Line.isBlank =
      (quotedRun indent depth later).head?.map Line.isBlank := by
  have hhead (text : Text) (rest : List Text) :
      (quotedRun indent depth (text :: rest)).head? = quotedAt? indent depth text := by
    rw [quotedRun]
    split <;> simp_all
  cases h with
  | nil => rfl
  | blank isBlank rest => simp only [hhead]
  | line isBlank isBlank' same quoted =>
    simp only [hhead]
    exact quoted indent depth

/-! ## Counts that do not change -/

/-- A run of lines takes `own` and no more just if all of these pass and the
next line does not. -/
theorem length_takeWhile_append {p : Text → Bool} {own later : List Text} :
    ((own ++ later).takeWhile p).length = own.length ↔
      (∀ text ∈ own, p text = true) ∧ later.head?.map p ≠ some true := by
  induction own with
  | nil =>
    cases later with
    | nil => simp
    | cons text later =>
      cases h : p text <;> simp [h]
  | cons text own ih =>
    cases h : p text <;> simp [h, ih]

/-- What is closed by one of its own lines, or by nothing at all, does not
depend on what follows. -/
theorem countThrough_append {closes : Text → Bool} {own later later' : List Text}
    (hnil : later = [] → later' = []) (h : countThrough closes (own ++ later) = own.length) :
    countThrough closes (own ++ later') = own.length := by
  unfold countThrough at h ⊢
  rw [List.findIdx?_append] at h ⊢
  cases hf : own.findIdx? closes with
  | some k => simpa [hf] using h
  | none =>
    rw [hf] at h
    cases hl : later.findIdx? closes with
    | some k =>
      rw [hl] at h
      exact absurd h (by simp; omega)
    | none =>
      have : later = [] := by simpa [hl] using h
      simp [hnil this]

/-- Blank lines and lines that are indented far enough go on with indented code
until a line that is not, so an alike line ends it as well. -/
theorem Ahead.all_isBlank_takeWhile {later later' : List Text} (h : Ahead later later') {least : Nat}
    (hall : ∀ text ∈ later.takeWhile fun text => Line.isBlank text || least ≤ Line.indentWidth text,
      Line.isBlank text = true) :
    ∀ text ∈ later'.takeWhile fun text => Line.isBlank text || least ≤ Line.indentWidth text,
      Line.isBlank text = true := by
  induction h with
  | nil => simp
  | blank isBlank rest ih =>
    simp only [List.takeWhile_cons, isBlank, Bool.true_or, if_true, List.mem_cons, forall_eq_or_imp,
      true_and] at hall ⊢
    exact ih hall
  | @line text text' later later' isBlank isBlank' indent quoted =>
    have hwidth : Line.indentWidth text' = Line.indentWidth text := by rw [Line.indentWidth, indent]; rfl
    simp only [List.takeWhile_cons, isBlank, isBlank', Bool.false_or, hwidth] at hall ⊢
    split at hall
    · simp [isBlank] at hall
    · simp [*]

theorem length_dropEndWhile_append {p : Text → Bool} {own later : List Text} :
    (Text.dropEndWhile p (own ++ later)).length = own.length ↔
      (∀ text ∈ later, p text = true) ∧ (Text.dropEndWhile p own).length = own.length := by
  have hall : (later.reverse.dropWhile p).isEmpty = true ↔ ∀ text ∈ later, p text = true := by
    simp [List.dropWhile_eq_nil_iff]
  simp only [Text.dropEndWhile, List.reverse_append, List.dropWhile_append, List.length_reverse]
  split
  · rename_i h
    exact ⟨fun hlen => ⟨hall.mp h, by simpa using hlen⟩, fun hlen => by simpa using hlen.2⟩
  · rename_i h
    have hpos := List.length_pos_iff.mpr (mt List.isEmpty_iff.mpr h)
    constructor
    · intro hlen
      simp only [List.length_append, List.length_reverse] at hlen
      omega
    · rintro ⟨hlater, -⟩
      exact absurd (hall.mpr hlater) h

theorem countIndented_append {least : Nat} {own later later' : List Text} (ha : Ahead later later')
    (h : countIndented least (own ++ later) = own.length) :
    countIndented least (own ++ later') = own.length := by
  unfold countIndented at h ⊢
  dsimp only at h ⊢
  rw [List.takeWhile_append] at h ⊢
  split at h
  · rename_i hown
    obtain ⟨hblank, hend⟩ := length_dropEndWhile_append.mp h
    rw [if_pos hown]
    exact length_dropEndWhile_append.mpr ⟨ha.all_isBlank_takeWhile hblank, hend⟩
  · rename_i hown
    have h₁ := (List.rdropWhile_prefix Line.isBlank
      (own.takeWhile fun text => Line.isBlank text || least ≤ Line.indentWidth text)).length_le
    rw [← Text.dropEndWhile_eq_rdropWhile] at h₁
    have h₂ := length_takeWhile_le (fun text => Line.isBlank text || least ≤ Line.indentWidth text) own
    omega

theorem countHtml_append {kind : Line.HtmlKind} {text : Text} {own later later' : List Text}
    (ha : Ahead later later') (h : countHtml kind text (own ++ later) = own.length) :
    countHtml kind text (own ++ later') = own.length := by
  have hclose (closes : Text → Bool)
      (h : (if closes text then 0 else countThrough closes (own ++ later)) = own.length) :
      (if closes text then 0 else countThrough closes (own ++ later')) = own.length := by
    split at h
    · rwa [if_pos ‹_›]
    · rw [if_neg ‹_›]
      exact countThrough_append ha.eq_nil h
  cases kind with
  | generic =>
    obtain ⟨hown, hstop⟩ := length_takeWhile_append.mp h
    exact length_takeWhile_append.mpr ⟨hown, map_not_isBlank ha.isBlank_head? ▸ hstop⟩
  | comment => exact hclose _ h
  | raw => exact hclose _ h

theorem quotedRun_append {indent : Text} {depth : Nat} {own later : List Text}
    (h : own.length ≤ (quotedRun indent depth (own ++ later)).length) :
    ∃ inner, inner.length = own.length ∧
      ∀ others, quotedRun indent depth (own ++ others) = inner ++ quotedRun indent depth others := by
  induction own with
  | nil => exact ⟨[], rfl, fun others => rfl⟩
  | cons text own ih =>
    rw [List.cons_append, quotedRun] at h
    cases hq : quotedAt? indent depth text with
    | none => simp [hq] at h
    | some quoted =>
      rw [hq] at h
      obtain ⟨inner, hlen, hrun⟩ := ih (by simpa using h)
      refine ⟨quoted :: inner, by simp [hlen], fun others => ?_⟩
      rw [List.cons_append, quotedRun, hq]
      simp [hrun]

/-- How many further lines quoted structure takes. -/
theorem readQuote_structure {text : Text} {mark : Line.QuoteMark} {rest : List Text}
    (h : (readQuote text mark rest).1.looksAhead = false) :
    ∃ count : List Text → Nat, (∀ quoted, count quoted ≤ quoted.length) ∧
      (∀ inner quoted quoted' : List Text, quoted'.head?.map Line.isBlank = quoted.head?.map Line.isBlank →
        count (inner ++ quoted) = inner.length → count (inner ++ quoted') = inner.length) ∧
      ∀ others, readQuote text mark others =
        (.quotedStructure (Line.indent text) mark.depth,
          .through (count (quotedRun (Line.indent text) mark.depth others))) := by
  unfold readQuote at h ⊢
  dsimp only at h ⊢
  split at h
  · exact ⟨fun _ => 0, by simp, by simp, by simp [*]⟩
  · split at h
    · cases hf : Line.fence? (Text.trimStart mark.content) with
      | some fence =>
        refine ⟨_, countThrough_le _, fun inner quoted quoted' hq hc => ?_, by simp [*]; intro; rfl⟩
        refine countThrough_append (fun hnil => ?_) hc
        rw [hnil] at hq
        simpa using hq
      | none =>
        refine ⟨_, length_takeWhile_le _, fun inner quoted quoted' hq hc => ?_, by simp [*]; intro; rfl⟩
        obtain ⟨hinner, hstop⟩ := length_takeWhile_append.mp hc
        exact length_takeWhile_append.mpr ⟨hinner, map_not_isBlank hq ▸ hstop⟩
    · cases h

/-- A paragraph that is underlined ends with its underline. -/
theorem paragraphRest_append {column : Option Nat} {own later : List Text} (later' : List Text) {level : Nat}
    (ho : (paragraphRest column (own ++ later)).2 = .underlined level)
    (hm : (paragraphRest column (own ++ later)).1.length + 1 = own.length) :
    paragraphRest column (own ++ later') = paragraphRest column (own ++ later) := by
  induction own with
  | nil => cases hm
  | cons text own ih =>
    rw [List.cons_append, paragraphRest] at ho hm
    rw [List.cons_append, List.cons_append, paragraphRest, paragraphRest]
    dsimp only at ho hm ⊢
    generalize (if Line.indentWidth text ≤ 3 then Line.underlineLevel (Text.trimStart text) else 0) =
      underline at ho hm ⊢
    split at ho
    · simp [*]
    · split at ho
      · cases ho
      · split at ho
        · cases ho
        · rename_i hlevel hmark hends
          simp only [hlevel, hmark, hends, if_false, Bool.false_eq_true, List.length_cons,
            Nat.add_left_inj] at hm
          have hown : own ≠ [] := by
            rintro rfl
            cases hm
          have hnext : (own ++ later').headD [] = (own ++ later).headD [] := by
            cases own with
            | nil => exact absurd rfl hown
            | cons => rfl
          simp only [if_neg hlevel, if_neg hmark, hnext, if_neg hends, ih ho hm]

theorem headD_append {lines : List Text} (later : List Text) (h : lines ≠ []) :
    (lines ++ later).headD [] = lines.headD [] := by
  cases lines with
  | nil => exact absurd rfl h
  | cons => rfl

/-- A line without a mark begins no block but those that look ahead, and
underlined headings. -/
theorem readPlain_cases (column : Option Nat) (before : List Section) (text : Text) (rest : List Text) :
    (readPlain column before text rest).kind.looksAhead = true ∨
      ∃ level, (paragraphRest column rest).2 = .underlined level ∧
        (readPlain column before text rest).more = (paragraphRest column rest).1.length + 1 ∧
        ∀ others, others.headD [] = rest.headD [] →
          readPlain column before text others =
            ⟨(readParagraph column text others).1, (readParagraph column text others).2, column, before⟩ := by
  unfold readPlain
  dsimp only
  split
  · exact .inl rfl
  · split
    · exact .inl rfl
    · split
      · exact .inl rfl
      · rename_i htable _ _
        split
        · exact .inl rfl
        · cases ho : (paragraphRest column rest).2 with
          | plain => exact .inl (by simp [readParagraph, ho, BlockKind.looksAhead])
          | defined => exact .inl (by simp [readParagraph, ho, BlockKind.looksAhead])
          | underlined level =>
            refine .inr ⟨level, rfl, by simp [readParagraph, ho], fun others h => ?_⟩
            rw [if_neg (h ▸ htable)]

/-- A block that does not look ahead is read in the same way before lines that
are alike. -/
theorem readSection_congr_ahead {column : Option Nat} {before : List Section} {text : Text}
    {own later later' : List Text} (ha : Ahead later later')
    (hk : (readSection column before text (own ++ later)).kind.looksAhead = false)
    (hm : (readSection column before text (own ++ later)).more = own.length) :
    readSection column before text (own ++ later') = readSection column before text (own ++ later) := by
  rw [readSection_eq] at hk hm
  rw [readSection_eq, readSection_eq]
  generalize opening column text = first at hk hm ⊢
  cases first with
  | blank =>
    obtain ⟨hown, hstop⟩ := length_takeWhile_append.mp hm
    have hlen := length_takeWhile_append.mpr ⟨hown, ha.isBlank_head?.symm ▸ hstop⟩
    simp only [Opening.read, Reading.more, Extent.through] at hm ⊢
    rw [hlen, hm]
  | indented =>
    simp only [Opening.read, Reading.more, Extent.through] at hm ⊢
    rw [countIndented_append ha hm, hm]
  | fence mark =>
    simp only [Opening.read, Reading.more, Extent.through] at hm ⊢
    rw [countThrough_append ha.eq_nil hm, hm]
  | heading level => rfl
  | thematicBreak => rfl
  | quote mark =>
    obtain ⟨count, hle, hcount, hread⟩ := readQuote_structure hk
    simp only [Opening.read, hread, Reading.more, Extent.through] at hm ⊢
    obtain ⟨inner, hlen, hrun⟩ := quotedRun_append (hm ▸ hle _)
    rw [hrun, ← hlen] at hm
    rw [hrun, hrun, hcount inner _ _ (ha.quotedRun_head? _ _) hm, hm]
  | item mark => cases hk
  | html kind =>
    simp only [Opening.read, Reading.more, Extent.through] at hm ⊢
    rw [countHtml_append ha hm, hm]
  | plain =>
    simp only [Opening.read] at hk hm ⊢
    rcases readPlain_cases (openColumn column text) before text (own ++ later) with
      h | ⟨level, ho, hmore, hread⟩
    · exact absurd (h.symm.trans hk) (by decide)
    · have hown := hmore.symm.trans hm
      have hne : own ≠ [] := List.ne_nil_of_length_pos (by omega)
      rw [hread _ ((headD_append _ hne).trans (headD_append _ hne).symm), hread _ rfl]
      unfold readParagraph
      rw [paragraphRest_append later' ho hown]

/-! ## Sections before -/

theorem attach?_bare (before : List Section) :
    attach? (before.map Section.bare) = (attach? before).map (List.map Section.bare) := by
  cases before with
  | nil => rfl
  | cons part before =>
    obtain ⟨kind, count⟩ := part
    cases kind with
    | prose prose =>
      obtain ⟨form, lines⟩ := prose
      cases form <;> rfl
    | _ => rfl

theorem makeTerm?_bare (before : List Section) :
    makeTerm? (before.map Section.bare) = (makeTerm? before).map (List.map Section.bare) := by
  cases before with
  | nil => rfl
  | cons part before =>
    have hblank : part.bare.kind = .blank ↔ part.kind = .blank := by
      cases h : part.kind <;> simp [Section.bare, BlockKind.bare, h]
    simp only [makeTerm?, List.map_cons, hblank]
    split
    · rw [attach?_bare]
      cases attach? before <;> rfl
    · exact attach?_bare (part :: before)

/-- What is read depends on the sections before it only by their kinds. -/
theorem readSection_congr_before {before before' : List Section} (column : Option Nat) (text : Text)
    (rest : List Text) (h : before'.map Section.bare = before.map Section.bare) :
    ∃ sections, readSection column before' text rest =
        { readSection column before text rest with before := sections } ∧
      sections.map Section.bare = (readSection column before text rest).before.map Section.bare := by
  rw [readSection_eq, readSection_eq]
  cases opening column text with
  | plain =>
    simp only [Opening.read]
    have hterm : (makeTerm? before').map (List.map Section.bare) =
        (makeTerm? before).map (List.map Section.bare) := by
      rw [← makeTerm?_bare, h, makeTerm?_bare]
    unfold readPlain
    dsimp only
    split
    · exact ⟨before', rfl, h⟩
    · split
      · exact ⟨before', rfl, h⟩
      · split
        · exact ⟨before', rfl, h⟩
        · cases Line.definitionMark? text with
          | none => exact ⟨before', rfl, h⟩
          | some body =>
            cases hb : makeTerm? before with
            | none =>
              rw [hb, Option.map_none, Option.map_eq_none_iff] at hterm
              rw [hterm]
              exact ⟨before', rfl, h⟩
            | some promoted =>
              rw [hb, Option.map_some, Option.map_eq_some_iff] at hterm
              obtain ⟨promoted', hb', hsame⟩ := hterm
              rw [hb']
              exact ⟨promoted', rfl, hsame⟩
  | _ => exact ⟨before', rfl, h⟩

/-- The sections before a block of a kind, once it has been read: a definition
makes a term of what it defines. -/
def settle (before : List Section) : BlockKind → List Section
  | .prose ⟨.definition _, _⟩ => (makeTerm? before).getD before
  | _ => before

theorem before_readSection (column : Option Nat) (before : List Section) (text : Text) (rest : List Text) :
    (readSection column before text rest).before =
      settle before (readSection column before text rest).kind.bare := by
  have hread := sectionReading column before text rest
  generalize readSection column before text rest = read at hread ⊢
  cases hread with
  | blank | quote | item | term | paragraph => rfl
  | definition hblank hquote hmark hterm => simp [readDefinition, BlockKind.bare, settle, hterm]
  | @other kind _ _ _ hkind =>
    cases kind with
    | prose | term | blank | frontMatter => cases hkind
    | _ => rfl

theorem settle_bare {before before' : List Section} (h : before'.map Section.bare = before.map Section.bare)
    (kind : BlockKind) : (settle before' kind).map Section.bare = (settle before kind).map Section.bare := by
  have hgetD (before : List Section) : ((makeTerm? before).getD before).map Section.bare =
      (makeTerm? (before.map Section.bare)).getD (before.map Section.bare) := by
    rw [makeTerm?_bare]
    cases makeTerm? before <;> rfl
  unfold settle
  split
  · rw [hgetD, hgetD, h]
  · exact h

/-! ## The first line of prose -/

/-- Prose begins on a line as its form tells. -/
theorem begins_of_readSection {column : Option Nat} {before : List Section} {text : Text} {rest : List Text}
    {prose : Prose} (h : (readSection column before text rest).kind = .prose prose) :
    Line.isBlank text = false ∧ prose.form.Begins text := by
  have hread := sectionReading column before text rest
  generalize readSection column before text rest = read at hread h
  cases hread with
  | blank | term => cases h
  | other hblank hkind =>
    cases h
    cases hkind
  | quote hblank hmark hcontent =>
    cases h
    exact ⟨hblank, rfl, _, hmark, hcontent⟩
  | item hblank hquote hmark =>
    cases h
    exact ⟨hblank, rfl, hquote⟩
  | definition hblank hquote hmark hterm =>
    cases h
    exact ⟨hblank, ⟨_, hmark⟩, hquote⟩
  | paragraph hblank hquote hplain =>
    cases h
    exact ⟨hblank, rfl, hquote⟩

/-- A definition is indented as its marker is. -/
theorem indent_of_definitionMark? {text : Text} {body : Line.DefinitionMark}
    (h : Line.definitionMark? text = some body) : Line.indent text = Line.indent body.marker := by
  unfold Line.definitionMark? at h
  dsimp only at h
  split at h
  · split at h
    · cases h
    · split at h <;> cases h
      have hlead : ∀ c ∈ Line.indent text, Text.isIndent c = true :=
        fun c hc => List.mem_takeWhile_imp hc
      conv => rhs; rw [Line.indent, List.takeWhile_append_of_pos hlead]
      simp [Text.isIndent]
  · cases h

/-- Lines on which prose of one form begins are alike. -/
theorem Ahead.of_begins {form : ProseForm} {text text' : Text} (hblank : Line.isBlank text = false)
    (hblank' : Line.isBlank text' = false) (h : form.Begins text) (h' : form.Begins text')
    (later later' : List Text) : Ahead (text :: later) (text' :: later') := by
  have hnone {text : Text} (h : Line.quoteMark? (Line.content text) = none) (indent : Text) (depth : Nat) :
      quotedAt? indent depth text = none := by
    simp [quotedAt?, h]
  cases form with
  | paragraph indent =>
    refine .line hblank hblank' (h'.1.trans h.1.symm) fun indent depth => ?_
    rw [hnone h.2, hnone h'.2]
  | listItem indent marker ordered further =>
    refine .line hblank hblank' (h'.1.trans h.1.symm) fun indent depth => ?_
    rw [hnone h.2, hnone h'.2]
  | quote indent depth =>
    obtain ⟨hindent, content, hmark, hcontent⟩ := h
    obtain ⟨hindent', content', hmark', hcontent'⟩ := h'
    refine .line hblank hblank' (hindent'.trans hindent.symm) fun other depth' => ?_
    simp only [quotedAt?, hindent, hindent', hmark, hmark']
    split
    · split <;> simp [hcontent, hcontent']
    · rfl
  | definition marker =>
    obtain ⟨⟨content, hmark⟩, hquote⟩ := h
    obtain ⟨⟨content', hmark'⟩, hquote'⟩ := h'
    refine .line hblank hblank' ?_ fun indent depth => by rw [hnone hquote, hnone hquote']
    rw [indent_of_definitionMark? hmark, indent_of_definitionMark? hmark']

/-! ## Terms and definitions -/

/-- A paragraph turns out as the line after it tells. -/
theorem outcome_of_paragraphRest {column : Option Nat} {own later : List Text}
    (h : (paragraphRest column (own ++ later)).1.length = own.length) :
    (paragraphRest column (own ++ later)).2 = (paragraphRest column later).2 ∧
      (paragraphRest column later).1 = [] := by
  induction own with
  | nil => exact ⟨rfl, List.length_eq_zero_iff.mp h⟩
  | cons text own ih =>
    rw [List.cons_append, paragraphRest] at h ⊢
    dsimp only at h ⊢
    generalize (if Line.indentWidth text ≤ 3 then Line.underlineLevel (Text.trimStart text) else 0) =
      underline at h ⊢
    split at h
    · cases h
    · split at h
      · cases h
      · split at h
        · cases h
        · simp only [*]
          exact ih (Nat.add_right_cancel h)

/-- The definition that follows makes a paragraph a term. -/
theorem defined_iff {column : Option Nat} {later : List Text} (hnil : (paragraphRest column later).1 = [])
    (hplain : ∀ level, (paragraphRest column later).2 ≠ .underlined level) :
    (paragraphRest column later).2 = .defined ↔ (Line.definitionMark? (later.headD [])).isSome = true := by
  cases later with
  | nil => simp [paragraphRest, Line.definitionMark?, Line.indent]
  | cons text later =>
    rw [paragraphRest] at hnil hplain ⊢
    dsimp only at hnil hplain ⊢
    generalize (if Line.indentWidth text ≤ 3 then Line.underlineLevel (Text.trimStart text) else 0) =
      underline at hnil hplain ⊢
    generalize endsProse column text (later.headD []) = ends at hnil ⊢
    by_cases hlevel : 0 < underline
    · rw [if_pos hlevel] at hplain
      exact absurd rfl (hplain underline)
    · rw [if_neg hlevel] at hnil ⊢
      by_cases hmark : (Line.definitionMark? text).isSome = true
      · simp [hmark]
      · rw [if_neg hmark] at hnil ⊢
        cases ends with
        | true => simp [hmark]
        | false => cases hnil

theorem readPlain_of_isDefinable {column : Option Nat} {before : List Section} {text : Text}
    {rest : List Text} (h : (readPlain column before text rest).kind.isDefinable = true) :
    readPlain column before text rest =
      ⟨(readParagraph column text rest).1, (readParagraph column text rest).2, column, before⟩ := by
  unfold readPlain at h ⊢
  dsimp only at h ⊢
  split at h
  · cases h
  · split at h
    · cases h
    · split at h
      · cases h
      · rename_i htable hreference hdirective
        rw [if_neg htable, if_neg hreference, if_neg hdirective]
        split at h
        · cases h
        · rfl

/-- Whether a block that can be defined is a paragraph or a term is told by the
line after it. -/
theorem bare_of_isDefinable {column : Option Nat} {before : List Section} {text : Text}
    {own later : List Text} (hk : (readSection column before text (own ++ later)).kind.isDefinable = true)
    (hm : (readSection column before text (own ++ later)).more = own.length) :
    (readSection column before text (own ++ later)).kind.bare =
      if (Line.definitionMark? (later.headD [])).isSome then .term []
      else .prose ⟨.paragraph (Line.indent text), []⟩ := by
  rw [readSection_eq] at hk hm ⊢
  generalize opening column text = first at hk hm ⊢
  cases first with
  | quote mark =>
    rcases readQuote_kind text mark (own ++ later) with hkind | ⟨-, lines, hkind⟩ <;>
      simp only [Opening.read, hkind] at hk <;> cases hk
  | plain =>
    simp only [Opening.read] at hk hm ⊢
    have hread := readPlain_of_isDefinable hk
    rw [hread] at hk hm ⊢
    simp only [readParagraph] at hk hm ⊢
    cases ho : (paragraphRest (openColumn column text) (own ++ later)).2 with
    | underlined level =>
      rw [ho] at hk
      cases hk
    | plain =>
      rw [ho] at hm
      obtain ⟨hsame, hnil⟩ := outcome_of_paragraphRest hm
      rw [ho] at hsame
      have hdefined := defined_iff hnil (by simp [← hsame])
      rw [← hsame] at hdefined
      rw [if_neg (by simpa using hdefined)]
      rfl
    | defined =>
      rw [ho] at hm
      obtain ⟨hsame, hnil⟩ := outcome_of_paragraphRest hm
      rw [ho] at hsame
      have hdefined := defined_iff hnil (by simp [← hsame])
      rw [if_pos (hdefined.mp hsame.symm)]
      rfl
  | _ => cases hk

/-- A line with the mark of a definition begins with a colon. -/
theorem definitionMark?_eq_none {text : Text} (h : (Line.content text).head? ≠ some ':') :
    Line.definitionMark? text = none := by
  unfold Line.definitionMark?
  dsimp only
  rw [show text.drop (Line.indent text).length = Line.content text from Text.drop_length_takeWhile _ text]
  split
  · rename_i rest hrest
    exact absurd (by rw [hrest]; rfl) h
  · rfl

/-- After something that can be defined, prose is a definition just if its
first line has the mark. -/
theorem definitionMark?_of_prose {column : Option Nat} {before : List Section} {text : Text}
    {rest : List Text} {prose : Prose} (h : (readSection column before text rest).kind = .prose prose)
    (hbefore : (makeTerm? before).isSome = true) :
    (Line.definitionMark? text).isSome = prose.form.isDefinition := by
  have hread := sectionReading column before text rest
  generalize readSection column before text rest = read at hread h
  cases hread with
  | blank | term => cases h
  | other hblank hkind =>
    cases h
    cases hkind
  | quote hblank hmark hcontent =>
    have hnone : Line.definitionMark? text = none := definitionMark?_eq_none fun hcolon => by
      rw [Line.quoteMark?, hcolon] at hmark
      cases hmark
    cases h
    rw [hnone]
    rfl
  | item hblank hquote hmark =>
    have hnone : Line.definitionMark? text = none := definitionMark?_eq_none fun hcolon => by
      obtain ⟨rest, hrest⟩ := List.head?_eq_some_iff.mp hcolon
      rw [hrest] at hmark
      simp [Line.itemMark?, Line.bullet?, Line.enumerator?] at hmark
    cases h
    rw [hnone]
    rfl
  | definition hblank hquote hmark hterm =>
    cases h
    rw [hmark]
    rfl
  | paragraph hblank hquote hplain =>
    obtain ⟨promoted, hpromoted⟩ := Option.isSome_iff_exists.mp hbefore
    have hnone : Line.definitionMark? text = none :=
      Option.eq_none_iff_forall_ne_some.mpr fun body hbody => hplain body promoted hbody hpromoted
    cases h
    rw [hnone]
    rfl

end Block

end ProseWrap
