import ProseWrap.Proofs.HardBreaks
import ProseWrap.Proofs.Rereading

/-!
# The lines of prose

Every block of prose was read at its first line, with all further lines of the
document after it (`ReadOn`, `readOn_of_mem_blocks`): later blocks may make a
term of a paragraph, but prose that is still there is as it was read. So what
the readers hold to holds of the blocks of a document. A line of prose is a
line of the document without what that one begins with
(`Prose.WrittenOn.strips`), and no further line of prose would begin a block of
another kind (`Uninterrupted`), whichever list item was open where the block
was read.
-/

namespace ProseWrap

/-! ## Where prose was read -/

namespace Block

/-- Prose has been read on the first `count` of some lines, with the others
after them. -/
def ReadOn (prose : Prose) (count : Nat) (texts : List Text) : Prop :=
  ∃ column before first rest, texts = first :: rest ∧
    (readSection column before first rest).kind = .prose prose ∧
    (readSection column before first rest).more + 1 = count

/-- Sections lie one after the other on lines, and those of prose have been
read there. -/
def Readings : List Section → List Text → Prop
  | [], _ => True
  | part :: others, texts =>
    (∀ prose, part.kind = .prose prose → ReadOn prose part.count texts) ∧
      Readings others (texts.drop part.count)

/-- The sections that are yielded have been read one after the other. -/
theorem readings_of_yields {stage : Stage} {texts : List Text} {back : List Section}
    (h : stage.Yields texts back) : Readings back texts := by
  induction back generalizing stage texts with
  | nil => trivial
  | cons part others ih =>
    cases texts with
    | nil =>
      -- without lines nothing is read
      obtain ⟨front, hout, hlen⟩ := h
      have hlength := congrArg List.length hout
      simp only [Stage.outline, outlineFrom, List.length_reverse, List.length_append, List.length_cons] at hlength
      omega
    | cons text rest =>
      have hle := (readSection_sound stage.column stage.before text rest).more_le
      generalize hread : readSection stage.column stage.before text rest = read at hle
      have hsplit : text :: rest = (text :: rest.take read.more) ++ rest.drop read.more := by simp
      have hstage : stage.read (text :: rest.take read.more) (rest.drop read.more) = read := by
        simp [Stage.read, hread]
      rw [hsplit] at h
      obtain ⟨hpart, hothers⟩ := h.cons (by simp)
      rw [hstage] at hpart hothers
      refine ⟨fun prose hprose => ?_, ?_⟩
      · have hkind : read.kind = .prose prose := hpart.kind_eq_prose hprose
        exact ⟨stage.column, stage.before, text, rest, rfl, by rw [hread, hkind], by rw [hread, hpart.count_eq]⟩
      · rw [hpart.count_eq, List.drop_succ_cons]
        exact ih (hothers (by simp [hle]))

theorem readings_outline (texts : List Text) : Readings (outline texts) texts := by
  cases texts with
  | nil => trivial
  | cons text rest =>
    cases hfound : frontMatter? text rest with
    | none =>
      have hout : Stage.outline ⟨none, []⟩ (text :: rest) = outline (text :: rest) := by
        rw [outline, hfound]
        rfl
      have hyields : Stage.Yields ⟨none, []⟩ (text :: rest) (outline (text :: rest)) := ⟨[], hout, rfl⟩
      exact readings_of_yields hyields
    | some found =>
      obtain ⟨format, extent⟩ := found
      have hle := (frontMatter?_extent hfound).1
      have hsplit : text :: rest = (text :: rest.take extent.last) ++ rest.drop extent.last := by simp
      have hne : text :: rest.take extent.last ≠ [] := by simp
      have hagain : frontMatter? ((text :: rest.take extent.last).headD [])
          ((text :: rest.take extent.last).tail ++ rest.drop extent.last) = some (format, extent) := by
        simpa using hfound
      obtain ⟨back, hcons, hrest⟩ := outline_eq_cons_of_frontMatter hne hagain
      rw [← hsplit] at hcons
      rw [hcons]
      refine ⟨by simp, ?_⟩
      rw [List.drop_succ_cons]
      exact readings_of_yields ⟨[_], hrest (by simp [hle]), rfl⟩

/-- The prose of sections that are placed on lines has been read there. -/
theorem readOn_of_mem_place {first : Nat} {lines : List Line} {parts : List Section} {block : Block} {prose : Prose}
    (hl : Laid parts (lines.map Line.text)) (h : Readings parts (lines.map Line.text))
    (hb : block ∈ place first lines parts) (hkind : block.kind = .prose prose) :
    ∃ k, block.firstLine = first + k ∧
      ReadOn prose (block.lastLine + 1 - block.firstLine) ((lines.map Line.text).drop k) := by
  induction parts generalizing first lines with
  | nil => cases hb
  | cons part parts ih =>
    obtain ⟨hpart, hparts⟩ := h
    obtain ⟨hnext, -, -, hl⟩ := hl
    rw [place, Section.step_eq_count hnext] at hb
    rcases List.mem_cons.mp hb with rfl | hb
    · have hread := hpart prose hkind
      refine ⟨0, rfl, ?_⟩
      dsimp only
      rwa [Nat.add_assoc, Nat.add_sub_cancel_left, List.drop_zero]
    · obtain ⟨k, hfirst, hread⟩ := ih (by rwa [List.map_drop]) (by rwa [List.map_drop]) hb
      refine ⟨part.count + k, by rw [hfirst, Nat.add_assoc], ?_⟩
      rwa [List.map_drop, List.drop_drop] at hread

end Block

/-- The prose of a document has been read on the lines of its block. -/
theorem readOn_of_mem_blocks {text : Text} {block : Block} {prose : Prose}
    (hb : block ∈ (Document.ofText text).blocks) (hkind : block.kind = .prose prose) :
    Block.ReadOn prose (block.lastLine + 1 - block.firstLine)
      (((Line.split text).map Line.text).drop block.firstLine) := by
  obtain ⟨k, hfirst, hread⟩ := Block.readOn_of_mem_place (Block.laid_outline _) (Block.readings_outline _) hb hkind
  rw [hfirst, Nat.zero_add]
  rwa [hfirst, Nat.zero_add] at hread

/-! ## What the lines begin with -/

/-- What may stand before a line of prose, the `k`-th of its block: blanks,
marks of a quotation before a line that is quoted, and before the first line
the marker that the form records. -/
def ProseForm.Strips (form : ProseForm) (k : Nat) (removed : Text) : Prop :=
  match form, k with
  | .listItem indent marker _ _, 0 =>
    ∃ gap, removed = indent ++ marker ++ gap ∧ ∀ c ∈ indent ++ gap, Text.isBlank c = true
  | .definition marker, 0 => removed = marker
  | .quote _ _, _ => ∀ c ∈ removed, Text.isBlank c = true ∨ c = '>'
  | _, _ => ∀ c ∈ removed, Text.isBlank c = true

theorem isBlank_of_mem_indent {text : Text} : ∀ c ∈ Line.indent text, Text.isBlank c = true :=
  fun _ hc => Text.isBlank_of_isIndent (List.mem_takeWhile_imp hc)

theorem exists_append_trimStart (text : Text) :
    ∃ blanks, text = blanks ++ Text.trimStart text ∧ ∀ c ∈ blanks, Text.isBlank c = true :=
  ⟨text.takeWhile Text.isBlank, List.takeWhile_append_dropWhile.symm, fun _ hc => List.mem_takeWhile_imp hc⟩

/-- Before what a text quotes stand blanks and marks only. -/
theorem exists_append_unquote (fuel depth : Nat) (text : Text) :
    ∃ marks, text = marks ++ (Line.unquote fuel depth text).content ∧
      ∀ c ∈ marks, Text.isBlank c = true ∨ c = '>' := by
  have hspace (rest : Text) : ∃ space, rest = space ++ (if rest.head? == some ' ' then rest.drop 1 else rest) ∧
      ∀ c ∈ space, Text.isBlank c = true ∨ c = '>' := by
    split
    · rename_i hhead
      obtain ⟨more, rfl⟩ := List.head?_eq_some_iff.mp (by simpa using hhead)
      exact ⟨[' '], rfl, by simp; decide⟩
    · exact ⟨[], rfl, by simp⟩
  fun_induction Line.unquote fuel depth text with
  | case1 fuel depth rest rest' gap _ ih =>
    obtain ⟨space, hrest, hspaces⟩ := hspace rest
    obtain ⟨marks, hmarks, hblank⟩ := ih
    have hgap : rest' = Line.indent rest' ++ rest'.drop gap := by
      rw [show rest'.drop gap = Line.content rest' from Text.drop_length_takeWhile _ _]
      exact List.takeWhile_append_dropWhile.symm
    refine ⟨'>' :: (space ++ Line.indent rest' ++ marks), ?_, ?_⟩
    · rw [List.cons_append, List.append_assoc, List.append_assoc, ← hmarks, ← hgap, ← hrest]
    · simp only [List.mem_cons, List.mem_append]
      rintro c (rfl | (hc | hc) | hc)
      · exact .inr rfl
      · exact hspaces c hc
      · exact .inl (isBlank_of_mem_indent c hc)
      · exact hblank c hc
  | case2 fuel depth rest rest' gap _ =>
    obtain ⟨space, hrest, hspaces⟩ := hspace rest
    refine ⟨'>' :: space, by rw [List.cons_append, ← hrest], ?_⟩
    rintro c (_ | ⟨_, hc⟩)
    · exact .inr rfl
    · exact hspaces c hc
  | case3 => exact ⟨[], rfl, by simp⟩

theorem exists_append_quotedAt? {indent text quoted : Text} {depth : Nat}
    (h : Block.quotedAt? indent depth text = some quoted) :
    ∃ removed, text = removed ++ Text.trimStart quoted ∧ ∀ c ∈ removed, Text.isBlank c = true ∨ c = '>' := by
  obtain ⟨marks, hmarks, hmark⟩ := exists_append_unquote depth 0 (Line.content text)
  obtain ⟨blanks, hblanks, hblank⟩ := exists_append_trimStart quoted
  rw [(unquote_of_quotedAt? h).2] at hmarks
  refine ⟨Line.indent text ++ marks ++ blanks, ?_, ?_⟩
  · calc text = Line.indent text ++ Line.content text := List.takeWhile_append_dropWhile.symm
      _ = Line.indent text ++ (marks ++ quoted) := by rw [← hmarks]
      _ = Line.indent text ++ marks ++ blanks ++ Text.trimStart quoted := by
        rw [List.append_assoc, List.append_assoc, ← hblanks]
  · simp only [List.mem_append]
    rintro c ((hc | hc) | hc)
    · exact .inl (isBlank_of_mem_indent c hc)
    · exact hmark c hc
    · exact .inl (hblank c hc)

/-- A line that quotes something is not blank. -/
theorem isBlank_of_quotedAt? {indent text quoted : Text} {depth : Nat}
    (h : Block.quotedAt? indent depth text = some quoted) : Line.isBlank text = false := by
  refine Bool.of_not_eq_true fun hblank => ?_
  have hcontent : Line.content text = [] := List.dropWhile_eq_nil_iff.mpr (List.all_eq_true.mp hblank)
  simp [Block.quotedAt?, hcontent, Line.quoteMark?] at h

/-- Each line of prose is a line that it is written on, without what that one
begins with. -/
theorem Prose.WrittenOn.strips {prose : Prose} {texts : List Text} (hw : prose.WrittenOn texts) {k : Nat}
    {line : Text} (hline : prose.lines[k]? = some line) :
    ∃ text removed, texts[k]? = some text ∧ text = removed ++ line ∧ prose.form.Strips k removed := by
  have htrimmed {rest : List Text} {k : Nat} (h : (rest.map Text.trimStart)[k]? = some line) :
      ∃ text removed, rest[k]? = some text ∧ text = removed ++ line ∧ ∀ c ∈ removed, Text.isBlank c = true := by
    rw [List.getElem?_map, Option.map_eq_some_iff] at h
    obtain ⟨text, htext, rfl⟩ := h
    obtain ⟨blanks, hblanks, hblank⟩ := exists_append_trimStart text
    exact ⟨text, blanks, htext, hblanks, hblank⟩
  obtain ⟨form, lines⟩ := prose
  cases form with
  | paragraph indent =>
    obtain ⟨first, rest, rfl, -, rfl⟩ := hw
    cases k with
    | zero =>
      cases hline
      exact ⟨first, Line.indent first, rfl, List.takeWhile_append_dropWhile.symm, isBlank_of_mem_indent⟩
    | succ k => exact htrimmed hline
  | listItem indent marker ordered further =>
    obtain ⟨first, rest, content, rfl, rfl, hitem, -, rfl⟩ := hw
    cases k with
    | zero =>
      cases hline
      obtain ⟨gap, hgap⟩ := append_of_itemMark? hitem
      refine ⟨first, Line.indent first ++ marker ++ Line.indent gap, rfl, ?_, Line.indent gap, rfl, ?_⟩
      · calc first = Line.indent first ++ Line.content first := List.takeWhile_append_dropWhile.symm
          _ = Line.indent first ++ marker ++ Line.indent gap ++ line := by
            rw [hgap, List.append_assoc, List.append_assoc]
      · exact fun c hc => (List.mem_append.mp hc).elim (isBlank_of_mem_indent c) (isBlank_of_mem_indent c)
    | succ k => exact htrimmed hline
  | quote indent depth =>
    obtain ⟨quoted, hquoted, rfl⟩ := hw
    rw [List.getElem?_map, Option.map_eq_some_iff] at hline
    obtain ⟨inner, hinner, rfl⟩ := hline
    have htext : (texts.map (Block.quotedAt? indent depth))[k]? = some (some inner) := by
      rw [hquoted, List.getElem?_map, hinner]
      rfl
    rw [List.getElem?_map, Option.map_eq_some_iff] at htext
    obtain ⟨text, htext, hat⟩ := htext
    obtain ⟨removed, hremoved, hmarks⟩ := exists_append_quotedAt? hat
    exact ⟨text, removed, htext, hremoved, hmarks⟩
  | definition marker =>
    obtain ⟨first, rest, content, rfl, hbody, rfl⟩ := hw
    cases k with
    | zero =>
      cases hline
      exact ⟨first, marker, rfl, append_of_definitionMark? hbody, rfl⟩
    | succ k => exact htrimmed hline

/-! ## Lines that go on with prose -/

namespace Block

theorem isMarked_eq_false {text : Text} : isMarked text = false ↔
    Line.fence? text = none ∧ Line.atxLevel text = 0 ∧ Line.isThematicBreak text = false ∧
      Line.itemMark? text = none := by
  simp [isMarked, and_assoc]

/-- A line that does not end prose is not blank, and begins no block unless it
is indented further than structure may be. -/
theorem endsProse_eq_false {column : Option Nat} {text next : Text} (h : endsProse column text next = false) :
    Line.isBlank text = false ∧ (Line.indentWidth text ≤ column.getD 0 + 3 →
      isMarked (Text.trimStart text) = false ∧ Line.quoteMark? (Text.trimStart text) = none ∧
        Line.definitionMark? text = none ∧ Line.beginsTable (Text.trimStart text) next = false) := by
  unfold endsProse at h
  split at h
  · cases h
  · rename_i hblank
    refine ⟨by simpa using hblank, fun hindent => ?_⟩
    rw [if_neg (by omega)] at h
    simpa [and_assoc] using h

/-- Of the lines after a first one, the `more` that a block takes all go on
with its prose; and if it is a paragraph, none of them underlines it. -/
structure Uninterrupted (form : ProseForm) (more : Nat) (rest : List Text) : Prop where
  goesOn : ∃ column, ∀ k < more, ∀ text, rest[k]? = some text →
    endsProse column text (rest[k + 1]?.getD []) = false
  notUnderlined : ∀ indent, form = .paragraph indent → ∀ k < more, ∀ text, rest[k]? = some text →
    Line.indentWidth text ≤ 3 → Line.underlineLevel (Text.trimStart text) = 0

theorem endsProse_of_continuation {column : Option Nat} {least : Nat} {rest : List Text} :
    ∀ k < (continuation column least rest).length, ∀ text, rest[k]? = some text →
      endsProse column text (rest[k + 1]?.getD []) = false ∧ least ≤ Line.indentWidth text := by
  fun_induction continuation column least rest with
  | case1 => simp
  | case2 => simp
  | case3 line rest hends ih =>
    intro k hk text htext
    cases k with
    | zero =>
      cases htext
      rw [Bool.or_eq_true, not_or] at hends
      exact ⟨by simpa [List.headD_eq_head?_getD, List.head?_eq_getElem?] using hends.1, by simpa using hends.2⟩
    | succ k => exact ih k (by simpa using hk) text htext

theorem endsProse_of_paragraphRest {column : Option Nat} {rest : List Text} :
    ∀ k < (paragraphRest column rest).1.length, ∀ text, rest[k]? = some text →
      endsProse column text (rest[k + 1]?.getD []) = false ∧
        (Line.indentWidth text ≤ 3 → Line.underlineLevel (Text.trimStart text) = 0) := by
  fun_induction paragraphRest column rest with
  | case1 => simp
  | case2 => simp
  | case3 => simp
  | case4 => simp
  | case5 line rest level hlevel _ hends more ih =>
    intro k hk text htext
    cases k with
    | zero =>
      cases htext
      refine ⟨by simpa [List.headD_eq_head?_getD, List.head?_eq_getElem?] using hends, fun hindent => ?_⟩
      simpa [level, hindent] using hlevel
    | succ k => exact ih k (by simpa using hk) text htext

theorem uninterrupted_of_continuation {form : ProseForm} (column : Option Nat) (least : Nat) (rest : List Text)
    (hform : ∀ indent, form ≠ .paragraph indent) :
    Uninterrupted form (continuation column least rest).length rest :=
  ⟨⟨column, fun k hk text htext => (endsProse_of_continuation k hk text htext).1⟩,
    fun indent h => absurd h (hform indent)⟩

/-- Prose that is no quotation takes only lines that go on with it. -/
theorem uninterrupted_of_readSection {column : Option Nat} {before : List Section} {text : Text} {rest : List Text}
    {prose : Prose} (h : (readSection column before text rest).kind = .prose prose)
    (hquote : ∀ indent depth, prose.form ≠ .quote indent depth) :
    Uninterrupted prose.form (readSection column before text rest).more rest := by
  have hread := sectionReading column before text rest
  generalize readSection column before text rest = read at hread h ⊢
  cases hread with
  | blank | term => cases h
  | other hblank hkind =>
    cases h
    cases hkind
  | quote =>
    cases h
    exact absurd rfl (hquote _ _)
  | item =>
    cases h
    exact uninterrupted_of_continuation _ _ rest (by simp)
  | definition =>
    cases h
    exact uninterrupted_of_continuation _ _ rest (by simp)
  | paragraph =>
    cases h
    exact ⟨⟨_, fun k hk line hline => (endsProse_of_paragraphRest k hk line hline).1⟩,
      fun _ _ k hk line hline => (endsProse_of_paragraphRest k hk line hline).2⟩

end Block

/-! ## Documents -/

section

variable {text : Text} {block : Block} {prose : Prose}

/-- The first line of prose is not blank, and the further ones go on with
it. -/
theorem exists_uninterrupted (hb : block ∈ (Document.ofText text).blocks) (hkind : block.kind = .prose prose) :
    ∃ first rest, ((Line.split text).map Line.text).drop block.firstLine = first :: rest ∧
      Line.isBlank first = false ∧ ((∀ indent depth, prose.form ≠ .quote indent depth) →
        Block.Uninterrupted prose.form (block.lastLine - block.firstLine) rest) := by
  obtain ⟨column, before, first, rest, htexts, hread, hmore⟩ := readOn_of_mem_blocks hb hkind
  refine ⟨first, rest, htexts, (Block.begins_of_readSection hread).1, fun hquote => ?_⟩
  have hcount : block.lastLine - block.firstLine = (Block.readSection column before first rest).more := by omega
  rw [hcount]
  exact Block.uninterrupted_of_readSection hread hquote

/-- The texts of the lines after the first one of a block, by their indices. -/
theorem getElem?_of_drop_eq {lines : List Line} {start : Nat} {first : Text} {rest : List Text}
    (h : (lines.map Line.text).drop start = first :: rest) (k : Nat) :
    lines[start + 1 + k]?.map Line.text = rest[k]? := by
  have hget := congrArg (fun texts : List Text => texts[k + 1]?) h
  rw [List.getElem?_drop, List.getElem?_map, List.getElem?_cons_succ] at hget
  rw [← hget, show start + 1 + k = start + (k + 1) by omega]

/-- No line of a block of prose is blank. -/
theorem isBlank_of_prose (hb : block ∈ (Document.ofText text).blocks) (hkind : block.kind = .prose prose) {line : Line}
    (hline : line ∈ block.sources (Line.split text)) : Line.isBlank line.text = false := by
  obtain ⟨n, hn⟩ := (tiles_ofText text).standsAt hb
  by_cases hquote : ∃ indent depth, prose.form = .quote indent depth
  · -- each line of a quotation quotes something
    obtain ⟨indent, depth, hform⟩ := hquote
    have hw := hn.writtenOn prose hkind
    unfold Prose.WrittenOn at hw
    rw [hform] at hw
    obtain ⟨quoted, hquoted, -⟩ := hw
    have hmem := List.mem_map_of_mem (f := Block.quotedAt? indent depth) (List.mem_map_of_mem (f := Line.text) hline)
    rw [hquoted] at hmem
    obtain ⟨inner, -, hinner⟩ := List.mem_map.mp hmem
    exact isBlank_of_quotedAt? hinner.symm
  · rw [not_exists] at hquote
    obtain ⟨first, rest, htexts, hblank, hrest⟩ := exists_uninterrupted hb hkind
    obtain ⟨column, hgoesOn⟩ := (hrest fun indent depth hform => hquote indent ⟨depth, hform⟩).goesOn
    obtain ⟨k, hk⟩ := List.mem_iff_getElem?.mp hline
    rw [Block.sources, List.getElem?_take, List.getElem?_drop] at hk
    split at hk
    · cases k with
      | zero =>
        have hfirst := congrArg List.head? htexts
        rw [List.head?_drop, List.getElem?_map, show block.firstLine = block.firstLine + 0 from rfl, hk] at hfirst
        obtain rfl : line.text = first := by simpa using hfirst
        exact hblank
      | succ k =>
        have hget := getElem?_of_drop_eq htexts k
        rw [show block.firstLine + 1 + k = block.firstLine + (k + 1) by omega, hk] at hget
        exact (Block.endsProse_eq_false (hgoesOn k (by omega) line.text hget.symm)).1
    · cases hk

end

/-- A block of prose has a line of text for each line of the document that it
stands on: the end of that line, without blanks, without marks of a quotation
if it is quoted, and without the marker that the block records if it is the
first. None of these lines is blank. -/
theorem prose_lines_end_source_lines (text : Text) (block : Block) (prose : Prose)
    (hb : block ∈ (Document.ofText text).blocks) (hprose : block.prose? = some prose) :
    let document := Document.ofText text
    block.firstLine ≤ block.lastLine ∧ block.lastLine < document.lines.length ∧
      prose.lines.length = block.lastLine - block.firstLine + 1 ∧
      (∀ k line, prose.lines[k]? = some line →
        ∃ source removed, document.lines[block.firstLine + k]? = some source ∧
          source.text = removed ++ line ∧ prose.form.Strips k removed) ∧
      ∀ k source, block.firstLine ≤ k → k ≤ block.lastLine → document.lines[k]? = some source →
        Line.isBlank source.text = false := by
  intro document
  have hkind := Block.prose?_eq_some.mp hprose
  obtain ⟨n, hn⟩ := (tiles_ofText text).standsAt hb
  have hn : Block.StandsAt document.lines n block := hn
  have hfirst := hn.firstLine
  have hle := hn.le_lastLine
  have hlt := hn.lastLine_lt
  have hw := hn.writtenOn prose hkind
  have hget (k : Nat) (hk : k < block.lastLine + 1 - block.firstLine) :
      (block.sources document.lines)[k]? = document.lines[block.firstLine + k]? := by
    rw [Block.sources, List.getElem?_take_of_lt hk, List.getElem?_drop]
  have hlength : prose.lines.length = block.lastLine - block.firstLine + 1 := by
    have hsame := hw.suffix.length_eq
    rw [List.length_map, Block.sources, List.length_take, List.length_drop] at hsame
    omega
  refine ⟨by omega, hlt, hlength, fun k line hline => ?_, fun k source hk hk' hsource => ?_⟩
  · obtain ⟨source, removed, hsource, hremoved, hstrips⟩ := hw.strips hline
    have hk := (List.getElem?_eq_some_iff.mp hline).1
    rw [List.getElem?_map, hget k (by omega), Option.map_eq_some_iff] at hsource
    obtain ⟨own, hown, rfl⟩ := hsource
    exact ⟨own, removed, hown, hremoved, hstrips⟩
  · have hmem : (block.sources document.lines)[k - block.firstLine]? = some source := by
      rw [hget _ (by omega), show block.firstLine + (k - block.firstLine) = k by omega, hsource]
    exact isBlank_of_prose hb hkind (List.mem_of_getElem? hmem)

/-- The second line of a quotation that is quoted twice and written in another
way than the first. -/
theorem prose_lines_end_source_lines_quoted :
    let text : Text := "x\n\n > > a\n >>  b".toList
    let prose : Prose := ⟨.quote [' '] 2, [['a'], ['b']]⟩
    let block : Block := ⟨.prose prose, 2, 3, 3, 16⟩
    block ∈ (Document.ofText text).blocks ∧ block.prose? = some prose ∧
      (∃ source removed, (Document.ofText text).lines[3]? = some source ∧ source.text = removed ++ ['b'] ∧
        ∀ c ∈ removed, Text.isBlank c = true ∨ c = '>') ∧
      ∀ source, (Document.ofText text).lines[2]? = some source → Line.isBlank source.text = false := by
  intro text prose block
  have hb : block ∈ (Document.ofText text).blocks := by decide +kernel
  obtain ⟨-, -, -, hstrips, hblank⟩ := prose_lines_end_source_lines text block prose hb rfl
  exact ⟨hb, rfl, hstrips 1 ['b'] rfl, fun source => hblank 2 source (by decide) (by decide)⟩

/-- A paragraph, a list item or a definition swallows no structure. No line
after its first that is indented by at most three columns would open a fence, a
quotation, a list item, a heading, a thematic break, a definition or a table
with the line that follows it; and in a paragraph none underlines what comes
before. -/
theorem prose_swallows_no_structure (text : Text) (block : Block) (prose : Prose) (k : Nat) (line : Line)
    (hb : block ∈ (Document.ofText text).blocks) (hprose : block.prose? = some prose)
    (hquote : ∀ indent depth, prose.form ≠ .quote indent depth) (hfirst : block.firstLine < k)
    (hlast : k ≤ block.lastLine) (hline : (Document.ofText text).lines[k]? = some line)
    (hindent : Line.indentWidth line.text ≤ 3) :
    let content := Text.trimStart line.text
    let next := ((Document.ofText text).lines[k + 1]?.map Line.text).getD []
    Line.fence? content = none ∧ Line.quoteMark? content = none ∧ Line.itemMark? content = none ∧
      Line.atxLevel content = 0 ∧ Line.isThematicBreak content = false ∧
      Line.definitionMark? line.text = none ∧ Line.beginsTable content next = false ∧
      ∀ indent, prose.form = .paragraph indent → Line.underlineLevel content = 0 := by
  intro content next
  obtain ⟨first, rest, htexts, -, hrest⟩ := exists_uninterrupted hb (Block.prose?_eq_some.mp hprose)
  obtain ⟨⟨column, hgoesOn⟩, hunderlined⟩ := hrest hquote
  obtain ⟨j, rfl⟩ : ∃ j, k = block.firstLine + 1 + j := ⟨k - (block.firstLine + 1), by omega⟩
  have hget : rest[j]? = some line.text := by
    have hown := congrArg (Option.map Line.text) hline
    rwa [show (Document.ofText text).lines = Line.split text from rfl, getElem?_of_drop_eq htexts j] at hown
  have hnext : next = rest[j + 1]?.getD [] := by
    rw [← getElem?_of_drop_eq htexts (j + 1)]
    rfl
  have hends := hgoesOn j (by omega) line.text hget
  rw [← hnext] at hends
  obtain ⟨hmarked, hquoted, hdefined, htable⟩ := (Block.endsProse_eq_false hends).2 (by omega)
  obtain ⟨hfence, hheading, hbreak, hitem⟩ := Block.isMarked_eq_false.mp hmarked
  exact ⟨hfence, hquoted, hitem, hheading, hbreak, hdefined, htable,
    fun indent hform => hunderlined indent hform j (by omega) line.text hget hindent⟩

/-- The second line of a list item has a bar, but what follows it is not the
row below the head of a table. -/
theorem prose_swallows_no_structure_item :
    let text : Text := "1. a\n   b|c\n   --d".toList
    let prose : Prose :=
      ⟨.listItem [] ['1', '.'] true [' ', ' ', ' '], [['a'], ['b', '|', 'c'], ['-', '-', 'd']]⟩
    let block : Block := ⟨.prose prose, 0, 2, 0, 18⟩
    block ∈ (Document.ofText text).blocks ∧ block.prose? = some prose ∧
      (Document.ofText text).lines[1]? = some ⟨"   b|c".toList, .lf, 5⟩ ∧
      Line.beginsTable ['b', '|', 'c'] "   --d".toList = false := by
  intro text prose block
  have hb : block ∈ (Document.ofText text).blocks := by decide +kernel
  have hline : (Document.ofText text).lines[1]? = some ⟨"   b|c".toList, .lf, 5⟩ := by decide +kernel
  obtain ⟨-, -, -, -, -, -, htable, -⟩ := prose_swallows_no_structure text block prose 1 _ hb rfl (by simp [prose])
    (by decide) (by decide) hline (by decide)
  exact ⟨hb, rfl, hline, htable⟩

end ProseWrap
