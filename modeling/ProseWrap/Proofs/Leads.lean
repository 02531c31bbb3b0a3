import ProseWrap.Proofs.FirstWords
import ProseWrap.Proofs.ProseLines

/-!
# Leads that are read again

What the further lines of prose begin with is written by `ProseForm.leads` and
read by the tests for indentation, for marks of a quotation and for columns.
Here the two agree (`ProseForm.ReadsAs`): a line that is a lead and then words
which begin with neither an indentation nor a mark is read with the
indentation, the depth of quotation or the column that the form records. For a
list item and a definition that column is the one their own further lines were
asked for (`ProseForm.column?`), so that a line which is laid out goes on with
them.
-/

namespace ProseWrap

/-! ## Indentations -/

namespace Line

variable {lead words : Text}

theorem indent_lead_append (hlead : ∀ c ∈ lead, Text.isIndent c = true) (hwords : indent words = []) :
    indent (lead ++ words) = lead := by
  rw [indent, List.takeWhile_append_of_pos hlead, show words.takeWhile Text.isIndent = [] from hwords,
    List.append_nil]

theorem content_lead_append (hlead : ∀ c ∈ lead, Text.isIndent c = true) (hwords : indent words = []) :
    content (lead ++ words) = words := by
  have hsplit : lead ++ words = indent (lead ++ words) ++ content (lead ++ words) :=
    List.takeWhile_append_dropWhile.symm
  rw [indent_lead_append hlead hwords] at hsplit
  exact (List.append_cancel_left hsplit).symm

theorem isIndent_of_mem_indent {text : Text} : ∀ c ∈ indent text, Text.isIndent c = true :=
  fun _ hc => List.mem_takeWhile_imp hc

theorem isIndent_of_mem_spaces {n : Nat} : ∀ c ∈ List.replicate n ' ', Text.isIndent c = true := by
  intro c hc
  rw [List.eq_of_mem_replicate hc]
  rfl

theorem columnsFrom_spaces (column n : Nat) : columnsFrom column (List.replicate n ' ') = column + n := by
  induction n generalizing column with
  | zero => rfl
  | succ n ih =>
    rw [List.replicate_succ, columnsFrom, if_neg (by decide), if_pos (by decide), ih]
    omega

/-- As many spaces as columns are asked for indent a line by them. -/
theorem indentWidth_spaces_append (n : Nat) (hwords : indent words = []) :
    indentWidth (List.replicate n ' ' ++ words) = n := by
  rw [indentWidth, indent_lead_append isIndent_of_mem_spaces hwords, columns, columnsFrom_spaces, Nat.zero_add]

/-! ## Marks of a quotation -/

theorem unquote_of_head? (fuel depth : Nat) {text : Text} (h : text.head? ≠ some '>') :
    unquote fuel depth text = ⟨depth, text⟩ := by
  unfold unquote
  split
  · exact absurd rfl h
  · rfl

/-- A mark and a space count as one more mark, whether or not another one
follows. -/
theorem unquote_mark (fuel depth : Nat) {rest : Text} (hrest : indent rest = []) :
    unquote (fuel + 1) depth ('>' :: ' ' :: rest) = unquote fuel (depth + 1) rest := by
  have hone : unquote (fuel + 1) depth ('>' :: ' ' :: rest) =
      if rest.head? = some '>' then unquote fuel (depth + 1) rest else ⟨depth + 1, rest⟩ := by
    simp [unquote, hrest]
  rw [hone]
  split
  · rfl
  · rename_i hhead
    exact (unquote_of_head? fuel _ hhead).symm

theorem indent_marks_append (depth : Nat) (hwords : indent words = []) :
    indent ((List.replicate depth ['>', ' ']).flatten ++ words) = [] := by
  cases depth with
  | zero => exact hwords
  | succ depth => rfl

/-- All marks of a lead are taken off, and nothing of the words. -/
theorem unquote_marks (fuel depth marks : Nat) (hwords : indent words = [])
    (hquote : words.head? ≠ some '>') :
    unquote (marks + fuel) depth ((List.replicate marks ['>', ' ']).flatten ++ words) = ⟨depth + marks, words⟩ := by
  induction marks generalizing depth with
  | zero => exact unquote_of_head? _ depth hquote
  | succ marks ih =>
    rw [List.replicate_succ, List.flatten_cons, Nat.add_right_comm]
    exact (unquote_mark _ _ (indent_marks_append marks hwords)).trans
      ((ih (depth + 1)).trans (by rw [Nat.add_right_comm]; rfl))

theorem quoteMark?_marks {depth : Nat} (hdepth : 0 < depth) (hwords : indent words = [])
    (hquote : words.head? ≠ some '>') :
    quoteMark? ((List.replicate depth ['>', ' ']).flatten ++ words) = some ⟨depth, words⟩ := by
  have hhead : (((List.replicate depth ['>', ' ']).flatten ++ words).head? == some '>') = true := by
    obtain ⟨marks, rfl⟩ := Nat.exists_eq_add_of_lt hdepth
    rw [Nat.zero_add, List.replicate_succ]
    rfl
  -- each mark takes two characters, so that the length of a line is fuel
  -- enough
  have hlength : ((List.replicate depth ['>', ' ']).flatten ++ words).length = depth + (depth + words.length) := by
    simp
    omega
  rw [quoteMark?, if_pos hhead, hlength, unquote_marks _ _ _ hwords hquote, Nat.zero_add]

theorem depth_pos_of_quoteMark? {text : Text} {mark : QuoteMark} (h : quoteMark? text = some mark) :
    0 < mark.depth := by
  unfold quoteMark? at h
  split at h
  · rename_i hhead
    obtain ⟨rest, rfl⟩ := List.head?_eq_some_iff.mp (beq_iff_eq.mp hhead)
    cases h
    rw [List.length_cons, unquote]
    generalize (if rest.head? == some ' ' then rest.drop 1 else rest) = rest
    split
    · exact le_depth_unquote _ 1 _
    · exact Nat.one_pos
  · cases h

end Line

/-! ## Forms of prose -/

/-- A line with these words is read as one of prose of the form: with its
indentation, its depth of quotation or its column. -/
def ProseForm.ReadsAs (form : ProseForm) (line words : Text) : Prop :=
  match form with
  | .paragraph indent => Line.indent line = indent ∧ Line.content line = words
  | .listItem _ _ _ further => Line.indentWidth line = Line.columns further
  | .quote indent depth => Line.indent line = indent ∧ Line.quoteMark? (Line.content line) = some ⟨depth, words⟩
  | .definition marker => Line.indentWidth line = Line.columns (Block.colonAsSpace marker)

/-- The column that further lines of prose of the form must be indented to. -/
def ProseForm.column? : ProseForm → Option Nat
  | .listItem _ _ _ further => some (Line.columns further)
  | .definition marker => some (Line.columns (Block.colonAsSpace marker))
  | _ => none

namespace Block

variable {column : Option Nat} {before : List Section} {text : Text} {rest : List Text} {prose : Prose}

/-- A further line of prose that has been read is read back once it is laid
out. -/
theorem readsAs_of_readSection (h : (readSection column before text rest).kind = .prose prose) {words : Text}
    (hwords : Line.indent words = []) (hquote : words.head? ≠ some '>') :
    prose.form.ReadsAs (prose.form.leads.further ++ words) words := by
  have hread := sectionReading column before text rest
  generalize readSection column before text rest = read at hread h
  have hindent : ∀ c ∈ Line.indent text, Text.isIndent c = true := Line.isIndent_of_mem_indent
  cases hread with
  | blank | term => cases h
  | other hblank hkind =>
    cases h
    cases hkind
  | @quote mark _ _ _ hmark =>
    cases h
    have hmarks := Line.indent_marks_append mark.depth hwords
    simp only [ProseForm.ReadsAs, ProseForm.leads, List.append_assoc]
    rw [Line.indent_lead_append hindent hmarks, Line.content_lead_append hindent hmarks]
    exact ⟨rfl, Line.quoteMark?_marks (Line.depth_pos_of_quoteMark? hmark) hwords hquote⟩
  | item =>
    cases h
    refine congrArg Line.columns (Line.indent_lead_append (fun c hc => ?_) hwords)
    exact (List.mem_append.mp hc).elim (hindent c) (Line.isIndent_of_mem_spaces c)
  | definition =>
    cases h
    exact Line.indentWidth_spaces_append _ hwords
  | paragraph =>
    cases h
    exact ⟨Line.indent_lead_append hindent hwords, Line.content_lead_append hindent hwords⟩

/-- The further lines that a list item or a definition takes are indented to
its column. -/
theorem le_indentWidth_of_readSection (h : (readSection column before text rest).kind = .prose prose) {least : Nat}
    (hleast : prose.form.column? = some least) :
    ∀ k < (readSection column before text rest).more, ∀ line, rest[k]? = some line →
      least ≤ Line.indentWidth line := by
  have hread := sectionReading column before text rest
  generalize readSection column before text rest = read at hread h ⊢
  cases hread with
  | blank | term => cases h
  | other hblank hkind =>
    cases h
    cases hkind
  | quote | paragraph =>
    cases h
    cases hleast
  | item | definition =>
    cases h
    cases hleast
    exact fun k hk line hline => (endsProse_of_continuation k hk line hline).2

end Block

/-! ## Documents -/

/-- What prose writes before its further lines is read again. Before words that
begin with no space, tab or mark of a quotation, the lead gives back the
indentation of a paragraph, the indentation and the depth of a quotation, and
the column of a list item or a definition; and all further lines that these two
have are indented to that column. -/
theorem leads_are_read_back (text : Text) (block : Block) (prose : Prose) (words : Text)
    (hb : block ∈ (Document.ofText text).blocks) (hprose : block.prose? = some prose)
    (hwords : ∀ c, words.head? = some c → c ≠ ' ' ∧ c ≠ '\t' ∧ c ≠ '>') :
    prose.form.ReadsAs (prose.form.leads.further ++ words) words ∧
      ∀ least, prose.form.column? = some least → ∀ k line, block.firstLine < k → k ≤ block.lastLine →
        (Document.ofText text).lines[k]? = some line → least ≤ Line.indentWidth line.text := by
  obtain ⟨column, before, first, rest, htexts, hread, hmore⟩ :=
    readOn_of_mem_blocks hb (Block.prose?_eq_some.mp hprose)
  have hindent : Line.indent words = [] := Line.indent_eq_nil fun c hc => ⟨(hwords c hc).1, (hwords c hc).2.1⟩
  refine ⟨Block.readsAs_of_readSection hread hindent fun hhead => (hwords _ hhead).2.2 rfl, ?_⟩
  intro least hleast k line hfirst hlast hline
  have hget := getElem?_of_drop_eq htexts (k - (block.firstLine + 1))
  rw [show block.firstLine + 1 + (k - (block.firstLine + 1)) = k by omega,
    show (Line.split text)[k]? = some line from hline] at hget
  exact Block.le_indentWidth_of_readSection hread hleast _ (by omega) line.text hget.symm

/-- Under a definition with a tab after its colon, which reaches to the fourth
column. -/
theorem leads_are_read_back_tabbed :
    let text : Text := "x\n :\ta\n    b".toList
    let prose : Prose := ⟨.definition [' ', ':', '\t'], [['a'], ['b']]⟩
    let block : Block := ⟨.prose prose, 1, 2, 2, 12⟩
    block ∈ (Document.ofText text).blocks ∧ block.prose? = some prose ∧
      prose.form.leads.further ++ ['c'] = [' ', ' ', ' ', ' ', 'c'] ∧
      Line.indentWidth (prose.form.leads.further ++ ['c']) = 4 ∧
      ∀ line, (Document.ofText text).lines[2]? = some line → 4 ≤ Line.indentWidth line.text := by
  intro text prose block
  have hb : block ∈ (Document.ofText text).blocks := by decide +kernel
  obtain ⟨hreads, hfurther⟩ := leads_are_read_back text block prose ['c'] hb rfl (by simp)
  exact ⟨hb, rfl, rfl, hreads, fun line => hfurther 4 rfl 2 line (by decide) (by decide)⟩

end ProseWrap
