import Mathlib.Data.List.DropRight
import ProseWrap.Proofs.Characters
import ProseWrap.Proofs.Nesting
import ProseWrap.Proofs.PackedLines

/-!
# Hard breaks

Prose is laid out part by part, and a part that ends with a hard break goes on
doing so: the last line that is written for it ends with two spaces or a
backslash (`hard_breaks_survive`).

There are three ways to this. A part that stays as it was written ends as the
line that it stands on (`Prose.WrittenOn.suffix`). A part that is laid out gets
two spaces; and if its text ends with a backslash, so does its last line, since
a layout ends with the last character of its text (`Style.getLast?_layout`),
whatever spans that character belongs to and however emphasis is taken apart.
-/

namespace ProseWrap

/-! ## The end of a layout -/

theorem Text.getLast?_slice {text : Text} {a b : Nat} (hlt : a < b) (hle : b ≤ text.length) :
    (Text.slice text a b).getLast? = text[b - 1]? := by
  rw [List.getLast?_eq_getElem?, slice, List.getElem?_take, List.getElem?_drop, List.length_take,
    List.length_drop, if_pos (by omega)]
  congr 1
  omega

/-- Taken apart or not, each piece of a span ends as the span does. -/
theorem Sentence.getLast?_of_mem_fragments {set : Abbreviations} {text : Text} {span : Span} {children : Forest}
    (hproper : span.Proper text.length) (hm : span.isEmphasis → span.Marked text) {piece : Text}
    (h : piece ∈ fragments set text span children) : piece.getLast? = text[span.stop - 1]? := by
  have hwhole : (Text.slice text span.start span.stop).getLast? = text[span.stop - 1]? :=
    Text.getLast?_slice hproper.start_lt hproper.stop_le
  unfold fragments at h
  dsimp only at h
  split at h
  · rename_i hemphasis
    split at h
    · rw [List.mem_singleton.mp h, hwhole]
    · obtain ⟨sentence, -, rfl⟩ := List.mem_map.mp h
      have hcloser := Text.getLast?_slice (hm hemphasis).lt_stop hproper.stop_le
      have hlast : span.stop - 1 < text.length := by
        have := hproper.start_lt
        have := hproper.stop_le
        omega
      rw [List.getLast?_append, hcloser, List.getElem?_eq_getElem hlast]
      rfl
  · rw [List.mem_singleton.mp h, hwhole]

theorem Forest.proper_of_mem_trees {text : Text} {tree : Span × Forest} (h : tree ∈ (ofText text).trees) :
    tree.1.Proper text.length := by
  have hroot : tree.1 ∈ (ofText text).roots := by
    rw [← map_fst_trees]
    exact List.mem_map_of_mem h
  exact (Span.proper_of_mem_spans ((Span.sort_perm _).mem_iff.mp (mem_roots_ofSorted hroot))).1

variable {set : Abbreviations} {mode : SentenceHandling} {text : Text}

theorem getLast?_of_mem_spanPieces {tree : Span × Forest} (ht : tree ∈ (Forest.ofText text).trees)
    {piece : Text} (h : piece ∈ spanPieces set mode text tree.1 tree.2) :
    piece.getLast? = text[tree.1.stop - 1]? := by
  have hproper := Forest.proper_of_mem_trees ht
  unfold spanPieces at h
  split at h
  · exact Sentence.getLast?_of_mem_fragments hproper (Forest.trees_ofText ht).2.2 h
  · rw [List.mem_singleton.mp h, Text.getLast?_slice hproper.start_lt hproper.stop_le]

/-- A draft to which the pieces of a span are added ends as the span does. -/
theorem getLast?_written_addPieces {tree : Span × Forest} (ht : tree ∈ (Forest.ofText text).trees)
    (draft : Draft) : (draft.addPieces (spanPieces set mode text tree.1 tree.2)).written.getLast? =
      text[tree.1.stop - 1]? := by
  have hproper := Forest.proper_of_mem_trees ht
  have hlast : tree.1.stop - 1 < text.length := by
    have := hproper.start_lt
    have := hproper.stop_le
    omega
  have hne := spanPieces_ne_nil set mode text tree.1 tree.2
  have hpiece := getLast?_of_mem_spanPieces ht (List.getLast_mem hne)
  obtain ⟨front, hpieces⟩ := List.getLast?_eq_some_iff.mp (List.getLast?_eq_some_getLast hne)
  rw [Draft.written_addPieces, hpieces, List.flatten_append, List.flatten_singleton, ← List.append_assoc,
    List.getLast?_append, hpiece, List.getElem?_eq_getElem hlast]
  rfl

/-- Once the end of the text is read, what has been read ends with the last
character. -/
theorem getLast?_written_wordsFrom {c : Char} (hlast : text.getLast? = some c) (hc : Text.isGap c = false)
    (trees : List (Span × Forest)) (htrees : ∀ tree ∈ trees, tree ∈ (Forest.ofText text).trees)
    (ends : List Nat) (resume i : Nat) (draft : Draft) (rest : Text) (hrest : text.drop i = rest)
    (hresume : resume ≤ text.length)
    (hdraft : resume = text.length ∨ rest = [] → draft.written.getLast? = some c) :
    (wordsFrom set mode text trees ends resume i draft rest).written.getLast? = some c := by
  have hget : text[text.length - 1]? = some c := by rw [← List.getLast?_eq_getElem?, hlast]
  have hlength {i : Nat} {d : Char} {rest : Text} (hrest : text.drop i = d :: rest) :
      i + 1 + rest.length = text.length := by
    have := congrArg List.length hrest
    rw [List.length_drop, List.length_cons] at this
    omega
  fun_induction wordsFrom set mode text trees ends resume i draft rest with
  | case1 trees ends resume i draft =>
    rw [Draft.written_finish]
    exact hdraft (.inr rfl)
  | case2 trees ends resume i draft d rest hlt ih =>
    refine ih htrees (Text.drop_add_one hrest) hresume fun hend => hdraft (.inl ?_)
    have := hlength hrest
    rcases hend with hend | rfl
    · exact hend
    · rw [List.length_nil] at this
      omega
  | case3 trees ends resume i draft d rest hlt left ended draft' span children htree ih =>
    obtain ⟨hmem, hstart⟩ := mem_of_treeAt? htree
    have hproper := Forest.proper_of_mem_trees (htrees _ hmem)
    refine ih (fun tree ht => htrees tree (List.mem_of_mem_drop ht)) (Text.drop_add_one hrest)
      hproper.stop_le fun hend => ?_
    -- the span reaches to the end of the text, so it holds the last character
    have hstop : span.stop = text.length := by
      rcases hend with hend | rfl
      · exact hend
      · have h₁ := hlength hrest
        have h₂ : span.start < span.stop := hproper.start_lt
        have h₃ : span.stop ≤ text.length := hproper.stop_le
        simp only [List.length_nil] at h₁ hstart
        omega
    rw [getLast?_written_addPieces (htrees _ hmem), hstop, hget]
  | case4 trees ends resume i draft d rest hlt left ended draft' htree draft'' ih =>
    refine ih htrees (Text.drop_add_one hrest) hresume fun hend => ?_
    have h₁ := hlength hrest
    have hnil : rest = [] := by
      rcases hend with hend | hnil
      · omega
      · exact hnil
    have hd : d = c := by
      have hdrop := congrArg List.head? hrest
      rw [List.head?_drop, List.head?_cons, show i = text.length - 1 by rw [hnil, List.length_nil] at h₁; omega,
        hget] at hdrop
      exact (Option.some.inj hdrop).symm
    simp only [draft'']
    rw [if_neg (by simp [hd, hc]), Draft.written_addChar, hd, List.getLast?_concat]

/-- The last token of a text ends with the last character of the text. -/
theorem getLast?_tokenize (lengthMode : LengthMode) (set : Abbreviations) (mode : SentenceHandling) {c : Char}
    (hlast : text.getLast? = some c) (hc : Text.isGap c = false) :
    ∃ token, (tokenize lengthMode set mode text).getLast? = some token ∧ token.text.getLast? = some c := by
  obtain ⟨ends, hwords⟩ := flatMap_text_words set mode text
  have hne : text ≠ [] := by
    rintro rfl
    cases hlast
  have hflat : ((tokenize lengthMode set mode text).flatMap Token.text).getLast? = some c := by
    rw [flatMap_text_tokenize, hwords]
    refine getLast?_written_wordsFrom hlast hc _ (fun _ => id) ends 0 0 .empty text rfl (Nat.zero_le _) ?_
    rintro (hnil | hnil)
    · exact absurd (List.length_eq_zero_iff.mp hnil.symm) hne
    · exact absurd hnil hne
  cases htokens : (tokenize lengthMode set mode text).getLast? with
  | none =>
    rw [List.getLast?_eq_none_iff.mp htokens] at hflat
    cases hflat
  | some token =>
    refine ⟨token, rfl, ?_⟩
    have hink := ink_of_mem_tokenize (List.mem_of_getLast? htokens)
    obtain ⟨front, hfront⟩ := List.getLast?_eq_some_iff.mp htokens
    rw [hfront, List.flatMap_append, List.flatMap_singleton, List.getLast?_append] at hflat
    cases htext : token.text.getLast? with
    | none =>
      rw [List.getLast?_eq_none_iff.mp htext] at hink
      cases hink
    | some d =>
      rw [htext] at hflat
      exact hflat

theorem Text.getLast?_intercalate {separator last : Text} {texts : List Text} (htexts : texts.getLast? = some last)
    (hne : last ≠ []) : (List.intercalate separator texts).getLast? = last.getLast? := by
  induction texts with
  | nil => cases htexts
  | cons text rest ih =>
    by_cases hnil : rest = []
    · subst hnil
      obtain rfl : text = last := by simpa using htexts
      rw [List.intercalate_singleton]
    · rw [List.getLast?_cons_of_ne_nil hnil] at htexts
      rw [List.intercalate_cons_of_ne_nil hnil, List.getLast?_append, ih htexts, List.getLast?_eq_some_getLast hne]
      rfl

/-- The last token of a text is the last one of the last line. -/
theorem Style.getLast?_groups {style : Style} (leads : Leads) {token : Token}
    (h : (style.tokens style.handling text).getLast? = some token) :
    ∃ group, (style.groups leads text).getLast? = some group ∧ group.getLast? = some token := by
  have hflat := style.flatten_groups leads text
  cases hgroups : (style.groups leads text).getLast? with
  | none =>
    rw [List.getLast?_eq_none_iff.mp hgroups] at hflat
    rw [← hflat] at h
    cases h
  | some group =>
    obtain ⟨front, hfront⟩ := List.getLast?_eq_some_iff.mp hgroups
    refine ⟨group, rfl, ?_⟩
    rw [← hflat, hfront, List.flatten_append, List.flatten_singleton] at h
    -- only the first line could be without tokens, and then there would be
    -- none at all
    cases front with
    | nil => exact h
    | cons first front =>
      have htail : group ∈ (style.groups leads text).tail := by simp [hfront]
      have hne := (beginsProse_of_mem_tail_groups htail).ne_nil
      rwa [List.getLast?_append_of_ne_nil _ hne] at h

/-- The last line of a layout ends with the last character of the text. -/
theorem Style.getLast?_layout (style : Style) (leads : Leads) {c : Char} (hlast : text.getLast? = some c)
    (hc : Text.isGap c = false) :
    ∃ line, (style.layout leads text).getLast? = some line ∧ line.getLast? = some c := by
  obtain ⟨token, htoken, hend⟩ :=
    getLast?_tokenize style.lengthMode style.abbreviations style.handling hlast hc
  obtain ⟨group, hgroup, hgroupEnd⟩ := Style.getLast?_groups leads htoken
  have hjoin : (Token.joinTexts group).getLast? = some c := by
    have hne : token.text ≠ [] := by
      intro hnil
      rw [hnil] at hend
      cases hend
    rw [Token.joinTexts, Text.getLast?_intercalate (by rw [List.getLast?_map, hgroupEnd]; rfl) hne, hend]
  have hlead (lead : Text) : (lead ++ Token.joinTexts group).getLast? = some c := by
    rw [List.getLast?_append, hjoin]
    rfl
  rw [layout]
  generalize style.groups leads text = groups at hgroup
  cases groups with
  | nil => cases hgroup
  | cons first rest =>
    rw [Leads.render]
    cases hrest : rest.getLast? with
    | none =>
      rw [List.getLast?_eq_none_iff.mp hrest] at hgroup ⊢
      obtain rfl : first = group := by simpa using hgroup
      exact ⟨_, rfl, hlead _⟩
    | some last =>
      rw [List.getLast?_cons, hrest] at hgroup
      obtain rfl : last = group := by simpa using hgroup
      refine ⟨leads.further ++ Token.joinTexts last, ?_, hlead _⟩
      rw [List.getLast?_cons, List.getLast?_map, hrest]
      rfl

/-! ## The ends of the lines of prose -/

theorem Line.isHardBroken_iff {text : Text} :
    isHardBroken text = true ↔ ['\\'] <:+ text ∨ [' ', ' '] <:+ text := by
  have hreverse (part : Text) : part <:+ text ↔ part.reverse <+: text.reverse := List.reverse_prefix.symm
  rw [hreverse, hreverse, isHardBroken]
  generalize text.reverse = back
  split
  · simp
  · simp
  · rename_i hslash hspaces
    simp only [List.reverse_cons, List.reverse_nil, List.nil_append, List.cons_append, Bool.false_eq_true, false_iff,
      not_or]
    refine ⟨fun ⟨rest, h⟩ => hslash rest h.symm, fun ⟨rest, h⟩ => hspaces rest h.symm⟩

theorem Line.isHardBroken_of_suffix {text source : Text} (h : text <:+ source)
    (hbroken : isHardBroken text = true) : isHardBroken source = true :=
  isHardBroken_iff.mpr ((isHardBroken_iff.mp hbroken).imp (·.trans h) (·.trans h))

/-- The text does not begin with a blank. -/
def Text.IsTrimmed (text : Text) : Prop := Text.trimStart text = text

theorem Text.isTrimmed_trimStart (text : Text) : (Text.trimStart text).IsTrimmed :=
  List.dropWhile_idempotent _ _

/-- A text that holds nothing but blanks, and does not begin with one, is
empty. -/
theorem Text.IsTrimmed.eq_nil {text : Text} (h : text.IsTrimmed) (hblank : ∀ c ∈ text, isBlank c = true) :
    text = [] := by
  rw [← h]
  exact List.dropWhile_eq_nil_iff.mpr hblank

theorem trimStart_suffix (text : Text) : Text.trimStart text <:+ text := List.dropWhile_suffix _

theorem forall₂_map_trimStart (texts : List Text) :
    List.Forall₂ (fun line text => line <:+ text) (texts.map Text.trimStart) texts := by
  rw [List.forall₂_map_left_iff, List.forall₂_same]
  exact fun text _ => trimStart_suffix text

/-- What a line quotes is an end of it. -/
theorem suffix_of_quotedAt? {indent text quoted : Text} {depth : Nat}
    (h : Block.quotedAt? indent depth text = some quoted) : quoted <:+ text := by
  have hsuffix := unquote_suffix depth 0 (Line.content text)
  rw [(unquote_of_quotedAt? h).2] at hsuffix
  exact hsuffix.trans (List.dropWhile_suffix _)

/-- Each line of prose is an end of the line that it is written on. -/
theorem Prose.WrittenOn.suffix {prose : Prose} {texts : List Text} (hw : prose.WrittenOn texts) :
    List.Forall₂ (fun line text => line <:+ text) prose.lines texts := by
  obtain ⟨form, lines⟩ := prose
  cases form with
  | paragraph indent =>
    obtain ⟨first, rest, rfl, -, rfl⟩ := hw
    exact .cons (List.dropWhile_suffix _) (forall₂_map_trimStart rest)
  | listItem indent marker ordered further =>
    obtain ⟨first, rest, content, rfl, -, hitem, -, rfl⟩ := hw
    obtain ⟨gap, hgap⟩ := append_of_itemMark? hitem
    refine .cons (List.IsSuffix.trans ?_ (List.dropWhile_suffix Text.isIndent)) (forall₂_map_trimStart rest)
    rw [show first.dropWhile Text.isIndent = _ from hgap, ← List.append_assoc]
    exact List.suffix_append _ _
  | quote indent depth =>
    obtain ⟨quoted, hquoted, rfl⟩ := hw
    rw [← List.forall₂_eq_eq_eq, List.forall₂_map_left_iff, List.forall₂_map_right_iff] at hquoted
    rw [List.forall₂_map_left_iff]
    exact hquoted.flip.imp fun inner text h => (trimStart_suffix inner).trans (suffix_of_quotedAt? h)
  | definition marker =>
    obtain ⟨first, rest, content, rfl, hbody, rfl⟩ := hw
    refine .cons ?_ (forall₂_map_trimStart rest)
    rw [append_of_definitionMark? hbody]
    exact List.suffix_append _ _

/-- The lines of prose after the first do not begin with blanks. -/
theorem Prose.WrittenOn.isTrimmed {prose : Prose} {texts : List Text} (hw : prose.WrittenOn texts) :
    ∀ line ∈ prose.lines.tail, line.IsTrimmed := by
  have htrimmed {lines : List Text} : ∀ line ∈ lines.map Text.trimStart, line.IsTrimmed := by
    intro line hline
    obtain ⟨text, -, rfl⟩ := List.mem_map.mp hline
    exact text.isTrimmed_trimStart
  obtain ⟨form, lines⟩ := prose
  cases form with
  | paragraph indent =>
    obtain ⟨first, rest, -, -, rfl⟩ := hw
    exact htrimmed
  | listItem indent marker ordered further =>
    obtain ⟨first, rest, content, -, -, -, -, rfl⟩ := hw
    exact htrimmed
  | quote indent depth =>
    obtain ⟨quoted, -, rfl⟩ := hw
    exact fun line hline => htrimmed line (List.mem_of_mem_tail hline)
  | definition marker =>
    obtain ⟨first, rest, content, -, -, rfl⟩ := hw
    exact htrimmed

/-! ## Parts -/

namespace Part

/-- A hard break ends a part: the last line of the part has one just if the
part is said to, and no other line of it has. -/
def Closed (part : Part) : Prop :=
  ∃ front last, part.lines = front ++ [last] ∧ part.hardBreak = Line.isHardBroken last ∧
    ∀ line ∈ front, Line.isHardBroken line = false

theorem closed_split (preserveBreaks : Bool) (lines : List Text) :
    ∀ part ∈ split preserveBreaks lines, part.Closed := by
  fun_induction split preserveBreaks lines with
  | case1 => simp
  | case2 line rest _ ih => exact List.forall_mem_cons.mpr ⟨⟨[], line, rfl, rfl, by simp⟩, ih⟩
  | case3 line rest hsplit hnil ih =>
    have hbroken : Line.isHardBroken line = false := by
      rw [Bool.or_eq_true, not_or] at hsplit
      simpa using hsplit.2
    exact List.forall_mem_singleton.mpr ⟨[], line, rfl, hbroken.symm, by simp⟩
  | case4 line rest hsplit part others hcons ih =>
    have hbroken : Line.isHardBroken line = false := by
      rw [Bool.or_eq_true, not_or] at hsplit
      simpa using hsplit.2
    rw [hcons] at ih
    obtain ⟨⟨front, last, hlines, hbreak, hfront⟩, hothers⟩ := List.forall_mem_cons.mp ih
    refine List.forall_mem_cons.mpr ⟨⟨line :: front, last, ?_, hbreak, ?_⟩, hothers⟩
    · rw [hlines, List.cons_append]
    · exact List.forall_mem_cons.mpr ⟨hbroken, hfront⟩

/-- A line that is not the first one of its part is not the first one of all
parts. -/
theorem tail_lines_subset {parts : List Part} (hne : ∀ part ∈ parts, part.lines ≠ []) :
    ∀ part ∈ parts, part.lines.tail ⊆ (parts.flatMap Part.lines).tail := by
  cases parts with
  | nil => simp
  | cons first rest =>
    obtain ⟨hfirst, -⟩ := List.forall_mem_cons.mp hne
    rw [List.flatMap_cons, List.tail_append_of_ne_nil hfirst]
    refine List.forall_mem_cons.mpr ⟨List.subset_append_left _ _, fun part hpart => ?_⟩
    intro line hline
    exact List.mem_append_right _ (List.mem_flatMap.mpr ⟨part, hpart, List.mem_of_mem_tail hline⟩)

theorem isBlank_of_text {part : Part} (h : part.text = []) :
    ∀ line ∈ part.lines, ∀ c ∈ line, Text.isBlank c = true := by
  have hink := text_without (p := Text.isBlank) (fun _ => id) part
  rw [h, Text.without_nil] at hink
  intro line hline c hc
  have hnone := List.filter_eq_nil_iff.mp (List.flatMap_eq_nil_iff.mp hink.symm line hline) c hc
  simpa using hnone

theorem getLast?_addHardBreak {lines : List Text} (h : lines ≠ []) :
    ∃ line, (addHardBreak lines).getLast? = some (line ++ [' ', ' ']) := by
  fun_induction addHardBreak lines with
  | case1 => exact absurd rfl h
  | case2 line => exact ⟨line, rfl⟩
  | case3 line rest hrest ih =>
    have hne : rest ≠ [] := fun hnil => by
      subst hnil
      exact hrest rfl
    rw [List.getLast?_cons_of_ne_nil (addHardBreak_ne_nil hne)]
    exact ih hne

/-- A part that has a hard break and is not the last one still has it when it
is laid out. A part of several lines has other characters than blanks, and a
part of one line is an end of the line `source`. -/
theorem isHardBroken_render (style : Style) (leads : Leads) {source : Text} {part : Part} (hclosed : part.Closed)
    (hbreak : part.hardBreak = true) (htrimmed : ∀ line ∈ part.lines.tail, line.IsTrimmed)
    (hsource : ∀ line, part.lines.head? = some line → line <:+ source) :
    ∃ line, (part.render style leads source false).getLast? = some line ∧ Line.isHardBroken line = true := by
  obtain ⟨front, last, hlines, hsame, -⟩ := hclosed
  have hlast : Line.isHardBroken last = true := hsame ▸ hbreak
  have hsingle : front = [] → Line.isHardBroken source = true := by
    rintro rfl
    exact Line.isHardBroken_of_suffix (hsource last (by rw [hlines]; rfl)) hlast
  unfold render
  dsimp only
  split
  · rename_i hempty
    refine ⟨source, rfl, hsingle ?_⟩
    cases front with
    | nil => rfl
    | cons line front =>
      have hmem : last ∈ part.lines.tail := by simp [hlines]
      have hblank := isBlank_of_text (List.isEmpty_iff.mp hempty) last (List.mem_of_mem_tail hmem)
      rw [(htrimmed last hmem).eq_nil hblank] at hlast
      cases hlast
  · rename_i hempty
    split
    · rename_i hverbatim
      simp only [Bool.and_eq_true, beq_iff_eq] at hverbatim
      refine ⟨source, rfl, hsingle (List.length_eq_zero_iff.mp ?_)⟩
      have hone := hverbatim.1.2
      rw [hlines, List.length_append, List.length_singleton] at hone
      omega
    · split
      · obtain ⟨line, hline⟩ :=
          getLast?_addHardBreak (layout_text_ne_nil style leads (mt List.isEmpty_iff.mpr hempty))
        exact ⟨_, hline, Line.isHardBroken_iff.mpr (.inr (List.suffix_append _ _))⟩
      · rename_i hslash
        have hend : part.text.getLast? = some '\\' := by simpa [hbreak] using hslash
        obtain ⟨line, hline, hlineEnd⟩ := style.getLast?_layout leads hend rfl
        obtain ⟨start, hstart⟩ := List.getLast?_eq_some_iff.mp hlineEnd
        exact ⟨line, hline, Line.isHardBroken_iff.mpr (.inl ⟨start, hstart.symm⟩)⟩

/-- The lines of each of some parts, which began as `sources`. -/
def renderEach (style : Style) (leads : Leads) (sources : List Text) : List Part → List (List Text)
  | [] => []
  | part :: rest =>
    part.render style leads (sources.headD []) rest.isEmpty ::
      renderEach style ⟨leads.further, leads.further⟩ (sources.drop part.lines.length) rest

theorem flatten_renderEach_rest (style : Style) (lead : Text) (sources : List Text) (parts : List Part) :
    (renderEach style ⟨lead, lead⟩ sources parts).flatten = renderRest style lead sources parts := by
  induction parts generalizing sources with
  | nil => rfl
  | cons part rest ih => rw [renderEach, renderRest, List.flatten_cons, ih]

/-- The lines of parts are those of each part, one after the other. -/
theorem flatten_renderEach (style : Style) (leads : Leads) (sources : List Text) (parts : List Part) :
    (renderEach style leads sources parts).flatten = renderAll style leads sources parts := by
  cases parts with
  | nil => rfl
  | cons part rest => rw [renderEach, renderAll, List.flatten_cons, flatten_renderEach_rest]

theorem length_renderEach (style : Style) (leads : Leads) (sources : List Text) (parts : List Part) :
    (renderEach style leads sources parts).length = parts.length := by
  induction parts generalizing leads sources with
  | nil => rfl
  | cons part rest ih => rw [renderEach, List.length_cons, List.length_cons, ih]

theorem ne_nil_of_mem_renderEach {style : Style} {leads : Leads} {sources : List Text} {parts : List Part}
    {lines : List Text} (h : lines ∈ renderEach style leads sources parts) : lines ≠ [] := by
  induction parts generalizing leads sources with
  | nil => cases h
  | cons part rest ih =>
    rcases List.mem_cons.mp h with rfl | h
    · exact render_ne_nil _ _ _ _ _
    · exact ih h

/-- Every part but the last that has a hard break still has it when the parts
are laid out. -/
theorem isHardBroken_renderEach (style : Style) (leads : Leads) {sources : List Text} {parts : List Part}
    (hclosed : ∀ part ∈ parts, part.Closed)
    (htrimmed : ∀ part ∈ parts, ∀ line ∈ part.lines.tail, line.IsTrimmed)
    (hsources : List.Forall₂ (fun line source => line <:+ source) (parts.flatMap Part.lines) sources)
    {k : Nat} {part : Part} {lines : List Text} (hpart : parts[k]? = some part)
    (hlines : (renderEach style leads sources parts)[k]? = some lines) (hk : k + 1 < parts.length)
    (hbreak : part.hardBreak = true) :
    ∃ line, lines.getLast? = some line ∧ Line.isHardBroken line = true := by
  induction parts generalizing leads sources k with
  | nil => cases hpart
  | cons first rest ih =>
    obtain ⟨hfirst, hrest⟩ := List.forall_mem_cons.mp hclosed
    obtain ⟨htrim, htrims⟩ := List.forall_mem_cons.mp htrimmed
    rw [List.flatMap_cons] at hsources
    cases k with
    | zero =>
      cases hpart
      cases hlines
      have hmore : rest.isEmpty = false := by
        cases rest with
        | nil => exact absurd hk (by simp)
        | cons => rfl
      rw [hmore]
      refine isHardBroken_render style leads hfirst hbreak htrim fun line hline => ?_
      obtain ⟨others, hcons⟩ := List.head?_eq_some_iff.mp hline
      rw [hcons, List.cons_append] at hsources
      obtain ⟨source, more, hsuffix, -, rfl⟩ := List.forall₂_cons_left_iff.mp hsources
      exact hsuffix
    | succ k =>
      rw [renderEach, List.getElem?_cons_succ] at hlines
      have hdrop := List.forall₂_drop first.lines.length hsources
      rw [List.drop_left] at hdrop
      exact ih _ hrest htrims hdrop hpart hlines (by simpa using hk)

end Part

/-- Hard breaks survive. Prose is laid out part by part: each part of a block
comes to a list of lines of its own, none of them empty, and the lines of the
block are these lists, one after the other. No line of a part but the last has
a hard break, and where the last one has, and other parts follow, the last line
that is written for the part ends with two spaces or a backslash. -/
theorem hard_breaks_survive (text : Text) (style : Style) (block : Block) (prose : Prose)
    (hblock : block ∈ (Document.ofText text).blocks) (hprose : block.prose? = some prose) :
    let sources := block.sources (Document.ofText text).lines
    let parts := Part.split style.preserveBreaks prose.lines
    let written := Part.renderEach (prose.form.style style) prose.form.leads (sources.map Line.text) parts
    (prose.render style sources).lines = written.flatten ∧ written.length = parts.length ∧
      (∀ lines ∈ written, lines ≠ []) ∧ parts.flatMap Part.lines = prose.lines ∧ (∀ part ∈ parts, part.Closed) ∧
      ∀ k part lines, parts[k]? = some part → written[k]? = some lines → k + 1 < parts.length →
        part.hardBreak = true → ∃ line, lines.getLast? = some line ∧ Line.isHardBroken line = true := by
  intro sources parts written
  obtain ⟨n, hn⟩ := (tiles_ofText text).standsAt hblock
  have hw : prose.WrittenOn (sources.map Line.text) := hn.writtenOn prose (Block.prose?_eq_some.mp hprose)
  obtain ⟨hflat, hne⟩ := Part.split_spec style.preserveBreaks prose.lines
  have hclosed := Part.closed_split style.preserveBreaks prose.lines
  have hpreserve : (prose.form.style style).preserveBreaks = style.preserveBreaks := by
    cases prose.form <;> rfl
  refine ⟨?_, Part.length_renderEach .., fun _ => Part.ne_nil_of_mem_renderEach, hflat, hclosed, ?_⟩
  · rw [Part.flatten_renderEach, Prose.render, hpreserve]
  · intro k part lines hpart hlines hk hbreak
    have htrimmed : ∀ part ∈ parts, ∀ line ∈ part.lines.tail, line.IsTrimmed := by
      intro part hp line hline
      have hmem := Part.tail_lines_subset hne part hp hline
      rw [hflat] at hmem
      exact hw.isTrimmed line hmem
    exact Part.isHardBroken_renderEach _ _ hclosed htrimmed (by rw [hflat]; exact hw.suffix) hpart hlines hk hbreak

/-- A line that is broken in two still ends with its backslash. -/
theorem hard_breaks_survive_narrow :
    let text : Text := "aaa bbb\\\nc d".toList
    let style := { Options.default with lineLength := .finite 5 }.style
    let prose : Prose := ⟨.paragraph [], ["aaa bbb\\".toList, "c d".toList]⟩
    let block : Block := ⟨.prose prose, 0, 1, 0, 12⟩
    block ∈ (Document.ofText text).blocks ∧ block.prose? = some prose ∧
      (Part.renderEach style prose.form.leads ["aaa bbb\\".toList, "c d".toList]
        (Part.split false prose.lines))[0]? = some ["aaa".toList, "bbb\\".toList] ∧
      ∃ line, ["aaa".toList, "bbb\\".toList].getLast? = some line ∧ Line.isHardBroken line = true := by
  intro text style prose block
  have hblock : block ∈ (Document.ofText text).blocks := by decide +kernel
  have hwritten : (Part.renderEach style prose.form.leads ["aaa bbb\\".toList, "c d".toList]
      (Part.split false prose.lines))[0]? = some ["aaa".toList, "bbb\\".toList] := by decide +kernel
  obtain ⟨-, -, -, -, -, hbroken⟩ := hard_breaks_survive text style block prose hblock rfl
  exact ⟨hblock, rfl, hwritten, hbroken 0 ⟨["aaa bbb\\".toList], true⟩ _ (by decide +kernel) hwritten
    (by decide +kernel) rfl⟩

end ProseWrap
