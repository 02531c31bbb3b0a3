import ProseWrap.Proofs.MarkerRanges

/-!
# Escaped characters open nothing

A punctuation character after an odd number of backslashes is escaped
(`Text.isEscaped`). The scan for leaf spans and the one for runs of markers
never look back: they skip a backslash together with the punctuation after it,
and go on after whatever they have found. Both keep to offsets that are not
escaped: a step over a character that escapes nothing leads to one
(`Text.isEscaped_step`), so does a step over an escape (`Text.isEscaped_skip`),
and behind a character that is no backslash there is one
(`Text.isEscaped_behind`). Leaf spans and runs end with no backslash, so that
the scans agree wherever they resume, and no span begins at an escaped
character (`escaped_characters_open_no_span`).
-/

namespace ProseWrap

namespace Text

/-- How many backslashes stand right before an offset. -/
def slashesBefore (text : Text) (i : Nat) : Nat := ((text.take i).reverse.takeWhile (· == '\\')).length

/-- Whether the character at an offset is escaped: punctuation after an odd
number of backslashes. -/
def isEscaped (text : Text) (i : Nat) : Bool :=
  (text[i]?.map isAsciiPunctuation).getD false && text.slashesBefore i % 2 == 1

/-! ## From one offset to another -/

variable {text rest : Text} {i : Nat} {c : Char}

theorem slashesBefore_add_one (h : text[i]? = some c) :
    text.slashesBefore (i + 1) = if c = '\\' then text.slashesBefore i + 1 else 0 := by
  rw [slashesBefore, List.take_add_one, h, Option.toList_some, List.reverse_append, List.reverse_singleton,
    List.singleton_append, List.takeWhile_cons]
  by_cases hc : c = '\\' <;> simp [hc, slashesBefore]

theorem isEscaped_eq_false : text.isEscaped i = false ↔
    ∀ c, text[i]? = some c → isAsciiPunctuation c = true → text.slashesBefore i % 2 = 0 := by
  unfold isEscaped
  cases text[i]? with
  | none => simp
  | some c => cases isAsciiPunctuation c <;> simp

theorem isEscaped_of_even (h : text.slashesBefore i % 2 = 0) : text.isEscaped i = false :=
  isEscaped_eq_false.mpr fun _ _ _ => h

theorem isEscaped_zero (text : Text) : text.isEscaped 0 = false := isEscaped_of_even rfl

theorem isEscaped_behind (h : text[i]? = some c) (hc : c ≠ '\\') : text.isEscaped (i + 1) = false :=
  isEscaped_of_even (by rw [slashesBefore_add_one h, if_neg hc])

theorem even_of_isEscaped (hfree : text.isEscaped i = false) (h : text[i]? = some '\\') :
    text.slashesBefore i % 2 = 0 :=
  isEscaped_eq_false.mp hfree _ h (by decide)

/-- After a character that escapes nothing, the next one is not escaped. -/
theorem isEscaped_step (hrest : text.drop i = c :: rest) (hstarts : startsEscape (c :: rest) = false) :
    text.isEscaped (i + 1) = false := by
  have hget := getElem?_of_drop_eq_cons hrest
  by_cases hc : c = '\\'
  · subst hc
    refine isEscaped_eq_false.mpr fun d hd hpunctuation => ?_
    rw [← List.head?_drop, Text.drop_add_one hrest] at hd
    obtain ⟨more, rfl⟩ := List.head?_eq_some_iff.mp hd
    rw [startsEscape, hpunctuation] at hstarts
    cases hstarts
  · exact isEscaped_behind hget hc

/-- After an escape the next character is not escaped, even if the escaped one
is a backslash. -/
theorem isEscaped_skip (hrest : text.drop i = c :: rest) (hfree : text.isEscaped i = false)
    (hstarts : startsEscape (c :: rest) = true) : text.isEscaped (i + 2) = false := by
  unfold startsEscape at hstarts
  split at hstarts
  · rename_i d more heq
    rw [heq] at hrest
    have hget := getElem?_of_drop_eq_cons hrest
    have hnext := getElem?_of_drop_eq_cons (Text.drop_add_one hrest)
    have heven := even_of_isEscaped hfree hget
    refine isEscaped_of_even ?_
    rw [slashesBefore_add_one hnext, slashesBefore_add_one hget, if_pos rfl]
    split <;> omega
  · cases hstarts

end Text

/-! ## Leaf spans -/

/-- The scan for leaf spans goes from one offset that is not escaped to
another, if it does so over the leaf spans that it finds. -/
theorem Site.isEscaped_of_mem_leavesFrom {site : Site} (hs : site.Sited) (codes : List Span)
    (finder : Text.Finder site.text) (resume i : Nat) (rest : Text) (hrest : site.text.drop i = rest)
    (hstops : ∀ span ∈ site.leavesFrom codes finder resume i rest,
      span.start < span.stop ∧ site.text.isEscaped span.stop = false)
    (hfree : site.text.isEscaped (max i resume) = false) :
    ∀ span ∈ site.leavesFrom codes finder resume i rest, site.text.isEscaped span.start = false := by
  fun_induction leavesFrom site codes finder resume i rest with
  | case1 => simp
  | case2 codes finder resume i c rest hlt ih =>
    exact ih (Text.drop_add_one hrest) hstops (by rwa [Nat.max_eq_right (by omega)] at hfree ⊢)
  | case3 codes finder resume i c rest hlt codes' code hc ih =>
    obtain ⟨⟨hcode, hstop⟩, hstops⟩ := List.forall_mem_cons.mp hstops
    have hstart := (Span.mem_of_startingAt? hc).2
    rw [Nat.max_eq_left (by omega), ← hstart] at hfree
    refine List.forall_mem_cons.mpr ⟨hfree, ih (Text.drop_add_one hrest) hstops ?_⟩
    rwa [Nat.max_eq_right (by omega)]
  | case4 codes finder resume i c rest hlt codes' _ hstarts ih =>
    rw [Nat.max_eq_left (by omega)] at hfree
    refine ih (Text.drop_add_one hrest) hstops ?_
    rw [Nat.max_eq_right (by omega)]
    exact Text.isEscaped_skip hrest hfree hstarts
  | case5 codes finder resume i c rest hlt codes' _ _ found finder' hc ih =>
    obtain ⟨⟨hfound, hstop⟩, hstops⟩ := List.forall_mem_cons.mp hstops
    obtain ⟨hi, -⟩ := List.getElem?_eq_some_iff.mp (Text.getElem?_of_drop_eq_cons hrest)
    have hstart := (isLeafAt_construct? hs hi (congrArg Prod.fst hc)).start_eq
    rw [Nat.max_eq_left (by omega), ← hstart] at hfree
    refine List.forall_mem_cons.mpr ⟨hfree, ih (Text.drop_add_one hrest) hstops ?_⟩
    rwa [Nat.max_eq_right (by omega)]
  | case6 codes finder resume i c rest hlt codes' _ hstarts finder' hc ih =>
    refine ih (Text.drop_add_one hrest) hstops ?_
    rw [Nat.max_eq_left (by omega)]
    exact Text.isEscaped_step hrest (by simpa using hstarts)

namespace Span

variable {text : Text} {span : Span}

theorem isEscaped_stop_of_mem_leaves (h : span ∈ leaves text) : text.isEscaped span.stop = false := by
  obtain ⟨c, hc, hget⟩ := closedBy_of_mem_leaves h
  have hlt := (isLeaf_of_mem_leaves h).proper.start_lt
  have hslash : c ≠ '\\' := by
    rintro rfl
    exact absurd hc (by decide)
  have hbehind := Text.isEscaped_behind hget hslash
  rwa [show span.stop - 1 + 1 = span.stop by omega] at hbehind

theorem isEscaped_start_of_mem_leaves (h : span ∈ leaves text) : text.isEscaped span.start = false :=
  Site.isEscaped_of_mem_leavesFrom (Site.sited_ofText text) _ _ 0 0 text rfl
    (fun _ hs => ⟨(isLeaf_of_mem_leaves hs).proper.start_lt, isEscaped_stop_of_mem_leaves hs⟩)
    (Text.isEscaped_zero text) span h

end Span

/-! ## Runs of markers -/

namespace Delimiter

/-- No marker that is left of a run is escaped. -/
def Unescaped (text : Text) (run : Delimiter) : Prop :=
  ∀ i, run.start ≤ i → i < run.stop → text.isEscaped i = false

theorem passRanges_fst {i next : Nat} {ranges left : List (Nat × Nat)} (h : passRanges i ranges = (next, left)) :
    next = i ∨ ∃ range ∈ ranges, next = range.2 := by
  fun_induction passRanges i ranges with
  | case1 i =>
    cases h
    exact .inl rfl
  | case2 i start stop rest _ ih =>
    rcases ih h with hnext | ⟨range, hrange, hnext⟩
    · rcases Nat.le_total i stop with hle | hle
      · exact .inr ⟨(start, stop), List.mem_cons_self, by rw [hnext, Nat.max_eq_right hle]⟩
      · exact .inl (by rw [hnext, Nat.max_eq_left hle])
    · exact .inr ⟨range, List.mem_cons_of_mem _ hrange, hnext⟩
  | case3 i start stop rest _ =>
    cases h
    exact .inl rfl

theorem toChar_ne_slash (marker : Marker) : marker.toChar ≠ '\\' := by
  cases marker <;> decide

/-- Behind a marker nothing is escaped, so that a run is not if its first
marker is not. -/
theorem Marks.unescaped {text : Text} {run : Delimiter} (h : run.Marks text)
    (hstart : text.isEscaped run.start = false) : ∀ i, run.start ≤ i → i ≤ run.stop → text.isEscaped i = false := by
  intro i hi hi'
  rcases Nat.eq_or_lt_of_le hi with rfl | hlt
  · exact hstart
  · obtain ⟨j, rfl⟩ := Nat.exists_eq_add_one_of_ne_zero (by omega : i ≠ 0)
    exact Text.isEscaped_behind (h j (by omega) (by omega)) (toChar_ne_slash run.marker)

/-- The search for runs goes from one offset that is not escaped to another, if
the ranges that it leaves out end at such offsets. -/
theorem unescaped_collect (text : Text) (ranges : List (Nat × Nat)) (resume i : Nat) (before : Option Char)
    (rest : Text) (hrest : text.drop i = rest) (hranges : ∀ range ∈ ranges, text.isEscaped range.2 = false)
    (hmarks : ∀ run ∈ collect ranges resume i before rest, run.Marks text ∧ 1 ≤ run.remaining)
    (hfree : text.isEscaped (max i resume) = false) :
    ∀ run ∈ collect ranges resume i before rest, run.Unescaped text := by
  fun_induction collect ranges resume i before rest with
  | case1 => simp
  | case2 ranges resume i before c rest hlt ih =>
    exact ih (Text.drop_add_one hrest) hranges hmarks (by rwa [Nat.max_eq_right (by omega)] at hfree ⊢)
  | case3 ranges resume i before c rest hlt next left hpass hnext ih =>
    refine ih (Text.drop_add_one hrest) (forall_of_passRanges hpass hranges) hmarks ?_
    rw [Nat.max_eq_right (by omega)]
    rcases passRanges_fst hpass with rfl | ⟨range, hrange, rfl⟩
    · omega
    · exact hranges range hrange
  | case4 ranges resume i before c rest hlt next left hpass hnext hstarts ih =>
    rw [Nat.max_eq_left (by omega)] at hfree
    refine ih (Text.drop_add_one hrest) (forall_of_passRanges hpass hranges) hmarks ?_
    rw [Nat.max_eq_right (by omega)]
    exact Text.isEscaped_skip hrest hfree hstarts
  | case5 ranges resume i before c rest hlt next left hpass hnext hstarts hnone ih =>
    refine ih (Text.drop_add_one hrest) (forall_of_passRanges hpass hranges) hmarks ?_
    rw [Nat.max_eq_left (by omega)]
    exact Text.isEscaped_step hrest (by simpa using hstarts)
  | case6 ranges resume i before c rest hlt next left hpass hnext hstarts marker hmarker run length ih =>
    rw [Nat.max_eq_left (by omega)] at hfree
    obtain ⟨⟨hmark, hpos⟩, hmarks⟩ := List.forall_mem_cons.mp hmarks
    rw [ofRun_remaining] at hpos
    have hunescaped := hmark.unescaped (by rwa [ofRun_start])
    refine List.forall_mem_cons.mpr ⟨fun k hk hk' => hunescaped k hk (Nat.le_of_lt hk'),
      ih (Text.drop_add_one hrest) (forall_of_passRanges hpass hranges) hmarks ?_⟩
    rw [Nat.max_eq_right (by omega)]
    simp only [stop, ofRun_start, ofRun_remaining] at hunescaped
    exact hunescaped (i + length) (Nat.le_add_right _ _) (Nat.le_refl _)

theorem unescaped_of_mem_delimiters {text : Text} {run : Delimiter}
    (h : run ∈ Span.delimiters text (Span.leafRanges text)) : run.Unescaped text := by
  refine unescaped_collect text _ 0 0 none text rfl (fun range hr => ?_) (fun other ho => ?_)
    (Text.isEscaped_zero text) run h
  · obtain ⟨leaf, hleaf, rfl⟩ := List.mem_map.mp hr
    exact Span.isEscaped_stop_of_mem_leaves hleaf
  · obtain ⟨hmarks, hpos, -, -⟩ := (marks_collect text _ 0 0 none text rfl).1 other ho
    exact ⟨hmarks, hpos⟩

end Delimiter

/-- No marker of emphasis is escaped. -/
theorem Span.isEscaped_of_mem_markerRanges {text : Text} {span : Span}
    (h : span ∈ emphasisAround text (leaves text)) :
    ∀ range ∈ span.markerRanges, ∀ i, range.1 ≤ i → i < range.2 → text.isEscaped i = false := by
  have hruns : (delimiters text (leafRanges text)).Pairwise fun a b => a.Unescaped text ∧ b.Unescaped text :=
    (Delimiter.marks_collect text _ 0 0 none text rfl).2.imp_of_mem fun ha hb _ =>
      ⟨Delimiter.unescaped_of_mem_delimiters ha, Delimiter.unescaped_of_mem_delimiters hb⟩
  obtain ⟨first, last, ⟨hfirst, hlast⟩, hspan⟩ := standsBetween_of_mem_emphasis hruns h
  refine List.forall_mem_cons.mpr ⟨fun i hi hi' => ?_, List.forall_mem_singleton.mpr fun i hi hi' => ?_⟩
  · exact hfirst i (Nat.le_trans hspan.le_start hi) (Nat.lt_of_lt_of_le hi' hspan.contentStart_le)
  · exact hlast i (Nat.le_trans hspan.le_contentStop hi) (Nat.lt_of_lt_of_le hi' hspan.stop_le)

/-- No span of a text begins at an escaped character, and no marker of emphasis
is one, whether it opens or closes. -/
theorem escaped_characters_open_no_span (text : Text) (span : Span)
    (hspan : span ∈ (Forest.ofText text).flatten.map Prod.fst) :
    text.isEscaped span.start = false ∧
      (span.isEmphasis = true → ∀ range ∈ span.markerRanges, ∀ i, range.1 ≤ i → i < range.2 →
        text.isEscaped i = false) := by
  obtain ⟨tree, htree, rfl⟩ := List.mem_map.mp hspan
  have hmem := Forest.mem_spans_of_mem_flatten htree
  refine ⟨?_, fun hkind => Span.isEscaped_of_mem_markerRanges (Span.mem_emphasis_of_mem_spans hmem hkind)⟩
  rcases List.mem_append.mp hmem with hleaf | hemphasis
  · exact Span.isEscaped_start_of_mem_leaves hleaf
  · have hlt := (Span.marked_of_mem_emphasis hemphasis).start_lt
    exact Span.isEscaped_of_mem_markerRanges hemphasis _ List.mem_cons_self tree.1.start (Nat.le_refl _) hlt

/-- A star after one backslash opens nothing, and one after two does. -/
theorem escaped_characters_open_no_span_stars :
    let text : Text := "\\*a\\\\*b*".toList
    let span : Span := ⟨.emphasis .star .emphasis, 5, 8, 6, 7⟩
    span ∈ (Forest.ofText text).flatten.map Prod.fst ∧ text.isEscaped 1 = true ∧ text.isEscaped 5 = false ∧
      text.isEscaped 7 = false := by
  intro text span
  have hspan : span ∈ (Forest.ofText text).flatten.map Prod.fst := by decide +kernel
  obtain ⟨hstart, hmarkers⟩ := escaped_characters_open_no_span text span hspan
  exact ⟨hspan, by decide, hstart, hmarkers rfl (7, 8) (by simp [Span.markerRanges, span]) 7 (by decide) (by decide)⟩

end ProseWrap
