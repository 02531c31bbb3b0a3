import ProseWrap.Proofs.Nesting

/-!
# What spans begin and end with

A leaf span begins with one of a few characters and ends with one of a few
others (`openedBy_of_mem_leaves`, `closedBy_of_mem_leaves`), and emphasis
begins and ends with a marker. So every span of a text begins and ends with a
character that is no blank and that no sentence ends with
(`edged_of_mem_spans`).
-/

namespace ProseWrap

namespace Span

/-- The characters that a leaf span can begin with. -/
def leafOpeners : List Char := [TickRun.tick, '[', '!', '^', '<', '\x7b', '$', '&', ':']

/-- The characters that a leaf span can end with. -/
def leafClosers : List Char := [TickRun.tick, ']', ')', '>', '\x7d', '$', ';', ':']

/-- The characters that mark emphasis. -/
def markers : List Char := [Marker.star, .underscore, .tilde, .caret, .equals].map Marker.toChar

theorem toChar_mem_markers (marker : Marker) : marker.toChar ∈ markers := by
  cases marker <;> simp [markers]

/-- The character at an offset is one of a list. -/
def StandsIn (chars : List Char) (text : Text) (i : Nat) : Prop := ∃ c ∈ chars, text[i]? = some c

end Span

open Span (StandsIn leafOpeners leafClosers markers)

/-! ## Brackets -/

namespace Span

theorem getElem?_of_mem_activeFrom {text : Text} (codes : List Span) (resume i : Nat) (rest : Text)
    (hrest : text.drop i = rest) :
    ∀ entry ∈ activeFrom codes resume i rest, text[entry.1]? = some entry.2 := by
  fun_induction activeFrom codes resume i rest with
  | case1 => simp
  | case2 codes resume i c rest _ ih => exact ih (Text.drop_add_one hrest)
  | case3 codes resume i c rest _ _ _ _ ih => exact ih (Text.drop_add_one hrest)
  | case4 codes resume i c rest _ _ _ _ ih => exact ih (Text.drop_add_one hrest)
  | case5 codes resume i c rest _ _ _ _ ih =>
    exact List.forall_mem_cons.mpr ⟨Text.getElem?_of_drop_eq_cons hrest, ih (Text.drop_add_one hrest)⟩

/-- The second bracket of a pair is a closing one. -/
theorem mem_of_mem_pairsFrom_closer {opener closer : Char} {stack : List Nat} {characters : List (Nat × Char)}
    {j i : Nat} (h : (j, i) ∈ pairsFrom opener closer stack characters) : (i, closer) ∈ characters := by
  fun_induction pairsFrom opener closer stack characters with
  | case1 => cases h
  | case2 stack k c rest _ ih => exact List.mem_cons_of_mem _ (ih h)
  | case3 k c rest _ _ ih => exact List.mem_cons_of_mem _ (ih h)
  | case4 k c rest _ hc outermost outer ih =>
    rcases List.mem_cons.mp h with heq | h
    · cases heq
      rw [beq_iff_eq] at hc
      exact hc ▸ List.mem_cons_self
    · exact List.mem_cons_of_mem _ (ih h)
  | case5 stack k c rest _ _ ih => exact List.mem_cons_of_mem _ (ih h)

theorem getElem?_of_lookup_pairsFrom {opener closer : Char} {codes : List Span} {text : Text} {i close : Nat}
    (h : (pairsFrom opener closer [] (active codes text)).lookup i = some close) :
    text[close]? = some closer := by
  obtain ⟨front, back, hpairs, -⟩ := List.lookup_eq_some_iff.mp h
  have hmem : (i, close) ∈ pairsFrom opener closer [] (active codes text) := by simp [hpairs]
  exact getElem?_of_mem_activeFrom codes 0 0 text rfl _ (mem_of_mem_pairsFrom_closer hmem)

end Span

/-! ## Closers that are looked for -/

theorem Text.prefix_drop_of_searchAt {needle l : Text} {k m : Nat} (h : Text.searchAt needle k l = some m) :
    needle <+: l.drop (m - k) := by
  induction l generalizing k with
  | nil =>
    simp only [Text.searchAt] at h
    split at h
    · rename_i hempty
      rw [List.isEmpty_iff.mp hempty]
      exact List.nil_prefix
    · cases h
  | cons c rest ih =>
    simp only [Text.searchAt] at h
    split at h
    · rename_i hstands
      cases h
      simpa using List.isPrefixOf_iff_prefix.mp hstands
    · have hlater := ih h
      have hlt := Text.le_of_searchAt h
      rwa [show m - k = m - (k + 1) + 1 by omega, List.drop_succ_cons]

/-- A needle stands where it is found. -/
theorem Text.prefix_drop_of_indexOf {text needle : Text} {origin : Int} {k : Nat}
    (h : Text.indexOf text needle origin = some k) : needle <+: text.drop k := by
  have hle := Text.le_of_searchAt h
  have hstands := Text.prefix_drop_of_searchAt h
  rwa [List.drop_drop, show min origin.toNat text.length + (k - min origin.toNat text.length) = k by omega]
    at hstands

theorem Text.getElem?_of_prefix_drop {text needle : Text} {k j : Nat} (h : needle <+: text.drop k)
    (hj : j < needle.length) : text[k + j]? = needle[j]? := by
  obtain ⟨rest, hrest⟩ := h
  rw [← List.getElem?_drop, ← hrest, List.getElem?_append_left hj]

/-! ## Constructs -/

namespace Site

/-- The first `n` characters of a text are not none, and the last of them is
`c`. -/
def LastIs (c : Char) (rest : Text) (n : Nat) : Prop := 1 ≤ n ∧ rest[n - 1]? = some c

theorem LastIs.drop {c : Char} {rest : Text} {k n : Nat} (h : LastIs c (rest.drop k) n) :
    LastIs c rest (k + n) := by
  obtain ⟨hpos, hget⟩ := h
  rw [List.getElem?_drop] at hget
  exact ⟨by omega, by rwa [show k + n - 1 = k + (n - 1) by omega]⟩

theorem LastIs.cons {c d : Char} {rest : Text} {n : Nat} (h : LastIs c rest n) : LastIs c (d :: rest) (n + 1) := by
  have hdrop : LastIs c ((d :: rest).drop 1) n := h
  rw [Nat.add_comm]
  exact hdrop.drop

theorem lastIs_of_closedBy {c : Char} {rest : Text} {k n : Nat} (h : closedBy c k (rest.drop k) = some n) :
    LastIs c rest n := by
  unfold closedBy at h
  split at h
  · rename_i hhead
    cases h
    refine ⟨by omega, ?_⟩
    rw [List.head?_drop] at hhead
    simpa using hhead
  · cases h

theorem closedBy_add {c : Char} {before k n : Nat} {rest : Text} (h : closedBy c (before + k) rest = some n) :
    ∃ m, closedBy c k rest = some m ∧ n = before + m := by
  unfold closedBy at *
  split at h
  · rename_i hhead
    cases h
    exact ⟨k + 1, if_pos hhead, by omega⟩
  · cases h

theorem lastIs_of_mailLength? {rest : Text} {n : Nat} (h : mailLength? rest = some n) : LastIs '>' rest n := by
  unfold mailLength? at h
  dsimp only at h
  split at h
  · rename_i after hdrop
    split at h
    · cases h
    · obtain ⟨m, hm, rfl⟩ := closedBy_add h
      have hlast : LastIs '>' (rest.drop (rest.takeWhile isMailNameChar).length) (m + 1) := by
        rw [hdrop]
        exact (lastIs_of_closedBy hm).cons
      have := hlast.drop
      rwa [show (rest.takeWhile isMailNameChar).length + (m + 1) =
        (rest.takeWhile isMailNameChar).length + 1 + m by omega] at this
  · cases h

theorem lastIs_of_autolinkLength? {rest : Text} {n : Nat} (h : autolinkLength? rest = some n) :
    LastIs '>' rest n := by
  unfold autolinkLength? at h
  dsimp only at h
  split at h
  · rename_i after hdrop
    split at h
    · obtain ⟨m, hm, rfl⟩ := closedBy_add h
      have hlast : LastIs '>' (rest.drop ((rest.take 32).takeWhile isSchemeChar).length) (m + 1) := by
        rw [hdrop]
        exact (lastIs_of_closedBy hm).cons
      have := hlast.drop
      rwa [show ((rest.take 32).takeWhile isSchemeChar).length + (m + 1) =
        ((rest.take 32).takeWhile isSchemeChar).length + 1 + m by omega] at this
    · exact lastIs_of_mailLength? h
  · exact lastIs_of_mailLength? h

theorem lastIs_of_attributesLength? {quote : Option Char} {rest : Text} {n : Nat}
    (h : attributesLength? quote rest = some n) : LastIs '>' rest n := by
  have hmap {c : Char} {rest : Text} {inner : Option Nat} {n : Nat} (ih : ∀ m, inner = some m → LastIs '>' rest m)
      (h : inner.map (· + 1) = some n) : LastIs '>' (c :: rest) n := by
    obtain ⟨m, hm, rfl⟩ := Option.map_eq_some_iff.mp h
    exact (ih m hm).cons
  induction rest generalizing quote n with
  | nil => cases h
  | cons c rest ih =>
    unfold attributesLength? at h
    split at h
    · cases h
    · split at h
      · exact hmap (fun m => ih) h
      · split at h
        · exact hmap (fun m => ih) h
        · split at h
          · rename_i hc
            cases h
            exact ⟨Nat.le_refl _, by simpa using hc⟩
          · exact hmap (fun m => ih) h

theorem lastIs_of_tagLength? {rest : Text} {n : Nat} (h : tagLength? rest = some n) : LastIs '>' rest n := by
  unfold tagLength? at h
  dsimp only at h
  generalize (if rest.head? == some '/' then 1 else 0) = slash at h
  split at h
  · split at h
    · rename_i hafter
      split at h
      · obtain ⟨m, hm, rfl⟩ := Option.map_eq_some_iff.mp h
        have := (lastIs_of_attributesLength? hm).drop.drop
        rwa [← Nat.add_assoc] at this
      · cases h
    · cases h
  · cases h

theorem lastIs_of_entityLength? {rest : Text} {n : Nat} (h : entityLength? rest = some n) : LastIs ';' rest n := by
  unfold entityLength? at h
  split at h
  · dsimp only at h
    split at h
    · split at h
      · split at h
        · obtain ⟨m, hm, rfl⟩ := closedBy_add h
          rw [Nat.add_comm]
          exact (lastIs_of_closedBy hm).cons.cons
        · cases h
      · cases h
    · split at h
      · obtain ⟨m, hm, rfl⟩ := closedBy_add h
        rw [Nat.add_comm]
        exact (lastIs_of_closedBy hm).cons
      · cases h
  · dsimp only at h
    split at h
    · exact lastIs_of_closedBy h
    · cases h

variable {site : Site} {i : Nat} {span : Span}

/-- The last character of a span can end a leaf span. -/
def Closed (site : Site) (span : Span) : Prop := StandsIn leafClosers site.text (span.stop - 1)

theorem closed_of_getElem? {c : Char} {last : Nat} (hc : c ∈ leafClosers) (hlast : span.stop = last + 1)
    (h : site.text[last]? = some c) : site.Closed span :=
  ⟨c, hc, by rwa [hlast, Nat.add_sub_cancel]⟩

theorem closed_of_lastIs {c : Char} {n : Nat} (hc : c ∈ leafClosers) (hlast : span.stop = i + 1 + n)
    (h : LastIs c (site.text.drop (i + 1)) n) : site.Closed span := by
  obtain ⟨hpos, hget⟩ := h.drop
  exact ⟨c, hc, by rwa [hlast]⟩

theorem closed_of_indexOf {needle : Text} {origin : Int} {close : Nat} {c : Char} (hc : c ∈ leafClosers)
    (hneedle : needle.getLast? = some c) (h : Text.indexOf site.text needle origin = some close)
    (hstop : span.stop = close + needle.length) : site.Closed span := by
  have hpos : needle.length ≠ 0 := by
    rintro hzero
    rw [List.length_eq_zero_iff.mp hzero] at hneedle
    cases hneedle
  have hlast : span.stop = close + (needle.length - 1) + 1 := by omega
  refine closed_of_getElem? hc hlast ?_
  rw [Text.getElem?_of_prefix_drop (Text.prefix_drop_of_indexOf h) (by omega), ← List.getLast?_eq_getElem?, hneedle]

section

variable (hs : site.Sited)

include hs

theorem getElem?_of_squareClose? {close : Nat} (h : site.brackets.squareClose? i = some close) :
    site.text[close]? = some ']' := by
  rw [show site.brackets = .ofText site.codes site.text from hs] at h
  exact Span.getElem?_of_lookup_pairsFrom h

theorem getElem?_of_destinationEnd? {stop : Nat} (h : site.destinationEnd? i = some stop) :
    site.text[stop]? = some ')' := by
  unfold destinationEnd? at h
  split at h
  · rename_i close hc
    rw [show site.brackets = .ofText site.codes site.text from hs] at hc
    split at h <;> cases h
    exact Span.getElem?_of_lookup_pairsFrom hc
  · cases h

theorem closed_of_bracketed? {image : Bool} {stop : Nat} {form : BracketForm}
    (h : site.bracketed? i image = some (stop, form)) (hstop : span.stop = stop) : site.Closed span := by
  unfold bracketed? at h
  split at h
  · cases h
  · rename_i close hc
    have hshort : ∀ {x : Option (Nat × BracketForm)},
        (if close = i + 1 then none
          else if !image && site.has (i + 1) '^' then none else some (close + 1, .shortcut)) = x →
        x = some (stop, form) → site.Closed span := by
      intro x hx h
      rw [h] at hx
      split at hx
      · cases hx
      · split at hx <;> cases hx
        exact closed_of_getElem? (by decide) hstop (getElem?_of_squareClose? hs hc)
    dsimp only at h
    split at h
    · split at h
      · rename_i hd
        cases h
        exact closed_of_getElem? (by decide) hstop (getElem?_of_destinationEnd? hs hd)
      · exact hshort rfl h
    · split at h
      · split at h
        · rename_i hl
          cases h
          exact closed_of_getElem? (by decide) hstop (getElem?_of_squareClose? hs hl)
        · exact hshort rfl h
      · exact hshort rfl h

theorem closed_imageLink? (h : site.imageLink? i = some span) : site.Closed span := by
  unfold imageLink? at h
  split at h
  · split at h
    · dsimp only at h
      split at h
      · obtain ⟨stop, hd, rfl⟩ := Option.map_eq_some_iff.mp h
        exact closed_of_getElem? (by decide) rfl (getElem?_of_destinationEnd? hs hd)
      · split at h
        · obtain ⟨stop, hd, rfl⟩ := Option.map_eq_some_iff.mp h
          exact closed_of_getElem? (by decide) rfl (getElem?_of_squareClose? hs hd)
        · cases h
    · cases h
  · cases h

theorem closed_wikiLink? (h : site.wikiLink? i = some span) : site.Closed span := by
  unfold wikiLink? at h
  split at h
  · rename_i inner outer _ ho
    split at h <;> cases h
    exact closed_of_getElem? (by decide) rfl (getElem?_of_squareClose? hs ho)
  · cases h

theorem closed_footnoteMention? (h : site.footnoteMention? i = some span) : site.Closed span := by
  unfold footnoteMention? at h
  split at h
  · cases h
  · rename_i close hc
    dsimp only at h
    split at h <;> cases h
    exact closed_of_getElem? (by decide) rfl (getElem?_of_squareClose? hs hc)

theorem closed_squareSpan? (h : site.squareSpan? i = some span) : site.Closed span := by
  unfold squareSpan? at h
  dsimp only at h
  rcases Option.or_eq_some_iff.mp h with h | ⟨-, h⟩
  · split at h
    · exact closed_imageLink? hs h
    · cases h
  rcases Option.or_eq_some_iff.mp h with h | ⟨-, h⟩
  · split at h
    · exact closed_wikiLink? hs h
    · cases h
  split at h
  · rename_i stop form hb
    cases h
    exact closed_of_bracketed? hs hb rfl
  · split at h
    · exact closed_footnoteMention? hs h
    · cases h

theorem closed_image? (h : site.image? i = some span) : site.Closed span := by
  unfold image? at h
  split at h
  · obtain ⟨⟨stop, form⟩, hb, rfl⟩ := Option.map_eq_some_iff.mp h
    exact closed_of_bracketed? hs hb rfl
  · cases h

theorem closed_footnoteInPlace? (h : site.footnoteInPlace? i = some span) : site.Closed span := by
  unfold footnoteInPlace? at h
  split at h
  · obtain ⟨close, hc, rfl⟩ := Option.map_eq_some_iff.mp h
    exact closed_of_getElem? (by decide) rfl (getElem?_of_squareClose? hs hc)
  · cases h

end

theorem closed_tag? {finder : Text.Finder site.text} (h : (site.tag? finder i).1 = some span) :
    site.Closed span := by
  unfold tag? at h
  dsimp only at h
  split at h
  · obtain ⟨close, hc, rfl⟩ := Option.map_eq_some_iff.mp h
    rw [Text.Finder.find_fst] at hc
    exact closed_of_indexOf (c := '>') (by decide) rfl hc rfl
  · obtain ⟨length, hl, rfl⟩ := Option.map_eq_some_iff.mp h
    rw [List.drop_drop] at hl
    exact closed_of_lastIs (by decide) rfl (lastIs_of_tagLength? hl)

theorem closed_templateTag? {finder : Text.Finder site.text} {tags : List TemplateTag}
    (h : (site.templateTag? finder i tags).1 = some span) : site.Closed span := by
  induction tags generalizing finder with
  | nil => cases h
  | cons tag tags ih =>
    unfold templateTag? at h
    dsimp only at h
    split at h
    · split at h
      · rename_i close hc
        cases h
        rw [Text.Finder.find_fst] at hc
        exact closed_of_indexOf (c := '\x7d') (by decide) (by cases tag <;> rfl) hc rfl
      · exact ih h
    · exact ih h

theorem closed_formula? {finder : Text.Finder site.text} (h : (site.formula? finder i).1 = some span) :
    site.Closed span := by
  unfold formula? at h
  split at h
  · cases h
  · split at h
    · dsimp only at h
      split at h
      · rename_i close hc
        rw [Text.Finder.find_fst] at hc
        dsimp only at h
        split at h <;> cases h
        exact closed_of_indexOf (c := '$') (by decide) rfl hc rfl
      · cases h
    · split at h
      · cases h
      · dsimp only at h
        split at h
        · rename_i close hc
          rw [Text.Finder.find_fst] at hc
          dsimp only at h
          split at h <;> cases h
          exact closed_of_indexOf (c := '$') (by decide) rfl hc rfl
        · cases h

theorem closed_emojiName? (h : site.emojiName? i = some span) : site.Closed span := by
  unfold emojiName? at h
  dsimp only at h
  split at h
  · cases h
  · obtain ⟨length, hl, rfl⟩ := Option.map_eq_some_iff.mp h
    exact closed_of_lastIs (by decide) rfl (lastIs_of_closedBy hl)

/-- What a character begins ends with a character that can end a leaf span. -/
theorem closed_construct? {finder : Text.Finder site.text} {c : Char} (hs : site.Sited)
    (h : (site.construct? finder i c).1 = some span) : site.Closed span := by
  unfold construct? at h
  split at h
  · exact closed_squareSpan? hs h
  · exact closed_image? hs h
  · exact closed_footnoteInPlace? hs h
  · split at h
    · rename_i link hl
      cases h
      obtain ⟨length, hlength, rfl⟩ := Option.map_eq_some_iff.mp hl
      exact closed_of_lastIs (by decide) rfl (lastIs_of_autolinkLength? hlength)
    · exact closed_tag? h
  · exact closed_templateTag? h
  · exact closed_formula? h
  · obtain ⟨length, hl, rfl⟩ := Option.map_eq_some_iff.mp h
    exact closed_of_lastIs (by decide) rfl (lastIs_of_entityLength? hl)
  · exact closed_emojiName? h
  · cases h

/-- Only a few characters begin anything. -/
theorem mem_leafOpeners_of_construct? {finder : Text.Finder site.text} {c : Char}
    (h : (site.construct? finder i c).1 = some span) : c ∈ leafOpeners := by
  unfold construct? at h
  split at h
  case h_9 => cases h
  all_goals decide

/-- A leaf span is one of the code spans given, or what the character where it
starts begins. -/
theorem mem_leavesFrom (hs : site.Sited) (codes : List Span) (finder : Text.Finder site.text) (resume i : Nat)
    (rest : Text) (hrest : site.text.drop i = rest) :
    ∀ span ∈ site.leavesFrom codes finder resume i rest,
      span ∈ codes ∨ ∃ (finder : Text.Finder site.text) (c : Char), site.text[span.start]? = some c ∧
        (site.construct? finder span.start c).1 = some span := by
  have hpass {codes : List Span} {i : Nat} {span : Span} (h : span ∈ codes.dropWhile fun code => code.start < i) :
      span ∈ codes := (List.dropWhile_sublist _).subset h
  fun_induction leavesFrom site codes finder resume i rest with
  | case1 =>
    intro span h
    cases h
  | case2 codes finder resume i c rest _ ih => exact ih (Text.drop_add_one hrest)
  | case3 codes finder resume i c rest _ codes' code hc ih =>
    intro span h
    rcases List.mem_cons.mp h with rfl | h
    · exact .inl (hpass (Span.mem_of_startingAt? hc).1)
    · exact (ih (Text.drop_add_one hrest) span h).imp_left hpass
  | case4 codes finder resume i c rest _ codes' _ _ ih =>
    exact fun span h => (ih (Text.drop_add_one hrest) span h).imp_left hpass
  | case5 codes finder resume i c rest _ codes' _ _ found finder' hc ih =>
    intro span h
    rcases List.mem_cons.mp h with rfl | h
    · have hget := Text.getElem?_of_drop_eq_cons hrest
      obtain ⟨hlt, -⟩ := List.getElem?_eq_some_iff.mp hget
      have hstart := (isLeafAt_construct? hs hlt (congrArg Prod.fst hc)).start_eq
      refine .inr ⟨finder, c, hstart ▸ hget, ?_⟩
      rw [hstart]
      exact congrArg Prod.fst hc
    · exact (ih (Text.drop_add_one hrest) span h).imp_left hpass
  | case6 codes finder resume i c rest _ codes' _ _ finder' hc ih =>
    exact fun span h => (ih (Text.drop_add_one hrest) span h).imp_left hpass

end Site

/-! ## Spans of a text -/

namespace Span

variable {text : Text} {span : Span}

/-- A leaf span is a code span or what the character where it starts begins. -/
theorem codeSpan_or_construct (h : span ∈ leaves text) :
    span ∈ codeSpans text ∨ ∃ (finder : Text.Finder text) (c : Char), text[span.start]? = some c ∧
      ((Site.ofText text).construct? finder span.start c).1 = some span :=
  Site.mem_leavesFrom (Site.sited_ofText text) _ _ 0 0 text rfl span h

theorem tick_of_mem_codeSpans (h : span ∈ codeSpans text) : text[span.start]? = some TickRun.tick := by
  obtain ⟨opener, hopener, closer, -, -, hlen, rfl⟩ := exists_runs_of_mem_codeSpans h
  obtain ⟨hstart, hstop⟩ := TickRun.openerStart_add_openerLength hlen
  exact TickRun.ticks_of_mem_runs hopener opener.openerStart hstart (by omega)

theorem openedBy_of_mem_leaves (h : span ∈ leaves text) : StandsIn leafOpeners text span.start := by
  rcases codeSpan_or_construct h with hcode | ⟨finder, c, hget, hc⟩
  · exact ⟨TickRun.tick, by decide, tick_of_mem_codeSpans hcode⟩
  · exact ⟨c, Site.mem_leafOpeners_of_construct? hc, hget⟩

theorem closedBy_of_mem_leaves (h : span ∈ leaves text) : StandsIn leafClosers text (span.stop - 1) := by
  rcases codeSpan_or_construct h with hcode | ⟨finder, c, -, hc⟩
  · obtain ⟨opener, -, closer, hcloser, -, -, rfl⟩ := exists_runs_of_mem_codeSpans hcode
    exact ⟨TickRun.tick, by decide, TickRun.last_of_mem_runs hcloser⟩
  · exact Site.closed_construct? (Site.sited_ofText text) hc

/-- The first and the last character of a span can begin and end one. -/
structure Edged (text : Text) (span : Span) : Prop where
  opened : StandsIn (leafOpeners ++ markers) text span.start
  closed : StandsIn (leafClosers ++ markers) text (span.stop - 1)

theorem StandsIn.mono {chars more : List Char} {i : Nat} (h : StandsIn chars text i) (hsub : chars ⊆ more) :
    StandsIn more text i :=
  h.imp fun _ hc => ⟨hsub hc.1, hc.2⟩

/-- Every span of a text has its edges. -/
theorem edged_of_mem_spans (h : span ∈ leaves text ++ emphasisAround text (leaves text)) : span.Edged text := by
  rcases List.mem_append.mp h with hleaf | hemphasis
  · exact ⟨(openedBy_of_mem_leaves hleaf).mono (List.subset_append_left _ _),
      (closedBy_of_mem_leaves hleaf).mono (List.subset_append_left _ _)⟩
  · have hm := marked_of_mem_emphasis hemphasis
    obtain ⟨opener, hopener⟩ := hm.opener _ (Nat.le_refl _) hm.start_lt
    obtain ⟨closer, hcloser⟩ := hm.closer (span.stop - 1) (by have := hm.lt_stop; omega)
      (by have := hm.lt_stop; omega)
    exact ⟨⟨_, List.mem_append_right _ (toChar_mem_markers opener), hopener⟩,
      ⟨_, List.mem_append_right _ (toChar_mem_markers closer), hcloser⟩⟩

end Span

namespace Forest

theorem mem_spans_of_mem_flatten {text : Text} {tree : Span × Forest} (h : tree ∈ (ofText text).flatten) :
    tree.1 ∈ Span.leaves text ++ Span.emphasisAround text (Span.leaves text) := by
  refine (Span.sort_perm _).mem_iff.mp ?_
  rw [← flatten_ofSorted (Span.sort _)]
  exact List.mem_map_of_mem h

theorem mem_flatten_of_mem_trees {forest : Forest} {tree : Span × Forest} (h : tree ∈ forest.trees) :
    tree ∈ forest.flatten := by
  induction forest with
  | nil => cases h
  | cons span children rest _ ih =>
    rcases List.mem_cons.mp h with rfl | h
    · exact List.mem_cons_self
    · exact List.mem_cons_of_mem _ (List.mem_append_right _ (ih h))

theorem exists_mem_trees {forest : Forest} {root : Span} (h : root ∈ forest.roots) :
    ∃ children, (root, children) ∈ forest.trees := by
  rw [← map_fst_trees] at h
  obtain ⟨⟨span, children⟩, ht, rfl⟩ := List.mem_map.mp h
  exact ⟨children, ht⟩

/-- The spans of a text are nested. -/
theorem nested_ofText (text : Text) : (ofText text).Nested :=
  nested_ofSorted
    (fun _ hs => (Span.proper_of_mem_spans ((Span.sort_perm _).mem_iff.mp hs)).1.start_lt)
    (Span.pairwise_sort_spans text)

end Forest

end ProseWrap
