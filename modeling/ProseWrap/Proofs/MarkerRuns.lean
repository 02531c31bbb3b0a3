import ProseWrap.Proofs.Floors
import ProseWrap.Proofs.SpanEdges

/-!
# Runs of markers and what stands beside them

The markers of a pair are alike and as many on both sides (`Span.Between`,
`Meet.between`), and how many there can be depends on the marker
(`Marker.sizes`). What a run can do is decided by the characters next to it
(`isRun_of_mem_collect`): a run at the front of a text cannot close and one at
its end cannot open, and two such runs make a pair of just as many markers as
they have (`pairSize_of_flanks`).

A text that stands between markers (`Marker.around`), and neither begins nor
ends with one of them, has these as its first and its last run
(`exists_delimiters_around`).
-/

namespace ProseWrap

/-! ## How many markers -/

namespace Marker

/-- The numbers of markers that emphasis can have on each side. -/
def sizes : Marker → List Nat
  | star | underscore => [1, 2, 3]
  | tilde => [1, 2]
  | caret => [1]
  | equals => [2]

theorem toChar_injective {a b : Marker} (h : a.toChar = b.toChar) : a = b := by
  revert h
  cases a <;> cases b <;> decide

theorem ofChar?_toChar (marker : Marker) : ofChar? marker.toChar = some marker := by
  cases marker <;> rfl

theorem bounds_of_mem_sizes {marker : Marker} {k : Nat} (h : k ∈ marker.sizes) : 1 ≤ k ∧ k ≤ 3 := by
  cases marker <;> simp [sizes] at h <;> omega

/-- The style of emphasis tells how many markers it has. -/
theorem ofMarkers_injective {marker : Marker} {j k : Nat} (hj : j ∈ marker.sizes) (hk : k ∈ marker.sizes)
    (h : EmphasisRole.ofMarkers marker j = EmphasisRole.ofMarkers marker k) : j = k := by
  revert h
  cases marker <;> simp only [sizes, List.mem_cons, List.not_mem_nil, or_false] at hj hk
  case caret => omega
  case equals => omega
  all_goals
    rcases hj with rfl | rfl | rfl <;> rcases hk with rfl | rfl | rfl <;> decide

end Marker

namespace Delimiter

theorem fits_marker {opener closer : Delimiter} (h : opener.fits closer = true) : opener.marker = closer.marker := by
  simp only [fits, Bool.and_eq_true, beq_iff_eq] at h
  exact h.1

theorem pairSize_mem_sizes {opener closer : Delimiter} (h : opener.fits closer = true) :
    pairSize opener closer ∈ opener.marker.sizes := by
  have hone := one_le_pairSize h
  generalize hused : pairSize opener closer = used at hone ⊢
  unfold pairSize at hused
  cases hmarker : opener.marker <;>
    simp only [hmarker, Marker.sizes, List.mem_cons, List.not_mem_nil, or_false] at hused ⊢
  all_goals
    repeat' split at hused
    all_goals omega

/-- A run that cannot close and one that cannot open, with the same number of
markers left, make a pair of all of them. -/
theorem pairSize_of_flanks {opener closer : Delimiter} {k : Nat} (hopener : opener.canClose = false)
    (hcloser : closer.canOpen = false) (ho : opener.remaining = k) (hc : closer.remaining = k)
    (hk : k ∈ opener.marker.sizes) : pairSize opener closer = k := by
  unfold pairSize
  cases hmarker : opener.marker <;> simp only [hmarker, Marker.sizes, List.mem_cons, List.not_mem_nil, or_false] at hk
  all_goals simp only [hopener, hcloser, ho, hc, Bool.or_self, Bool.false_and, Bool.false_eq_true, if_false]
  all_goals rcases hk with rfl | rfl | rfl <;> rfl

end Delimiter

theorem Text.slice_eq_replicate {text : Text} {start k : Nat} {c : Char}
    (h : ∀ i, start ≤ i → i < start + k → text[i]? = some c) :
    Text.slice text start (start + k) = List.replicate k c := by
  refine List.ext_getElem? fun i => ?_
  rw [Text.slice, List.getElem?_take, List.getElem?_drop, List.getElem?_replicate, Nat.add_sub_cancel_left]
  split
  · exact h (start + i) (by omega) (by omega)
  · rfl

/-- Emphasis has the same markers, and as many, on both sides. -/
structure Span.Between (text : Text) (span : Span) (marker : Marker) (k : Nat) : Prop where
  size : k ∈ marker.sizes
  kind : span.kind = .emphasis marker (.ofMarkers marker k)
  contentStart : span.contentStart = span.start + k
  content_le : span.contentStart ≤ span.contentStop
  stop : span.stop = span.contentStop + k
  opener : Text.slice text span.start span.contentStart = List.replicate k marker.toChar
  closer : Text.slice text span.contentStop span.stop = List.replicate k marker.toChar

theorem Delimiter.Meet.between {text : Text} {opener closer : Delimiter} (h : Meet text opener closer) :
    (spanBetween opener closer).Between text closer.marker (pairSize opener closer) := by
  have hmarker := fits_marker h.fits
  obtain ⟨hlo, hlc⟩ := pairSize_le h.opener_pos h.closer_pos
  have hstop := h.stop_le
  simp only [Delimiter.stop] at hstop
  refine ⟨hmarker ▸ pairSize_mem_sizes h.fits, rfl, rfl, ?_, rfl, ?_, ?_⟩
  · simp only [spanBetween]
    omega
  · refine Text.slice_eq_replicate fun i hi hi' => ?_
    rw [← hmarker]
    simp only [spanBetween] at hi hi'
    exact h.opener_marks i (by omega) (by simp only [Delimiter.stop]; omega)
  · refine Text.slice_eq_replicate fun i hi hi' => ?_
    simp only [spanBetween] at hi hi'
    exact h.closer_marks i hi (by simp only [Delimiter.stop]; omega)

/-- Emphasis of a text has markers of one kind, as many on both sides. -/
theorem Forest.between_of_mem_flatten {text : Text} {tree : Span × Forest} {marker : Marker} {style : EmphasisRole}
    (ht : tree ∈ (ofText text).flatten) (hkind : tree.1.kind = .emphasis marker style) :
    ∃ k, tree.1.Between text marker k := by
  have hemphasis := Span.mem_emphasis_of_mem_spans (mem_spans_of_mem_flatten ht) (by simp [Span.isEmphasis, hkind])
  obtain ⟨opener, closer, hmeet, hspan⟩ := Span.paired_of_mem_emphasis hemphasis
  have hbetween := hspan ▸ hmeet.between
  have hmarker := hbetween.kind
  rw [hkind, SpanKind.emphasis.injEq] at hmarker
  exact ⟨_, hmarker.1 ▸ hbetween⟩

/-! ## Neighbours -/

/-- The character before an offset. -/
def Text.before? (text : Text) : Nat → Option Char
  | 0 => none
  | i + 1 => text[i]?

theorem Text.before?_add_one {text rest : Text} {i : Nat} {c : Char} (h : text.drop i = c :: rest) :
    text.before? (i + 1) = some c := Text.getElem?_of_drop_eq_cons h

namespace Delimiter

/-- A run of a text is unused, and what it can do is decided by the characters
next to it. -/
def IsRun (text : Text) (run : Delimiter) : Prop :=
  run = ofRun run.marker run.start run.remaining (text.before? run.start) text[run.stop]?

theorem isRun_of_mem_collect (text : Text) (leaves : List (Nat × Nat)) (resume i : Nat) (before : Option Char)
    (rest : Text) (hrest : text.drop i = rest) (hbefore : before = text.before? i) :
    ∀ run ∈ collect leaves resume i before rest, run.IsRun text := by
  have hnext {i : Nat} {c : Char} {rest : Text} (h : text.drop i = c :: rest) :
      text.drop (i + 1) = rest ∧ some c = text.before? (i + 1) :=
    ⟨Text.drop_add_one h, (Text.before?_add_one h).symm⟩
  fun_induction collect leaves resume i before rest with
  | case1 => simp
  | case2 leaves resume i before c rest _ ih => exact ih (hnext hrest).1 (hnext hrest).2
  | case3 leaves resume i before c rest _ next left _ _ ih => exact ih (hnext hrest).1 (hnext hrest).2
  | case4 leaves resume i before c rest _ next left _ _ _ ih => exact ih (hnext hrest).1 (hnext hrest).2
  | case5 leaves resume i before c rest _ next left _ _ _ _ ih => exact ih (hnext hrest).1 (hnext hrest).2
  | case6 leaves resume i before c rest _ next left _ _ _ marker _ run length ih =>
    refine List.forall_mem_cons.mpr ⟨?_, ih (hnext hrest).1 (hnext hrest).2⟩
    have hafter : (c :: rest)[length]? = text[i + length]? := by rw [← hrest, List.getElem?_drop]
    rw [IsRun, stop, ofRun_marker, ofRun_start, ofRun_remaining, hbefore, hafter]

/-- A run of a text is known by where it is and how many markers it has. -/
theorem eq_ofRun_of_mem_delimiters {text : Text} {ranges : List (Nat × Nat)} {run : Delimiter} {marker : Marker}
    {k : Nat} (h : run ∈ Span.delimiters text ranges) (hpos : 1 ≤ k) (hremaining : run.remaining = k)
    (hget : text[run.start]? = some marker.toChar) :
    run = ofRun marker run.start k (text.before? run.start) text[run.start + k]? := by
  have hmarks := ((marks_collect text ranges 0 0 none text rfl).1 run h).1
  have hrun := isRun_of_mem_collect text ranges 0 0 none text rfl rfl run h
  have hmarker := hmarks run.start (Nat.le_refl _) (by rw [stop]; omega)
  rw [hget, Option.some.injEq] at hmarker
  rw [IsRun, stop, ← Marker.toChar_injective hmarker, hremaining] at hrun
  exact hrun

theorem leftFlanking_of_front {before after : Option Char} (hbefore : isSpaceBeside before = true)
    (hafter : isSpaceBeside after = false) : leftFlanking before after = true := by
  simp [leftFlanking, hbefore, hafter]

theorem leftFlanking_of_space {before after : Option Char} (hafter : isSpaceBeside after = true) :
    leftFlanking before after = false := by
  simp [leftFlanking, hafter]

/-- A run after a space and before something else opens and does not close. -/
theorem canOpen_ofRun {before after : Option Char} (marker : Marker) (start length : Nat)
    (hbefore : isSpaceBeside before = true) (hafter : isSpaceBeside after = false) :
    (ofRun marker start length before after).canOpen = true ∧
      (ofRun marker start length before after).canClose = false := by
  have hleft := leftFlanking_of_front hbefore hafter
  have hright : rightFlanking before after = false := leftFlanking_of_space hbefore
  unfold ofRun
  split <;> simp [hleft, hright]

/-- A run before a space and after something else closes and does not open. -/
theorem canClose_ofRun {before after : Option Char} (marker : Marker) (start length : Nat)
    (hbefore : isSpaceBeside before = false) (hafter : isSpaceBeside after = true) :
    (ofRun marker start length before after).canClose = true ∧
      (ofRun marker start length before after).canOpen = false := by
  have hleft : leftFlanking before after = false := leftFlanking_of_space hafter
  have hright : rightFlanking before after = true := leftFlanking_of_front hafter hbefore
  unfold ofRun
  split <;> simp [hleft, hright]

/-! ## Runs at the edges of a text -/

theorem collect_eq_nil (leaves : List (Nat × Nat)) (resume i : Nat) (before : Option Char) (rest : Text)
    (h : i + rest.length ≤ resume) : collect leaves resume i before rest = [] := by
  induction rest generalizing i before with
  | nil => rfl
  | cons c rest ih =>
    rw [List.length_cons] at h
    rw [collect, if_pos (by omega)]
    exact ih (i + 1) (some c) (by omega)

theorem passRanges_le {i next stop : Nat} {ranges left : List (Nat × Nat)}
    (h : passRanges i ranges = (next, left)) (hi : i ≤ stop) (hranges : ∀ range ∈ ranges, range.2 ≤ stop) :
    next ≤ stop := by
  fun_induction passRanges i ranges with
  | case1 i =>
    cases h
    exact hi
  | case2 i start last rest _ ih =>
    obtain ⟨hlast, hranges⟩ := List.forall_mem_cons.mp hranges
    exact ih h (by simp only at hlast; omega) hranges
  | case3 i start last rest _ =>
    cases h
    exact hi

theorem passRanges_of_forall_le {i : Nat} {ranges : List (Nat × Nat)}
    (h : ∀ range ∈ ranges, range.1 ≤ i ∧ range.2 ≤ i) : passRanges i ranges = (i, []) := by
  induction ranges with
  | nil => rfl
  | cons range ranges ih =>
    obtain ⟨⟨hstart, hstop⟩, hranges⟩ := List.forall_mem_cons.mp h
    rw [passRanges, if_pos hstart, Nat.max_eq_left hstop]
    exact ih hranges

theorem passRanges_of_forall_lt {i : Nat} {ranges : List (Nat × Nat)} (h : ∀ range ∈ ranges, i < range.1) :
    passRanges i ranges = (i, ranges) := by
  cases ranges with
  | nil => rfl
  | cons range ranges => rw [passRanges, if_neg (Nat.not_le.mpr (h range List.mem_cons_self))]

theorem startsEscape_toChar (marker : Marker) (rest : Text) : Text.startsEscape (marker.toChar :: rest) = false := by
  cases marker <;> rfl

theorem length_takeWhile_replicate {c : Char} {k : Nat} {rest : Text} (h : rest.head? ≠ some c) :
    ((List.replicate k c ++ rest).takeWhile (· == c)).length = k := by
  have hall : ∀ d ∈ List.replicate k c, (d == c) = true := fun d hd => by simp [List.eq_of_mem_replicate hd]
  rw [List.takeWhile_append_of_pos hall]
  cases rest with
  | nil => simp
  | cons d rest =>
    have hd : (d == c) = false := by simpa using h
    simp [hd]

/-- Markers at the front of a text are its first run. -/
theorem collect_front {marker : Marker} {k : Nat} {rest : Text} {ranges : List (Nat × Nat)}
    (hranges : ∀ range ∈ ranges, k + 1 ≤ range.1) (hrest : rest.head? ≠ some marker.toChar) :
    collect ranges 0 0 none (List.replicate (k + 1) marker.toChar ++ rest) =
      ofRun marker 0 (k + 1) none rest.head? ::
        collect ranges (k + 1) 1 (some marker.toChar) (List.replicate k marker.toChar ++ rest) := by
  have hrun := length_takeWhile_replicate hrest (k := k + 1)
  have hafter : (List.replicate (k + 1) marker.toChar ++ rest)[k + 1]? = rest.head? := by
    rw [List.getElem?_append_right (by simp), List.length_replicate, Nat.sub_self, List.head?_eq_getElem?]
  have hpass : passRanges 0 ranges = (0, ranges) :=
    passRanges_of_forall_lt fun range hr => by have := hranges range hr; omega
  rw [List.replicate_succ, List.cons_append] at hrun hafter ⊢
  rw [collect, if_neg (Nat.lt_irrefl 0), hpass]
  simp only [Nat.lt_irrefl, if_false, startsEscape_toChar, Bool.false_eq_true, Marker.ofChar?_toChar]
  rw [hrun]
  cases ranges with
  | nil => rw [hafter, Nat.zero_add, Nat.zero_add]
  | cons range ranges =>
    have hmin : min (k + 1) (range.1 - 0) = k + 1 := Nat.min_eq_left (hranges range List.mem_cons_self)
    dsimp only
    rw [hmin, hafter, Nat.zero_add, Nat.zero_add]

/-- Markers at the end of a text are its last run, if no range reaches into
them and what stands before them is neither such a marker nor a backslash. -/
theorem exists_collect_back {text : Text} {marker : Marker} {stop k : Nat} {last : Char}
    (hback : text.drop stop = List.replicate (k + 1) marker.toChar) (hlast : text.before? stop = some last)
    (hmarker : last ≠ marker.toChar) (hescape : last ≠ '\\') (ranges : List (Nat × Nat)) (resume i : Nat)
    (before : Option Char) (rest : Text) (hrest : text.drop i = rest) (hbefore : before = text.before? i)
    (hi : i ≤ stop) (hresume : resume ≤ stop) (hranges : ∀ range ∈ ranges, range.1 ≤ stop ∧ range.2 ≤ stop) :
    ∃ inner, collect ranges resume i before rest = inner ++ [ofRun marker stop (k + 1) (some last) none] := by
  -- at the end of the text stand the markers
  have hstop {c : Char} {rest : Text} (hrest : text.drop stop = c :: rest) :
      c = marker.toChar ∧ rest = List.replicate k marker.toChar := by
    rw [hback, List.replicate_succ, List.cons.injEq] at hrest
    exact ⟨hrest.1.symm, hrest.2.symm⟩
  fun_induction collect ranges resume i before rest with
  | case1 ranges resume i before =>
    have hlength := congrArg List.length hback
    have := List.drop_eq_nil_iff.mp hrest
    rw [List.length_drop, List.length_replicate] at hlength
    omega
  | case2 ranges resume i before c rest hlt ih =>
    exact ih (Text.drop_add_one hrest) (Text.before?_add_one hrest).symm (by omega) hresume hranges
  | case3 ranges resume i before c rest hlt next left hpass hnextlt ih =>
    have hnext := passRanges_le hpass hi fun range hr => (hranges range hr).2
    exact ih (Text.drop_add_one hrest) (Text.before?_add_one hrest).symm (by omega) hnext
      (forall_of_passRanges hpass hranges)
  | case4 ranges resume i before c rest hlt next left hpass _ hstarts ih =>
    have hne : i ≠ stop := by
      rintro rfl
      rw [(hstop hrest).1, startsEscape_toChar] at hstarts
      cases hstarts
    have hc : c = '\\' := by
      unfold Text.startsEscape at hstarts
      split at hstarts
      · rename_i heq
        exact (List.cons.inj heq).1
      · cases hstarts
    have hne' : i + 1 ≠ stop := by
      rintro rfl
      rw [Text.before?_add_one hrest, Option.some.injEq] at hlast
      exact hescape (hlast ▸ hc)
    exact ih (Text.drop_add_one hrest) (Text.before?_add_one hrest).symm (by omega) (by omega)
      (forall_of_passRanges hpass hranges)
  | case5 ranges resume i before c rest hlt next left hpass _ _ hnone ih =>
    have hne : i ≠ stop := by
      rintro rfl
      rw [(hstop hrest).1, Marker.ofChar?_toChar] at hnone
      cases hnone
    exact ih (Text.drop_add_one hrest) (Text.before?_add_one hrest).symm (by omega) hresume
      (forall_of_passRanges hpass hranges)
  | case6 ranges resume i before c rest hlt next left hpass hnextlt _ found hfound run length ih =>
    rcases Nat.lt_or_eq_of_le hi with hlt' | rfl
    · have hrun : length ≤ run := by
        simp only [length]
        split <;> omega
      have hget {j : Nat} (hj : j < run) : text[i + j]? = some c := by
        rw [← List.getElem?_drop, hrest]
        exact getElem?_of_lt_takeWhile hj
      -- a run that reached the markers at the end would consist of them, and
      -- so would what stands before them
      have hlength : i + length ≤ stop := by
        refine Nat.le_of_not_lt fun hpast => ?_
        have hbefore := hget (show stop - 1 - i < run by omega)
        have hat := hget (show stop - i < run by omega)
        obtain ⟨before, rfl⟩ := Nat.exists_eq_add_one_of_ne_zero (by omega : stop ≠ 0)
        rw [Text.before?] at hlast
        rw [show i + (before + 1 - 1 - i) = before by omega, hlast, Option.some.injEq] at hbefore
        rw [show i + (before + 1 - i) = before + 1 by omega, ← List.head?_drop, hback, List.replicate_succ,
          List.head?_cons, Option.some.injEq] at hat
        exact hmarker (hbefore.trans hat.symm)
      obtain ⟨inner, hinner⟩ := ih (Text.drop_add_one hrest) (Text.before?_add_one hrest).symm (by omega) hlength
        (forall_of_passRanges hpass hranges)
      exact ⟨_ :: inner, by rw [hinner, List.cons_append]⟩
    · obtain ⟨rfl, rfl⟩ := hstop hrest
      rw [Marker.ofChar?_toChar, Option.some.injEq] at hfound
      subst hfound
      rw [passRanges_of_forall_le hranges, Prod.mk.injEq] at hpass
      obtain ⟨rfl, rfl⟩ := hpass
      have hlength : length = k + 1 := by
        have htake : ((List.replicate (k + 1) marker.toChar ++ []).takeWhile (· == marker.toChar)).length = k + 1 :=
          length_takeWhile_replicate (by simp)
        rwa [List.append_nil, List.replicate_succ] at htake
      have hafter : (marker.toChar :: List.replicate k marker.toChar)[k + 1]? = none := by simp
      refine ⟨[], ?_⟩
      rw [hlength, hafter, collect_eq_nil _ _ _ _ _ (by rw [List.length_replicate]; omega), hbefore, hlast,
        List.nil_append]

end Delimiter

/-! ## Texts between markers -/

/-- A text with `k` markers before and after it. -/
def Marker.around (marker : Marker) (k : Nat) (text : Text) : Text :=
  List.replicate k marker.toChar ++ text ++ List.replicate k marker.toChar

namespace Marker

variable {marker : Marker} {k : Nat} {text : Text}

theorem length_around : (marker.around k text).length = k + text.length + k := by
  simp [around, Nat.add_assoc]

theorem getElem?_around_front {i : Nat} (h : i < k) : (marker.around k text)[i]? = some marker.toChar := by
  rw [around, List.append_assoc, List.getElem?_append_left (by simpa using h), List.getElem?_replicate, if_pos h]

theorem getElem?_around_back {i : Nat} (h : k + text.length ≤ i) (hi : i < k + text.length + k) :
    (marker.around k text)[i]? = some marker.toChar := by
  rw [around, List.getElem?_append_right (by simpa using h), List.getElem?_replicate, if_pos]
  simp only [List.length_append, List.length_replicate]
  omega

theorem getElem?_around {i : Nat} (h : i < text.length) : (marker.around k text)[k + i]? = text[i]? := by
  rw [around, List.append_assoc, List.getElem?_append_right (by simp), List.length_replicate, Nat.add_sub_cancel_left,
    List.getElem?_append_left h]

theorem getElem?_around_head (hne : text ≠ []) : (marker.around k text)[k]? = text.head? := by
  rw [List.head?_eq_getElem?, ← getElem?_around (List.length_pos_iff.mpr hne)]
  rfl

theorem before?_around (hne : text ≠ []) : (marker.around k text).before? (k + text.length) = text.getLast? := by
  obtain ⟨n, hn⟩ := Nat.exists_eq_add_one_of_ne_zero (Nat.ne_of_gt (List.length_pos_iff.mpr hne))
  rw [hn, ← Nat.add_assoc, Text.before?, getElem?_around (by omega), List.getLast?_eq_getElem?, hn,
    Nat.add_sub_cancel]

theorem drop_around : (marker.around k text).drop (k + text.length) = List.replicate k marker.toChar := by
  rw [around, List.drop_left' (by simp)]

theorem toChar_not_mem_leafClosers (marker : Marker) : marker.toChar ∉ Span.leafClosers := by
  cases marker <;> decide

theorem eq_caret_of_mem_leafOpeners (h : marker.toChar ∈ Span.leafOpeners) : marker = .caret := by
  revert h
  cases marker <;> decide

end Marker

/-- A leaf span that begins with a caret has a bracket next. -/
theorem Span.bracket_of_caret {text : Text} {leaf : Span} (h : leaf ∈ Span.leaves text)
    (hcaret : text[leaf.start]? = some '^') : text[leaf.start + 1]? = some '[' := by
  rcases Span.codeSpan_or_construct h with hcode | ⟨finder, c, hget, hc⟩
  · rw [Span.tick_of_mem_codeSpans hcode] at hcaret
    exact absurd hcaret (by decide)
  · rw [hcaret, Option.some.injEq] at hget
    subst hget
    have hfootnote : (Site.ofText text).footnoteInPlace? leaf.start = some leaf := hc
    unfold Site.footnoteInPlace? at hfootnote
    split at hfootnote
    · rename_i hbracket
      exact eq_of_beq hbracket
    · cases hfootnote

/-- The leaf spans of a text between markers lie between these, unless the
markers make a footnote. -/
theorem Marker.leaves_around {marker : Marker} {k : Nat} {text : Text} (hk : k ∈ marker.sizes)
    (hfootnote : marker = .caret → text.head? ≠ some '[') (hne : text ≠ []) :
    ∀ leaf ∈ Span.leaves (marker.around k text),
      k ≤ leaf.start ∧ leaf.start < leaf.stop ∧ leaf.stop ≤ k + text.length := by
  intro leaf hleaf
  have hproper := (Span.isLeaf_of_mem_leaves hleaf).proper
  have hlt := hproper.start_lt
  have hle := hproper.stop_le
  rw [length_around] at hle
  refine ⟨Nat.le_of_not_lt fun hstart => ?_, hlt, Nat.le_of_not_lt fun hstop => ?_⟩
  · obtain ⟨c, hc, hget⟩ := Span.openedBy_of_mem_leaves hleaf
    rw [getElem?_around_front hstart, Option.some.injEq] at hget
    have hcaret := eq_caret_of_mem_leafOpeners (hget ▸ hc)
    subst hcaret
    obtain rfl : k = 1 := by simpa [sizes] using hk
    have hbracket := Span.bracket_of_caret hleaf (by rw [getElem?_around_front hstart]; rfl)
    rw [show leaf.start + 1 = 1 by omega, getElem?_around_head hne] at hbracket
    exact hfootnote rfl hbracket
  · obtain ⟨c, hc, hget⟩ := Span.closedBy_of_mem_leaves hleaf
    rw [getElem?_around_back (by omega) (by omega), Option.some.injEq] at hget
    exact marker.toChar_not_mem_leafClosers (hget ▸ hc)

/-- The offsets of the leaf spans of a text. -/
def Span.leafRanges (text : Text) : List (Nat × Nat) := (Span.leaves text).map fun leaf => (leaf.start, leaf.stop)

/-- The markers around a text are its first and its last run, if it neither
begins nor ends with such a marker and nothing turns them into something
else. -/
theorem Marker.exists_delimiters_around {marker : Marker} {k : Nat} {text : Text} {last : Char}
    (hk : k ∈ marker.sizes) (hfirst : text.head? ≠ some marker.toChar)
    (hfootnote : marker = .caret → text.head? ≠ some '[') (hlast : text.getLast? = some last)
    (hmarker : last ≠ marker.toChar) (hescape : last ≠ '\\') :
    ∃ inner, Span.delimiters (marker.around k text) (Span.leafRanges (marker.around k text)) =
      .ofRun marker 0 k none text.head? :: (inner ++ [.ofRun marker (k + text.length) k (some last) none]) := by
  have hne : text ≠ [] := by
    rintro rfl
    cases hlast
  have hranges : ∀ range ∈ Span.leafRanges (marker.around k text),
      k ≤ range.1 ∧ range.1 ≤ k + text.length ∧ range.2 ≤ k + text.length := by
    intro range hr
    obtain ⟨leaf, hleaf, rfl⟩ := List.mem_map.mp hr
    obtain ⟨hstart, hlt, hstop⟩ := leaves_around hk hfootnote hne leaf hleaf
    exact ⟨hstart, by simp only; omega, hstop⟩
  obtain ⟨j, rfl⟩ := Nat.exists_eq_add_one_of_ne_zero (show k ≠ 0 by have := bounds_of_mem_sizes hk; omega)
  have hhead : (text ++ List.replicate (j + 1) marker.toChar).head? = text.head? := by
    rw [List.head?_append, Option.or_of_isSome (by rwa [List.isSome_head?])]
  have hbefore : (marker.around (j + 1) text).before? (j + 1 + text.length) = some last :=
    (before?_around hne).trans hlast
  have hrest : (marker.around (j + 1) text).drop 1 =
      List.replicate j marker.toChar ++ (text ++ List.replicate (j + 1) marker.toChar) := by
    rw [around, List.append_assoc, List.replicate_succ, List.cons_append, List.drop_succ_cons, List.drop_zero]
  obtain ⟨inner, hinner⟩ := Delimiter.exists_collect_back drop_around hbefore hmarker hescape
    (Span.leafRanges (marker.around (j + 1) text)) (j + 1) 1 (some marker.toChar) _ hrest
    (getElem?_around_front (Nat.succ_pos j)).symm (by omega) (by omega) fun range hr => (hranges range hr).2
  refine ⟨inner, ?_⟩
  have hfront := Delimiter.collect_front (fun range hr => (hranges range hr).1) (by rwa [hhead])
  rw [hhead, hinner, ← List.append_assoc] at hfront
  exact hfront

end ProseWrap
