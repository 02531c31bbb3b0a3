import ProseWrap.Proofs.MarkerRuns

/-!
# Markers belong to one span

Emphasis stands between two runs of the text (`Span.StandsBetween`): its
opening markers are a part of the one, its closing markers a part of the other.
A run is used up in parts (`PartOf`), from its end as an opener and from its
start as a closer, and `pairAll_standsBetween` follows the parts back to the
runs that were collected, which stand in any relation that these stand in.

Two runs of the same marker do not touch (`apart_collect`), so that emphasis
always has content. Its markers are as many as its weight says, on both sides,
and no other emphasis and no leaf span has a share in them
(`emphasis_markers_are_private`).
-/

namespace ProseWrap

namespace Delimiter

/-! ## Parts of runs -/

/-- What is left of a run after some of its markers have been used. -/
structure PartOf (part whole : Delimiter) : Prop where
  marker : part.marker = whole.marker
  le_start : whole.start ≤ part.start
  stop_le : part.stop ≤ whole.stop

theorem PartOf.refl (run : Delimiter) : run.PartOf run := ⟨rfl, Nat.le_refl _, Nat.le_refl _⟩

theorem PartOf.trans {a b c : Delimiter} (hab : a.PartOf b) (hbc : b.PartOf c) : a.PartOf c :=
  ⟨hab.marker.trans hbc.marker, Nat.le_trans hbc.le_start hab.le_start, Nat.le_trans hab.stop_le hbc.stop_le⟩

theorem partOf_useAsOpener (run : Delimiter) (used : Nat) : (run.useAsOpener used).PartOf run := by
  refine ⟨rfl, Nat.le_refl _, ?_⟩
  simp only [stop, useAsOpener]
  omega

theorem partOf_useAsCloser {run : Delimiter} {used : Nat} (h : used ≤ run.remaining) :
    (run.useAsCloser used).PartOf run :=
  ⟨rfl, Nat.le_add_right _ _, Nat.le_of_eq (stop_useAsCloser h)⟩

end Delimiter

/-- The markers of emphasis are a part of two runs with the same marker. -/
structure Span.StandsBetween (span : Span) (first last : Delimiter) : Prop where
  alike : first.marker = last.marker
  le_start : first.start ≤ span.start
  contentStart_le : span.contentStart ≤ first.stop
  le_contentStop : last.start ≤ span.contentStop
  stop_le : span.stop ≤ last.stop

namespace Delimiter

theorem PartOf.standsBetween {span : Span} {first last wholeFirst wholeLast : Delimiter}
    (hfirst : first.PartOf wholeFirst) (hlast : last.PartOf wholeLast) (h : span.StandsBetween first last) :
    span.StandsBetween wholeFirst wholeLast where
  alike := by rw [← hfirst.marker, h.alike, hlast.marker]
  le_start := Nat.le_trans hfirst.le_start h.le_start
  contentStart_le := Nat.le_trans h.contentStart_le hfirst.stop_le
  le_contentStop := Nat.le_trans hlast.le_start h.le_contentStop
  stop_le := Nat.le_trans h.stop_le hlast.stop_le

theorem standsBetween_spanBetween {opener closer : Delimiter} (hfits : opener.fits closer = true)
    (ho : 1 ≤ opener.remaining) (hc : 1 ≤ closer.remaining) :
    (spanBetween opener closer).StandsBetween opener closer := by
  obtain ⟨hlo, hlc⟩ := pairSize_le ho hc
  refine ⟨fits_marker hfits, ?_, ?_, Nat.le_refl _, ?_⟩
  all_goals
    simp only [spanBetween, stop]
    omega

/-- Pairing a closer leaves parts of the runs that were there, and what it
finds stands between one of them and the closer. -/
theorem pairCloser_standsBetween (rounds : Nat) (stack : List Delimiter) (floors : Floors) (closer : Delimiter)
    (hpos : ∀ run ∈ stack, 1 ≤ run.remaining) :
    let paired := pairCloser rounds stack floors closer
    (∀ span ∈ paired.spans, ∃ opener ∈ stack, span.StandsBetween opener closer) ∧
      (∀ run ∈ paired.stack, 1 ≤ run.remaining ∧ ∃ whole ∈ stack, run.PartOf whole) ∧
      paired.closer.PartOf closer := by
  have hsame {stack : List Delimiter} (hpos : ∀ run ∈ stack, 1 ≤ run.remaining) :
      ∀ run ∈ stack, 1 ≤ run.remaining ∧ ∃ whole ∈ stack, run.PartOf whole :=
    fun run hr => ⟨hpos run hr, run, hr, .refl run⟩
  fun_induction pairCloser rounds stack floors closer with
  | case1 stack floors closer => exact ⟨by simp, hsame hpos, .refl closer⟩
  | case2 rounds stack floors closer _ => exact ⟨by simp, hsame hpos, .refl closer⟩
  | case3 rounds stack floors closer _ _ => exact ⟨by simp, hsame hpos, .refl closer⟩
  | case4 rounds stack floors closer hcloser opener below hfind used next ih =>
    obtain ⟨hopener, hbelow, hfits⟩ := findOpener_mem hfind
    have hc : 1 ≤ closer.remaining := by omega
    have hpart : (closer.useAsCloser used).PartOf closer :=
      partOf_useAsCloser (pairSize_le (hpos opener hopener) hc).2
    -- the stack of the next round holds parts of this one
    have hrest : ∀ run ∈ (opener.useAsOpener used).pushRest below,
        1 ≤ run.remaining ∧ ∃ whole ∈ stack, run.PartOf whole :=
      forall_mem_pushRest (fun hleft => ⟨hleft, opener, hopener, partOf_useAsOpener opener used⟩)
        fun run hr => hsame hpos run (hbelow run hr)
    obtain ⟨hspans, hstack, hnext⟩ := ih fun run hr => (hrest run hr).1
    refine ⟨List.forall_mem_cons.mpr ⟨⟨opener, hopener, ?_⟩, fun span hs => ?_⟩, fun run hr => ?_, hnext.trans hpart⟩
    · exact standsBetween_spanBetween hfits (hpos opener hopener) hc
    · obtain ⟨part, hmem, hspan⟩ := hspans span hs
      obtain ⟨-, whole, hwhole, hof⟩ := hrest part hmem
      exact ⟨whole, hwhole, hof.standsBetween hpart hspan⟩
    · obtain ⟨hleft, part, hmem, hof⟩ := hstack run hr
      obtain ⟨-, whole, hwhole, hof'⟩ := hrest part hmem
      exact ⟨hleft, whole, hwhole, hof.trans hof'⟩

/-- Pairing runs finds what stands between two of them, the one before the
other. -/
theorem pairAll_standsBetween {R : Delimiter → Delimiter → Prop} (stack : List Delimiter) (floors : Floors)
    (runs : List Delimiter)
    (hstack : ∀ run ∈ stack, 1 ≤ run.remaining ∧ ∃ whole, run.PartOf whole ∧ ∀ later ∈ runs, R whole later)
    (hruns : runs.Pairwise R) :
    ∀ span ∈ pairAll stack floors runs, ∃ first last, R first last ∧ span.StandsBetween first last := by
  induction runs generalizing stack floors with
  | nil => simp [pairAll]
  | cons run runs ih =>
    obtain ⟨hlater, hruns⟩ := List.pairwise_cons.mp hruns
    obtain ⟨hspans, hleft, hcloser⟩ :
        (∀ span ∈ (pairRun stack floors run).spans, ∃ opener ∈ stack, span.StandsBetween opener run) ∧
          (∀ other ∈ (pairRun stack floors run).stack,
            1 ≤ other.remaining ∧ ∃ whole ∈ stack, other.PartOf whole) ∧
          (pairRun stack floors run).closer.PartOf run := by
      unfold pairRun
      split
      · exact pairCloser_standsBetween run.remaining stack floors run fun other ho => (hstack other ho).1
      · exact ⟨by simp, fun other ho => ⟨(hstack other ho).1, other, ho, .refl other⟩, .refl run⟩
    have hrest : ∀ other ∈ (pairRun stack floors run).stack,
        1 ≤ other.remaining ∧ ∃ whole, other.PartOf whole ∧ ∀ later ∈ runs, R whole later := by
      intro other ho
      obtain ⟨hpos, part, hmem, hof⟩ := hleft other ho
      obtain ⟨-, whole, hof', hrel⟩ := hstack part hmem
      exact ⟨hpos, whole, hof.trans hof', fun later hl => hrel later (List.mem_cons_of_mem _ hl)⟩
    rw [pairAll_cons]
    refine List.forall_mem_append.mpr ⟨fun span hs => ?_, ih _ _ ?_ hruns⟩
    · obtain ⟨opener, hopener, hspan⟩ := hspans span hs
      obtain ⟨-, whole, hof, hrel⟩ := hstack opener hopener
      exact ⟨whole, run, hrel run List.mem_cons_self, hof.standsBetween (.refl run) hspan⟩
    · unfold Pairing.rested
      split
      · exact forall_mem_pushRest (fun hpos => ⟨hpos, run, hcloser, hlater⟩) hrest
      · exact hrest

/-! ## Runs that do not touch -/

theorem getElem?_length_takeWhile_ne (c : Char) (text : Text) :
    text[(text.takeWhile (· == c)).length]? ≠ some c := by
  induction text with
  | nil => simp
  | cons d text ih =>
    rw [List.takeWhile_cons]
    split
    · simpa using ih
    · rename_i hd
      simpa using hd

/-- Between two runs of the same marker stands something: either the first one
is as long as it can be, or a range cuts it off. -/
theorem apart_collect (text : Text) (ranges : List (Nat × Nat)) (resume i : Nat) (before : Option Char) (rest : Text)
    (hrest : text.drop i = rest) (hsorted : ranges.Pairwise fun a b => a.1 ≤ b.1)
    (hranges : ∀ range ∈ ranges, range.1 < range.2) :
    (collect ranges resume i before rest).Pairwise fun a b => a.marker = b.marker → a.stop < b.start := by
  fun_induction collect ranges resume i before rest with
  | case1 => exact .nil
  | case2 ranges resume i before c rest _ ih => exact ih (Text.drop_add_one hrest) hsorted hranges
  | case3 ranges resume i before c rest _ next left hpass _ ih
  | case4 ranges resume i before c rest _ next left hpass _ _ ih
  | case5 ranges resume i before c rest _ next left hpass _ _ _ ih =>
    exact ih (Text.drop_add_one hrest) (pairwise_of_passRanges hpass hsorted) (forall_of_passRanges hpass hranges)
  | case6 ranges resume i before c rest _ next left hpass _ _ marker hmarker run length ih =>
    have hdrop := Text.drop_add_one hrest
    have hleft := pairwise_of_passRanges hpass hsorted
    refine List.pairwise_cons.mpr ⟨fun other hother hsame => ?_, ih hdrop hleft (forall_of_passRanges hpass hranges)⟩
    obtain ⟨hmarks, hpos, -, hstart⟩ :=
      (marks_collect text left (i + length) (i + 1) (some c) rest hdrop).1 other hother
    have hclear := clear_collect text left (i + length) (i + 1) (some c) rest hdrop hleft other hother
    simp only [stop, ofRun_start, ofRun_remaining, ofRun_marker] at hsame ⊢
    refine Nat.lt_of_le_of_ne hstart fun htouch => ?_
    by_cases hcut : length = run
    · -- the run ends before another character
      have hget := hmarks other.start (Nat.le_refl _) (by rw [stop]; omega)
      rw [← hsame, toChar_of_ofChar? hmarker, ← htouch, ← List.getElem?_drop, hrest, hcut] at hget
      exact getElem?_length_takeWhile_ne c _ hget
    · -- the run ends where a range starts, which the other one has to come after
      cases left with
      | nil => exact hcut rfl
      | cons range left =>
        have hlt := forall_of_passRanges hpass hranges range List.mem_cons_self
        obtain ⟨hle, hahead⟩ := lt_of_passRanges hpass
        have hnext := hahead range rfl
        have hapart := hclear range List.mem_cons_self
        have hlength : length = min run (range.1 - i) := rfl
        rw [stop] at hapart
        omega

end Delimiter

namespace Span

/-- Emphasis of a text stands between two of its runs, in the relation that
these stand in. -/
theorem standsBetween_of_mem_emphasis {text : Text} {ranges : List (Nat × Nat)} {span : Span}
    {R : Delimiter → Delimiter → Prop} (hruns : (delimiters text ranges).Pairwise R)
    (h : span ∈ emphasis text ranges) : ∃ first last, R first last ∧ span.StandsBetween first last :=
  Delimiter.pairAll_standsBetween [] [] _ (by simp) hruns span h

theorem leafRanges_nonempty (text : Text) : ∀ range ∈ leafRanges text, range.1 < range.2 := by
  intro range hr
  obtain ⟨leaf, hleaf, rfl⟩ := List.mem_map.mp hr
  exact (isLeaf_of_mem_leaves hleaf).proper.start_lt

/-- There is something between the markers of emphasis. -/
theorem contentStart_lt_of_mem_emphasis {text : Text} {span : Span}
    (h : span ∈ emphasisAround text (leaves text)) : span.contentStart < span.contentStop := by
  have hapart := Delimiter.apart_collect text (leafRanges text) 0 0 none text rfl (pairwise_leaf_starts text)
    (leafRanges_nonempty text)
  obtain ⟨first, last, hlt, hspan⟩ := standsBetween_of_mem_emphasis hapart h
  have := hlt hspan.alike
  have := hspan.contentStart_le
  have := hspan.le_contentStop
  omega

/-- The offsets of the markers of a span: from its start to its content, and
from its content to its stop. -/
def markerRanges (span : Span) : List (Nat × Nat) :=
  [(span.start, span.contentStart), (span.contentStop, span.stop)]

/-- The markers of a span and of one that comes after it or lies in it are not
the same. -/
theorem disjoint_markerRanges {a b : Span} {length : Nat} (ha : a.Proper length) (hb : b.Proper length)
    (h : a.stop ≤ b.start ∨ b.LiesIn a) :
    ∀ range ∈ a.markerRanges, ∀ other ∈ b.markerRanges, range.2 ≤ other.1 ∨ other.2 ≤ range.1 := by
  obtain ⟨hastart, hacontent, hastop, -, -⟩ := ha
  obtain ⟨hbstart, hbcontent, hbstop, -, -⟩ := hb
  simp only [markerRanges, List.forall_mem_cons, List.not_mem_nil, false_imp_iff, implies_true, and_true]
  rcases h with hafter | ⟨-, hstart, hstop⟩ <;> omega

end Span

/-! ## The markers of a text -/

/-- How many markers emphasis has on each side. -/
def EmphasisStrength.markers : EmphasisStrength → Nat
  | italic => 1
  | bold => 2
  | boldItalic => 3

theorem Marker.markers_weight_ofMarkers {marker : Marker} {k : Nat} (h : k ∈ marker.sizes) :
    (EmphasisRole.ofMarkers marker k).weight.markers = k := by
  cases marker <;> simp only [sizes, List.mem_cons, List.not_mem_nil, or_false] at h
  all_goals rcases h with rfl | rfl | rfl <;> rfl

theorem Marker.eq_of_three_mem_sizes {marker : Marker} (h : 3 ∈ marker.sizes) :
    marker = .star ∨ marker = .underscore := by
  cases marker <;> simp [sizes] at h ⊢

/-- Emphasis has equal markers that belong to it alone. Before and after its
content, which is not empty, stands its marker as often as its weight says,
three times only if the marker is a star or an underscore; and the markers of
all emphasis of a text are disjoint, also from its leaf spans. -/
theorem emphasis_markers_are_private (text : Text) :
    let spans := (Forest.ofText text).flatten.map Prod.fst
    (∀ span ∈ spans, ∀ marker role, span.kind = .emphasis marker role →
      span.contentStart < span.contentStop ∧
        ∃ k, 1 ≤ k ∧ k ≤ 3 ∧ role.weight.markers = k ∧ (k = 3 → marker = .star ∨ marker = .underscore) ∧
          span.contentStart = span.start + k ∧ span.stop = span.contentStop + k ∧
          Text.slice text span.start span.contentStart = List.replicate k marker.toChar ∧
          Text.slice text span.contentStop span.stop = List.replicate k marker.toChar) ∧
      ((spans.filter Span.isEmphasis).flatMap Span.markerRanges).Pairwise (fun a b => a.2 ≤ b.1 ∨ b.2 ≤ a.1) ∧
      ∀ span ∈ spans, ∀ leaf ∈ spans, span.isEmphasis = true → leaf.isEmphasis = false →
        ∀ range ∈ span.markerRanges, range.2 ≤ leaf.start ∨ leaf.stop ≤ range.1 := by
  intro spans
  have hspans : spans = Span.sort (Span.leaves text ++ Span.emphasisAround text (Span.leaves text)) :=
    Forest.flatten_ofSorted _
  have hmem (span : Span) (hs : span ∈ spans) :
      span ∈ Span.leaves text ++ Span.emphasisAround text (Span.leaves text) :=
    (Span.sort_perm _).mem_iff.mp (hspans ▸ hs)
  refine ⟨fun span hs marker role hkind => ?_, ?_, fun span hs leaf hl hspan hleaf => ?_⟩
  · refine ⟨Span.contentStart_lt_of_mem_emphasis (Span.mem_emphasis_of_mem_spans (hmem span hs) ?_), ?_⟩
    · simp [Span.isEmphasis, hkind]
    · obtain ⟨tree, ht, rfl⟩ := List.mem_map.mp hs
      obtain ⟨k, hbetween⟩ := Forest.between_of_mem_flatten ht hkind
      obtain ⟨hone, hthree⟩ := Marker.bounds_of_mem_sizes hbetween.size
      obtain rfl : role = .ofMarkers marker k := (SpanKind.emphasis.inj (hkind.symm.trans hbetween.kind)).2
      exact ⟨k, hone, hthree, Marker.markers_weight_ofMarkers hbetween.size,
        fun hk => Marker.eq_of_three_mem_sizes (hk ▸ hbetween.size), hbetween.contentStart, hbetween.stop,
        hbetween.opener, hbetween.closer⟩
  · have hproper (span : Span) (hs : span ∈ spans.filter Span.isEmphasis) : span.Proper text.length :=
      (Span.proper_of_mem_spans (hmem span (List.mem_filter.mp hs).1)).1
    have hsorted : spans.Pairwise fun a b => a.stop ≤ b.start ∨ b.LiesIn a := hspans ▸ Span.pairwise_sort_spans text
    refine List.pairwise_flatMap.mpr ⟨fun span hs => ?_, (hsorted.filter _).imp_of_mem fun {a b} ha hb hab => ?_⟩
    · have hcontent := (hproper span hs).content_le
      simpa [Span.markerRanges] using Or.inl hcontent
    · exact Span.disjoint_markerRanges (hproper a ha) (hproper b hb) hab
  · have hclear := (Span.pairwise_emphasis text (Span.pairwise_leaf_starts text)).2 span
      (Span.mem_emphasis_of_mem_spans (hmem span hs) hspan)
    obtain ⟨hopener, hcloser⟩ := hclear.2 (leaf.start, leaf.stop)
      (List.mem_map_of_mem (Span.mem_leaves_of_mem_spans (hmem leaf hl) hleaf))
    exact List.forall_mem_cons.mpr ⟨hopener, List.forall_mem_singleton.mpr hcloser⟩

-- a run of three is used up by two closers, from its end
example : (Forest.ofText "***a** b*".toList).flatten.flatMap (fun tree => tree.1.markerRanges) =
    [(0, 1), (8, 9), (1, 3), (4, 6)] := by decide +kernel

end ProseWrap
