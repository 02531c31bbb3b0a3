import Mathlib.Data.List.DropRight
import ProseWrap.Proofs.SentenceEnds

/-!
# Sentences keep spans whole

A sentence ends after a run of quotes or closers, and no span begins with one
of these; so no sentence end lies strictly inside a span
(`not_inside_of_mem_boundaries`). Cut there and trimmed, a text is slices of it
one after the other, and what is not cut and begins and ends with something
other than a blank lies in one of them (`exists_sliced`). A span does, since
its first and its last character are no blanks (`not_isBlank_of_edge`).
-/

namespace ProseWrap

open Span (leafOpeners leafClosers markers)

namespace Text

/-! ## Trimming -/

theorem trim_trim (text : Text) : trim (trim text) = trim text := by
  have hstart : trimStart (trim text) = trim text := by
    cases htrim : trim text with
    | nil => rfl
    | cons c rest => exact List.dropWhile_cons_of_neg (by simp [head_trim htrim])
  rw [trim, hstart]
  exact List.rdropWhile_idempotent isBlank (trimStart text)

/-- Trimming leaves a slice, with blanks only on both sides of it. -/
theorem trim_eq_slice (text : Text) :
    ∃ a b, a ≤ b ∧ b ≤ text.length ∧ trim text = slice text a b ∧
      ∀ k c, text[k]? = some c → isBlank c = false → a ≤ k ∧ k < b := by
  have hfront := (Sentence.takeWhile_length_spec isBlank text).1
  have hdrop := drop_length_takeWhile isBlank text
  have hle := (List.takeWhile_sublist isBlank (l := text)).length_le
  generalize (text.takeWhile isBlank).length = a at hfront hdrop hle
  have hback := (Sentence.takeWhile_length_spec isBlank (text.drop a).reverse).1
  have hdrop' := drop_length_takeWhile isBlank (text.drop a).reverse
  have hle' := (List.takeWhile_sublist isBlank (l := (text.drop a).reverse)).length_le
  rw [List.length_reverse, List.length_drop] at hle'
  generalize ((text.drop a).reverse.takeWhile isBlank).length = n at hback hdrop' hle'
  refine ⟨a, text.length - n, by omega, by omega, ?_, fun k c hk hc => ?_⟩
  · rw [trim, trimEnd, dropEndWhile, trimStart, ← hdrop, ← hdrop', List.drop_reverse, List.reverse_reverse,
      List.length_drop, slice, show text.length - a - n = text.length - n - a by omega]
  · obtain ⟨hlt, -⟩ := List.getElem?_eq_some_iff.mp hk
    constructor
    · by_contra hbefore
      obtain ⟨d, hd, hblank⟩ := hfront k (by omega)
      rw [hk, Option.some.injEq] at hd
      rw [← hd, hc] at hblank
      cases hblank
    · by_contra hafter
      obtain ⟨d, hd, hblank⟩ := hback (text.length - 1 - k) (by omega)
      rw [List.getElem?_reverse (by rw [List.length_drop]; omega), List.length_drop, List.getElem?_drop,
        show a + (text.length - a - 1 - (text.length - 1 - k)) = k by omega, hk, Option.some.injEq] at hd
      rw [← hd, hc] at hblank
      cases hblank

theorem getElem?_slice {text : Text} {a b k : Nat} (hk : a + k < b) : (slice text a b)[k]? = text[a + k]? := by
  rw [slice, List.getElem?_take_of_lt (by omega), List.getElem?_drop]

theorem slice_slice {text : Text} {a b x y : Nat} (hy : a + y ≤ b) :
    slice (slice text a b) x y = slice text (a + x) (a + y) := by
  rw [slice, slice, slice, List.drop_take, List.take_take, List.drop_drop]
  congr 1
  omega

/-- A slice without the blanks at its ends is a slice, and holds all that is no
blank. -/
theorem trim_slice {text : Text} {a b : Nat} (hab : a ≤ b) (hb : b ≤ text.length) :
    ∃ x y, a ≤ x ∧ x ≤ y ∧ y ≤ b ∧ trim (slice text a b) = slice text x y ∧
      ∀ k c, a ≤ k → k < b → text[k]? = some c → isBlank c = false → x ≤ k ∧ k < y := by
  obtain ⟨x, y, hxy, hy, htrim, hink⟩ := trim_eq_slice (slice text a b)
  rw [length_slice hb] at hy
  refine ⟨a + x, a + y, by omega, by omega, by omega, ?_, fun k c hk hkb hget hc => ?_⟩
  · rw [htrim, slice_slice (by omega)]
  · have := hink (k - a) c (by rw [getElem?_slice (by omega), show a + (k - a) = k by omega, hget]) hc
    omega

end Text

namespace Sentence

variable {set : Abbreviations} {text : Text}

/-! ## Slices between cuts -/

/-- The pieces are slices of a text between two offsets, one after the other
and none of them empty. -/
structure Sliced (text : Text) (start stop : Nat) (ranges : List (Nat × Nat)) (pieces : List Text) : Prop where
  pieces_eq : pieces = ranges.map fun range => Text.slice text range.1 range.2
  pairwise : ranges.Pairwise fun a b => a.2 ≤ b.1
  within : ∀ range ∈ ranges, start ≤ range.1 ∧ range.1 < range.2 ∧ range.2 ≤ stop

/-- A stretch from offset `first` to offset `last` with no blank at its
ends. -/
structure Inked (text : Text) (first last : Nat) : Prop where
  le : first ≤ last
  first_ink : ∃ c, text[first]? = some c ∧ Text.isBlank c = false
  last_ink : ∃ c, text[last]? = some c ∧ Text.isBlank c = false

/-- The trimmed slice up to a cut, if anything is left of it, comes before the
slices after the cut, and a stretch before the cut lies in it. -/
theorem Sliced.front {start cut stop : Nat} {ranges : List (Nat × Nat)} {pieces : List Text}
    (h : Sliced text cut stop ranges pieces) (hle : start ≤ cut) (hcut : cut ≤ stop) (hstop : stop ≤ text.length) :
    ∃ front, Sliced text start stop (front ++ ranges)
        (([Text.trim (Text.slice text start cut)].filter fun piece => !piece.isEmpty) ++ pieces) ∧
      ∀ first last, start ≤ first → last < cut → Inked text first last →
        ∃ range ∈ front, range.1 ≤ first ∧ last < range.2 := by
  obtain ⟨x, y, hx, hxy, hy, htrim, hink⟩ := Text.trim_slice hle (Nat.le_trans hcut hstop)
  have hstretch {first last : Nat} (hfirst : start ≤ first) (hlast : last < cut) (hinked : Inked text first last) :
      x ≤ first ∧ last < y := by
    have hle := hinked.le
    obtain ⟨⟨c, hc, hblank⟩, d, hd, hblank'⟩ := And.intro hinked.first_ink hinked.last_ink
    exact ⟨(hink first c hfirst (by omega) hc hblank).1, (hink last d (by omega) hlast hd hblank').2⟩
  rw [htrim]
  rcases Nat.lt_or_eq_of_le hxy with hlt | rfl
  · have hne : Text.slice text x y ≠ [] := by
      refine List.ne_nil_of_length_pos ?_
      rw [Text.length_slice (by omega)]
      omega
    refine ⟨[(x, y)], ⟨?_, ?_, ?_⟩, fun first last hfirst hlast hinked => ?_⟩
    · simp [h.pieces_eq, hne]
    · exact List.pairwise_cons.mpr ⟨fun range hr => Nat.le_trans hy (h.within range hr).1, h.pairwise⟩
    · refine List.forall_mem_cons.mpr ⟨⟨hx, hlt, Nat.le_trans hy hcut⟩, fun range hr => ?_⟩
      exact ⟨Nat.le_trans hle (h.within range hr).1, (h.within range hr).2⟩
    · exact ⟨(x, y), List.mem_singleton_self _, hstretch hfirst hlast hinked⟩
  · refine ⟨[], ⟨?_, h.pairwise, fun range hr => ?_⟩, fun first last hfirst hlast hinked => ?_⟩
    · simp [h.pieces_eq, Text.slice_eq_nil]
    · exact ⟨Nat.le_trans hle (h.within range hr).1, (h.within range hr).2⟩
    · have := hstretch hfirst hlast hinked
      have := hinked.le
      omega

/-- The trimmed slices between cuts are slices of the text, and a stretch that
is not cut lies in one of them. -/
theorem exists_sliced {start stop : Nat} {ends : List Nat} (hle : start ≤ stop) (hstop : stop ≤ text.length)
    (hb : ∀ b ∈ ends, start ≤ b ∧ b ≤ stop) (hp : ends.Pairwise (· < ·)) :
    ∃ ranges, Sliced text start stop ranges (slices text (ends.map Int.ofNat) start stop) ∧
      ∀ first last, start ≤ first → last < stop → Inked text first last →
        (∀ b ∈ ends, ¬(first < b ∧ b ≤ last)) → ∃ range ∈ ranges, range.1 ≤ first ∧ last < range.2 := by
  induction ends generalizing start with
  | nil =>
    have hnone : Sliced text stop stop [] [] := ⟨rfl, .nil, by simp⟩
    obtain ⟨front, hsliced, hfront⟩ := hnone.front hle (Nat.le_refl _) hstop
    refine ⟨front ++ [], ?_, fun first last hfirst hlast hinked _ => ?_⟩
    · rw [slices, List.map_nil, List.nil_append, cut, cut, Text.sliceSigned_natCast hstop]
      simpa using hsliced
    · simpa using hfront first last hfirst hlast hinked
  | cons b ends ih =>
    obtain ⟨⟨hsb, hbs⟩, hb⟩ := List.forall_mem_cons.mp hb
    obtain ⟨hlater, hp⟩ := List.pairwise_cons.mp hp
    obtain ⟨ranges, hrest, hranges⟩ := ih hbs (fun later hl => ⟨Nat.le_of_lt (hlater later hl), (hb later hl).2⟩) hp
    obtain ⟨front, hsliced, hfront⟩ := hrest.front hsb hbs hstop
    refine ⟨front ++ ranges, ?_, fun first last hfirst hlast hinked huncut => ?_⟩
    · have hcut : slices text ((b :: ends).map Int.ofNat) start stop =
          ([Text.trim (Text.slice text start b)].filter fun piece => !piece.isEmpty) ++
            slices text (ends.map Int.ofNat) b stop := by
        rw [slices, slices, List.map_cons, List.cons_append, cut, show Int.ofNat b = (b : Int) from rfl,
          Text.sliceSigned_natCast (by omega), ← List.filter_append]
        rfl
      rwa [hcut]
    · obtain ⟨hhere, huncut⟩ := List.forall_mem_cons.mp huncut
      by_cases hbefore : last < b
      · obtain ⟨range, hr, hin⟩ := hfront first last hfirst hbefore hinked
        exact ⟨range, List.mem_append_left _ hr, hin⟩
      · obtain ⟨range, hr, hin⟩ := hranges first last (by omega) hlast hinked huncut
        exact ⟨range, List.mem_append_right _ hr, hin⟩

/-! ## Sentence ends and spans -/

theorem not_isBlank_of_edge {c : Char} (h : c ∈ leafOpeners ++ markers ∨ c ∈ leafClosers ++ markers) :
    Text.isBlank c = false := by
  have hopeners : (leafOpeners ++ markers).all (fun c => !Text.isBlank c) = true := by decide
  have hclosers : (leafClosers ++ markers).all (fun c => !Text.isBlank c) = true := by decide
  rcases h with h | h
  · simpa using List.all_eq_true.mp hopeners c h
  · simpa using List.all_eq_true.mp hclosers c h

theorem inked_of_edged {span : Span} (hlt : span.start < span.stop) (h : span.Edged text) :
    Inked text span.start (span.stop - 1) := by
  obtain ⟨⟨c, hc, hget⟩, d, hd, hget'⟩ := h
  exact ⟨by omega, ⟨c, hget, not_isBlank_of_edge (.inl hc)⟩, ⟨d, hget', not_isBlank_of_edge (.inr hd)⟩⟩

/-- A sentence ends at the end of a run of characters that no span begins
with. -/
theorem EndsAt.exists_runsTo {stop b : Nat} {place : Candidate} (h : EndsAt set text stop place b) :
    ∃ p : Char → Bool, (∀ c, p c = true → isUnspacedTail c = true) ∧ RunsTo p text stop place.after b := by
  cases h with
  | spaced c gap first gapEnd next hc hends hquotes =>
    exact ⟨mayCloseQuote, fun _ => isUnspacedTail_of_mayCloseQuote, hquotes⟩
  | unspaced c hc hends hclosers => exact ⟨isUnspacedTail, fun _ => id, hclosers⟩

/-- No sentence ends strictly inside a span. -/
theorem not_inside_of_mem_boundaries {spans : List Span} {start stop : Nat} (hspans : Span.Apart text stop spans)
    (hstarts : ∀ span ∈ spans, start ≤ span.start) (hstop : stop ≤ text.length) {b : Nat}
    (h : b ∈ boundaries set text spans start stop) {span : Span} (hs : span ∈ spans) :
    ¬(span.start < b ∧ b < span.stop) := by
  rintro ⟨hstart, hinside⟩
  obtain ⟨pos, place, hplace, hb⟩ := (mem_boundaries_iff hspans hstarts hstop).mp h
  obtain ⟨p, hp, hrun⟩ := ((boundary?_eq_some_iff hspans hstop hplace).mp hb).exists_runsTo
  have hafter := hspans.not_start_in_run hp hrun hs
  have hle := hrun.le
  cases hplace with
  | outside i _ _ houtside => exact houtside span hs (by dsimp only at hafter hle; omega)
  | emphasis other hmem =>
    dsimp only at hafter hle
    -- the two spans overlap, so they are the same, which stops before `b`
    have hother := (hspans.proper other hmem).1
    have hsame : span = other := by
      by_cases hfirst : span.start ≤ other.start
      · exact hspans.eq_of_inside hs hmem ⟨hfirst, by omega⟩ ⟨Nat.le_refl _, hother⟩
      · exact hspans.eq_of_inside hs hmem ⟨Nat.le_refl _, by omega⟩ ⟨by omega, by omega⟩
    rw [hsame] at hinside
    omega

end Sentence

/-! ## Sentences of a text -/

namespace Sentence

/-- Sentences do not cut spans and lose nothing. The sentence ends of a text
are in increasing order, lie strictly inside the text and strictly inside none
of its outermost spans; those that emphasis is taken apart at lie likewise in
its content, and strictly inside nothing that it encloses. The sentences are
trimmed slices of the text, one after the other and none of them empty, each
outermost span lies whole in one of them, and but for blanks they are the
text. -/
theorem sentences_keep_spans (set : Abbreviations) (text : Text) :
    let forest := Forest.ofText text
    ((boundariesOf set text).Pairwise (· < ·) ∧
      ∀ b ∈ boundariesOf set text, 0 < b ∧ b < text.length ∧
        ∀ span ∈ forest.roots, ¬(span.start < b ∧ b < span.stop)) ∧
    (∀ tree ∈ forest.flatten, tree.1.isEmphasis = true →
      let ends := boundaries set text tree.2.roots tree.1.contentStart tree.1.contentStop
      ends.Pairwise (· < ·) ∧
        ∀ b ∈ ends, tree.1.contentStart < b ∧ b < tree.1.contentStop ∧
          ∀ child ∈ tree.2.roots, ¬(child.start < b ∧ b < child.stop)) ∧
    (∀ sentence ∈ split set text, sentence ≠ [] ∧ Text.trim sentence = sentence) ∧
    (∃ ranges, Sliced text 0 text.length ranges (split set text) ∧
      ∀ span ∈ forest.roots, ∃ range ∈ ranges, range.1 ≤ span.start ∧ span.stop ≤ range.2) ∧
    (split set text).flatMap (Text.without Text.isBlank) = Text.without Text.isBlank text := by
  intro forest
  have hspans := Forest.apart_roots text
  have hends {b : Nat} (hb : b ∈ boundariesOf set text) : 0 < b ∧ b < text.length := boundaries_lt hb
  have hpairwise : (boundariesOf set text).Pairwise (· < ·) := pairwise_boundaries ..
  have hbounds : ∀ b ∈ boundariesOf set text, 0 ≤ b ∧ b ≤ text.length :=
    fun b hb => ⟨Nat.zero_le _, Nat.le_of_lt (hends hb).2⟩
  have houtside {b : Nat} (hb : b ∈ boundariesOf set text) {span : Span} (hs : span ∈ forest.roots) :
      ¬(span.start < b ∧ b < span.stop) :=
    not_inside_of_mem_boundaries hspans (fun _ _ => Nat.zero_le _) (Nat.le_refl _) hb hs
  refine ⟨⟨hpairwise, fun b hb => ⟨(hends hb).1, (hends hb).2, fun _ => houtside hb⟩⟩,
    fun tree ht _ => ⟨pairwise_boundaries .., fun b hb => ?_⟩, fun sentence hs => ?_, ?_, ?_⟩
  · obtain ⟨hchildren, hstarts⟩ := Forest.apart_children ht
    have hproper := (Span.proper_of_mem_spans (Forest.mem_spans_of_mem_flatten ht)).1
    have hstop : tree.1.contentStop ≤ text.length := Nat.le_trans hproper.le_stop hproper.stop_le
    obtain ⟨hlow, hhigh⟩ := boundaries_lt hb
    exact ⟨hlow, hhigh, fun child => not_inside_of_mem_boundaries hchildren hstarts hstop hb⟩
  · obtain ⟨hmem, hne⟩ := List.mem_filter.mp hs
    obtain ⟨piece, -, rfl⟩ := List.mem_map.mp hmem
    exact ⟨by simpa using hne, Text.trim_trim piece⟩
  · obtain ⟨ranges, hsliced, hranges⟩ := exists_sliced (Nat.zero_le _) (Nat.le_refl _) hbounds hpairwise
    refine ⟨ranges, hsliced, fun span hs => ?_⟩
    obtain ⟨⟨hlt, hstop⟩, hedged⟩ := Forest.opened_of_mem_roots (fun _ => id) hs
    obtain ⟨range, hr, hfirst, hlast⟩ := hranges span.start (span.stop - 1) (Nat.zero_le _) (by omega)
      (inked_of_edged hlt hedged) fun b hb => by have := houtside hb hs; omega
    exact ⟨range, hr, hfirst, by omega⟩
  · have hall := slices_without (fun _ => id) (Nat.zero_le _) (Nat.le_refl _) hbounds hpairwise
    rwa [Text.slice, List.drop_zero, Nat.sub_zero, List.take_length] at hall

end Sentence

end ProseWrap
