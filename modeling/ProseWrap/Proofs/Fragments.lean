import Mathlib.Data.List.Basic
import ProseWrap.Proofs.Deletion
import ProseWrap.Proofs.Markers
import ProseWrap.Sentence.Split

/-!
# Cutting at sentence ends

The sentence ends between two offsets lie strictly between them and in
increasing order (`boundaries_lt`, `pairwise_boundaries`), whatever the spans
are. So the slices between them are the text again (`flatten_cut`), and
emphasis that is taken apart into its sentences keeps everything but blanks and
gets markers only (`fragments_without`).
-/

namespace ProseWrap

namespace Sentence

/-! ## Where sentences end -/

theorem le_runEnd (p : Char → Bool) (text : Text) (stop i : Nat) : i ≤ runEnd p text stop i :=
  Nat.le_add_right _ _

theorem spacedBoundary?_bounds {set : Abbreviations} {text : Text} {stop boundary : Nat} {c : Char}
    {place : Candidate} (h : spacedBoundary? set text stop c place = some boundary) :
    place.after ≤ boundary ∧ boundary < stop := by
  unfold spacedBoundary? at h
  dsimp only at h
  split at h
  · rename_i hcond
    cases h
    obtain ⟨hgap, hfirst, -⟩ := hcond
    refine ⟨le_runEnd _ _ _ _, ?_⟩
    have := le_runEnd (fun c => mayOpenQuote c || isLeadingMarker c) text stop
      (runEnd Text.isGap text stop (runEnd mayCloseQuote text stop place.after))
    omega
  · cases h

theorem unspacedFinding_bounds {text : Text} {stop after boundary : Nat}
    (h : (unspacedFinding text stop after).boundary = some boundary) :
    after ≤ boundary ∧ boundary < stop := by
  unfold unspacedFinding at h
  dsimp only at h
  split at h
  · rename_i hcond
    cases h
    refine ⟨le_runEnd _ _ _ _, ?_⟩
    have := le_runEnd Text.isGap text stop
      (runEnd (fun c => isUnspacedCloser c || isUnspacedTerminator c) text stop after)
    omega
  · cases h

/-- A candidate ends a sentence after itself, and before the text stops. -/
theorem judge_bounds {set : Abbreviations} {text : Text} {stop boundary : Nat} {c : Char}
    {place : Candidate} (h : (judge set text stop c place).boundary = some boundary) :
    place.after ≤ boundary ∧ boundary < stop := by
  unfold judge at h
  split at h
  · exact spacedBoundary?_bounds h
  · split at h
    · exact unspacedFinding_bounds h
    · cases h

theorem judgeSpan_bounds {set : Abbreviations} {text : Text} {stop boundary : Nat} {span : Span}
    (h : (judgeSpan set text stop span).boundary = some boundary) :
    span.stop ≤ boundary ∧ boundary < stop := by
  unfold judgeSpan at h
  dsimp only at h
  split at h
  · split at h
    · exact judge_bounds h
    · cases h
  · cases h

/-- The sentence ends found from offset `i` on come after it and after the last
one before, and they are in increasing order. -/
theorem boundariesFrom_bounds (set : Abbreviations) (text : Text) (stop : Nat) (floor : Int)
    (spans : List Span) (resume i last : Nat) (rest : Text) :
    (∀ b ∈ boundariesFrom set text stop floor spans resume i last rest, last < b ∧ i < b ∧ b < stop) ∧
      (boundariesFrom set text stop floor spans resume i last rest).Pairwise (· < ·) := by
  fun_induction boundariesFrom set text stop floor spans resume i last rest with
  | case1 => simp
  | case2 => simp
  | case3 spans resume i last c rest _ _ ih =>
    exact ⟨fun b hb => by have := ih.1 b hb; omega, ih.2⟩
  | case4 spans resume i last c rest _ _ left plain found new ih =>
    have hfound : ∀ b, found.boundary = some b → i < b ∧ b < stop := by
      intro b hb
      have hplain : plain.boundary = some b → i < b ∧ b < stop := fun h => judge_bounds h
      have hleft : ∀ span, left.head? = some span → i < span.stop := by
        intro span hspan
        have := List.head?_dropWhile_not (fun s : Span => decide (s.stop ≤ i)) spans
        rw [show (spans.dropWhile fun s => decide (s.stop ≤ i)).head? = some span from hspan] at this
        simpa using this
      simp only [found] at hb
      clear_value left
      cases left with
      | nil => exact hplain hb
      | cons span others =>
        have hspan := hleft span rfl
        dsimp only at hb
        split at hb
        · have := judgeSpan_bounds hb
          omega
        · split at hb
          · cases hb
          · exact hplain hb
    have hnew : ∀ b, new = some b → last < b ∧ i < b ∧ b < stop := by
      intro b hb
      obtain ⟨hb, hlast⟩ := Option.filter_eq_some_iff.mp hb
      exact ⟨by simpa using hlast, hfound b hb⟩
    have hlast : last ≤ new.getD last := by
      cases hn : new with
      | none => exact Nat.le_refl _
      | some b => exact Nat.le_of_lt (hnew b hn).1
    refine ⟨fun b hb => ?_, List.pairwise_append.mpr ⟨?_, ih.2, fun a ha b hb => ?_⟩⟩
    · rcases List.mem_append.mp hb with hb | hb
      · exact hnew b (Option.mem_toList.mp hb)
      · have := ih.1 b hb
        omega
    · cases new <;> simp
    · have ha := Option.mem_toList.mp ha
      have := (ih.1 b hb).1
      rwa [ha] at this

theorem boundaries_lt {set : Abbreviations} {text : Text} {spans : List Span} {start stop b : Nat}
    (h : b ∈ boundaries set text spans start stop) : start < b ∧ b < stop := by
  have := (boundariesFrom_bounds set text stop start spans 0 _ 0 _).1 b h
  simpa using this.2

theorem pairwise_boundaries (set : Abbreviations) (text : Text) (spans : List Span) (start : Int)
    (stop : Nat) : (boundaries set text spans start stop).Pairwise (· < ·) :=
  (boundariesFrom_bounds set text stop start spans 0 _ 0 _).2

/-! ## Slices between sentence ends -/

/-- The slices between increasing offsets are what stands between the outermost
ones. -/
theorem flatten_cut {text : Text} {start stop : Nat} {ends : List Nat} (hle : start ≤ stop)
    (hstop : stop ≤ text.length) (hb : ∀ b ∈ ends, start ≤ b ∧ b ≤ stop) (hp : ends.Pairwise (· < ·)) :
    (cut text start (ends.map Int.ofNat ++ [(stop : Int)])).flatten = Text.slice text start stop := by
  induction ends generalizing start with
  | nil => simp [cut, Text.sliceSigned_natCast hstop]
  | cons b ends ih =>
    obtain ⟨hlater, hp⟩ := List.pairwise_cons.mp hp
    obtain ⟨hsb, hbs⟩ := hb b List.mem_cons_self
    have hrest := ih hbs (fun later hl =>
      ⟨Nat.le_of_lt (hlater later hl), (hb later (List.mem_cons_of_mem _ hl)).2⟩) hp
    rw [List.map_cons, List.cons_append, cut, List.flatten_cons]
    rw [show Int.ofNat b = (b : Int) from rfl, hrest, Text.sliceSigned_natCast (by omega),
      Text.slice_append_slice hsb hbs]

/-- The sentences between two offsets hold all that stands there but blanks. -/
theorem slices_without {p : Char → Bool} (hp : ∀ c, Text.isBlank c → p c) {text : Text} {start stop : Nat}
    {ends : List Nat} (hle : start ≤ stop) (hstop : stop ≤ text.length)
    (hb : ∀ b ∈ ends, start ≤ b ∧ b ≤ stop) (hs : ends.Pairwise (· < ·)) :
    (slices text (ends.map Int.ofNat) start stop).flatMap (Text.without p) =
      Text.without p (Text.slice text start stop) := by
  have hfilter : ∀ l : List Text, (l.filter fun s => !s.isEmpty).flatMap (Text.without p) =
      l.flatMap (Text.without p) := by
    intro l
    induction l with
    | nil => rfl
    | cons s l ih =>
      rw [List.filter_cons]
      split
      · rw [List.flatMap_cons, List.flatMap_cons, ih]
      · rename_i hempty
        simp only [Bool.not_eq_true, Bool.not_eq_false'] at hempty
        rw [List.flatMap_cons, ih, List.isEmpty_iff.mp hempty, Text.without_nil, List.nil_append]
  rw [slices, hfilter, List.flatMap_map, ← flatten_cut hle hstop hb hs, Text.without_flatten]
  exact List.flatMap_congr fun s _ => Text.without_trim hp s

/-! ## Emphasis of several sentences -/

variable {set : Abbreviations} {text : Text} {span : Span} {children : Forest}

theorem mem_slice {a b : Nat} {c : Char} (h : c ∈ Text.slice text a b) :
    ∃ i, a ≤ i ∧ i < b ∧ text[i]? = some c := by
  obtain ⟨k, hk, rfl⟩ := List.mem_iff_getElem.mp h
  simp only [Text.slice, List.length_take, List.length_drop] at hk
  refine ⟨a + k, by omega, by omega, ?_⟩
  simp only [Text.slice, List.getElem_take, List.getElem_drop]
  rw [List.getElem?_eq_getElem]

/-- Taken apart, emphasis keeps everything but blanks, and gets markers
only. -/
theorem fragments_without {p : Char → Bool} (hp : ∀ c, Text.isBlank c → p c)
    (hmarker : ∀ marker : Marker, p marker.toChar) (hm : span.isEmphasis → span.Marked text) :
    (fragments set text span children).flatMap (Text.without p) =
      Text.without p (Text.slice text span.start span.stop) := by
  unfold fragments
  dsimp only
  split
  · rename_i hemph
    have hm := hm hemph
    have h₁ := hm.start_lt
    have h₂ := hm.content_le
    have h₃ := hm.lt_stop
    have hlen := hm.proper.stop_le
    split
    · simp
    · have hopen : Text.without p (Text.slice text span.start span.contentStart) = [] := by
        refine Text.without_eq_nil fun c hc => ?_
        obtain ⟨i, hi, hi', hget⟩ := mem_slice hc
        obtain ⟨marker, hmark⟩ := hm.opener i hi hi'
        rw [hget, Option.some.injEq] at hmark
        exact hmark ▸ hmarker marker
      have hclose : Text.without p (Text.slice text span.contentStop span.stop) = [] := by
        refine Text.without_eq_nil fun c hc => ?_
        obtain ⟨i, hi, hi', hget⟩ := mem_slice hc
        obtain ⟨marker, hmark⟩ := hm.closer i hi hi'
        rw [hget, Option.some.injEq] at hmark
        exact hmark ▸ hmarker marker
      have hcontent := slices_without hp h₂ (Nat.le_trans (Nat.le_of_lt h₃) hlen)
        (fun b hb => ⟨Nat.le_of_lt (boundaries_lt hb).1, Nat.le_of_lt (boundaries_lt hb).2⟩)
        (pairwise_boundaries set text children.roots span.contentStart span.contentStop)
      rw [List.flatMap_map]
      simp only [Text.without_append, hopen, hclose, List.nil_append, List.append_nil]
      rw [hcontent, ← Text.slice_append_slice (show span.start ≤ span.contentStart by omega)
        (show span.contentStart ≤ span.stop by omega), ← Text.slice_append_slice h₂ (Nat.le_of_lt h₃),
        Text.without_append, Text.without_append, hopen, hclose, List.nil_append, List.append_nil]
  · simp

theorem fragments_ne_nil (set : Abbreviations) (text : Text) (span : Span) (children : Forest) :
    fragments set text span children ≠ [] := by
  unfold fragments
  dsimp only
  split
  · split
    · exact List.cons_ne_nil _ _
    · rename_i hmany
      simp only [Bool.or_eq_true, decide_eq_true_eq, not_or, Nat.not_lt] at hmany
      refine List.ne_nil_of_length_pos ?_
      rw [List.length_map]
      omega
  · exact List.cons_ne_nil _ _

/-- Taken apart or not, each piece of a span begins as the span does. -/
theorem head?_of_mem_fragments (hlt : span.start < span.stop) (hm : span.isEmphasis → span.Marked text)
    {piece : Text} (h : piece ∈ fragments set text span children) :
    piece.head? = text[span.start]? := by
  unfold fragments at h
  dsimp only at h
  split at h
  · rename_i hemph
    split at h
    · rw [List.mem_singleton.mp h, Text.head?_slice _ hlt]
    · obtain ⟨sentence, -, rfl⟩ := List.mem_map.mp h
      have hstart := (hm hemph).start_lt
      obtain ⟨marker, hmarker⟩ := (hm hemph).opener _ (Nat.le_refl _) hstart
      rw [List.append_assoc, List.head?_append, Text.head?_slice _ hstart, hmarker]
      rfl
  · rw [List.mem_singleton.mp h, Text.head?_slice _ hlt]

/-- The pieces of a span have no other characters than the text. -/
theorem mem_of_mem_fragments {piece : Text} (h : piece ∈ fragments set text span children) {c : Char}
    (hc : c ∈ piece) : c ∈ text := by
  have hslice {a b : Nat} (hc : c ∈ Text.slice text a b) : c ∈ text :=
    (Text.slice_sublist text a b).subset hc
  have hcut {start : Int} {stops : List Int} {piece : Text} (h : piece ∈ cut text start stops)
      (hc : c ∈ piece) : c ∈ text := by
    induction stops generalizing start with
    | nil => cases h
    | cons stop stops ih =>
      rcases List.mem_cons.mp h with rfl | h
      · exact hslice hc
      · exact ih h
  unfold fragments at h
  dsimp only at h
  split at h
  · split at h
    · exact hslice (List.mem_singleton.mp h ▸ hc)
    · obtain ⟨sentence, hs, rfl⟩ := List.mem_map.mp h
      obtain ⟨piece, hp, rfl⟩ := List.mem_map.mp (List.mem_filter.mp hs).1
      simp only [List.mem_append] at hc
      rcases hc with (hc | hc) | hc
      · exact hslice hc
      · exact hcut hp ((Text.trim_sublist piece).subset hc)
      · exact hslice hc
  · exact hslice (List.mem_singleton.mp h ▸ hc)

end Sentence

end ProseWrap
