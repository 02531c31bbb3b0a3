import ProseWrap.Proofs.SpanEdges
import ProseWrap.Text.Units

/-!
# Looking an offset up among spans

`Forest.inside` finds the span around an offset by halving. Each time it looks
at one span and drops half of the others: those that start no earlier if the
offset is not after its start, those that stop no later if the offset is not
before its stop. Nothing that is dropped is around the offset as long as
neither starts nor stops ever go back (`Forest.Ascending`); spans that touch
are no exception, since both comparisons are strict.

The outermost spans of a text are disjoint and in its order, so the search
misses none of them. Nor does it if all edges are moved by a function that
keeps their order (`Nested.inside_map_iff`), as they are when offsets count
16-bit units instead of characters (`inside_roots_iff`).
-/

namespace ProseWrap

/-- An offset further on in a text is no smaller in units. -/
theorem Text.unitOffset_monotone (text : Text) : Monotone (unitOffset text) := by
  intro i j hij
  induction text generalizing i j with
  | nil => simp [unitOffset]
  | cons c rest ih =>
    cases i with
    | zero => exact Nat.zero_le _
    | succ i =>
      obtain ⟨j, rfl⟩ := Nat.exists_eq_succ_of_ne_zero (show j ≠ 0 by omega)
      exact Nat.add_le_add_left (ih (Nat.le_of_succ_le_succ hij)) (unitWidth c)

/-- An offset lies between the edges of a span, on neither of them. -/
def Span.Surrounds (span : Span) (offset : Int) : Prop := span.start < offset ∧ offset < span.stop

namespace Forest

/-- Along an array of spans, the starts and the stops never go back. -/
def Ascending (spans : Array Span) : Prop :=
  ∀ (i j : Nat) (a b : Span), i ≤ j → spans[i]? = some a → spans[j]? = some b → a.start ≤ b.start ∧ a.stop ≤ b.stop

/-- Some span from position `low` up to position `high` surrounds an offset. -/
def SurroundedIn (spans : Array Span) (offset : Int) (low high : Nat) : Prop :=
  ∃ i span, low ≤ i ∧ i < high ∧ spans[i]? = some span ∧ span.Surrounds offset

variable {spans : Array Span} {offset : Int} {low high middle : Nat} {span : Span}

/-- If an offset is not after the start of a span, the spans from this one on
do not surround it. -/
theorem Ascending.surroundedIn_front (h : Ascending spans) (hmiddle : spans[middle]? = some span)
    (hlt : middle < high) (hstart : offset ≤ span.start) :
    SurroundedIn spans offset low high ↔ SurroundedIn spans offset low middle := by
  constructor
  · rintro ⟨i, other, hlow, hhigh, hother, hsurrounds⟩
    refine ⟨i, other, hlow, Nat.lt_of_not_le fun hle => ?_, hother, hsurrounds⟩
    have hstarts := (h middle i span other hle hmiddle hother).1
    have hinside := hsurrounds.1
    omega
  · rintro ⟨i, other, hlow, hhigh, hother, hsurrounds⟩
    exact ⟨i, other, hlow, by omega, hother, hsurrounds⟩

/-- If an offset is not before the stop of a span, the spans up to this one do
not surround it. -/
theorem Ascending.surroundedIn_back (h : Ascending spans) (hmiddle : spans[middle]? = some span)
    (hle : low ≤ middle) (hstop : span.stop ≤ offset) :
    SurroundedIn spans offset low high ↔ SurroundedIn spans offset (middle + 1) high := by
  constructor
  · rintro ⟨i, other, hlow, hhigh, hother, hsurrounds⟩
    refine ⟨i, other, Nat.lt_of_not_le fun hle => ?_, hhigh, hother, hsurrounds⟩
    have hstops := (h i middle other span hle hother hmiddle).2
    have hinside := hsurrounds.2
    omega
  · rintro ⟨i, other, hlow, hhigh, hother, hsurrounds⟩
    exact ⟨i, other, by omega, hhigh, hother, hsurrounds⟩

/-- Halving finds a span around an offset just if there is one, and needs no
more rounds than there are spans. -/
theorem Ascending.insideBetween_iff (h : Ascending spans) {rounds : Nat} (hrounds : high ≤ low + rounds)
    (hsize : high ≤ spans.size) :
    insideBetween spans offset rounds low high = true ↔ SurroundedIn spans offset low high := by
  have hnone {low high : Nat} (hle : high ≤ low) : ¬SurroundedIn spans offset low high := by
    rintro ⟨i, span, hlow, hhigh, -⟩
    omega
  fun_induction insideBetween spans offset rounds low high with
  | case1 low high => exact iff_of_false (by simp) (hnone (by omega))
  | case2 rounds low high hlt middle hget =>
    rw [Array.getElem?_eq_none_iff] at hget
    omega
  | case3 rounds low high hlt middle span hget hstart ih =>
    exact (ih (by omega) (by omega)).trans (h.surroundedIn_front hget (by omega) hstart).symm
  | case4 rounds low high hlt middle span hget hstart hstop ih =>
    exact (ih (by omega) hsize).trans (h.surroundedIn_back hget (by omega) hstop).symm
  | case5 rounds low high hlt middle span hget hstart hstop =>
    refine iff_of_true rfl ⟨middle, span, by omega, by omega, hget, ?_, ?_⟩ <;> omega
  | case6 rounds low high hlt => exact iff_of_false (by simp) (hnone (by omega))

theorem Nested.start_lt_of_mem_roots {forest : Forest} (h : forest.Nested) {root : Span} (hroot : root ∈ forest.roots) :
    root.start < root.stop := by
  induction forest with
  | nil => cases hroot
  | cons span children rest _ ih =>
    obtain ⟨hlt, -, -, -, hrest⟩ := h
    rcases List.mem_cons.mp hroot with rfl | hroot
    · exact hlt
    · exact ih hrest hroot

/-- Trees side by side ascend, since none of them is empty. -/
theorem Nested.ascending_roots {forest : Forest} (h : forest.Nested) : Ascending forest.roots.toArray := by
  intro i j a b hij ha hb
  rw [List.getElem?_toArray] at ha hb
  rcases Nat.eq_or_lt_of_le hij with rfl | hlt
  · cases ha.symm.trans hb
    exact ⟨Nat.le_refl _, Nat.le_refl _⟩
  · obtain ⟨hi, rfl⟩ := List.getElem?_eq_some_iff.mp ha
    obtain ⟨hj, rfl⟩ := List.getElem?_eq_some_iff.mp hb
    obtain ⟨hstarts, hbefore⟩ := List.pairwise_iff_getElem.mp h.pairwise_roots i j hi hj hlt
    have hproper := h.start_lt_of_mem_roots (List.getElem_mem hj)
    omega

/-- Spans ascend also after their edges were moved, if these keep their
order. -/
theorem Ascending.map {spans : List Span} (h : Ascending spans.toArray) {f : Nat → Nat} (hf : Monotone f) :
    Ascending (spans.map (Span.mapOffsets f)).toArray := by
  intro i j a b hij ha hb
  rw [List.getElem?_toArray, List.getElem?_map] at ha hb
  obtain ⟨a, hi, rfl⟩ := Option.map_eq_some_iff.mp ha
  obtain ⟨b, hj, rfl⟩ := Option.map_eq_some_iff.mp hb
  obtain ⟨hstarts, hstops⟩ := h i j a b hij (by rwa [List.getElem?_toArray]) (by rwa [List.getElem?_toArray])
  exact ⟨hf hstarts, hf hstops⟩

/-- Among ascending spans the search finds one just if there is one. -/
theorem Ascending.inside_iff {spans : List Span} (h : Ascending spans.toArray) (offset : Int) :
    inside spans offset = true ↔ ∃ span ∈ spans, span.Surrounds offset := by
  rw [inside, h.insideBetween_iff (by omega) (by simp)]
  constructor
  · rintro ⟨i, span, -, -, hget, hsurrounds⟩
    rw [List.getElem?_toArray] at hget
    exact ⟨span, List.mem_of_getElem? hget, hsurrounds⟩
  · rintro ⟨span, hmem, hsurrounds⟩
    obtain ⟨i, hi, rfl⟩ := List.getElem_of_mem hmem
    exact ⟨i, _, Nat.zero_le i, hi, by simp [hi], hsurrounds⟩

/-- Among trees side by side the search finds a root just if there is one
around the offset, wherever the edges were moved in their order. -/
theorem Nested.inside_map_iff {forest : Forest} (h : forest.Nested) {f : Nat → Nat} (hf : Monotone f)
    (offset : Int) :
    inside (forest.roots.map (Span.mapOffsets f)) offset = true ↔
      ∃ span ∈ forest.roots, (f span.start : Int) < offset ∧ offset < f span.stop := by
  rw [(h.ascending_roots.map hf).inside_iff]
  simp only [List.mem_map, exists_exists_and_eq_and]
  rfl

/-- An offset is found to be inside one of the outermost spans of a text just
if it lies strictly between the start and the stop of one of them. Offsets may
count characters or 16-bit units, as long as those of the spans count the
same. -/
theorem inside_roots_iff (text : Text) (offset : Int) :
    let roots := (ofText text).roots
    (inside roots offset = true ↔ ∃ span ∈ roots, (span.start : Int) < offset ∧ offset < span.stop) ∧
      (inside (roots.map (Span.mapOffsets (Text.unitOffset text))) offset = true ↔
        ∃ span ∈ roots, (Text.unitOffset text span.start : Int) < offset ∧
          offset < Text.unitOffset text span.stop) :=
  ⟨(nested_ofText text).ascending_roots.inside_iff offset,
    (nested_ofText text).inside_map_iff (Text.unitOffset_monotone text) offset⟩

-- two tags that touch at offset 3, which lies inside neither of them
example : [0, 2, 3, 4, 6].map (inside (ofText "<a><b>".toList).roots) = [false, true, false, true, false] := by
  decide +kernel

-- a character of two units before the first tag moves both tags by one more
example : [2, 3, 5, 6, 8].map
    (inside ((ofText "😀<a><b>".toList).roots.map (Span.mapOffsets (Text.unitOffset "😀<a><b>".toList)))) =
      [false, true, false, true, false] := by
  decide +kernel

end Forest

end ProseWrap
