import ProseWrap.Proofs.MarkerRuns
import ProseWrap.Proofs.Sentences

/-!
# Emphasis that is taken apart

Emphasis of several sentences is restated as one piece for each sentence,
between markers of its own. A piece is read as one emphasis of the same kind if
its first markers and its last ones are paired with each other, and only then
(`readsAs_iff`). They are if no marker of the sentence can come in between
(`Marker.Encloses`, `Encloses.mem_emphasis`): with the first markers at the
bottom of the stack, the runs of the sentence are paired as they are without
them (`Lifted.pairCloser`), as long as every closer of that marker finds its
opener in the sentence. A sentence that has no such marker is the simplest case
(`encloses_around`).
-/

namespace ProseWrap

namespace Delimiter

/-! ## Runs above another one -/

/-- Whether no marker of a kind is left after a list of runs has been paired:
every run of it that can close is used up, and none of it waits on the
stack. -/
def settles (marker : Marker) (stack : List Delimiter) (floors : Floors) : List Delimiter → Bool
  | [] => stack.all fun run => run.marker != marker
  | run :: rest =>
    let paired := pairRun stack floors run
    (run.marker != marker || !run.canClose || paired.closer.remaining == 0) &&
      settles marker (paired.rested run) paired.floors rest

/-- Floors of a stack, and those of the stack that has one more run, of the
given marker, at its bottom. No closer of that marker has a floor. -/
structure Lifted (marker : Marker) (floors lifted : Floors) : Prop where
  own : ∀ closer : Delimiter, closer.marker = marker → floors.floor closer = 0 ∧ lifted.floor closer = 0
  other : ∀ closer : Delimiter, closer.marker ≠ marker →
    lifted.floor closer = floors.floor closer + 1 ∨ floors.floor closer = 0 ∧ lifted.floor closer = 0

variable {marker : Marker} {floors lifted : Floors} {stack : List Delimiter} {closer first : Delimiter}

theorem fits_of_ne {opener : Delimiter} (h : opener.marker ≠ closer.marker) : opener.fits closer = false := by
  simp [fits, h]

/-- What is found above is found. -/
theorem findOpener_append {depth further : Nat} {opener : Delimiter} {below : List Delimiter}
    (h : findOpener closer depth stack = some (opener, below)) (hle : depth ≤ further) (more : List Delimiter) :
    findOpener closer further (stack ++ more) = some (opener, below ++ more) := by
  fun_induction findOpener closer depth stack generalizing further with
  | case1 => cases h
  | case2 => cases h
  | case3 depth top rest hfits =>
    cases h
    obtain ⟨further, rfl⟩ := Nat.exists_eq_add_one_of_ne_zero (by omega : further ≠ 0)
    rw [List.cons_append, findOpener, if_pos hfits]
  | case4 depth top rest hfits ih =>
    obtain ⟨further, rfl⟩ := Nat.exists_eq_add_one_of_ne_zero (by omega : further ≠ 0)
    rw [List.cons_append, findOpener, if_neg hfits]
    exact ih h (by omega)

/-- Runs that do not fit are passed. -/
theorem findOpener_of_not_fits (hstack : ∀ run ∈ stack, run.fits closer = false)
    (hfirst : first.fits closer = true) :
    findOpener closer (stack.length + 1) (stack ++ [first]) = some (first, []) := by
  induction stack with
  | nil => simp [findOpener, hfirst]
  | cons top rest ih =>
    obtain ⟨htop, hrest⟩ := List.forall_mem_cons.mp hstack
    rw [List.length_cons, List.cons_append, findOpener, if_neg (by simp [htop])]
    exact ih hrest

/-- A closer of another marker finds nothing at the bottom. -/
theorem Lifted.findOpener_eq_none (h : Lifted marker floors lifted) (hfirst : first.marker = marker)
    (hcloser : closer.marker ≠ marker)
    (hnone : findOpener closer (stack.length - floors.floor closer) stack = none) :
    findOpener closer ((stack ++ [first]).length - lifted.floor closer) (stack ++ [first]) = none := by
  have hmiss : first.fits closer = false := fits_of_ne (hfirst ▸ hcloser.symm)
  rw [findOpener_eq_none_iff] at hnone ⊢
  intro run hr
  rw [List.length_append, List.length_singleton] at hr
  rcases h.other closer hcloser with hshift | ⟨hzero, hzero'⟩
  · rw [hshift, show stack.length + 1 - (floors.floor closer + 1) = stack.length - floors.floor closer by omega,
      List.take_append_of_le_length (by omega)] at hr
    exact hnone run hr
  · rw [hzero, Nat.sub_zero, List.take_length] at hnone
    rcases List.mem_append.mp (List.mem_of_mem_take hr) with hr | hr
    · exact hnone run hr
    · rwa [List.mem_singleton.mp hr]

/-- A search that finds an opener finds the same one above another run. -/
theorem Lifted.findOpener_eq_some (h : Lifted marker floors lifted) {opener : Delimiter} {below : List Delimiter}
    (hsome : findOpener closer (stack.length - floors.floor closer) stack = some (opener, below)) :
    findOpener closer ((stack ++ [first]).length - lifted.floor closer) (stack ++ [first]) =
      some (opener, below ++ [first]) := by
  refine findOpener_append hsome ?_ [first]
  rw [List.length_append, List.length_singleton]
  by_cases hmarker : closer.marker = marker
  · have := h.own closer hmarker
    omega
  · have := h.other closer hmarker
    omega

theorem Lifted.set (h : Lifted marker floors lifted) (hcloser : closer.marker ≠ marker) (height : Nat) :
    Lifted marker (Table.set floors closer.floorClass height) (Table.set lifted closer.floorClass (height + 1)) where
  own other ho := by
    have hclass : other.floorClass ≠ closer.floorClass := by
      intro heq
      exact hcloser (((Prod.mk.inj heq).1).symm.trans ho)
    simp only [Floors.floor, Table.get?_set, if_neg hclass]
    exact h.own other ho
  other other ho := by
    simp only [Floors.floor, Table.get?_set]
    split
    · exact .inl rfl
    · exact h.other other ho

theorem pushRest_append (run : Delimiter) (stack more : List Delimiter) :
    run.pushRest (stack ++ more) = run.pushRest stack ++ more := by
  unfold pushRest
  split <;> rfl

/-- Pairing a closer above another run goes as without it, if a closer of the
marker of that run is used up. -/
theorem Lifted.pairCloser (h : Lifted marker floors lifted) (hfirst : first.marker = marker) (rounds : Nat)
    (hused : closer.marker = marker → (pairCloser rounds stack floors closer).closer.remaining = 0) :
    let paired := Delimiter.pairCloser rounds stack floors closer
    let above := Delimiter.pairCloser rounds (stack ++ [first]) lifted closer
    above.stack = paired.stack ++ [first] ∧ above.closer = paired.closer ∧
      Lifted marker paired.floors above.floors := by
  fun_induction Delimiter.pairCloser rounds stack floors closer with
  | case1 stack floors closer => exact ⟨rfl, rfl, h⟩
  | case2 rounds stack floors closer hzero =>
    rw [Delimiter.pairCloser, if_pos hzero]
    exact ⟨rfl, rfl, h⟩
  | case3 rounds stack floors closer hpos hnone =>
    have hcloser : closer.marker ≠ marker := fun heq => hpos (hused heq)
    have hlength : (stack ++ [first]).length = stack.length + 1 := by simp
    rw [Delimiter.pairCloser, if_neg hpos, h.findOpener_eq_none hfirst hcloser hnone]
    dsimp only
    rw [hlength]
    exact ⟨rfl, rfl, h.set hcloser stack.length⟩
  | case4 rounds stack floors closer hpos opener below hsome used next ih =>
    rw [Delimiter.pairCloser, if_neg hpos, h.findOpener_eq_some hsome]
    dsimp only
    rw [pushRest_append]
    exact ih h hused

theorem Lifted.pairRun {run : Delimiter} (h : Lifted marker floors lifted) (hfirst : first.marker = marker)
    (hused : run.marker = marker → run.canClose = true →
      (Delimiter.pairRun stack floors run).closer.remaining = 0) :
    let paired := Delimiter.pairRun stack floors run
    let above := Delimiter.pairRun (stack ++ [first]) lifted run
    above.rested run = paired.rested run ++ [first] ∧ Lifted marker paired.floors above.floors := by
  intro paired above
  obtain ⟨hstack, hcloser, hfloors⟩ : above.stack = paired.stack ++ [first] ∧ above.closer = paired.closer ∧
      Lifted marker paired.floors above.floors := by
    simp only [paired, above, Delimiter.pairRun] at hused ⊢
    split
    · rename_i hclose
      exact h.pairCloser hfirst run.remaining fun heq => by simpa [hclose] using hused heq hclose
    · exact ⟨rfl, rfl, h⟩
  refine ⟨?_, hfloors⟩
  rw [Pairing.rested, Pairing.rested, hstack, hcloser, pushRest_append]
  split <;> rfl

/-- Runs that settle are paired above another run, which stays at the bottom
with none of its marker above it. -/
theorem Lifted.pairAll (h : Lifted marker floors lifted) (hfirst : first.marker = marker) {runs : List Delimiter}
    (hsettles : settles marker stack floors runs = true) (rest : List Delimiter) :
    ∃ spans left, ∃ floors' : Floors, (∀ run ∈ left, run.marker ≠ marker) ∧
      (∀ closer : Delimiter, closer.marker = marker → floors'.floor closer = 0) ∧
      Delimiter.pairAll (stack ++ [first]) lifted (runs ++ rest) =
        spans ++ Delimiter.pairAll (left ++ [first]) floors' rest := by
  induction runs generalizing stack floors lifted with
  | nil =>
    have hall : ∀ run ∈ stack, run.marker ≠ marker := by simpa [settles] using hsettles
    exact ⟨[], stack, lifted, hall, fun closer hc => (h.own closer hc).2, rfl⟩
  | cons run runs ih =>
    simp only [settles, Bool.and_eq_true] at hsettles
    have hused (hmarker : run.marker = marker) (hclose : run.canClose = true) :
        (Delimiter.pairRun stack floors run).closer.remaining = 0 := by
      simpa [hmarker, hclose] using hsettles.1
    obtain ⟨hstack, hfloors⟩ := h.pairRun hfirst hused
    obtain ⟨spans, left, floors', hleft, hfloor, heq⟩ := ih hfloors hsettles.2
    refine ⟨(Delimiter.pairRun (stack ++ [first]) lifted run).spans ++ spans, left, floors', hleft, hfloor, ?_⟩
    rw [List.cons_append, pairAll_cons, hstack, heq, List.append_assoc]

/-- Two runs of the same marker, between which no marker of theirs is left, are
paired. -/
theorem spanBetween_mem_pairAll {last : Delimiter} {inner : List Delimiter} (hfirst : first.marker = marker)
    (hopen : first.canOpen = true) (hclose : first.canClose = false) (hpos : 0 < first.remaining)
    (hinner : settles marker [] [] inner = true) (hlast : last.marker = marker) (hclose' : last.canClose = true)
    (hpos' : 0 < last.remaining) (hfits : first.fits last = true) :
    spanBetween first last ∈ Delimiter.pairAll [] [] (first :: (inner ++ [last])) := by
  have hlifted : Lifted marker [] [] := ⟨fun _ _ => ⟨rfl, rfl⟩, fun _ _ => .inr ⟨rfl, rfl⟩⟩
  have hstart : Delimiter.pairAll [] [] (first :: (inner ++ [last])) =
      Delimiter.pairAll ([] ++ [first]) [] (inner ++ [last]) := by
    simp [pairAll_cons, Delimiter.pairRun, Pairing.rested, hopen, hclose, pushRest, hpos]
  obtain ⟨spans, left, floors, hleft, hfloor, heq⟩ := hlifted.pairAll hfirst hinner [last]
  have hskip : ∀ run ∈ left, run.fits last = false := fun run hr => fits_of_ne (hlast ▸ hleft run hr)
  obtain ⟨rounds, hrounds⟩ := Nat.exists_eq_add_one_of_ne_zero (Nat.ne_of_gt hpos')
  rw [hstart, heq, pairAll_cons]
  refine List.mem_append_right _ (List.mem_append_left _ ?_)
  rw [Delimiter.pairRun, if_pos hclose', hrounds, Delimiter.pairCloser, if_neg (Nat.ne_of_gt hpos'),
    hfloor last hlast, Nat.sub_zero, List.length_append, List.length_singleton,
    findOpener_of_not_fits hskip hfits]
  exact List.mem_cons_self

/-- Pairing a closer puts no run of another marker on the stack. -/
theorem pairCloser_markers {P : Marker → Prop} (rounds : Nat) (hstack : ∀ run ∈ stack, P run.marker)
    (hcloser : P closer.marker) :
    (∀ run ∈ (pairCloser rounds stack floors closer).stack, P run.marker) ∧
      P (pairCloser rounds stack floors closer).closer.marker := by
  fun_induction Delimiter.pairCloser rounds stack floors closer with
  | case1 stack floors closer => exact ⟨hstack, hcloser⟩
  | case2 rounds stack floors closer _ => exact ⟨hstack, hcloser⟩
  | case3 rounds stack floors closer _ _ => exact ⟨hstack, hcloser⟩
  | case4 rounds stack floors closer _ opener below hfind used next ih =>
    obtain ⟨hopener, hbelow, -⟩ := findOpener_mem hfind
    exact ih (forall_mem_pushRest (fun _ => hstack opener hopener) fun run hr => hstack run (hbelow run hr)) hcloser

/-- Runs of other markers leave none of a marker. -/
theorem settles_of_forall_ne {runs : List Delimiter} (hstack : ∀ run ∈ stack, run.marker ≠ marker)
    (hruns : ∀ run ∈ runs, run.marker ≠ marker) : settles marker stack floors runs = true := by
  induction runs generalizing stack floors with
  | nil => simpa [settles] using hstack
  | cons run runs ih =>
    obtain ⟨hrun, hruns⟩ := List.forall_mem_cons.mp hruns
    have hpaired : (∀ other ∈ (Delimiter.pairRun stack floors run).stack, other.marker ≠ marker) ∧
        (Delimiter.pairRun stack floors run).closer.marker ≠ marker := by
      unfold Delimiter.pairRun
      split
      · exact pairCloser_markers (P := fun other => other ≠ marker) run.remaining hstack hrun
      · exact ⟨hstack, hrun⟩
    have hrested : ∀ other ∈ (Delimiter.pairRun stack floors run).rested run, other.marker ≠ marker := by
      unfold Pairing.rested
      split
      · exact forall_mem_pushRest (fun _ => hpaired.2) hpaired.1
      · exact hpaired.1
    simp [settles, hrun, ih hrested hruns]

end Delimiter

/-! ## Markers that enclose a text -/

/-- The first and the last run of a text are `k` markers at its edges, and
between them no such marker is left without a partner. -/
def Marker.Encloses (marker : Marker) (k : Nat) (text : Text) : Prop :=
  ∃ first inner last, Span.delimiters text (Span.leafRanges text) = first :: (inner ++ [last]) ∧
    (first.start = 0 ∧ first.remaining = k) ∧ (last.start + k = text.length ∧ last.remaining = k) ∧
    Delimiter.settles marker [] [] inner = true

/-- The emphasis that a whole text of the given length is, with `k` markers on
each side. -/
def Marker.wholeSpan (marker : Marker) (k length : Nat) : Span :=
  ⟨.emphasis marker (.ofMarkers marker k), 0, length, k, length - k⟩

/-- A text that does not begin or end with a blank. -/
structure Text.Tight (text : Text) : Prop where
  head : Delimiter.isSpaceBeside text.head? = false
  last : Delimiter.isSpaceBeside text.getLast? = false

namespace Marker

variable {marker : Marker} {k : Nat} {text : Text}

/-- Markers that enclose a text are paired with each other. -/
theorem Encloses.mem_emphasis (h : marker.Encloses k (marker.around k text)) (hk : k ∈ marker.sizes)
    (htight : text.Tight) :
    marker.wholeSpan k (marker.around k text).length ∈
      Span.emphasis (marker.around k text) (Span.leafRanges (marker.around k text)) := by
  obtain ⟨first, inner, last, hruns, ⟨hstart, hfirst⟩, ⟨hstop, hlast⟩, hsettles⟩ := h
  have hpos := (bounds_of_mem_sizes hk).1
  have hne : text ≠ [] := by
    rintro rfl
    cases htight.head
  rw [length_around] at hstop
  have hfirstRun : first = .ofRun marker 0 k none text.head? := by
    have hmem : first ∈ Span.delimiters (marker.around k text) (Span.leafRanges (marker.around k text)) := by
      rw [hruns]
      exact List.mem_cons_self
    have hget : (marker.around k text)[first.start]? = some marker.toChar := by
      rw [hstart, getElem?_around_front hpos]
    have heq := Delimiter.eq_ofRun_of_mem_delimiters hmem hpos hfirst hget
    rwa [hstart, Nat.zero_add, getElem?_around_head hne] at heq
  have hlastRun : last = .ofRun marker (k + text.length) k text.getLast? none := by
    have hmem : last ∈ Span.delimiters (marker.around k text) (Span.leafRanges (marker.around k text)) := by
      rw [hruns]
      exact List.mem_cons_of_mem _ (List.mem_append_right _ (List.mem_singleton_self _))
    have hget : (marker.around k text)[last.start]? = some marker.toChar :=
      getElem?_around_back (by omega) (by omega)
    have heq := Delimiter.eq_ofRun_of_mem_delimiters hmem hpos hlast hget
    rwa [show last.start = k + text.length by omega, before?_around hne,
      List.getElem?_eq_none (Nat.le_of_eq length_around)] at heq
  have hedge : Delimiter.isSpaceBeside none = true := rfl
  obtain ⟨hopen, hclose⟩ := Delimiter.canOpen_ofRun marker 0 k hedge htight.head
  obtain ⟨hclose', hopen'⟩ := Delimiter.canClose_ofRun marker (k + text.length) k htight.last hedge
  rw [← hfirstRun] at hopen hclose
  rw [← hlastRun] at hclose' hopen'
  have hmarker : first.marker = marker := by rw [hfirstRun, Delimiter.ofRun_marker]
  have hmarker' : last.marker = marker := by rw [hlastRun, Delimiter.ofRun_marker]
  have hsize := Delimiter.pairSize_of_flanks hclose hopen' hfirst hlast (hmarker.symm ▸ hk)
  have hfits : first.fits last = true := by
    simp only [Delimiter.fits, hsize, hmarker, hmarker', beq_self_eq_true, Bool.true_and, bne_iff_ne]
    omega
  have hspan : Delimiter.spanBetween first last = marker.wholeSpan k (marker.around k text).length := by
    simp only [Delimiter.spanBetween, wholeSpan, hsize, hmarker', hstart, hfirst, length_around, Span.mk.injEq,
      true_and]
    omega
  rw [← hspan, Span.emphasis, hruns]
  exact Delimiter.spanBetween_mem_pairAll hmarker hopen hclose (by omega) hsettles hmarker' hclose' (by omega)
    hfits

/-- Markers enclose a text that has none of them, unless they make a footnote
or the last ones are escaped. -/
theorem encloses_around (hk : k ∈ marker.sizes) (hne : text ≠ []) (hfree : marker.toChar ∉ text)
    (hfootnote : marker = .caret → text.head? ≠ some '[') (hescape : text.getLast? ≠ some '\\') :
    marker.Encloses k (marker.around k text) := by
  obtain ⟨last, hlast⟩ : ∃ last, text.getLast? = some last := ⟨_, List.getLast?_eq_some_getLast hne⟩
  have hhead : text.head? ≠ some marker.toChar := fun hhead => hfree (List.mem_of_mem_head? hhead)
  have hmarker : last ≠ marker.toChar := fun heq => hfree (heq ▸ List.mem_of_getLast? hlast)
  obtain ⟨inner, hruns⟩ := exists_delimiters_around hk hhead hfootnote hlast hmarker fun heq => hescape (heq ▸ hlast)
  refine ⟨_, inner, _, hruns, ⟨by simp, by simp⟩, ⟨by simp [length_around], by simp⟩, ?_⟩
  refine Delimiter.settles_of_forall_ne (by simp) fun run hrun hmarker => hfree ?_
  -- a run between the two edges stands in the text
  obtain ⟨hmem, hpairwise⟩ := Delimiter.marks_collect (marker.around k text)
    (Span.leafRanges (marker.around k text)) 0 0 none (marker.around k text) rfl
  have hcollect : Delimiter.collect (Span.leafRanges (marker.around k text)) 0 0 none (marker.around k text) = _ :=
    hruns
  rw [hcollect] at hmem hpairwise
  obtain ⟨hmarks, hone, -⟩ := hmem run (List.mem_cons_of_mem _ (List.mem_append_left _ hrun))
  obtain ⟨hafter, hpairwise⟩ := List.pairwise_cons.mp hpairwise
  have hfront := hafter run (List.mem_append_left _ hrun)
  have hback := (List.pairwise_append.mp hpairwise).2.2 run hrun _ (List.mem_singleton_self _)
  simp only [Delimiter.stop, Delimiter.ofRun_start, Delimiter.ofRun_remaining, Nat.zero_add] at hfront hback
  have hget := hmarks run.start (Nat.le_refl _) (by rw [Delimiter.stop]; omega)
  rw [show run.start = k + (run.start - k) by omega, getElem?_around (by omega), hmarker] at hget
  exact List.mem_of_getElem? hget

end Marker

/-! ## Texts that are one emphasis -/

/-- A text is read as one span of a kind. -/
def ReadsAs (text : Text) (kind : SpanKind) : Prop :=
  ∃ span, (Forest.ofText text).roots = [span] ∧ span.start = 0 ∧ span.stop = text.length ∧ span.kind = kind

/-- Emphasis of a whole text is the only outermost span. -/
theorem Forest.roots_of_whole {text : Text} {span : Span} (h : span ∈ Span.emphasisAround text (Span.leaves text))
    (hstart : span.start = 0) (hstop : span.stop = text.length) : (ofText text).roots = [span] := by
  have hsorted := Span.pairwise_sort_spans text
  have hproper {other : Span}
      (ho : other ∈ Span.sort (Span.leaves text ++ Span.emphasisAround text (Span.leaves text))) :=
    Span.proper_of_mem_spans ((Span.sort_perm _).mem_iff.mp ho)
  have hmem := (Span.sort_perm _).mem_iff.mpr (List.mem_append_right (Span.leaves text) h)
  obtain ⟨front, back, hlist⟩ := List.append_of_mem hmem
  rw [hlist] at hsorted
  obtain ⟨-, hback, hfront⟩ := List.pairwise_append.mp hsorted
  -- nothing stands before the span or around it
  have hnone : front = [] := by
    refine List.eq_nil_iff_forall_not_mem.mpr fun other ho => ?_
    obtain ⟨hother, hmarked⟩ := hproper (hlist ▸ List.mem_append_left _ ho)
    rcases hfront other ho span List.mem_cons_self with hbefore | hin
    · have := hother.start_lt
      omega
    · have := hmarked hin.isEmphasis
      have := hin.le_start
      omega
  have hroots : (ofText text).roots = span :: ((ofSorted back).divide span.stop).2.roots := by
    rw [ofText, hlist, hnone]
    rfl
  have hnested : (ofSorted back).Nested := by
    refine nested_ofSorted (fun other ho => ?_) (List.pairwise_cons.mp hback).2
    exact (hproper (hlist ▸ List.mem_append_right _ (List.mem_cons_of_mem _ ho))).1.start_lt
  -- and nothing after it
  have hrest : ((ofSorted back).divide span.stop).2.roots = [] := by
    refine List.eq_nil_iff_forall_not_mem.mpr fun other ho => ?_
    have hafter := roots_divide_snd span.stop hnested other ho
    have hroot : other ∈ (ofSorted back).roots := by
      rw [← roots_divide span.stop]
      exact List.mem_append_right _ ho
    obtain ⟨hother, -⟩ :=
      hproper (hlist ▸ List.mem_append_right _ (List.mem_cons_of_mem _ (mem_roots_ofSorted hroot)))
    have := hother.start_lt
    have := hother.stop_le
    omega
  rw [hroots, hrest]

/-- A text is read as one emphasis just if its first markers are paired with
its last ones. -/
theorem readsAs_iff {marker : Marker} {k : Nat} (hk : k ∈ marker.sizes) (text : Text) :
    ReadsAs text (.emphasis marker (.ofMarkers marker k)) ↔
      marker.wholeSpan k text.length ∈ Span.emphasisAround text (Span.leaves text) := by
  refine ⟨?_, fun h => ⟨_, Forest.roots_of_whole h rfl rfl, rfl, rfl, rfl⟩⟩
  rintro ⟨span, hroots, hstart, hstop, hkind⟩
  have hroot : span ∈ (Forest.ofText text).roots := by rw [hroots]; exact List.mem_singleton_self _
  have hemphasis := Span.mem_emphasis_of_mem_spans ((Span.sort_perm _).mem_iff.mp (Forest.mem_roots_ofSorted hroot))
    (by simp [Span.isEmphasis, hkind])
  obtain ⟨opener, closer, hmeet, hspan⟩ := Span.paired_of_mem_emphasis hemphasis
  obtain ⟨hsize, hkind', hcontent, -, hend, -, -⟩ := hspan ▸ hmeet.between
  rw [hkind, SpanKind.emphasis.injEq] at hkind'
  obtain ⟨rfl, hstyle⟩ := hkind'
  rw [← Marker.ofMarkers_injective hk hsize hstyle] at hcontent hend
  have heq : span = closer.marker.wholeSpan k text.length := by
    obtain ⟨kind, start, stop, contentStart, contentStop⟩ := span
    simp only [Marker.wholeSpan, Span.mk.injEq] at *
    exact ⟨hkind, hstart, hstop, by omega, by omega⟩
  exact heq ▸ hemphasis

/-! ## Fragments -/

theorem Text.tight_trim {text : Text} (h : Text.trim text ≠ []) : (Text.trim text).Tight where
  head := by
    cases htrim : Text.trim text with
    | nil => exact absurd htrim h
    | cons c rest => exact Text.head_trim htrim
  last := by
    have hlast := List.getLast?_eq_some_getLast h
    rw [hlast]
    exact Text.last_trim hlast

/-- Emphasis that is taken apart is restated as sentences between its own
markers. -/
theorem Sentence.exists_sentence_of_mem_fragments {set : Abbreviations} {text : Text} {span : Span}
    {children : Forest} (hmany : 2 ≤ (fragments set text span children).length) {piece : Text}
    (h : piece ∈ fragments set text span children) :
    ∃ sentence : Text, sentence.Tight ∧ piece =
      Text.slice text span.start span.contentStart ++ sentence ++ Text.slice text span.contentStop span.stop := by
  unfold fragments at hmany h
  dsimp only at hmany h
  split at h
  · split at h
    · simp_all
    · obtain ⟨sentence, hs, rfl⟩ := List.mem_map.mp h
      obtain ⟨hmem, hne⟩ := List.mem_filter.mp hs
      obtain ⟨source, -, rfl⟩ := List.mem_map.mp hmem
      exact ⟨_, Text.tight_trim (by simpa using hne), rfl⟩
  · simp_all

/-- Where emphasis is taken apart, each piece is a sentence between the markers
of the emphasis. The piece is read as one emphasis of the same kind just if its
first markers are paired with its last ones. They are if these are its first
and its last run and no marker of theirs is left without a partner between
them, and so if the sentence has no such marker, does not end in a backslash
and does not make a footnote of a caret. -/
theorem fragments_read_as_emphasis {set : Abbreviations} {text : Text} {tree : Span × Forest} {marker : Marker}
    {style : EmphasisRole} (ht : tree ∈ (Forest.ofText text).flatten) (hkind : tree.1.kind = .emphasis marker style)
    (hmany : 2 ≤ (Sentence.fragments set text tree.1 tree.2).length) :
    let k := tree.1.contentStart - tree.1.start
    ∀ piece ∈ Sentence.fragments set text tree.1 tree.2, ∃ sentence, piece = marker.around k sentence ∧
      (ReadsAs piece tree.1.kind ↔ marker.wholeSpan k piece.length ∈ Span.emphasisAround piece (Span.leaves piece)) ∧
      (marker.Encloses k piece → ReadsAs piece tree.1.kind) ∧
      (marker.toChar ∉ sentence → sentence.getLast? ≠ some '\\' → (marker = .caret → sentence.head? ≠ some '[') →
        ReadsAs piece tree.1.kind) := by
  intro size piece hpiece
  obtain ⟨k, hbetween⟩ := Forest.between_of_mem_flatten ht hkind
  obtain rfl : size = k := by
    have := hbetween.contentStart
    omega
  obtain ⟨sentence, htight, rfl⟩ := Sentence.exists_sentence_of_mem_fragments hmany hpiece
  rw [hbetween.opener, hbetween.closer, ← Marker.around, hbetween.kind]
  have hreads := readsAs_iff hbetween.size (marker.around size sentence)
  have hencloses (h : marker.Encloses size (marker.around size sentence)) :
      ReadsAs (marker.around size sentence) (.emphasis marker (.ofMarkers marker size)) :=
    hreads.mpr (h.mem_emphasis hbetween.size htight)
  have hne : sentence ≠ [] := by
    rintro rfl
    cases htight.head
  exact ⟨sentence, rfl, hreads, hencloses, fun hfree hescape hfootnote =>
    hencloses (Marker.encloses_around hbetween.size hne hfree hfootnote hescape)⟩

/-- The markers of a nested phrase are paired with each other, and those of
each sentence around them. -/
theorem nested_phrase_reads_again :
    let text := "**One *big* two. Three.**".toList
    let phrase : Forest := .cons ⟨.emphasis .star .emphasis, 6, 11, 7, 10⟩ .nil .nil
    let tree : Span × Forest := (⟨.emphasis .star .strong, 0, 25, 2, 23⟩, phrase)
    let set := Abbreviations.ofList []
    tree ∈ (Forest.ofText text).flatten ∧
      Sentence.fragments set text tree.1 tree.2 = ["**One *big* two.**".toList, "**Three.**".toList] ∧
      ReadsAs "**One *big* two.**".toList (.emphasis .star .strong) := by
  intro text phrase tree set
  have htree : tree ∈ (Forest.ofText text).flatten := by decide +kernel
  have hpieces : Sentence.fragments set text tree.1 tree.2 = ["**One *big* two.**".toList, "**Three.**".toList] := by
    decide +kernel
  have hmany : 2 ≤ (Sentence.fragments set text tree.1 tree.2).length := by rw [hpieces]; decide
  obtain ⟨sentence, -, -, hencloses, -⟩ := fragments_read_as_emphasis htree rfl hmany "**One *big* two.**".toList
    (by rw [hpieces]; exact List.mem_cons_self)
  refine ⟨htree, hpieces, hencloses ⟨.ofRun .star 0 2 none (some 'O'), [.ofRun .star 6 1 (some ' ') (some 'b'),
    .ofRun .star 10 1 (some 'g') (some ' ')], .ofRun .star 16 2 (some '.') none, ?_⟩⟩
  decide +kernel

/-- A marker that the sentence begins with makes one run with those put before
it: three tildes open nothing, and the second sentence is struck through no
more. -/
theorem marker_runs_into_sentence :
    let text := "~~One. ~Two three.~~".toList
    let tree : Span × Forest := (⟨.emphasis .tilde .strikethrough, 0, 20, 2, 18⟩, .nil)
    tree ∈ (Forest.ofText text).flatten ∧
      Sentence.fragments (.ofList []) text tree.1 tree.2 = ["~~One.~~".toList, "~~~Two three.~~".toList] ∧
      ¬ReadsAs "~~~Two three.~~".toList (.emphasis .tilde .strikethrough) := by
  intro text tree
  have hroots : (Forest.ofText "~~~Two three.~~".toList).roots = [] := by decide +kernel
  refine ⟨by decide +kernel, by decide +kernel, ?_⟩
  rintro ⟨span, hspan, -⟩
  rw [hroots] at hspan
  cases hspan

end ProseWrap
