import Mathlib.Data.List.Sort
import ProseWrap.Proofs.Leaves
import ProseWrap.Span.Scan

/-!
# Emphasis stands between its markers

Before and after the content of emphasis stand markers and nothing else
(`Span.Marked`, `marked_of_mem_emphasis`). The runs of markers of a text come
one after the other (`marks_collect`), and the runs on the stack stop before
the closer starts (`Below`): an opener loses markers at its end and a closer at
its start, so what is left of a run still is markers of the text.
-/

namespace ProseWrap

namespace Delimiter

/-- The offset after the unused markers of a run. -/
def stop (run : Delimiter) : Nat := run.start + run.remaining

/-- What is left of a run are markers of the text. -/
def Marks (text : Text) (run : Delimiter) : Prop :=
  ∀ i, run.start ≤ i → i < run.stop → text[i]? = some run.marker.toChar

theorem toChar_of_ofChar? {c : Char} {marker : Marker} (h : Marker.ofChar? c = some marker) :
    marker.toChar = c := by
  unfold Marker.ofChar? at h
  split at h <;> cases h <;> rfl

/-- After the ranges that start up to an offset, the next range starts
later. -/
theorem lt_of_passRanges {i next : Nat} {ranges left : List (Nat × Nat)}
    (h : passRanges i ranges = (next, left)) :
    i ≤ next ∧ ∀ range, left.head? = some range → next < range.1 := by
  fun_induction passRanges i ranges with
  | case1 i => cases h; simp
  | case2 i start stop rest _ ih =>
    obtain ⟨hle, hnext⟩ := ih h
    exact ⟨by omega, hnext⟩
  | case3 i start stop rest hlt =>
    cases h
    exact ⟨Nat.le_refl _, by rintro _ ⟨⟩; simpa using hlt⟩

@[simp] theorem ofRun_marker (marker : Marker) (start length : Nat) (before after : Option Char) :
    (ofRun marker start length before after).marker = marker := by
  unfold ofRun
  dsimp only
  split <;> rfl

@[simp] theorem ofRun_start (marker : Marker) (start length : Nat) (before after : Option Char) :
    (ofRun marker start length before after).start = start := by
  unfold ofRun
  dsimp only
  split <;> rfl

@[simp] theorem ofRun_remaining (marker : Marker) (start length : Nat) (before after : Option Char) :
    (ofRun marker start length before after).remaining = length := by
  unfold ofRun
  dsimp only
  split <;> rfl

theorem getElem?_of_lt_takeWhile {c : Char} {text : Text} {k : Nat}
    (h : k < (text.takeWhile (· == c)).length) : text[k]? = some c := by
  have hpre := List.takeWhile_prefix (fun d => d == c) (l := text)
  have hk : (text.takeWhile (· == c))[k]? = some c := by
    rw [List.getElem?_eq_getElem h]
    have := List.all_takeWhile (p := fun d => d == c) (l := text)
    rw [List.all_eq_true] at this
    simpa using this _ (List.getElem_mem h)
  obtain ⟨rest, hrest⟩ := hpre
  rw [← hrest, List.getElem?_append_left h]
  exact hk

/-- The runs of a text are markers of it, none is empty, and they come one
after the other. -/
theorem marks_collect (text : Text) (leaves : List (Nat × Nat)) (resume i : Nat) (before : Option Char)
    (rest : Text) (hrest : text.drop i = rest) :
    (∀ run ∈ collect leaves resume i before rest,
      run.Marks text ∧ 1 ≤ run.remaining ∧ i ≤ run.start ∧ resume ≤ run.start) ∧
      (collect leaves resume i before rest).Pairwise fun a b => a.stop ≤ b.start := by
  fun_induction collect leaves resume i before rest with
  | case1 => simp
  | case2 leaves resume i before c rest hlt ih =>
    obtain ⟨hmem, hpair⟩ := ih (Text.drop_add_one hrest)
    refine ⟨fun run h => ?_, hpair⟩
    obtain ⟨hmarks, hone, hi, hresume⟩ := hmem run h
    exact ⟨hmarks, hone, by omega, hresume⟩
  | case3 leaves resume i before c rest hlt next left hpass hnext ih =>
    obtain ⟨hmem, hpair⟩ := ih (Text.drop_add_one hrest)
    refine ⟨fun run h => ?_, hpair⟩
    obtain ⟨hmarks, hone, hi, hres⟩ := hmem run h
    exact ⟨hmarks, hone, by omega, by omega⟩
  | case4 leaves resume i before c rest hlt next left hpass hnext _ ih =>
    obtain ⟨hmem, hpair⟩ := ih (Text.drop_add_one hrest)
    refine ⟨fun run h => ?_, hpair⟩
    obtain ⟨hmarks, hone, hi, hres⟩ := hmem run h
    exact ⟨hmarks, hone, by omega, by omega⟩
  | case5 leaves resume i before c rest hlt next left hpass hnext _ _ ih =>
    obtain ⟨hmem, hpair⟩ := ih (Text.drop_add_one hrest)
    refine ⟨fun run h => ?_, hpair⟩
    obtain ⟨hmarks, hone, hi, hres⟩ := hmem run h
    exact ⟨hmarks, hone, by omega, by omega⟩
  | case6 leaves resume i before c rest hlt next left hpass hnext _ marker hmarker run length ih =>
    obtain ⟨hmem, hpair⟩ := ih (Text.drop_add_one hrest)
    have hrun : 1 ≤ run := by simp [run]
    have hlen : 1 ≤ length ∧ length ≤ run := by
      obtain ⟨hle, hleft⟩ := lt_of_passRanges hpass
      simp only [length]
      split
      · rename_i start stop left
        have := hleft (start, stop) rfl
        simp only at this
        omega
      · omega
    have hmarks : (ofRun marker i length before (c :: rest)[length]?).Marks text := by
      intro k hk hk'
      simp only [stop, ofRun_start, ofRun_remaining] at hk hk'
      rw [ofRun_marker, toChar_of_ofChar? hmarker]
      have hget : (c :: rest)[k - i]? = some c := getElem?_of_lt_takeWhile (by omega)
      rw [← hrest, List.getElem?_drop, show i + (k - i) = k by omega] at hget
      exact hget
    refine ⟨fun other h => ?_, List.pairwise_cons.mpr ⟨fun other h => ?_, hpair⟩⟩
    · rcases List.mem_cons.mp h with rfl | h
      · exact ⟨hmarks, by simpa using hlen.1, by simp, by simp; omega⟩
      · obtain ⟨hm, hone, hi, hres⟩ := hmem other h
        exact ⟨hm, hone, by omega, by omega⟩
    · have := (hmem other h).2.2.2
      simpa [stop] using this

/-! ## Pairs -/

/-- A pair uses up at least one marker, and no more than each of its runs
has. -/
theorem pairSize_le_max (opener closer : Delimiter) :
    pairSize opener closer ≤ max 1 (min opener.remaining closer.remaining) := by
  unfold pairSize
  split
  all_goals (split <;> first | omega | (split <;> first | omega | (split <;> omega)))

theorem pairSize_le {opener closer : Delimiter} (ho : 1 ≤ opener.remaining) (hc : 1 ≤ closer.remaining) :
    pairSize opener closer ≤ opener.remaining ∧ pairSize opener closer ≤ closer.remaining := by
  have := pairSize_le_max opener closer
  omega

end Delimiter

/-- Emphasis of a text: before and after its content stand markers and nothing
else. -/
structure Span.Marked (text : Text) (span : Span) : Prop where
  start_lt : span.start < span.contentStart
  content_le : span.contentStart ≤ span.contentStop
  lt_stop : span.contentStop < span.stop
  opener : ∀ i, span.start ≤ i → i < span.contentStart → ∃ marker : Marker, text[i]? = some marker.toChar
  closer : ∀ i, span.contentStop ≤ i → i < span.stop → ∃ marker : Marker, text[i]? = some marker.toChar

/-- Emphasis lies in the text: its last marker does. -/
theorem Span.Marked.proper {text : Text} {span : Span} (h : span.Marked text) : span.Proper text.length := by
  have hstart := h.start_lt
  have hcontent := h.content_le
  have hstop := h.lt_stop
  obtain ⟨marker, hget⟩ := h.closer (span.stop - 1) (by omega) (by omega)
  obtain ⟨hlast, -⟩ := List.getElem?_eq_some_iff.mp hget
  constructor <;> omega

namespace Delimiter

/-- The runs of a stack are markers of the text, none is empty, and all stop
before `bound`. -/
def Below (text : Text) (bound : Nat) (stack : List Delimiter) : Prop :=
  ∀ run ∈ stack, run.Marks text ∧ 1 ≤ run.remaining ∧ run.stop ≤ bound

theorem Below.mono {text : Text} {bound bound' : Nat} {stack : List Delimiter}
    (h : Below text bound stack) (hle : bound ≤ bound') : Below text bound' stack :=
  fun run hr => ⟨(h run hr).1, (h run hr).2.1, Nat.le_trans (h run hr).2.2 hle⟩

theorem findOpener_mem {closer opener : Delimiter} {depth : Nat} {stack below : List Delimiter}
    (h : findOpener closer depth stack = some (opener, below)) :
    opener ∈ stack ∧ (∀ run ∈ below, run ∈ stack) ∧ opener.fits closer := by
  fun_induction findOpener closer depth stack with
  | case1 => cases h
  | case2 => cases h
  | case3 depth first rest hfits =>
    cases h
    exact ⟨List.mem_cons_self, fun run hr => List.mem_cons_of_mem _ hr, hfits⟩
  | case4 depth first rest _ ih =>
    obtain ⟨ho, hb, hf⟩ := ih h
    exact ⟨List.mem_cons_of_mem _ ho, fun run hr => List.mem_cons_of_mem _ (hb run hr), hf⟩

theorem below_pushRest {text : Text} {bound : Nat} {run : Delimiter} {stack : List Delimiter}
    (h : Below text bound stack) (hm : run.Marks text) (hs : run.stop ≤ bound) :
    Below text bound (run.pushRest stack) := by
  unfold pushRest
  split
  · rename_i hpos
    intro other ho
    rcases List.mem_cons.mp ho with rfl | ho
    · exact ⟨hm, hpos, hs⟩
    · exact h other ho
  · exact h

theorem marks_useAsOpener {text : Text} {opener : Delimiter} (h : opener.Marks text) (used : Nat) :
    (opener.useAsOpener used).Marks text := fun i hi hi' => h i hi (by
  simp only [stop, useAsOpener] at hi hi' ⊢
  omega)

theorem marks_useAsCloser {text : Text} {closer : Delimiter} (h : closer.Marks text) {used : Nat}
    (hu : used ≤ closer.remaining) : (closer.useAsCloser used).Marks text := fun i hi hi' => h i
  (by simp only [useAsCloser] at hi; omega) (by simp only [stop, useAsCloser] at hi' ⊢; omega)

theorem stop_useAsCloser {closer : Delimiter} {used : Nat} (hu : used ≤ closer.remaining) :
    (closer.useAsCloser used).stop = closer.stop := by
  simp only [stop, useAsCloser]
  omega

/-- An opener and a closer of a text that fit, one after the other. -/
structure Meet (text : Text) (opener closer : Delimiter) : Prop where
  fits : opener.fits closer = true
  opener_marks : opener.Marks text
  opener_pos : 1 ≤ opener.remaining
  closer_marks : closer.Marks text
  closer_pos : 1 ≤ closer.remaining
  stop_le : opener.stop ≤ closer.start

/-- A span is what an opener and a closer that meet pair up to. -/
def Paired (text : Text) (span : Span) : Prop :=
  ∃ opener closer, Meet text opener closer ∧ span = spanBetween opener closer

/-- What an opener and a closer of the text pair up to is marked emphasis. -/
theorem Meet.marked {text : Text} {opener closer : Delimiter} (h : Meet text opener closer) :
    (spanBetween opener closer).Marked text := by
  obtain ⟨hf, ho, hone, hc, hpos, hstop⟩ := h
  obtain ⟨hlo, hlc⟩ := pairSize_le hone hpos
  have hsize : pairSize opener closer ≠ 0 := by
    simp only [Delimiter.fits, Bool.and_eq_true, bne_iff_ne] at hf
    exact hf.2
  simp only [stop] at hstop
  refine ⟨?_, ?_, ?_, fun i hi hi' => ⟨_, ho i ?_ ?_⟩, fun i hi hi' => ⟨_, hc i ?_ ?_⟩⟩ <;>
    simp only [spanBetween, stop] at * <;> omega

/-- What pairing a closer leaves holds to what is said of stacks, and what it
finds is paired. -/
theorem pairCloser_paired {text : Text} (rounds : Nat) (stack : List Delimiter) (floors : Floors)
    (closer : Delimiter) (hb : Below text closer.start stack) (hc : closer.Marks text) :
    let paired := pairCloser rounds stack floors closer
    (∀ span ∈ paired.spans, Paired text span) ∧ Below text paired.closer.start paired.stack ∧
      paired.closer.Marks text ∧ paired.closer.stop = closer.stop := by
  fun_induction pairCloser rounds stack floors closer with
  | case1 stack floors closer => exact ⟨by simp, hb, hc, rfl⟩
  | case2 rounds stack floors closer _ => exact ⟨by simp, hb, hc, rfl⟩
  | case3 rounds stack floors closer _ _ => exact ⟨by simp, hb, hc, rfl⟩
  | case4 rounds stack floors closer hpos opener below hfind used next ih =>
    obtain ⟨hopener, hbelow, hf⟩ := findOpener_mem hfind
    obtain ⟨hom, hoone, hostop⟩ := hb opener hopener
    have hcpos : 1 ≤ closer.remaining := by omega
    obtain ⟨hlo, hlc⟩ := pairSize_le hoone hcpos
    have hrest : Below text (closer.useAsCloser used).start ((opener.useAsOpener used).pushRest below) := by
      have hlow : Below text closer.start below := fun run hr => hb run (hbelow run hr)
      refine (below_pushRest hlow (marks_useAsOpener hom used) ?_).mono (by simp [useAsCloser])
      simp only [stop, useAsOpener] at hostop ⊢
      omega
    obtain ⟨hspans, hst, hcm, hcs⟩ := ih hrest (marks_useAsCloser hc hlc)
    refine ⟨fun span h => ?_, hst, hcm, hcs.trans (stop_useAsCloser hlc)⟩
    rcases List.mem_cons.mp h with rfl | h
    · exact ⟨opener, closer, ⟨hf, hom, hoone, hc, hcpos, hostop⟩, rfl⟩
    · exact hspans span h

/-- Pairing all runs finds paired emphasis only. -/
theorem pairAll_paired {text : Text} (stack : List Delimiter) (floors : Floors) (runs : List Delimiter)
    (hr : ∀ run ∈ runs, run.Marks text ∧ Below text run.start stack)
    (hp : runs.Pairwise fun a b => a.stop ≤ b.start) :
    ∀ span ∈ pairAll stack floors runs, Paired text span := by
  induction runs generalizing stack floors with
  | nil => simp [pairAll]
  | cons run runs ih =>
    obtain ⟨hlater, hp⟩ := List.pairwise_cons.mp hp
    obtain ⟨hm, hb⟩ := hr run List.mem_cons_self
    have hpaired : ∀ paired : Pairing,
        paired = (if run.canClose then pairCloser run.remaining stack floors run else ⟨[], stack, floors, run⟩) →
        (∀ span ∈ paired.spans, Paired text span) ∧ Below text paired.closer.start paired.stack ∧
          paired.closer.Marks text ∧ paired.closer.stop = run.stop := by
      rintro _ rfl
      split
      · exact pairCloser_paired run.remaining stack floors run hb hm
      · exact ⟨by simp, hb, hm, rfl⟩
    intro span h
    rw [pairAll] at h
    generalize hpair : (if run.canClose then _ else _ : Pairing) = paired at h
    obtain ⟨hspans, hst, hcm, hcs⟩ := hpaired paired hpair.symm
    rcases List.mem_append.mp h with h | h
    · exact hspans span h
    · refine ih _ _ (fun other ho => ⟨(hr other (List.mem_cons_of_mem _ ho)).1, ?_⟩) hp span h
      have hle := hlater other ho
      have hstart : paired.closer.start ≤ paired.closer.stop := Nat.le_add_right _ _
      split
      · exact (below_pushRest (hst.mono hstart) hcm (Nat.le_refl _)).mono (by omega)
      · exact hst.mono (by omega)

end Delimiter

/-- Emphasis of a text stands between an opener and a closer that meet. -/
theorem Span.paired_of_mem_emphasis {text : Text} {leaves : List (Nat × Nat)} {span : Span}
    (h : span ∈ Span.emphasis text leaves) : Delimiter.Paired text span := by
  obtain ⟨hmem, hpair⟩ := Delimiter.marks_collect text leaves 0 0 none text rfl
  exact Delimiter.pairAll_paired [] [] _ (fun run hr => ⟨(hmem run hr).1, fun _ ho => by cases ho⟩) hpair span h

/-- Emphasis of a text stands between its markers. -/
theorem Span.marked_of_mem_emphasis {text : Text} {leaves : List (Nat × Nat)} {span : Span}
    (h : span ∈ Span.emphasis text leaves) : span.Marked text := by
  obtain ⟨opener, closer, hmeet, rfl⟩ := Span.paired_of_mem_emphasis h
  exact hmeet.marked

/-! ## The spans of a text -/

theorem insertInto_eq_orderedInsert {α : Type} (before : α → α → Bool) (value : α) (values : List α) :
    insertInto before value values = values.orderedInsert (before · ·) value := by
  induction values with
  | nil => rfl
  | cons other rest ih => rw [insertInto, List.orderedInsert, ih]

theorem sortBy_eq_insertionSort {α : Type} (before : α → α → Bool) (values : List α) :
    sortBy before values = values.insertionSort (before · ·) := by
  induction values with
  | nil => rfl
  | cons first rest ih =>
    rw [List.insertionSort_cons, ← ih, ← insertInto_eq_orderedInsert]
    rfl

namespace Span

/-- Sorting only changes the order. -/
theorem sort_perm (spans : List Span) : (sort spans).Perm spans := by
  rw [sort, sortBy_eq_insertionSort]
  exact List.perm_insertionSort _ _

end Span

namespace Forest

theorem roots_divide (stop : Nat) (forest : Forest) :
    (forest.divide stop).1.roots ++ (forest.divide stop).2.roots = forest.roots := by
  induction forest with
  | nil => rfl
  | cons span children rest _ ih =>
    simp only [divide]
    split
    · simp [roots, ih]
    · rfl

theorem mem_roots_ofSorted {spans : List Span} {span : Span} (h : span ∈ (ofSorted spans).roots) :
    span ∈ spans := by
  induction spans with
  | nil => cases h
  | cons first rest ih =>
    rw [ofSorted, List.foldr_cons, enclose] at h
    rcases List.mem_cons.mp h with rfl | h
    · exact List.mem_cons_self
    · refine List.mem_cons_of_mem _ (ih ?_)
      rw [ofSorted, ← roots_divide first.stop]
      exact List.mem_append_right _ h

theorem map_fst_trees (forest : Forest) : forest.trees.map Prod.fst = forest.roots := by
  induction forest with
  | nil => rfl
  | cons span children rest _ ih => simp [trees, roots, ih]

/-- The outermost spans of a text begin with something other than a gap and
stop later, and those that are emphasis stand between their markers. -/
theorem trees_ofText {text : Text} {tree : Span × Forest} (h : tree ∈ (ofText text).trees) :
    tree.1.start < tree.1.stop ∧ (∃ c, text[tree.1.start]? = some c ∧ Text.isGap c = false) ∧
      (tree.1.isEmphasis → tree.1.Marked text) := by
  have hroot : tree.1 ∈ (ofText text).roots := by
    rw [← map_fst_trees]
    exact List.mem_map_of_mem h
  rcases List.mem_append.mp ((Span.sort_perm _).mem_iff.mp (mem_roots_ofSorted hroot)) with hl | he
  · have hleaf := Span.isLeaf_of_mem_leaves hl
    exact ⟨hleaf.proper.start_lt, hleaf.begins, by simp [hleaf.isEmphasis]⟩
  · have hm := Span.marked_of_mem_emphasis he
    obtain ⟨marker, hmarker⟩ := hm.opener _ (Nat.le_refl _) hm.start_lt
    exact ⟨hm.proper.start_lt, ⟨_, hmarker, by cases marker <;> rfl⟩, fun _ => hm⟩

end Forest

end ProseWrap
