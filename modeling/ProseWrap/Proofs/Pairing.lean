import ProseWrap.Proofs.Markers

/-!
# Emphasis is nested

Of two emphasised stretches of a text, the one that is closed first comes
before the other one or lies inside its content, and no range that is left out
of the search for runs touches the markers of either (`pairwise_emphasis`).

Both are carried through the pairing of runs by one invariant (`Orderly`). The
runs on the stack stand one after the other, outside all emphasis found so far.
A pair takes the markers of its opener that are next to its content, drops the
runs above the opener, and leaves the invariant (`Orderly.pair`); so does a run
that is put on the stack (`Orderly.push`).
-/

namespace ProseWrap

namespace Span

/-- One span lies inside the content of another one, which is emphasis. -/
structure LiesIn (inner outer : Span) : Prop where
  isEmphasis : outer.isEmphasis = true
  le_start : outer.contentStart ≤ inner.start
  stop_le : inner.stop ≤ outer.contentStop

/-- No range touches what stands before and after the content of a span. -/
def Clear (ranges : List (Nat × Nat)) (span : Span) : Prop :=
  ∀ range ∈ ranges, (span.contentStart ≤ range.1 ∨ range.2 ≤ span.start) ∧
    (span.stop ≤ range.1 ∨ range.2 ≤ span.contentStop)

end Span

namespace Delimiter

/-- No range touches what is left of a run. -/
def Clear (ranges : List (Nat × Nat)) (run : Delimiter) : Prop :=
  ∀ range ∈ ranges, run.stop ≤ range.1 ∨ range.2 ≤ run.start

/-! ## Runs outside ranges -/

theorem passRanges_eq_append {i next : Nat} {ranges left : List (Nat × Nat)}
    (h : passRanges i ranges = (next, left)) :
    ∃ passed, ranges = passed ++ left ∧ ∀ range ∈ passed, range.2 ≤ next := by
  fun_induction passRanges i ranges with
  | case1 i =>
    cases h
    exact ⟨[], rfl, by simp⟩
  | case2 i start stop rest _ ih =>
    obtain ⟨passed, rfl, hpassed⟩ := ih h
    have hle := (lt_of_passRanges h).1
    exact ⟨(start, stop) :: passed, rfl, List.forall_mem_cons.mpr ⟨by simp only; omega, hpassed⟩⟩
  | case3 i start stop rest _ =>
    cases h
    exact ⟨[], rfl, by simp⟩

/-- A run that comes after the ranges that are passed is clear of all ranges if
it is clear of those left. -/
theorem Clear.of_passRanges {i next : Nat} {ranges left : List (Nat × Nat)} {run : Delimiter}
    (hpass : passRanges i ranges = (next, left)) (hnext : next ≤ run.start) (h : run.Clear left) :
    run.Clear ranges := by
  obtain ⟨passed, rfl, hbounds⟩ := passRanges_eq_append hpass
  intro range hrange
  rcases List.mem_append.mp hrange with hrange | hrange
  · exact .inr (Nat.le_trans (hbounds range hrange) hnext)
  · exact h range hrange

theorem pairwise_of_passRanges {R : Nat × Nat → Nat × Nat → Prop} {i next : Nat} {ranges left : List (Nat × Nat)}
    (hpass : passRanges i ranges = (next, left)) (h : ranges.Pairwise R) : left.Pairwise R := by
  obtain ⟨passed, rfl, -⟩ := passRanges_eq_append hpass
  exact (List.pairwise_append.mp h).2.1

theorem forall_of_passRanges {P : Nat × Nat → Prop} {i next : Nat} {ranges left : List (Nat × Nat)}
    (hpass : passRanges i ranges = (next, left)) (h : ∀ range ∈ ranges, P range) : ∀ range ∈ left, P range := by
  obtain ⟨passed, rfl, -⟩ := passRanges_eq_append hpass
  exact fun range hr => h range (List.mem_append_right _ hr)

/-- The runs that are collected outside ranges, which start one after the
other, are clear of them. -/
theorem clear_collect (text : Text) (ranges : List (Nat × Nat)) (resume i : Nat) (before : Option Char)
    (rest : Text) (hrest : text.drop i = rest) (hsorted : ranges.Pairwise fun a b => a.1 ≤ b.1) :
    ∀ run ∈ collect ranges resume i before rest, run.Clear ranges := by
  have hstart {ranges : List (Nat × Nat)} {resume i : Nat} {before : Option Char} {rest : Text}
      (hrest : text.drop i = rest) {run : Delimiter} (hrun : run ∈ collect ranges resume i before rest) :
      i ≤ run.start ∧ resume ≤ run.start :=
    ((marks_collect text ranges resume i before rest hrest).1 run hrun).2.2
  fun_induction collect ranges resume i before rest with
  | case1 => simp
  | case2 ranges resume i before c rest _ ih => exact ih (Text.drop_add_one hrest) hsorted
  | case3 ranges resume i before c rest _ next left hpass hnext ih =>
    intro run hrun
    have hdrop := Text.drop_add_one hrest
    exact (ih hdrop (pairwise_of_passRanges hpass hsorted) run hrun).of_passRanges hpass (hstart hdrop hrun).2
  | case4 ranges resume i before c rest _ next left hpass hnext _ ih =>
    intro run hrun
    have hdrop := Text.drop_add_one hrest
    have := (hstart hdrop hrun).1
    exact (ih hdrop (pairwise_of_passRanges hpass hsorted) run hrun).of_passRanges hpass (by omega)
  | case5 ranges resume i before c rest _ next left hpass hnext _ _ ih =>
    intro run hrun
    have hdrop := Text.drop_add_one hrest
    have := (hstart hdrop hrun).1
    exact (ih hdrop (pairwise_of_passRanges hpass hsorted) run hrun).of_passRanges hpass (by omega)
  | case6 ranges resume i before c rest _ next left hpass hnext _ marker _ run length ih =>
    have hdrop := Text.drop_add_one hrest
    have hlater := pairwise_of_passRanges hpass hsorted
    obtain ⟨hle, hahead⟩ := lt_of_passRanges hpass
    refine List.forall_mem_cons.mpr ⟨Clear.of_passRanges hpass ?_ fun range hrange => .inl ?_, fun run hrun => ?_⟩
    · rw [ofRun_start]
      omega
    · -- the run stops where the next range starts, and the other ranges start later
      simp only [length, stop, ofRun_start, ofRun_remaining]
      cases left with
      | nil => cases hrange
      | cons first others =>
        have hfirst := hahead first rfl
        have hrange : first.1 ≤ range.1 := by
          rcases List.mem_cons.mp hrange with rfl | hrange
          · exact Nat.le_refl _
          · exact (List.pairwise_cons.mp hlater).1 range hrange
        dsimp only
        omega
    · have := (hstart hdrop hrun).2
      exact (ih hdrop hlater run hrun).of_passRanges hpass (by omega)

/-! ## The stack -/

/-- What is found on a stack, and what was passed on the way. -/
theorem findOpener_eq_append {closer opener : Delimiter} {depth : Nat} {stack below : List Delimiter}
    (h : findOpener closer depth stack = some (opener, below)) :
    opener.fits closer = true ∧ ∃ above, stack = above ++ opener :: below := by
  fun_induction findOpener closer depth stack with
  | case1 => cases h
  | case2 => cases h
  | case3 depth first rest hfits =>
    cases h
    exact ⟨hfits, [], rfl⟩
  | case4 depth first rest _ ih =>
    obtain ⟨hfits, above, rfl⟩ := ih h
    exact ⟨hfits, first :: above, rfl⟩

theorem one_le_pairSize {opener closer : Delimiter} (h : opener.fits closer = true) :
    1 ≤ pairSize opener closer := by
  simp only [fits, Bool.and_eq_true, bne_iff_ne] at h
  omega

theorem forall_mem_pushRest {P : Delimiter → Prop} {run : Delimiter} {stack : List Delimiter}
    (hrun : 1 ≤ run.remaining → P run) (hstack : ∀ other ∈ stack, P other) :
    ∀ other ∈ run.pushRest stack, P other := by
  unfold pushRest
  split
  · rename_i hpos
    exact List.forall_mem_cons.mpr ⟨hrun hpos, hstack⟩
  · exact hstack

theorem pairwise_pushRest {R : Delimiter → Delimiter → Prop} {run : Delimiter} {stack : List Delimiter}
    (hrun : ∀ other ∈ stack, R run other) (hstack : stack.Pairwise R) : (run.pushRest stack).Pairwise R := by
  unfold pushRest
  split
  · exact List.pairwise_cons.mpr ⟨hrun, hstack⟩
  · exact hstack

/-! ## What pairing keeps -/

/-- The emphasis found so far is nested and stops before `bound`. The runs on
the stack do so too; they stand one after the other from the bottom to the top,
each outside all emphasis. No range touches a marker. -/
structure Orderly (ranges : List (Nat × Nat)) (found : List Span) (stack : List Delimiter) (bound : Nat) :
    Prop where
  nested : found.Pairwise fun a b => a.stop ≤ b.start ∨ a.LiesIn b
  ended : ∀ span ∈ found, span.stop ≤ bound
  clear : ∀ span ∈ found, span.isEmphasis = true ∧ span.Clear ranges
  stacked : stack.Pairwise fun upper lower => lower.stop ≤ upper.start
  below : ∀ run ∈ stack, 1 ≤ run.remaining ∧ run.stop ≤ bound ∧ run.Clear ranges
  apart : ∀ span ∈ found, ∀ run ∈ stack, run.stop ≤ span.start ∨ span.stop ≤ run.start

variable {ranges : List (Nat × Nat)} {found : List Span} {stack : List Delimiter} {bound : Nat}

theorem Orderly.mono {bound' : Nat} (h : Orderly ranges found stack bound) (hle : bound ≤ bound') :
    Orderly ranges found stack bound' where
  nested := h.nested
  ended span hs := Nat.le_trans (h.ended span hs) hle
  clear := h.clear
  stacked := h.stacked
  below run hr := ⟨(h.below run hr).1, Nat.le_trans (h.below run hr).2.1 hle, (h.below run hr).2.2⟩
  apart := h.apart

/-- A run that comes after everything so far may be put on the stack. -/
theorem Orderly.push {run : Delimiter} (h : Orderly ranges found stack run.start) (hclear : run.Clear ranges) :
    Orderly ranges found (run.pushRest stack) run.stop := by
  have hle : run.start ≤ run.stop := Nat.le_add_right _ _
  have h' := h.mono hle
  refine ⟨h'.nested, h'.ended, h'.clear, ?_, ?_, fun span hs => ?_⟩
  · exact pairwise_pushRest (fun other ho => (h.below other ho).2.1) h.stacked
  · exact forall_mem_pushRest (fun hpos => ⟨hpos, Nat.le_refl _, hclear⟩) h'.below
  · exact forall_mem_pushRest (fun _ => .inr (h.ended span hs)) (h.apart span hs)

/-- A pair encloses the emphasis found after its opener and comes after all
other emphasis. What is left of its opener stands before it. -/
theorem Orderly.pair {closer opener : Delimiter} {below : List Delimiter} {depth : Nat}
    (h : Orderly ranges found stack closer.start) (hclear : closer.Clear ranges) (hpos : 1 ≤ closer.remaining)
    (hfind : findOpener closer depth stack = some (opener, below)) :
    Orderly ranges (found ++ [spanBetween opener closer])
      ((opener.useAsOpener (pairSize opener closer)).pushRest below)
      (closer.useAsCloser (pairSize opener closer)).start := by
  obtain ⟨hfits, above, rfl⟩ := findOpener_eq_append hfind
  obtain ⟨hopos, hostop, hoclear⟩ := h.below opener (by simp)
  have hsub : ∀ run ∈ below, run ∈ above ++ opener :: below := by
    intro run hr
    simp [hr]
  obtain ⟨hlow, hstacked⟩ := List.pairwise_cons.mp (List.pairwise_append.mp h.stacked).2.1
  have hone := one_le_pairSize hfits
  obtain ⟨hole, hcle⟩ := pairSize_le hopos hpos
  have hapart : ∀ span ∈ found, opener.stop ≤ span.start ∨ span.stop ≤ opener.start :=
    fun span hs => h.apart span hs opener (by simp)
  simp only [stop] at hostop hlow hapart
  refine ⟨?_, ?_, ?_, ?_, ?_, ?_⟩
  · refine List.pairwise_append.mpr ⟨h.nested, by simp, fun span hs other ho => ?_⟩
    rw [List.mem_singleton.mp ho]
    have hended := h.ended span hs
    rcases hapart span hs with hafter | hbefore
    · exact .inr ⟨rfl, by simp only [spanBetween]; omega, hended⟩
    · exact .inl (by simp only [spanBetween]; omega)
  · intro span hs
    rcases List.mem_append.mp hs with hs | hs
    · have := h.ended span hs
      simp only [useAsCloser]
      omega
    · rw [List.mem_singleton.mp hs]
      exact Nat.le_refl _
  · intro span hs
    rcases List.mem_append.mp hs with hs | hs
    · exact h.clear span hs
    · rw [List.mem_singleton.mp hs]
      refine ⟨rfl, fun range hrange => ?_⟩
      have hbefore := hoclear range hrange
      have hafter := hclear range hrange
      simp only [stop, spanBetween] at *
      omega
  · refine pairwise_pushRest (fun other ho => ?_) hstacked
    simpa [useAsOpener, stop] using hlow other ho
  · refine forall_mem_pushRest (fun hrest => ⟨hrest, ?_, fun range hrange => ?_⟩) fun run hr => ?_
    · simp only [stop, useAsOpener, useAsCloser]
      omega
    · have := hoclear range hrange
      simp only [stop, useAsOpener] at *
      omega
    · obtain ⟨hrest, hstop, hrclear⟩ := h.below run (hsub run hr)
      refine ⟨hrest, ?_, hrclear⟩
      simp only [useAsCloser]
      omega
  · intro span hs
    rcases List.mem_append.mp hs with hs | hs
    · refine forall_mem_pushRest (fun _ => ?_) fun run hr => h.apart span hs run (hsub run hr)
      have := hapart span hs
      simp only [stop, useAsOpener]
      omega
    · rw [List.mem_singleton.mp hs]
      refine forall_mem_pushRest (fun _ => .inl ?_) fun run hr => .inl ?_
      · simp only [stop, useAsOpener, spanBetween]
        omega
      · have := hlow run hr
        simp only [stop, spanBetween]
        omega

theorem clear_useAsCloser {closer : Delimiter} {used : Nat} (h : closer.Clear ranges)
    (hu : used ≤ closer.remaining) : (closer.useAsCloser used).Clear ranges := by
  intro range hrange
  have := h range hrange
  rw [stop_useAsCloser hu]
  simp only [useAsCloser]
  omega

/-- Pairing a closer keeps the order. -/
theorem Orderly.pairCloser (rounds : Nat) (floors : Floors) {closer : Delimiter}
    (h : Orderly ranges found stack closer.start) (hclear : closer.Clear ranges) :
    let paired := Delimiter.pairCloser rounds stack floors closer
    Orderly ranges (found ++ paired.spans) paired.stack paired.closer.start ∧ paired.closer.Clear ranges ∧
      paired.closer.stop = closer.stop := by
  fun_induction Delimiter.pairCloser rounds stack floors closer generalizing found with
  | case1 stack floors closer => simpa using ⟨h, hclear⟩
  | case2 rounds stack floors closer _ => simpa using ⟨h, hclear⟩
  | case3 rounds stack floors closer _ _ => simpa using ⟨h, hclear⟩
  | case4 rounds stack floors closer hpos opener below hfind used next =>
    rename_i ih
    have hpos : 1 ≤ closer.remaining := by omega
    obtain ⟨-, above, hstack⟩ := findOpener_eq_append hfind
    have hopener := (h.below opener (by simp [hstack])).1
    have hused : used ≤ closer.remaining := (pairSize_le hopener hpos).2
    obtain ⟨hnext, hcleared, hstop⟩ := ih (h.pair hclear hpos hfind) (clear_useAsCloser hclear hused)
    refine ⟨?_, hcleared, hstop.trans (stop_useAsCloser hused)⟩
    rw [List.append_assoc] at hnext
    exact hnext

/-- What pairing a run leaves; a run that cannot close is left as it is. -/
def pairRun (stack : List Delimiter) (floors : Floors) (run : Delimiter) : Pairing :=
  if run.canClose then Delimiter.pairCloser run.remaining stack floors run else ⟨[], stack, floors, run⟩

/-- The stack after a run has been paired, with what is left of it if it can
open. -/
def Pairing.rested (paired : Pairing) (run : Delimiter) : List Delimiter :=
  if run.canOpen then paired.closer.pushRest paired.stack else paired.stack

theorem pairAll_cons (stack : List Delimiter) (floors : Floors) (run : Delimiter) (rest : List Delimiter) :
    pairAll stack floors (run :: rest) = (pairRun stack floors run).spans ++
      pairAll ((pairRun stack floors run).rested run) (pairRun stack floors run).floors rest := rfl

/-- Pairing all runs keeps the order. -/
theorem Orderly.pairAll (floors : Floors) (runs : List Delimiter) (h : Orderly ranges found stack bound)
    (hruns : ∀ run ∈ runs, bound ≤ run.start ∧ run.Clear ranges)
    (hp : runs.Pairwise fun a b => a.stop ≤ b.start) :
    ∃ last bound, Orderly ranges (found ++ Delimiter.pairAll stack floors runs) last bound := by
  induction runs generalizing found stack floors bound with
  | nil => exact ⟨stack, bound, by simpa [Delimiter.pairAll] using h⟩
  | cons run runs ih =>
    obtain ⟨⟨hbound, hclear⟩, hruns⟩ := List.forall_mem_cons.mp hruns
    obtain ⟨hlater, hp⟩ := List.pairwise_cons.mp hp
    obtain ⟨hpaired, hcleared, hstop⟩ : Orderly ranges (found ++ (pairRun stack floors run).spans)
        (pairRun stack floors run).stack (pairRun stack floors run).closer.start ∧
        (pairRun stack floors run).closer.Clear ranges ∧
        (pairRun stack floors run).closer.stop = run.stop := by
      unfold pairRun
      split
      · exact (h.mono hbound).pairCloser run.remaining floors hclear
      · simpa using ⟨h.mono hbound, hclear⟩
    have hrested : Orderly ranges (found ++ (pairRun stack floors run).spans)
        ((pairRun stack floors run).rested run) run.stop := by
      unfold Pairing.rested
      rw [← hstop]
      split
      · exact hpaired.push hcleared
      · exact hpaired.mono (Nat.le_add_right _ _)
    rw [pairAll_cons, ← List.append_assoc]
    exact ih _ hrested (fun other ho => ⟨hlater other ho, (hruns other ho).2⟩) hp

end Delimiter

namespace Span

/-- The emphasis of a text outside ranges, which start one after the other, is
nested, and clear of them. -/
theorem pairwise_emphasis (text : Text) {ranges : List (Nat × Nat)}
    (hsorted : ranges.Pairwise fun a b => a.1 ≤ b.1) :
    (emphasis text ranges).Pairwise (fun a b => a.stop ≤ b.start ∨ a.LiesIn b) ∧
      ∀ span ∈ emphasis text ranges, span.isEmphasis = true ∧ span.Clear ranges := by
  have hclear := Delimiter.clear_collect text ranges 0 0 none text rfl hsorted
  have hpair := (Delimiter.marks_collect text ranges 0 0 none text rfl).2
  have hstart : Delimiter.Orderly ranges [] [] 0 := by constructor <;> simp
  obtain ⟨stack, bound, h⟩ := hstart.pairAll [] _ (fun run hr => ⟨Nat.zero_le _, hclear run hr⟩) hpair
  exact ⟨h.nested, h.clear⟩

end Span

end ProseWrap
