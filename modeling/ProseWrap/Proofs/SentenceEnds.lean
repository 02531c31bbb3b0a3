import Mathlib.Data.List.Pairwise
import ProseWrap.Proofs.Fragments
import ProseWrap.Proofs.SpanEdges

/-!
# Which offsets end sentences

The scan for sentence ends looks at a character, skips the quotes and closers
after it, and passes over spans. Nothing is lost by that: the offsets that it
reports are those of all candidates, taken one by one (`mem_boundaries_iff`).
What is skipped after a candidate holds no span
(`Span.Apart.not_start_in_run`), and a candidate there has the same boundary
(`boundary?_of_skipped`), so one step of the scan accounts for the candidates
that it passes (`candidates_step`), and the scan follows by induction
(`mem_boundariesFrom_iff`).

`EndsAt` says without the scan where a candidate ends a sentence, and
`boundaries_are_sentence_ends` puts the two together.
-/

namespace ProseWrap

open Span (StandsIn leafOpeners markers)

namespace Sentence

/-! ## Runs of characters -/

/-- The characters from offset `i` on that satisfy `p` reach up to offset `b`,
where the text stops or another character stands. -/
structure RunsTo (p : Char → Bool) (text : Text) (stop i b : Nat) : Prop where
  le : i ≤ b
  le_stop : b ≤ stop
  run : ∀ k, i ≤ k → k < b → ∃ c, text[k]? = some c ∧ p c = true
  ends : b = stop ∨ ∃ c, text[b]? = some c ∧ p c = false

theorem RunsTo.unique {p : Char → Bool} {text : Text} {stop i a b : Nat} (ha : RunsTo p text stop i a)
    (hb : RunsTo p text stop i b) : a = b := by
  -- the run that stops first would go on
  have hnot {a b : Nat} (ha : RunsTo p text stop i a) (hb : RunsTo p text stop i b) : ¬a < b := by
    intro hlt
    rcases ha.ends with hstop | ⟨c, hc, hp⟩
    · have := hb.le_stop
      omega
    · obtain ⟨d, hd, hp'⟩ := hb.run a ha.le hlt
      rw [hc, Option.some.injEq] at hd
      rw [← hd, hp] at hp'
      cases hp'
  have := hnot ha hb
  have := hnot hb ha
  omega

/-- A run is the same run from any of its places on. -/
theorem RunsTo.from_later {p : Char → Bool} {text : Text} {stop i j b : Nat} (h : RunsTo p text stop i b)
    (hij : i ≤ j) (hjb : j ≤ b) : RunsTo p text stop j b :=
  ⟨hjb, h.le_stop, fun k hk hkb => h.run k (by omega) hkb, h.ends⟩

theorem runLength_spec (p : Char → Bool) (limit : Nat) (l : Text) (h : limit ≤ l.length) :
    runLength p limit l ≤ limit ∧ (∀ k < runLength p limit l, ∃ c, l[k]? = some c ∧ p c = true) ∧
      (runLength p limit l = limit ∨ ∃ c, l[runLength p limit l]? = some c ∧ p c = false) := by
  fun_induction runLength p limit l with
  | case1 => simp
  | case2 limit hlimit => cases limit <;> simp_all
  | case3 limit c rest hc ih =>
    obtain ⟨hle, hrun, hends⟩ := ih (by simpa using h)
    refine ⟨by omega, fun k hk => ?_, hends.imp (by omega) fun hend => by simpa using hend⟩
    cases k with
    | zero => exact ⟨c, rfl, hc⟩
    | succ k => simpa using hrun k (by omega)
  | case4 limit c rest hc => exact ⟨Nat.zero_le _, by simp, .inr ⟨c, rfl, by simpa using hc⟩⟩

theorem runsTo_runEnd (p : Char → Bool) {text : Text} {stop i : Nat} (hi : i ≤ stop)
    (hstop : stop ≤ text.length) : RunsTo p text stop i (runEnd p text stop i) := by
  obtain ⟨hle, hrun, hends⟩ := runLength_spec p (stop - i) (text.drop i) (by rw [List.length_drop]; omega)
  unfold runEnd
  refine ⟨by omega, by omega, fun k hk hkb => ?_, hends.imp (by omega) fun hend => ?_⟩
  · have := hrun (k - i) (by omega)
    rwa [List.getElem?_drop, show i + (k - i) = k by omega] at this
  · rwa [List.getElem?_drop] at hend

theorem runsTo_iff {p : Char → Bool} {text : Text} {stop i b : Nat} (hi : i ≤ stop)
    (hstop : stop ≤ text.length) : RunsTo p text stop i b ↔ b = runEnd p text stop i :=
  ⟨fun h => h.unique (runsTo_runEnd p hi hstop), fun h => h ▸ runsTo_runEnd p hi hstop⟩

/-! ## Characters that are skipped -/

theorem not_ends_of_mayCloseQuote {c : Char} (h : mayCloseQuote c = true) :
    isTerminator c = false ∧ isUnspacedTerminator c = false := by
  simp only [mayCloseQuote, Bool.or_eq_true, beq_iff_eq] at h
  rcases h with ((((rfl | rfl) | rfl) | rfl) | rfl) | rfl <;> decide

/-- Whether a character is passed over after a terminator of a script without
spaces. -/
def isUnspacedTail (c : Char) : Bool := isUnspacedCloser c || isUnspacedTerminator c

theorem not_isTerminator_of_isUnspacedTail {c : Char} (h : isUnspacedTail c = true) : isTerminator c = false := by
  simp only [isUnspacedTail, isUnspacedCloser, isUnspacedTerminator, mayCloseQuote, Bool.or_eq_true,
    beq_iff_eq] at h
  rcases h with ((((((rfl | rfl) | rfl) | rfl) | rfl) | rfl) | ((((rfl | rfl) | rfl) | rfl) | rfl) | rfl) |
    ((rfl | rfl) | rfl) <;> decide

theorem isUnspacedTail_of_mayCloseQuote {c : Char} (h : mayCloseQuote c = true) : isUnspacedTail c = true := by
  simp [isUnspacedTail, isUnspacedCloser, h]

/-- No span begins with a character that is skipped. -/
theorem not_isUnspacedTail_of_mem_openers {c : Char} (h : c ∈ leafOpeners ++ markers) :
    isUnspacedTail c = false := by
  have hall : (leafOpeners ++ markers).all (fun c => !isUnspacedTail c) = true := by decide
  simpa using List.all_eq_true.mp hall c h

end Sentence

/-! ## Candidates -/

/-- Spans side by side in the order of the text and before `stop`, each of
which has a first character that can begin one. -/
structure Span.Apart (text : Text) (stop : Nat) (spans : List Span) : Prop where
  pairwise : spans.Pairwise fun a b => a.stop ≤ b.start
  proper : ∀ span ∈ spans, span.start < span.stop ∧ span.stop ≤ stop
  opened : ∀ span ∈ spans, StandsIn (leafOpeners ++ markers) text span.start

namespace Span.Apart

variable {text : Text} {stop : Nat} {spans : List Span}

theorem of_sublist {fewer : List Span} (h : Span.Apart text stop spans) (hsub : fewer.Sublist spans) :
    Span.Apart text stop fewer :=
  ⟨h.pairwise.sublist hsub, fun span hs => h.proper span (hsub.subset hs),
    fun span hs => h.opened span (hsub.subset hs)⟩

/-- Two spans with an offset in common are the same. -/
theorem eq_of_inside (h : Span.Apart text stop spans) {a b : Span} (ha : a ∈ spans) (hb : b ∈ spans) {i : Nat}
    (hai : a.start ≤ i ∧ i < a.stop) (hbi : b.start ≤ i ∧ i < b.stop) : a = b := by
  by_contra hne
  have hsymm : Std.Symm fun a b : Span => a.stop ≤ b.start ∨ b.stop ≤ a.start := ⟨fun _ _ => Or.symm⟩
  have hapart : spans.Pairwise fun a b => a.stop ≤ b.start ∨ b.stop ≤ a.start := h.pairwise.imp .inl
  have := hapart.forall ha hb hne
  omega

/-- No span begins with a character of a run that is skipped. -/
theorem not_start_in_run (h : Span.Apart text stop spans) {p : Char → Bool}
    (hp : ∀ c, p c = true → Sentence.isUnspacedTail c = true) {i b : Nat} (hrun : Sentence.RunsTo p text stop i b)
    {span : Span} (hs : span ∈ spans) : ¬(i ≤ span.start ∧ span.start < b) := by
  rintro ⟨hi, hb⟩
  obtain ⟨c, hc, hpc⟩ := hrun.run span.start hi hb
  obtain ⟨d, hd, hget⟩ := h.opened span hs
  rw [hc, Option.some.injEq] at hget
  have := Sentence.not_isUnspacedTail_of_mem_openers (hget ▸ hd)
  rw [hp c hpc] at this
  cases this

end Span.Apart

namespace Sentence

variable {set : Abbreviations} {text : Text} {spans : List Span} {start stop : Nat}

/-- The candidates of a text between `start` and `stop`, by the offset where
the scan meets them: a character outside all spans, and the last character of
the content of emphasis. -/
inductive CandidateAt (spans : List Span) (start stop : Nat) : Nat → Candidate → Prop
  | outside (i : Nat) (hstart : start ≤ i) (hstop : i < stop)
      (houtside : ∀ span ∈ spans, ¬(span.start ≤ i ∧ i < span.stop)) :
      CandidateAt spans start stop i ⟨i, i + 1, start⟩
  | emphasis (span : Span) (hmem : span ∈ spans) (hkind : span.isEmphasis = true)
      (hcontent : span.contentStart < span.contentStop) :
      CandidateAt spans start stop span.start ⟨span.contentStop - 1, span.stop, span.contentStart⟩

/-- The boundary that a candidate yields by itself. -/
def boundary? (set : Abbreviations) (text : Text) (stop : Nat) (place : Candidate) : Option Nat :=
  text[place.index]?.bind fun c => (judge set text stop c place).boundary

theorem lt_after (hspans : Span.Apart text stop spans) {pos : Nat} {place : Candidate}
    (h : CandidateAt spans start stop pos place) : pos < place.after ∧ place.after ≤ stop := by
  cases h with
  | outside i hstart hstop => exact ⟨Nat.lt_succ_self _, hstop⟩
  | emphasis span hmem => exact hspans.proper span hmem

theorem boundary?_bounds {place : Candidate} {b : Nat} (h : boundary? set text stop place = some b) :
    place.after ≤ b ∧ b < stop := by
  obtain ⟨c, -, hb⟩ := Option.bind_eq_some_iff.mp h
  exact judge_bounds hb

/-- What a terminator skips, and where it lets the scan go on: after the quotes
if a sentence ends there, and in a script without spaces after the closers,
whether a sentence ends there or not. -/
theorem judge_resume {c : Char} {place : Candidate} {resume : Nat} (hafter : place.after ≤ stop)
    (hstop : stop ≤ text.length) (h : (judge set text stop c place).resume = some resume) :
    ((judge set text stop c place).boundary = some resume ∧ RunsTo mayCloseQuote text stop place.after resume) ∨
      ((judge set text stop c place).boundary =
          (if runEnd Text.isGap text stop resume < stop then some resume else none) ∧
        RunsTo isUnspacedTail text stop place.after resume) := by
  unfold judge at h ⊢
  split
  · rename_i hc
    rw [if_pos hc] at h
    refine .inl ⟨h, ?_⟩
    unfold spacedBoundary? at h
    dsimp only at h
    split at h
    · cases h
      exact runsTo_runEnd _ hafter hstop
    · cases h
  · rename_i hc
    rw [if_neg hc] at h
    split
    · rename_i hc'
      rw [if_pos hc'] at h
      obtain rfl := Option.some.inj h
      exact .inr ⟨rfl, runsTo_runEnd isUnspacedTail hafter hstop⟩
    · rename_i hc'
      rw [if_neg hc'] at h
      cases h

/-- A candidate that ends a sentence lets the scan go on there. -/
theorem resume_of_boundary {c : Char} {place : Candidate} {b : Nat}
    (h : (judge set text stop c place).boundary = some b) : (judge set text stop c place).resume = some b := by
  unfold judge at h ⊢
  split
  · rename_i hc
    rwa [if_pos hc] at h
  · rename_i hc
    rw [if_neg hc] at h
    split
    · rename_i hc'
      rw [if_pos hc'] at h
      unfold unspacedFinding at h ⊢
      dsimp only at h ⊢
      split at h
      · exact h
      · cases h
    · rename_i hc'
      rw [if_neg hc'] at h
      cases h

/-- A candidate among what another one skips ends a sentence only where that
one does. -/
theorem boundary?_of_skipped (hspans : Span.Apart text stop spans) (hstop : stop ≤ text.length) {c : Char}
    {place later : Candidate} {resume pos b : Nat} (hafter : place.after ≤ stop)
    (hresume : (judge set text stop c place).resume = some resume)
    (hlater : CandidateAt spans start stop pos later) (hpos : place.after ≤ pos) (hskip : pos < resume)
    (hb : boundary? set text stop later = some b) : (judge set text stop c place).boundary = some b := by
  have hnot {p : Char → Bool} (hp : ∀ c, p c = true → isUnspacedTail c = true)
      (hrun : RunsTo p text stop place.after resume) :
      ∃ d, text[pos]? = some d ∧ p d = true ∧ (judge set text stop d ⟨pos, pos + 1, start⟩).boundary = some b := by
    obtain ⟨d, hd, hpd⟩ := hrun.run pos hpos hskip
    refine ⟨d, hd, hpd, ?_⟩
    cases hlater with
    | outside _ _ _ _ => simpa [boundary?, hd] using hb
    | emphasis span hmem => exact absurd ⟨hpos, hskip⟩ (hspans.not_start_in_run hp hrun hmem)
  rcases judge_resume hafter hstop hresume with ⟨-, hrun⟩ | ⟨hboundary, hrun⟩
  · obtain ⟨d, -, hquote, hb⟩ := hnot (fun _ => isUnspacedTail_of_mayCloseQuote) hrun
    obtain ⟨hspaced, hunspaced⟩ := not_ends_of_mayCloseQuote hquote
    simp [judge, hspaced, hunspaced] at hb
  · obtain ⟨d, -, htail, hb⟩ := hnot (fun _ => id) hrun
    have hspaced := not_isTerminator_of_isUnspacedTail htail
    rw [judge, if_neg (by simp [hspaced])] at hb
    split at hb
    · -- the run of closers that the later terminator skips stops where this one does
      have hend : runEnd isUnspacedTail text stop (pos + 1) = resume :=
        ((runsTo_iff (by have := hrun.le_stop; omega) hstop).mp (hrun.from_later (by omega) hskip)).symm
      have hboth : (unspacedFinding text stop (pos + 1)).boundary =
          if runEnd Text.isGap text stop resume < stop then some resume else none := by
        rw [← hend]
        rfl
      rw [hboundary, ← hboth]
      exact hb
    · cases hb

/-! ## The scan -/

/-- Some candidate that the scan meets from offset `i` on yields the boundary
`b`. -/
def FoundFrom (set : Abbreviations) (text : Text) (spans : List Span) (start stop i b : Nat) : Prop :=
  ∃ pos place, i ≤ pos ∧ CandidateAt spans start stop pos place ∧ boundary? set text stop place = some b

theorem FoundFrom.mono {i j b : Nat} (h : FoundFrom set text spans start stop j b) (hij : i ≤ j) :
    FoundFrom set text spans start stop i b := by
  obtain ⟨pos, place, hpos, hplace, hb⟩ := h
  exact ⟨pos, place, Nat.le_trans hij hpos, hplace, hb⟩

/-- The only candidate that can be met inside a span is its own last
character. -/
theorem candidateAt_inside (hspans : Span.Apart text stop spans) {span : Span} (hs : span ∈ spans) {pos : Nat}
    {place : Candidate} (hplace : CandidateAt spans start stop pos place)
    (hpos : span.start ≤ pos ∧ pos < span.stop) :
    pos = span.start ∧ span.isEmphasis = true ∧ span.contentStart < span.contentStop ∧
      place = ⟨span.contentStop - 1, span.stop, span.contentStart⟩ := by
  cases hplace with
  | outside _ _ _ houtside => exact absurd hpos (houtside span hs)
  | emphasis other hmem hkind hcontent =>
    have hother := (hspans.proper other hmem).1
    obtain rfl := hspans.eq_of_inside hs hmem hpos ⟨Nat.le_refl _, hother⟩
    exact ⟨rfl, hkind, hcontent, rfl⟩

theorem judgeSpan_boundary (set : Abbreviations) (text : Text) (stop : Nat) (span : Span) :
    (judgeSpan set text stop span).boundary =
      if span.isEmphasis && span.contentStart < span.contentStop then
        boundary? set text stop ⟨span.contentStop - 1, span.stop, span.contentStart⟩
      else none := by
  unfold judgeSpan boundary?
  dsimp only
  split
  · cases text[span.contentStop - 1]? <;> rfl
  · rfl

/-- What the scan does at an offset: it judges the character there if no span
holds it, or the span that starts there, and passes over a span that it is
inside of. -/
inductive Looks (set : Abbreviations) (text : Text) (spans : List Span) (start stop i : Nat) (c : Char) :
    Finding → Prop
  | outside (houtside : ∀ span ∈ spans, ¬(span.start ≤ i ∧ i < span.stop)) :
      Looks set text spans start stop i c (judge set text stop c ⟨i, i + 1, start⟩)
  | starts (span : Span) (hmem : span ∈ spans) (hstart : span.start = i) (hinside : i < span.stop) :
      Looks set text spans start stop i c (judgeSpan set text stop span)
  | inside (span : Span) (hmem : span ∈ spans) (hstart : span.start < i) (hinside : i < span.stop) :
      Looks set text spans start stop i c ⟨none, some span.stop⟩

variable {i : Nat} {c : Char} {found : Finding}

/-- One step of the scan accounts for the candidates that it passes. -/
theorem candidates_step (hspans : Span.Apart text stop spans) (hstop : stop ≤ text.length)
    (hget : text[i]? = some c) (hstart : start ≤ i) (hi : i < stop)
    (hlooks : Looks set text spans start stop i c found) (b : Nat) :
    FoundFrom set text spans start stop i b ↔ found.boundary = some b ∨
      FoundFrom set text spans start stop (max (i + 1) (found.resume.getD (i + 1))) b := by
  constructor
  · rintro ⟨pos, place, hpos, hplace, hb⟩
    by_cases hpast : max (i + 1) (found.resume.getD (i + 1)) ≤ pos
    · exact .inr ⟨pos, place, hpast, hplace, hb⟩
    · refine .inl ?_
      cases hlooks with
      | outside houtside =>
        by_cases heq : pos = i
        · subst heq
          cases hplace with
          | outside => simpa [boundary?, hget] using hb
          | emphasis span hmem =>
            exact absurd ⟨Nat.le_refl _, (hspans.proper span hmem).1⟩ (houtside span hmem)
        · -- the candidate is among what the one here skips
          cases hresume : (judge set text stop c ⟨i, i + 1, start⟩).resume with
          | none =>
            rw [hresume, Option.getD_none] at hpast
            omega
          | some resume =>
            rw [hresume, Option.getD_some] at hpast
            exact boundary?_of_skipped hspans hstop (Nat.succ_le_of_lt hi) hresume hplace
              (show i + 1 ≤ pos by omega) (by omega) hb
      | starts span hmem hspan hinside =>
        have hend : pos < span.stop := by
          simp only [judgeSpan, Option.getD_some] at hpast
          omega
        obtain ⟨-, hkind, hcontent, rfl⟩ := candidateAt_inside hspans hmem hplace ⟨by omega, hend⟩
        rw [judgeSpan_boundary, if_pos (by simp [hkind, hcontent]), hb]
      | inside span hmem hspan hinside =>
        have hend : pos < span.stop := by
          simp only [Option.getD_some] at hpast
          omega
        have := (candidateAt_inside hspans hmem hplace ⟨by omega, hend⟩).1
        omega
  · rintro (hb | hlater)
    · cases hlooks with
      | outside houtside =>
        exact ⟨i, _, Nat.le_refl _, .outside i hstart hi houtside, by simpa [boundary?, hget] using hb⟩
      | starts span hmem hspan hinside =>
        rw [judgeSpan_boundary] at hb
        split at hb
        · rename_i hcond
          rw [Bool.and_eq_true, decide_eq_true_eq] at hcond
          exact ⟨span.start, _, Nat.le_of_eq hspan.symm, .emphasis span hmem hcond.1 hcond.2, hb⟩
        · cases hb
      | inside span hmem hspan hinside => cases hb
    · exact hlater.mono (by omega)

/-- What comes later in the scan ends no earlier. -/
theorem le_of_found_later (hspans : Span.Apart text stop spans) (hstop : stop ≤ text.length)
    (hlooks : Looks set text spans start stop i c found) {here b : Nat} (hhere : found.boundary = some here)
    (hlater : FoundFrom set text spans start stop (max (i + 1) (found.resume.getD (i + 1))) b) : here ≤ b := by
  obtain ⟨pos, place, hpos, hplace, hb⟩ := hlater
  have hafter := (lt_after hspans hplace).1
  have hbounds := (boundary?_bounds hb).1
  cases hlooks with
  | outside houtside =>
    rw [resume_of_boundary hhere, Option.getD_some] at hpos
    omega
  | starts span hmem hspan hinside =>
    rw [judgeSpan_boundary] at hhere
    split at hhere
    · obtain ⟨d, -, hd⟩ := Option.bind_eq_some_iff.mp hhere
      by_cases hpast : here ≤ pos
      · omega
      · -- the quotes after the emphasis are looked at again
        simp only [judgeSpan, Option.getD_some] at hpos
        have hsame := boundary?_of_skipped hspans hstop (hspans.proper span hmem).2 (resume_of_boundary hd) hplace
          (show span.stop ≤ pos by omega) (by omega) hb
        rw [hd, Option.some.injEq] at hsame
        omega
    · cases hhere
  | inside span hmem hspan hinside => cases hhere

theorem candidateAt_passed (hspans : Span.Apart text stop spans) {pos : Nat} {place : Candidate} (hpos : i ≤ pos) :
    CandidateAt (spans.dropWhile fun span => span.stop ≤ i) start stop pos place ↔
      CandidateAt spans start stop pos place := by
  -- a span that is passed stops at or before `i`
  have hmem {span : Span} (hs : span ∈ spans) (hlt : i < span.stop) :
      span ∈ spans.dropWhile fun span => span.stop ≤ i := by
    rw [← List.takeWhile_append_dropWhile (p := fun span : Span => decide (span.stop ≤ i)) (l := spans)] at hs
    rcases List.mem_append.mp hs with hs | hs
    · have := List.all_eq_true.mp List.all_takeWhile span hs
      simp only [decide_eq_true_eq] at this
      omega
    · exact hs
  have hsub := List.dropWhile_sublist (fun span : Span => decide (span.stop ≤ i)) (l := spans)
  constructor
  · intro h
    cases h with
    | outside _ hstart hstop houtside =>
      refine .outside pos hstart hstop fun span hs hin => ?_
      exact houtside span (hmem hs (by omega)) hin
    | emphasis span hs hkind hcontent => exact .emphasis span (hsub.subset hs) hkind hcontent
  · intro h
    cases h with
    | outside _ hstart hstop houtside =>
      exact .outside pos hstart hstop fun span hs => houtside span (hsub.subset hs)
    | emphasis span hs hkind hcontent =>
      have := (hspans.proper span hs).1
      exact .emphasis span (hmem hs (by omega)) hkind hcontent

/-- The scan from offset `i` on reports what the candidates from there on
yield, past the last boundary. -/
theorem mem_boundariesFrom_iff (hstop : stop ≤ text.length) (spans : List Span)
    (hspans : Span.Apart text stop spans) (resume i last : Nat) (rest : Text) (hrest : text.drop i = rest)
    (hstart : start ≤ i) (b : Nat) :
    b ∈ boundariesFrom set text stop start spans resume i last rest ↔
      last < b ∧ FoundFrom set text spans start stop (max i resume) b := by
  fun_induction boundariesFrom set text stop start spans resume i last rest with
  | case1 spans resume i last =>
    refine iff_of_false (by simp) ?_
    rintro ⟨-, pos, place, hpos, hplace, -⟩
    have hend : text.length ≤ i := List.drop_eq_nil_iff.mp hrest
    have := lt_after hspans hplace
    omega
  | case2 spans resume i last c rest hend =>
    refine iff_of_false (by simp) ?_
    rintro ⟨-, pos, place, hpos, hplace, -⟩
    have := lt_after hspans hplace
    omega
  | case3 spans resume i last c rest _ hlt ih =>
    rw [ih hspans (Text.drop_add_one hrest) (by omega), Nat.max_eq_right (Nat.le_of_lt hlt),
      Nat.max_eq_right (Nat.succ_le_of_lt hlt)]
  | case4 spans resume i last c rest hend hge left plain found new ih =>
    have hget := Text.getElem?_of_drop_eq_cons hrest
    have hleft : Span.Apart text stop left := hspans.of_sublist (List.dropWhile_sublist _)
    have hlooks : Looks set text left start stop i c found := by
      have hhead : ∀ span, left.head? = some span → i < span.stop := by
        intro span hspan
        have := List.head?_dropWhile_not (fun s : Span => decide (s.stop ≤ i)) spans
        rw [show (spans.dropWhile fun s => decide (s.stop ≤ i)).head? = some span from hspan] at this
        simpa using this
      simp only [found]
      clear_value left
      cases left with
      | nil => exact .outside (by simp)
      | cons span others =>
        have hin := hhead span rfl
        dsimp only
        split
        · exact .starts span List.mem_cons_self ‹_› hin
        · split
          · exact .inside span List.mem_cons_self ‹_› hin
          · refine .outside (List.forall_mem_cons.mpr ⟨by omega, fun later hl => ?_⟩)
            have := (List.pairwise_cons.mp hleft.pairwise).1 later hl
            omega
    have hpassed {j : Nat} (hj : i ≤ j) :
        FoundFrom set text left start stop j b ↔ FoundFrom set text spans start stop j b := by
      refine exists_congr fun pos => exists_congr fun place => and_congr_right fun hpos => ?_
      rw [candidateAt_passed hspans (Nat.le_trans hj hpos)]
    rw [Nat.max_eq_left (Nat.not_lt.mp hge), ← hpassed (Nat.le_refl _),
      candidates_step hleft hstop hget hstart (Nat.not_le.mp hend) hlooks, List.mem_append, Option.mem_toList,
      ih hleft (Text.drop_add_one hrest) (by omega)]
    have hnew : new = some b ↔ found.boundary = some b ∧ last < b := by
      simp [new, Option.filter_eq_some_iff]
    cases hfound : new with
    | none =>
      rw [hfound] at hnew
      simp only [Option.getD_none]
      constructor
      · rintro (h | ⟨hlast, h⟩)
        · cases h
        · exact ⟨hlast, .inr h⟩
      · rintro ⟨hlast, h | h⟩
        · exact absurd (hnew.mpr ⟨h, hlast⟩) (by simp)
        · exact .inr ⟨hlast, h⟩
    | some here =>
      have hhere : found.boundary = some here ∧ last < here := by
        simpa [new, Option.filter_eq_some_iff] using hfound
      simp only [Option.getD_some]
      constructor
      · rintro (h | ⟨hlast, h⟩)
        · cases h
          exact ⟨hhere.2, .inl hhere.1⟩
        · exact ⟨by omega, .inr h⟩
      · rintro ⟨hlast, h | h⟩
        · rw [hhere.1] at h
          exact .inl h
        · -- the boundary found here is not passed again
          have hle := le_of_found_later hleft hstop hlooks hhere.1 h
          rcases Nat.lt_or_eq_of_le hle with hlt | rfl
          · exact .inr ⟨hlt, h⟩
          · exact .inl rfl

/-- The sentence ends between two offsets are the boundaries that the
candidates there yield. -/
theorem mem_boundaries_iff (hspans : Span.Apart text stop spans) (hstarts : ∀ span ∈ spans, start ≤ span.start)
    (hstop : stop ≤ text.length) {b : Nat} :
    b ∈ boundaries set text spans start stop ↔
      ∃ pos place, CandidateAt spans start stop pos place ∧ boundary? set text stop place = some b := by
  rw [boundaries, Int.toNat_natCast, mem_boundariesFrom_iff hstop spans hspans 0 start 0 _ rfl (Nat.le_refl _)]
  constructor
  · rintro ⟨-, pos, place, -, hplace, hb⟩
    exact ⟨pos, place, hplace, hb⟩
  · rintro ⟨pos, place, hplace, hb⟩
    have hafter := (lt_after hspans hplace).1
    have hbounds := (boundary?_bounds hb).1
    refine ⟨by omega, pos, place, ?_, hplace, hb⟩
    rw [Nat.max_zero]
    cases hplace with
    | outside _ hstart => exact hstart
    | emphasis span hmem => exact hstarts span hmem

/-! ## What ends a sentence -/

/-- The word that ends with the character at offset `index`: it reaches back to
a gap, or to `floor`, and begins with its first letter or digit. -/
def IsWordAt (text : Text) (floor : Int) (index : Nat) (word : Text) : Prop :=
  ∃ start : Nat, floor ≤ start ∧ start ≤ index ∧
    (∀ k, start ≤ k → k < index → ∃ c, text[k]? = some c ∧ Text.isGap c = false) ∧
    (floor = start ∨ 0 < start ∧ ∃ c, text[start - 1]? = some c ∧ Text.isGap c = true) ∧
    word = (Text.slice text start (index + 1)).dropWhile fun c => !Unicode.isAlphanumeric c

/-- A candidate ends a sentence at offset `b`. A full stop, an exclamation or a
question mark does after the closing quotes behind it, if a gap follows and
then, after opening quotes and markers, a character that a sentence can begin
with, unless it is the full stop of an abbreviation. A terminator of a script
without spaces does after the closers and terminators behind it, if anything
but gaps follows. -/
inductive EndsAt (set : Abbreviations) (text : Text) (stop : Nat) (place : Candidate) (b : Nat) : Prop
  | spaced (c gap first : Char) (gapEnd next : Nat) (hc : text[place.index]? = some c) (hends : isTerminator c = true)
      (hquotes : RunsTo mayCloseQuote text stop place.after b)
      (hgap : b < stop ∧ text[b]? = some gap ∧ Text.isGap gap = true) (hgaps : RunsTo Text.isGap text stop b gapEnd)
      (hopening : RunsTo (fun c => mayOpenQuote c || isLeadingMarker c) text stop gapEnd next)
      (hnext : next < stop ∧ text[next]? = some first ∧ opensSentence first = true)
      (hword : ¬(c = '.' ∧ ∃ word, IsWordAt text place.floor place.index word ∧ set.contains word = true))
  | unspaced (c : Char) (hc : text[place.index]? = some c) (hends : isUnspacedTerminator c = true)
      (hclosers : RunsTo isUnspacedTail text stop place.after b)
      (hmore : ∃ k d, b ≤ k ∧ k < stop ∧ text[k]? = some d ∧ Text.isGap d = false)

theorem takeWhile_length_spec (p : Char → Bool) (l : Text) :
    (∀ k < (l.takeWhile p).length, ∃ c, l[k]? = some c ∧ p c = true) ∧
      ((l.takeWhile p).length = l.length ∨ ∃ c, l[(l.takeWhile p).length]? = some c ∧ p c = false) := by
  induction l with
  | nil => simp
  | cons c rest ih =>
    by_cases hc : p c = true
    · rw [List.takeWhile_cons_of_pos hc]
      refine ⟨fun k hk => ?_, ?_⟩
      · cases k with
        | zero => exact ⟨c, rfl, hc⟩
        | succ k => simpa using ih.1 k (by simpa using hk)
      · simpa using ih.2
    · rw [List.takeWhile_cons_of_neg hc]
      exact ⟨by simp, .inr ⟨c, rfl, by simpa using hc⟩⟩

theorem isWordAt_wordBefore {floor index : Nat} (hfloor : floor ≤ index) (hindex : index < text.length) :
    IsWordAt text floor index (wordBefore text index floor) := by
  -- the characters from `floor` up to `index`, from the last one on
  have hlength : ((text.take index).drop floor).length = index - floor := by
    simp only [List.length_drop, List.length_take]
    omega
  have hget (k : Nat) (hk : k < index - floor) :
      ((text.take index).drop floor).reverse[k]? = text[index - 1 - k]? := by
    rw [List.getElem?_reverse (by omega), hlength, List.getElem?_drop, List.getElem?_take_of_lt (by omega)]
    congr 1
    omega
  obtain ⟨hrun, hends⟩ := takeWhile_length_spec (fun c => !Text.isGap c) ((text.take index).drop floor).reverse
  have hle := (List.takeWhile_sublist (fun c => !Text.isGap c) (l := ((text.take index).drop floor).reverse)).length_le
  rw [List.length_reverse, hlength] at hends hle
  unfold wordBefore
  dsimp only
  rw [Int.toNat_natCast]
  generalize (((text.take index).drop floor).reverse.takeWhile fun c => !Text.isGap c).length = n at hrun hends hle ⊢
  refine ⟨index - n, by omega, by omega, fun k hk hk' => ?_, ?_, ?_⟩
  · obtain ⟨c, hc, hgap⟩ := hrun (index - 1 - k) (by omega)
    rw [hget _ (by omega), show index - 1 - (index - 1 - k) = k by omega] at hc
    exact ⟨c, hc, by simpa using hgap⟩
  · rcases hends with hall | ⟨c, hc, hgap⟩
    · exact .inl (by omega)
    · by_cases hfull : n = index - floor
      · exact .inl (by omega)
      · rw [hget n (by omega), show index - 1 - n = index - n - 1 by omega] at hc
        exact .inr ⟨by omega, c, hc, by simpa using hgap⟩
  · rw [if_neg (by omega), show (index : Int) - n = ((index - n : Nat) : Int) by omega,
      show (index : Int) + 1 = ((index + 1 : Nat) : Int) by omega, Text.sliceSigned_natCast (by omega)]

/-- There is only one word that ends at an offset. -/
theorem IsWordAt.unique {floor : Int} {index : Nat} {word other : Text} (h : IsWordAt text floor index word)
    (ho : IsWordAt text floor index other) : word = other := by
  obtain ⟨a, hfa, hai, hruna, hendsa, rfl⟩ := h
  obtain ⟨b, hfb, hbi, hrunb, hendsb, rfl⟩ := ho
  -- the word that reaches less far back would go on
  have hnot {a b : Nat} (hfb : floor ≤ b) (hai : a ≤ index)
      (hendsa : floor = a ∨ 0 < a ∧ ∃ c, text[a - 1]? = some c ∧ Text.isGap c = true)
      (hrunb : ∀ k, b ≤ k → k < index → ∃ c, text[k]? = some c ∧ Text.isGap c = false) : ¬b < a := by
    intro hlt
    rcases hendsa with hfloor | ⟨hpos, c, hc, hgap⟩
    · omega
    · obtain ⟨d, hd, hno⟩ := hrunb (a - 1) (by omega) (by omega)
      rw [hc, Option.some.injEq] at hd
      rw [← hd, hgap] at hno
      cases hno
  have := hnot hfb hai hendsa hrunb
  have := hnot hfa hbi hendsb hruna
  rw [show a = b by omega]

/-- On a word without gaps that ends with a full stop, or on none, it makes no
difference whether an abbreviation ends a text or is the text. -/
theorem endsText_eq_contains (set : Abbreviations) {word : Text} (hgap : ∀ c ∈ word, Text.isGap c = false)
    (hlast : word ≠ [] → word.getLast? = some '.') : set.endsText word = set.contains word := by
  by_cases hnil : word = []
  · subst hnil
    rfl
  · have hkept : Text.dropEndWhile Text.isGap word = word := by
      obtain ⟨front, rfl⟩ := List.getLast?_eq_some_iff.mp (hlast hnil)
      simp [Text.dropEndWhile, Text.isGap]
    have hfinal : finalWord word = word := by
      rw [finalWord, hkept, List.takeWhile_eq_self_iff.mpr, List.reverse_reverse]
      exact fun c hc => by simpa using hgap c (List.mem_reverse.mp hc)
    rw [Abbreviations.endsText, hfinal, hlast hnil]
    rfl

theorem endsText_wordBefore (set : Abbreviations) {floor index : Nat} (hfloor : floor ≤ index)
    (hget : text[index]? = some '.') :
    set.endsText (wordBefore text index floor) = true ↔
      ∃ word, IsWordAt text floor index word ∧ set.contains word = true := by
  obtain ⟨hindex, -⟩ := List.getElem?_eq_some_iff.mp hget
  have hword := isWordAt_wordBefore hfloor hindex
  have hsame : set.endsText (wordBefore text index floor) = set.contains (wordBefore text index floor) := by
    obtain ⟨start, -, hstart, hrun, -, heq⟩ := hword
    obtain ⟨before, hsuffix⟩ := heq ▸ List.dropWhile_suffix (l := Text.slice text start (index + 1)) _
    refine endsText_eq_contains set (fun c hc => ?_) fun hne => ?_
    · obtain ⟨k, hk, hk', hgetk⟩ := mem_slice (hsuffix ▸ List.mem_append_right before hc)
      rcases Nat.lt_or_eq_of_le (Nat.le_of_lt_succ hk') with hlt | rfl
      · obtain ⟨d, hd, hgap⟩ := hrun k hk hlt
        rw [hgetk, Option.some.injEq] at hd
        exact hd ▸ hgap
      · rw [hget, Option.some.injEq] at hgetk
        exact hgetk ▸ rfl
    · rw [← List.getLast?_append_of_ne_nil before hne, hsuffix, Text.slice,
        show index + 1 - start = index - start + 1 by omega, List.take_add_one, List.getElem?_drop,
        show start + (index - start) = index by omega, hget]
      simp
  rw [hsame]
  refine ⟨fun h => ⟨_, hword, h⟩, ?_⟩
  rintro ⟨word, hother, h⟩
  rwa [hword.unique hother]

theorem RunsTo.lt_iff {p : Char → Bool} {i b : Nat} (h : RunsTo p text stop i b) :
    i < b ↔ i < stop ∧ ∃ c, text[i]? = some c ∧ p c = true := by
  constructor
  · intro hlt
    exact ⟨Nat.lt_of_lt_of_le hlt h.le_stop, h.run i (Nat.le_refl _) hlt⟩
  · rintro ⟨hstop, c, hc, hp⟩
    refine Nat.lt_of_le_of_ne h.le ?_
    rintro rfl
    rcases h.ends with heq | ⟨d, hd, hp'⟩
    · omega
    · rw [hc, Option.some.injEq] at hd
      rw [hd, hp'] at hp
      cases hp

/-- The floor of a candidate is an offset no later than the candidate. -/
theorem exists_floor {pos : Nat} {place : Candidate} (h : CandidateAt spans start stop pos place) :
    ∃ floor : Nat, place.floor = floor ∧ floor ≤ place.index := by
  cases h with
  | outside i hstart => exact ⟨start, rfl, hstart⟩
  | emphasis span hmem hkind hcontent => exact ⟨span.contentStart, rfl, Nat.le_sub_one_of_lt hcontent⟩

theorem endsAt_of_spacedBoundary? {c : Char} {place : Candidate} {floor b : Nat} (hstop : stop ≤ text.length)
    (hafter : place.after ≤ stop) (hfloor : place.floor = floor) (hle : floor ≤ place.index)
    (hc : text[place.index]? = some c) (hends : isTerminator c = true)
    (h : spacedBoundary? set text stop c place = some b) : EndsAt set text stop place b := by
  unfold spacedBoundary? at h
  dsimp only at h
  split at h
  · rename_i hcond
    obtain rfl := Option.some.inj h
    obtain ⟨hgap, hfirst, hopens, hword⟩ := hcond
    have hquotes := runsTo_runEnd mayCloseQuote hafter hstop
    have hgaps := runsTo_runEnd Text.isGap hquotes.le_stop hstop
    have hopening := runsTo_runEnd (fun c => mayOpenQuote c || isLeadingMarker c) hgaps.le_stop hstop
    obtain ⟨hlt, gap, hget, hisGap⟩ := hgaps.lt_iff.mp hgap
    obtain ⟨first, hnext, hopens⟩ : ∃ first, text[runEnd (fun c => mayOpenQuote c || isLeadingMarker c) text stop
        (runEnd Text.isGap text stop (runEnd mayCloseQuote text stop place.after))]? = some first ∧
        opensSentence first = true := by
      simpa [Option.getD_eq_iff] using hopens
    refine .spaced c gap first _ _ hc hends hquotes ⟨hlt, hget, hisGap⟩ hgaps hopening ⟨hfirst, hnext, hopens⟩ ?_
    rintro ⟨rfl, habbreviation⟩
    rw [hfloor] at hword habbreviation
    exact hword ⟨rfl, (endsText_wordBefore set hle hc).mpr habbreviation⟩
  · cases h

theorem spacedBoundary?_eq_some {c gap first : Char} {place : Candidate} {floor b gapEnd next : Nat}
    (hstop : stop ≤ text.length) (hafter : place.after ≤ stop) (hfloor : place.floor = floor)
    (hle : floor ≤ place.index) (hc : text[place.index]? = some c)
    (hquotes : RunsTo mayCloseQuote text stop place.after b)
    (hgap : b < stop ∧ text[b]? = some gap ∧ Text.isGap gap = true) (hgaps : RunsTo Text.isGap text stop b gapEnd)
    (hopening : RunsTo (fun c => mayOpenQuote c || isLeadingMarker c) text stop gapEnd next)
    (hnext : next < stop ∧ text[next]? = some first ∧ opensSentence first = true)
    (hword : ¬(c = '.' ∧ ∃ word, IsWordAt text place.floor place.index word ∧ set.contains word = true)) :
    spacedBoundary? set text stop c place = some b := by
  have hlt := hgaps.lt_iff.mpr ⟨hgap.1, gap, hgap.2⟩
  obtain rfl := (runsTo_iff hafter hstop).mp hquotes
  obtain rfl := (runsTo_iff hquotes.le_stop hstop).mp hgaps
  obtain rfl := (runsTo_iff hgaps.le_stop hstop).mp hopening
  unfold spacedBoundary?
  refine if_pos ⟨hlt, hnext.1, by simp [hnext.2.1, hnext.2.2], ?_⟩
  rintro ⟨rfl, hends⟩
  rw [hfloor] at hword hends
  exact hword ⟨rfl, (endsText_wordBefore set hle hc).mp hends⟩

theorem unspacedFinding_boundary_iff {after b : Nat} (hstop : stop ≤ text.length) (hafter : after ≤ stop) :
    (unspacedFinding text stop after).boundary = some b ↔
      RunsTo isUnspacedTail text stop after b ∧
        ∃ k d, b ≤ k ∧ k < stop ∧ text[k]? = some d ∧ Text.isGap d = false := by
  have hclosers := runsTo_runEnd isUnspacedTail hafter hstop
  have hgaps := runsTo_runEnd Text.isGap hclosers.le_stop hstop
  show (if runEnd Text.isGap text stop (runEnd isUnspacedTail text stop after) < stop then
    some (runEnd isUnspacedTail text stop after) else none) = some b ↔ _
  constructor
  · intro h
    split at h
    · rename_i hlt
      obtain rfl := Option.some.inj h
      rcases hgaps.ends with heq | ⟨d, hd, hno⟩
      · omega
      · exact ⟨hclosers, _, d, hgaps.le, hlt, hd, hno⟩
    · cases h
  · rintro ⟨hrun, k, d, hbk, hk, hd, hno⟩
    obtain rfl := (runsTo_iff hafter hstop).mp hrun
    refine if_pos (Nat.lt_of_le_of_lt ?_ hk)
    -- the gaps end at the latest where something else stands
    by_contra hpast
    obtain ⟨e, he, hgap⟩ := hgaps.run k hbk (by omega)
    rw [hd, Option.some.injEq] at he
    rw [← he, hno] at hgap
    cases hgap

/-- A candidate yields the boundaries at which it ends a sentence. -/
theorem boundary?_eq_some_iff (hspans : Span.Apart text stop spans) (hstop : stop ≤ text.length) {pos b : Nat}
    {place : Candidate} (hplace : CandidateAt spans start stop pos place) :
    boundary? set text stop place = some b ↔ EndsAt set text stop place b := by
  have hafter := (lt_after hspans hplace).2
  obtain ⟨floor, hfloor, hle⟩ := exists_floor hplace
  constructor
  · intro h
    obtain ⟨c, hc, hb⟩ := Option.bind_eq_some_iff.mp h
    unfold judge at hb
    split at hb
    · exact endsAt_of_spacedBoundary? hstop hafter hfloor hle hc ‹_› hb
    · split at hb
      · obtain ⟨hclosers, hmore⟩ := (unspacedFinding_boundary_iff hstop hafter).mp hb
        exact .unspaced c hc ‹_› hclosers hmore
      · cases hb
  · intro h
    refine Option.bind_eq_some_iff.mpr ?_
    cases h with
    | spaced c gap first gapEnd next hc hends hquotes hgap hgaps hopening hnext hword =>
      refine ⟨c, hc, ?_⟩
      rw [judge, if_pos hends]
      exact spacedBoundary?_eq_some hstop hafter hfloor hle hc hquotes hgap hgaps hopening hnext hword
    | unspaced c hc hends hclosers hmore =>
      have hspaced : isTerminator c = false :=
        not_isTerminator_of_isUnspacedTail (by simp [isUnspacedTail, hends])
      refine ⟨c, hc, ?_⟩
      rw [judge, if_neg (by simp [hspaced]), if_pos hends]
      exact (unspacedFinding_boundary_iff hstop hafter).mpr ⟨hclosers, hmore⟩

end Sentence

/-! ## Sentences of a text -/

namespace Forest

variable {text : Text}

theorem mem_flatten_trans {forest : Forest} {tree other : Span × Forest} (ht : tree ∈ forest.flatten)
    (ho : other ∈ tree.2.flatten) : other ∈ forest.flatten := by
  induction forest with
  | nil => cases ht
  | cons span children rest ihchildren ihrest =>
    rcases List.mem_cons.mp ht with rfl | ht
    · exact List.mem_cons_of_mem _ (List.mem_append_left _ ho)
    · rcases List.mem_append.mp ht with ht | ht
      · exact List.mem_cons_of_mem _ (List.mem_append_left _ (ihchildren ht))
      · exact List.mem_cons_of_mem _ (List.mem_append_right _ (ihrest ht))

theorem opened_of_mem_roots {forest : Forest} (hsub : ∀ tree ∈ forest.flatten, tree ∈ (ofText text).flatten)
    {root : Span} (h : root ∈ forest.roots) :
    (root.start < root.stop ∧ root.stop ≤ text.length) ∧ root.Edged text := by
  obtain ⟨children, ht⟩ := exists_mem_trees h
  have hspan := mem_spans_of_mem_flatten (hsub _ (mem_flatten_of_mem_trees ht))
  have hproper := (Span.proper_of_mem_spans hspan).1
  exact ⟨⟨hproper.start_lt, hproper.stop_le⟩, Span.edged_of_mem_spans hspan⟩

/-- The outermost spans of a text stand apart. -/
theorem apart_roots (text : Text) : Span.Apart text text.length (ofText text).roots where
  pairwise := (nested_ofText text).pairwise_roots.imp And.right
  proper _ hs := (opened_of_mem_roots (fun _ => id) hs).1
  opened _ hs := (opened_of_mem_roots (fun _ => id) hs).2.opened

/-- What emphasis encloses stands apart, inside its content. -/
theorem apart_children {tree : Span × Forest} (ht : tree ∈ (ofText text).flatten) :
    Span.Apart text tree.1.contentStop tree.2.roots ∧ ∀ child ∈ tree.2.roots, tree.1.contentStart ≤ child.start := by
  obtain ⟨hnested, hinside⟩ := (nested_ofText text).of_mem_flatten ht
  have hopened {child : Span} (hc : child ∈ tree.2.roots) :=
    opened_of_mem_roots (fun _ ho => mem_flatten_trans ht ho) hc
  exact ⟨⟨hnested.pairwise_roots.imp And.right, fun child hc => ⟨(hopened hc).1.1, (hinside child hc).stop_le⟩,
    fun child hc => (hopened hc).2.opened⟩, fun child hc => (hinside child hc).le_start⟩

end Forest

namespace Sentence

/-- The sentence ends of a text are in increasing order, and they are the
offsets at which some candidate of the text, a character outside all spans or
the last one of the content of emphasis, ends a sentence. -/
theorem boundaries_are_sentence_ends (set : Abbreviations) (text : Text) :
    (boundariesOf set text).Pairwise (· < ·) ∧
      ∀ b, b ∈ boundariesOf set text ↔
        ∃ pos place, CandidateAt (Forest.ofText text).roots 0 text.length pos place ∧
          EndsAt set text text.length place b := by
  refine ⟨pairwise_boundaries .., fun b => ?_⟩
  have hspans := Forest.apart_roots text
  rw [boundariesOf, show (0 : Int) = ((0 : Nat) : Int) from rfl,
    mem_boundaries_iff hspans (fun _ _ => Nat.zero_le _) (Nat.le_refl _)]
  refine exists_congr fun pos => exists_congr fun place => and_congr_right fun hplace => ?_
  exact boundary?_eq_some_iff hspans (Nat.le_refl _) hplace

end Sentence

end ProseWrap
