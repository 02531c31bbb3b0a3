import Mathlib.Logic.Function.Iterate
import ProseWrap.Proofs.CodePairs

/-!
# Active characters

Which characters of a text are active is told by a reading of the text from
left to right, which passes over code spans and escapes (`Span.nextRead`):
those outside all code spans that belong to no escape met on the way
(`Span.isActive`). The reading never stops inside a code span or behind the
backslash of an escape (`Span.Free`), since no code span begins with an escaped
backtick and all end with a backtick. So the pass over a text, which drops code
spans as it goes and skips what belongs to an escape, comes to just the active
characters (`Span.active_eq_activeChars`).
-/

namespace ProseWrap

/-! ## Escapes -/

namespace Text

variable {text : Text} {i : Nat}

theorem isEscaped_of_startsEscape (hfree : text.isEscaped i = false)
    (hstarts : startsEscape (text.drop i) = true) : text.isEscaped (i + 1) = true := by
  unfold startsEscape at hstarts
  split at hstarts
  · rename_i d more hrest
    have hget := getElem?_of_drop_eq_cons hrest
    have hnext := getElem?_of_drop_eq_cons (drop_add_one hrest)
    have heven := even_of_isEscaped hfree hget
    rw [isEscaped, hnext, Option.map_some, Option.getD_some, hstarts, slashesBefore_add_one hget, if_pos rfl,
      Bool.true_and, beq_iff_eq]
    omega
  · cases hstarts

theorem isEscaped_behind_escape (hfree : text.isEscaped i = false)
    (hstarts : startsEscape (text.drop i) = true) : text.isEscaped (i + 2) = false := by
  cases hrest : text.drop i with
  | nil =>
    rw [hrest] at hstarts
    cases hstarts
  | cons c rest => exact isEscaped_skip hrest hfree (hrest ▸ hstarts)

theorem isEscaped_of_not_startsEscape (hstarts : startsEscape (text.drop i) = false) :
    text.isEscaped (i + 1) = false := by
  cases hrest : text.drop i with
  | nil =>
    have hend := List.drop_eq_nil_iff.mp hrest
    refine isEscaped_eq_false.mpr fun c hc => ?_
    obtain ⟨hlt, -⟩ := List.getElem?_eq_some_iff.mp hc
    omega
  | cons c rest => exact isEscaped_step hrest (hrest ▸ hstarts)

end Text

namespace Span

variable {text : Text} {code : Span}

/-! ## Code spans -/

/-- The code spans found among some runs start with those runs, from position
`resume` on, and come one after the other. -/
theorem pairwise_matchTicks {queues : TickQueues} {resume : Nat} {entries all : List (Nat × TickRun)}
    (hsorted : entries.Pairwise fun a b => a.1 < b.1) (hall : ∀ entry ∈ entries, entry ∈ all)
    (horder : ∀ a ∈ all, ∀ b ∈ all, a.1 < b.1 → a.2.stop ≤ b.2.start) (hq : queues.Within all) :
    (∀ span ∈ matchTicks queues resume entries, ∃ entry ∈ entries, resume ≤ entry.1 ∧ entry.2.start ≤ span.start) ∧
      (matchTicks queues resume entries).Pairwise fun a b => a.stop ≤ b.start := by
  have hcons {resume : Nat} {spans : List Span} {first : Nat × TickRun} {rest : List (Nat × TickRun)}
      (h : ∀ span ∈ spans, ∃ entry ∈ rest, resume ≤ entry.1 ∧ entry.2.start ≤ span.start) :
      ∀ span ∈ spans, ∃ entry ∈ first :: rest, resume ≤ entry.1 ∧ entry.2.start ≤ span.start := by
    intro span hs
    obtain ⟨entry, he, hentry⟩ := h span hs
    exact ⟨entry, List.mem_cons_of_mem _ he, hentry⟩
  fun_induction matchTicks queues resume entries with
  | case1 => simp
  | case2 queues resume k run rest _ ih =>
    obtain ⟨hmem, hpair⟩ := ih (List.pairwise_cons.mp hsorted).2 (fun e he => hall e (List.mem_cons_of_mem _ he)) hq
    exact ⟨hcons hmem, hpair⟩
  | case3 queues resume k run rest _ _ ih =>
    obtain ⟨hmem, hpair⟩ := ih (List.pairwise_cons.mp hsorted).2 (fun e he => hall e (List.mem_cons_of_mem _ he)) hq
    exact ⟨hcons hmem, hpair⟩
  | case4 queues resume k run rest _ _ queue hnil ih =>
    obtain ⟨hmem, hpair⟩ := ih (List.pairwise_cons.mp hsorted).2 (fun e he => hall e (List.mem_cons_of_mem _ he))
      (hq.set (by simp [hnil]))
    exact ⟨hcons hmem, hpair⟩
  | case5 queues resume k run rest hresume hlength queue j closer tail hqueue ih =>
    obtain ⟨hlater, hsorted⟩ := List.pairwise_cons.mp hsorted
    have hwithin : ∀ e ∈ queue, e ∈ all := fun e he => hq _ e ((List.dropWhile_sublist _).subset he)
    have hrest : ∀ e ∈ rest, e ∈ all := fun e he => hall e (List.mem_cons_of_mem _ he)
    obtain ⟨hmem, hpair⟩ := ih hsorted hrest (hq.set hwithin)
    refine ⟨List.forall_mem_cons.mpr ⟨⟨(k, run), List.mem_cons_self, by simpa using hresume, ?_⟩, fun span hs => ?_⟩,
      List.pairwise_cons.mpr ⟨fun span hs => ?_, hpair⟩⟩
    · exact (TickRun.openerStart_add_openerLength (Nat.pos_of_ne_zero hlength)).1
    · obtain ⟨entry, he, hentry, hstart⟩ := hmem span hs
      have hlt := hlater entry he
      exact ⟨entry, List.mem_cons_of_mem _ he, by simp only at hlt; omega, hstart⟩
    · obtain ⟨entry, he, hentry, hstart⟩ := hmem span hs
      exact Nat.le_trans (horder (j, closer) (hwithin _ (hqueue ▸ List.mem_cons_self)) entry (hrest _ he) hentry) hstart

theorem pairwise_numbered (k : Nat) (runs : List TickRun) : (numbered k runs).Pairwise fun a b => a.1 < b.1 := by
  induction runs generalizing k with
  | nil => exact .nil
  | cons run rest ih =>
    rw [numbered_cons]
    exact List.pairwise_cons.mpr ⟨fun entry he => le_of_mem_numbered he, ih (k + 1)⟩

theorem getElem?_of_mem_numbered {runs : List TickRun} {entry : Nat × TickRun} (h : entry ∈ numbered 0 runs) :
    runs[entry.1]? = some entry.2 := by
  obtain ⟨⟨run, k⟩, hmem, rfl⟩ := List.mem_map.mp h
  exact List.mem_zipIdx_iff_getElem?.mp hmem

/-- The code spans of a text come one after the other. -/
theorem pairwise_codeSpans (text : Text) : (codeSpans text).Pairwise fun a b => a.stop ≤ b.start := by
  refine (pairwise_matchTicks (pairwise_numbered 0 _) (fun _ he => he) (fun a ha b hb hlt => ?_)
    (TickQueues.within_ofRuns _)).2
  obtain ⟨hka, hra⟩ := List.getElem?_eq_some_iff.mp (getElem?_of_mem_numbered ha)
  obtain ⟨hkb, hrb⟩ := List.getElem?_eq_some_iff.mp (getElem?_of_mem_numbered hb)
  rw [← hra, ← hrb]
  exact List.pairwise_iff_getElem.mp (TickRun.pairwise_runs text) _ _ hka hkb hlt

theorem disjoint_of_mem_codeSpans {other : Span} (h : code ∈ codeSpans text) (ho : other ∈ codeSpans text) :
    code = other ∨ code.stop ≤ other.start ∨ other.stop ≤ code.start := by
  obtain ⟨m, hm, rfl⟩ := List.getElem_of_mem h
  obtain ⟨n, hn, rfl⟩ := List.getElem_of_mem ho
  have hpair := List.pairwise_iff_getElem.mp (pairwise_codeSpans text)
  rcases Nat.lt_trichotomy m n with hlt | rfl | hlt
  · exact .inr (.inl (hpair m n hm hn hlt))
  · exact .inl rfl
  · exact .inr (.inr (hpair n m hn hm hlt))

theorem start_lt_stop_of_mem_codeSpans (h : code ∈ codeSpans text) : code.start < code.stop :=
  (isLeaf_of_mem_codeSpans h).proper.start_lt

/-- Whether a run is escaped is told by the backslashes before it. -/
theorem escaped_of_mem_runs {run : TickRun} (h : run ∈ TickRun.runs text) :
    run.escaped = (text.slashesBefore run.start % 2 == 1) := by
  rw [TickRun.runs_eq_maximal, TickRun.maximal] at h
  obtain ⟨i, -, hbegins⟩ := List.mem_filterMap.mp h
  unfold TickRun.beginning? at hbegins
  split at hbegins
  · cases hbegins
    rfl
  · cases hbegins

/-- No code span begins with an escaped backtick. -/
theorem isEscaped_start_of_mem_codeSpans (h : code ∈ codeSpans text) : text.isEscaped code.start = false := by
  obtain ⟨opener, hopener, closer, -, -, hlength, rfl⟩ := exists_runs_of_mem_codeSpans h
  have hescaped := escaped_of_mem_runs hopener
  rw [codeBetween, TickRun.openerStart]
  unfold TickRun.openerLength at hlength
  split
  · rename_i he
    rw [if_pos he] at hlength
    have htick := TickRun.ticks_of_mem_runs hopener opener.start (Nat.le_refl _) (by rw [TickRun.stop]; omega)
    exact Text.isEscaped_behind htick (by decide)
  · rename_i he
    refine Text.isEscaped_of_even ?_
    simp only [Bool.not_eq_true] at he
    rw [he] at hescaped
    simpa using hescaped.symm

/-- Behind a code span nothing is escaped, since it ends with a backtick. -/
theorem isEscaped_stop_of_mem_codeSpans (h : code ∈ codeSpans text) : text.isEscaped code.stop = false := by
  obtain ⟨opener, -, closer, hcloser, -, -, rfl⟩ := exists_runs_of_mem_codeSpans h
  have hbehind := Text.isEscaped_behind (TickRun.last_of_mem_runs hcloser) (by decide)
  have hlt := TickRun.start_lt_stop_of_mem_runs hcloser
  rwa [Nat.sub_add_cancel (Nat.one_le_of_lt hlt)] at hbehind

/-! ## Reading from left to right -/

/-- Where a reading from left to right goes on from an offset: behind the code
span that starts there, behind the escape that starts there, or at the next
character. -/
def nextRead (text : Text) (i : Nat) : Nat :=
  match (codeSpans text).find? fun code => code.start == i with
  | some code => code.stop
  | none => if Text.startsEscape (text.drop i) then i + 2 else i + 1

/-- Whether a reading from left to right stops at an offset. -/
def isRead (text : Text) (i : Nat) : Bool := (List.range (i + 1)).any fun n => (nextRead text)^[n] 0 == i

/-- Whether a reading from left to right meets an escape at an offset. -/
def meetsEscape (text : Text) (i : Nat) : Bool := isRead text i && Text.startsEscape (text.drop i)

/-- What a step of the reading does. -/
theorem nextRead_cases (text : Text) (i : Nat) :
    (∃ code ∈ codeSpans text, code.start = i ∧ nextRead text i = code.stop) ∨
      (∀ code ∈ codeSpans text, code.start ≠ i) ∧
        nextRead text i = if Text.startsEscape (text.drop i) then i + 2 else i + 1 := by
  unfold nextRead
  split
  · rename_i code hfind
    exact .inl ⟨code, List.mem_of_find?_eq_some hfind, by simpa using List.find?_some hfind, rfl⟩
  · rename_i hfind
    exact .inr ⟨by simpa using List.find?_eq_none.mp hfind, rfl⟩

theorem lt_nextRead (text : Text) (i : Nat) : i < nextRead text i := by
  rcases nextRead_cases text i with ⟨code, hcode, hstart, hnext⟩ | ⟨-, hnext⟩
  · have hlt := start_lt_stop_of_mem_codeSpans hcode
    omega
  · rw [hnext]
    split <;> omega

theorem le_iterate_nextRead (text : Text) (n : Nat) : n ≤ (nextRead text)^[n] 0 := by
  induction n with
  | zero => exact Nat.zero_le _
  | succ n ih =>
    rw [Function.iterate_succ_apply']
    exact Nat.lt_of_le_of_lt ih (lt_nextRead text _)

theorem isRead_iff {i : Nat} : isRead text i = true ↔ ∃ n, (nextRead text)^[n] 0 = i := by
  rw [isRead, List.any_eq_true]
  constructor
  · rintro ⟨n, -, hn⟩
    exact ⟨n, by simpa using hn⟩
  · rintro ⟨n, rfl⟩
    exact ⟨n, List.mem_range.mpr (Nat.lt_succ_of_le (le_iterate_nextRead text n)), beq_self_eq_true _⟩

theorem isRead_zero (text : Text) : isRead text 0 = true := isRead_iff.mpr ⟨0, rfl⟩

theorem isRead_nextRead {i : Nat} (h : isRead text i = true) : isRead text (nextRead text i) = true := by
  obtain ⟨n, rfl⟩ := isRead_iff.mp h
  exact isRead_iff.mpr ⟨n + 1, Function.iterate_succ_apply' _ _ _⟩

/-- No escape and no code span goes on at an offset. -/
structure Free (text : Text) (i : Nat) : Prop where
  isEscaped : text.isEscaped i = false
  outside : ∀ code ∈ codeSpans text, ¬(code.start < i ∧ i < code.stop)

theorem free_zero (text : Text) : Free text 0 := ⟨Text.isEscaped_zero text, by omega⟩

/-- A step of the reading leads out of the code span or the escape that it
passes over, and into no other. -/
theorem Free.nextRead {i : Nat} (h : Free text i) : Free text (nextRead text i) := by
  rcases nextRead_cases text i with ⟨code, hcode, rfl, hnext⟩ | ⟨hnone, hnext⟩
  · rw [hnext]
    refine ⟨isEscaped_stop_of_mem_codeSpans hcode, fun other ho hinside => ?_⟩
    have hlt := start_lt_stop_of_mem_codeSpans hcode
    rcases disjoint_of_mem_codeSpans hcode ho with rfl | hle | hle <;> omega
  · have hpassed : ∀ code ∈ codeSpans text, code.start ≤ i → code.stop ≤ i := by
      intro code hcode hle
      have hout := h.outside code hcode
      have hne := hnone code hcode
      omega
    rw [hnext]
    split
    · rename_i hstarts
      have hescaped := Text.isEscaped_of_startsEscape h.isEscaped hstarts
      refine ⟨Text.isEscaped_behind_escape h.isEscaped hstarts, fun code hcode hinside => ?_⟩
      -- a code span that started in the middle of the escape would start with
      -- an escaped character
      have hne : code.start ≠ i + 1 := by
        intro hstart
        rw [← hstart, isEscaped_start_of_mem_codeSpans hcode] at hescaped
        cases hescaped
      have hpast := hpassed code hcode
      omega
    · rename_i hstarts
      refine ⟨Text.isEscaped_of_not_startsEscape (by simpa using hstarts), fun code hcode hinside => ?_⟩
      have hpast := hpassed code hcode
      omega

theorem free_of_isRead {i : Nat} (h : isRead text i = true) : Free text i := by
  obtain ⟨n, rfl⟩ := isRead_iff.mp h
  induction n with
  | zero => exact free_zero text
  | succ n ih =>
    rw [Function.iterate_succ_apply']
    exact (ih (isRead_iff.mpr ⟨n, rfl⟩)).nextRead

/-! ## Active characters -/

/-- Whether an offset is active: outside every code span, and neither at the
backslash nor at the second character of an escape that a reading from left to
right meets. -/
def isActive (text : Text) (i : Nat) : Bool :=
  (codeSpans text).all (fun code => !(code.start ≤ i && i < code.stop)) &&
    !meetsEscape text i && !(0 < i && meetsEscape text (i - 1))

/-- The active characters among the `n` characters from offset `i` on, with
their offsets. -/
def activeChars (text : Text) (i n : Nat) : List (Nat × Char) :=
  (List.range' i n).filterMap fun k => if isActive text k then text[k]?.map (Prod.mk k) else none

theorem activeChars_of_inactive {i : Nat} (h : isActive text i = false) (n : Nat) :
    activeChars text i (n + 1) = activeChars text (i + 1) n := by
  rw [activeChars, List.range'_succ, List.filterMap_cons, h]
  rfl

theorem activeChars_of_active {i : Nat} {c : Char} (h : isActive text i = true) (hget : text[i]? = some c) (n : Nat) :
    activeChars text i (n + 1) = (i, c) :: activeChars text (i + 1) n := by
  rw [activeChars, List.range'_succ, List.filterMap_cons, h, hget]
  rfl

theorem isActive_eq_false_of_mem_codeSpans {i : Nat} (h : code ∈ codeSpans text) (hle : code.start ≤ i)
    (hlt : i < code.stop) : isActive text i = false := by
  have hall : (codeSpans text).all (fun code => !(code.start ≤ i && i < code.stop)) = false := by
    rw [List.all_eq_false]
    exact ⟨code, h, by simp [hle, hlt]⟩
  rw [isActive, hall]
  rfl

theorem isActive_eq_false_of_meetsEscape {i : Nat} (h : meetsEscape text i = true) :
    isActive text i = false ∧ isActive text (i + 1) = false := by
  simp [isActive, h]

theorem isActive_of_isRead {i : Nat} (h : isRead text i = true) (hnone : ∀ code ∈ codeSpans text, code.start ≠ i)
    (hstarts : Text.startsEscape (text.drop i) = false) : isActive text i = true := by
  have hfree := free_of_isRead h
  have hall : (codeSpans text).all (fun code => !(code.start ≤ i && i < code.stop)) = true := by
    rw [List.all_eq_true]
    intro code hcode
    have hout := hfree.outside code hcode
    have hne := hnone code hcode
    simp only [Bool.not_eq_true', Bool.and_eq_false_iff, decide_eq_false_iff_not]
    omega
  have hbefore : (0 < i && meetsEscape text (i - 1)) = false := by
    rw [Bool.and_eq_false_iff]
    by_cases hi : 0 < i
    · refine .inr (Bool.eq_false_iff.mpr fun hmeets => ?_)
      rw [meetsEscape, Bool.and_eq_true] at hmeets
      have hescaped := Text.isEscaped_of_startsEscape (free_of_isRead hmeets.1).isEscaped hmeets.2
      rw [Nat.sub_add_cancel hi, hfree.isEscaped] at hescaped
      cases hescaped
    · exact .inl (by simpa using hi)
  rw [isActive, hall, meetsEscape, hstarts, hbefore, Bool.and_false]
  rfl

/-- The code spans that are left when those before an offset are dropped have
one at this offset in front, if there is one. -/
theorem startingAt?_dropWhile {spans : List Span} (hproper : ∀ span ∈ spans, span.start < span.stop)
    (hpair : spans.Pairwise fun a b => a.stop ≤ b.start) (i : Nat) :
    startingAt? i (spans.dropWhile fun span => span.start < i) = spans.find? fun span => span.start == i := by
  induction spans with
  | nil => rfl
  | cons span rest ih =>
    obtain ⟨hspan, hrest⟩ := List.forall_mem_cons.mp hproper
    obtain ⟨hlater, hpair⟩ := List.pairwise_cons.mp hpair
    by_cases hlt : span.start < i
    · rw [List.dropWhile_cons_of_pos (by simpa using hlt), List.find?_cons_of_neg (by simp; omega), ih hrest hpair]
    · rw [List.dropWhile_cons_of_neg (by simpa using hlt), startingAt?, List.find?_cons]
      by_cases heq : span.start = i
      · rw [if_pos heq, beq_iff_eq.mpr heq]
      · have hnone : (rest.find? fun other => other.start == i) = none := by
          refine List.find?_eq_none.mpr fun other ho => ?_
          have hle := hlater other ho
          simp only [beq_iff_eq]
          omega
        rw [if_neg heq, beq_eq_false_iff_ne.mpr heq, hnone]

/-- The code spans in a list that do not start before an offset are those of
the text. -/
def LeftFrom (text : Text) (i : Nat) (codes : List Span) : Prop :=
  codes.dropWhile (fun code => code.start < i) = (codeSpans text).dropWhile fun code => code.start < i

theorem dropWhile_start_add_one (codes : List Span) (i : Nat) :
    (codes.dropWhile fun code => code.start < i).dropWhile (fun code => code.start < i + 1) =
      codes.dropWhile fun code => code.start < i + 1 := by
  refine dropWhile_dropWhile (fun code h => ?_) codes
  simp only [decide_eq_true_eq] at h ⊢
  omega

namespace LeftFrom

variable {codes : List Span} {i : Nat}

theorem next (h : LeftFrom text i codes) : LeftFrom text (i + 1) codes := by
  rw [LeftFrom, ← dropWhile_start_add_one codes, h, dropWhile_start_add_one]

theorem dropWhile (h : LeftFrom text i codes) :
    LeftFrom text (i + 1) (codes.dropWhile fun code => code.start < i) := by
  rw [LeftFrom, h, dropWhile_start_add_one]

theorem startingAt?_eq_find? (h : LeftFrom text i codes) :
    startingAt? i (codes.dropWhile fun code => code.start < i) =
      (codeSpans text).find? fun code => code.start == i := by
  rw [h]
  exact startingAt?_dropWhile (fun _ => start_lt_stop_of_mem_codeSpans) (pairwise_codeSpans text) i

end LeftFrom

/-- The pass over a text comes to its active characters. It goes on where the
reading from left to right stops, and what it skips before is not active. -/
theorem activeFrom_eq_activeChars (codes : List Span) (resume i : Nat) (rest : Text) (hrest : text.drop i = rest)
    (hcodes : LeftFrom text i codes) (hread : isRead text (max i resume) = true)
    (hskipped : ∀ k, i ≤ k → k < resume → isActive text k = false) :
    activeFrom codes resume i rest = activeChars text i rest.length := by
  fun_induction activeFrom codes resume i rest with
  | case1 => rfl
  | case2 codes resume i c rest hlt ih =>
    rw [ih (Text.drop_add_one hrest) hcodes.next (by rwa [Nat.max_eq_right (by omega)] at hread ⊢)
      fun k hk => hskipped k (by omega), List.length_cons, activeChars_of_inactive (hskipped i (Nat.le_refl _) hlt)]
  | case3 codes resume i c rest hlt codes' code hc ih =>
    rw [Nat.max_eq_left (by omega)] at hread
    obtain ⟨hmem, hstart⟩ := mem_of_startingAt? hc
    have hcode : code ∈ codeSpans text := List.mem_of_find?_eq_some (hcodes.startingAt?_eq_find? ▸ hc)
    have hstop := start_lt_stop_of_mem_codeSpans hcode
    have hreads : nextRead text i = code.stop := by rw [nextRead, ← hcodes.startingAt?_eq_find?, hc]
    have hinside (k : Nat) (hk : i ≤ k) (hk' : k < code.stop) : isActive text k = false :=
      isActive_eq_false_of_mem_codeSpans hcode (by omega) hk'
    rw [ih (Text.drop_add_one hrest) hcodes.dropWhile
      (by rw [Nat.max_eq_right (by omega), ← hreads]; exact isRead_nextRead hread) fun k hk => hinside k (by omega),
      List.length_cons, activeChars_of_inactive (hinside i (Nat.le_refl _) (by omega))]
  | case4 codes resume i c rest hlt codes' hc hstarts ih =>
    rw [Nat.max_eq_left (by omega)] at hread
    rw [← hrest] at hstarts
    have hreads : nextRead text i = i + 2 := by rw [nextRead, ← hcodes.startingAt?_eq_find?, hc, if_pos hstarts]
    obtain ⟨hslash, hsecond⟩ :=
      isActive_eq_false_of_meetsEscape (by rw [meetsEscape, hread, hstarts]; rfl : meetsEscape text i = true)
    rw [ih (Text.drop_add_one hrest) hcodes.dropWhile
      (by rw [Nat.max_eq_right (by omega), ← hreads]; exact isRead_nextRead hread)
      fun k hk hk' => by rwa [show k = i + 1 by omega], List.length_cons, activeChars_of_inactive hslash]
  | case5 codes resume i c rest hlt codes' hc hstarts ih =>
    rw [Nat.max_eq_left (by omega)] at hread
    rw [← hrest] at hstarts
    have hreads : nextRead text i = i + 1 := by rw [nextRead, ← hcodes.startingAt?_eq_find?, hc, if_neg hstarts]
    have hnone : ∀ code ∈ codeSpans text, code.start ≠ i := by
      simpa using List.find?_eq_none.mp ((hcodes.startingAt?_eq_find?).symm.trans hc)
    have hactive := isActive_of_isRead hread hnone (by simpa using hstarts)
    rw [ih (Text.drop_add_one hrest) hcodes.dropWhile
      (by rw [Nat.max_eq_left (by omega), ← hreads]; exact isRead_nextRead hread) fun k hk hk' => by omega,
      List.length_cons, activeChars_of_active hactive (Text.getElem?_of_drop_eq_cons hrest)]

theorem active_eq_activeChars (text : Text) : active (codeSpans text) text = activeChars text 0 text.length :=
  activeFrom_eq_activeChars _ 0 0 text rfl rfl (isRead_zero text) fun k _ hk => absurd hk (Nat.not_lt_zero k)

end Span

end ProseWrap
