import Mathlib.Data.List.DropRight
import ProseWrap.Proofs.Escapes

/-!
# Code spans without queues

The runs of backticks of a text are found in one pass, which carries the run
that may go on and the number of backslashes before it, and a closer is taken
from the queue of its length, which loses runs from its front only when it is
asked. `TickRun.maximal` and `Span.codeSpansPlainly` say the same without
these: the runs are read off the text at every offset, and each closer is
looked for from its opener on.

The queues are right because each one, once the runs up to the current one are
dropped, holds the later runs of its length (`Span.TickQueues.Serves`). Going
on to the next run keeps this, whether or not the queue was asked in between
(`Serves.next`, `Serves.set`), so that a queue that is out of date is right
again by the time it is asked.
-/

namespace ProseWrap

namespace TickRun

/-! ## The runs of a text -/

/-- Whether there is a backtick right before an offset. -/
def tickBefore (text : Text) (i : Nat) : Bool := 0 < i && text[i - 1]? == some tick

/-- How many backticks a text begins with. -/
def leading (text : Text) : Nat := (text.takeWhile (· == tick)).length

/-- The run that begins at an offset, if there is a backtick and none before
it: all the backticks from there on. -/
def beginning? (text : Text) (i : Nat) : Option TickRun :=
  if text[i]? = some tick ∧ tickBefore text i = false then
    some ⟨i, leading (text.drop i), text.slashesBefore i % 2 == 1⟩
  else none

/-- The maximal runs of backticks of a text. -/
def maximal (text : Text) : List TickRun := (List.range text.length).filterMap (beginning? text)

/-- The run that goes on for some more backticks. -/
def extend (run : TickRun) (count : Nat) : TickRun := { run with length := run.length + count }

theorem leading_cons (c : Char) (rest : Text) : leading (c :: rest) = if c = tick then leading rest + 1 else 0 := by
  by_cases hc : c = tick <;> simp [leading, hc]

theorem tickBefore_add_one {text : Text} {i : Nat} {c : Char} (h : text[i]? = some c) :
    tickBefore text (i + 1) = (c == tick) := by
  simp [tickBefore, h]

/-- From an offset on, the pass finds the rest of the run that goes on there,
and then the runs that begin later. -/
theorem collect_eq_beginnings {text : Text} (i slashes : Nat) (current : Option TickRun) (rest : Text)
    (hrest : text.drop i = rest) (hslashes : slashes = text.slashesBefore i)
    (hcurrent : current.isSome = tickBefore text i) :
    collect i slashes current rest =
      (current.map fun run => run.extend (leading rest)).toList ++
        (List.range' i rest.length).filterMap (beginning? text) := by
  fun_induction collect i slashes current rest with
  | case1 i slashes current => cases current <;> rfl
  | case2 i slashes current c rest hc run ih =>
    obtain rfl : c = tick := by simpa using hc
    have hget := Text.getElem?_of_drop_eq_cons hrest
    have hnext := Text.slashesBefore_add_one hget
    rw [if_neg (by decide)] at hnext
    rw [ih (Text.drop_add_one hrest) hnext.symm (tickBefore_add_one hget).symm, leading_cons, if_pos rfl,
      List.length_cons, List.range'_succ, List.filterMap_cons]
    -- a backtick begins a run if none goes on, and else belongs to the one
    -- that does
    cases current with
    | none =>
      have hbegins : beginning? text i = some (run.extend (leading rest)) := by
        rw [beginning?, if_pos ⟨hget, hcurrent.symm⟩, hrest, leading_cons, if_pos rfl, ← hslashes, Nat.add_comm]
        rfl
      rw [hbegins]
      rfl
    | some old =>
      have hbegins : beginning? text i = none := if_neg fun h => by simp [h.2] at hcurrent
      rw [hbegins]
      simp only [Option.map_some, Option.toList_some, extend, run, Nat.add_assoc, Nat.add_comm 1]
  | case3 i slashes current c rest hc ih =>
    have hget := Text.getElem?_of_drop_eq_cons hrest
    have hne : c ≠ tick := by simpa using hc
    have hbegins : beginning? text i = none := if_neg fun h => hne (Option.some.inj (hget.symm.trans h.1))
    have hnext := Text.slashesBefore_add_one hget
    rw [ih (Text.drop_add_one hrest) (by simp [hnext, hslashes]) (by simp [tickBefore_add_one hget, hne]), leading_cons,
      if_neg hne, List.length_cons, List.range'_succ, List.filterMap_cons, hbegins]
    cases current <;> rfl

/-- The pass finds the maximal runs of backticks. -/
theorem runs_eq_maximal (text : Text) : runs text = maximal text := by
  rw [runs, collect_eq_beginnings 0 0 none text rfl rfl rfl, maximal, List.range_eq_range']
  rfl

end TickRun

namespace Span

/-! ## Closers -/

/-- The code spans between runs, from left to right. A run that is escaped
loses its first backtick as an opener. What is left of it is closed by the
first later run of just as many backticks, and the search goes on after that; a
run of which nothing is left, or that nothing closes, is passed over. -/
def codesAmong : List TickRun → List Span
  | [] => []
  | run :: rest =>
    let lost := if run.escaped then 1 else 0
    if run.length - lost = 0 then codesAmong rest
    else
      match _h : rest.dropWhile fun closer => closer.length ≠ run.length - lost with
      | [] => codesAmong rest
      | closer :: later =>
        ⟨.code, run.start + lost, closer.start + closer.length, run.start + run.length, closer.start⟩
          :: codesAmong later
  termination_by runs => runs.length
  decreasing_by
    · simp
    · simp
    · have hle : (closer :: later).length ≤ rest.length := _h ▸ (List.dropWhile_sublist _).length_le
      rw [List.length_cons] at hle ⊢
      omega

/-- The code spans of a text, with every closer looked for from its opener
on. -/
def codeSpansPlainly (text : Text) : List Span := codesAmong (TickRun.maximal text)

theorem openerLength_eq (run : TickRun) : run.openerLength = run.length - if run.escaped then 1 else 0 := by
  unfold TickRun.openerLength
  split <;> rfl

theorem codeBetween_eq {run : TickRun} (h : run.openerLength ≠ 0) (closer : TickRun) :
    codeBetween run closer = ⟨.code, run.start + if run.escaped then 1 else 0, closer.start + closer.length,
      run.start + run.length, closer.start⟩ := by
  have hstop := (TickRun.openerStart_add_openerLength (Nat.pos_of_ne_zero h)).2
  rw [codeBetween, hstop, TickRun.openerStart]
  split <;> rfl

theorem codesAmong_of_zero {run : TickRun} (h : run.openerLength = 0) (rest : List TickRun) :
    codesAmong (run :: rest) = codesAmong rest := by
  rw [openerLength_eq] at h
  rw [codesAmong, if_pos h]

theorem codesAmong_of_none {run : TickRun} {rest : List TickRun} (h : run.openerLength ≠ 0)
    (hrest : rest.dropWhile (fun closer => closer.length ≠ run.openerLength) = []) :
    codesAmong (run :: rest) = codesAmong rest := by
  rw [openerLength_eq] at h hrest
  rw [codesAmong, if_neg h]
  split
  · rfl
  · rename_i heq
    cases hrest.symm.trans heq

theorem codesAmong_of_closer {run closer : TickRun} {rest later : List TickRun} (h : run.openerLength ≠ 0)
    (hrest : rest.dropWhile (fun closer => closer.length ≠ run.openerLength) = closer :: later) :
    codesAmong (run :: rest) = codeBetween run closer :: codesAmong later := by
  rw [codeBetween_eq h]
  rw [openerLength_eq] at h hrest
  rw [codesAmong, if_neg h]
  split
  · rename_i heq
    cases hrest.symm.trans heq
  · rename_i heq
    cases hrest.symm.trans heq
    rfl

/-! ## Queues -/

/-- What is dropped first may as well be dropped together with the rest. -/
theorem dropWhile_dropWhile {α : Type} {p q : α → Bool} (h : ∀ a, p a = true → q a = true) (l : List α) :
    (l.dropWhile p).dropWhile q = l.dropWhile q := by
  induction l with
  | nil => rfl
  | cons a rest ih =>
    by_cases hp : p a = true
    · rw [List.dropWhile_cons_of_pos hp, ih, List.dropWhile_cons_of_pos (h a hp)]
    · rw [List.dropWhile_cons_of_neg hp]

/-- Runs with their positions, the first of which is `k`. -/
def numbered (k : Nat) (runs : List TickRun) : List (Nat × TickRun) :=
  (runs.zipIdx k).map fun entry => (entry.2, entry.1)

theorem numbered_cons (k : Nat) (run : TickRun) (rest : List TickRun) :
    numbered k (run :: rest) = (k, run) :: numbered (k + 1) rest := rfl

theorem le_of_mem_numbered {k : Nat} {runs : List TickRun} {entry : Nat × TickRun} (h : entry ∈ numbered k runs) :
    k ≤ entry.1 := by
  obtain ⟨⟨run, j⟩, hmem, rfl⟩ := List.mem_map.mp h
  exact (List.mem_zipIdx hmem).1

/-- The runs of a length, in their order. -/
def ofLength (length : Nat) (entries : List (Nat × TickRun)) : List (Nat × TickRun) :=
  entries.filter fun entry => entry.2.length = length

/-- The first of the runs of a length is where the search for one ends. -/
theorem dropWhile_of_ofLength_numbered {k length j : Nat} {closer : TickRun} {runs : List TickRun}
    {others : List (Nat × TickRun)} (h : ofLength length (numbered k runs) = (j, closer) :: others) :
    k ≤ j ∧ runs.dropWhile (fun run => run.length ≠ length) = closer :: runs.drop (j - k + 1) := by
  induction runs generalizing k with
  | nil => cases h
  | cons run rest ih =>
    rw [numbered_cons, ofLength, List.filter_cons] at h
    by_cases hlength : run.length = length
    · rw [if_pos (by simpa using hlength)] at h
      cases h
      refine ⟨Nat.le_refl _, ?_⟩
      rw [List.dropWhile_cons_of_neg (by simpa using hlength), Nat.sub_self]
      rfl
    · rw [if_neg (by simpa using hlength)] at h
      obtain ⟨hle, hdrop⟩ := ih h
      refine ⟨by omega, ?_⟩
      rw [List.dropWhile_cons_of_pos (by simpa using hlength), hdrop, show j - k + 1 = j - (k + 1) + 1 + 1 by omega]
      rfl

theorem dropWhile_of_ofLength_nil {k length : Nat} {runs : List TickRun} (h : ofLength length (numbered k runs) = []) :
    runs.dropWhile (fun run => run.length ≠ length) = [] := by
  induction runs generalizing k with
  | nil => rfl
  | cons run rest ih =>
    rw [numbered_cons, ofLength, List.filter_cons] at h
    split at h
    · cases h
    · rename_i hlength
      rw [List.dropWhile_cons_of_pos (by simpa using hlength)]
      exact ih h

namespace TickQueues

theorem queue_set (queues : TickQueues) (length other : Nat) (entries : List (Nat × TickRun)) :
    TickQueues.queue (Table.set queues length entries) other =
      if other = length then entries else queues.queue other := by
  rw [queue, Table.get?_set]
  split <;> rfl

/-- At first each queue holds all runs of its length. -/
theorem queue_ofRuns (entries : List (Nat × TickRun)) (length : Nat) :
    (ofRuns entries).queue length = ofLength length entries := by
  induction entries with
  | nil => rfl
  | cons entry rest ih =>
    rw [ofRuns, List.foldr_cons, queue_set, ofLength, List.filter_cons]
    by_cases hlength : length = entry.2.length
    · subst hlength
      rw [if_pos rfl, if_pos (by simp)]
      exact congrArg _ ih
    · rw [if_neg hlength, if_neg (by simpa using Ne.symm hlength)]
      exact ih

/-- Without the runs before position `k`, each queue holds the given runs of
its length. -/
def Serves (queues : TickQueues) (k : Nat) (entries : List (Nat × TickRun)) : Prop :=
  ∀ length, (queues.queue length).dropWhile (fun entry => entry.1 < k) = ofLength length entries

/-- The queues that serve from a run on serve from the next one on. -/
theorem Serves.next {queues : TickQueues} {k : Nat} {run : TickRun} {rest : List TickRun}
    (h : queues.Serves k (numbered k (run :: rest))) : queues.Serves (k + 1) (numbered (k + 1) rest) := by
  have hlater : ∀ length, (ofLength length (numbered (k + 1) rest)).dropWhile (fun entry => entry.1 < k + 1) =
      ofLength length (numbered (k + 1) rest) := by
    intro length
    cases hof : ofLength length (numbered (k + 1) rest) with
    | nil => rfl
    | cons entry others =>
      have hmem : entry ∈ ofLength length (numbered (k + 1) rest) := hof ▸ List.mem_cons_self
      have hle := le_of_mem_numbered (List.mem_filter.mp hmem).1
      exact List.dropWhile_cons_of_neg (by simp; omega)
  intro length
  have hbefore (entry : Nat × TickRun) (h : decide (entry.1 < k) = true) : decide (entry.1 < k + 1) = true := by
    simp only [decide_eq_true_eq] at h ⊢
    omega
  rw [← dropWhile_dropWhile hbefore, h length, numbered_cons, ofLength, List.filter_cons]
  split
  · rw [List.dropWhile_cons_of_pos (by simp)]
    exact hlater length
  · exact hlater length

/-- A queue may lose the runs before the current one when it is asked. -/
theorem Serves.set {queues : TickQueues} {k : Nat} {entries : List (Nat × TickRun)} (h : queues.Serves k entries)
    (length : Nat) : TickQueues.Serves (Table.set queues length (ofLength length entries)) k entries := by
  intro other
  rw [queue_set]
  split
  · rename_i hother
    rw [hother, ← h length, List.dropWhile_idempotent]
  · exact h other

end TickQueues

/-- Queues that serve from a run on lead to the same spans as looking for each
closer from its opener on. -/
theorem matchTicks_eq_codesAmong {queues : TickQueues} {k : Nat} {runs : List TickRun} (resume : Nat)
    (h : queues.Serves k (numbered k runs)) :
    matchTicks queues resume (numbered k runs) = codesAmong (runs.drop (resume - k)) := by
  induction runs generalizing queues k resume with
  | nil => rw [List.drop_nil, codesAmong]; rfl
  | cons run rest ih =>
    have hnext := h.next
    rw [numbered_cons, matchTicks]
    split
    · rw [ih resume hnext, show resume - k = resume - (k + 1) + 1 by omega, List.drop_succ_cons]
    · have hhere (other : Nat) (hother : other ≤ k + 1) : rest.drop (other - (k + 1)) = rest := by
        rw [Nat.sub_eq_zero_of_le hother, List.drop_zero]
      rw [Nat.sub_eq_zero_of_le (by omega : resume ≤ k), List.drop_zero]
      split
      · rename_i hzero
        rw [ih resume hnext, hhere resume (by omega), codesAmong_of_zero hzero]
      · rename_i hpos
        have hqueue := hnext run.openerLength
        simp only [Nat.lt_add_one_iff] at hqueue
        rw [hqueue]
        cases hof : ofLength run.openerLength (numbered (k + 1) rest) with
        | nil =>
          have hset := hof ▸ hnext.set run.openerLength
          dsimp only
          rw [ih resume hset, hhere resume (by omega), codesAmong_of_none hpos (dropWhile_of_ofLength_nil hof)]
        | cons entry others =>
          obtain ⟨j, closer⟩ := entry
          have hset := hof ▸ hnext.set run.openerLength
          obtain ⟨hle, hdrop⟩ := dropWhile_of_ofLength_numbered hof
          dsimp only
          rw [ih (j + 1) hset, codesAmong_of_closer hpos hdrop, show j + 1 - (k + 1) = j - (k + 1) + 1 by omega]

end Span

/-- The code spans of a text are those between its maximal runs of backticks,
where each run that can open a span is closed by the first later run of the
length that is wanted. -/
theorem codeSpans_eq_plainly (text : Text) : Span.codeSpans text = Span.codeSpansPlainly text := by
  have hserves : (Span.TickQueues.ofRuns (Span.numbered 0 (TickRun.runs text))).Serves 0
      (Span.numbered 0 (TickRun.runs text)) := by
    intro length
    rw [Span.TickQueues.queue_ofRuns]
    cases Span.ofLength length (Span.numbered 0 (TickRun.runs text)) with
    | nil => rfl
    | cons entry others => exact List.dropWhile_cons_of_neg (by simp)
  rw [Span.codeSpansPlainly, ← TickRun.runs_eq_maximal]
  exact Span.matchTicks_eq_codesAmong 0 hserves

end ProseWrap
