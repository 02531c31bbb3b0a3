import ProseWrap.Span.Basic
import ProseWrap.Table

/-!
# Code spans

A code span lies between two runs of backticks of the same length
(`codeSpans`). A run after an odd number of backslashes loses its first
backtick when it opens, since that one is escaped; as a closer it counts in
full.

The closer of a run is the next run of the length wanted. The runs are sorted
by length into queues, and a queue only ever loses runs from its front, so that
the whole search takes one pass.
-/

namespace ProseWrap

/-- A maximal run of backticks. -/
structure TickRun where
  start : Nat
  length : Nat
  /-- Whether the run comes after an odd number of backslashes. -/
  escaped : Bool
  deriving DecidableEq, Repr

namespace TickRun

/-- The backtick. -/
def tick : Char := '\x60'

/-- The offset after a run. -/
def stop (run : TickRun) : Nat := run.start + run.length

/-- Where a run starts as an opener. -/
def openerStart (run : TickRun) : Nat := if run.escaped then run.start + 1 else run.start

/-- How many backticks a run has as an opener. -/
def openerLength (run : TickRun) : Nat := if run.escaped then run.length - 1 else run.length

/-- The runs of the text `rest`, which begins at offset `i`. Before it stand
`slashes` backslashes, or the run `current`, which may go on. -/
def collect (i slashes : Nat) (current : Option TickRun) : Text → List TickRun
  | [] => current.toList
  | c :: rest =>
    if c == tick then
      let run : TickRun :=
        match current with
        | some run => { run with length := run.length + 1 }
        | none => ⟨i, 1, slashes % 2 == 1⟩
      collect (i + 1) 0 (some run) rest
    else
      current.toList ++ collect (i + 1) (if c == '\\' then slashes + 1 else 0) none rest

/-- The runs of backticks of a text. -/
def runs (text : Text) : List TickRun := collect 0 0 none text

end TickRun

namespace Span

/-- The code span between an opening and a closing run. -/
def codeBetween (opener closer : TickRun) : Span :=
  ⟨.code, opener.openerStart, closer.stop, opener.openerStart + opener.openerLength, closer.start⟩

/-- Runs with their positions among all runs, sorted by length into queues. -/
abbrev TickQueues := Table Nat (List (Nat × TickRun))

/-- The runs of a length that are still in their queue. -/
def TickQueues.queue (queues : TickQueues) (length : Nat) : List (Nat × TickRun) :=
  (Table.get? queues length).getD []

/-- The queues of a list of runs with their positions: each queue is in the
order of the runs. -/
def TickQueues.ofRuns (runs : List (Nat × TickRun)) : TickQueues :=
  runs.foldr (fun entry queues =>
    Table.set queues entry.2.length (entry :: TickQueues.queue queues entry.2.length)) []

/-- Goes through the runs from left to right; those at positions before
`resume` lie inside a span found already. -/
def matchTicks (queues : TickQueues) (resume : Nat) : List (Nat × TickRun) → List Span
  | [] => []
  | (k, run) :: rest =>
    if k < resume then matchTicks queues resume rest
    else if run.openerLength = 0 then matchTicks queues resume rest
    else
      let queue := (TickQueues.queue queues run.openerLength).dropWhile fun entry => entry.1 ≤ k
      match queue with
      | [] => matchTicks (Table.set queues run.openerLength queue) resume rest
      | (j, closer) :: _ =>
        codeBetween run closer :: matchTicks (Table.set queues run.openerLength queue) (j + 1) rest

/-- The code spans of a text, from left to right. -/
def codeSpans (text : Text) : List Span :=
  let runs := (TickRun.runs text).zipIdx.map fun entry => (entry.2, entry.1)
  matchTicks (TickQueues.ofRuns runs) 0 runs

end Span

end ProseWrap
