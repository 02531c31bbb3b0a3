import ProseWrap.Span.Leaf

/-!
# Leaf spans lie in the text

Every leaf span begins with a character of the text that is no gap, stops later
and inside the text, and has its content in between (`isLeaf_of_mem_leaves`). A
code span does because its closing run of backticks comes after the opening one
(`pairwise_runs`), a bracketed construct because a closing bracket comes after
its partner (`bounds_of_lookup_pairsFrom`), and everything else because a
closer is looked for from the opener on. The leaf spans come one after the
other (`pairwise_leaves`).
-/

namespace ProseWrap

/-- What is left of a text after its next character. -/
theorem Text.drop_add_one {text rest : Text} {i : Nat} {c : Char} (h : text.drop i = c :: rest) :
    text.drop (i + 1) = rest := by
  rw [← List.drop_drop, h]
  rfl

theorem Text.getElem?_of_drop_eq_cons {text rest : Text} {i : Nat} {c : Char} (h : text.drop i = c :: rest) :
    text[i]? = some c := by
  rw [← List.head?_drop, h, List.head?_cons]

/-- A span that lies in a text of the given length, is not empty, and has its
content inside itself. -/
structure Span.Proper (length : Nat) (span : Span) : Prop where
  start_le : span.start ≤ span.contentStart
  content_le : span.contentStart ≤ span.contentStop
  le_stop : span.contentStop ≤ span.stop
  stop_le : span.stop ≤ length
  start_lt : span.start < span.stop

theorem Span.proper_whole {length start stop : Nat} (kind : SpanKind) (hlt : start < stop)
    (hle : stop ≤ length) : (Span.whole kind start stop).Proper length :=
  ⟨Nat.le_refl _, Nat.le_of_lt hlt, Nat.le_refl _, hle, hlt⟩

/-! ## Code spans -/

namespace TickRun

/-- The runs come one after the other, none of them is empty, and those after
the current one start no earlier than it stops. -/
theorem pairwise_collect (i slashes : Nat) (current : Option TickRun) (rest : Text)
    (hc : ∀ run ∈ current, 1 ≤ run.length ∧ run.stop = i) :
    (∀ run ∈ collect i slashes current rest,
      1 ≤ run.length ∧ (i ≤ run.start ∨ current.map start = some run.start)) ∧
      (collect i slashes current rest).Pairwise fun a b => a.stop ≤ b.start := by
  fun_induction collect i slashes current rest with
  | case1 i slashes current =>
    cases current with
    | none => simp
    | some run => simpa using (hc run rfl).1
  | case2 i slashes current c rest hcase run ih =>
    have hrun : 1 ≤ run.length ∧ run.stop = i + 1 ∧ (i ≤ run.start ∨ current.map start = some run.start) := by
      cases current with
      | none => exact ⟨Nat.le_refl _, rfl, .inl (Nat.le_refl _)⟩
      | some old =>
        obtain ⟨hone, hstop⟩ := hc old rfl
        refine ⟨Nat.le_add_left _ _, ?_, .inr rfl⟩
        simp only [stop] at hstop
        simp only [run, stop]
        omega
    obtain ⟨hmem, hpair⟩ := ih (by rintro _ ⟨⟩; exact ⟨hrun.1, hrun.2.1⟩)
    refine ⟨fun other ho => ⟨(hmem other ho).1, ?_⟩, hpair⟩
    rcases (hmem other ho).2 with h | h
    · exact .inl (by omega)
    · simp only [Option.map_some, Option.some.injEq] at h
      rw [← h]
      exact hrun.2.2
  | case3 i slashes current c rest hcase ih =>
    obtain ⟨hmem, hpair⟩ := ih (by rintro _ ⟨⟩)
    have hlater : ∀ other ∈ collect (i + 1) (if c == '\\' then slashes + 1 else 0) none rest,
        1 ≤ other.length ∧ i + 1 ≤ other.start := by
      intro other ho
      obtain ⟨hone, h⟩ := hmem other ho
      exact ⟨hone, h.resolve_right (by simp)⟩
    cases current with
    | none => exact ⟨fun other ho => ⟨(hlater other ho).1, .inl (by have := (hlater other ho).2; omega)⟩, hpair⟩
    | some old =>
      obtain ⟨hone, hstop⟩ := hc old rfl
      refine ⟨fun other ho => ?_, List.pairwise_cons.mpr ⟨fun other ho => ?_, hpair⟩⟩
      · rcases List.mem_cons.mp ho with rfl | ho
        · exact ⟨hone, .inr rfl⟩
        · exact ⟨(hlater other ho).1, .inl (by have := (hlater other ho).2; omega)⟩
      · have := (hlater other ho).2
        omega

/-- The runs of backticks of a text come one after the other. -/
theorem pairwise_runs (text : Text) : (runs text).Pairwise fun a b => a.stop ≤ b.start :=
  (pairwise_collect 0 0 none text (by rintro _ ⟨⟩)).2

/-- A run is backticks of the text. -/
def Ticks (text : Text) (run : TickRun) : Prop :=
  ∀ k, run.start ≤ k → k < run.stop → text[k]? = some tick

theorem ticks_collect {text : Text} (i slashes : Nat) (current : Option TickRun) (rest : Text)
    (hrest : text.drop i = rest) (hc : ∀ run ∈ current, run.stop = i ∧ run.Ticks text) :
    ∀ run ∈ collect i slashes current rest, run.Ticks text := by
  fun_induction collect i slashes current rest with
  | case1 i slashes current => exact fun run h => (hc run (Option.mem_toList.mp h)).2
  | case2 i slashes current c rest hcase run ih =>
    refine ih (Text.drop_add_one hrest) ?_
    have hget : text[i]? = some tick := by
      rw [← Nat.add_zero i, ← List.getElem?_drop, hrest]
      simpa using hcase
    rintro _ ⟨⟩
    cases current with
    | none =>
      refine ⟨rfl, fun k hk hk' => ?_⟩
      simp only [run, stop] at hk hk'
      rwa [show k = i by omega]
    | some old =>
      obtain ⟨hstop, hold⟩ := hc old rfl
      simp only [stop] at hstop
      refine ⟨by simp only [run, stop]; omega, fun k hk hk' => ?_⟩
      simp only [run, stop] at hk hk'
      by_cases hki : k = i
      · rwa [hki]
      · exact hold k hk (by simp only [stop]; omega)
  | case3 i slashes current c rest hcase ih =>
    intro run h
    rcases List.mem_append.mp h with h | h
    · exact (hc run (Option.mem_toList.mp h)).2
    · exact ih (Text.drop_add_one hrest) (by rintro _ ⟨⟩) run h

theorem ticks_of_mem_runs {text : Text} {run : TickRun} (h : run ∈ runs text) : run.Ticks text :=
  ticks_collect 0 0 none text rfl (by rintro _ ⟨⟩) run h

theorem start_lt_stop_of_mem_runs {text : Text} {run : TickRun} (h : run ∈ runs text) : run.start < run.stop :=
  Nat.lt_add_of_pos_right ((pairwise_collect 0 0 none text (by rintro _ ⟨⟩)).1 run h).1

/-- A run ends with a backtick. -/
theorem last_of_mem_runs {text : Text} {run : TickRun} (h : run ∈ runs text) : text[run.stop - 1]? = some tick := by
  have hlt := start_lt_stop_of_mem_runs h
  exact ticks_of_mem_runs h (run.stop - 1) (by omega) (by omega)

theorem stop_le_of_mem_runs {text : Text} {run : TickRun} (h : run ∈ runs text) : run.stop ≤ text.length := by
  obtain ⟨hlt, -⟩ := List.getElem?_eq_some_iff.mp (last_of_mem_runs h)
  omega

/-- As an opener a run ends where it ends as a run, and begins no earlier. -/
theorem openerStart_add_openerLength {run : TickRun} (h : 1 ≤ run.openerLength) :
    run.start ≤ run.openerStart ∧ run.openerStart + run.openerLength = run.stop := by
  unfold openerStart openerLength stop at *
  split
  · simp_all
    omega
  · simp_all

end TickRun

namespace Span

/-- Every queue holds runs of the text only. -/
def TickQueues.Within (queues : TickQueues) (runs : List (Nat × TickRun)) : Prop :=
  ∀ length, ∀ entry ∈ queues.queue length, entry ∈ runs

theorem TickQueues.Within.set {queues : TickQueues} {runs : List (Nat × TickRun)}
    (h : queues.Within runs) {length : Nat} {entries : List (Nat × TickRun)}
    (he : ∀ entry ∈ entries, entry ∈ runs) :
    TickQueues.Within (Table.set queues length entries) runs := by
  intro other entry hentry
  simp only [queue, Table.get?_set] at hentry
  split at hentry
  · exact he entry hentry
  · exact h other entry hentry

theorem TickQueues.within_ofRuns (runs : List (Nat × TickRun)) :
    (TickQueues.ofRuns runs).Within runs := by
  induction runs with
  | nil => intro length entry he; simp [ofRuns, queue] at he
  | cons run runs ih =>
    have hmono : (TickQueues.ofRuns runs).Within (run :: runs) :=
      fun length entry he => List.mem_cons_of_mem _ (ih length entry he)
    refine hmono.set fun entry he => ?_
    rcases List.mem_cons.mp he with rfl | he
    · exact List.mem_cons_self
    · exact hmono _ entry he

/-- A code span lies between two runs of the text, the second of them later. -/
theorem mem_matchTicks {queues : TickQueues} {resume : Nat} {runs all : List (Nat × TickRun)} {span : Span}
    (hall : ∀ entry ∈ runs, entry ∈ all) (hq : queues.Within all)
    (h : span ∈ matchTicks queues resume runs) :
    ∃ k run j closer, (k, run) ∈ all ∧ (j, closer) ∈ all ∧ k < j ∧ 1 ≤ run.openerLength ∧
      span = codeBetween run closer := by
  fun_induction matchTicks queues resume runs with
  | case1 => cases h
  | case2 queues resume k run rest _ ih => exact ih (fun e he => hall e (List.mem_cons_of_mem _ he)) hq h
  | case3 queues resume k run rest _ _ ih => exact ih (fun e he => hall e (List.mem_cons_of_mem _ he)) hq h
  | case4 queues resume k run rest _ _ queue hnil ih =>
    refine ih (fun e he => hall e (List.mem_cons_of_mem _ he)) (hq.set ?_) h
    rw [hnil]
    simp
  | case5 queues resume k run rest _ hlen queue j closer tail hcons ih =>
    have hqueue : ∀ e ∈ queue, e ∈ all := fun e he =>
      hq _ e ((List.dropWhile_sublist _).subset he)
    rcases List.mem_cons.mp h with rfl | h
    · have hj : ¬ (decide (j ≤ k) = true) := by
        have := List.head_dropWhile_not (p := fun e : Nat × TickRun => decide (e.1 ≤ k))
          (l := queues.queue run.openerLength) (by simp [queue] at hcons; simp [hcons])
        simp only [queue] at hcons
        simpa [hcons] using this
      refine ⟨k, run, j, closer, hall _ List.mem_cons_self, hqueue _ (hcons ▸ List.mem_cons_self), ?_, ?_, rfl⟩
      · simpa using hj
      · omega
    · exact ih (fun e he => hall e (List.mem_cons_of_mem _ he)) (hq.set hqueue) h

/-- A span that lies in the text, begins with a character of it that is no gap,
and is not emphasis. -/
structure IsLeaf (text : Text) (span : Span) : Prop where
  proper : span.Proper text.length
  begins : ∃ c, text[span.start]? = some c ∧ Text.isGap c = false
  isEmphasis : span.isEmphasis = false

/-- A code span lies between two runs of the text, one after the other. -/
theorem exists_runs_of_mem_codeSpans {text : Text} {span : Span} (h : span ∈ codeSpans text) :
    ∃ opener ∈ TickRun.runs text, ∃ closer ∈ TickRun.runs text, opener.stop ≤ closer.start ∧
      1 ≤ opener.openerLength ∧ span = codeBetween opener closer := by
  obtain ⟨k, run, j, closer, hk, hj, hkj, hlen, rfl⟩ :=
    mem_matchTicks (fun _ he => he) (TickQueues.within_ofRuns _) h
  have hget : ∀ {n : Nat} {r : TickRun}, (n, r) ∈ (TickRun.runs text).zipIdx.map (fun e => (e.2, e.1)) →
      ∃ hn : n < (TickRun.runs text).length, (TickRun.runs text)[n] = r := by
    intro n r hr
    obtain ⟨⟨r', n'⟩, he, heq⟩ := List.mem_map.mp hr
    cases heq
    obtain ⟨hn, hr⟩ := List.mem_zipIdx' he
    exact ⟨hn, hr.symm⟩
  obtain ⟨hk', hrun⟩ := hget hk
  obtain ⟨hj', hcloser⟩ := hget hj
  have hafter : run.stop ≤ closer.start := by
    have := List.pairwise_iff_getElem.mp (TickRun.pairwise_runs text) k j hk' hj' hkj
    rwa [hrun, hcloser] at this
  exact ⟨run, hrun ▸ List.getElem_mem hk', closer, hcloser ▸ List.getElem_mem hj', hafter, hlen, rfl⟩

theorem isLeaf_of_mem_codeSpans {text : Text} {span : Span} (h : span ∈ codeSpans text) :
    span.IsLeaf text := by
  obtain ⟨opener, hopener, closer, hcloser, hafter, hlen, rfl⟩ := exists_runs_of_mem_codeSpans h
  obtain ⟨hstart, hstop⟩ := TickRun.openerStart_add_openerLength hlen
  have htick : text[opener.openerStart]? = some TickRun.tick :=
    TickRun.ticks_of_mem_runs hopener _ hstart (by omega)
  have hclosed : closer.start ≤ closer.stop := Nat.le_add_right _ _
  have hinside := TickRun.stop_le_of_mem_runs hcloser
  refine ⟨⟨?_, ?_, ?_, ?_, ?_⟩, ⟨_, htick, rfl⟩, rfl⟩ <;> simp only [codeBetween] <;> omega

/-! ## Brackets -/

theorem mem_of_startingAt? {i : Nat} {spans : List Span} {span : Span}
    (h : startingAt? i spans = some span) : span ∈ spans ∧ span.start = i := by
  cases spans with
  | nil => cases h
  | cons other spans =>
    simp only [startingAt?] at h
    split at h <;> cases h
    exact ⟨List.mem_cons_self, ‹_›⟩

/-- The active characters of a text lie in it, one after the other. -/
theorem pairwise_activeFrom (codes : List Span) (resume i : Nat) (rest : Text) :
    (∀ entry ∈ activeFrom codes resume i rest, i ≤ entry.1 ∧ entry.1 < i + rest.length) ∧
      (activeFrom codes resume i rest).Pairwise fun a b => a.1 < b.1 := by
  have hlater {i : Nat} {c : Char} {rest : Text} {entries : List (Nat × Char)}
      (h : ∀ entry ∈ entries, i + 1 ≤ entry.1 ∧ entry.1 < i + 1 + rest.length) :
      ∀ entry ∈ entries, i ≤ entry.1 ∧ entry.1 < i + (c :: rest).length := by
    intro entry he
    have := h entry he
    simp only [List.length_cons]
    omega
  fun_induction activeFrom codes resume i rest with
  | case1 => simp
  | case2 codes resume i c rest _ ih => exact ⟨hlater ih.1, ih.2⟩
  | case3 codes resume i c rest _ _ _ _ ih => exact ⟨hlater ih.1, ih.2⟩
  | case4 codes resume i c rest _ _ _ _ ih => exact ⟨hlater ih.1, ih.2⟩
  | case5 codes resume i c rest _ _ _ _ ih =>
    refine ⟨List.forall_mem_cons.mpr ⟨by simp, hlater ih.1⟩, List.pairwise_cons.mpr ⟨fun e he => ?_, ih.2⟩⟩
    exact (ih.1 e he).1

/-- A closing bracket comes after its partner. -/
theorem lt_of_mem_pairsFrom {opener closer : Char} {stack : List Nat} {characters : List (Nat × Char)}
    (hs : characters.Pairwise fun a b => a.1 < b.1) (hstack : ∀ j ∈ stack, ∀ e ∈ characters, j < e.1)
    {j i : Nat} (h : (j, i) ∈ pairsFrom opener closer stack characters) : j < i := by
  fun_induction pairsFrom opener closer stack characters with
  | case1 => cases h
  | case2 stack i c rest _ ih =>
    obtain ⟨hlt, hs⟩ := List.pairwise_cons.mp hs
    refine ih hs (fun k hk e he => ?_) h
    rcases List.mem_cons.mp hk with rfl | hk
    · exact hlt e he
    · exact hstack k hk e (List.mem_cons_of_mem _ he)
  | case3 i c rest _ _ ih => exact ih (List.pairwise_cons.mp hs).2 (by simp) h
  | case4 i c rest _ _ k outer ih =>
    rcases List.mem_cons.mp h with heq | h
    · cases heq
      exact hstack _ List.mem_cons_self _ List.mem_cons_self
    · exact ih (List.pairwise_cons.mp hs).2
        (fun k hk e he => hstack k (List.mem_cons_of_mem _ hk) e (List.mem_cons_of_mem _ he)) h
  | case5 stack i c rest _ _ ih =>
    exact ih (List.pairwise_cons.mp hs).2 (fun k hk e he => hstack k hk e (List.mem_cons_of_mem _ he)) h

theorem mem_of_mem_pairsFrom {opener closer : Char} {stack : List Nat} {characters : List (Nat × Char)}
    {j i : Nat} (h : (j, i) ∈ pairsFrom opener closer stack characters) : ∃ c, (i, c) ∈ characters := by
  have hcons {entry : Nat × Char} {rest : List (Nat × Char)} (h : ∃ c, (i, c) ∈ rest) :
      ∃ c, (i, c) ∈ entry :: rest := h.imp fun _ => List.mem_cons_of_mem _
  fun_induction pairsFrom opener closer stack characters with
  | case1 => cases h
  | case2 stack k c rest _ ih => exact hcons (ih h)
  | case3 k c rest _ _ ih => exact hcons (ih h)
  | case4 k c rest _ _ outermost outer ih =>
    rcases List.mem_cons.mp h with heq | h
    · cases heq
      exact ⟨c, List.mem_cons_self⟩
    · exact hcons (ih h)
  | case5 stack k c rest _ _ ih => exact hcons (ih h)

/-- The partner of a bracket of a text comes after it and lies in the text. -/
theorem bounds_of_lookup_pairsFrom {opener closer : Char} {codes : List Span} {text : Text} {i close : Nat}
    (h : (pairsFrom opener closer [] (active codes text)).lookup i = some close) :
    i < close ∧ close < text.length := by
  obtain ⟨front, back, hpairs, -⟩ := List.lookup_eq_some_iff.mp h
  have hmem : (i, close) ∈ pairsFrom opener closer [] (active codes text) := by simp [hpairs]
  obtain ⟨hbounds, hpairwise⟩ := pairwise_activeFrom codes 0 0 text
  obtain ⟨c, hc⟩ := mem_of_mem_pairsFrom hmem
  have hclose := (hbounds _ hc).2
  exact ⟨lt_of_mem_pairsFrom hpairwise (fun _ hj => by cases hj) hmem, by omega⟩

end Span

/-! ## Constructs -/

/-- What is found from an offset of the text on lies no earlier, and inside the
text. -/
theorem Text.bounds_of_indexOf {text needle : Text} {origin i close : Nat} (hi : i ≤ text.length)
    (ho : i ≤ origin) (h : Text.indexOf text needle origin = some close) :
    i ≤ close ∧ close + needle.length ≤ text.length := by
  have hfound {k m : Nat} {l : Text} (h : Text.searchAt needle k l = some m) : m + needle.length ≤ k + l.length := by
    induction l generalizing k with
    | nil =>
      simp only [Text.searchAt] at h
      split at h <;> simp_all
    | cons c rest ih =>
      simp only [Text.searchAt] at h
      split at h
      · rename_i hstands
        have := (List.isPrefixOf_iff_prefix.mp hstands).length_le
        simp_all
      · have := ih h
        simp only [List.length_cons]
        omega
  have hle := Text.le_of_searchAt h
  have hin := hfound h
  simp only [Int.toNat_natCast, List.length_drop] at hle hin
  omega

namespace Site

/-- The site of a text, whose brackets are those of the text. -/
def Sited (site : Site) : Prop := site.brackets = .ofText site.codes site.text

theorem sited_ofText (text : Text) : (Site.ofText text).Sited := rfl

variable {site : Site} {i : Nat} {span : Span}

/-- A span that begins at an offset, lies in the text, and is not emphasis. -/
structure IsLeafAt (site : Site) (i : Nat) (span : Span) : Prop where
  start_eq : span.start = i
  proper : span.Proper site.text.length
  isEmphasis : span.isEmphasis = false

theorem isLeafAt_whole {stop : Nat} (kind : SpanKind) (hlt : i < stop) (hle : stop ≤ site.text.length)
    (hkind : (Span.whole kind i stop).isEmphasis = false) : site.IsLeafAt i (.whole kind i stop) :=
  ⟨rfl, Span.proper_whole kind hlt hle, hkind⟩

section

variable (hs : site.Sited)

include hs

theorem bounds_of_squareClose? {close : Nat} (h : site.brackets.squareClose? i = some close) :
    i < close ∧ close < site.text.length := by
  rw [show site.brackets = .ofText site.codes site.text from hs] at h
  exact Span.bounds_of_lookup_pairsFrom h

theorem bounds_of_destinationEnd? {stop : Nat} (h : site.destinationEnd? i = some stop) :
    i < stop ∧ stop < site.text.length := by
  unfold destinationEnd? at h
  split at h
  · rename_i close hc
    rw [show site.brackets = .ofText site.codes site.text from hs] at hc
    split at h <;> cases h
    exact Span.bounds_of_lookup_pairsFrom hc
  · cases h

theorem bounds_of_bracketed? {image : Bool} {stop : Nat} {form : BracketForm}
    (h : site.bracketed? i image = some (stop, form)) : i < stop ∧ stop ≤ site.text.length := by
  unfold bracketed? at h
  split at h
  · cases h
  · rename_i close hc
    have hclose := bounds_of_squareClose? hs hc
    -- a destination or a label that does not close leaves the brackets by
    -- themselves
    have hshort : ∀ {x : Option (Nat × BracketForm)},
        (if close = i + 1 then none
          else if !image && site.has (i + 1) '^' then none else some (close + 1, .shortcut)) = x →
        x = some (stop, form) → i < stop ∧ stop ≤ site.text.length := by
      intro x hx h
      rw [h] at hx
      split at hx
      · cases hx
      · split at hx <;> cases hx
        omega
    dsimp only at h
    split at h
    · split at h
      · rename_i hd
        cases h
        have := bounds_of_destinationEnd? hs hd
        omega
      · exact hshort rfl h
    · split at h
      · split at h
        · rename_i hl
          cases h
          have := bounds_of_squareClose? hs hl
          omega
        · exact hshort rfl h
      · exact hshort rfl h

theorem isLeafAt_imageLink? (h : site.imageLink? i = some span) : site.IsLeafAt i span := by
  unfold imageLink? at h
  split at h
  · rename_i close stop form hc hb
    have hclose := bounds_of_squareClose? hs hc
    split at h
    · dsimp only at h
      split at h
      · obtain ⟨stop, hd, rfl⟩ := Option.map_eq_some_iff.mp h
        have := bounds_of_destinationEnd? hs hd
        exact isLeafAt_whole _ (by omega) (by omega) rfl
      · split at h
        · obtain ⟨stop, hd, rfl⟩ := Option.map_eq_some_iff.mp h
          have := bounds_of_squareClose? hs hd
          exact isLeafAt_whole _ (by omega) (by omega) rfl
        · cases h
    · cases h
  · cases h

theorem isLeafAt_wikiLink? (h : site.wikiLink? i = some span) : site.IsLeafAt i span := by
  unfold wikiLink? at h
  split at h
  · rename_i inner outer hi ho
    have := bounds_of_squareClose? hs ho
    split at h <;> cases h
    exact isLeafAt_whole _ (by omega) (by omega) rfl
  · cases h

theorem isLeafAt_footnoteMention? (h : site.footnoteMention? i = some span) : site.IsLeafAt i span := by
  unfold footnoteMention? at h
  split at h
  · cases h
  · rename_i close hc
    have := bounds_of_squareClose? hs hc
    dsimp only at h
    split at h <;> cases h
    exact isLeafAt_whole _ (by omega) (by omega) rfl

theorem isLeafAt_squareSpan? (h : site.squareSpan? i = some span) : site.IsLeafAt i span := by
  unfold squareSpan? at h
  dsimp only at h
  rcases Option.or_eq_some_iff.mp h with h | ⟨-, h⟩
  · split at h
    · exact isLeafAt_imageLink? hs h
    · cases h
  rcases Option.or_eq_some_iff.mp h with h | ⟨-, h⟩
  · split at h
    · exact isLeafAt_wikiLink? hs h
    · cases h
  split at h
  · rename_i stop form hb
    cases h
    have := bounds_of_bracketed? hs hb
    exact isLeafAt_whole _ this.1 this.2 rfl
  · split at h
    · exact isLeafAt_footnoteMention? hs h
    · cases h

theorem isLeafAt_image? (h : site.image? i = some span) : site.IsLeafAt i span := by
  unfold image? at h
  split at h
  · obtain ⟨⟨stop, form⟩, hb, rfl⟩ := Option.map_eq_some_iff.mp h
    have := bounds_of_bracketed? hs hb
    exact isLeafAt_whole _ (by omega) this.2 rfl
  · cases h

theorem isLeafAt_footnoteInPlace? (h : site.footnoteInPlace? i = some span) : site.IsLeafAt i span := by
  unfold footnoteInPlace? at h
  split at h
  · obtain ⟨close, hc, rfl⟩ := Option.map_eq_some_iff.mp h
    have := bounds_of_squareClose? hs hc
    exact ⟨rfl, ⟨by simp only; omega, by simp only; omega, by simp only; omega, by simp only; omega,
      by simp only; omega⟩, rfl⟩
  · cases h

end

/-- A closer that stands after a part of a text lies in the text. -/
theorem le_of_closedBy {c : Char} {before n : Nat} {rest : Text} (h : closedBy c before rest = some n) :
    n ≤ before + rest.length := by
  unfold closedBy at h
  split at h
  · cases h
    cases rest with
    | nil => simp_all
    | cons => simp
  · cases h

theorem le_of_mailLength? {rest : Text} {n : Nat} (h : mailLength? rest = some n) : n ≤ rest.length := by
  unfold mailLength? at h
  dsimp only at h
  split at h
  · rename_i after hdrop
    have hlen := congrArg List.length hdrop
    split at h
    · cases h
    · have := le_of_closedBy h
      have := (after.takeWhile_sublist isMailHostChar).length_le
      simp only [List.length_drop, List.length_cons] at *
      omega
  · cases h

theorem le_of_autolinkLength? {rest : Text} {n : Nat} (h : autolinkLength? rest = some n) :
    n ≤ rest.length := by
  unfold autolinkLength? at h
  dsimp only at h
  split at h
  · rename_i after hdrop
    have hlen := congrArg List.length hdrop
    split at h
    · have := le_of_closedBy h
      have := (after.takeWhile_sublist isAddressChar).length_le
      simp only [List.length_drop, List.length_cons] at *
      omega
    · exact le_of_mailLength? h
  · exact le_of_mailLength? h

theorem le_of_attributesLength? {quote : Option Char} {rest : Text} {n : Nat}
    (h : attributesLength? quote rest = some n) : n ≤ rest.length := by
  have hmap {c : Char} {rest : Text} {inner : Option Nat} {n : Nat} (ih : ∀ m, inner = some m → m ≤ rest.length)
      (h : inner.map (· + 1) = some n) : n ≤ (c :: rest).length := by
    obtain ⟨m, hm, rfl⟩ := Option.map_eq_some_iff.mp h
    simpa using ih m hm
  induction rest generalizing quote n with
  | nil => cases h
  | cons c rest ih =>
    unfold attributesLength? at h
    split at h
    · cases h
    · split at h
      · exact hmap (fun m => ih) h
      · split at h
        · exact hmap (fun m => ih) h
        · split at h
          · cases h
            simp
          · exact hmap (fun m => ih) h

theorem le_of_tagLength? {rest : Text} {n : Nat} (h : tagLength? rest = some n) : n ≤ rest.length := by
  unfold tagLength? at h
  dsimp only at h
  generalize (if rest.head? == some '/' then 1 else 0) = slash at h
  split at h
  · split at h
    · rename_i hafter
      split at h
      · obtain ⟨m, hm, rfl⟩ := Option.map_eq_some_iff.mp h
        have := le_of_attributesLength? hm
        have hlen := congrArg List.length hafter
        simp only [List.length_drop, List.length_cons] at *
        omega
      · cases h
    · cases h
  · cases h

theorem le_of_entityLength? {rest : Text} {n : Nat} (h : entityLength? rest = some n) : n ≤ rest.length := by
  have htaken (p : Char → Bool) (before : Nat) {rest : Text} {n : Nat}
      (h : closedBy ';' (before + (rest.takeWhile p).length) (rest.drop (rest.takeWhile p).length) = some n) :
      n ≤ before + rest.length := by
    have := le_of_closedBy h
    have := (rest.takeWhile_sublist p).length_le
    simp only [List.length_drop] at *
    omega
  unfold entityLength? at h
  split at h
  · dsimp only at h
    split at h
    · split at h
      · split at h
        · have := htaken _ 2 h
          simp only [List.length_cons]
          omega
        · cases h
      · cases h
    · split at h
      · have := htaken _ 1 h
        simp only [List.length_cons]
        omega
      · cases h
  · dsimp only at h
    split at h
    · simpa using htaken _ 0 (by simpa using h)
    · cases h

/-- A span that is as long as a part of the text after its first character. -/
theorem isLeafAt_of_length {length : Nat} (kind : SpanKind) (hi : i < site.text.length)
    (h : length ≤ (site.text.drop (i + 1)).length)
    (hkind : (Span.whole kind i (i + 1 + length)).isEmphasis = false) :
    site.IsLeafAt i (.whole kind i (i + 1 + length)) := by
  rw [List.length_drop] at h
  exact isLeafAt_whole kind (by omega) (by omega) hkind

theorem isLeafAt_tag? {finder : Text.Finder site.text} (hi : i < site.text.length)
    (h : (site.tag? finder i).1 = some span) : site.IsLeafAt i span := by
  unfold tag? at h
  dsimp only at h
  split at h
  · obtain ⟨close, hc, rfl⟩ := Option.map_eq_some_iff.mp h
    rw [Text.Finder.find_fst] at hc
    have := Text.bounds_of_indexOf (Nat.le_of_lt hi) (by omega) hc
    exact isLeafAt_whole _ (by omega) this.2 rfl
  · obtain ⟨length, hl, rfl⟩ := Option.map_eq_some_iff.mp h
    rw [List.drop_drop] at hl
    exact isLeafAt_of_length _ hi (le_of_tagLength? hl) rfl

theorem isLeafAt_templateTag? {finder : Text.Finder site.text} {tags : List TemplateTag}
    (hi : i < site.text.length) (h : (site.templateTag? finder i tags).1 = some span) :
    site.IsLeafAt i span := by
  induction tags generalizing finder with
  | nil => cases h
  | cons tag tags ih =>
    unfold templateTag? at h
    dsimp only at h
    split at h
    · rename_i hopens
      have hopener := (List.isPrefixOf_iff_prefix.mp hopens).length_le
      split at h
      · rename_i close hc
        cases h
        rw [Text.Finder.find_fst] at hc
        rw [List.length_drop] at hopener
        have hpos : 0 < tag.opener.length := by cases tag <;> decide
        have := Text.bounds_of_indexOf (i := i + tag.opener.length) (by omega) (Nat.le_refl _) hc
        refine ⟨rfl, ⟨?_, ?_, ?_, ?_, ?_⟩, rfl⟩ <;> simp only <;> omega
      · exact ih h
    · exact ih h

theorem isLeafAt_formula? {finder : Text.Finder site.text} (hi : i < site.text.length)
    (h : (site.formula? finder i).1 = some span) : site.IsLeafAt i span := by
  unfold formula? at h
  split at h
  · cases h
  · rename_i first hfirst
    obtain ⟨hnext, -⟩ := List.getElem?_eq_some_iff.mp hfirst
    split at h
    · dsimp only at h
      split at h
      · rename_i close hc
        rw [Text.Finder.find_fst] at hc
        have := Text.bounds_of_indexOf (Nat.le_of_lt hi) (by omega) hc
        simp only [List.length_cons, List.length_nil] at this
        dsimp only at h
        split at h <;> cases h
        refine ⟨rfl, ⟨?_, ?_, ?_, ?_, ?_⟩, rfl⟩ <;> simp only <;> omega
      · cases h
    · split at h
      · cases h
      · dsimp only at h
        split at h
        · rename_i close hc
          rw [Text.Finder.find_fst] at hc
          have := Text.bounds_of_indexOf (Nat.le_of_lt hnext) (Nat.le_refl _) hc
          simp only [List.length_cons, List.length_nil] at this
          dsimp only at h
          split at h <;> cases h
          refine ⟨rfl, ⟨?_, ?_, ?_, ?_, ?_⟩, rfl⟩ <;> simp only <;> omega
        · cases h

theorem isLeafAt_emojiName? (hi : i < site.text.length) (h : site.emojiName? i = some span) :
    site.IsLeafAt i span := by
  unfold emojiName? at h
  dsimp only at h
  split at h
  · cases h
  · obtain ⟨length, hl, rfl⟩ := Option.map_eq_some_iff.mp h
    refine isLeafAt_of_length _ hi ?_ rfl
    have := le_of_closedBy hl
    have := ((site.text.drop (i + 1)).takeWhile_sublist isEmojiChar).length_le
    simp only [List.length_drop] at *
    omega

/-- What a character begins starts there, stops later, and lies in the text. -/
theorem isLeafAt_construct? {finder : Text.Finder site.text} {c : Char} (hs : site.Sited)
    (hi : i < site.text.length) (h : (site.construct? finder i c).1 = some span) :
    site.IsLeafAt i span := by
  unfold construct? at h
  split at h
  · exact isLeafAt_squareSpan? hs h
  · exact isLeafAt_image? hs h
  · exact isLeafAt_footnoteInPlace? hs h
  · split at h
    · rename_i link hl
      cases h
      obtain ⟨length, hlength, rfl⟩ := Option.map_eq_some_iff.mp hl
      exact isLeafAt_of_length _ hi (le_of_autolinkLength? hlength) rfl
    · exact isLeafAt_tag? hi h
  · exact isLeafAt_templateTag? hi h
  · exact isLeafAt_formula? hi h
  · obtain ⟨length, hl, rfl⟩ := Option.map_eq_some_iff.mp h
    exact isLeafAt_of_length _ hi (le_of_entityLength? hl) rfl
  · exact isLeafAt_emojiName? hi h
  · cases h

/-- Nothing begins with a gap. -/
theorem isGap_of_construct? {finder : Text.Finder site.text} {c : Char}
    (h : (site.construct? finder i c).1 = some span) : Text.isGap c = false := by
  unfold construct? at h
  split at h
  case h_9 => cases h
  all_goals rfl

theorem leavesFrom_isLeaf (hs : site.Sited) (codes : List Span)
    (hcodes : ∀ code ∈ codes, code.IsLeaf site.text) (finder : Text.Finder site.text) (resume i : Nat)
    (rest : Text) (hrest : site.text.drop i = rest) :
    ∀ span ∈ site.leavesFrom codes finder resume i rest, span.IsLeaf site.text := by
  have hpass (codes : List Span) (i : Nat) (h : ∀ code ∈ codes, code.IsLeaf site.text) :
      ∀ code ∈ codes.dropWhile fun code => code.start < i, code.IsLeaf site.text :=
    fun code hm => h code ((List.dropWhile_sublist _).subset hm)
  fun_induction leavesFrom site codes finder resume i rest with
  | case1 => simp
  | case2 codes finder resume i c rest _ ih => exact ih hcodes (Text.drop_add_one hrest)
  | case3 codes finder resume i c rest _ codes' code hc ih =>
    intro span h
    rcases List.mem_cons.mp h with rfl | h
    · exact hpass codes i hcodes _ (Span.mem_of_startingAt? hc).1
    · exact ih (hpass codes i hcodes) (Text.drop_add_one hrest) span h
  | case4 codes finder resume i c rest _ codes' _ _ ih =>
    exact ih (hpass codes i hcodes) (Text.drop_add_one hrest)
  | case5 codes finder resume i c rest _ codes' _ _ found finder' hc ih =>
    intro span h
    rcases List.mem_cons.mp h with rfl | h
    · have hget := Text.getElem?_of_drop_eq_cons hrest
      obtain ⟨hlt, -⟩ := List.getElem?_eq_some_iff.mp hget
      obtain ⟨hstart, hproper, hkind⟩ := isLeafAt_construct? hs hlt (congrArg Prod.fst hc)
      exact ⟨hproper, ⟨c, hstart ▸ hget, isGap_of_construct? (congrArg Prod.fst hc)⟩, hkind⟩
    · exact ih (hpass codes i hcodes) (Text.drop_add_one hrest) span h
  | case6 codes finder resume i c rest _ codes' _ _ finder' hc ih =>
    exact ih (hpass codes i hcodes) (Text.drop_add_one hrest)

/-- The leaf spans found from an offset on start no earlier, and come one after
the other. -/
theorem pairwise_leavesFrom (hs : site.Sited) (codes : List Span) (finder : Text.Finder site.text)
    (resume i : Nat) (rest : Text) (hrest : site.text.drop i = rest) :
    (∀ span ∈ site.leavesFrom codes finder resume i rest, i ≤ span.start ∧ resume ≤ span.start) ∧
      (site.leavesFrom codes finder resume i rest).Pairwise fun a b => a.stop ≤ b.start := by
  have hcons {i resume : Nat} {span : Span} {spans : List Span} (hstart : span.start = i) (hi : ¬i < resume)
      (hlater : ∀ other ∈ spans, i + 1 ≤ other.start ∧ span.stop ≤ other.start)
      (hpair : spans.Pairwise fun a b => a.stop ≤ b.start) :
      (∀ other ∈ span :: spans, i ≤ other.start ∧ resume ≤ other.start) ∧
        (span :: spans).Pairwise fun a b => a.stop ≤ b.start := by
    refine ⟨List.forall_mem_cons.mpr ⟨by omega, fun other ho => ?_⟩,
      List.pairwise_cons.mpr ⟨fun other ho => (hlater other ho).2, hpair⟩⟩
    have := hlater other ho
    omega
  fun_induction leavesFrom site codes finder resume i rest with
  | case1 => simp
  | case2 codes finder resume i c rest _ ih =>
    obtain ⟨hlater, hpair⟩ := ih (Text.drop_add_one hrest)
    exact ⟨fun span h => by have := hlater span h; omega, hpair⟩
  | case3 codes finder resume i c rest hi codes' code hc ih =>
    obtain ⟨hlater, hpair⟩ := ih (Text.drop_add_one hrest)
    exact hcons (Span.mem_of_startingAt? hc).2 hi hlater hpair
  | case4 codes finder resume i c rest _ codes' _ _ ih =>
    obtain ⟨hlater, hpair⟩ := ih (Text.drop_add_one hrest)
    exact ⟨fun span h => by have := hlater span h; omega, hpair⟩
  | case5 codes finder resume i c rest hi codes' _ _ found finder' hc ih =>
    obtain ⟨hlater, hpair⟩ := ih (Text.drop_add_one hrest)
    have hlt : i < site.text.length := by
      have := congrArg List.length hrest
      simp only [List.length_drop, List.length_cons] at this
      omega
    exact hcons (isLeafAt_construct? hs hlt (congrArg Prod.fst hc)).start_eq hi hlater hpair
  | case6 codes finder resume i c rest _ codes' _ _ finder' hc ih =>
    obtain ⟨hlater, hpair⟩ := ih (Text.drop_add_one hrest)
    exact ⟨fun span h => by have := hlater span h; omega, hpair⟩

end Site

/-- The leaf spans of a text come one after the other. -/
theorem Span.pairwise_leaves (text : Text) : (Span.leaves text).Pairwise fun a b => a.stop ≤ b.start :=
  (Site.pairwise_leavesFrom (Site.sited_ofText text) _ _ 0 0 text rfl).2

/-- Every leaf span lies in the text and begins with something other than a
gap, and none is emphasis. -/
theorem Span.isLeaf_of_mem_leaves {text : Text} {span : Span} (h : span ∈ Span.leaves text) :
    span.IsLeaf text :=
  Site.leavesFrom_isLeaf (Site.sited_ofText text) _ (fun _ hc => isLeaf_of_mem_codeSpans hc) _ 0 0 text rfl
    span h

end ProseWrap
