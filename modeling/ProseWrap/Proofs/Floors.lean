import ProseWrap.Proofs.Pairing

/-!
# What floors hide

A closer that finds no opener records how high the stack is, and later closers
of its class do not look below that floor. `Span.emphasisPlainly` is the
emphasis of a text without floors: every closer looks through the whole stack.
The two agree just if no search misses an opener (`emphasis_eq_plainly_iff`),
that is, finds none above its floor where there is one below it.

Some searches do (`floors_hide_openers`). A floor is a height and not a run:
when a pair has taken the runs under it, other runs come to stand there that no
closer of the class has looked at. And closers of one class may have different
numbers of markers, which decide what openers tildes, carets and equals signs
fit.
-/

namespace ProseWrap

namespace Delimiter

/-! ## Looking for an opener -/

variable {closer : Delimiter} {stack : List Delimiter} {depth : Nat}

theorem findOpener_eq_none_iff :
    findOpener closer depth stack = none ↔ ∀ run ∈ stack.take depth, run.fits closer = false := by
  fun_induction findOpener closer depth stack with
  | case1 => simp
  | case2 => simp
  | case3 depth first rest hfits => simp [hfits]
  | case4 depth first rest hfits ih => simpa [hfits] using ih

/-- Looking further down does not change what is found. -/
theorem findOpener_of_le {found : Delimiter × List Delimiter} {further : Nat} (hle : depth ≤ further)
    (h : findOpener closer depth stack = some found) : findOpener closer further stack = some found := by
  fun_induction findOpener closer depth stack generalizing further with
  | case1 => cases h
  | case2 => cases h
  | case3 depth first rest hfits =>
    obtain ⟨further, rfl⟩ := Nat.exists_eq_add_one_of_ne_zero (by omega : further ≠ 0)
    rw [findOpener, if_pos hfits, h]
  | case4 depth first rest hfits =>
    rename_i ih
    obtain ⟨further, rfl⟩ := Nat.exists_eq_add_one_of_ne_zero (by omega : further ≠ 0)
    rw [findOpener, if_neg hfits]
    exact ih (by omega) h

/-! ## Pairing without floors -/

theorem remaining_useAsCloser_lt {opener : Delimiter} (hpos : closer.remaining ≠ 0)
    (hfits : opener.fits closer = true) :
    (closer.useAsCloser (pairSize opener closer)).remaining < closer.remaining := by
  have := one_le_pairSize hfits
  simp only [useAsCloser]
  omega

/-- What pairing one closer leaves where there are no floors: the emphasis
found, the stack, and the closer. -/
structure PlainPairing where
  spans : List Span
  stack : List Delimiter
  closer : Delimiter

/-- Pairs a closer with openers of the stack until it is used up or finds none
on the whole stack. -/
def pairCloserPlainly (stack : List Delimiter) (closer : Delimiter) : PlainPairing :=
  if _hpos : closer.remaining = 0 then ⟨[], stack, closer⟩
  else
    match _hfind : findOpener closer stack.length stack with
    | none => ⟨[], stack, closer⟩
    | some (opener, below) =>
      let used := pairSize opener closer
      let next := pairCloserPlainly ((opener.useAsOpener used).pushRest below) (closer.useAsCloser used)
      { next with spans := spanBetween opener closer :: next.spans }
termination_by closer.remaining
decreasing_by exact remaining_useAsCloser_lt _hpos (findOpener_eq_append _hfind).1

theorem pairCloserPlainly_of_zero (h : closer.remaining = 0) :
    pairCloserPlainly stack closer = ⟨[], stack, closer⟩ := by
  rw [pairCloserPlainly, dif_pos h]

theorem pairCloserPlainly_of_none (h : findOpener closer stack.length stack = none) :
    pairCloserPlainly stack closer = ⟨[], stack, closer⟩ := by
  rw [pairCloserPlainly]
  split
  · rfl
  · split
    · rfl
    · simp_all

theorem pairCloserPlainly_of_some {opener : Delimiter} {below : List Delimiter} (hpos : closer.remaining ≠ 0)
    (h : findOpener closer stack.length stack = some (opener, below)) :
    pairCloserPlainly stack closer =
      let used := pairSize opener closer
      let next := pairCloserPlainly ((opener.useAsOpener used).pushRest below) (closer.useAsCloser used)
      { next with spans := spanBetween opener closer :: next.spans } := by
  rw [pairCloserPlainly, dif_neg hpos]
  split
  · simp_all
  · rename_i hfind
    rw [h] at hfind
    cases hfind
    rfl

/-- The emphasis that a list of runs makes without floors, in the order in
which it is closed. -/
def pairAllPlainly (stack : List Delimiter) : List Delimiter → List Span
  | [] => []
  | run :: rest =>
    let paired : PlainPairing := if run.canClose then pairCloserPlainly stack run else ⟨[], stack, run⟩
    let stack := if run.canOpen then paired.closer.pushRest paired.stack else paired.stack
    paired.spans ++ pairAllPlainly stack rest

/-! ## Searches -/

/-- A search for an opener: the closer, the stack, and the height below which
the closer does not look. -/
structure Search where
  closer : Delimiter
  stack : List Delimiter
  floor : Nat

/-- Whether a search misses an opener: it finds none above the floor, though
the closer fits a run of the stack. -/
def Search.misses (search : Search) : Bool :=
  (findOpener search.closer (search.stack.length - search.floor) search.stack).isNone
    && search.stack.any fun run => run.fits search.closer

/-- The searches that are made while one closer is paired. -/
def searchesOf : Nat → List Delimiter → Floors → Delimiter → List Search
  | 0, _, _, _ => []
  | rounds + 1, stack, floors, closer =>
    if closer.remaining = 0 then []
    else
      ⟨closer, stack, floors.floor closer⟩ ::
        match findOpener closer (stack.length - floors.floor closer) stack with
        | none => []
        | some (opener, below) =>
          let used := pairSize opener closer
          searchesOf rounds ((opener.useAsOpener used).pushRest below) floors (closer.useAsCloser used)

/-- The searches that are made while all runs are paired. -/
def searches (stack : List Delimiter) (floors : Floors) : List Delimiter → List Search
  | [] => []
  | run :: rest =>
    let paired := pairRun stack floors run
    (if run.canClose then searchesOf run.remaining stack floors run else []) ++
      searches (paired.rested run) paired.floors rest

/-- A search that finds none misses an opener just if there is one on the whole
stack. -/
theorem misses_of_none {floor : Nat} (h : findOpener closer (stack.length - floor) stack = none) :
    (⟨closer, stack, floor⟩ : Search).misses = (findOpener closer stack.length stack).isSome := by
  have hwhole : findOpener closer stack.length stack = none ↔ ∀ run ∈ stack, run.fits closer = false := by
    rw [findOpener_eq_none_iff, List.take_length]
  simp only [Search.misses, h, Option.isNone_none, Bool.true_and]
  rw [Bool.eq_iff_iff, ← Option.ne_none_iff_isSome, ne_eq, hwhole]
  simp

/-! ## Where the two part -/

theorem stop_pairCloser (rounds : Nat) (stack : List Delimiter) (floors : Floors) (closer : Delimiter) :
    (pairCloser rounds stack floors closer).closer.stop = closer.stop := by
  fun_induction pairCloser rounds stack floors closer with
  | case1 => rfl
  | case2 => rfl
  | case3 => rfl
  | case4 rounds stack floors closer hpos opener below _ used next ih =>
    have hused : used ≤ closer.remaining := by
      have := pairSize_le_max opener closer
      omega
    exact ih.trans (stop_useAsCloser hused)

/-- Emphasis that a closer makes ends its content where the closer starts or
later. -/
theorem le_contentStop_of_mem_pairCloser {rounds : Nat} {floors : Floors} {span : Span}
    (h : span ∈ (pairCloser rounds stack floors closer).spans) : closer.start ≤ span.contentStop := by
  fun_induction pairCloser rounds stack floors closer with
  | case1 => cases h
  | case2 => cases h
  | case3 => cases h
  | case4 rounds stack floors closer hpos opener below _ used next ih =>
    rcases List.mem_cons.mp h with rfl | h
    · exact Nat.le_refl _
    · have := ih h
      simp only [useAsCloser] at this
      omega

theorem le_contentStop_of_mem_pairAll {floors : Floors} {runs : List Delimiter} {bound : Nat} {span : Span}
    (hruns : ∀ run ∈ runs, bound ≤ run.start) (h : span ∈ pairAll stack floors runs) :
    bound ≤ span.contentStop := by
  induction runs generalizing stack floors with
  | nil => cases h
  | cons run runs ih =>
    obtain ⟨hrun, hruns⟩ := List.forall_mem_cons.mp hruns
    rw [pairAll_cons] at h
    rcases List.mem_append.mp h with h | h
    · unfold pairRun at h
      split at h
      · exact Nat.le_trans hrun (le_contentStop_of_mem_pairCloser h)
      · cases h
    · exact ih hruns h

/-- Pairing a closer goes as without floors if none of its searches misses an
opener. Otherwise the last one does, and without floors the closer, which has
markers left, makes more emphasis. -/
theorem pairCloser_plainly {rounds : Nat} {floors : Floors} (hrounds : closer.remaining ≤ rounds) :
    let paired := pairCloser rounds stack floors closer
    let plain := pairCloserPlainly stack closer
    ((∀ search ∈ searchesOf rounds stack floors closer, search.misses = false) ∧
        plain = ⟨paired.spans, paired.stack, paired.closer⟩) ∨
      ((∃ search ∈ searchesOf rounds stack floors closer, search.misses = true) ∧
        paired.closer.remaining ≠ 0 ∧
        ∃ span more, plain.spans = paired.spans ++ span :: more ∧ span.contentStop = paired.closer.start) := by
  fun_induction pairCloser rounds stack floors closer with
  | case1 stack floors closer =>
    exact .inl ⟨by simp [searchesOf], pairCloserPlainly_of_zero (by omega)⟩
  | case2 rounds stack floors closer hzero =>
    exact .inl ⟨by simp [searchesOf, hzero], pairCloserPlainly_of_zero hzero⟩
  | case3 rounds stack floors closer hpos hfind =>
    have hmisses := misses_of_none hfind
    cases hwhole : findOpener closer stack.length stack with
    | none =>
      refine .inl ⟨?_, pairCloserPlainly_of_none hwhole⟩
      simpa [searchesOf, hpos, hfind, hwhole] using hmisses
    | some found =>
      refine .inr ⟨?_, hpos, _, _, by rw [pairCloserPlainly_of_some hpos hwhole]; rfl, rfl⟩
      simpa [searchesOf, hpos, hfind, hwhole] using hmisses
  | case4 rounds stack floors closer hpos opener below hfind used next ih =>
    have hwhole := findOpener_of_le (Nat.sub_le ..) hfind
    have hfits := (findOpener_eq_append hfind).1
    have hless : (closer.useAsCloser used).remaining < closer.remaining := remaining_useAsCloser_lt hpos hfits
    -- a search that finds an opener misses none, so what counts are the
    -- searches after it
    have hfound : (⟨closer, stack, floors.floor closer⟩ : Search).misses = false := by
      simp [Search.misses, hfind]
    have hsearches : searchesOf (rounds + 1) stack floors closer =
        ⟨closer, stack, floors.floor closer⟩ ::
          searchesOf rounds ((opener.useAsOpener used).pushRest below) floors (closer.useAsCloser used) := by
      simp [searchesOf, hpos, hfind, used]
    rw [pairCloserPlainly_of_some hpos hwhole, hsearches]
    rcases ih (by omega) with ⟨hnone, hplain⟩ | ⟨⟨search, hsearch, hmisses⟩, hleft, span, more, hspans, hstop⟩
    · refine .inl ⟨List.forall_mem_cons.mpr ⟨hfound, hnone⟩, ?_⟩
      dsimp only
      rw [hplain]
    · refine .inr ⟨⟨search, List.mem_cons_of_mem _ hsearch, hmisses⟩, hleft, span, more, ?_, hstop⟩
      dsimp only
      rw [hspans]
      rfl

/-- The emphasis found is that without floors just if no search misses an
opener. -/
theorem pairAll_eq_plainly_iff {floors : Floors} {runs : List Delimiter}
    (hp : runs.Pairwise fun a b => a.stop ≤ b.start) :
    pairAll stack floors runs = pairAllPlainly stack runs ↔
      ∀ search ∈ searches stack floors runs, search.misses = false := by
  induction runs generalizing stack floors with
  | nil => simp [pairAll, pairAllPlainly, searches]
  | cons run runs ih =>
    obtain ⟨hlater, hp⟩ := List.pairwise_cons.mp hp
    rw [pairAll_cons, pairAllPlainly, searches]
    unfold pairRun Pairing.rested
    by_cases hclose : run.canClose = true
    · simp only [hclose, if_true]
      have hstop := stop_pairCloser run.remaining stack floors run
      rcases pairCloser_plainly (Nat.le_refl run.remaining) with
        ⟨hnone, hplain⟩ | ⟨hmissed, hleft, span, more, hspans, hcontent⟩
      · rw [hplain, List.append_cancel_left_eq, List.forall_mem_append, ih hp]
        exact (and_iff_right hnone).symm
      · -- the emphasis that is missed ends its content before all that comes later
        refine iff_of_false (fun heq => ?_) fun hnone => ?_
        · rw [hspans, List.append_assoc, List.append_cancel_left_eq] at heq
          have hmem : ∀ {spans rest : List Span}, spans = span :: more ++ rest → span ∈ spans := by
            rintro _ _ rfl
            exact List.mem_cons_self
          have hle := le_contentStop_of_mem_pairAll hlater (hmem heq)
          simp only [stop] at hstop hle
          omega
        · obtain ⟨search, hsearch, hmisses⟩ := hmissed
          rw [hnone search (List.mem_append_left _ hsearch)] at hmisses
          cases hmisses
    · simp only [hclose]
      exact ih hp

end Delimiter

/-- The emphasis of a text outside the given ranges where every closer looks
through the whole stack. -/
def Span.emphasisPlainly (text : Text) (leaves : List (Nat × Nat)) : List Span :=
  Delimiter.pairAllPlainly [] (Span.delimiters text leaves)

/-- The searches for openers in a text outside the given ranges. -/
def Span.searches (text : Text) (leaves : List (Nat × Nat)) : List Delimiter.Search :=
  Delimiter.searches [] [] (Span.delimiters text leaves)

/-- The emphasis of a text is the one found without floors just if no search
for an opener misses one. -/
theorem emphasis_eq_plainly_iff (text : Text) (leaves : List (Nat × Nat)) :
    Span.emphasis text leaves = Span.emphasisPlainly text leaves ↔
      ∀ search ∈ Span.searches text leaves, search.misses = false :=
  Delimiter.pairAll_eq_plainly_iff (Delimiter.marks_collect text leaves 0 0 none text rfl).2

/-- Floors change the emphasis of a text. In the first one the star after `b`
makes a floor of one run, which the underscores take away; the star before `d`
then stands under the floor and is not found. In the second one four tildes,
which fit no opener, make a floor above the tilde that the last one fits. -/
theorem floors_hide_openers :
    (let text := "_a b* c_ *d*".toList
      let ranges := (Span.leaves text).map fun leaf => (leaf.start, leaf.stop)
      (Span.emphasis text ranges).map (fun span => (span.start, span.stop)) = [(0, 8)] ∧
        (Span.emphasisPlainly text ranges).map (fun span => (span.start, span.stop)) = [(0, 8), (9, 12)]) ∧
      (let text := "~a~~~~ b~".toList
        let ranges := (Span.leaves text).map fun leaf => (leaf.start, leaf.stop)
        Span.emphasis text ranges = [] ∧
          (Span.emphasisPlainly text ranges).map (fun span => (span.start, span.stop)) = [(0, 9)]) := by
  decide +kernel

end ProseWrap
