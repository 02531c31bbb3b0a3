import ProseWrap.Proofs.Lookahead
import ProseWrap.Proofs.Partition

/-!
# Reading again what has been written

Other lines are written in the place of the lines of some blocks, the lines of
all other blocks are kept. When the new lines are read, each block may be found
again: a block of the same kind on the lines that were written for it.
`ReadsBack` asks this only of the blocks that look ahead, and of blocks that
come to be read under another open list item; `readsBack_iff` says that these
decide: indented or fenced code, HTML, a heading, a thematic break, quoted
structure and blank lines are found again whatever is written around them.
-/

namespace ProseWrap.Block

/-! ## Stages of the reader -/

/-- What the reader of a document knows before a block: the column of the open
list item, and the sections that it has read, the last one first. -/
structure Stage where
  column : Option Nat
  before : List Section

/-- The block that begins with the first of `lines`, which `later` follow. -/
def Stage.read (stage : Stage) (lines later : List Text) : Reading :=
  readSection stage.column stage.before (lines.headD []) (lines.tail ++ later)

/-- What the reader knows after a block. -/
def Reading.stage (read : Reading) : Stage := ⟨read.column, ⟨read.kind, read.extent⟩ :: read.before⟩

/-- The stage after front matter. -/
def Stage.afterFrontMatter (format : FrontMatter) (extent : Extent) : Stage :=
  ⟨none, [⟨.frontMatter format, extent⟩]⟩

/-- The sections of a document of which `texts` are still to be read. -/
def Stage.outline (stage : Stage) (texts : List Text) : List Section :=
  outlineFrom 0 stage.column stage.before texts

theorem IsPromotion.trans {part old older : Section} (h : IsPromotion part old)
    (h' : IsPromotion old older) : IsPromotion part older := by
  refine ⟨h.1.trans h'.1, ?_⟩
  rcases h.2 with hkind | ⟨indent, lines, hold, hterm⟩
  · rw [hkind]
    exact h'.2
  · rcases h'.2 with hkind' | ⟨_, _, _, hterm'⟩
    · exact .inr ⟨indent, lines, hkind' ▸ hold, hterm⟩
    · exact absurd (hterm'.symm.trans hold) (by simp)

theorem promotions_trans {parts olds olders : List Section} (h : List.Forall₂ IsPromotion parts olds)
    (h' : List.Forall₂ IsPromotion olds olders) : List.Forall₂ IsPromotion parts olders := by
  induction h generalizing olders with
  | nil => exact h'
  | cons hp _ ih =>
    obtain ⟨older, olders, hp', ho, rfl⟩ := List.forall₂_cons_left_iff.mp h'
    exact .cons (hp.trans hp') (ih ho)

/-- Of the promotions of the sections so far, the last one is that of the
section read last. -/
theorem promotions_reverse_cons {parts before : List Section} {part : Section}
    (h : List.Forall₂ IsPromotion parts (part :: before).reverse) :
    ∃ front last, parts = front ++ [last] ∧ List.Forall₂ IsPromotion front before.reverse ∧
      IsPromotion last part := by
  rw [List.reverse_cons] at h
  have hfront := List.forall₂_take_append _ _ _ h
  obtain ⟨last, others, hlast, hnil, hdrop⟩ :=
    List.forall₂_cons_right_iff.mp (List.forall₂_drop_append _ _ _ h)
  rw [List.forall₂_nil_right_iff.mp hnil] at hdrop
  exact ⟨_, last, by rw [← hdrop, List.take_append_drop], hfront, hlast⟩

/-- What has been read stays, except that paragraphs may become terms. -/
theorem outlineFrom_promotes (skip : Nat) (column : Option Nat) (before : List Section)
    (texts : List Text) : ∃ front back, outlineFrom skip column before texts = front ++ back ∧
      List.Forall₂ IsPromotion front before.reverse := by
  fun_induction outlineFrom skip column before texts with
  | case1 column before => exact ⟨_, [], by simp, List.forall₂_same.mpr fun part _ => .refl part⟩
  | case2 column before text rest skip ih => exact ih
  | case3 column before text rest read ih =>
    have hs : read.Sound before text rest := readSection_sound column before text rest
    obtain ⟨parts, back, hout, hparts⟩ := ih
    obtain ⟨front, last, rfl, hfront, -⟩ := promotions_reverse_cons hparts
    refine ⟨front, last :: back, by rw [hout, List.append_assoc]; rfl, ?_⟩
    exact promotions_trans hfront (List.forall₂_reverse_iff.mpr hs.before)

theorem eq_length_tail {lines : List Text} {more : Nat} (h : more + 1 = lines.length) :
    more = lines.tail.length := by
  rw [List.length_tail, ← h, Nat.add_sub_cancel]

theorem drop_tail_append {lines : List Text} {more : Nat} (later : List Text)
    (h : more + 1 = lines.length) : (lines.tail ++ later).drop more = later := by
  rw [eq_length_tail h, List.drop_left]

/-- After a block the reader goes on with the lines that the block does not
take. -/
theorem Stage.outline_append (stage : Stage) {lines : List Text} (later : List Text) (hne : lines ≠ []) :
    stage.outline (lines ++ later) =
      (stage.read lines later).stage.outline
        ((lines.tail ++ later).drop (stage.read lines later).more) := by
  cases lines with
  | nil => exact absurd rfl hne
  | cons text rest =>
    rw [List.cons_append, outline, outlineFrom_zero_cons, outlineFrom_skip]
    rfl

theorem Stage.length_before_read (stage : Stage) (lines later : List Text) :
    (stage.read lines later).before.length = stage.before.length :=
  (readSection_sound stage.column stage.before _ _).before.length_eq

/-- From a stage on, the sections `back` are read after those before. -/
def Stage.Yields (stage : Stage) (texts : List Text) (back : List Section) : Prop :=
  ∃ front, stage.outline texts = front ++ back ∧ front.length = stage.before.length

/-- The first section that is yielded is the one that is read, or the term it
has become; the others are yielded after it. -/
theorem Stage.Yields.cons {stage : Stage} {lines later : List Text} {part : Section} {others : List Section}
    (hne : lines ≠ []) (h : stage.Yields (lines ++ later) (part :: others)) :
    IsPromotion part ⟨(stage.read lines later).kind, (stage.read lines later).extent⟩ ∧
      ((stage.read lines later).more + 1 = lines.length →
        (stage.read lines later).stage.Yields later others) := by
  obtain ⟨front, hout, hlen⟩ := h
  have hbefore := stage.length_before_read lines later
  rw [stage.outline_append _ hne] at hout
  obtain ⟨parts, rest, hparts, hpromotes⟩ := outlineFrom_promotes 0 (stage.read lines later).stage.column
    (stage.read lines later).stage.before ((lines.tail ++ later).drop (stage.read lines later).more)
  obtain ⟨first, last, rfl, hfirst, hlast⟩ := promotions_reverse_cons hpromotes
  have hsplit : front ++ part :: others = first ++ last :: rest := by
    rw [← hout, outline, hparts, List.append_assoc]
    rfl
  obtain ⟨rfl, hcons⟩ := List.append_inj hsplit (by
    rw [hlen, ← hbefore, hfirst.length_eq, List.length_reverse])
  obtain ⟨rfl, rfl⟩ := List.cons_eq_cons.mp hcons
  refine ⟨hlast, fun hmore => ⟨front ++ [part], ?_, ?_⟩⟩
  · rw [drop_tail_append _ hmore] at hout
    rw [hout, List.append_assoc]
    rfl
  · simp [Reading.stage, hbefore, hlen]

/-! ## Passages -/

/-- The lines of a block, and the lines that are written in their place. -/
structure Passage where
  own : List Text
  written : List Text
  deriving DecidableEq, Repr

/-- Passages are read side by side, from `stage` on as they were and from
`stage'` on as they are written. Each block that looks ahead, or that is read
under another open list item than before, is found again: a block of the same
kind on the lines that were written for it. -/
def ReadsBackFrom (stage stage' : Stage) : List Passage → Prop
  | [] => True
  | passage :: later =>
    let read := stage.read passage.own (later.flatMap Passage.own)
    let again := stage'.read passage.written (later.flatMap Passage.written)
    (read.kind.looksAhead = true ∨ stage'.column ≠ stage.column →
        again.kind.bare = read.kind.bare ∧ again.more + 1 = passage.written.length) ∧
      ReadsBackFrom read.stage again.stage later

/-- The passages of a document are read back, and no front matter comes into
being at its start. -/
def ReadsBack : List Passage → Prop
  | [] => True
  | first :: later =>
    match frontMatter? (first.own.headD []) (first.own.tail ++ later.flatMap Passage.own) with
    | some (format, extent) =>
      ReadsBackFrom (.afterFrontMatter format extent) (.afterFrontMatter format extent) later
    | none =>
      frontMatter? (first.written.headD []) (first.written.tail ++ later.flatMap Passage.written) = none ∧
        ReadsBackFrom ⟨none, []⟩ ⟨none, []⟩ (first :: later)

instance decidableReadsBackFrom : (stage stage' : Stage) → (passages : List Passage) →
    Decidable (ReadsBackFrom stage stage' passages)
  | _, _, [] => .isTrue trivial
  | stage, stage', passage :: later =>
    have := decidableReadsBackFrom (stage.read passage.own (later.flatMap Passage.own)).stage
      (stage'.read passage.written (later.flatMap Passage.written)).stage later
    inferInstanceAs (Decidable ((_ ∨ _ → _ ∧ _) ∧ _))

instance decidableReadsBack : (passages : List Passage) → Decidable (ReadsBack passages)
  | [] => .isTrue trivial
  | first :: later =>
    match h : frontMatter? (first.own.headD []) (first.own.tail ++ later.flatMap Passage.own) with
    | some (format, extent) =>
      decidable_of_iff
        (ReadsBackFrom (.afterFrontMatter format extent) (.afterFrontMatter format extent) later)
        (by simp only [ReadsBack, h])
    | none =>
      decidable_of_iff
        (frontMatter? (first.written.headD []) (first.written.tail ++ later.flatMap Passage.written) = none ∧
          ReadsBackFrom ⟨none, []⟩ ⟨none, []⟩ (first :: later))
        (by simp only [ReadsBack, h])

/-- A passage has the lines of a section, and new ones only if this is
prose. -/
def Fits (part : Section) (passage : Passage) : Prop :=
  passage.own ≠ [] ∧ passage.own.length = part.count ∧
    ((∀ prose, part.kind ≠ .prose prose) → passage.written = passage.own)

/-- From a stage on the lines of each passage are read as one block. -/
def Follows (stage : Stage) : List Passage → Prop
  | [] => True
  | passage :: later =>
    let read := stage.read passage.own (later.flatMap Passage.own)
    Fits ⟨read.kind, read.extent⟩ passage ∧ Follows read.stage later

theorem Fits.of_promotion {part old : Section} {passage : Passage} (h : Fits part passage)
    (hp : IsPromotion part old) : Fits old passage := by
  obtain ⟨hne, hcount, hkeep⟩ := h
  refine ⟨hne, hcount.trans hp.count_eq, fun hprose => hkeep fun prose hkind => ?_⟩
  rcases hp.2 with hsame | ⟨indent, lines, hold, -⟩
  · exact hprose prose (hsame ▸ hkind)
  · exact hprose _ hold

/-- The passages of an outline are read one by one. -/
theorem follows_of_yields {stage : Stage} {back : List Section} {passages : List Passage}
    (h : stage.Yields (passages.flatMap Passage.own) back) (hfit : List.Forall₂ Fits back passages) :
    Follows stage passages := by
  induction passages generalizing stage back with
  | nil => trivial
  | cons passage later ih =>
    obtain ⟨part, others, hpart, hothers, rfl⟩ := List.forall₂_cons_right_iff.mp hfit
    obtain ⟨hpromotion, hrest⟩ := h.cons hpart.1
    have hread := hpart.of_promotion hpromotion
    exact ⟨hread, ih (hrest hread.2.1.symm) hothers⟩

/-! ## Blocks that are found again -/

theorem Ahead.append_blanks {blanks later later' : List Text}
    (hblanks : ∀ text ∈ blanks, Line.isBlank text = true) (h : Ahead later later') :
    Ahead (blanks ++ later) (blanks ++ later') := by
  induction blanks with
  | nil => exact h
  | cons text blanks ih =>
    obtain ⟨htext, hblanks⟩ := List.forall_mem_cons.mp hblanks
    exact .blank htext (ih hblanks)

/-- A block that begins with a blank line has blank lines only. -/
theorem Stage.isBlank_of_read {stage : Stage} {text : Text} {rest later : List Text}
    (htext : Line.isBlank text = true)
    (hmore : (text :: rest).length = (stage.read (text :: rest) later).more + 1) :
    ∀ line ∈ text :: rest, Line.isBlank line = true := by
  have hread : stage.read (text :: rest) later =
      ⟨.blank, .through ((rest ++ later).takeWhile Line.isBlank).length, stage.column, stage.before⟩ := by
    rw [Stage.read, readSection, List.headD_cons, if_pos htext]
    rfl
  rw [hread] at hmore
  have hrest := length_takeWhile_append.mp (Nat.add_right_cancel hmore).symm
  exact List.forall_mem_cons.mpr ⟨htext, hrest.1⟩

/-- If passages are read back, what is written begins like what was there. -/
theorem ahead_of_readsBackFrom {stage stage' : Stage} {passages : List Passage}
    (hf : Follows stage passages) (h : ReadsBackFrom stage stage' passages) :
    Ahead (passages.flatMap Passage.own) (passages.flatMap Passage.written) := by
  induction passages generalizing stage stage' with
  | nil => exact .nil
  | cons passage later ih =>
    obtain ⟨⟨hne, hmore, hkeep⟩, hf⟩ := hf
    obtain ⟨hback, h⟩ := h
    obtain ⟨own, written⟩ := passage
    obtain ⟨text, rest, rfl⟩ := List.exists_cons_of_ne_nil hne
    cases hkind : (stage.read (text :: rest) (later.flatMap Passage.own)).kind with
    | prose prose =>
      obtain ⟨hbare, hwritten⟩ := hback (.inl (by rw [hkind]; rfl))
      rw [hkind] at hbare
      obtain ⟨lines, hagain⟩ := BlockKind.eq_prose_of_bare hbare
      obtain ⟨text', rest', rfl⟩ : ∃ text' rest', written = text' :: rest' :=
        List.exists_cons_of_ne_nil (List.ne_nil_of_length_pos (by rw [← hwritten]; omega))
      obtain ⟨hblank, hbegins⟩ := begins_of_readSection hkind
      obtain ⟨hblank', hbegins'⟩ := begins_of_readSection hagain
      exact .of_begins hblank hblank' hbegins hbegins' _ _
    | _ =>
      obtain rfl : written = text :: rest := hkeep (by simp [hkind])
      cases hblank : Line.isBlank text with
      | true => exact .append_blanks (Stage.isBlank_of_read hblank hmore) (ih hf h)
      | false => exact .line hblank hblank rfl fun _ _ => rfl

/-- A block that does not look ahead is found again before lines that begin
like those after it. -/
theorem Stage.read_congr {stage stage' : Stage} {lines later later' : List Text}
    (hbefore : stage'.before.map Section.bare = stage.before.map Section.bare)
    (hcolumn : stage'.column = stage.column) (ha : Ahead later later')
    (hkind : (stage.read lines later).kind.looksAhead = false)
    (hmore : lines.length = (stage.read lines later).more + 1) :
    (stage'.read lines later').kind = (stage.read lines later).kind ∧
      (stage'.read lines later').more = (stage.read lines later).more := by
  have htail := eq_length_tail hmore.symm
  obtain ⟨sections, hsame, -⟩ := readSection_congr_before stage.column (lines.headD [])
    (lines.tail ++ later') hbefore
  rw [readSection_congr_ahead ha hkind htail] at hsame
  rw [Stage.read, hcolumn, hsame]
  exact ⟨rfl, rfl⟩

/-- Blocks of the same kind leave sections of the same kinds before the next
one. -/
theorem Stage.map_bare_before {stage stage' : Stage} {lines lines' later later' : List Text}
    (hbefore : stage'.before.map Section.bare = stage.before.map Section.bare)
    (hkind : (stage'.read lines' later').kind.bare = (stage.read lines later).kind.bare) :
    (stage'.read lines' later').stage.before.map Section.bare =
      (stage.read lines later).stage.before.map Section.bare := by
  have hsettled (stage : Stage) (lines later : List Text) :
      (stage.read lines later).before = settle stage.before (stage.read lines later).kind.bare :=
    before_readSection _ _ _ _
  rw [Reading.stage, Reading.stage, List.map_cons, List.map_cons, hsettled, hsettled, hkind,
    settle_bare hbefore]
  exact congrArg (fun kind => (⟨kind, .through 0⟩ :: _ : List Section)) hkind

/-- If passages are read back, the outline of what is written is that of what
was there. -/
theorem outline_of_readsBackFrom {stage stage' : Stage} {passages : List Passage}
    (hbefore : stage'.before.map Section.bare = stage.before.map Section.bare)
    (hf : Follows stage passages) (h : ReadsBackFrom stage stage' passages) :
    (stage'.outline (passages.flatMap Passage.written)).map Section.bare =
        (stage.outline (passages.flatMap Passage.own)).map Section.bare ∧
      (stage'.outline (passages.flatMap Passage.written)).map Section.count =
        stage'.before.reverse.map Section.count ++ passages.map fun passage => passage.written.length := by
  induction passages generalizing stage stage' with
  | nil =>
    simp only [List.flatMap_nil, Stage.outline, outlineFrom, List.map_reverse, hbefore, List.map_nil,
      List.append_nil, and_self]
  | cons passage later ih =>
    obtain ⟨⟨hne, hmore, hkeep⟩, hf⟩ := hf
    obtain ⟨hback, h⟩ := h
    have hfound : (stage'.read passage.written (later.flatMap Passage.written)).kind.bare =
          (stage.read passage.own (later.flatMap Passage.own)).kind.bare ∧
        (stage'.read passage.written (later.flatMap Passage.written)).more + 1 = passage.written.length := by
      by_cases hlook : (stage.read passage.own (later.flatMap Passage.own)).kind.looksAhead = true ∨
          stage'.column ≠ stage.column
      · exact hback hlook
      · obtain ⟨hkind, hcolumn⟩ := not_or.mp hlook
        rw [Bool.not_eq_true] at hkind
        have hsame : passage.written = passage.own := hkeep fun prose hprose => by
          rw [show (stage.read passage.own (later.flatMap Passage.own)).kind = _ from hprose] at hkind
          cases hkind
        obtain ⟨hread, hcount⟩ := Stage.read_congr hbefore (not_not.mp hcolumn)
          (ahead_of_readsBackFrom hf h) hkind hmore
        rw [hsame, hread, hcount]
        exact ⟨rfl, hmore.symm⟩
    have hne' : passage.written ≠ [] := List.ne_nil_of_length_pos (by rw [← hfound.2]; omega)
    obtain ⟨hbare, hcount⟩ := ih (Stage.map_bare_before hbefore hfound.1) hf h
    rw [List.flatMap_cons, List.flatMap_cons, stage.outline_append _ hne, stage'.outline_append _ hne',
      drop_tail_append _ hmore.symm, drop_tail_append _ hfound.2]
    refine ⟨hbare, hcount.trans ?_⟩
    have hs := (readSection_sound stage'.column stage'.before (passage.written.headD [])
      (passage.written.tail ++ later.flatMap Passage.written)).map_count
    simp only [Reading.stage, List.reverse_cons, List.map_append, List.map_reverse, List.map_cons,
      List.map_nil, hfound.2, List.append_assoc, List.singleton_append]
    rw [show (stage'.read passage.written (later.flatMap Passage.written)).before.map Section.count = _ from hs]

/-! ## Outlines that are the same -/

theorem makeTerm?_isSome {kind : BlockKind} (extent : Extent) (before : List Section)
    (h : kind.isDefinable = true) : (makeTerm? (⟨kind, extent⟩ :: before)).isSome = true := by
  cases kind with
  | term lines => rfl
  | prose prose =>
    obtain ⟨form, lines⟩ := prose
    cases form with
    | paragraph indent => rfl
    | _ => cases h
  | _ => cases h

/-- A section is promoted to prose only if it has been so before. -/
theorem IsPromotion.kind_eq_prose {part old : Section} {prose : Prose} (h : IsPromotion part old)
    (hkind : part.kind = .prose prose) : old.kind = .prose prose := by
  rcases h.2 with hsame | ⟨indent, lines, -, hterm⟩
  · rw [← hsame, hkind]
  · exact absurd (hterm.symm.trans hkind) (by simp)

/-- What has become a term could be defined. -/
theorem IsPromotion.isDefinable {part old : Section} (h : IsPromotion part old)
    (hterm : part.kind.bare = .term []) : old.kind.isDefinable = true := by
  rcases h.2 with hsame | ⟨indent, lines, hold, -⟩
  · rw [← hsame]
    cases hkind : part.kind with
    | term lines => rfl
    | _ =>
      rw [hkind] at hterm
      cases hterm
  · rw [hold]
    rfl

/-- What has not become a term stays what it is. -/
theorem IsPromotion.kind_eq {part old : Section} (h : IsPromotion part old)
    (hterm : part.kind.bare ≠ .term []) : part.kind = old.kind := by
  rcases h.2 with hsame | ⟨indent, lines, -, hkind⟩
  · exact hsame
  · rw [hkind] at hterm
    exact absurd rfl hterm

/-- After something that can be defined, a definition follows in what is
written just if one followed in what was there. -/
theorem definitionMark?_headD {stage stage' : Stage} {passages : List Passage} {back back' : List Section}
    (h : stage.Yields (passages.flatMap Passage.own) back) (hfit : List.Forall₂ Fits back passages)
    (h' : stage'.Yields (passages.flatMap Passage.written) back')
    (hne : ∀ passage ∈ passages, passage.written ≠ [])
    (hbare : back'.map Section.bare = back.map Section.bare)
    (hterm : (makeTerm? stage.before).isSome = true) (hterm' : (makeTerm? stage'.before).isSome = true) :
    (Line.definitionMark? ((passages.flatMap Passage.written).headD [])).isSome =
      (Line.definitionMark? ((passages.flatMap Passage.own).headD [])).isSome := by
  cases passages with
  | nil => rfl
  | cons passage later =>
    obtain ⟨part, others, hpart, -, rfl⟩ := List.forall₂_cons_right_iff.mp hfit
    obtain ⟨part', others', rfl, hpart', -⟩ := List.map_eq_cons_iff.mp hbare
    have hne' := hne passage List.mem_cons_self
    rw [List.flatMap_cons, headD_append _ hne', List.flatMap_cons, headD_append _ hpart.1]
    cases hkind : part.kind with
    | prose prose =>
      have hbare' : part'.kind.bare = part.kind.bare := congrArg Section.kind hpart'
      rw [hkind] at hbare'
      obtain ⟨lines, hkind'⟩ := BlockKind.eq_prose_of_bare hbare'
      rw [definitionMark?_of_prose ((h.cons hpart.1).1.kind_eq_prose hkind) hterm,
        definitionMark?_of_prose ((h'.cons hne').1.kind_eq_prose hkind') hterm']
    | _ => rw [hpart.2.2 (by simp [hkind])]

/-- If the outline of what is written is that of what was there, each block is
found again. -/
theorem readsBackFrom_of_yields {stage stage' : Stage} {passages : List Passage} {back back' : List Section}
    (h : stage.Yields (passages.flatMap Passage.own) back) (hfit : List.Forall₂ Fits back passages)
    (h' : stage'.Yields (passages.flatMap Passage.written) back')
    (hne : ∀ passage ∈ passages, passage.written ≠ [])
    (hbare : back'.map Section.bare = back.map Section.bare)
    (hcount : back'.map Section.count = passages.map fun passage => passage.written.length) :
    ReadsBackFrom stage stage' passages := by
  induction passages generalizing stage stage' back back' with
  | nil => trivial
  | cons passage later ih =>
    obtain ⟨part, others, hpart, hothers, rfl⟩ := List.forall₂_cons_right_iff.mp hfit
    obtain ⟨part', others', rfl, hpart', hbare⟩ := List.map_eq_cons_iff.mp hbare
    obtain ⟨hlast, hcount⟩ := List.cons_eq_cons.mp hcount
    rw [List.flatMap_cons] at h h'
    obtain ⟨hp, hrest⟩ := h.cons hpart.1
    obtain ⟨hp', hrest'⟩ := h'.cons (hne passage List.mem_cons_self)
    have hmore := (hpart.2.1.trans hp.count_eq).symm
    have hmore' := hp'.count_eq.symm.trans hlast
    have hne := (List.forall_mem_cons.mp hne).2
    refine ⟨fun _ => ⟨?_, hmore'⟩, ih (hrest hmore) hothers (hrest' hmore') hne hbare hcount⟩
    have hkinds : part'.kind.bare = part.kind.bare := congrArg Section.kind hpart'
    by_cases hterm : part.kind.bare = .term []
    -- A term may have been read as one or as a paragraph; what follows tells,
    -- and is the same.
    · have hread := hp.isDefinable hterm
      have hagain := hp'.isDefinable (hkinds.trans hterm)
      have hsame : passage.written = passage.own := hpart.2.2 fun prose hprose => by
        rw [hprose] at hterm
        cases hterm
      have hnext := definitionMark?_headD (hrest hmore) hothers (hrest' hmore') hne hbare
        (makeTerm?_isSome _ _ hread) (makeTerm?_isSome _ _ hagain)
      refine (bare_of_isDefinable hagain (eq_length_tail hmore')).trans ?_
      rw [hnext, hsame]
      exact (bare_of_isDefinable hread (eq_length_tail hmore)).symm
    · have hread := hp.kind_eq hterm
      have hagain := hp'.kind_eq (hkinds ▸ hterm)
      rwa [hread, hagain] at hkinds

/-! ## Documents -/

/-- Front matter that is closed by one of its own lines does not depend on what
follows. -/
theorem frontMatter?_append {text : Text} {own later : List Text} {format : FrontMatter} {extent : Extent}
    (later' : List Text) (hlast : extent.last = own.length)
    (h : frontMatter? text (own ++ later) = some (format, extent)) :
    frontMatter? text (own ++ later') = some (format, extent) := by
  unfold frontMatter? at h ⊢
  dsimp only at h ⊢
  split at h
  · rename_i hfence
    rw [if_pos hfence]
    rw [List.findIdx?_append] at h ⊢
    obtain ⟨k, hk, hformat⟩ := Option.map_eq_some_iff.mp h
    have hown : k + 1 = own.length := (congrArg (fun found => found.2.last) hformat).trans hlast
    rcases Option.or_eq_some_iff.mp hk with hfound | ⟨-, hlater⟩
    · rw [hfound, Option.some_or, Option.map_some, hformat]
    · obtain ⟨i, -, rfl⟩ := Option.map_eq_some_iff.mp hlater
      omega
  · cases h

theorem outline_append {lines : List Text} (later : List Text) (hne : lines ≠ []) :
    outline (lines ++ later) =
      match frontMatter? (lines.headD []) (lines.tail ++ later) with
      | some (format, extent) =>
        (Stage.afterFrontMatter format extent).outline ((lines.tail ++ later).drop extent.last)
      | none => Stage.outline ⟨none, []⟩ (lines ++ later) := by
  cases lines with
  | nil => exact absurd rfl hne
  | cons text rest =>
    rw [List.cons_append, outline, List.headD_cons, List.tail_cons]
    cases hfound : frontMatter? text (rest ++ later) with
    | none => rfl
    | some found =>
      have hnext := (frontMatter?_extent hfound).2
      simp only [Extent.step_eq hnext, hnext, Nat.add_sub_cancel]
      exact outlineFrom_skip _ _ _ _

/-- The front matter at the start of a document is its first section. -/
theorem outline_eq_cons_of_frontMatter {lines later : List Text} {format : FrontMatter} {extent : Extent}
    (hne : lines ≠ []) (hfound : frontMatter? (lines.headD []) (lines.tail ++ later) = some (format, extent)) :
    ∃ back, outline (lines ++ later) = ⟨.frontMatter format, extent⟩ :: back ∧
      (extent.last + 1 = lines.length →
        (Stage.afterFrontMatter format extent).outline later = ⟨.frontMatter format, extent⟩ :: back) := by
  rw [outline_append _ hne, hfound]
  dsimp only
  obtain ⟨parts, back, hparts, hpromotes⟩ := outlineFrom_promotes 0 none [⟨.frontMatter format, extent⟩]
    ((lines.tail ++ later).drop extent.last)
  obtain ⟨before, last, rfl, hbefore, hextent, hkind⟩ := promotions_reverse_cons hpromotes
  rw [List.forall₂_nil_right_iff.mp hbefore] at hparts
  obtain rfl : last = ⟨.frontMatter format, extent⟩ := by
    obtain ⟨kind, own⟩ := last
    rcases hkind with rfl | ⟨_, _, hold, -⟩
    · cases hextent
      rfl
    · cases hold
  refine ⟨back, hparts, fun hmore => ?_⟩
  rwa [drop_tail_append _ hmore] at hparts

/-- Only the start of a document is read as front matter. -/
theorem kind_readSection_ne (column : Option Nat) (before : List Section) (text : Text) (rest : List Text)
    (format : FrontMatter) : (readSection column before text rest).kind ≠ .frontMatter format := by
  have hread := sectionReading column before text rest
  generalize readSection column before text rest = read at hread ⊢
  cases hread with
  | blank | quote | item | definition | term | paragraph => simp [readItem, readDefinition]
  | other hblank hkind =>
    rintro rfl
    cases hkind

/-- Sections on the lines of passages leave none of them without lines. -/
theorem written_ne_nil {parts : List Section} {passages : List Passage}
    (hcount : parts.map Section.count = passages.map fun passage => passage.written.length) :
    ∀ passage ∈ passages, passage.written ≠ [] := by
  intro passage hp hnil
  have hmem : passage.written.length ∈ parts.map Section.count := by
    rw [hcount]
    exact List.mem_map_of_mem hp
  obtain ⟨part, hpart, hlen⟩ := List.mem_map.mp hmem
  rw [hnil] at hlen
  cases hlen

/-- What is written has the outline of what was there, with as many lines for
each block as were written for it. -/
def SameOutline (passages : List Passage) : Prop :=
  (outline (passages.flatMap Passage.written)).map Section.bare =
      (outline (passages.flatMap Passage.own)).map Section.bare ∧
    (outline (passages.flatMap Passage.written)).map Section.count =
      passages.map fun passage => passage.written.length

theorem readsBack_iff_of_frontMatter {first : Passage} {later : List Passage} {format : FrontMatter}
    {extent : Extent} (hfit : List.Forall₂ Fits (outline ((first :: later).flatMap Passage.own)) (first :: later))
    (hfound : frontMatter? (first.own.headD []) (first.own.tail ++ later.flatMap Passage.own) =
      some (format, extent)) : ReadsBack (first :: later) ↔ SameOutline (first :: later) := by
  obtain ⟨part, others, ⟨hne, hcount, hkeep⟩, hothers, hout⟩ := List.forall₂_cons_right_iff.mp hfit
  rw [List.flatMap_cons] at hout
  obtain ⟨back, hcons, hrest⟩ := outline_eq_cons_of_frontMatter hne hfound
  obtain ⟨rfl, rfl⟩ := List.cons_eq_cons.mp (hcons.symm.trans hout)
  have hmore : extent.last + 1 = first.own.length := hcount.symm
  have hsame : first.written = first.own := hkeep (by simp)
  have hfound' := frontMatter?_append (later.flatMap Passage.written) (eq_length_tail hmore) hfound
  obtain ⟨back', hcons', hrest'⟩ := outline_eq_cons_of_frontMatter hne hfound'
  have hyields : (Stage.afterFrontMatter format extent).Yields (later.flatMap Passage.own) back :=
    ⟨[_], hrest hmore, rfl⟩
  simp only [ReadsBack, SameOutline, hfound, List.flatMap_cons, hsame, hcons, hcons']
  constructor
  · intro h
    have hlines := outline_of_readsBackFrom rfl (follows_of_yields hyields hothers) h
    rw [hrest hmore, hrest' hmore] at hlines
    refine ⟨hlines.1, hlines.2.trans ?_⟩
    simp [Stage.afterFrontMatter, hsame, hmore]
  · rintro ⟨hbare, hcounts⟩
    have hwritten := (List.cons_eq_cons.mp hcounts).2
    exact readsBackFrom_of_yields hyields hothers ⟨[_], hrest' hmore, rfl⟩
      (written_ne_nil hwritten) (List.cons_eq_cons.mp hbare).2 hwritten

theorem readsBack_iff_of_none {first : Passage} {later : List Passage}
    (hfit : List.Forall₂ Fits (outline ((first :: later).flatMap Passage.own)) (first :: later))
    (hfound : frontMatter? (first.own.headD []) (first.own.tail ++ later.flatMap Passage.own) = none) :
    ReadsBack (first :: later) ↔ SameOutline (first :: later) := by
  have hne : first.own ≠ [] := by
    obtain ⟨part, others, hpart, -, -⟩ := List.forall₂_cons_right_iff.mp hfit
    exact hpart.1
  have hout : outline ((first :: later).flatMap Passage.own) =
      Stage.outline ⟨none, []⟩ ((first :: later).flatMap Passage.own) := by
    rw [List.flatMap_cons, outline_append _ hne, hfound]
  have hyields : Stage.Yields ⟨none, []⟩ ((first :: later).flatMap Passage.own)
      (outline ((first :: later).flatMap Passage.own)) := ⟨[], hout.symm, rfl⟩
  simp only [ReadsBack, hfound]
  constructor
  · rintro ⟨hfound', h⟩
    have hlines := outline_of_readsBackFrom rfl (follows_of_yields hyields hfit) h
    have hne' := written_ne_nil hlines.2 first List.mem_cons_self
    have hout' : outline ((first :: later).flatMap Passage.written) =
        Stage.outline ⟨none, []⟩ ((first :: later).flatMap Passage.written) := by
      rw [List.flatMap_cons, outline_append _ hne', hfound']
    rw [SameOutline, hout, hout']
    exact hlines
  · rintro ⟨hbare, hcounts⟩
    have hne' := written_ne_nil hcounts
    have hfound' : frontMatter? (first.written.headD [])
        (first.written.tail ++ later.flatMap Passage.written) = none := by
      -- Front matter would be the first section, but what was there is read
      -- without any.
      refine Option.eq_none_iff_forall_ne_some.mpr fun ⟨format, extent⟩ hsome => ?_
      obtain ⟨back', hcons', -⟩ := outline_eq_cons_of_frontMatter (hne' first List.mem_cons_self) hsome
      rw [List.flatMap_cons (f := Passage.written), hcons'] at hbare
      obtain ⟨part, others, hparts, hpart, -⟩ := List.map_eq_cons_iff.mp hbare.symm
      rw [hparts, List.flatMap_cons] at hyields
      have hkind : part.kind.bare = .frontMatter format := congrArg Section.kind hpart
      have hread := (hyields.cons hne).1.kind_eq (by rw [hkind]; simp)
      refine kind_readSection_ne _ _ _ _ format (hread.symm.trans ?_)
      cases hpk : part.kind <;> rw [hpk] at hkind <;> cases hkind
      rfl
    refine ⟨hfound', readsBackFrom_of_yields hyields hfit ⟨[], ?_, rfl⟩ hne' hbare hcounts⟩
    rw [List.flatMap_cons, outline_append _ (hne' first List.mem_cons_self), hfound']
    rfl

/-- The passages of a document are read back just if what is written has the
outline of what was there. -/
theorem readsBack_iff {passages : List Passage}
    (hfit : List.Forall₂ Fits (outline (passages.flatMap Passage.own)) passages) :
    ReadsBack passages ↔ SameOutline passages := by
  cases passages with
  | nil => simp [ReadsBack, SameOutline, outline]
  | cons first later =>
    cases hfound : frontMatter? (first.own.headD []) (first.own.tail ++ later.flatMap Passage.own) with
    | none => exact readsBack_iff_of_none hfit hfound
    | some found => exact readsBack_iff_of_frontMatter hfit hfound

end ProseWrap.Block
