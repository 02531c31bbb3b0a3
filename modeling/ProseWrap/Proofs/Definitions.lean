import ProseWrap.Proofs.Rereading

/-!
# Definitions and what they define

A definition follows a term or another definition, with at most one block of
blank lines between them, and no two blocks of blank lines follow each other.
The reader of a document makes sure of this as it goes: before it takes a line
for a definition, it looks at the blocks that it has read and makes a term of
the paragraph that it finds there. `Ordered` says it of the kinds of the blocks
so far, the last one first. Later blocks make terms of paragraphs and change
nothing else, so it stays true (`Ordered.of_promotion`); each block that is
read keeps it (`ordered_readSection`), and so does the whole document
(`ordered_outline`).
-/

namespace ProseWrap

namespace BlockKind

/-- Whether a block is a definition. -/
def isBody : BlockKind → Bool
  | .prose ⟨.definition _, _⟩ => true
  | _ => false

/-- Whether a block is a term or a definition. -/
def isTermOrBody : BlockKind → Bool
  | .term _ => true
  | kind => kind.isBody

theorem isBody_iff {kind : BlockKind} :
    kind.isBody = true ↔ ∃ marker lines, kind = .prose ⟨.definition marker, lines⟩ := by
  unfold isBody
  split <;> simp_all

end BlockKind

namespace Block

/-! ## Kinds in order -/

/-- The kinds of the blocks before a definition, the last one first: it follows
a term or a definition, or blank lines that do. -/
def Attached : List BlockKind → Prop
  | [] => False
  | kind :: earlier =>
    kind.isTermOrBody = true ∨
      kind = .blank ∧ ∃ other, earlier.head? = some other ∧ other.isTermOrBody = true

/-- In these kinds of blocks, the last one first, each definition has something
to define, and no two blocks of blank lines follow each other. -/
def Ordered : List BlockKind → Prop
  | [] => True
  | kind :: earlier =>
    (kind.isBody = true → Attached earlier) ∧ (kind = .blank → earlier.head? ≠ some .blank) ∧ Ordered earlier

theorem Ordered.of_append {later earlier : List BlockKind} (h : Ordered (later ++ earlier)) : Ordered earlier := by
  induction later with
  | nil => exact h
  | cons kind later ih => exact ih h.2.2

/-! ## Promotions -/

section

variable {part old : Section} {parts olds : List Section}

theorem IsPromotion.isTermOrBody (h : IsPromotion part old) (hold : old.kind.isTermOrBody = true) :
    part.kind.isTermOrBody = true := by
  rcases h.2 with hsame | ⟨indent, lines, -, hterm⟩
  · rwa [hsame]
  · rw [hterm]
    rfl

theorem IsPromotion.isBody (h : IsPromotion part old) (hbody : part.kind.isBody = true) : old.kind.isBody = true := by
  obtain ⟨marker, lines, hkind⟩ := BlockKind.isBody_iff.mp hbody
  exact BlockKind.isBody_iff.mpr ⟨marker, lines, h.kind_eq_prose hkind⟩

theorem IsPromotion.blank_iff (h : IsPromotion part old) : part.kind = .blank ↔ old.kind = .blank := by
  rcases h.2 with hsame | ⟨indent, lines, hold, hterm⟩
  · rw [hsame]
  · simp [hold, hterm]

/-- Blank lines stay blank lines, and nothing else becomes blank. -/
theorem head?_blank_iff (h : List.Forall₂ IsPromotion parts olds) :
    (parts.map Section.kind).head? = some .blank ↔ (olds.map Section.kind).head? = some .blank := by
  cases h with
  | nil => rfl
  | cons hp _ => simpa using hp.blank_iff

theorem Attached.of_promotion (h : List.Forall₂ IsPromotion parts olds) (ha : Attached (olds.map Section.kind)) :
    Attached (parts.map Section.kind) := by
  cases h with
  | nil => exact ha
  | cons hp hrest =>
    rcases ha with ha | ⟨hblank, other, hhead, hother⟩
    · exact .inl (hp.isTermOrBody ha)
    · refine .inr ⟨hp.blank_iff.mpr hblank, ?_⟩
      cases hrest with
      | nil => cases hhead
      | cons hp' _ =>
        cases hhead
        exact ⟨_, rfl, hp'.isTermOrBody hother⟩

theorem Ordered.of_promotion (h : List.Forall₂ IsPromotion parts olds) (ho : Ordered (olds.map Section.kind)) :
    Ordered (parts.map Section.kind) := by
  induction h with
  | nil => trivial
  | cons hp hrest ih =>
    obtain ⟨hbody, hblank, ho⟩ := ho
    refine ⟨fun h => (hbody (hp.isBody h)).of_promotion hrest, fun h => ?_, ih ho⟩
    rw [Ne, head?_blank_iff hrest]
    exact hblank (hp.blank_iff.mp h)

end

/-! ## One block -/

theorem attached_of_attach? {before promoted : List Section} (h : attach? before = some promoted) :
    ∃ kind, (promoted.map Section.kind).head? = some kind ∧ kind.isTermOrBody = true := by
  unfold attach? at h
  split at h
  · cases h
  · rename_i part earlier
    split at h <;> cases h
    · rename_i lines hkind
      exact ⟨part.kind, rfl, by rw [hkind]; rfl⟩
    · rename_i marker lines hkind
      exact ⟨part.kind, rfl, by rw [hkind]; rfl⟩
    · exact ⟨_, rfl, rfl⟩

/-- Where a term is found or made, a definition has something to define. -/
theorem attached_of_makeTerm? {before promoted : List Section} (h : makeTerm? before = some promoted) :
    Attached (promoted.map Section.kind) := by
  unfold makeTerm? at h
  split at h
  · rename_i part earlier
    split at h
    · rename_i hblank
      obtain ⟨others, hothers, rfl⟩ := Option.map_eq_some_iff.mp h
      exact .inr ⟨hblank, attached_of_attach? hothers⟩
    · obtain ⟨kind, hhead, hkind⟩ := attached_of_attach? h
      obtain ⟨others, hcons⟩ := List.head?_eq_some_iff.mp hhead
      rw [hcons]
      exact .inl hkind
  · cases h

section

variable {column : Option Nat} {before : List Section} {text : Text} {rest : List Text}

/-- Blank lines are read as far as they go, and nothing else is read as blank
lines. -/
theorem blank_of_readSection (h : (readSection column before text rest).kind = .blank) :
    Line.isBlank text = true ∧
      (readSection column before text rest).extent = .through (rest.takeWhile Line.isBlank).length := by
  have hread := sectionReading column before text rest
  generalize readSection column before text rest = read at hread h ⊢
  cases hread with
  | blank hblank => exact ⟨hblank, rfl⟩
  | other hblank hkind =>
    cases h
    cases hkind
  | quote | item | definition | term | paragraph => cases h

/-- A definition is read only where it has something to define. -/
theorem attached_of_readSection (h : (readSection column before text rest).kind.isBody = true) :
    Attached ((readSection column before text rest).before.map Section.kind) := by
  have hread := sectionReading column before text rest
  generalize readSection column before text rest = read at hread h ⊢
  cases hread with
  | definition hblank hquote hmark hterm => exact attached_of_makeTerm? hterm
  | @other kind _ _ _ hkind =>
    obtain ⟨marker, lines, rfl⟩ := BlockKind.isBody_iff.mp h
    cases hkind
  | blank | quote | item | term | paragraph => cases h

/-- A block that is read keeps the order, if it does not begin with a blank
line after blank lines. -/
theorem ordered_readSection (hbefore : Ordered (before.map Section.kind))
    (hnext : (before.map Section.kind).head? = some .blank → Line.isBlank text = false) :
    Ordered ((⟨(readSection column before text rest).kind, (readSection column before text rest).extent⟩ ::
      (readSection column before text rest).before : List Section).map Section.kind) := by
  have hsound := (readSection_sound column before text rest).before
  refine ⟨attached_of_readSection, fun hblank hhead => ?_, hbefore.of_promotion hsound⟩
  have htext := (blank_of_readSection hblank).1
  rw [hnext ((head?_blank_iff hsound).mp hhead)] at htext
  cases htext

end

/-! ## Documents -/

/-- The line after all blank lines at the front is not blank. -/
theorem isBlank_of_head?_drop {rest : List Text} {text : Text}
    (h : (rest.drop (rest.takeWhile Line.isBlank).length).head? = some text) : Line.isBlank text = false := by
  have hdrop : rest.drop (rest.takeWhile Line.isBlank).length = rest.dropWhile Line.isBlank := by
    conv => lhs; arg 2; rw [← List.takeWhile_append_dropWhile (p := Line.isBlank) (l := rest)]
    rw [List.drop_left]
  have hnot := List.head?_dropWhile_not Line.isBlank rest
  rw [← hdrop, h] at hnot
  simpa using hnot

/-- If the sections so far are in order, and the next line to be read is not
blank after blank lines, the whole outline is in order. -/
theorem ordered_outlineFrom (skip : Nat) (column : Option Nat) (before : List Section) (texts : List Text)
    (hbefore : Ordered (before.map Section.kind))
    (hnext : (before.map Section.kind).head? = some .blank →
      ∀ text, (texts.drop skip).head? = some text → Line.isBlank text = false) :
    Ordered ((outlineFrom skip column before texts).map Section.kind).reverse := by
  fun_induction outlineFrom skip column before texts with
  | case1 => simpa using hbefore
  | case2 column before text rest skip ih => exact ih hbefore hnext
  | case3 column before text rest read ih =>
    refine ih (ordered_readSection hbefore fun hblank => hnext hblank text rfl) fun hblank next hhead => ?_
    have hkind : read.kind = .blank := by simpa using hblank
    have hextent : read.extent = .through (rest.takeWhile Line.isBlank).length := (blank_of_readSection hkind).2
    rw [hextent, Extent.step_eq rfl, Nat.add_sub_cancel] at hhead
    exact isBlank_of_head?_drop hhead

theorem ordered_outline (texts : List Text) : Ordered ((outline texts).map Section.kind).reverse := by
  cases texts with
  | nil => trivial
  | cons text rest =>
    unfold outline
    dsimp only
    split
    · exact ordered_outlineFrom _ _ _ _ ⟨by simp [BlockKind.isBody], by simp, trivial⟩ (by simp)
    · exact ordered_outlineFrom _ _ _ _ trivial (by simp)

theorem map_kind_place (first : Nat) (lines : List Line) (parts : List Section) :
    (place first lines parts).map Block.kind = parts.map Section.kind := by
  induction parts generalizing first lines with
  | nil => rfl
  | cons part parts ih => rw [place, List.map_cons, ih, List.map_cons]

end Block

/-- Every definition of a document has something to define: right before it
stands a term or another definition, or a block of blank lines with a term or
another definition right before it. And no two blocks of blank lines follow
each other. -/
theorem definitions_follow_terms (text : Text) :
    let blocks := (Document.ofText text).blocks
    (∀ earlier body later, blocks = earlier ++ body :: later → body.kind.isBody = true →
      (∃ front term, earlier = front ++ [term] ∧ term.kind.isTermOrBody = true) ∨
        ∃ front term gap, earlier = front ++ [term, gap] ∧ term.kind.isTermOrBody = true ∧ gap.kind = .blank) ∧
    ∀ earlier block next later, blocks = earlier ++ block :: next :: later →
      ¬(block.kind = .blank ∧ next.kind = .blank) := by
  intro blocks
  have hordered : Block.Ordered (blocks.map Block.kind).reverse := by
    rw [show blocks.map Block.kind = _ from Block.map_kind_place 0 _ _]
    exact Block.ordered_outline _
  refine ⟨fun earlier body later heq hbody => ?_, fun earlier block next later heq => ?_⟩
  · have hsplit : (blocks.map Block.kind).reverse =
        (later.map Block.kind).reverse ++ body.kind :: (earlier.map Block.kind).reverse := by simp [heq]
    rw [hsplit] at hordered
    have hattached := hordered.of_append.1 hbody
    rcases List.eq_nil_or_concat earlier with rfl | ⟨others, last, rfl⟩
    · cases hattached
    · rw [List.concat_eq_append, List.map_append, List.reverse_append] at hattached
      rcases hattached with hlast | ⟨hblank, kind, hhead, hkind⟩
      · exact .inl ⟨others, last, List.concat_eq_append, hlast⟩
      · rcases List.eq_nil_or_concat others with rfl | ⟨front, term, rfl⟩
        · cases hhead
        · obtain rfl : term.kind = kind := by simpa using hhead
          exact .inr ⟨front, term, last, by simp, hkind, hblank⟩
  · rintro ⟨hblock, hblank⟩
    have hsplit : (blocks.map Block.kind).reverse =
        (later.map Block.kind).reverse ++ next.kind :: block.kind :: (earlier.map Block.kind).reverse := by simp [heq]
    rw [hsplit] at hordered
    exact hordered.of_append.2.1 hblank (congrArg some hblock)

/-- A paragraph before blank lines becomes a term when a definition follows
them. -/
example : (Document.ofText "t\n\n \n: d\n".toList).blocks.map Block.kind =
    [.term [['t']], .blank, .prose ⟨.definition [':', ' '], [['d']]⟩] := by decide +kernel

end ProseWrap
