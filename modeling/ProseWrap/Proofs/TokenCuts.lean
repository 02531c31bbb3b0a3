import ProseWrap.Proofs.SentenceEnds
import ProseWrap.Proofs.Tokens

/-!
# Where a text is cut into tokens

A text is read as atoms: the characters outside the spans, one by one, and the
pieces of the spans (`Atom.ofText`). Reading the words, gluing them and
measuring them puts consecutive atoms together (`Draft.Reads`, `Grouped`) and
drops the gaps among them, so every cut between two tokens is a cut between two
atoms. With offsets for atoms, this says that no token ends strictly inside a
span, or inside a fragment of emphasis that is taken apart
(`tokens_keep_spans_whole`).
-/

namespace ProseWrap

/-! ## Texts that are cut -/

namespace Text

/-- The characters of a text from `start` up to `stop`, but for the gaps that
lie in none of the ranges. -/
def keptBetween (text : Text) (ranges : List (Nat × Nat)) (start stop : Nat) : Text :=
  (((slice text start stop).zipIdx start).filter fun (c, i) =>
    !isGap c || ranges.any fun range => range.1 ≤ i && i < range.2).map Prod.fst

/-- A text is cut into `pieces`: they are the text without the gaps outside the
ranges, and the cuts between them are places of the text of which none lies
strictly inside a range. -/
structure CutInto (text : Text) (ranges : List (Nat × Nat)) (pieces : List Text) : Prop where
  flatten : pieces.flatten = keptBetween text ranges 0 text.length
  cuts : pieces ≠ [] → ∃ cuts : List Nat,
    (0 :: (cuts ++ [text.length])).Pairwise (· < ·) ∧
    (∀ cut ∈ cuts, ∀ range ∈ ranges, cut ≤ range.1 ∨ range.2 ≤ cut) ∧
    pieces = List.zipWith (keptBetween text ranges) (0 :: cuts) (cuts ++ [text.length])

theorem keptBetween_append (text : Text) (ranges : List (Nat × Nat)) {start middle stop : Nat}
    (hstart : start ≤ middle) (hmiddle : middle ≤ stop) (hstop : stop ≤ text.length) :
    keptBetween text ranges start stop =
      keptBetween text ranges start middle ++ keptBetween text ranges middle stop := by
  have hlength : start + (slice text start middle).length = middle := by
    rw [length_slice (by omega)]
    omega
  rw [keptBetween, ← slice_append_slice hstart hmiddle, List.zipIdx_append, hlength, List.filter_append,
    List.map_append]
  rfl

end Text

/-! ## Atoms -/

/-- What tokens are put together from: a character outside the spans, or a
piece that must stay whole. -/
inductive Atom where
  | char (c : Char)
  | piece (text : Text)

namespace Atom

/-- What an atom is written as. -/
def source : Atom → Text
  | char c => [c]
  | piece text => text

/-- What a token keeps of an atom. -/
def kept : Atom → Text
  | char c => if Text.isGap c then [] else [c]
  | piece text => text

/-- The offsets of the pieces among atoms that are written from offset `start`
on. -/
def ranges : Nat → List Atom → List (Nat × Nat)
  | _, [] => []
  | start, char _ :: rest => ranges (start + 1) rest
  | start, piece text :: rest => (start, start + text.length) :: ranges (start + text.length) rest

/-- The atoms of a text from offset `start` on, where every span is replaced by
its pieces. -/
def between (pieces : Span × Forest → List Text) (text : Text) (start : Nat) :
    List (Span × Forest) → List Atom
  | [] => (text.drop start).map char
  | tree :: rest =>
    (Text.slice text start tree.1.start).map char ++
      ((pieces tree).map piece ++ between pieces text tree.1.stop rest)

/-- The atoms of a text in which every outermost span is replaced by its
pieces. -/
def ofText (pieces : Span × Forest → List Text) (text : Text) : List Atom :=
  between pieces text 0 (Forest.ofText text).trees

@[simp] theorem flatMap_source_map_char (text : Text) : (text.map char).flatMap source = text := by
  rw [List.flatMap_map]
  exact List.flatMap_singleton' text

@[simp] theorem flatMap_source_map_piece (pieces : List Text) :
    (pieces.map piece).flatMap source = pieces.flatten := by
  rw [List.flatMap_map]
  exact List.flatMap_id'

/-- What is kept of atoms is no longer than they are. -/
theorem length_kept_le (atoms : List Atom) :
    (atoms.flatMap kept).length ≤ (atoms.flatMap source).length := by
  induction atoms with
  | nil => exact Nat.le_refl _
  | cons atom rest ih =>
    have hatom : atom.kept.length ≤ atom.source.length := by
      cases atom with
      | char c =>
        simp only [kept, source]
        split <;> simp
      | piece text => exact Nat.le_refl _
    simp only [List.flatMap_cons, List.length_append]
    omega

/-! ### Offsets -/

theorem ranges_append (start : Nat) (atoms more : List Atom) :
    ranges start (atoms ++ more) =
      ranges start atoms ++ ranges (start + (atoms.flatMap source).length) more := by
  induction atoms generalizing start with
  | nil => simp [ranges]
  | cons atom rest ih =>
    cases atom with
    | char c => simp [ranges, ih, source, Nat.add_assoc, Nat.add_comm 1]
    | piece text => simp [ranges, ih, source, Nat.add_assoc]

@[simp] theorem ranges_map_char (start : Nat) (text : Text) : ranges start (text.map char) = [] := by
  induction text generalizing start with
  | nil => rfl
  | cons c rest ih => exact ih (start + 1)

theorem bounds_of_mem_ranges {start : Nat} {atoms : List Atom} {range : Nat × Nat}
    (h : range ∈ ranges start atoms) :
    start ≤ range.1 ∧ range.2 ≤ start + (atoms.flatMap source).length := by
  induction atoms generalizing start with
  | nil => cases h
  | cons atom rest ih =>
    cases atom with
    | char c =>
      have := ih h
      simp only [List.flatMap_cons, source, List.length_append, List.length_singleton]
      omega
    | piece text =>
      simp only [List.flatMap_cons, source, List.length_append]
      rcases List.mem_cons.mp h with rfl | hrest
      · exact ⟨Nat.le_refl _, by simp only; omega⟩
      · have := ih hrest
        omega

/-- A place between two atoms lies strictly inside no piece. -/
theorem not_inside_ranges (front back : List Atom) :
    ∀ range ∈ ranges 0 (front ++ back),
      (front.flatMap source).length ≤ range.1 ∨ range.2 ≤ (front.flatMap source).length := by
  intro range hr
  rw [ranges_append] at hr
  rcases List.mem_append.mp hr with hfront | hback
  · have := bounds_of_mem_ranges hfront
    omega
  · have := bounds_of_mem_ranges hback
    omega

/-- Between the places of an atom, the text keeps what the atom does. -/
theorem keptBetween_atom (front : List Atom) (atom : Atom) (back : List Atom) :
    Text.keptBetween ((front ++ atom :: back).flatMap source) (ranges 0 (front ++ atom :: back))
        (front.flatMap source).length ((front ++ [atom]).flatMap source).length = atom.kept := by
  have hslice : Text.slice ((front ++ atom :: back).flatMap source) (front.flatMap source).length
      ((front ++ [atom]).flatMap source).length = atom.source := by
    simp [Text.slice]
  rw [Text.keptBetween, hslice, ranges_append, Nat.zero_add]
  cases atom with
  | char c =>
    -- what comes before the character stops there, and what comes after it
    -- starts later
    have hfree : ((ranges 0 front ++ ranges (front.flatMap source).length (char c :: back)).any fun range =>
        range.1 ≤ (front.flatMap source).length && (front.flatMap source).length < range.2) = false := by
      rw [List.any_eq_false]
      intro range hr
      rcases List.mem_append.mp hr with hfront | hback
      · have := bounds_of_mem_ranges hfront
        simp only [Bool.and_eq_true, decide_eq_true_eq]
        omega
      · have hlater : range ∈ ranges ((front.flatMap source).length + 1) back := hback
        have := bounds_of_mem_ranges hlater
        simp only [Bool.and_eq_true, decide_eq_true_eq]
        omega
    simp only [source, kept, List.zipIdx_singleton, List.filter_singleton, hfree, Bool.or_false]
    cases Text.isGap c <;> rfl
  | piece text =>
    have hwhole : ∀ place ∈ text.zipIdx (front.flatMap source).length, (!Text.isGap place.1 ||
        (ranges 0 front ++ ranges (front.flatMap source).length (piece text :: back)).any fun range =>
          range.1 ≤ place.2 && place.2 < range.2) = true := by
      intro place hp
      have hplace := List.mem_zipIdx hp
      refine Bool.or_eq_true_iff.mpr (.inr (List.any_eq_true.mpr ⟨_, List.mem_append_right _ List.mem_cons_self, ?_⟩))
      simp only [Bool.and_eq_true, decide_eq_true_eq]
      omega
    rw [source, List.filter_eq_self.mpr hwhole, List.zipIdx_map_fst]
    rfl

/-- Between two places between atoms, the text keeps what the atoms there
do. -/
theorem keptBetween_atoms (front middle back : List Atom) :
    Text.keptBetween ((front ++ middle ++ back).flatMap source) (ranges 0 (front ++ middle ++ back))
        (front.flatMap source).length ((front ++ middle).flatMap source).length = middle.flatMap kept := by
  induction middle generalizing front with
  | nil => simp [Text.keptBetween, Text.slice]
  | cons atom rest ih =>
    have hatom := keptBetween_atom front atom (rest ++ back)
    have hrest := ih (front ++ [atom])
    simp only [List.append_assoc, List.cons_append, List.nil_append] at hatom hrest ⊢
    rw [Text.keptBetween_append, hatom, hrest, List.flatMap_cons]
    all_goals
      simp only [List.flatMap_append, List.flatMap_cons, List.flatMap_nil, List.length_append, List.length_nil]
      omega

end Atom

/-! ## Atoms put together -/

/-- Texts that are what is kept of consecutive groups of atoms. -/
def Grouped (texts : List Text) (atoms : List Atom) : Prop :=
  ∃ groups : List (List Atom), atoms = groups.flatten ∧ texts = groups.map fun group => group.flatMap Atom.kept

namespace Grouped

variable {texts : List Text} {atoms others : List Atom}

theorem nil : Grouped [] [] := ⟨[], rfl, rfl⟩

theorem concat (h : Grouped texts atoms) (group : List Atom) :
    Grouped (texts ++ [group.flatMap Atom.kept]) (atoms ++ group) := by
  obtain ⟨groups, rfl, rfl⟩ := h
  exact ⟨groups ++ [group], by simp, by simp⟩

/-- Two neighbours may be put together. -/
theorem join {front back : List Text} {left right : Text} (h : Grouped (front ++ left :: right :: back) atoms) :
    Grouped (front ++ (left ++ right) :: back) atoms := by
  obtain ⟨groups, rfl, htexts⟩ := h
  obtain ⟨before, after, rfl, rfl, hafter⟩ := List.append_eq_map_iff.mp htexts
  obtain ⟨first, rest, rfl, rfl, hrest⟩ := List.map_eq_cons_iff.mp hafter
  obtain ⟨second, after, rfl, rfl, rfl⟩ := List.map_eq_cons_iff.mp hrest
  exact ⟨before ++ (first ++ second) :: after, by simp, by simp⟩

/-- Atoms of which nothing is kept may be added to the last group. -/
theorem extend (h : Grouped texts atoms) (hne : texts ≠ []) (hkept : others.flatMap Atom.kept = []) :
    Grouped texts (atoms ++ others) := by
  obtain ⟨groups, rfl, rfl⟩ := h
  have hgroups : groups ≠ [] := by simpa using hne
  obtain ⟨before, last, rfl⟩ := (List.eq_nil_or_concat groups).resolve_left hgroups
  exact ⟨before ++ [last ++ others], by simp, by simp [hkept]⟩

theorem flatten (h : Grouped texts atoms) : texts.flatten = atoms.flatMap Atom.kept := by
  obtain ⟨groups, rfl, rfl⟩ := h
  simp only [List.flatMap, List.map_flatten, List.flatten_flatten, List.map_map]
  rfl

end Grouped

/-- What consecutive groups keep is cut out of the text at places between
atoms. -/
theorem Grouped.exists_cuts {groups : List (List Atom)} (hne : groups ≠ [])
    (hink : ∀ group ∈ groups, group.flatMap Atom.kept ≠ []) (front : List Atom) :
    let atoms := front ++ groups.flatten
    let text := atoms.flatMap Atom.source
    ∃ cuts : List Nat,
      ((front.flatMap Atom.source).length :: (cuts ++ [text.length])).Pairwise (· < ·) ∧
      (∀ cut ∈ cuts, ∀ range ∈ Atom.ranges 0 atoms, cut ≤ range.1 ∨ range.2 ≤ cut) ∧
      groups.map (fun group => group.flatMap Atom.kept) =
        List.zipWith (Text.keptBetween text (Atom.ranges 0 atoms)) ((front.flatMap Atom.source).length :: cuts)
          (cuts ++ [text.length]) := by
  induction groups generalizing front with
  | nil => cases hne rfl
  | cons group rest ih =>
    have hgroup : 0 < (group.flatMap Atom.source).length :=
      Nat.lt_of_lt_of_le (List.length_pos_iff.mpr (hink group List.mem_cons_self)) (Atom.length_kept_le group)
    have hkept := Atom.keptBetween_atoms front group rest.flatten
    cases rest with
    | nil =>
      refine ⟨[], ?_, by simp, ?_⟩
      · rw [List.nil_append, List.pairwise_pair, List.flatMap_append, List.length_append, List.flatten_singleton]
        omega
      · simpa using hkept.symm
    | cons second rest =>
      obtain ⟨cuts, hpairwise, hplaces, htexts⟩ := ih (List.cons_ne_nil _ _)
        (fun other ho => hink other (List.mem_cons_of_mem _ ho)) (front ++ group)
      have hatoms : front ++ (group :: second :: rest).flatten = front ++ group ++ (second :: rest).flatten := by
        simp
      have hlt : (front.flatMap Atom.source).length < ((front ++ group).flatMap Atom.source).length := by
        rw [List.flatMap_append, List.length_append]
        omega
      dsimp only
      rw [hatoms]
      refine ⟨((front ++ group).flatMap Atom.source).length :: cuts, ?_, ?_, ?_⟩
      · refine List.pairwise_cons.mpr ⟨fun place hp => ?_, hpairwise⟩
        rcases List.mem_cons.mp hp with rfl | hp
        · exact hlt
        · exact Nat.lt_trans hlt ((List.pairwise_cons.mp hpairwise).1 place hp)
      · exact List.forall_mem_cons.mpr ⟨Atom.not_inside_ranges _ _, hplaces⟩
      · rw [List.map_cons, List.cons_append, List.zipWith_cons_cons, htexts, hkept]

/-- Texts of consecutive groups are cut out of what the atoms are written
as. -/
theorem Text.cutInto_of_grouped {texts : List Text} {atoms : List Atom}
    (hflatten : texts.flatten = atoms.flatMap Atom.kept) (hgrouped : texts ≠ [] → Grouped texts atoms)
    (hink : ∀ text ∈ texts, text ≠ []) :
    Text.CutInto (atoms.flatMap Atom.source) (Atom.ranges 0 atoms) texts where
  flatten := by
    have hkept := Atom.keptBetween_atoms [] atoms []
    simp only [List.nil_append, List.append_nil, List.flatMap_nil, List.length_nil] at hkept
    rw [hflatten, hkept]
  cuts hne := by
    obtain ⟨groups, rfl, rfl⟩ := hgrouped hne
    exact Grouped.exists_cuts (by simpa using hne) (fun group hg => hink _ (List.mem_map_of_mem hg)) []

/-! ## Reading words -/

namespace Draft

/-- A draft has put atoms together: its words are groups of them, and the
current word is what is kept of the last ones. -/
def Reads (draft : Draft) (atoms : List Atom) : Prop :=
  ∃ done last, atoms = done ++ last ∧ Grouped (draft.words.reverse.map Word.text) done ∧
    draft.current.reverse = last.flatMap Atom.kept

variable {draft : Draft} {atoms : List Atom}

theorem Reads.empty : Draft.empty.Reads [] := ⟨[], [], rfl, .nil, rfl⟩

theorem Reads.finish (h : draft.Reads atoms) (sentenceEnd : Bool) : (draft.finish sentenceEnd).Reads atoms := by
  obtain ⟨done, last, rfl, hdone, hlast⟩ := h
  unfold Draft.finish
  split
  · rename_i hempty
    rw [List.isEmpty_iff.mp hempty] at hlast
    split
    · rename_i word before hwords
      exact ⟨done, last, rfl, by simpa [hwords] using hdone, hlast⟩
    · rename_i hwords
      exact ⟨done, last, rfl, by simpa [hwords, Draft.empty] using hdone, hlast⟩
  · refine ⟨done ++ last, [], by simp, ?_, rfl⟩
    rw [List.reverse_cons, List.map_append, List.map_singleton, hlast]
    exact hdone.concat last

theorem Reads.ite_finish (h : draft.Reads atoms) (ended : Bool) :
    (if ended then draft.finish true else draft).Reads atoms := by
  split
  · exact h.finish true
  · exact h

theorem Reads.addPiece (h : draft.Reads atoms) (piece : Text) :
    (draft.addPiece piece).Reads (atoms ++ [.piece piece]) := by
  obtain ⟨done, last, rfl, hdone, hlast⟩ := h
  exact ⟨done, last ++ [.piece piece], by simp, hdone, by simp [Draft.addPiece, hlast, Atom.kept]⟩

theorem Reads.addPieces (h : draft.Reads atoms) (pieces : List Text) :
    (draft.addPieces pieces).Reads (atoms ++ pieces.map .piece) := by
  cases pieces with
  | nil => simpa [Draft.addPieces] using h
  | cons first rest =>
    have hfirst := h.addPiece first
    rw [Draft.addPieces, List.map_cons, ← List.singleton_append, ← List.append_assoc]
    generalize draft.addPiece first = draft, atoms ++ [Atom.piece first] = atoms at hfirst
    induction rest generalizing draft atoms with
    | nil => simpa using hfirst
    | cons piece rest ih =>
      have hnext := ih _ _ ((hfirst.finish true).addPiece piece)
      simpa using hnext

/-- A gap ends the word, and any other character is added to it. -/
theorem Reads.addChar (h : draft.Reads atoms) (c : Char) :
    (if Text.isGap c then draft.finish false else draft.addChar c).Reads (atoms ++ [.char c]) := by
  obtain ⟨done, last, rfl, hdone, hlast⟩ := h
  split
  · rename_i hc
    refine Reads.finish ⟨done, last ++ [.char c], by simp, hdone, ?_⟩ false
    simp [hlast, Atom.kept, hc]
  · rename_i hc
    exact ⟨done, last ++ [.char c], by simp, hdone, by simp [Draft.addChar, hlast, Atom.kept, hc]⟩

end Draft

variable {set : Abbreviations} {mode : SentenceHandling} {text : Text}

/-- The spans of a list of trees stand apart, from offset `start` on. -/
structure Forest.ApartFrom (text : Text) (start : Nat) (trees : List (Span × Forest)) : Prop where
  apart : Span.Apart text text.length (trees.map Prod.fst)
  le_start : ∀ tree ∈ trees, start ≤ tree.1.start

namespace Forest.ApartFrom

variable {start : Nat} {tree : Span × Forest} {trees : List (Span × Forest)}

theorem bounds (h : ApartFrom text start (tree :: trees)) :
    start ≤ tree.1.start ∧ tree.1.start < tree.1.stop ∧ tree.1.stop ≤ text.length :=
  ⟨h.le_start tree List.mem_cons_self, h.apart.proper tree.1 List.mem_cons_self⟩

theorem rest (h : ApartFrom text start (tree :: trees)) : ApartFrom text tree.1.stop trees where
  apart := h.apart.of_sublist (List.sublist_cons_self ..)
  le_start other ho := (List.pairwise_cons.mp h.apart.pairwise).1 other.1 (List.mem_map_of_mem ho)

theorem later {next : Nat} (h : ApartFrom text start trees) (hnext : ∀ tree ∈ trees, next ≤ tree.1.start) :
    ApartFrom text next trees := ⟨h.apart, hnext⟩

/-- A text has no spans from its end on. -/
theorem eq_nil (h : ApartFrom text start trees) (hstart : text.length ≤ start) : trees = [] := by
  cases trees with
  | nil => rfl
  | cons tree trees =>
    have := h.bounds
    omega

theorem ofText (text : Text) : ApartFrom text 0 (Forest.ofText text).trees :=
  ⟨by rw [map_fst_trees]; exact apart_roots text, fun _ _ => Nat.zero_le _⟩

end Forest.ApartFrom

namespace Atom

variable {pieces : Span × Forest → List Text} {start : Nat} {c : Char}

theorem between_of_start {tree : Span × Forest} {trees : List (Span × Forest)} (h : tree.1.start = start) :
    between pieces text start (tree :: trees) =
      (pieces tree).map piece ++ between pieces text tree.1.stop trees := by
  rw [between, h, Text.slice_eq_nil (Nat.le_refl _)]
  rfl

/-- Where no span starts, the next atom is a character. -/
theorem between_of_not_start {trees : List (Span × Forest)} (hstart : ∀ tree ∈ trees, start < tree.1.start)
    {rest : Text} (hrest : text.drop start = c :: rest) :
    between pieces text start trees = char c :: between pieces text (start + 1) trees := by
  cases trees with
  | nil => rw [between, between, hrest, Text.drop_add_one hrest, List.map_cons]
  | cons tree trees =>
    have hlt := hstart tree List.mem_cons_self
    have hslice : Text.slice text start tree.1.start = c :: Text.slice text (start + 1) tree.1.start := by
      rw [Text.slice, Text.slice, hrest, Text.drop_add_one hrest,
        show tree.1.start - start = tree.1.start - (start + 1) + 1 by omega, List.take_succ_cons]
    rw [between, between, hslice, List.map_cons, List.cons_append]

end Atom

theorem Forest.ApartFrom.lt_start {i : Nat} {trees : List (Span × Forest)} (h : ApartFrom text i trees)
    (hnone : treeAt? i trees = none) : ∀ tree ∈ trees, i < tree.1.start := by
  cases trees with
  | nil => simp
  | cons first trees =>
    have hfirst : first.1.start ≠ i := by simpa [treeAt?] using hnone
    have hbounds := h.bounds
    refine List.forall_mem_cons.mpr ⟨by omega, fun tree ht => ?_⟩
    have := h.rest.le_start tree ht
    omega

/-- Reading the words of a text puts its atoms together. -/
theorem wordsFrom_reads (trees : List (Span × Forest)) (ends : List Nat) (resume i : Nat) (draft : Draft)
    (rest : Text) (hrest : text.drop i = rest) (htrees : Forest.ApartFrom text (max i resume) trees)
    (atoms : List Atom) (h : draft.Reads atoms) :
    (wordsFrom set mode text trees ends resume i draft rest).Reads
      (atoms ++ Atom.between (fun tree => spanPieces set mode text tree.1 tree.2) text (max i resume) trees) := by
  fun_induction wordsFrom set mode text trees ends resume i draft rest generalizing atoms with
  | case1 trees ends resume i draft =>
    have hlength : text.length ≤ max i resume :=
      Nat.le_trans (List.drop_eq_nil_iff.mp hrest) (Nat.le_max_left _ _)
    rw [htrees.eq_nil hlength, Atom.between, List.drop_eq_nil_of_le hlength, List.map_nil, List.append_nil]
    exact h.finish false
  | case2 trees ends resume i draft c rest hlt ih =>
    rw [show max i resume = max (i + 1) resume by omega] at htrees ⊢
    exact ih (Text.drop_add_one hrest) htrees atoms h
  | case3 trees ends resume i draft c rest hlt left ended draft' span children htree ih =>
    obtain ⟨hcons, hstart⟩ := treeAt?_eq_some htree
    rw [show max i resume = i by omega] at htrees ⊢
    rw [hcons] at htrees
    have hbounds := htrees.bounds
    simp only at hstart hbounds
    have hmax : max (i + 1) span.stop = span.stop := by omega
    rw [hmax] at ih
    have hnext := ih (Text.drop_add_one hrest) htrees.rest _
      ((h.ite_finish ended).addPieces (spanPieces set mode text span children))
    rw [hcons, Atom.between_of_start hstart, ← List.append_assoc]
    exact hnext
  | case4 trees ends resume i draft c rest hlt left ended draft' htree draft'' ih =>
    rw [show max i resume = i by omega] at htrees ⊢
    rw [show max (i + 1) resume = i + 1 by omega] at ih
    have hlater := htrees.lt_start htree
    have hnext := ih (Text.drop_add_one hrest) (htrees.later hlater) _ ((h.ite_finish ended).addChar c)
    rw [Atom.between_of_not_start hlater hrest, ← List.singleton_append, ← List.append_assoc]
    exact hnext

/-! ## Gluing words -/

/-- Gluing puts neighbours together. -/
theorem Grouped.glueFrom {atoms : List Atom} (out : List Word) (opener : Option Word) (words : List Word)
    (h : Grouped ((out.reverse ++ opener.toList ++ words).map Word.text) atoms) :
    Grouped ((ProseWrap.glueFrom out opener words).map Word.text) atoms := by
  -- the word that waits and the next one
  have hglued {out rest : List Word} {opener : Option Word} {word : Word}
      (h : Grouped ((out.reverse ++ opener.toList ++ word :: rest).map Word.text) atoms) :
      Grouped ((out.reverse ++ (opener.map fun left => left.append word).getD word :: rest).map Word.text) atoms := by
    cases opener with
    | none => simpa using h
    | some left =>
      simp only [Option.toList_some, List.append_assoc, List.singleton_append, List.map_append, List.map_cons] at h ⊢
      exact h.join
  fun_induction ProseWrap.glueFrom out opener words with
  | case1 out opener => cases opener <;> simpa using h
  | case2 word rest last before _ ih =>
    refine ih ?_
    simp only [List.reverse_cons, Option.toList_none, List.append_nil, List.append_assoc, List.singleton_append,
      List.map_append, List.map_cons] at h ⊢
    exact h.join
  | case3 word rest last before _ _ ih => exact ih (by simpa using h)
  | case4 word rest last before _ _ ih => exact ih (by simpa using h)
  | case5 out opener word rest glued hopen _ ih =>
    dsimp only
    rw [if_pos hopen]
    exact ih (by simpa using hglued h)
  | case6 out opener word rest glued hopen _ ih =>
    dsimp only
    rw [if_neg hopen]
    exact ih (by simpa using hglued h)

/-! ## Tokens -/

/-- Reading a text puts its atoms together into words, and at most gaps are
left at its end. -/
theorem exists_grouped_words (set : Abbreviations) (mode : SentenceHandling) (text : Text) :
    ∃ done last, Atom.ofText (fun tree => spanPieces set mode text tree.1 tree.2) text = done ++ last ∧
      Grouped ((words set mode text).map Word.text) done ∧ last.flatMap Atom.kept = [] := by
  obtain ⟨done, last, hatoms, hdone, hlast⟩ := wordsFrom_reads (Forest.ofText text).trees
    (if mode = .ignored then [] else Sentence.boundaries set text (Forest.ofText text).roots 0 text.length)
    0 0 .empty text rfl (.ofText text) [] .empty
  rw [wordsFrom_current] at hlast
  exact ⟨done, last, hatoms, hdone, hlast.symm⟩

/-- The tokens of a text are cut out of the text with its spans replaced by
their pieces. -/
theorem cutInto_tokenize (lengthMode : LengthMode) (set : Abbreviations) (mode : SentenceHandling) (text : Text) :
    let atoms := Atom.ofText (fun tree => spanPieces set mode text tree.1 tree.2) text
    Text.CutInto (atoms.flatMap Atom.source) (Atom.ranges 0 atoms)
      ((tokenize lengthMode set mode text).map Token.text) := by
  intro atoms
  obtain ⟨done, last, hatoms, hdone, hlast⟩ := exists_grouped_words set mode text
  have htokens : Grouped ((tokenize lengthMode set mode text).map Token.text) done := by
    rw [tokenize, List.map_map]
    exact Grouped.glueFrom [] none _ (by simpa using hdone)
  dsimp only [atoms]
  rw [hatoms]
  refine Text.cutInto_of_grouped ?_ (fun hne => htokens.extend hne hlast) (fun piece hp => ?_)
  · rw [htokens.flatten, List.flatMap_append, hlast, List.append_nil]
  · obtain ⟨token, ht, rfl⟩ := List.mem_map.mp hp
    intro hnil
    have hink := ink_of_mem_tokenize ht
    rw [hnil, Text.ink_nil] at hink
    exact Nat.lt_irrefl 0 hink

/-- A span as the only piece of itself. -/
def wholePiece (text : Text) (tree : Span × Forest) : List Text := [Text.slice text tree.1.start tree.1.stop]

/-- The fragments of emphasis, and any other span as the only piece of
itself. -/
def emphasisPieces (set : Abbreviations) (text : Text) (tree : Span × Forest) : List Text :=
  if tree.1.isEmphasis then Sentence.fragments set text tree.1 tree.2 else wholePiece text tree

/-- A text in which no span is taken apart is written as it was. -/
theorem source_between_wholePiece {start : Nat} {trees : List (Span × Forest)}
    (h : Forest.ApartFrom text start trees) :
    (Atom.between (wholePiece text) text start trees).flatMap Atom.source = text.drop start := by
  induction trees generalizing start with
  | nil => rw [Atom.between, Atom.flatMap_source_map_char]
  | cons tree trees ih =>
    obtain ⟨hle, hlt, -⟩ := h.bounds
    have hdrop : text.drop tree.1.stop = (text.drop start).drop (tree.1.stop - start) := by
      rw [List.drop_drop, show start + (tree.1.stop - start) = tree.1.stop by omega]
    rw [Atom.between, List.flatMap_append, List.flatMap_append, ih h.rest, Atom.flatMap_source_map_char,
      Atom.flatMap_source_map_piece, wholePiece, List.flatten_singleton, ← List.append_assoc,
      Text.slice_append_slice hle hlt.le, Text.slice, hdrop, List.take_append_drop]

theorem ranges_between_wholePiece {start : Nat} {trees : List (Span × Forest)}
    (h : Forest.ApartFrom text start trees) :
    Atom.ranges start (Atom.between (wholePiece text) text start trees) =
      trees.map fun tree => (tree.1.start, tree.1.stop) := by
  induction trees generalizing start with
  | nil => rw [Atom.between, Atom.ranges_map_char, List.map_nil]
  | cons tree trees ih =>
    obtain ⟨hle, hlt, hstop⟩ := h.bounds
    have hbefore : start + (Text.slice text start tree.1.start).length = tree.1.start := by
      rw [Text.length_slice (by omega)]
      omega
    have hspan : tree.1.start + (Text.slice text tree.1.start tree.1.stop).length = tree.1.stop := by
      rw [Text.length_slice (by omega)]
      omega
    rw [Atom.between, Atom.ranges_append, Atom.ranges_map_char, Atom.flatMap_source_map_char, hbefore, wholePiece,
      List.map_singleton, List.singleton_append, Atom.ranges, hspan, ih h.rest, List.map_cons, List.nil_append]

/-- Tokens keep every outermost span whole. Unless sentences are split, they
are the text without the gaps outside those spans, and no cut between two of
them lies strictly inside a span. If sentences are split, this is so of the
text in which emphasis is replaced by its fragments, and of spans and fragments
alike. -/
theorem tokens_keep_spans_whole (lengthMode : LengthMode) (set : Abbreviations) (mode : SentenceHandling)
    (text : Text) :
    let texts := (tokenize lengthMode set mode text).map Token.text
    let restated := Atom.ofText (emphasisPieces set text) text
    if mode = .split then Text.CutInto (restated.flatMap Atom.source) (Atom.ranges 0 restated) texts
    else Text.CutInto text ((Forest.ofText text).roots.map fun span => (span.start, span.stop)) texts := by
  intro texts restated
  have hcut := cutInto_tokenize lengthMode set mode text
  dsimp only at hcut
  split
  · rename_i hmode
    have hpieces : (fun tree => spanPieces set mode text tree.1 tree.2) = emphasisPieces set text := by
      funext tree
      rw [spanPieces, if_pos hmode]
      cases htree : tree.1.isEmphasis <;> simp [emphasisPieces, wholePiece, Sentence.fragments, htree]
    rw [hpieces] at hcut
    exact hcut
  · rename_i hmode
    have hpieces : (fun tree => spanPieces set mode text tree.1 tree.2) = wholePiece text := by
      funext tree
      rw [spanPieces, if_neg hmode]
      rfl
    have hapart := Forest.ApartFrom.ofText text
    rw [hpieces, Atom.ofText, source_between_wholePiece hapart, ranges_between_wholePiece hapart] at hcut
    rw [← Forest.map_fst_trees, List.map_map]
    exact hcut

end ProseWrap
