import ProseWrap.Proofs.Lines

/-!
# Splitting into lines and writing them out

The lines of a document, written one after the other, are the document, and
they cover it without a gap (`Line.Covers`). Texts with newlines are the lines
of some document just if no text holds a line feed, no text ends with a
carriage return that the line feed behind it would take, and only the last one,
which is not empty then, has no newline (`Line.Separated`); the document is
what they make, so that splitting and writing out are inverse to each other
(`lines_invert_concat`).
-/

namespace ProseWrap.Line

/-- The text and the newline of a line, without its place. -/
def parts (line : Line) : Text × Newline := (line.text, line.newline)

/-- The document that texts with their newlines make. -/
def concat (pairs : List (Text × Newline)) : Text := pairs.flatMap fun pair => pair.1 ++ pair.2.text

/-- Lines with their indexes that make up a document. -/
structure Covers (source : Text) (lines : List (Line × Nat)) : Prop where
  /-- One after the other, the lines are the document. -/
  concat : lines.flatMap (fun entry => entry.1.text ++ entry.1.newline.text) = source
  /-- The indexes count from 0. -/
  index : ∀ (k : Nat) (entry : Line × Nat), lines[k]? = some entry → entry.2 = k
  /-- The first line starts where the document does. -/
  first : ∀ entry : Line × Nat, lines[0]? = some entry → entry.1.start = 0
  /-- Each later line starts where the one before it stops. -/
  next : ∀ (k : Nat) (entry later : Line × Nat), lines[k]? = some entry → lines[k + 1]? = some later →
    later.1.start = entry.1.stop
  /-- The last line stops where the document does. -/
  last : ∀ entry : Line × Nat, lines.getLast? = some entry → entry.1.stop = source.length

/-- Texts with newlines that can be told apart once they are written one after
the other. -/
structure Separated (pairs : List (Text × Newline)) : Prop where
  /-- No text holds a line feed. -/
  feed : ∀ pair ∈ pairs, '\n' ∉ pair.1
  /-- No text ends with a carriage return before a mere line feed. -/
  carriage : ∀ pair ∈ pairs, pair.2 = .lf → pair.1.getLast? ≠ some '\r'
  /-- Only the last text may have no newline, and then it is not empty. -/
  last : ∀ (k : Nat) (pair : Text × Newline), pairs[k]? = some pair → pair.2 = .none →
    k + 1 = pairs.length ∧ pair.1 ≠ []

/-! ## Places -/

theorem Placed.start_eq {start : Nat} {lines : List Line} (h : Placed start lines) {line : Line}
    (hget : lines[0]? = some line) : line.start = start := by
  cases lines with
  | nil => cases hget
  | cons first rest =>
    cases hget
    exact h.1

theorem Placed.start_eq_stop {start : Nat} {lines : List Line} (h : Placed start lines) {k : Nat} {line later : Line}
    (hline : lines[k]? = some line) (hlater : lines[k + 1]? = some later) : later.start = line.stop := by
  induction lines generalizing start k with
  | nil => cases hline
  | cons first rest ih =>
    cases k with
    | zero =>
      cases hline
      exact h.2.start_eq hlater
    | succ k => exact ih h.2 hline hlater

@[simp] theorem map_fst_indexed (source : Text) : (indexed source).map Prod.fst = split source := by
  simp [indexed]

theorem covers_indexed (source : Text) : Covers source (indexed source) := by
  have hplaced := placed_split source
  have hline {k : Nat} {entry : Line × Nat} (h : (indexed source)[k]? = some entry) :
      (split source)[k]? = some entry.1 := by
    rw [← map_fst_indexed, List.getElem?_map, h]
    rfl
  refine ⟨?_, fun k entry h => ?_, fun entry h => hplaced.start_eq (hline h),
    fun k entry later h hlater => hplaced.start_eq_stop (hline h) (hline hlater), fun entry h => ?_⟩
  · have hjoin := join_split source
    rw [← map_fst_indexed, join, List.flatMap_map] at hjoin
    exact hjoin
  · rw [indexed, List.getElem?_zipIdx] at h
    obtain ⟨line, -, rfl⟩ := Option.map_eq_some_iff.mp h
    exact Nat.zero_add k
  · have hlast : (split source).getLast? = some entry.1 := by
      rw [← map_fst_indexed, List.getLast?_map, h]
      rfl
    rw [hplaced.getLast_stop hlast, join_split, Nat.zero_add]

/-! ## Lines that can be told apart -/

theorem separated_nil : Separated [] := ⟨by simp, by simp, by simp⟩

theorem separated_cons {pair : Text × Newline} {rest : List (Text × Newline)} :
    Separated (pair :: rest) ↔
      '\n' ∉ pair.1 ∧ (pair.2 = .lf → pair.1.getLast? ≠ some '\r') ∧
        (pair.2 = .none → pair.1 ≠ [] ∧ rest = []) ∧ Separated rest := by
  constructor
  · intro h
    obtain ⟨hfeed, hfeeds⟩ := List.forall_mem_cons.mp h.feed
    obtain ⟨hcarriage, hcarriages⟩ := List.forall_mem_cons.mp h.carriage
    refine ⟨hfeed, hcarriage, fun hnone => ?_, hfeeds, hcarriages, fun k other hget hnone => ?_⟩
    · obtain ⟨hlength, hne⟩ := h.last 0 pair rfl hnone
      exact ⟨hne, by simpa using hlength⟩
    · obtain ⟨hlength, hne⟩ := h.last (k + 1) other hget hnone
      exact ⟨by simpa using hlength, hne⟩
  · rintro ⟨hfeed, hcarriage, hnone, h⟩
    refine ⟨List.forall_mem_cons.mpr ⟨hfeed, h.feed⟩, List.forall_mem_cons.mpr ⟨hcarriage, h.carriage⟩, ?_⟩
    intro k other hget hother
    cases k with
    | zero =>
      cases hget
      obtain ⟨hne, rfl⟩ := hnone hother
      exact ⟨rfl, hne⟩
    | succ k =>
      obtain ⟨hlength, hne⟩ := h.last k other hget hother
      exact ⟨by rw [hlength, List.length_cons], hne⟩

theorem unbroken_iff_separated (lines : List Line) : Unbroken lines ↔ Separated (lines.map parts) := by
  induction lines with
  | nil => exact ⟨fun _ => separated_nil, fun _ => trivial⟩
  | cons line rest ih =>
    rw [List.map_cons, separated_cons, Unbroken, ih, List.map_eq_nil_iff]
    rfl

/-- Texts with newlines, as lines that stand one after the other from an offset
on. -/
def place (start : Nat) : List (Text × Newline) → List Line
  | [] => []
  | (text, newline) :: rest => ⟨text, newline, start⟩ :: place (start + text.length + newline.text.length) rest

theorem placed_place (start : Nat) (pairs : List (Text × Newline)) : Placed start (place start pairs) := by
  induction pairs generalizing start with
  | nil => trivial
  | cons pair rest ih => exact ⟨rfl, ih _⟩

theorem map_parts_place (start : Nat) (pairs : List (Text × Newline)) : (place start pairs).map parts = pairs := by
  induction pairs generalizing start with
  | nil => rfl
  | cons pair rest ih => rw [place, List.map_cons, ih]; rfl

theorem join_eq_concat (lines : List Line) : join lines = concat (lines.map parts) := by
  rw [concat, List.flatMap_map]
  rfl

/-- Texts with newlines that can be told apart are the lines of the document
that they make. -/
theorem split_concat {pairs : List (Text × Newline)} (h : Separated pairs) : split (concat pairs) = place 0 pairs := by
  have hunbroken : Unbroken (place 0 pairs) := by rwa [unbroken_iff_separated, map_parts_place]
  have hsplit := hunbroken.splitFrom_join (placed_place 0 pairs) [] (.inl rfl)
  rw [join_eq_concat, map_parts_place] at hsplit
  rw [split]
  simpa [splitFrom] using hsplit

/-- The lines of a document make up the document and can be told apart, and
texts with newlines that can be told apart are the lines of the document that
they make. -/
theorem lines_invert_concat :
    (∀ source : Text, Covers source (indexed source) ∧ Separated ((indexed source).map fun entry => entry.1.parts)) ∧
      ∀ pairs : List (Text × Newline), Separated pairs ↔
        (indexed (concat pairs)).map (fun entry => entry.1.parts) = pairs := by
  have hparts (source : Text) : (indexed source).map (fun entry => entry.1.parts) = (split source).map parts := by
    rw [← map_fst_indexed, List.map_map]
    rfl
  have hseparated (source : Text) : Separated ((indexed source).map fun entry => entry.1.parts) := by
    rw [hparts, ← unbroken_iff_separated]
    exact unbroken_split source
  refine ⟨fun source => ⟨covers_indexed source, hseparated source⟩, fun pairs => ⟨fun h => ?_, fun h => ?_⟩⟩
  · rw [hparts, split_concat h, map_parts_place]
  · exact h ▸ hseparated (concat pairs)

-- the last carriage return before a line feed belongs to the newline, every
-- other one to a text
example : (indexed "a\r\n\r\r\nb\rc".toList).map (fun entry => entry.1.parts) =
    [(['a'], .crlf), (['\r'], .crlf), ("b\rc".toList, .none)] := by decide

end ProseWrap.Line
