import ProseWrap.Line.Basic

/-!
# Lines and the text they come from

`Line.split` loses nothing: written one after the other, the lines of a text
are the text (`join_split`), and each line starts where the one before it stops
(`placed_split`).
-/

namespace ProseWrap.Line

@[simp] theorem join_nil : join [] = [] := rfl

@[simp] theorem join_cons (line : Line) (lines : List Line) :
    join (line :: lines) = line.source ++ join lines := rfl

theorem join_append (front back : List Line) : join (front ++ back) = join front ++ join back := by
  simp [join]

theorem length_source (line : Line) : line.source.length = line.stop - line.start := by
  simp only [source, stop, List.length_append]
  omega

theorem start_le_stop (line : Line) : line.start ≤ line.stop := by
  simp only [stop]
  omega

/-- The lines of `rest`, the first of which has begun with `current`, are these
characters again. -/
theorem join_splitFrom (start : Nat) (current rest : Text) :
    join (splitFrom start current rest) = current.reverse ++ rest := by
  fun_induction splitFrom start current rest with
  | case1 start current h =>
    rw [List.isEmpty_iff.mp h]
    rfl
  | case2 start current h => simp [source, Newline.text]
  | case3 start c rest hc before ih =>
    rw [join_cons, ih]
    simp_all [source, Newline.text]
  | case4 start current c rest hc hcr ih =>
    rw [join_cons, ih]
    simp_all [source, Newline.text]
  | case5 start current c rest hc ih => simp [ih]

/-- The lines of a text, one after the other, are the text. -/
@[simp] theorem join_split (text : Text) : join (split text) = text := join_splitFrom 0 [] text

/-- No line of a text but an unfinished one without characters is left out. -/
theorem split_eq_nil {text : Text} : split text = [] ↔ text = [] := by
  constructor
  · intro h
    rw [← join_split text, h, join_nil]
  · rintro rfl
    rfl

/-! ## Offsets -/

/-- The lines stand one after the other, the first of them at offset
`start`. -/
def Placed : Nat → List Line → Prop
  | _, [] => True
  | start, line :: rest => line.start = start ∧ Placed line.stop rest

theorem placed_splitFrom (start : Nat) (current rest : Text) :
    Placed start (splitFrom start current rest) := by
  fun_induction splitFrom start current rest with
  | case1 => trivial
  | case2 => exact ⟨rfl, trivial⟩
  | case3 start c rest hc before ih => exact ⟨rfl, by simpa [stop, Newline.text] using ih⟩
  | case4 start current c rest hc hcr ih => exact ⟨rfl, by simpa [stop, Newline.text] using ih⟩
  | case5 start current c rest hc ih => exact ih

theorem placed_split (text : Text) : Placed 0 (split text) := placed_splitFrom 0 [] text

/-- Lines that stand one after the other go on where the first of them stop. -/
theorem Placed.append {start : Nat} {front back : List Line} (h : Placed start (front ++ back)) :
    Placed start front ∧ Placed (start + (join front).length) back := by
  induction front generalizing start with
  | nil => exact ⟨trivial, by simpa using h⟩
  | cons line front ih =>
    obtain ⟨hs, hp⟩ := h
    obtain ⟨hf, hb⟩ := ih hp
    refine ⟨⟨hs, hf⟩, ?_⟩
    have hle := line.start_le_stop
    rw [join_cons, List.length_append, length_source, ← hs]
    rwa [show line.start + (line.stop - line.start + (join front).length) =
      line.stop + (join front).length by omega]

/-- Lines that stand one after the other stop as far from their start as they
have characters. -/
theorem Placed.getLast_stop {start : Nat} {lines : List Line} {last : Line}
    (h : Placed start lines) (hlast : lines.getLast? = some last) :
    last.stop = start + (join lines).length := by
  obtain ⟨front, rfl⟩ := List.getLast?_eq_some_iff.mp hlast
  obtain ⟨-, hs, -⟩ := h.append
  have hle := last.start_le_stop
  rw [join_append, List.length_append, join_cons, join_nil, List.append_nil, length_source]
  omega

/-- The characters between where the first of some lines starts and the last of
them stops are these lines. -/
theorem slice_join (front own back : List Line) :
    Text.slice (join (front ++ own ++ back)) (join front).length ((join front).length + (join own).length) =
      join own := by
  simp [Text.slice, join_append]

/-! ## Texts one after the other -/

/-- The texts of lines do not depend on where the lines stand. -/
theorem map_text_splitFrom (start start' : Nat) (current rest : Text) :
    (splitFrom start current rest).map Line.text = (splitFrom start' current rest).map Line.text := by
  fun_induction splitFrom start current rest generalizing start' with
  | case1 start current h => simp [splitFrom, h]
  | case2 start current h => simp [splitFrom, h]
  | case3 start c rest hc before ih => simp [splitFrom, hc, ih (start' + before.length + 2)]
  | case4 start current c rest hc hcr ih =>
    rw [splitFrom, if_pos hc, List.map_cons, List.map_cons, ih]
    exact hcr
  | case5 start current c rest hc ih => simp [splitFrom, hc, ih start']

theorem getLast?_of_cons {c : Char} {rest : Text} (h : (c :: rest).getLast? = some '\n') :
    rest.getLast? = some '\n' ∨ rest = [] := by
  cases rest with
  | nil => exact .inr rfl
  | cons d rest => exact .inl (by simpa using h)

/-- A line feed ends a line, so the lines of a text that ends with one and of a
second text are the lines of both. -/
theorem splitFrom_append (start : Nat) (current front back : Text)
    (h : front.getLast? = some '\n' ∨ front = [] ∧ current = []) :
    splitFrom start current (front ++ back) =
      splitFrom start current front ++ splitFrom (start + current.length + front.length) [] back := by
  fun_induction splitFrom start current front with
  | case1 start current hempty =>
    rw [List.isEmpty_iff.mp hempty]
    rfl
  | case2 start current hempty =>
    rcases h with h | ⟨-, rfl⟩
    · cases h
    · exact absurd rfl hempty
  | case3 start c rest hc before ih =>
    have hrest := getLast?_of_cons (h.resolve_right (by simp))
    rw [List.cons_append, splitFrom, if_pos hc, ih (by simpa using hrest), List.cons_append]
    simp only [List.length_cons, List.length_nil]
    congr 3
    omega
  | case4 start current c rest hc hcr ih =>
    have hrest := getLast?_of_cons (h.resolve_right (by simp))
    rw [List.cons_append, splitFrom, if_pos hc, ih (by simpa using hrest), List.cons_append]
    · simp only [List.length_cons, List.length_nil]
      congr 3
      omega
    · exact hcr
  | case5 start current c rest hc ih =>
    have hlast := h.resolve_right (by simp)
    have hrest : rest.getLast? = some '\n' := by
      rcases getLast?_of_cons hlast with hrest | rfl
      · exact hrest
      · exact absurd (by simpa using hlast) hc
    have hstep : splitFrom start current (c :: (rest ++ back)) =
        splitFrom start (c :: current) (rest ++ back) := by
      simp [splitFrom, hc]
    rw [List.cons_append, hstep, ih (.inl hrest)]
    simp only [List.length_cons]
    congr 2
    omega

/-! ## Lines that are split again -/

/-- The lines are such as a text has: no line feed within them, no carriage
return that would be taken for a part of the newline, and a newline after each
but the last. -/
def Unbroken : List Line → Prop
  | [] => True
  | line :: rest =>
    '\n' ∉ line.text ∧ (line.newline = .lf → line.text.getLast? ≠ some '\r') ∧
      (line.newline = .none → line.text ≠ [] ∧ rest = []) ∧ Unbroken rest

theorem unbroken_splitFrom (start : Nat) (current rest : Text) (h : '\n' ∉ current) :
    Unbroken (splitFrom start current rest) := by
  fun_induction splitFrom start current rest with
  | case1 start current hempty => trivial
  | case2 start current hempty => exact ⟨by simpa using h, by simp, by simpa using hempty, trivial⟩
  | case3 start c rest hc before ih =>
    exact ⟨by simpa using fun hb => h (List.mem_cons_of_mem _ hb), by simp, by simp, ih (by simp)⟩
  | case4 start current c rest hc hcr ih =>
    refine ⟨by simpa using h, fun _ hlast => ?_, by simp, ih (by simp)⟩
    rw [List.getLast?_reverse] at hlast
    obtain ⟨before, hbefore⟩ := List.head?_eq_some_iff.mp hlast
    exact hcr before hbefore
  | case5 start current c rest hc ih =>
    refine ih fun hmem => ?_
    rcases List.mem_cons.mp hmem with rfl | hmem
    · exact hc rfl
    · exact h hmem

theorem unbroken_split (text : Text) : Unbroken (split text) := unbroken_splitFrom 0 [] text (by simp)

theorem Unbroken.feed_not_mem {lines : List Line} (h : Unbroken lines) {line : Line} (hl : line ∈ lines) :
    '\n' ∉ line.text := by
  induction lines with
  | nil => cases hl
  | cons first lines ih =>
    rcases List.mem_cons.mp hl with rfl | hl
    · exact h.1
    · exact ih h.2.2.2 hl

theorem Unbroken.append {front back : List Line} (h : Unbroken (front ++ back)) :
    Unbroken front ∧ Unbroken back ∧
      (back ≠ [] → ∀ last, front.getLast? = some last → last.newline ≠ .none) := by
  induction front with
  | nil => exact ⟨trivial, h, by simp⟩
  | cons line front ih =>
    obtain ⟨hfeed, hreturn, hnone, h⟩ := h
    obtain ⟨hf, hb, hlast⟩ := ih h
    refine ⟨⟨hfeed, hreturn, fun hn => ⟨(hnone hn).1, ?_⟩, hf⟩, hb, fun hne last hl hn => ?_⟩
    · exact (List.append_eq_nil_iff.mp (hnone hn).2).1
    · cases front with
      | nil =>
        cases hl
        exact hne (hnone hn).2
      | cons second front => exact hlast hne last (by simpa using hl) hn

theorem splitFrom_chars (start : Nat) (current chars rest : Text) (h : '\n' ∉ chars) :
    splitFrom start current (chars ++ rest) = splitFrom start (chars.reverse ++ current) rest := by
  induction chars generalizing current with
  | nil => rfl
  | cons c chars ih =>
    obtain ⟨hc, hchars⟩ := not_or.mp (mt List.mem_cons.mpr h)
    have hstep : splitFrom start current (c :: (chars ++ rest)) =
        splitFrom start (c :: current) (chars ++ rest) := by
      simp [splitFrom, Ne.symm hc]
    rw [List.cons_append, hstep, ih _ hchars, List.reverse_cons, List.append_assoc]
    rfl

/-- A line with its newline is the first line of what it begins, but for a
carriage return at its end, which a line feed takes. -/
theorem splitFrom_line (start : Nat) {text : Text} {newline : Newline} (rest : Text) (hfeed : '\n' ∉ text)
    (hnewline : newline ≠ .none) :
    ∃ first next, splitFrom start [] (text ++ (newline.text ++ rest)) = first :: splitFrom next [] rest ∧
      (first.text = text ∨ newline = .lf ∧ text = first.text ++ ['\r']) := by
  rw [splitFrom_chars _ _ _ _ hfeed, List.append_nil]
  cases newline with
  | none => exact absurd rfl hnewline
  | crlf => exact ⟨⟨text, .crlf, start⟩, _, by simp [Newline.text, splitFrom]; rfl, .inl rfl⟩
  | lf =>
    simp only [Newline.text, List.cons_append, List.nil_append, splitFrom, beq_self_eq_true, if_true]
    split
    · rename_i before hreturn
      refine ⟨_, _, rfl, .inr ⟨trivial, ?_⟩⟩
      rw [← List.reverse_cons, ← hreturn, List.reverse_reverse]
    · exact ⟨_, _, rfl, .inl (List.reverse_reverse text)⟩

/-- Where a line stands, it is the first line of what it begins. -/
theorem splitFrom_source {line : Line} (rest : Text) (hfeed : '\n' ∉ line.text)
    (hreturn : line.newline = .lf → line.text.getLast? ≠ some '\r') (hnewline : line.newline ≠ .none) :
    splitFrom line.start [] (line.source ++ rest) = line :: splitFrom line.stop [] rest := by
  obtain ⟨text, newline, start⟩ := line
  rw [source, List.append_assoc, splitFrom_chars _ _ _ _ hfeed, List.append_nil]
  cases newline with
  | none => exact absurd rfl hnewline
  | crlf => simp [Newline.text, splitFrom, stop]
  | lf =>
    simp only [Newline.text, List.cons_append, List.nil_append, splitFrom, beq_self_eq_true, if_true]
    split
    · rename_i before hlast
      refine absurd ?_ (hreturn rfl)
      rw [← List.head?_reverse, hlast, List.head?_cons]
    · simp [stop, Newline.text]

/-- Such lines, where they stand, are the first lines of what they begin. -/
theorem Unbroken.splitFrom_join {lines : List Line} (h : Unbroken lines) {start : Nat}
    (hp : Placed start lines) (rest : Text)
    (hend : rest = [] ∨ ∀ last, lines.getLast? = some last → last.newline ≠ .none) :
    splitFrom start [] (join lines ++ rest) = lines ++ splitFrom (start + (join lines).length) [] rest := by
  induction lines generalizing start with
  | nil => rfl
  | cons line lines ih =>
    obtain ⟨hfeed, hreturn, hnone, h⟩ := h
    obtain ⟨rfl, hp⟩ := hp
    by_cases hn : line.newline = .none
    · obtain ⟨hne, rfl⟩ := hnone hn
      obtain rfl := hend.resolve_right fun hlast => hlast line rfl hn
      obtain ⟨text, newline, start⟩ := line
      cases hn
      simp only [join_cons, join_nil, source, Newline.text, List.append_nil]
      rw [← List.append_nil text, splitFrom_chars _ _ _ _ hfeed]
      simpa [splitFrom] using hne
    · have hrest : rest = [] ∨ ∀ last, lines.getLast? = some last → last.newline ≠ .none := by
        refine hend.imp_right fun hlast last hl => hlast last ?_
        rw [List.getLast?_cons, hl]
        rfl
      have hstop : line.start + line.source.length = line.stop := by
        rw [length_source]
        have hle := line.start_le_stop
        omega
      rw [join_cons, List.append_assoc, splitFrom_source _ hfeed hreturn hn, ih h hp hrest, List.length_append,
        ← Nat.add_assoc, hstop]
      rfl

/-- Such lines are split at the same places again. -/
theorem Unbroken.map_text_split {lines : List Line} (h : Unbroken lines) :
    (split (join lines)).map Line.text = lines.map Line.text := by
  suffices ∀ start, (splitFrom start [] (join lines)).map Line.text = lines.map Line.text from this 0
  induction lines with
  | nil => exact fun start => rfl
  | cons line lines ih =>
    intro start
    obtain ⟨hfeed, hreturn, hnone, h⟩ := h
    rw [join_cons, source, List.append_assoc]
    by_cases hn : line.newline = .none
    · obtain ⟨hne, rfl⟩ := hnone hn
      rw [splitFrom_chars _ _ _ _ hfeed, hn]
      simp [Newline.text, splitFrom, hne]
    · obtain ⟨first, next, hsplit, htext⟩ := splitFrom_line start (join lines) hfeed hn
      have hfirst : first.text = line.text := by
        refine htext.resolve_right fun ⟨hlf, hlast⟩ => hreturn hlf ?_
        rw [hlast, List.getLast?_concat]
      rw [hsplit, List.map_cons, hfirst, ih h, List.map_cons]

end ProseWrap.Line
