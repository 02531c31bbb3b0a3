import ProseWrap.Line.Markup
import ProseWrap.Proofs.Deletion

/-!
# The first word of a line tells what it begins

Whether a word may begin a line of prose is asked of the word alone
(`Line.beginsBlock`), while a block is recognised by its whole first line. The
two agree because every mark at the start of a line is its first word or a part
of it (`firstWord_append`): each test of a line is turned into the mark that
the line must begin with, and that mark is one that `beginsBlock` knows.
`line_begins_no_block` puts the tests together. The one gap are thematic breaks
with spaces between their stars or underscores, whose first word can be one or
two characters that emphasis may begin with too.
-/

namespace ProseWrap.Line

theorem indent_eq_nil {line : Text} (h : ∀ c, line.head? = some c → c ≠ ' ' ∧ c ≠ '\t') : indent line = [] := by
  cases line with
  | nil => rfl
  | cons c rest =>
    obtain ⟨hspace, htab⟩ := h c rfl
    exact List.takeWhile_cons_of_neg (by simp [Text.isIndent, hspace, htab])

/-- The first word of a line that is not indented: what stands before its first
space or tab. -/
def firstWord (line : Text) : Text := line.takeWhile fun c => !Text.isIndent c

/-- What has no space or tab in it belongs to the first word. -/
theorem firstWord_append {mark : Text} (rest : Text) (h : ∀ c ∈ mark, Text.isIndent c = false) :
    firstWord (mark ++ rest) = mark ++ firstWord rest :=
  List.takeWhile_append_of_pos fun c hc => by rw [h c hc, Bool.not_false]

theorem firstWord_eq_nil {rest : Text} (h : endsMark rest = true) : firstWord rest = [] := by
  cases rest with
  | nil => rfl
  | cons c rest =>
    have hc : Text.isIndent c = true := h
    simp [firstWord, hc]

/-- A mark that a space, a tab or the end of the line follows is the first
word. -/
theorem firstWord_of_endsMark {mark rest : Text} (hmark : ∀ c ∈ mark, Text.isIndent c = false)
    (hrest : endsMark rest = true) : firstWord (mark ++ rest) = mark := by
  rw [firstWord_append rest hmark, firstWord_eq_nil hrest, List.append_nil]

theorem endsMark_of_isBlank {rest : Text} (h : isBlank rest = true) : endsMark rest = true := by
  cases rest with
  | nil => rfl
  | cons c rest =>
    rw [isBlank, List.all_cons, Bool.and_eq_true] at h
    exact h.1

/-! ## Runs of one character -/

theorem takeWhile_beq (c : Char) (text : Text) :
    text.takeWhile (· == c) = List.replicate (text.takeWhile (· == c)).length c :=
  List.eq_replicate_of_mem fun d hd => by simpa using List.mem_takeWhile_imp hd

/-- A text is a run of a character and what comes after the run. -/
theorem eq_replicate_append (c : Char) (text : Text) :
    text = List.replicate (text.takeWhile (· == c)).length c ++ text.dropWhile (· == c) := by
  rw [← takeWhile_beq]
  exact List.takeWhile_append_dropWhile.symm

theorem isIndent_of_mem_replicate {c : Char} {n : Nat} (hc : Text.isIndent c = false) :
    ∀ d ∈ List.replicate n c, Text.isIndent d = false := by
  intro d hd
  rw [List.eq_of_mem_replicate hd, hc]

theorem isRun_replicate {c : Char} {low high n : Nat} (hlow : low ≤ n) (hhigh : n ≤ high) :
    isRun c low high (List.replicate n c) = true := by
  simp [isRun, hlow, hhigh]

theorem isRule_replicate (n : Nat) : isRule (List.replicate (n + 1) '-') = true := by
  have hafter : (List.replicate (n + 1) '-').dropWhile (· == '-') = [] :=
    List.dropWhile_eq_nil_iff.mpr fun d hd => by simp [List.eq_of_mem_replicate hd]
  have hhead : (List.replicate (n + 1) '-').head? = some '-' := rfl
  simp [isRule, hhead, hafter]

/-! ## Marks that begin a block -/

theorem beginsBlock_of_isMark {word : Text} (h : isMark word = true) : beginsBlock word = true := by
  simp [beginsBlock, h]

theorem isMark_hashes {n : Nat} (hone : 1 ≤ n) (hsix : n ≤ 6) : isMark (List.replicate n '#') = true := by
  simp [isMark, isRun_replicate hone hsix]

theorem isMark_equals {n : Nat} (hone : 1 ≤ n) : isMark (List.replicate n '=') = true := by
  simp [isMark, isRun_replicate hone (Nat.le_refl n)]

theorem isMark_hyphens (n : Nat) : isMark (List.replicate (n + 1) '-') = true := by
  simp [isMark, isRule_replicate]

theorem isMark_starsOrUnderscores {c : Char} {n : Nat} (hc : c = '*' ∨ c = '_') (hthree : 3 ≤ n) :
    isMark (List.replicate n c) = true := by
  rcases hc with rfl | rfl <;> simp [isMark, isRun_replicate hthree (Nat.le_refl n)]

/-- A number by itself is a number at the start of a line. -/
theorem isMark_enumerator {digits : Text} {c : Char} (hdigits : ∀ d ∈ digits, d.isDigit = true)
    (hone : 1 ≤ digits.length) (hnine : digits.length ≤ 9) (hc : c = '.' ∨ c = ')') :
    isMark (digits ++ [c]) = true := by
  have hstop : c.isDigit = false := by rcases hc with rfl | rfl <;> decide
  have htake : (digits ++ [c]).takeWhile Char.isDigit = digits := by
    rw [List.takeWhile_append_of_pos hdigits, List.takeWhile_cons_of_neg (by simp [hstop]), List.append_nil]
  have hcloser : (c == '.' || c == ')') = true := by rcases hc with rfl | rfl <;> rfl
  have hread : enumerator? (digits ++ [c]) = some ⟨digits ++ [c], true, []⟩ := by
    simp [enumerator?, htake, hone, hnine, hcloser, endsMark, content]
  simp [isMark, hread]

/-! ## Lines and their first words -/

variable {line : Text}

theorem beginsBlock_of_atxLevel (h : atxLevel line ≠ 0) : beginsBlock (firstWord line) = true := by
  unfold atxLevel at h
  dsimp only at h
  split at h
  · rename_i hlevel
    obtain ⟨hone, hsix, hends⟩ := hlevel
    rw [Text.drop_length_takeWhile] at hends
    rw [eq_replicate_append '#' line, firstWord_of_endsMark (isIndent_of_mem_replicate rfl) hends]
    exact beginsBlock_of_isMark (isMark_hashes hone hsix)
  · exact absurd rfl h

theorem beginsBlock_of_fence? {mark : Fence} (h : fence? line = some mark) : beginsBlock (firstWord line) = true := by
  unfold fence? at h
  split at h
  · cases h
  · rename_i c rest
    dsimp only at h
    split at h
    · rename_i hfence
      simp only [Bool.and_eq_true, Bool.or_eq_true, beq_iff_eq, decide_eq_true_eq] at hfence
      obtain ⟨⟨⟨hc, hthree⟩, -⟩, -⟩ := hfence
      have hindent : Text.isIndent c = false := by rcases hc with rfl | rfl <;> rfl
      obtain ⟨n, hn⟩ := Nat.exists_eq_add_of_le' hthree
      rw [eq_replicate_append c (c :: rest), firstWord_append _ (isIndent_of_mem_replicate hindent), hn]
      rcases hc with rfl | rfl <;> simp [beginsBlock, List.replicate_succ, List.isPrefixOf]
    · cases h

/-- A quotation mark or a bar at the start of a line is a part of its first
word. -/
theorem beginsBlock_of_head? {c : Char} (hc : c = '>' ∨ c = '|') (h : line.head? = some c) :
    beginsBlock (firstWord line) = true := by
  obtain ⟨rest, rfl⟩ := List.head?_eq_some_iff.mp h
  rcases hc with rfl | rfl <;> simp [beginsBlock, firstWord, Text.isIndent]

theorem beginsBlock_of_quoteMark? {mark : QuoteMark} (h : quoteMark? line = some mark) :
    beginsBlock (firstWord line) = true := by
  unfold quoteMark? at h
  split at h
  · rename_i hhead
    exact beginsBlock_of_head? (.inl rfl) (eq_of_beq hhead)
  · cases h

theorem beginsBlock_of_bullet? {mark : ItemMark} (h : bullet? line = some mark) :
    beginsBlock (firstWord line) = true := by
  unfold bullet? at h
  split at h
  · cases h
  · rename_i c rest
    split at h
    · rename_i hbullet
      simp only [Bool.and_eq_true, Bool.or_eq_true, beq_iff_eq] at hbullet
      obtain ⟨hc, hends⟩ := hbullet
      have hindent : ∀ d ∈ [c], Text.isIndent d = false := by
        rcases hc with (rfl | rfl) | rfl <;> simp [Text.isIndent]
      rw [show c :: rest = [c] ++ rest from rfl, firstWord_of_endsMark hindent hends]
      rcases hc with (rfl | rfl) | rfl <;> exact beginsBlock_of_isMark (by decide)
    · cases h

theorem isIndent_of_isDigit {c : Char} (h : c.isDigit = true) : Text.isIndent c = false := by
  refine Bool.of_not_eq_true fun hc => ?_
  simp only [Text.isIndent, Bool.or_eq_true, beq_iff_eq] at hc
  rcases hc with rfl | rfl <;> simp at h

theorem beginsBlock_of_enumerator? {mark : ItemMark} (h : enumerator? line = some mark) :
    beginsBlock (firstWord line) = true := by
  have hdigits : ∀ d ∈ line.takeWhile Char.isDigit, d.isDigit = true := fun d hd => List.mem_takeWhile_imp hd
  have hline := List.takeWhile_append_dropWhile (p := Char.isDigit) (l := line)
  unfold enumerator? at h
  dsimp only at h
  rw [Text.drop_length_takeWhile] at h
  split at h
  · cases h
  · rename_i c rest hrest
    split at h
    · rename_i hnumber
      simp only [Bool.and_eq_true, Bool.or_eq_true, beq_iff_eq, decide_eq_true_eq] at hnumber
      obtain ⟨⟨⟨hone, hnine⟩, hc⟩, hends⟩ := hnumber
      have hindent : ∀ d ∈ line.takeWhile Char.isDigit ++ [c], Text.isIndent d = false := by
        intro d hd
        rcases List.mem_append.mp hd with hd | hd
        · exact isIndent_of_isDigit (hdigits d hd)
        · rw [List.mem_singleton.mp hd]
          rcases hc with rfl | rfl <;> rfl
      rw [← hline, hrest, List.append_cons, firstWord_of_endsMark hindent hends]
      exact beginsBlock_of_isMark (isMark_enumerator hdigits hone hnine hc)
    · cases h

theorem beginsBlock_of_itemMark? {mark : ItemMark} (h : itemMark? line = some mark) :
    beginsBlock (firstWord line) = true := by
  rcases Option.or_eq_some_iff.mp h with hbullet | ⟨-, hnumber⟩
  · exact beginsBlock_of_bullet? hbullet
  · exact beginsBlock_of_enumerator? hnumber

/-- The colon of a definition is the first word of the line, unless that is
indented. -/
theorem beginsBlock_of_definitionMark? {mark : DefinitionMark} (hindent : indent line = [])
    (h : definitionMark? line = some mark) : beginsBlock (firstWord line) = true := by
  unfold definitionMark? at h
  rw [hindent] at h
  dsimp only at h
  split at h
  · rename_i rest hline
    obtain rfl : line = ':' :: rest := hline
    split at h
    · cases h
    · split at h
      · rename_i hmark
        have hends : endsMark rest = true := by
          cases rest with
          | nil => rfl
          | cons c rest =>
            refine Bool.of_not_eq_false fun hc => hmark.2.1 ?_
            exact List.takeWhile_cons_of_neg (Bool.not_eq_true _ ▸ hc)
        rw [show ':' :: rest = [':'] ++ rest from rfl, firstWord_of_endsMark (by simp [Text.isIndent]) hends]
        exact beginsBlock_of_isMark (by decide)
      · cases h
  · cases h

theorem beginsBlock_of_underlineLevel (h : underlineLevel line ≠ 0) : beginsBlock (firstWord line) = true := by
  unfold underlineLevel at h
  split at h
  · exact absurd rfl h
  · rename_i c rest
    split at h
    · rename_i hrule
      simp only [Bool.and_eq_true, Bool.or_eq_true, beq_iff_eq] at hrule
      obtain ⟨hc, hblank⟩ := hrule
      have hindent : Text.isIndent c = false := by rcases hc with rfl | rfl <;> rfl
      have hline : c :: rest =
          List.replicate ((rest.takeWhile (· == c)).length + 1) c ++ rest.dropWhile (· == c) := by
        rw [List.replicate_succ, List.cons_append, ← eq_replicate_append]
      rw [hline, firstWord_of_endsMark (isIndent_of_mem_replicate hindent) (endsMark_of_isBlank hblank)]
      rcases hc with rfl | rfl
      · exact beginsBlock_of_isMark (isMark_equals (Nat.succ_pos _))
      · exact beginsBlock_of_isMark (isMark_hyphens _)
    · exact absurd rfl h

/-- The first word of a thematic break is a run of its stars, hyphens or
underscores. -/
theorem firstWord_of_isThematicBreak (h : isThematicBreak line = true) :
    ∃ c n, (c = '*' ∨ c = '-' ∨ c = '_') ∧ firstWord line = List.replicate (n + 1) c := by
  unfold isThematicBreak at h
  split at h
  · cases h
  · rename_i c rest
    simp only [Bool.and_eq_true, Bool.or_eq_true, beq_iff_eq, List.all_eq_true] at h
    obtain ⟨⟨hc, hall⟩, -⟩ := h
    have hindent : Text.isIndent c = false := by rcases hc with (rfl | rfl) | rfl <;> rfl
    have hword : firstWord (c :: rest) = c :: firstWord rest := by simp [firstWord, hindent]
    have hsame : ∀ d ∈ firstWord rest, d = c := by
      intro d hd
      have hd' : d ∈ rest := (List.takeWhile_prefix _).subset hd
      refine (hall d (List.mem_cons_of_mem _ hd')).resolve_right fun hblank => ?_
      have := List.mem_takeWhile_imp hd
      simp [hblank] at this
    refine ⟨c, (firstWord rest).length, or_assoc.mp hc, ?_⟩
    rw [hword, List.replicate_succ, ← List.eq_replicate_of_mem hsame]

/-- A thematic break is recognised by its first word, unless that is two stars
or one or two underscores. -/
theorem beginsBlock_of_isThematicBreak (h : isThematicBreak line = true) :
    beginsBlock (firstWord line) = true ∨ firstWord line ∈ [['*', '*'], ['_', '_'], ['_']] := by
  obtain ⟨c, n, hc, hword⟩ := firstWord_of_isThematicBreak h
  rw [hword]
  rcases hc with rfl | rfl | rfl
  · rcases (by omega : n = 0 ∨ n = 1 ∨ 3 ≤ n + 1) with rfl | rfl | hn
    · exact .inl (beginsBlock_of_isMark (by decide))
    · exact .inr (by decide)
    · exact .inl (beginsBlock_of_isMark (isMark_starsOrUnderscores (.inl rfl) hn))
  · exact .inl (beginsBlock_of_isMark (isMark_hyphens n))
  · rcases (by omega : n = 0 ∨ n = 1 ∨ 3 ≤ n + 1) with rfl | rfl | hn
    · exact .inr (by decide)
    · exact .inr (by decide)
    · exact .inl (beginsBlock_of_isMark (isMark_starsOrUnderscores (.inr rfl) hn))

/-- A line that is not indented and whose first word may begin a line of prose
opens no fence, quotation, list item, definition, heading or table and
underlines nothing; and it is a thematic break at most if that word is two
stars or one or two underscores. -/
theorem line_begins_no_block (line : Text) (hindent : ∀ c, line.head? = some c → c ≠ ' ' ∧ c ≠ '\t')
    (hword : beginsBlock (firstWord line) = false) :
    fence? line = none ∧ quoteMark? line = none ∧ itemMark? line = none ∧ definitionMark? line = none ∧
      atxLevel line = 0 ∧ underlineLevel line = 0 ∧ line.head? ≠ some '|' ∧
      (isThematicBreak line = true → firstWord line ∈ [['*', '*'], ['_', '_'], ['_']]) := by
  have hplain : ¬ beginsBlock (firstWord line) = true := by simp [hword]
  have hlead := indent_eq_nil hindent
  refine ⟨?_, ?_, ?_, ?_, ?_, ?_, ?_, ?_⟩
  · exact Option.eq_none_iff_forall_ne_some.mpr fun _ h => hplain (beginsBlock_of_fence? h)
  · exact Option.eq_none_iff_forall_ne_some.mpr fun _ h => hplain (beginsBlock_of_quoteMark? h)
  · exact Option.eq_none_iff_forall_ne_some.mpr fun _ h => hplain (beginsBlock_of_itemMark? h)
  · exact Option.eq_none_iff_forall_ne_some.mpr fun _ h => hplain (beginsBlock_of_definitionMark? hlead h)
  · exact Decidable.not_not.mp fun h => hplain (beginsBlock_of_atxLevel h)
  · exact Decidable.not_not.mp fun h => hplain (beginsBlock_of_underlineLevel h)
  · exact fun h => hplain (beginsBlock_of_head? (.inr rfl) h)
  · exact fun h => (beginsBlock_of_isThematicBreak h).resolve_left hplain

/-- Stars in groups of two are a thematic break that the first word does not
tell. -/
theorem line_begins_no_block_stars :
    let line : Text := "** ** *".toList
    beginsBlock (firstWord line) = false ∧ itemMark? line = none ∧ isThematicBreak line = true ∧
      firstWord line ∈ [['*', '*'], ['_', '_'], ['_']] := by
  intro line
  have hword : beginsBlock (firstWord line) = false := by decide
  have hbreak : isThematicBreak line = true := by decide
  obtain ⟨-, -, hitem, -, -, -, -, hunless⟩ := line_begins_no_block line (by simp [line]) hword
  exact ⟨hword, hitem, hbreak, hunless hbreak⟩

end ProseWrap.Line
