import ProseWrap.Text.Units
import ProseWrap.Width

/-!
# Widths of texts one after the other

The width of a text is the sum of what its characters add. In characters and in
bytes each character adds the same wherever it stands. On a display an emoji
selector adds a column after a pictograph of one column, and nothing else
depends on what comes before. So a width is a sum over characters with one bit
of memory (`measureAfter_cons`, `measureAfter_append_foldl`), and widths of
texts add up unless the second begins with the selector
(`measureAfter_append`). None of this depends on which characters are wide.
-/

namespace ProseWrap

/-- The character that turns a pictograph before it into an emoji. -/
def emojiSelector : Char := '\uFE0F'

/-- The width that a text adds after a character; `narrow` says that this is a
pictograph of one column. -/
def measureAfter (wide : Nat → Bool) (mode : LengthMode) (narrow : Bool) (text : Text) : Nat :=
  match mode with
  | .visual => displayWidthAfter wide narrow text
  | _ => measureWith wide mode text

/-- Whether a character is a pictograph of one column, where `narrow` says so
of the character before it. -/
def narrowAfter (wide : Nat → Bool) (narrow : Bool) (c : Char) : Bool :=
  !(c == emojiSelector && narrow) && (codeColumnsWith wide c.toNat == 1 && Unicode.isPictographic c.toNat)

variable {wide : Nat → Bool} {mode : LengthMode} {narrow : Bool} {text back : Text}

@[simp] theorem measureAfter_nil (wide : Nat → Bool) (mode : LengthMode) (narrow : Bool) :
    measureAfter wide mode narrow [] = 0 := by
  cases mode <;> rfl

theorem measureAfter_false_eq_measureWith (wide : Nat → Bool) (mode : LengthMode) (text : Text) :
    measureAfter wide mode false text = measureWith wide mode text := by
  cases mode <;> rfl

theorem measureAfter_false (mode : LengthMode) (text : Text) :
    measureAfter Unicode.isWide mode false text = measure mode text :=
  measureAfter_false_eq_measureWith Unicode.isWide mode text

theorem measure?_some (mode : LengthMode) (text : Text) : measure? (some mode) text = some (measure mode text) := by
  cases text with
  | nil => cases mode <;> rfl
  | cons c rest => rfl

/-- Each character adds a width of its own. -/
theorem measureAfter_cons (mode : LengthMode) (narrow : Bool) (c : Char) (rest : Text) :
    measureAfter wide mode narrow (c :: rest) =
      measureAfter wide mode narrow [c] + measureAfter wide mode (narrowAfter wide narrow c) rest := by
  cases mode with
  | chars => simp [measureAfter, measureWith, Nat.add_comm]
  | bytes => simp [measureAfter, measureWith, byteWidth]
  | visual =>
    simp only [measureAfter, displayWidthAfter, narrowAfter, emojiSelector]
    cases hselects : c == '\uFE0F' && narrow <;> simp

/-- What a text adds depends on the character before it only if it begins with
the selector. -/
theorem measureAfter_of_head? (h : text.head? ≠ some emojiSelector) :
    measureAfter wide mode narrow text = measureAfter wide mode false text := by
  cases mode with
  | chars => rfl
  | bytes => rfl
  | visual =>
    cases text with
    | nil => rfl
    | cons c rest =>
      have hc : (c == emojiSelector) = false := by simpa using h
      simp only [emojiSelector] at hc
      simp [measureAfter, displayWidthAfter, hc]

/-- The second of two texts is measured after what the characters of the first
leave. -/
theorem measureAfter_append_foldl (mode : LengthMode) (narrow : Bool) (front back : Text) :
    measureAfter wide mode narrow (front ++ back) =
      measureAfter wide mode narrow front + measureAfter wide mode (front.foldl (narrowAfter wide) narrow) back := by
  induction front generalizing narrow with
  | nil => rw [List.nil_append, measureAfter_nil, Nat.zero_add, List.foldl_nil]
  | cons c rest ih =>
    rw [List.cons_append, measureAfter_cons, ih, measureAfter_cons mode narrow c rest, List.foldl_cons, Nat.add_assoc]

/-- Widths of texts add up if the second does not begin with the selector. -/
theorem measureAfter_append (front : Text) (h : back.head? ≠ some emojiSelector) :
    measureAfter wide mode narrow (front ++ back) =
      measureAfter wide mode narrow front + measureAfter wide mode false back := by
  rw [measureAfter_append_foldl, measureAfter_of_head? h]

theorem measureAfter_le_append (wide : Nat → Bool) (mode : LengthMode) (narrow : Bool) (front back : Text) :
    measureAfter wide mode narrow front ≤ measureAfter wide mode narrow (front ++ back) := by
  rw [measureAfter_append_foldl]
  exact Nat.le_add_right _ _

/-- A row of a letter that takes one column is as wide as it is long. -/
theorem measureAfter_replicate_append {n : Nat} (hn : 0 < n) (text : Text) :
    measureAfter Unicode.isWide mode narrow (List.replicate n 'x' ++ text) = n + measure mode text := by
  have hletter (narrow : Bool) (rest : Text) : measureAfter Unicode.isWide mode narrow ('x' :: rest) =
      1 + measureAfter Unicode.isWide mode false rest := by
    rw [measureAfter_cons, measureAfter_of_head? (by decide), measureAfter_false]
    have hnext : narrowAfter Unicode.isWide narrow 'x' = false := by cases narrow <;> decide +kernel
    have hone : measure mode ['x'] = 1 := by cases mode <;> decide +kernel
    rw [hnext, hone]
  induction n generalizing narrow with
  | zero => cases hn
  | succ n ih =>
    rw [List.replicate_succ, List.cons_append, hletter]
    cases n with
    | zero => rw [List.replicate_zero, List.nil_append, measureAfter_false]
    | succ n =>
      rw [ih (Nat.succ_pos n)]
      omega

/-! ## Widths and units -/

/-- A character has no more units than bytes. -/
theorem Text.unitWidth_le_utf8Size (c : Char) : unitWidth c ≤ c.utf8Size := by
  have hpos := c.utf8Size_pos
  unfold unitWidth
  split
  · omega
  · rename_i hlarge
    have hone : c.utf8Size ≠ 1 := fun h => hlarge (Nat.lt_of_le_of_lt (UInt32.le_iff_toNat_le.mp
      (Char.utf8Size_eq_one_iff.mp h)) (by decide))
    omega

/-- A text of characters that are as wide as they have units is as wide as it
has units. -/
theorem unitCount_le_measureAfter (h : ∀ c ∈ text, Text.unitWidth c ≤ measure mode [c]) (narrow : Bool) :
    Text.unitCount text ≤ measureAfter Unicode.isWide mode narrow text := by
  induction text generalizing narrow with
  | nil => exact Nat.zero_le _
  | cons c rest ih =>
    obtain ⟨hc, hrest⟩ := List.forall_mem_cons.mp h
    have hfirst : Text.unitWidth c ≤ measureAfter Unicode.isWide mode narrow [c] := by
      by_cases hselector : c = emojiSelector
      · -- alone the selector has no column
        subst hselector
        cases mode with
        | visual => exact absurd hc (by decide +kernel)
        | chars => exact hc
        | bytes => exact hc
      · rwa [measureAfter_of_head? (by simpa using hselector), measureAfter_false]
    rw [Text.unitCount, measureAfter_cons]
    exact Nat.add_le_add hfirst (ih hrest _)

end ProseWrap
