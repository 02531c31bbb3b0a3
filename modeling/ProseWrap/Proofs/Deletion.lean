import Mathlib.Data.List.DropRight
import Mathlib.Data.List.TakeWhile
import ProseWrap.Line.Marker
import ProseWrap.Wrap.Part

/-!
# Deleting characters

`Text.without p` deletes the characters of a text that satisfy `p`. What it
leaves tells that a layout lost, repeated and moved nothing else: it sees
through slices, trimming and joining as soon as `p` holds of every blank
(`without_trim`, `without_intercalate`). `Text.ink` counts what is left when
the gaps are deleted.
-/

namespace ProseWrap

namespace Text

/-- The text without the characters that satisfy `p`. -/
def without (p : Char → Bool) (text : Text) : Text := text.filter fun c => !p c

theorem isBlank_of_isGap {c : Char} (h : isGap c) : isBlank c := by
  simp only [isGap, Bool.or_eq_true, beq_iff_eq] at h
  rcases h with ((((rfl | rfl) | rfl) | rfl) | rfl) | rfl <;> decide

theorem isGap_of_isIndent {c : Char} (h : isIndent c) : isGap c := by
  simp only [isIndent, Bool.or_eq_true, beq_iff_eq] at h
  rcases h with rfl | rfl <;> decide

theorem isBlank_of_isIndent {c : Char} (h : isIndent c) : isBlank c :=
  isBlank_of_isGap (isGap_of_isIndent h)

theorem drop_length_takeWhile (q : Char → Bool) (text : Text) :
    text.drop (text.takeWhile q).length = text.dropWhile q := by
  have h := List.takeWhile_append_dropWhile (p := q) (l := text)
  calc text.drop (text.takeWhile q).length
      = (text.takeWhile q ++ text.dropWhile q).drop (text.takeWhile q).length := by rw [h]
    _ = text.dropWhile q := List.drop_left

section

variable {p q : Char → Bool}

@[simp] theorem without_nil : without p [] = [] := rfl

@[simp] theorem without_append (a b : Text) : without p (a ++ b) = without p a ++ without p b :=
  List.filter_append ..

theorem without_cons (c : Char) (text : Text) :
    without p (c :: text) = without p [c] ++ without p text := without_append [c] text

theorem without_flatten (texts : List Text) :
    without p texts.flatten = texts.flatMap (without p) := by
  induction texts with
  | nil => rfl
  | cons text texts ih => rw [List.flatten_cons, without_append, ih, List.flatMap_cons]

theorem without_flatMap {α : Type} (f : α → Text) (l : List α) :
    without p (l.flatMap f) = l.flatMap fun x => without p (f x) := by
  rw [List.flatMap_def, without_flatten, List.flatMap_map]

theorem without_eq_nil {text : Text} (h : ∀ c ∈ text, p c) : without p text = [] :=
  List.filter_eq_nil_iff.mpr fun c hc => by simp [h c hc]

theorem without_dropWhile (h : ∀ c, q c → p c) (text : Text) :
    without p (text.dropWhile q) = without p text := by
  conv => rhs; rw [← List.takeWhile_append_dropWhile (p := q) (l := text)]
  rw [without_append, without_eq_nil fun c hc => h c (List.mem_takeWhile_imp hc), List.nil_append]

theorem dropEndWhile_eq_rdropWhile {α : Type} (p : α → Bool) (l : List α) : dropEndWhile p l = l.rdropWhile p := rfl

theorem without_dropEndWhile (h : ∀ c, q c → p c) (text : Text) :
    without p (dropEndWhile q text) = without p text := by
  conv => rhs; rw [← List.rdropWhile_append_rtakeWhile (p := q) (l := text)]
  rw [without_append, without_eq_nil fun c hc => h c (List.mem_rtakeWhile_imp hc), List.append_nil,
    dropEndWhile_eq_rdropWhile]

end

/-! ## Blanks -/

section

variable {p : Char → Bool} (hp : ∀ c, isBlank c → p c)

include hp

theorem without_trimStart (text : Text) : without p (trimStart text) = without p text :=
  without_dropWhile hp text

theorem without_trimEnd (text : Text) : without p (trimEnd text) = without p text :=
  without_dropEndWhile hp text

theorem without_trim (text : Text) : without p (trim text) = without p text := by
  rw [trim, without_trimEnd hp, without_trimStart hp]

theorem without_indent (text : Text) : without p (Line.indent text) = [] :=
  without_eq_nil fun c hc => hp c (isBlank_of_isIndent (List.mem_takeWhile_imp hc))

theorem without_content (text : Text) : without p (Line.content text) = without p text :=
  without_dropWhile (fun c hc => hp c (isBlank_of_isIndent hc)) text

theorem without_spaces (n : Nat) : without p (List.replicate n ' ') = [] :=
  without_eq_nil fun c hc => by
    rw [List.eq_of_mem_replicate hc]
    exact hp ' ' (by decide)

theorem without_space : without p [' '] = [] := without_spaces hp 1

theorem without_newline (newline : Newline) : without p newline.text = [] := by
  refine without_eq_nil fun c hc => hp c ?_
  cases newline <;> simp only [Newline.text, List.mem_cons, List.not_mem_nil, or_false] at hc
  · rw [hc]
    decide
  · rcases hc with rfl | rfl <;> decide

theorem without_isEmpty_trim {text : Text} (h : (trim text).isEmpty) : without p text = [] := by
  rw [← without_trim hp, List.isEmpty_iff.mp h, without_nil]

end

/-- Between texts nothing is left of a separator that is deleted. -/
theorem without_intercalate {p : Char → Bool} {separator : Text} (h : without p separator = [])
    (texts : List Text) : without p (List.intercalate separator texts) = texts.flatMap (without p) := by
  induction texts with
  | nil => rfl
  | cons text rest ih =>
    cases rest with
    | nil => simp
    | cons next others =>
      rw [List.intercalate_cons_cons, without_append, without_append, h, ih, List.append_nil]
      rfl

theorem head_trim {text : Text} {c : Char} {rest : Text} (h : trim text = c :: rest) : isBlank c = false := by
  have hpre : trim text <+: trimStart text := List.rdropWhile_prefix _ _
  rw [h] at hpre
  obtain ⟨more, hmore⟩ := hpre
  have := List.head?_dropWhile_not isBlank text
  rw [show text.dropWhile isBlank = trimStart text from rfl, ← hmore] at this
  simpa using this

theorem getLast?_dropEndWhile {p : Char → Bool} {text : Text} {c : Char}
    (h : (dropEndWhile p text).getLast? = some c) : p c = false := by
  obtain ⟨hne, rfl⟩ := List.mem_getLast?_eq_getLast h
  exact Bool.of_not_eq_true (List.rdropWhile_last_not p text hne)

theorem last_trim {text : Text} {c : Char} (h : (trim text).getLast? = some c) : isBlank c = false :=
  getLast?_dropEndWhile h

theorem trim_sublist (text : Text) : (trim text).Sublist text :=
  (List.rdropWhile_prefix isBlank (trimStart text)).sublist.trans (List.dropWhile_sublist isBlank)

/-! ## Ink -/

/-- How many characters of a text are no gaps. -/
def ink (text : Text) : Nat := (without isGap text).length

@[simp] theorem ink_nil : ink [] = 0 := rfl

@[simp] theorem ink_append (a b : Text) : ink (a ++ b) = ink a + ink b := by
  rw [ink, without_append, List.length_append]
  rfl

theorem ink_le_of_sublist {a b : Text} (h : a.Sublist b) : ink a ≤ ink b :=
  (h.filter _).length_le

theorem ink_pos {text : Text} {c : Char} (h : c ∈ text) (hc : isGap c = false) : 0 < ink text :=
  List.length_pos_of_mem (List.mem_filter.mpr ⟨h, by simp [hc]⟩)

theorem ink_eq_zero {text : Text} (h : ∀ c ∈ text, isGap c) : ink text = 0 := by
  rw [ink, without_eq_nil h, List.length_nil]

/-- What texts weigh together. -/
def total (weight : Text → Nat) : List Text → Nat
  | [] => 0
  | text :: rest => weight text + total weight rest

@[simp] theorem total_nil (weight : Text → Nat) : total weight [] = 0 := rfl

@[simp] theorem total_cons (weight : Text → Nat) (text : Text) (rest : List Text) :
    total weight (text :: rest) = weight text + total weight rest := rfl

@[simp] theorem total_append (weight : Text → Nat) (front back : List Text) :
    total weight (front ++ back) = total weight front + total weight back := by
  induction front with
  | nil => simp
  | cons text front ih => rw [List.cons_append, total_cons, total_cons, ih, Nat.add_assoc]

theorem total_le_total {weight other : Text → Nat} {texts : List Text}
    (h : ∀ text ∈ texts, weight text ≤ other text) : total weight texts ≤ total other texts := by
  induction texts with
  | nil => exact Nat.le_refl _
  | cons text rest ih =>
    obtain ⟨htext, hrest⟩ := List.forall_mem_cons.mp h
    exact Nat.add_le_add htext (ih hrest)

theorem ink_flatten (texts : List Text) : ink texts.flatten = total ink texts := by
  induction texts with
  | nil => rfl
  | cons text texts ih => rw [List.flatten_cons, ink_append, ih, total_cons]

theorem ink_intercalate (texts : List Text) : ink (List.intercalate [' '] texts) = total ink texts := by
  rw [ink, without_intercalate rfl, ← without_flatten]
  exact ink_flatten texts

/-! ## Slices -/

theorem length_slice {text : Text} {a b : Nat} (hb : b ≤ text.length) : (slice text a b).length = b - a := by
  rw [slice, List.length_take, List.length_drop]
  omega

theorem slice_append_slice {text : Text} {a b c : Nat} (hab : a ≤ b) (hbc : b ≤ c) :
    slice text a b ++ slice text b c = slice text a c := by
  unfold slice
  rw [show c - a = (b - a) + (c - b) by omega, List.take_add, List.drop_drop,
    show a + (b - a) = b by omega]

theorem slice_eq_nil {text : Text} {a b : Nat} (h : b ≤ a) : slice text a b = [] := by
  rw [slice, Nat.sub_eq_zero_of_le h, List.take_zero]

theorem slice_sublist (text : Text) (a b : Nat) : (slice text a b).Sublist text :=
  (List.take_sublist _ _).trans (List.drop_sublist _ _)

theorem head?_slice (text : Text) {a b : Nat} (h : a < b) : (slice text a b).head? = text[a]? := by
  rw [slice, List.head?_take, if_neg (by omega), List.head?_drop]

/-- A slice that begins inside the text begins with a character of it. -/
theorem sliceSigned_natCast {text : Text} {a b : Nat} (hb : b ≤ text.length) :
    sliceSigned text a b = slice text a b := by
  unfold sliceSigned offsetOf
  rw [if_neg (by omega), if_neg (by omega), Int.toNat_natCast, Int.toNat_natCast, Nat.min_eq_left hb]
  by_cases ha : a ≤ text.length
  · rw [Nat.min_eq_left ha]
  · rw [slice_eq_nil (by omega), slice_eq_nil (by omega)]

end Text

end ProseWrap
