import ProseWrap.Text.Blank
import ProseWrap.Unicode.Lowercase

/-!
# Lower case

A text in lower case stays as it is when it is put in lower case again, and so
does every part of it (`lowercase_of_isLower`). This rests on the table of
shifts: no code point is shifted to one that is shifted itself, to that of the
dotted capital I, or to that of a blank or a full stop, and no blank or full
stop is shifted (`forms_apart`, `codes_apart`). There are more than a thousand
code points in the table, so sets of them are compared as numbers that have a
bit for each (`bits`).

What becomes of a character is therefore a blank or a full stop just if the
character is one (`Lowers`), and lower case does not change where a text can be
trimmed (`head?_lowercase`, `getLast?_lowercase`).
-/

namespace ProseWrap.Unicode

/-! ## Sets of code points -/

/-- The number that has a bit for each of some code points. -/
def bits (codes : List Nat) : Nat := codes.foldr (fun n mask => 1 <<< n ||| mask) 0

theorem testBit_bits (codes : List Nat) (n : Nat) : (bits codes).testBit n = decide (n ∈ codes) := by
  induction codes with
  | nil => exact Nat.zero_testBit n
  | cons code rest ih =>
    have hcons : bits (code :: rest) = 1 <<< code ||| bits rest := rfl
    rw [hcons, Nat.testBit_or, ih, Nat.one_shiftLeft, Nat.testBit_two_pow, ← Bool.decide_or]
    exact decide_eq_decide.mpr (by rw [List.mem_cons, eq_comm])

theorem not_mem_of_bits {codes others : List Nat} (h : bits codes &&& bits others = 0) {n : Nat} (hn : n ∈ codes) :
    n ∉ others := by
  intro hother
  have hbit : (bits codes &&& bits others).testBit n = true := by
    rw [Nat.testBit_and, testBit_bits, testBit_bits, decide_eq_true hn, decide_eq_true hother]
    rfl
  rw [h, Nat.zero_testBit] at hbit
  cases hbit

/-! ## The table of shifts -/

/-- The code points that a table shifts, each with its shift. -/
def shifted (table : List (Nat × Nat × Nat × Int)) : List (Nat × Int) :=
  table.flatMap fun (first, last, step, shift) =>
    (List.range ((last - first) / step + 1)).map fun k => (first + k * step, shift)

/-- The code points that have a lower case form. -/
def shiftedCodes : List Nat := (shifted lowercaseShifts).map Prod.fst

/-- The code points of these forms. -/
def shiftedForms : List Nat := (shifted lowercaseShifts).map fun entry => ((entry.1 : Int) + entry.2).toNat

/-- The code points of the full stop and of the blanks. -/
def bareCodes : List Nat :=
  List.range' 0x09 5 ++ List.range' 0x2000 11 ++
    [0x20, 0x2E, 0xA0, 0x1680, 0x2028, 0x2029, 0x202F, 0x205F, 0x3000, 0xFEFF]

theorem mem_bareCodes {c : Char} (h : Text.isBlank c = true ∨ c = '.') : c.toNat ∈ bareCodes := by
  rcases h with h | rfl
  · simp only [Text.isBlank, Bool.or_eq_true, Bool.and_eq_true, decide_eq_true_eq, beq_iff_eq] at h
    simp only [bareCodes, List.mem_append, List.mem_range'_1, List.mem_cons, List.not_mem_nil, or_false]
    omega
  · decide

/-- No form is shifted or bare; 0 stands for a form that would be no
character. -/
theorem forms_apart : bits (0 :: shiftedForms) &&& bits (0x130 :: (bareCodes ++ shiftedCodes)) = 0 := by decide +kernel

theorem codes_apart : bits shiftedCodes &&& bits bareCodes = 0 := by decide +kernel

theorem mem_shifted_of_shiftOf {n : Nat} {table : List (Nat × Nat × Nat × Int)} (h : shiftOf n table ≠ 0) :
    (n, shiftOf n table) ∈ shifted table := by
  fun_induction shiftOf n table with
  | case1 => exact absurd rfl h
  | case2 => exact absurd rfl h
  | case3 first last step shift rest hfirst hlast hstep =>
    have hstep : (n - first) % step = 0 := by simpa using hstep
    refine List.mem_append_left _ (List.mem_map.mpr ⟨(n - first) / step, List.mem_range.mpr ?_, ?_⟩)
    · exact Nat.lt_succ_of_le (Nat.div_le_div_right (by omega))
    · have hdiv := Nat.div_add_mod (n - first) step
      rw [hstep, Nat.mul_comm] at hdiv
      rw [show first + (n - first) / step * step = n by omega]
  | case4 first last step shift rest _ _ _ ih => exact List.mem_append_right _ (ih h)
  | case5 first last step shift rest _ _ ih => exact List.mem_append_right _ (ih h)

theorem mem_shiftedCodes {n : Nat} (h : shiftOf n lowercaseShifts ≠ 0) : n ∈ shiftedCodes :=
  List.mem_map.mpr ⟨_, mem_shifted_of_shiftOf h, rfl⟩

theorem toNat_ofNat (n : Nat) : (Char.ofNat n).toNat = n ∨ (Char.ofNat n).toNat = 0 := by
  by_cases hvalid : n.isValidChar
  · rw [Char.ofNat, dif_pos hvalid]
    exact .inl rfl
  · rw [Char.ofNat, dif_neg hvalid]
    exact .inr rfl

theorem toNat_lowerChar_mem {c : Char} (h : shiftOf c.toNat lowercaseShifts ≠ 0) :
    (lowerChar c).toNat ∈ 0 :: shiftedForms := by
  have hform : ((c.toNat : Int) + shiftOf c.toNat lowercaseShifts).toNat ∈ shiftedForms :=
    List.mem_map.mpr ⟨_, mem_shifted_of_shiftOf h, rfl⟩
  rcases toNat_ofNat ((c.toNat : Int) + shiftOf c.toNat lowercaseShifts).toNat with hcode | hcode
  · rw [lowerChar, hcode]
    exact List.mem_cons_of_mem _ hform
  · rw [lowerChar, hcode]
    exact List.mem_cons_self

/-! ## Characters -/

/-- A character that is its own lower case form wherever it stands. -/
def IsLower (c : Char) : Prop := c ≠ '\u0130' ∧ shiftOf c.toNat lowercaseShifts = 0

instance (c : Char) : Decidable (IsLower c) := inferInstanceAs (Decidable (_ ∧ _))

/-- What can become of a character in lower case: one that stays as it is, and
that is a blank or a full stop just if the character is. -/
structure Lowers (c d : Char) : Prop where
  isLower : IsLower d
  isBlank_eq : Text.isBlank d = Text.isBlank c
  eq_stop_iff : d = '.' ↔ c = '.'

theorem IsLower.lowers {c : Char} (h : IsLower c) : Lowers c c := ⟨h, rfl, Iff.rfl⟩

theorem isLower_of_mem_shiftedForms {c : Char} (h : c.toNat ∈ 0 :: shiftedForms) : IsLower c := by
  have hapart := not_mem_of_bits forms_apart h
  constructor
  · rintro rfl
    exact hapart List.mem_cons_self
  · refine Decidable.not_not.mp fun hshift => hapart ?_
    exact List.mem_cons_of_mem _ (List.mem_append_right _ (mem_shiftedCodes hshift))

theorem not_mem_bareCodes_of_mem_shiftedForms {n : Nat} (h : n ∈ 0 :: shiftedForms) : n ∉ bareCodes := fun hbare =>
  not_mem_of_bits forms_apart h (List.mem_cons_of_mem _ (List.mem_append_left _ hbare))

/-- Of characters that are neither blanks nor full stops, one can become the
other if that is in lower case. -/
theorem Lowers.of_not_mem {c d : Char} (hc : c.toNat ∉ bareCodes) (hd : d.toNat ∉ bareCodes) (hlower : IsLower d) :
    Lowers c d where
  isLower := hlower
  isBlank_eq := by
    rw [Bool.eq_false_iff.mpr fun h => hc (mem_bareCodes (.inl h)),
      Bool.eq_false_iff.mpr fun h => hd (mem_bareCodes (.inl h))]
  eq_stop_iff := iff_of_false (fun h => hd (mem_bareCodes (.inr h))) fun h => hc (mem_bareCodes (.inr h))

theorem lowers_lowerChar {c : Char} (h : c ≠ '\u0130') : Lowers c (lowerChar c) := by
  by_cases hshift : shiftOf c.toNat lowercaseShifts = 0
  · have hself : lowerChar c = c := by
      rw [lowerChar, hshift, Int.add_zero, Int.toNat_natCast, Char.ofNat_toNat]
    rw [hself]
    exact IsLower.lowers ⟨h, hshift⟩
  · have hform := toNat_lowerChar_mem hshift
    exact .of_not_mem (not_mem_of_bits codes_apart (mem_shiftedCodes hshift))
      (not_mem_bareCodes_of_mem_shiftedForms hform) (isLower_of_mem_shiftedForms hform)

/-! ## Texts -/

/-- In lower case, a character has become one or two that it can become, and
the rest of the text comes after them. -/
theorem lowercaseAfter_cons (before : Text) (c : Char) (rest : Text) :
    ∃ chars, lowercaseAfter before (c :: rest) = chars ++ lowercaseAfter (c :: before) rest ∧ chars ≠ [] ∧
      ∀ d ∈ chars, Lowers c d := by
  rw [lowercaseAfter]
  refine ⟨_, rfl, ?_⟩
  split
  · rename_i hdotted
    obtain rfl : c = '\u0130' := by simpa using hdotted
    refine ⟨by simp, List.forall_mem_cons.mpr ⟨?_, List.forall_mem_singleton.mpr ?_⟩⟩
    · exact .of_not_mem (by decide) (by decide) (by decide +kernel)
    · exact .of_not_mem (by decide) (by decide) (by decide +kernel)
  · rename_i hdotted
    split
    · rename_i hsigma
      obtain rfl : c = '\u03A3' := by simpa using hsigma
      refine ⟨by simp, List.forall_mem_singleton.mpr ?_⟩
      split
      · exact .of_not_mem (by decide) (by decide) (by decide +kernel)
      · exact .of_not_mem (by decide) (by decide) (by decide +kernel)
    · exact ⟨by simp, List.forall_mem_singleton.mpr (lowers_lowerChar (by simpa using hdotted))⟩

theorem exists_lowers_of_mem {before text : Text} {d : Char} (h : d ∈ lowercaseAfter before text) :
    ∃ c ∈ text, Lowers c d := by
  induction text generalizing before with
  | nil => cases h
  | cons c rest ih =>
    obtain ⟨chars, heq, -, hchars⟩ := lowercaseAfter_cons before c rest
    rw [heq] at h
    rcases List.mem_append.mp h with h | h
    · exact ⟨c, List.mem_cons_self, hchars d h⟩
    · obtain ⟨other, hother, hlowers⟩ := ih h
      exact ⟨other, List.mem_cons_of_mem _ hother, hlowers⟩

theorem isLower_of_mem_lowercase {text : Text} {d : Char} (h : d ∈ lowercase text) : IsLower d := by
  obtain ⟨c, -, hlowers⟩ := exists_lowers_of_mem h
  exact hlowers.isLower

theorem lowercaseAfter_of_isLower (before : Text) {text : Text} (h : ∀ c ∈ text, IsLower c) :
    lowercaseAfter before text = text := by
  induction text generalizing before with
  | nil => rfl
  | cons c rest ih =>
    obtain ⟨hc, hrest⟩ := List.forall_mem_cons.mp h
    have hsigma : c ≠ '\u03A3' := by
      rintro rfl
      exact absurd hc.2 (by decide +kernel)
    rw [lowercaseAfter, ih _ hrest, if_neg (by simpa using hc.1), if_neg (by simpa using hsigma), lowerChar, hc.2,
      Int.add_zero, Int.toNat_natCast, Char.ofNat_toNat]
    rfl

/-- A text of characters in lower case stays as it is. -/
theorem lowercase_of_isLower {text : Text} (h : ∀ c ∈ text, IsLower c) : lowercase text = text :=
  lowercaseAfter_of_isLower [] h

theorem lowercaseAfter_eq_nil {before text : Text} : lowercaseAfter before text = [] ↔ text = [] := by
  cases text with
  | nil => exact iff_of_true rfl rfl
  | cons c rest =>
    obtain ⟨chars, heq, hne, -⟩ := lowercaseAfter_cons before c rest
    rw [heq]
    exact iff_of_false (fun h => hne (List.append_eq_nil_iff.mp h).1) (List.cons_ne_nil c rest)

/-- The first character of a text in lower case has come from its first one. -/
theorem head?_lowercase {text : Text} {d : Char} (h : (lowercase text).head? = some d) :
    ∃ c, text.head? = some c ∧ Lowers c d := by
  cases text with
  | nil => cases h
  | cons c rest =>
    obtain ⟨chars, heq, hne, hchars⟩ := lowercaseAfter_cons [] c rest
    obtain ⟨first, others, rfl⟩ := List.exists_cons_of_ne_nil hne
    rw [lowercase, heq] at h
    cases h
    exact ⟨c, rfl, hchars d List.mem_cons_self⟩

theorem getLast?_lowercaseAfter {before text : Text} {d : Char} (h : (lowercaseAfter before text).getLast? = some d) :
    ∃ c, text.getLast? = some c ∧ Lowers c d := by
  induction text generalizing before with
  | nil => cases h
  | cons c rest ih =>
    obtain ⟨chars, heq, -, hchars⟩ := lowercaseAfter_cons before c rest
    rw [heq] at h
    cases rest with
    | nil =>
      rw [show lowercaseAfter (c :: before) [] = [] from rfl, List.append_nil] at h
      exact ⟨c, rfl, hchars d (List.mem_of_getLast? h)⟩
    | cons next rest =>
      rw [List.getLast?_append] at h
      cases hlast : (lowercaseAfter (c :: before) (next :: rest)).getLast? with
      | none => cases lowercaseAfter_eq_nil.mp (List.getLast?_eq_none_iff.mp hlast)
      | some last =>
        rw [hlast] at h
        cases h
        obtain ⟨other, hother, hlowers⟩ := ih hlast
        exact ⟨other, by rwa [List.getLast?_cons_cons], hlowers⟩

/-- The last character of a text in lower case has come from its last one. -/
theorem getLast?_lowercase {text : Text} {d : Char} (h : (lowercase text).getLast? = some d) :
    ∃ c, text.getLast? = some c ∧ Lowers c d :=
  getLast?_lowercaseAfter h

end ProseWrap.Unicode
