import ProseWrap.Proofs.Deletion
import ProseWrap.Proofs.LetterCase
import ProseWrap.Sentence.Abbreviation

/-!
# Normal forms of abbreviations

Abbreviations are kept in their normal form, and a word is looked up by its
own. So an entry is recognised if its normal form is in normal form. Full stops
at the end of a word are dropped before the blanks are, and only once: a word
with blanks after a full stop keeps that one (`HidesStop`), and then its normal
form has another normal form (`normalize_normalize_iff`). Such an entry is
recognised only where that other form is known anyway (`entry_recognised_iff`).
-/

namespace ProseWrap

namespace Text

/-! ## The ends of a text -/

variable {p : Char → Bool}

/-- A text is what is left of it and what was dropped at its end. -/
theorem exists_dropEndWhile_append (p : Char → Bool) (text : Text) :
    ∃ dropped, text = dropEndWhile p text ++ dropped ∧ ∀ c ∈ dropped, p c = true :=
  ⟨text.rtakeWhile p, List.rdropWhile_append_rtakeWhile.symm, fun _ hc => List.mem_rtakeWhile_imp hc⟩

theorem dropEndWhile_append {front dropped : Text} (h : ∀ c ∈ dropped, p c = true) :
    dropEndWhile p (front ++ dropped) = dropEndWhile p front := by
  rw [dropEndWhile, List.reverse_append, List.dropWhile_append_of_pos (by simpa using h), dropEndWhile]

theorem dropEndWhile_of_getLast? {text : Text} (h : ∀ c, text.getLast? = some c → p c = false) :
    dropEndWhile p text = text := by
  refine List.rdropWhile_eq_self_iff.mpr fun hne => ?_
  rw [h _ (List.getLast?_eq_some_getLast hne)]
  exact Bool.false_ne_true

/-- A text whose first and last characters are no blanks has none to trim. -/
theorem trim_of_edges {text : Text} (hhead : ∀ c, text.head? = some c → isBlank c = false)
    (hlast : ∀ c, text.getLast? = some c → isBlank c = false) : trim text = text := by
  have hstart : trimStart text = text := by
    cases text with
    | nil => rfl
    | cons c rest => exact List.dropWhile_cons_of_neg (by simp [hhead c rfl])
  rw [trim, hstart]
  exact dropEndWhile_of_getLast? hlast

theorem trimStart_append_cons {c : Char} (h : isBlank c = false) (front rest : Text) :
    trimStart (front ++ c :: rest) = trimStart front ++ c :: rest := by
  induction front with
  | nil => exact List.dropWhile_cons_of_neg (by simp [h])
  | cons d front ih =>
    cases hd : isBlank d with
    | true =>
      rw [List.cons_append, trimStart, List.dropWhile_cons_of_pos hd, trimStart, List.dropWhile_cons_of_pos hd]
      exact ih
    | false =>
      rw [List.cons_append, trimStart, List.dropWhile_cons_of_neg (by simp [hd]), trimStart,
        List.dropWhile_cons_of_neg (by simp [hd])]
      rfl

end Text

namespace Sentence

open Text (trim trimStart trimEnd dropEndWhile isBlank)

/-! ## Words with blanks after a full stop -/

/-- A word has blanks after a full stop, and after these at most further full
stops. -/
def HidesStop (word : Text) : Prop :=
  ∃ front blanks stops, word = front ++ '.' :: (blanks ++ stops) ∧ blanks ≠ [] ∧ (∀ c ∈ blanks, isBlank c = true) ∧
    ∀ c ∈ stops, c = '.'

/-- What is left of a word before it is put in lower case. -/
def stem (word : Text) : Text := trim (dropEndWhile (· == '.') word)

theorem getLast?_stem_of_hidesStop {word : Text} (h : HidesStop word) : (stem word).getLast? = some '.' := by
  obtain ⟨front, blanks, stops, rfl, hne, hblanks, hstops⟩ := h
  have hdrop : dropEndWhile (· == '.') (front ++ '.' :: (blanks ++ stops)) = front ++ '.' :: blanks := by
    rw [← List.cons_append, ← List.append_assoc, Text.dropEndWhile_append fun c hc => beq_iff_eq.mpr (hstops c hc)]
    refine Text.dropEndWhile_of_getLast? fun c hc => ?_
    rw [List.getLast?_append_cons, List.getLast?_cons_of_ne_nil hne] at hc
    have hblank := hblanks c (List.mem_of_getLast? hc)
    refine beq_eq_false_iff_ne.mpr ?_
    rintro rfl
    cases hblank
  have htrim : trimEnd (trimStart front ++ '.' :: blanks) = trimStart front ++ ['.'] := by
    rw [List.append_cons, trimEnd, Text.dropEndWhile_append hblanks]
    refine Text.dropEndWhile_of_getLast? fun c hc => ?_
    rw [List.getLast?_concat] at hc
    cases hc
    rfl
  rw [stem, hdrop, trim, Text.trimStart_append_cons rfl, htrim, List.getLast?_concat]

/-- A full stop is left at the end of a word just if there are blanks after
one. -/
theorem getLast?_stem_iff {word : Text} : (stem word).getLast? = some '.' ↔ HidesStop word := by
  refine ⟨fun hlast => ?_, getLast?_stem_of_hidesStop⟩
  obtain ⟨stops, hword, hstops⟩ := Text.exists_dropEndWhile_append (· == '.') word
  have hend {c : Char} (hc : (dropEndWhile (· == '.') word).getLast? = some c) := Text.getLast?_dropEndWhile hc
  obtain ⟨lead, hlead⟩ : trimStart (dropEndWhile (· == '.') word) <:+ dropEndWhile (· == '.') word :=
    List.dropWhile_suffix _
  obtain ⟨blanks, htrim, hblanks⟩ := Text.exists_dropEndWhile_append isBlank (trimStart (dropEndWhile (· == '.') word))
  obtain ⟨front, hfront⟩ := List.getLast?_eq_some_iff.mp hlast
  have hparts : dropEndWhile (· == '.') word = (lead ++ front) ++ '.' :: blanks := by
    rw [← hlead, htrim, show dropEndWhile isBlank _ = front ++ ['.'] from hfront]
    simp
  refine ⟨lead ++ front, blanks, stops, ?_, ?_, hblanks, fun c hc => beq_iff_eq.mp (hstops c hc)⟩
  · rw [hword, hparts]
    simp
  · rintro rfl
    rw [hparts] at hend
    cases hend List.getLast?_concat

/-! ## Normal forms -/

theorem normalize_eq (word : Text) : normalize word = Unicode.lowercase (stem word) := rfl

theorem trim_normalize (word : Text) : trim (normalize word) = normalize word := by
  rw [normalize_eq]
  refine Text.trim_of_edges (fun d hd => ?_) fun d hd => ?_
  · obtain ⟨c, hc, hlowers⟩ := Unicode.head?_lowercase hd
    obtain ⟨rest, hrest⟩ := List.head?_eq_some_iff.mp hc
    rw [hlowers.isBlank_eq, Text.head_trim hrest]
  · obtain ⟨c, hc, hlowers⟩ := Unicode.getLast?_lowercase hd
    rw [hlowers.isBlank_eq, Text.last_trim hc]

/-- A normal form ends with a full stop just if the word has blanks after
one. -/
theorem getLast?_normalize_iff {word : Text} : (normalize word).getLast? = some '.' ↔ HidesStop word := by
  rw [← getLast?_stem_iff, normalize_eq]
  constructor
  · intro hlast
    obtain ⟨c, hc, hlowers⟩ := Unicode.getLast?_lowercase hlast
    rw [hc, hlowers.eq_stop_iff.mp rfl]
  · intro hlast
    have hne : Unicode.lowercase (stem word) ≠ [] := by
      intro hnil
      rw [Unicode.lowercaseAfter_eq_nil.mp hnil] at hlast
      cases hlast
    have hend := List.getLast?_eq_some_getLast hne
    obtain ⟨c, hc, hlowers⟩ := Unicode.getLast?_lowercase hend
    rw [hlast] at hc
    rw [hend, hlowers.eq_stop_iff.mpr (Option.some.inj hc).symm]

/-- Full stops at the end of a word do not change its normal form. -/
theorem normalize_append_stops (word : Text) (count : Nat) :
    normalize (word ++ List.replicate count '.') = normalize word := by
  rw [normalize, Text.dropEndWhile_append fun c hc => by simp [List.eq_of_mem_replicate hc], normalize]

/-- The normal form of a normal form is what is left of that before it is put
in lower case. -/
theorem normalize_normalize (word : Text) : normalize (normalize word) = stem (normalize word) := by
  refine Unicode.lowercase_of_isLower fun c hc => ?_
  have hdrop : c ∈ dropEndWhile (· == '.') (normalize word) := (Text.trim_sublist _).subset hc
  exact Unicode.isLower_of_mem_lowercase ((List.rdropWhile_prefix _ _).subset hdrop)

/-- A word in normal form stays as it is, unless it ends with a full stop. -/
theorem normalize_normalize_iff {word : Text} : normalize (normalize word) = normalize word ↔ ¬HidesStop word := by
  rw [← getLast?_normalize_iff, normalize_normalize, stem]
  constructor
  · intro heq hlast
    have hkept : dropEndWhile (· == '.') (normalize word) = normalize word := by
      have hprefix : dropEndWhile (· == '.') (normalize word) <+: normalize word := List.rdropWhile_prefix _ _
      refine hprefix.eq_of_length_le ?_
      have hle := (Text.trim_sublist (dropEndWhile (· == '.') (normalize word))).length_le
      rwa [heq] at hle
    cases Text.getLast?_dropEndWhile (hkept.symm ▸ hlast)
  · intro hlast
    have hkept : dropEndWhile (· == '.') (normalize word) = normalize word := by
      refine Text.dropEndWhile_of_getLast? fun c hc => beq_eq_false_iff_ne.mpr ?_
      rintro rfl
      exact hlast hc
    rw [hkept, trim_normalize]

end Sentence

/-! ## Abbreviations -/

namespace Abbreviations

open Sentence

theorem mem_entries_add {set : Abbreviations} {word entry : Text} :
    entry ∈ (set.add word).entries ↔ entry ∈ set.entries ∨ entry ≠ [] ∧ normalize word = entry := by
  unfold add
  dsimp only
  split
  · rename_i hkept
    refine ⟨.inl, fun h => h.elim id ?_⟩
    rintro ⟨hne, rfl⟩
    rw [Bool.or_eq_true, List.isEmpty_iff, List.contains_iff_mem] at hkept
    exact hkept.resolve_left hne
  · rename_i hnew
    rw [List.mem_append, List.mem_singleton]
    refine or_congr_right ⟨fun h => ?_, fun h => h.2.symm⟩
    subst h
    exact ⟨fun hnil => hnew (by simp [hnil]), rfl⟩

theorem mem_entries_ofList {words : List Text} {entry : Text} :
    entry ∈ (ofList words).entries ↔ entry ∈ common ∨ entry ≠ [] ∧ ∃ word ∈ words, normalize word = entry := by
  suffices ∀ set : Abbreviations, entry ∈ (words.foldl add set).entries ↔
      entry ∈ set.entries ∨ entry ≠ [] ∧ ∃ word ∈ words, normalize word = entry from this ⟨common⟩
  induction words with
  | nil => simp
  | cons word rest ih =>
    intro set
    rw [List.foldl_cons, ih, mem_entries_add]
    simp only [List.exists_mem_cons_iff, or_assoc, and_or_left]

theorem normalize_common : ∀ word ∈ common, normalize word = word ∧ word ≠ [] := by decide +kernel

/-- A word is recognised just if a common abbreviation or one of the given
words has the same normal form. -/
theorem contains_ofList_iff {words : List Text} {word : Text} :
    (ofList words).contains word = true ↔
      normalize word ≠ [] ∧ ∃ other ∈ common ++ words, normalize other = normalize word := by
  rw [contains, Bool.and_eq_true, List.contains_iff_mem, mem_entries_ofList]
  simp only [Bool.not_eq_true', List.isEmpty_eq_false_iff, List.mem_append, or_and_right, exists_or]
  refine and_congr_right fun hne => ?_
  rw [and_iff_right hne]
  refine or_congr_left ⟨fun h => ⟨_, h, (normalize_common _ h).1⟩, ?_⟩
  rintro ⟨other, hother, heq⟩
  rw [← heq, (normalize_common other hother).1]
  exact hother

/-- An entry with a normal form is recognised by this form, with and without a
full stop, unless it has blanks after a full stop; then it is just if its form
has the normal form of another abbreviation that is known. For taking the
normal form twice changes a word just if it has blanks after a full stop, and
further full stops change nothing. -/
theorem entry_recognised_iff (words : List Text) (entry : Text) :
    (entry ∈ words → normalize entry ≠ [] →
      ((ofList words).contains (normalize entry) = true ∧ (ofList words).contains (normalize entry ++ ['.']) = true ↔
        (HidesStop entry → normalize (normalize entry) ≠ [] ∧
          ∃ other ∈ common ++ words, normalize other = normalize (normalize entry)))) ∧
      (normalize (normalize entry) = normalize entry ↔ ¬HidesStop entry) ∧
      ∀ count, normalize (normalize entry ++ List.replicate count '.') = normalize (normalize entry) := by
  refine ⟨fun hentry hne => ?_, normalize_normalize_iff, normalize_append_stops (normalize entry)⟩
  have hstop : normalize (normalize entry ++ ['.']) = normalize (normalize entry) :=
    normalize_append_stops (normalize entry) 1
  rw [contains_ofList_iff, contains_ofList_iff, hstop, and_self]
  refine ⟨fun h _ => h, fun h => ?_⟩
  by_cases hhides : HidesStop entry
  · exact h hhides
  · rw [normalize_normalize_iff.mpr hhides]
    exact ⟨hne, entry, List.mem_append_right _ hentry, rfl⟩

/-- An entry with a full stop is recognised, and one with a blank after it
since another entry has the form without. -/
theorem entry_recognised_known :
    let words : List Text := ["Inc.".toList, "vs. ".toList, "VS".toList]
    normalize "Inc.".toList = "inc".toList ∧ normalize "vs. ".toList = "vs.".toList ∧
      ((ofList words).contains "inc".toList = true ∧ (ofList words).contains "inc.".toList = true) ∧
      (ofList words).contains "vs.".toList = true ∧ (ofList words).contains "vs..".toList = true := by
  intro words
  have hinc : normalize "Inc.".toList = "inc".toList := by decide +kernel
  have hvs : normalize "vs. ".toList = "vs.".toList := by decide +kernel
  obtain ⟨hentry, hstable, -⟩ := entry_recognised_iff words "Inc.".toList
  obtain ⟨hother, -, -⟩ := entry_recognised_iff words "vs. ".toList
  have hplain : ¬HidesStop "Inc.".toList := hstable.mp (by decide +kernel)
  rw [hinc] at hentry
  rw [hvs] at hother
  refine ⟨hinc, hvs, (hentry (by decide) (by decide)).mpr fun h => absurd h hplain,
    (hother (by decide) (by decide)).mpr fun _ => ⟨by decide +kernel, "VS".toList, by decide, by decide +kernel⟩⟩

/-- An entry with a blank after its full stop is kept, and is not recognised by
its normal form. -/
theorem blank_hides_stop :
    let entry : Text := "vs. ".toList
    let set := ofList [entry]
    normalize entry = "vs.".toList ∧ normalize (normalize entry) = "vs".toList ∧
      set.contains (normalize entry) = false ∧ set.contains (normalize entry ++ ['.']) = false := by
  decide +kernel

end Abbreviations

end ProseWrap
