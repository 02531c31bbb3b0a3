import ProseWrap.Proofs.PackedLines

/-!
# Backslashes at the ends of lines

A backslash at the end of a line is a hard break, so a token that ends with one
should not end a line before the last. `Packing.add` looks at the last token of
the line for that. But a token that does not fit may take this token along, and
then the one before it ends the line, which nobody has looked at: the token
*bares* what stands there (`Packing.Bares`). This is the only way in which a
backslash comes to end a line (`endsWithBackslash_of_add`,
`endsWithBackslash_of_foldl_add`).
-/

namespace ProseWrap

/-- Whether the last token of a group ends with a backslash. -/
def EndsWithBackslash (group : List Token) : Prop :=
  ∃ token, group.getLast? = some token ∧ token.endsWithBackslash = true

theorem endsWithBackslash_reverse_cons {token : Token} {others : List Token} :
    EndsWithBackslash (token :: others).reverse ↔ token.endsWithBackslash = true := by
  simp [EndsWithBackslash]

namespace Packing

variable {shape : LineShape}

/-- A token that does not fit takes the last token of the line along, away from
one that ends with a backslash. -/
def Bares (packing : Packing shape) (token : Token) : Prop :=
  ∃ last before others, packing.line = last :: before :: others ∧ before.endsWithBackslash = true ∧
    packing.fits token.width = false ∧ last.beginsBlock = false ∧
    (carriesSentence shape last (before :: others) token = true ∨ token.beginsBlock = true ∨
      last.endsWithBackslash = true)

variable {packing : Packing shape} {token : Token}

/-- When a token takes the last one of the line along. -/
theorem add_of_carried {last : Token} {others : List Token} (hline : packing.line = last :: others)
    (hfits : packing.fits token.width = false) (hothers : others ≠ []) (hlast : last.beginsBlock = false)
    (hcarried : carriesSentence shape last others token = true ∨ token.beginsBlock = true ∨
      last.endsWithBackslash = true) :
    packing.add token = ((packing.finish others.reverse).append last).append token := by
  unfold add
  simp only [hline, hfits, Bool.false_eq_true, if_false]
  split
  · rfl
  · rename_i hsentence
    have hkept : (token.beginsBlock || last.endsWithBackslash) = true := by
      simpa using hcarried.resolve_left hsentence
    have hgoes : (others.isEmpty || last.beginsBlock) = false := by simp [hothers, hlast]
    rw [if_pos hkept, hgoes]
    rfl

/-- A token finishes a line with a backslash at its end just if it bares
one. -/
theorem endsWithBackslash_of_add :
    (∃ group ∈ (packing.add token).done, EndsWithBackslash group) ↔
      (∃ group ∈ packing.done, EndsWithBackslash group) ∨ packing.Bares token := by
  by_cases hbares : packing.Bares token
  · obtain ⟨last, before, others, hline, hbefore, hfits, hlast, hcarried⟩ := id hbares
    rw [add_of_carried hline hfits (List.cons_ne_nil _ _) hlast hcarried]
    refine iff_of_true ⟨_, List.mem_cons_self, ?_⟩ (.inr hbares)
    exact endsWithBackslash_reverse_cons.mpr hbefore
  · rw [or_iff_left hbares]
    have hstep := step_add packing token
    generalize packing.add token = next at hstep ⊢
    cases hstep with
    | begins | joins | overflows => rfl
    | @carries last others hline hfits hothers hlast hcarried =>
      obtain ⟨before, others, rfl⟩ := List.exists_cons_of_ne_nil hothers
      have hends : ¬EndsWithBackslash (before :: others).reverse := fun h =>
        hbares ⟨last, before, others, hline, endsWithBackslash_reverse_cons.mp h, hfits, hlast, hcarried⟩
      simp only [append, finish, List.mem_cons, exists_eq_or_imp, hends, false_or]
    | @breaks last others hline _ _ hlast =>
      have hends : ¬EndsWithBackslash packing.line.reverse := by
        rw [hline, endsWithBackslash_reverse_cons, hlast]
        decide
      simp only [append, finish, List.mem_cons, exists_eq_or_imp, hends, false_or]

/-- Tokens finish a line with a backslash at its end just if one of them bares
it. -/
theorem endsWithBackslash_of_foldl_add (tokens : List Token) :
    (∃ group ∈ (tokens.foldl add packing).done, EndsWithBackslash group) ↔
      (∃ group ∈ packing.done, EndsWithBackslash group) ∨
        ∃ front token rest, tokens = front ++ token :: rest ∧
          (front.foldl add packing).Bares token := by
  induction tokens generalizing packing with
  | nil => simp
  | cons first tokens ih =>
    rw [List.foldl_cons, ih, endsWithBackslash_of_add, or_assoc]
    refine or_congr_right ⟨?_, ?_⟩
    · rintro (hbares | ⟨front, token, rest, rfl, hbares⟩)
      · exact ⟨[], first, tokens, rfl, hbares⟩
      · exact ⟨first :: front, token, rest, rfl, hbares⟩
    · rintro ⟨front, token, rest, heq, hbares⟩
      cases front with
      | nil =>
        obtain ⟨rfl, rfl⟩ := List.cons.inj heq
        exact .inl hbares
      | cons other front =>
        obtain ⟨rfl, rfl⟩ := List.cons.inj heq
        exact .inr ⟨front, token, rest, rfl, hbares⟩

/-- The lines but the last are those that are finished before the last
token. -/
theorem dropLast_lines (h : packing.line ≠ []) : packing.lines.dropLast = packing.done.reverse := by
  rw [lines_eq h, List.dropLast_concat]

/-- What a token bares stands two places before it among the tokens. -/
theorem Bares.infix_tokens {front : List Token} (rest : List Token)
    (h : (front.foldl add (.empty shape)).Bares token) :
    ∃ before last, [before, last, token] <:+: front ++ token :: rest ∧ before.endsWithBackslash = true ∧
      (shape.breakOnSentences = true ∧ before.sentenceEnd = true ∧ last.sentenceEnd = false ∨
        token.beginsBlock = true ∨ last.endsWithBackslash = true) := by
  have hheld : (front.foldl add (.empty shape)).held = front := held_foldl_add (.empty shape) front
  generalize front.foldl add (.empty shape) = packing at h hheld
  obtain ⟨last, before, others, hline, hbefore, -, -, hcarried⟩ := h
  refine ⟨before, last, ?_, hbefore, hcarried.imp_left fun hsentence => ?_⟩
  · refine ⟨packing.done.reverse.flatten ++ others.reverse, rest, ?_⟩
    rw [← hheld, held, hline]
    simp
  · obtain ⟨_, _, _, heq, hbreak, hend, hopen, -⟩ := carriesSentence_eq_true.mp hsentence
    obtain ⟨rfl, -⟩ := List.cons.inj heq
    exact ⟨hbreak, hend, hopen⟩

end Packing

/-- A line before the last ends with a backslash just if some token bares it:
the token does not fit, and takes along the token after that with the
backslash. This happens only where the token would be read as the start of a
block, where the one it takes along ends with a backslash as well, or where
that one begins a sentence; if no backslash has two such tokens after it, no
line but the last ends with one. -/
theorem line_ends_with_backslash_iff (leads : Leads) (mode : LengthMode) (limit : Limit)
    (breakOnSentences : Bool) (tokens : List Token) :
    let shape := leads.shape mode limit breakOnSentences
    let groups := pack shape tokens
    leads.Lays groups (leads.render groups) ∧ groups.flatten = tokens ∧
      ((∃ group ∈ groups.dropLast, EndsWithBackslash group) ↔
        ∃ front token rest, tokens = front ++ token :: rest ∧
          (front.foldl Packing.add (.empty shape)).Bares token) ∧
      ((∀ before last token, [before, last, token] <:+: tokens → before.endsWithBackslash = true →
          token.beginsBlock = false ∧ last.endsWithBackslash = false ∧
            (breakOnSentences = true → before.sentenceEnd = true → last.sentenceEnd = true)) →
        ∀ group ∈ groups.dropLast, ¬EndsWithBackslash group) := by
  intro shape groups
  have hdropLast : groups.dropLast = (tokens.foldl Packing.add (.empty shape)).done.reverse := by
    cases tokens with
    | nil => rfl
    | cons first rest =>
      have hled := (Packing.led_empty shape).foldl_add first rest fun _ hdone => absurd rfl hdone
      exact Packing.dropLast_lines hled.2
  have hiff : (∃ group ∈ groups.dropLast, EndsWithBackslash group) ↔
      ∃ front token rest, tokens = front ++ token :: rest ∧
        (front.foldl Packing.add (.empty shape)).Bares token := by
    simp only [hdropLast, List.mem_reverse, Packing.endsWithBackslash_of_foldl_add]
    simp [Packing.empty]
  refine ⟨leads.lays_render _, flatten_pack shape tokens, hiff, fun hfree group hgroup hends => ?_⟩
  obtain ⟨front, token, rest, rfl, hbares⟩ := hiff.mp ⟨group, hgroup, hends⟩
  obtain ⟨before, last, hinfix, hbefore, hcarried⟩ := hbares.infix_tokens rest
  obtain ⟨htoken, hlast, hsentence⟩ := hfree before last token hinfix hbefore
  rcases hcarried with ⟨hbreak, hend, hopen⟩ | hblock | hslash
  · rw [hsentence hbreak hend] at hopen
    cases hopen
  · rw [hblock] at htoken
    cases htoken
  · rw [hslash] at hlast
    cases hlast

/-- The hyphen may not begin a line, so it takes the word before it along, and
the word before that one ends its line with a backslash. -/
theorem hyphen_bares_backslash :
    let word (text : Text) : Token := ⟨text, text.length, false, false⟩
    let shape := Leads.shape ⟨[], []⟩ .chars (.atMost 5) false
    pack shape [word ['a', '\\'], word ['b'], word ['-']] = [[word ['a', '\\']], [word ['b'], word ['-']]] ∧
      EndsWithBackslash [word ['a', '\\']] := by
  intro word shape
  exact ⟨by decide, word ['a', '\\'], rfl, rfl⟩

end ProseWrap
