import ProseWrap.Proofs.PackedLines

/-!
# How wide packed lines are

A packed line is too wide only where it cannot be ended: up to a token that
would be read as the start of a block, or that follows a backslash (`Excused`).
The current line of a packing has this property after each of the steps that a
token can make, and so do the finished lines (`Packing.LinesExcused`).

Widths are compared with the number that the lines are packed for
(`Number.covers`). For a number other than 0 this is what the limit of the
lines admits (`Limit.admits_ofNumber`).
-/

namespace ProseWrap

/-! ## Widths -/

/-- Whether a width is at most a number. Nothing is at most what is not a
number. -/
def Number.covers : Number → Int → Bool
  | .finite value, width => decide ((width : Rat) ≤ value)
  | .infinite negative, _ => !negative
  | .nan, _ => false

theorem Limit.admits_ofNumber {number : Number} (h : number ≠ .finite 0) (width : Int) :
    (ofNumber number).admits width = number.covers width := by
  cases number with
  | finite value =>
    have hvalue : value ≠ 0 := fun hzero => h (congrArg Number.finite hzero)
    simp only [ofNumber, if_neg hvalue, admits, Number.covers, Rat.le_floor_iff]
  | infinite negative => cases negative <;> rfl
  | nan => rfl

/-- A limit admits what the number covers; 0 is no limit at all. -/
theorem Limit.admits_of_covers {number : Number} {width : Int} (h : number.covers width = true) :
    (ofNumber number).admits width = true := by
  by_cases hzero : number = .finite 0
  · subst hzero
    rfl
  · rwa [admits_ofNumber hzero]

/-- What is narrower than an admitted width is admitted as well. -/
theorem Limit.admits_of_le {limit : Limit} {width other : Int} (hle : other ≤ width)
    (h : limit.admits width = true) : limit.admits other = true := by
  cases limit with
  | unlimited => rfl
  | atMost bound =>
    simp only [admits, decide_eq_true_eq] at h ⊢
    omega
  | nothing => cases h

namespace Token

variable {front back : List Token}

theorem lineWidth_cons (token : Token) (hback : back ≠ []) :
    lineWidth (token :: back) = token.width + 1 + lineWidth back := by
  obtain ⟨next, rest, rfl⟩ := List.exists_cons_of_ne_nil hback
  rfl

theorem lineWidth_append (hfront : front ≠ []) (hback : back ≠ []) :
    lineWidth (front ++ back) = lineWidth front + 1 + lineWidth back := by
  induction front with
  | nil => exact absurd rfl hfront
  | cons token rest ih =>
    rw [List.cons_append, lineWidth_cons token (by simp [hback])]
    by_cases hrest : rest = []
    · subst hrest
      rfl
    · rw [ih hrest, lineWidth_cons token hrest]
      omega

theorem lineWidth_reverse (tokens : List Token) : lineWidth tokens.reverse = lineWidth tokens := by
  induction tokens with
  | nil => rfl
  | cons token rest ih =>
    by_cases hrest : rest = []
    · subst hrest
      rfl
    · rw [List.reverse_cons, lineWidth_append (by simpa using hrest) (List.cons_ne_nil _ _), ih,
        lineWidth_cons token hrest]
      show lineWidth rest + 1 + token.width = _
      omega

theorem lineWidth_nonneg {tokens : List Token} (h : ∀ token ∈ tokens, 0 ≤ token.width) :
    0 ≤ lineWidth tokens := by
  induction tokens with
  | nil => exact Int.le_refl 0
  | cons token rest ih =>
    obtain ⟨htoken, hrest⟩ := List.forall_mem_cons.mp h
    by_cases hnil : rest = []
    · subst hnil
      exact htoken
    · have := ih hrest
      rw [lineWidth_cons token hnil]
      omega

theorem lineWidth_le_append (hfront : ∀ token ∈ front, 0 ≤ token.width) (hback : ∀ token ∈ back, 0 ≤ token.width) :
    lineWidth front ≤ lineWidth (front ++ back) ∧ lineWidth back ≤ lineWidth (front ++ back) := by
  have hfrontWidth := lineWidth_nonneg hfront
  have hbackWidth := lineWidth_nonneg hback
  by_cases hnoFront : front = []
  · subst hnoFront
    exact ⟨hbackWidth, Int.le_refl _⟩
  · by_cases hnoBack : back = []
    · subst hnoBack
      rw [List.append_nil]
      exact ⟨Int.le_refl _, hfrontWidth⟩
    · rw [lineWidth_append hnoFront hnoBack]
      omega

/-- A line is at least as wide as any part of it. -/
theorem lineWidth_le_of_infix {part whole : List Token} (hpart : part <:+: whole)
    (h : ∀ token ∈ whole, 0 ≤ token.width) : lineWidth part ≤ lineWidth whole := by
  obtain ⟨front, back, rfl⟩ := hpart
  obtain ⟨hstart, hback⟩ := List.forall_mem_append.mp h
  obtain ⟨hfront, hpart⟩ := List.forall_mem_append.mp hstart
  calc lineWidth part
    _ ≤ lineWidth (front ++ part) := (lineWidth_le_append hfront hpart).2
    _ ≤ lineWidth (front ++ part ++ back) := (lineWidth_le_append hstart hback).1

end Token

/-! ## Lines that could not be ended -/

/-- Wherever a line grows too wide, it could not be ended: the token there
would be read as the start of a block, or the one before it ends with a
backslash. -/
def Excused (admits : Int → Bool) (lead : Int) (group : List Token) : Prop :=
  ∀ front previous token rest, group = front ++ previous :: token :: rest →
    admits (lead + Token.lineWidth (front ++ [previous, token])) = false →
    token.beginsBlock = true ∨ previous.endsWithBackslash = true

namespace Excused

variable {admits : Int → Bool} {lead : Int} {group : List Token}

theorem singleton (token : Token) : Excused admits lead [token] := by
  intro front previous next rest heq
  have hlength := congrArg List.length heq
  simp only [List.length_append, List.length_cons, List.length_nil] at hlength
  omega

theorem of_append {rest : List Token} (h : Excused admits lead (group ++ rest)) : Excused admits lead group := by
  rintro front previous token more rfl hwide
  exact h front previous token (more ++ rest) (by simp) hwide

/-- A line may take one more token if it admits this, or if it cannot be ended
before the token. -/
theorem concat {last token : Token} (h : Excused admits lead (group ++ [last]))
    (htoken : admits (lead + Token.lineWidth (group ++ [last, token])) = false →
      token.beginsBlock = true ∨ last.endsWithBackslash = true) :
    Excused admits lead (group ++ [last, token]) := by
  intro front previous next rest heq hwide
  rcases List.eq_nil_or_concat rest with rfl | ⟨rest, final, rfl⟩
  · obtain ⟨rfl, hpair⟩ := List.append_inj' heq rfl
    obtain ⟨rfl, rfl⟩ : last = previous ∧ token = next := by simpa using hpair
    exact htoken hwide
  · refine h front previous next rest ?_ hwide
    have hsplit : group ++ [last] ++ [token] = front ++ previous :: next :: rest ++ [final] := by simpa using heq
    exact (List.append_inj' hsplit rfl).1

theorem pair {last token : Token} (htoken : admits (lead + last.width + 1 + token.width) = false →
    token.beginsBlock = true ∨ last.endsWithBackslash = true) : Excused admits lead [last, token] := by
  have hlast : Excused admits lead ([] ++ [last]) := singleton last
  refine hlast.concat fun hwide => htoken ?_
  have hwidth : lead + (last.width + 1 + token.width) = lead + last.width + 1 + token.width := by omega
  rwa [← hwidth]

/-- A line that is admitted as a whole is too wide nowhere. -/
theorem of_admits {limit : Limit} (hwidths : ∀ token ∈ group, 0 ≤ token.width)
    (h : limit.admits (lead + Token.lineWidth group) = true) : Excused limit.admits lead group := by
  rintro front previous token rest rfl hwide
  have hpart : front ++ [previous, token] <:+: front ++ previous :: token :: rest := ⟨[], rest, by simp⟩
  have hle := Token.lineWidth_le_of_infix hpart hwidths
  rw [Limit.admits_of_le (by omega) h] at hwide
  cases hwide

/-- If none of its tokens has an excuse, a line of several tokens is not too
wide. -/
theorem admits_of_plain (h : Excused admits lead group) (hlength : 2 ≤ group.length)
    (hplain : ∀ token ∈ group, token.beginsBlock = false ∧ token.endsWithBackslash = false) :
    admits (lead + Token.lineWidth group) = true := by
  rcases List.eq_nil_or_concat group with rfl | ⟨start, last, rfl⟩
  · simp at hlength
  · rcases List.eq_nil_or_concat start with rfl | ⟨front, previous, rfl⟩
    · simp at hlength
    · refine Bool.of_not_eq_false fun hwide => ?_
      rcases h front previous last [] (by simp) (by simpa using hwide) with hblock | hslash
      · rw [(hplain last (by simp)).1] at hblock
        cases hblock
      · rw [(hplain previous (by simp)).2] at hslash
        cases hslash

end Excused

/-! ## Packings -/

namespace Packing

variable {shape : LineShape} {packing next : Packing shape} {token : Token}

theorem fits_eq (packing : Packing shape) (width : Int) :
    packing.fits width = shape.limit.admits (packing.width + Token.gapAfter packing.line + width) := by
  unfold fits
  cases hlimit : shape.limit <;> rfl

/-- A token fits just if the line with it is admitted. -/
theorem fits_token {last : Token} {others : List Token} (hline : packing.line = last :: others) :
    packing.fits token.width = shape.limit.admits
      (shape.leadAt packing.done.length + Token.lineWidth (others.reverse ++ [last, token])) := by
  have hsplit : others.reverse ++ [last, token] = (token :: packing.line).reverse := by simp [hline]
  rw [fits_eq, hsplit, Token.lineWidth_reverse, Token.lineWidth_cons_eq, packing.width_eq]
  congr 1
  omega

/-- The finished lines and the current one are too wide only where they could
not be ended. -/
structure LinesExcused (packing : Packing shape) : Prop where
  done : ∀ later group earlier, packing.done = later ++ group :: earlier →
    Excused shape.limit.admits (shape.leadAt earlier.length) group
  line : Excused shape.limit.admits (shape.leadAt packing.done.length) packing.line.reverse

theorem LinesExcused.finish (h : packing.LinesExcused) {group : List Token}
    (hgroup : Excused shape.limit.admits (shape.leadAt packing.done.length) group)
    (hnext : next.done = group :: packing.done)
    (hline : Excused shape.limit.admits shape.furtherLead next.line.reverse) : next.LinesExcused := by
  refine ⟨fun later other earlier heq => ?_, by rwa [hnext]⟩
  rw [hnext] at heq
  cases later with
  | nil =>
    obtain ⟨rfl, rfl⟩ := List.cons.inj heq
    exact hgroup
  | cons _ later => exact h.done later other earlier (List.cons.inj heq).2

/-- A step keeps the excuses of the lines. -/
theorem LinesExcused.step (h : packing.LinesExcused) (hstep : Step packing token next) :
    next.LinesExcused := by
  have happend {last : Token} {others : List Token} (hline : packing.line = last :: others)
      (htoken : packing.fits token.width = false → token.beginsBlock = true ∨ last.endsWithBackslash = true) :
      (packing.append token).LinesExcused := by
    refine ⟨h.done, ?_⟩
    have hexcused := h.line
    rw [hline, List.reverse_cons] at hexcused
    rw [fits_token hline] at htoken
    simpa [append, hline] using hexcused.concat htoken
  cases hstep with
  | begins hline =>
    refine ⟨h.done, ?_⟩
    simpa [append, hline] using Excused.singleton token
  | joins hline hfits =>
    apply happend hline
    rw [hfits]
    exact fun hwide => by cases hwide
  | overflows hline _ hkept _ => exact happend hline fun _ => hkept
  | @carries last others hline _ _ _ hcarried =>
    have hexcused := h.line
    rw [hline, List.reverse_cons] at hexcused
    refine h.finish hexcused.of_append rfl (Excused.pair fun hwide => hcarried.resolve_left fun hsentence => ?_)
    -- a token that is moved down for the sake of its sentence fits beside the
    -- next one
    obtain ⟨_, _, _, _, _, _, _, _, hadmits⟩ := carriesSentence_eq_true.mp hsentence
    rw [hadmits] at hwide
    cases hwide
  | breaks => exact h.finish h.line rfl (Excused.singleton token)

theorem LinesExcused.flush (h : packing.LinesExcused) : packing.flush.LinesExcused := by
  unfold Packing.flush
  split
  · exact h
  · exact h.finish h.line rfl fun front _ _ _ heq => by simp [Packing.finish] at heq

theorem linesExcused_empty (shape : LineShape) : (empty shape).LinesExcused :=
  ⟨fun later _ _ heq => by simp [empty] at heq, fun front _ _ _ heq => by simp [empty] at heq⟩

theorem LinesExcused.lines (h : packing.LinesExcused) {earlier later : List (List Token)} {group : List Token}
    (hlines : packing.lines = earlier ++ group :: later) :
    Excused shape.limit.admits (shape.leadAt earlier.length) group := by
  have hdone : packing.flush.done = later.reverse ++ group :: earlier.reverse := by
    rw [Packing.lines, List.reverse_eq_iff] at hlines
    simpa using hlines
  simpa using h.flush.done _ _ _ hdone

end Packing

variable {shape : LineShape} {tokens group : List Token} {earlier later : List (List Token)}

/-! ## Both ways of packing -/

/-- Full lines are too wide only where they could not be ended. -/
theorem excused_of_pack (h : pack shape tokens = earlier ++ group :: later) :
    Excused shape.limit.admits (shape.leadAt earlier.length) group := by
  have hrun := Packing.foldl_add_induction (fun _ _ h => Packing.LinesExcused.step h (Packing.step_add ..)) tokens
    (Packing.linesExcused_empty shape)
  exact hrun.lines h

/-- Lines that end with clauses are too wide only where they could not be
ended. -/
theorem excused_of_packClauses (hwidths : ∀ token ∈ tokens, 0 ≤ token.width)
    (h : packClauses shape tokens = earlier ++ group :: later) :
    Excused shape.limit.admits (shape.leadAt earlier.length) group := by
  unfold packClauses at h
  dsimp only at h
  split at h
  · rename_i hfits
    rw [Packing.fits_eq] at hfits
    split at h
    · simp at h
    · obtain ⟨rfl, rfl, -⟩ : earlier = [] ∧ group = tokens ∧ later = [] := by
        simpa [List.singleton_eq_append_iff] using h
      refine Excused.of_admits hwidths ?_
      simpa [Packing.empty, Token.gapAfter, LineShape.leadAt] using hfits
  · have hrun := Packing.foldl_addClause_induction (fun _ _ h => Packing.LinesExcused.step h (Packing.step_add ..))
      (fun _ h => Packing.LinesExcused.flush h) (clauses tokens)
      (Packing.linesExcused_empty { shape with breakOnSentences := false })
    exact hrun.lines h

/-- In both ways of packing tokens for a number other than 0, a line grows too
wide only at a token that would be read as the start of a block, or that
follows a backslash. If there are no such tokens, every line of two or more
tokens is at most as wide as the number. -/
theorem lines_overflow_only_where_kept (leads : Leads) (mode : LengthMode) (number : Number)
    (breakOnSentences : Bool) (tokens : List Token) (hnumber : number ≠ .finite 0)
    (hwidths : ∀ token ∈ tokens, 0 ≤ token.width) :
    let shape := leads.shape mode (.ofNumber number) breakOnSentences
    ∀ groups ∈ [pack shape tokens, packClauses shape tokens],
      leads.Lays groups (leads.render groups) ∧ groups.flatten = tokens ∧
        ∀ earlier group later, groups = earlier ++ group :: later →
          Excused number.covers (shape.leadAt earlier.length) group ∧
          ((∀ token ∈ tokens, token.beginsBlock = false ∧ token.endsWithBackslash = false) → 2 ≤ group.length →
            number.covers (shape.leadAt earlier.length + Token.lineWidth group) = true) := by
  intro shape groups hgroups
  have hadmits : shape.limit.admits = number.covers := funext (Limit.admits_ofNumber hnumber)
  have hways : groups = pack shape tokens ∨ groups = packClauses shape tokens := by simpa using hgroups
  have hflatten : groups.flatten = tokens := by
    rcases hways with rfl | rfl
    · exact flatten_pack shape tokens
    · exact flatten_packClauses shape tokens
  refine ⟨leads.lays_render groups, hflatten, fun earlier group later hsplit => ?_⟩
  have hexcused : Excused number.covers (shape.leadAt earlier.length) group := by
    rw [← hadmits]
    rcases hways with rfl | rfl
    · exact excused_of_pack hsplit
    · exact excused_of_packClauses hwidths hsplit
  refine ⟨hexcused, fun hplain hlength => hexcused.admits_of_plain hlength fun token htoken => hplain token ?_⟩
  rw [← hflatten, hsplit]
  simp [htoken]

/-- The hyphen stays on the first line, and the word after the backslash on the
last one. -/
theorem lines_overflow_only_where_kept_narrow :
    let word (text : Text) : Token := ⟨text, text.length, false, false⟩
    let leads : Leads := ⟨['-', ' '], [' ', ' ']⟩
    let shape := leads.shape .chars (.ofNumber (.ofNat 6)) true
    let tokens := [word ['a', 'a', 'a'], word ['-'], word ['b', 'b'], word ['c', '\\'], word ['d', 'd']]
    let last := [word ['c', '\\'], word ['d', 'd']]
    pack shape tokens = [[word ['a', 'a', 'a'], word ['-']], [word ['b', 'b']], last] ∧
      (Number.ofNat 6).covers (shape.leadAt 2 + Token.lineWidth last) = false ∧
      Excused (Number.ofNat 6).covers (shape.leadAt 2) last := by
  intro word leads shape tokens last
  have hpack : pack shape tokens = [[word ['a', 'a', 'a'], word ['-']], [word ['b', 'b']], last] := by
    decide +kernel
  obtain ⟨-, -, hlines⟩ := lines_overflow_only_where_kept leads .chars (.ofNat 6) true tokens (by decide)
    (by decide) _ List.mem_cons_self
  exact ⟨hpack, by decide +kernel, (hlines [[word ['a', 'a', 'a'], word ['-']], [word ['b', 'b']]] last [] hpack).1⟩

end ProseWrap
