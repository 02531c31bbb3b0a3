import ProseWrap.Wrap.Style

/-!
# The tokens of the lines

Whatever way tokens are put into lines, the lines hold the tokens in their
order and each of them once: `flatten_pack` for lines as full as they may be,
`flatten_packClauses` for lines that end with clauses, `flatten_sentenceGroups`
for lines of whole sentences, and `Style.flatten_groups` for every style. A
step of each of them adds its token to what it holds (`Packing.held_add`,
`Grouping.held_add`), wherever it breaks the line. Full lines are not empty
(`ne_nil_of_mem_pack`).
-/

namespace ProseWrap

namespace Packing

variable {shape : LineShape}

/-- The tokens that a packing holds, in their order. -/
def held (packing : Packing shape) : List Token := packing.done.reverse.flatten ++ packing.line.reverse

theorem held_append (packing : Packing shape) (token : Token) :
    (packing.append token).held = packing.held ++ [token] := by
  simp [held, append]

theorem held_flush (packing : Packing shape) : packing.flush.held = packing.held := by
  unfold flush
  split
  · rfl
  · simp [held, finish]

theorem held_endLineBefore (packing : Packing shape) (token : Token) :
    (packing.endLineBefore token).held = packing.held := by
  unfold endLineBefore
  split
  · rfl
  · exact held_flush packing

/-- The last token of a line, moved down with the next one, stays between what
stands before it and that token. -/
theorem held_carry {packing : Packing shape} {last : Token} {others : List Token} (token : Token)
    (h : packing.line = last :: others) :
    (((packing.finish others.reverse).append last).append token).held = packing.held ++ [token] := by
  simp [held, finish, append, h]

theorem held_add (packing : Packing shape) (token : Token) :
    (packing.add token).held = packing.held ++ [token] := by
  unfold add
  split
  · exact held_append packing token
  · rename_i last others hline
    split
    · exact held_append packing token
    · split
      · exact held_carry token hline
      · split
        · split
          · exact held_append packing token
          · exact held_carry token hline
        · simp [held, finish, append]

theorem held_foldl_add (packing : Packing shape) (tokens : List Token) :
    (tokens.foldl add packing).held = packing.held ++ tokens := by
  induction tokens generalizing packing with
  | nil => simp
  | cons token tokens ih => rw [List.foldl_cons, ih, held_add, List.append_assoc, List.singleton_append]

theorem flatten_lines (packing : Packing shape) : packing.lines.flatten = packing.held := by
  have hline : packing.flush.line = [] := by
    unfold flush
    split
    · exact List.isEmpty_iff.mp ‹_›
    · rfl
  rw [← held_flush, held, hline, List.reverse_nil, List.append_nil, lines]

theorem held_addClause (packing : Packing shape) (clause : List Token) :
    (packing.addClause clause).held = packing.held ++ clause := by
  unfold addClause
  split
  · simp
  · dsimp only
    rw [held_foldl_add]
    split
    · rfl
    · rw [held_endLineBefore]

theorem held_foldl_addClause (packing : Packing shape) (clauses : List (List Token)) :
    (clauses.foldl addClause packing).held = packing.held ++ clauses.flatten := by
  induction clauses generalizing packing with
  | nil => simp
  | cons clause clauses ih =>
    rw [List.foldl_cons, ih, held_addClause, List.append_assoc, List.flatten_cons]

/-- What holds of a packing holds after some more tokens if every token keeps
it. -/
theorem foldl_add_induction {P : Packing shape → Prop}
    (hadd : ∀ packing token, P packing → P (packing.add token)) (tokens : List Token) {packing : Packing shape}
    (h : P packing) : P (tokens.foldl add packing) := by
  induction tokens generalizing packing with
  | nil => exact h
  | cons token tokens ih => exact ih (hadd packing token h)

/-- What holds of a packing holds after some more clauses if every token keeps
it, and the end of a line does. -/
theorem foldl_addClause_induction {P : Packing shape → Prop}
    (hadd : ∀ packing token, P packing → P (packing.add token))
    (hflush : ∀ packing, P packing → P packing.flush) (clauses : List (List Token)) {packing : Packing shape}
    (h : P packing) : P (clauses.foldl addClause packing) := by
  induction clauses generalizing packing with
  | nil => exact h
  | cons clause clauses ih =>
    apply ih
    unfold addClause
    split
    · exact h
    · refine foldl_add_induction hadd _ ?_
      split
      · exact h
      · unfold endLineBefore
        split
        · exact h
        · exact hflush packing h

end Packing

/-- Full lines hold the tokens in their order. -/
theorem flatten_pack (shape : LineShape) (tokens : List Token) : (pack shape tokens).flatten = tokens := by
  rw [pack, Packing.flatten_lines, Packing.held_foldl_add]
  rfl

/-- A step finishes no line that is empty. -/
theorem Packing.done_add_ne_nil {shape : LineShape} {packing : Packing shape} (token : Token)
    (h : ∀ group ∈ packing.done, group ≠ []) : ∀ group ∈ (packing.add token).done, group ≠ [] := by
  have hcons {first : List Token} (hfirst : first ≠ []) : ∀ group ∈ first :: packing.done, group ≠ [] :=
    List.forall_mem_cons.mpr ⟨hfirst, h⟩
  unfold add
  split
  · exact h
  · rename_i last others hline
    split
    · exact h
    · split
      · rename_i hcarry
        refine hcons fun hnil => ?_
        rw [List.reverse_eq_nil_iff.mp hnil] at hcarry
        cases hcarry
      · split
        · split
          · exact h
          · rename_i hstay
            refine hcons fun hnil => hstay ?_
            rw [List.reverse_eq_nil_iff.mp hnil]
            rfl
        · exact hcons (by simp [hline])

theorem Packing.done_foldl_add_ne_nil {shape : LineShape} {packing : Packing shape} (tokens : List Token)
    (h : ∀ group ∈ packing.done, group ≠ []) :
    ∀ group ∈ (tokens.foldl add packing).done, group ≠ [] :=
  foldl_add_induction (P := fun packing : Packing shape => ∀ group ∈ packing.done, group ≠ [])
    (fun _ token h => done_add_ne_nil token h) tokens h

/-- Full lines are not empty. -/
theorem ne_nil_of_mem_pack {shape : LineShape} {tokens group : List Token}
    (h : group ∈ pack shape tokens) : group ≠ [] := by
  have hdone : ∀ group ∈ (tokens.foldl Packing.add (.empty shape)).done, group ≠ [] :=
    Packing.done_foldl_add_ne_nil tokens (by simp [Packing.empty])
  rw [pack, Packing.lines, List.mem_reverse, Packing.flush] at h
  split at h
  · exact hdone group h
  · rename_i hline
    rcases List.mem_cons.mp h with rfl | h
    · simpa using hline
    · exact hdone group h

theorem flatten_clauses (tokens : List Token) : (clauses tokens).flatten = tokens := by
  fun_induction clauses tokens with
  | case1 => rfl
  | case2 token rest _ ih => simp [ih]
  | case3 token rest _ hnil ih =>
    rw [hnil] at ih
    simp [← ih]
  | case4 token rest _ clause others hcons ih =>
    rw [hcons] at ih
    simp [← ih]

/-- Lines that end with clauses hold the tokens in their order. -/
theorem flatten_packClauses (shape : LineShape) (tokens : List Token) :
    (packClauses shape tokens).flatten = tokens := by
  unfold packClauses
  dsimp only
  split
  · split
    · rename_i hempty
      rw [List.isEmpty_iff.mp hempty]
      rfl
    · simp
  · rw [Packing.flatten_lines, Packing.held_foldl_addClause, flatten_clauses]
    rfl

namespace Grouping

/-- The tokens that a grouping holds, in their order. -/
def held (grouping : Grouping) : List Token :=
  grouping.done.reverse.flatten ++ grouping.current.reverse

theorem held_reopen (grouping : Grouping) (token : Token) :
    (grouping.reopen token).held = grouping.held := by
  unfold reopen
  split
  · rename_i last before hcurrent hdone
    split
    · simp [held, hcurrent, hdone]
    · rfl
  · rfl

theorem held_finish (grouping : Grouping) : grouping.finish.held = grouping.held := by
  unfold finish
  split
  · rfl
  · simp [held]

theorem held_add (grouping : Grouping) (token : Token) :
    (grouping.add token).held = grouping.held ++ [token] := by
  have hnext : ({ grouping.reopen token with current := token :: (grouping.reopen token).current } :
      Grouping).held = grouping.held ++ [token] := by
    rw [← held_reopen grouping token]
    simp [held]
  unfold add
  dsimp only
  split
  · rw [held_finish, hnext]
  · exact hnext

theorem held_foldl_add (grouping : Grouping) (tokens : List Token) :
    (tokens.foldl add grouping).held = grouping.held ++ tokens := by
  induction tokens generalizing grouping with
  | nil => simp
  | cons token tokens ih => rw [List.foldl_cons, ih, held_add, List.append_assoc, List.singleton_append]

theorem finish_current (grouping : Grouping) : grouping.finish.current = [] := by
  unfold finish
  split
  · exact List.isEmpty_iff.mp ‹_›
  · rfl

end Grouping

/-- Lines of whole sentences hold the tokens in their order. -/
theorem flatten_sentenceGroups (tokens : List Token) : (sentenceGroups tokens).flatten = tokens := by
  have h := Grouping.held_finish (tokens.foldl Grouping.add .empty)
  rw [Grouping.held_foldl_add, Grouping.held, Grouping.finish_current, List.reverse_nil,
    List.append_nil] at h
  exact h

theorem flatten_packSentences (leads : Leads) (mode : LengthMode) (limit : Limit)
    (sentences : List (List Token)) :
    (packSentences leads mode limit sentences).flatten = sentences.flatten := by
  cases sentences with
  | nil => rfl
  | cons sentence rest =>
    have hrest : ∀ shape : LineShape, (rest.flatMap (packClauses shape)).flatten = rest.flatten := by
      intro shape
      induction rest with
      | nil => rfl
      | cons other rest ih =>
        rw [List.flatMap_cons, List.flatten_append, flatten_packClauses, ih, List.flatten_cons]
    rw [packSentences, List.flatten_append, flatten_packClauses, hrest, List.flatten_cons]

namespace Style

/-- What a style does about sentences when it cuts a text into tokens. -/
def handling (style : Style) : SentenceHandling :=
  match style.sentenceLines with
  | .runOn => if style.breakOnSentences then .marked else .ignored
  | _ => .split

/-- In every style the lines of a text hold its tokens in their order. -/
theorem flatten_groups (style : Style) (leads : Leads) (text : Text) :
    (style.groups leads text).flatten = style.tokens style.handling text := by
  unfold groups handling
  split <;> rename_i hlines <;> simp only [hlines]
  · exact flatten_sentenceGroups _
  · rw [flatten_packSentences, flatten_sentenceGroups]
  · exact flatten_pack _ _

end Style

end ProseWrap
