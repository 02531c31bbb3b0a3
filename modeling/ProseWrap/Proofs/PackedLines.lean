import ProseWrap.Proofs.Groups
import ProseWrap.Wrap.Document

/-!
# The lines that packing makes

Packing cuts tokens into groups, one for each line and none of them empty
(`packed_lines_partition_tokens`), and every line after the first begins with a
token that is not read as the start of a block
(`further_lines_begin_with_prose`).

What a token does to a packing is said once (`Packing.Step`): it begins the
line, joins it, overflows it, or begins the next line, with or without the
token before it. What holds of the beginnings of lines follows by induction
over the tokens (`Packing.Led`), and in the same way for sentences
(`Grouping.Led`).
-/

namespace ProseWrap

/-- Whether the first token of a group may begin a line of prose. -/
def BeginsProse (group : List Token) : Prop := ∃ token, group.head? = some token ∧ token.beginsBlock = false

theorem BeginsProse.ne_nil {group : List Token} (h : BeginsProse group) : group ≠ [] := by
  obtain ⟨token, hhead, -⟩ := h
  rintro rfl
  cases hhead

theorem BeginsProse.append {group : List Token} (h : BeginsProse group) (tokens : List Token) :
    BeginsProse (group ++ tokens) := by
  obtain ⟨token, hhead, htoken⟩ := h
  exact ⟨token, by rw [List.head?_append, hhead]; rfl, htoken⟩

/-- A group that begins as another one does, of which it is the front, begins
with prose if that one does. -/
theorem BeginsProse.of_append {group rest : List Token} (hne : group ≠ [])
    (h : BeginsProse (group ++ rest)) : BeginsProse group := by
  obtain ⟨token, hhead, htoken⟩ := h
  obtain ⟨first, others, rfl⟩ := List.exists_cons_of_ne_nil hne
  exact ⟨token, by simpa using hhead, htoken⟩

/-- Lines are finished in front of the earlier ones, and the first of all comes
last: what has to hold of all but that one is asked of a new line if there are
any before it. -/
theorem forall_mem_dropLast_cons {P : List Token → Prop} {group : List Token} {done : List (List Token)}
    (hgroup : done ≠ [] → P group) (hdone : ∀ other ∈ done.dropLast, P other) :
    ∀ other ∈ (group :: done).dropLast, P other := by
  cases done with
  | nil => simp
  | cons last before =>
    rw [List.dropLast_cons_cons]
    exact List.forall_mem_cons.mpr ⟨hgroup (List.cons_ne_nil _ _), hdone⟩

/-! ## Packing -/

namespace Packing

variable {shape : LineShape}

/-- What adding a token to a packing does. -/
inductive Step (packing : Packing shape) (token : Token) : Packing shape → Prop
  /-- The line has no tokens yet. -/
  | begins (hline : packing.line = []) : Step packing token (packing.append token)
  /-- The token fits on the line. -/
  | joins {last : Token} {others : List Token} (hline : packing.line = last :: others)
      (hfits : packing.fits token.width = true) : Step packing token (packing.append token)
  /-- The token does not fit, but the line can end neither before it nor before
  the last token. -/
  | overflows {last : Token} {others : List Token} (hline : packing.line = last :: others)
      (hfits : packing.fits token.width = false)
      (hkept : token.beginsBlock = true ∨ last.endsWithBackslash = true)
      (hstays : others = [] ∨ last.beginsBlock = true) : Step packing token (packing.append token)
  /-- The token does not fit, and takes the last token of the line along. -/
  | carries {last : Token} {others : List Token} (hline : packing.line = last :: others)
      (hfits : packing.fits token.width = false) (hothers : others ≠ [])
      (hlast : last.beginsBlock = false)
      (hcarried : carriesSentence shape last others token = true ∨ token.beginsBlock = true ∨
        last.endsWithBackslash = true) :
      Step packing token (((packing.finish others.reverse).append last).append token)
  /-- The token does not fit, and begins the next line. -/
  | breaks {last : Token} {others : List Token} (hline : packing.line = last :: others)
      (hfits : packing.fits token.width = false) (htoken : token.beginsBlock = false)
      (hlast : last.endsWithBackslash = false) :
      Step packing token ((packing.finish packing.line.reverse).append token)

/-- When the last token of a line is moved down because it begins a
sentence. -/
theorem carriesSentence_eq_true {last next : Token} {others : List Token} :
    carriesSentence shape last others next = true ↔
      ∃ previous before more, others = previous :: before :: more ∧ shape.breakOnSentences = true ∧
        previous.sentenceEnd = true ∧ last.sentenceEnd = false ∧ last.beginsBlock = false ∧
        shape.limit.admits (shape.furtherLead + last.width + 1 + next.width) = true := by
  unfold carriesSentence
  split
  · simp [and_assoc]
  · rename_i hshort
    refine iff_of_false Bool.false_ne_true ?_
    rintro ⟨previous, before, more, heq, -⟩
    exact hshort previous before more heq

theorem of_carriesSentence {last next : Token} {others : List Token}
    (h : carriesSentence shape last others next = true) : others ≠ [] ∧ last.beginsBlock = false := by
  obtain ⟨previous, before, more, rfl, -, -, -, hlast, -⟩ := carriesSentence_eq_true.mp h
  exact ⟨List.cons_ne_nil _ _, hlast⟩

/-- Adding a token is one of the five steps. -/
theorem step_add (packing : Packing shape) (token : Token) :
    Step packing token (packing.add token) := by
  unfold add
  split
  · rename_i hline
    exact .begins hline
  · rename_i last others hline
    split
    · rename_i hfits
      exact .joins hline hfits
    · rename_i hfits
      have hfits : packing.fits token.width = false := by simpa using hfits
      split
      · rename_i hcarries
        obtain ⟨hothers, hlast⟩ := of_carriesSentence hcarries
        exact .carries hline hfits hothers hlast (.inl hcarries)
      · split
        · rename_i hkept
          have hkept : token.beginsBlock = true ∨ last.endsWithBackslash = true := by simpa using hkept
          split
          · rename_i hstays
            exact .overflows hline hfits hkept (by simpa using hstays)
          · rename_i hgoes
            have hgoes : others ≠ [] ∧ last.beginsBlock = false := by simpa using hgoes
            exact .carries hline hfits hgoes.1 hgoes.2 (.inr hkept)
        · rename_i hfree
          have hfree : token.beginsBlock = false ∧ last.endsWithBackslash = false := by simpa using hfree
          exact .breaks hline hfits hfree.1 hfree.2

/-- The lines of a packing after the first begin with prose, and so does the
current one if it is not the first. -/
structure Led (packing : Packing shape) : Prop where
  done : ∀ group ∈ packing.done.dropLast, BeginsProse group
  line : packing.done ≠ [] → packing.line ≠ [] → BeginsProse packing.line.reverse

/-- The current line has tokens, or no line is finished yet. -/
def Begun (packing : Packing shape) : Prop := packing.line = [] → packing.done = []

theorem led_empty (shape : LineShape) : (empty shape).Led := ⟨by simp [empty], by simp [empty]⟩

theorem begun_empty (shape : LineShape) : (empty shape).Begun := fun _ => rfl

variable {packing next : Packing shape} {token : Token}

theorem Step.line_ne_nil (hstep : Step packing token next) : next.line ≠ [] := by
  cases hstep <;> exact List.cons_ne_nil _ _

theorem line_foldl_add_ne_nil (packing : Packing shape) {tokens : List Token} (h : tokens ≠ []) :
    (tokens.foldl add packing).line ≠ [] := by
  obtain ⟨first, rest, rfl⟩ := List.exists_cons_of_ne_nil h
  exact foldl_add_induction (P := fun packing : Packing shape => packing.line ≠ [])
    (fun packing token _ => (step_add packing token).line_ne_nil) rest (step_add packing first).line_ne_nil

theorem lines_eq (h : packing.line ≠ []) : packing.lines = packing.done.reverse ++ [packing.line.reverse] := by
  rw [lines, flush, if_neg (by simpa using h), finish, List.reverse_cons]

/-- A step keeps the beginnings of lines if its token may begin the current
line where it has to. -/
theorem Led.step (h : packing.Led) (hstep : Step packing token next)
    (htoken : packing.line = [] → packing.done ≠ [] → token.beginsBlock = false) : next.Led := by
  have happend : packing.line ≠ [] → (packing.append token).Led := by
    intro hline
    refine ⟨h.done, fun hdone _ => ?_⟩
    rw [append, List.reverse_cons]
    exact (h.line hdone hline).append _
  cases hstep with
  | begins hline =>
    refine ⟨h.done, fun hdone _ => ⟨token, ?_, htoken hline hdone⟩⟩
    simp [append, hline]
  | joins hline _ => exact happend (by simp [hline])
  | overflows hline _ _ _ => exact happend (by simp [hline])
  | @carries last others hline _ hothers hlast _ =>
    refine ⟨forall_mem_dropLast_cons (fun hdone => ?_) h.done, fun _ _ => ⟨last, rfl, hlast⟩⟩
    have hbegins := h.line hdone (by simp [hline])
    rw [hline, List.reverse_cons] at hbegins
    exact hbegins.of_append (by simpa using hothers)
  | breaks hline _ hfree _ =>
    refine ⟨forall_mem_dropLast_cons (fun hdone => ?_) h.done, fun _ _ => ⟨token, rfl, hfree⟩⟩
    exact h.line hdone (by simp [hline])

/-- Adding tokens keeps the beginnings of lines if the first of them may begin
the current line where it has to. -/
theorem Led.foldl_add (h : packing.Led) (first : Token) (rest : List Token)
    (hfirst : packing.line = [] → packing.done ≠ [] → first.beginsBlock = false) :
    ((first :: rest).foldl add packing).Led ∧
      ((first :: rest).foldl add packing).line ≠ [] := by
  induction rest generalizing packing first with
  | nil => exact ⟨h.step (step_add ..) hfirst, (step_add ..).line_ne_nil⟩
  | cons second rest ih =>
    have hstep := step_add packing first
    rw [List.foldl_cons]
    exact ih (h.step hstep hfirst) second fun hline => absurd hline hstep.line_ne_nil

theorem Led.flush (h : packing.Led) : packing.flush.Led := by
  unfold Packing.flush
  split
  · exact h
  · rename_i hline
    refine ⟨forall_mem_dropLast_cons (fun hdone => h.line hdone (by simpa using hline)) h.done, fun _ hnil => ?_⟩
    exact absurd rfl hnil

theorem Led.lines (h : packing.Led) : ∀ group ∈ packing.lines.tail, BeginsProse group := by
  intro group hgroup
  rw [Packing.lines, List.tail_reverse, List.mem_reverse] at hgroup
  exact h.flush.done group hgroup

/-- A clause keeps the beginnings of lines: the line is not ended before a
token that would be read as the start of a block. -/
theorem Led.addClause (h : packing.Led) (hbegun : packing.Begun) (clause : List Token) :
    (packing.addClause clause).Led ∧ (packing.addClause clause).Begun := by
  unfold Packing.addClause
  cases clause with
  | nil => exact ⟨h, hbegun⟩
  | cons first rest =>
    dsimp only
    generalize hstart : (if packing.fits _ then packing else packing.endLineBefore first) = start
    have hled : start.Led ∧ (start.line = [] → start.done ≠ [] → first.beginsBlock = false) := by
      subst hstart
      split
      · exact ⟨h, fun hline hdone => absurd (hbegun hline) hdone⟩
      · unfold endLineBefore
        split
        · exact ⟨h, fun hline hdone => absurd (hbegun hline) hdone⟩
        · rename_i hfirst
          exact ⟨h.flush, fun _ _ => by simpa using hfirst⟩
    obtain ⟨hnext, hline⟩ := hled.1.foldl_add first rest hled.2
    exact ⟨hnext, fun hnil => absurd hnil hline⟩

theorem Led.foldl_addClause (h : packing.Led) (hbegun : packing.Begun) (clauses : List (List Token)) :
    (clauses.foldl Packing.addClause packing).Led := by
  induction clauses generalizing packing with
  | nil => exact h
  | cons clause clauses ih =>
    obtain ⟨hled, hnext⟩ := h.addClause hbegun clause
    exact ih hled hnext

theorem ne_nil_of_mem_flush_done (h : ∀ group ∈ packing.done, group ≠ []) :
    ∀ group ∈ packing.flush.done, group ≠ [] := by
  unfold Packing.flush
  split
  · exact h
  · rename_i hline
    exact List.forall_mem_cons.mpr ⟨by simpa using hline, h⟩

theorem done_foldl_addClause_ne_nil (clauses : List (List Token)) (h : ∀ group ∈ packing.done, group ≠ []) :
    ∀ group ∈ (clauses.foldl Packing.addClause packing).done, group ≠ [] :=
  foldl_addClause_induction (P := fun packing : Packing shape => ∀ group ∈ packing.done, group ≠ [])
    (fun _ token h => done_add_ne_nil token h) (fun _ h => ne_nil_of_mem_flush_done h) clauses h

end Packing

/-- Full lines after the first begin with prose. -/
theorem beginsProse_of_mem_tail_pack {shape : LineShape} {tokens group : List Token}
    (h : group ∈ (pack shape tokens).tail) : BeginsProse group := by
  cases tokens with
  | nil => cases h
  | cons first rest =>
    have hled := (Packing.led_empty shape).foldl_add first rest fun _ hdone => absurd rfl hdone
    exact hled.1.lines group h

/-- Lines that end with clauses begin with prose after the first. -/
theorem beginsProse_of_mem_tail_packClauses {shape : LineShape} {tokens group : List Token}
    (h : group ∈ (packClauses shape tokens).tail) : BeginsProse group := by
  unfold packClauses at h
  dsimp only at h
  split at h
  · split at h <;> cases h
  · exact ((Packing.led_empty _).foldl_addClause (Packing.begun_empty _) _).lines group h

/-- Lines that end with clauses are not empty. -/
theorem ne_nil_of_mem_packClauses {shape : LineShape} {tokens group : List Token}
    (h : group ∈ packClauses shape tokens) : group ≠ [] := by
  unfold packClauses at h
  dsimp only at h
  split at h
  · split at h
    · cases h
    · rename_i htokens
      rw [List.mem_singleton.mp h]
      simpa using htokens
  · rw [Packing.lines, List.mem_reverse] at h
    refine Packing.ne_nil_of_mem_flush_done (Packing.done_foldl_addClause_ne_nil _ ?_) group h
    simp [Packing.empty]

/-! ## Sentences -/

namespace Grouping

/-- The sentences of a grouping after the first begin with prose, and so does
the current one if it is not the first. -/
structure Led (grouping : Grouping) : Prop where
  done : ∀ group ∈ grouping.done.dropLast, BeginsProse group
  current : grouping.done ≠ [] → grouping.current ≠ [] → BeginsProse grouping.current.reverse

theorem led_empty : empty.Led := ⟨by simp [empty], by simp [empty]⟩

variable {grouping : Grouping}

theorem Led.finish (h : grouping.Led) : grouping.finish.Led := by
  unfold Grouping.finish
  split
  · exact h
  · rename_i hcurrent
    exact ⟨forall_mem_dropLast_cons (fun hdone => h.current hdone (by simpa using hcurrent)) h.done, by simp⟩

/-- Taken up again or not, the current sentence may go on with the token, and
begins with it only if the token may begin a line or no sentence comes
before. -/
theorem Led.reopen (h : grouping.Led) (token : Token) : (grouping.reopen token).Led ∧
    ((grouping.reopen token).current = [] → (grouping.reopen token).done ≠ [] →
      token.beginsBlock = false) := by
  unfold Grouping.reopen
  split
  · rename_i last before hcurrent hdone
    have hdropLast := h.done
    rw [hdone] at hdropLast
    split
    · cases before with
      | nil => exact ⟨⟨by simp, by simp⟩, by simp⟩
      | cons other others =>
        -- the sentence taken up is not the first, so it begins with prose
        rw [List.dropLast_cons_cons] at hdropLast
        obtain ⟨hlast, hothers⟩ := List.forall_mem_cons.mp hdropLast
        refine ⟨⟨hothers, fun _ _ => by simpa using hlast⟩, fun hnil _ => ?_⟩
        exact absurd (by simpa using hnil) hlast.ne_nil
    · rename_i htoken
      exact ⟨h, fun _ _ => by simpa using htoken⟩
  · rename_i hno
    refine ⟨h, fun hcurrent hdone => ?_⟩
    obtain ⟨last, before, hcons⟩ := List.exists_cons_of_ne_nil hdone
    exact absurd hcons (hno last before hcurrent)

theorem Led.add (h : grouping.Led) (token : Token) : (grouping.add token).Led := by
  obtain ⟨hled, htoken⟩ := h.reopen token
  have hnext : ({ grouping.reopen token with current := token :: (grouping.reopen token).current } :
      Grouping).Led := by
    refine ⟨hled.done, fun hdone _ => ?_⟩
    by_cases hcurrent : (grouping.reopen token).current = []
    · exact ⟨token, by simp [hcurrent], htoken hcurrent hdone⟩
    · rw [List.reverse_cons]
      exact (hled.current hdone hcurrent).append _
  unfold Grouping.add
  dsimp only
  split
  · exact hnext.finish
  · exact hnext

theorem Led.foldl_add (h : grouping.Led) (tokens : List Token) : (tokens.foldl Grouping.add grouping).Led := by
  induction tokens generalizing grouping with
  | nil => exact h
  | cons token tokens ih => exact ih (h.add token)

end Grouping

/-- Sentences after the first begin with prose. -/
theorem beginsProse_of_mem_tail_sentenceGroups {tokens group : List Token}
    (h : group ∈ (sentenceGroups tokens).tail) : BeginsProse group := by
  rw [sentenceGroups, List.tail_reverse, List.mem_reverse] at h
  exact (Grouping.led_empty.foldl_add tokens).finish.done group h

/-- In sentences that begin with prose, lines that end with clauses all begin
with prose. -/
theorem beginsProse_of_mem_packClauses {shape : LineShape} {sentence group : List Token}
    (hsentence : BeginsProse sentence) (h : group ∈ packClauses shape sentence) : BeginsProse group := by
  have hflatten := flatten_packClauses shape sentence
  cases hlines : packClauses shape sentence with
  | nil =>
    rw [hlines] at h
    cases h
  | cons first rest =>
    rw [hlines] at h hflatten
    rcases List.mem_cons.mp h with rfl | h
    · rw [← hflatten, List.flatten_cons] at hsentence
      exact hsentence.of_append (ne_nil_of_mem_packClauses (hlines ▸ List.mem_cons_self))
    · exact beginsProse_of_mem_tail_packClauses (by rw [hlines]; exact h)

/-- Sentences that are broken after their clauses make lines that begin with
prose after the first. -/
theorem beginsProse_of_mem_tail_packSentences {leads : Leads} {mode : LengthMode} {limit : Limit}
    {sentences : List (List Token)} (hsentences : ∀ sentence ∈ sentences.tail, BeginsProse sentence)
    {group : List Token} (h : group ∈ (packSentences leads mode limit sentences).tail) : BeginsProse group := by
  cases sentences with
  | nil => cases h
  | cons first rest =>
    rw [packSentences] at h
    have hrest : ∀ shape, ∀ group ∈ rest.flatMap (packClauses shape), BeginsProse group := by
      intro shape group hgroup
      obtain ⟨sentence, hs, hgroup⟩ := List.mem_flatMap.mp hgroup
      exact beginsProse_of_mem_packClauses (hsentences sentence hs) hgroup
    cases hlines : packClauses (leads.shape mode limit false) first with
    | nil =>
      rw [hlines, List.nil_append] at h
      exact hrest _ group (List.mem_of_mem_tail h)
    | cons line lines =>
      rw [hlines, List.cons_append, List.tail_cons] at h
      rcases List.mem_append.mp h with h | h
      · exact beginsProse_of_mem_tail_packClauses (by rw [hlines]; exact h)
      · exact hrest _ group h

/-- In every style the lines of a text after the first begin with prose. -/
theorem Style.beginsProse_of_mem_tail_groups {style : Style} {leads : Leads} {text : Text} {group : List Token}
    (h : group ∈ (style.groups leads text).tail) : BeginsProse group := by
  unfold groups at h
  split at h
  · exact beginsProse_of_mem_tail_sentenceGroups h
  · exact beginsProse_of_mem_tail_packSentences (fun _ hs => beginsProse_of_mem_tail_sentenceGroups hs) h
  · exact beginsProse_of_mem_tail_pack h

/-! ## Lines -/

namespace Leads

/-- The lines are those of groups of tokens: each is its lead, which the first
line has to itself, and the texts of its group with a space between each
two. -/
structure Lays (leads : Leads) (groups : List (List Token)) (lines : List Text) : Prop where
  length_eq : lines.length = groups.length
  getElem?_eq : ∀ k group, groups[k]? = some group →
    lines[k]? = some ((if k = 0 then leads.first else leads.further) ++ List.intercalate [' '] (group.map Token.text))

theorem lays_render (leads : Leads) (groups : List (List Token)) : leads.Lays groups (leads.render groups) := by
  cases groups with
  | nil => exact ⟨rfl, by simp⟩
  | cons first rest =>
    refine ⟨by simp [render], fun k group hk => ?_⟩
    cases k with
    | zero =>
      obtain rfl : first = group := by simpa using hk
      rfl
    | succ k =>
      rw [List.getElem?_cons_succ] at hk
      simp [render, hk, Token.joinTexts]

/-- Every line but the first is its lead and the texts of successive tokens,
the first of which is not read as the start of a block. -/
def ProseFollows (leads : Leads) (tokens : List Token) (lines : List Text) : Prop :=
  ∀ line ∈ lines.tail, ∃ token rest, token :: rest <:+: tokens ∧
    line = leads.further ++ List.intercalate [' '] ((token :: rest).map Token.text) ∧
    Line.beginsBlock token.text = false

theorem proseFollows_render (leads : Leads) {groups : List (List Token)} {tokens : List Token}
    (hflatten : groups.flatten = tokens) (hgroups : ∀ group ∈ groups.tail, BeginsProse group) :
    leads.ProseFollows tokens (leads.render groups) := by
  intro line hline
  cases groups with
  | nil => cases hline
  | cons first rest =>
    rw [render, List.tail_cons] at hline
    obtain ⟨group, hgroup, rfl⟩ := List.mem_map.mp hline
    obtain ⟨token, hhead, htoken⟩ := hgroups group hgroup
    obtain ⟨others, rfl⟩ := List.head?_eq_some_iff.mp hhead
    refine ⟨token, others, ?_, rfl, htoken⟩
    rw [← hflatten]
    exact List.infix_of_mem_flatten (List.mem_cons_of_mem _ hgroup)

end Leads

/-- Both ways of packing cut the tokens into groups that are not empty, one for
each line and in their order, whatever the limit and the leads are; without
tokens there are no lines. -/
theorem packed_lines_partition_tokens (leads : Leads) (mode : LengthMode) (limit : Limit)
    (breakOnSentences : Bool) (tokens : List Token) :
    let shape := leads.shape mode limit breakOnSentences
    (∃ groups : List (List Token), groups.flatten = tokens ∧ (∀ group ∈ groups, group ≠ []) ∧
        leads.Lays groups (leads.render (pack shape tokens))) ∧
      (∃ groups : List (List Token), groups.flatten = tokens ∧ (∀ group ∈ groups, group ≠ []) ∧
        leads.Lays groups (leads.render (packClauses shape tokens))) ∧
      leads.render (pack shape []) = [] ∧ leads.render (packClauses shape []) = [] := by
  intro shape
  refine ⟨⟨pack shape tokens, flatten_pack shape tokens, fun _ => ne_nil_of_mem_pack, leads.lays_render _⟩,
    ⟨packClauses shape tokens, flatten_packClauses shape tokens, fun _ => ne_nil_of_mem_packClauses,
      leads.lays_render _⟩, rfl, ?_⟩
  have hnone : packClauses shape [] = [] := by
    rw [List.eq_nil_iff_forall_not_mem]
    intro group hgroup
    have hempty := List.flatten_eq_nil_iff.mp (flatten_packClauses shape []) group hgroup
    exact ne_nil_of_mem_packClauses hgroup hempty
  rw [hnone]
  rfl

/-- No line but the first begins with what is read as the start of a block: not
when tokens are packed in one of the two ways, and not when a text is laid out
in any style. -/
theorem further_lines_begin_with_prose :
    (∀ (leads : Leads) (mode : LengthMode) (limit : Limit) (breakOnSentences : Bool) (tokens : List Token),
      let shape := leads.shape mode limit breakOnSentences
      leads.ProseFollows tokens (leads.render (pack shape tokens)) ∧
        leads.ProseFollows tokens (leads.render (packClauses shape tokens))) ∧
      ∀ (style : Style) (text : Text),
        Leads.ProseFollows ⟨[], []⟩ (style.tokens style.handling (Text.trim text)) (wrapLine style text) := by
  refine ⟨fun leads mode limit breakOnSentences tokens => ⟨?_, ?_⟩, fun style text => ?_⟩
  · exact leads.proseFollows_render (flatten_pack _ _) fun _ => beginsProse_of_mem_tail_pack
  · exact leads.proseFollows_render (flatten_packClauses _ _) fun _ => beginsProse_of_mem_tail_packClauses
  · unfold wrapLine
    split
    · simp [Leads.ProseFollows]
    · split
      · simp [Leads.ProseFollows]
      · exact Leads.proseFollows_render _ (style.flatten_groups _ _) fun _ => Style.beginsProse_of_mem_tail_groups

end ProseWrap
