import Mathlib.Data.List.SplitBy
import ProseWrap.Proofs.Content

/-!
# Lines of whole sentences

Where sentences have lines of their own, a line ends after a token just if a
sentence ends there and the next token may begin a line. `sentenceGroups` finds
this out late: it ends a line with every sentence, and takes the line up again
when the next token turns out to be the start of a block, even several times in
a row. What it has come to after each token is said by `Grouping.groups_add`,
and from this by induction that the lines are the tokens cut between every two
that do not stay together (`sentenceGroups_eq_splitBy`).
-/

namespace ProseWrap

/-! ## Cuts between neighbours -/

section

variable {α : Type} {stays : α → α → Bool} {members group : List α} {earlier : List (List α)} {last next : α}

/-- A member that stays with the last one joins the last group. -/
theorem splitBy_concat_of_stays (h : members.splitBy stays = earlier ++ [group]) (hlast : group.getLast? = some last)
    (hstays : stays last next = true) : (members ++ [next]).splitBy stays = earlier ++ [group ++ [next]] := by
  obtain ⟨rfl, hnil, hwithin, hbetween⟩ := List.splitBy_eq_iff.mp h
  have hne : group ≠ [] := by
    rintro rfl
    cases hlast
  refine List.splitBy_eq_iff.mpr ⟨by simp, by simpa using fun hmem => hnil (by simp [hmem]), ?_, ?_⟩
  · intro other hother
    rcases List.mem_append.mp hother with hother | hother
    · exact hwithin other (List.mem_append_left _ hother)
    · rw [List.mem_singleton.mp hother, List.isChain_append]
      refine ⟨hwithin group (by simp), List.isChain_singleton _, fun x hx y hy => ?_⟩
      rw [hlast, Option.mem_some_iff] at hx
      obtain rfl : next = y := by simpa using hy
      exact hx ▸ hstays
  · obtain ⟨hearlier, -, hmeet⟩ := List.isChain_append.mp hbetween
    refine List.isChain_append.mpr ⟨hearlier, List.isChain_singleton _, fun before hbefore after hafter => ?_⟩
    obtain ⟨hb, hg, hcut⟩ := hmeet before hbefore group rfl
    obtain rfl : group ++ [next] = after := by simpa using hafter
    exact ⟨hb, by simp, by rwa [List.head_append_of_ne_nil hg]⟩

/-- A member that does not stay with the last one is a group by itself. -/
theorem splitBy_concat_of_parts (hlast : members.getLast? = some last) (hparts : stays last next = false) :
    (members ++ [next]).splitBy stays = members.splitBy stays ++ [[next]] := by
  rw [List.splitBy_append_cons [] fun x hx => ?_]
  · rfl
  · rw [hlast, Option.mem_some_iff] at hx
    exact hx ▸ hparts

/-- Groups end between two neighbours just if these do not stay together. -/
theorem splitBy_cut_iff (front back : List α) (last next : α) :
    (∃ earlier later, (front ++ last :: next :: back).splitBy stays = earlier ++ later ∧
        earlier.flatten = front ++ [last]) ↔ stays last next = false := by
  have hsplit : front ++ last :: next :: back = (front ++ [last]) ++ next :: back := by simp
  rw [hsplit]
  constructor
  · rintro ⟨earlier, later, heq, hflatten⟩
    obtain ⟨hall, hnil, -, hbetween⟩ := List.splitBy_eq_iff.mp heq
    have hlater : later.flatten = next :: back := by
      rw [List.flatten_append, hflatten] at hall
      exact (List.append_cancel_left hall).symm
    rcases List.eq_nil_or_concat earlier with rfl | ⟨before, group, rfl⟩
    · simp at hflatten
    · cases later with
      | nil => cases hlater
      | cons after others =>
        have hgroup : group ≠ [] := fun h => hnil (by simp [h])
        have hafter : after ≠ [] := fun h => hnil (by simp [h])
        obtain ⟨-, -, hmeet⟩ := List.isChain_append.mp hbetween
        obtain ⟨_, _, hcut⟩ := hmeet group (by simp) after rfl
        have hend : group.getLast hgroup = last := by
          have := congrArg List.getLast? hflatten
          rw [List.concat_eq_append, List.flatten_append, List.flatten_singleton,
            List.getLast?_append_of_ne_nil _ hgroup, List.getLast?_concat,
            List.getLast?_eq_some_getLast hgroup] at this
          exact Option.some.inj this
        have hbegin : after.head hafter = next := by
          have := congrArg List.head? hlater
          rw [List.flatten_cons, List.head?_append_of_ne_nil _ hafter, List.head?_cons,
            List.head?_eq_some_head hafter] at this
          exact Option.some.inj this
        rw [← hend, ← hbegin]
        exact hcut
  · intro hparts
    refine ⟨(front ++ [last]).splitBy stays, (next :: back).splitBy stays, ?_, List.flatten_splitBy _ _⟩
    refine List.splitBy_append_cons back fun x hx => ?_
    rw [List.getLast?_concat, Option.mem_some_iff] at hx
    exact hx ▸ hparts

end

/-! ## Sentences -/

/-- Whether a token stays on the line of the token before it: no sentence ends
between them, or the token would be read as the start of a block. -/
def Token.stays (token next : Token) : Bool := !token.sentenceEnd || next.beginsBlock

namespace Grouping

variable {grouping : Grouping}

/-- The sentences so far, in their order, the current one included. -/
def groups (grouping : Grouping) : List (List Token) := grouping.finish.done.reverse

/-- A sentence is finished where a token ends it, and nowhere else. -/
structure Closed (grouping : Grouping) : Prop where
  done : ∀ group ∈ grouping.done, ∃ last, group.getLast? = some last ∧ last.sentenceEnd = true
  current : ∀ token ∈ grouping.current.head?, token.sentenceEnd = false

theorem closed_empty : empty.Closed := ⟨by simp [empty], by simp [empty]⟩

theorem groups_of_current {token : Token} {others : List Token} (h : grouping.current = token :: others) :
    grouping.groups = grouping.done.reverse ++ [(token :: others).reverse] := by
  simp [groups, finish, h]

theorem groups_of_nil (h : grouping.current = []) : grouping.groups = grouping.done.reverse := by
  simp [groups, finish, h]

/-- Whether a token ends its sentence or not, it is the last one of the last
sentence. -/
theorem groups_push (token : Token) :
    (if token.sentenceEnd then finish { grouping with current := token :: grouping.current }
      else { grouping with current := token :: grouping.current } : Grouping).groups =
      grouping.done.reverse ++ [grouping.current.reverse ++ [token]] := by
  split <;> simp [groups, finish]

theorem Closed.push (grouping : Grouping) (token : Token)
    (h : ∀ group ∈ grouping.done, ∃ last, group.getLast? = some last ∧ last.sentenceEnd = true) :
    Closed (if token.sentenceEnd then finish { grouping with current := token :: grouping.current }
      else { grouping with current := token :: grouping.current }) := by
  split
  · rename_i hend
    refine ⟨?_, by simp [finish]⟩
    rw [finish, if_neg (by simp)]
    exact List.forall_mem_cons.mpr ⟨⟨token, by simp, hend⟩, h⟩
  · rename_i hend
    exact ⟨h, by simpa using hend⟩

theorem Closed.add (h : grouping.Closed) (token : Token) : (grouping.add token).Closed := by
  refine Closed.push (grouping.reopen token) token fun group hgroup => h.done group ?_
  unfold reopen at hgroup
  split at hgroup
  · rename_i last before hcurrent hdone
    split at hgroup
    · rw [hdone]
      exact List.mem_cons_of_mem _ hgroup
    · exact hgroup
  · exact hgroup

/-- The next token goes on with the last sentence if it stays with the last
token, and begins a sentence otherwise. -/
theorem groups_add (h : grouping.Closed) (token : Token) :
    grouping.groups = [] ∧ (grouping.add token).groups = [[token]] ∨
      ∃ earlier group last, grouping.groups = earlier ++ [group] ∧ group.getLast? = some last ∧
        (grouping.add token).groups =
          if last.stays token then earlier ++ [group ++ [token]] else earlier ++ [group] ++ [[token]] := by
  have hadd : (grouping.add token).groups = (grouping.reopen token).done.reverse ++
      [(grouping.reopen token).current.reverse ++ [token]] := groups_push token
  rw [hadd]
  cases hcurrent : grouping.current with
  | cons last others =>
    -- the current sentence goes on
    have hsame : grouping.reopen token = grouping := by simp [reopen, hcurrent]
    have hopen : last.sentenceEnd = false := h.current last (by simp [hcurrent])
    refine .inr ⟨_, _, last, groups_of_current hcurrent, by simp, ?_⟩
    rw [hsame, hcurrent, if_pos (by simp [Token.stays, hopen])]
  | nil =>
    cases hdone : grouping.done with
    | nil => exact .inl ⟨by simp [groups_of_nil hcurrent, hdone], by simp [reopen, hcurrent, hdone]⟩
    | cons group before =>
      obtain ⟨last, hlast, hend⟩ := h.done group (by simp [hdone])
      refine .inr ⟨before.reverse, group, last, by simp [groups_of_nil hcurrent, hdone], hlast, ?_⟩
      cases hblock : token.beginsBlock <;> simp [reopen, hcurrent, hdone, Token.stays, hend, hblock]

/-- After any tokens, the sentences are these tokens cut between those that do
not stay together. -/
theorem groups_foldl_add (tokens : List Token) :
    (tokens.foldl add empty).Closed ∧ (tokens.foldl add empty).groups = tokens.splitBy Token.stays := by
  induction tokens using List.reverseRecOn with
  | nil => exact ⟨closed_empty, rfl⟩
  | append_singleton tokens token ih =>
    obtain ⟨hclosed, hgroups⟩ := ih
    rw [List.foldl_append, List.foldl_cons, List.foldl_nil]
    refine ⟨hclosed.add token, ?_⟩
    rcases groups_add hclosed token with ⟨hnone, hadd⟩ | ⟨earlier, group, last, hsome, hlast, hadd⟩
    · rw [hgroups, List.splitBy_eq_nil] at hnone
      rw [hadd, hnone]
      rfl
    · rw [hgroups] at hsome
      rw [hadd]
      split
      · exact (splitBy_concat_of_stays hsome hlast (by assumption)).symm
      · rename_i hparts
        have htokens : tokens.getLast? = some last := by
          have hne : group ≠ [] := by
            rintro rfl
            cases hlast
          rw [← List.flatten_splitBy Token.stays tokens, hsome, List.flatten_append, List.flatten_singleton,
            List.getLast?_append_of_ne_nil _ hne, hlast]
        rw [splitBy_concat_of_parts htokens (by simpa using hparts), hsome]

end Grouping

/-- The lines of whole sentences are the tokens cut between every two that do
not stay together. -/
theorem sentenceGroups_eq_splitBy (tokens : List Token) : sentenceGroups tokens = tokens.splitBy Token.stays :=
  (Grouping.groups_foldl_add tokens).2

/-! ## Texts under a configuration -/

/-- Lines without leads are the texts of their tokens. -/
theorem render_without_leads (groups : List (List Token)) :
    Leads.render ⟨[], []⟩ groups = groups.map Token.joinTexts := by
  cases groups with
  | nil => rfl
  | cons group rest => simp [Leads.render]

theorem joinTexts_ne_nil {group : List Token} (hne : group ≠ []) (htexts : ∀ token ∈ group, token.text ≠ []) :
    Token.joinTexts group ≠ [] := by
  obtain ⟨token, others, rfl⟩ := List.exists_cons_of_ne_nil hne
  have htoken := htexts token List.mem_cons_self
  cases others <;> simp [Token.joinTexts, List.intercalate, htoken]

theorem exists_trim_eq_cons {text : Text} (h : ∃ c ∈ text, Text.isBlank c = false) :
    ∃ c rest, Text.trim text = c :: rest ∧ Text.isGap c = false := by
  obtain ⟨c, hc, hblank⟩ := h
  have hne : Text.trim text ≠ [] := by
    intro hnil
    have hkept : c ∈ Text.without Text.isBlank text := List.mem_filter.mpr ⟨hc, by simp [hblank]⟩
    rw [← Text.without_trim (fun _ => id), hnil] at hkept
    cases hkept
  obtain ⟨d, rest, htrim⟩ := List.exists_cons_of_ne_nil hne
  refine ⟨d, rest, htrim, Bool.of_not_eq_true fun hgap => ?_⟩
  exact absurd (Text.head_trim htrim) (by simp [Text.isBlank_of_isGap hgap])

/-- Where each sentence has a line of its own, a text that is not blank becomes
lines that are not empty and hold its tokens in their order, with single spaces
between them. Between two tokens that follow each other there is a line break
just if the first one ends a sentence and the second one would not be read as
the start of a block. -/
theorem lines_end_where_sentences_do (config : Config) (fixed : Bool) (options : Options) (text : Text)
    (hoptions : (config.accept fixed).result = .ok options) (hwhole : options.sentencePerLine = true)
    (htext : ∃ c ∈ text, Text.isBlank c = false) :
    let tokens := tokenize options.style.lengthMode (.ofList (options.abbreviations.getD [])) .split (Text.trim text)
    ∃ groups : List (List Token),
      (wrapTextLine config text fixed).result =
        .ok (groups.map fun group => List.intercalate [' '] (group.map Token.text)) ∧
      tokens ≠ [] ∧ groups.flatten = tokens ∧
      (∀ group ∈ groups, group ≠ [] ∧ List.intercalate [' '] (group.map Token.text) ≠ []) ∧
      ∀ front token next back, tokens = front ++ token :: next :: back →
        ((∃ earlier later, groups = earlier ++ later ∧ earlier.flatten = front ++ [token]) ↔
          token.sentenceEnd = true ∧ Line.beginsBlock next.text = false) := by
  intro tokens
  obtain ⟨c, rest, htrim, hc⟩ := exists_trim_eq_cons htext
  have hstyle : options.style.sentenceLines = .whole := by simp [Options.style, hwhole]
  have hlines : wrapLine options.style text = (sentenceGroups tokens).map Token.joinTexts := by
    rw [wrapLine, if_neg (by simp [htrim]), if_neg (by simp [hstyle]), Style.layout, Style.groups, hstyle,
      render_without_leads]
    rfl
  refine ⟨sentenceGroups tokens, ?_, ?_, flatten_sentenceGroups tokens, fun group hgroup => ?_, ?_⟩
  · rw [wrapTextLine_result, hoptions]
    exact congrArg Except.ok hlines
  · simp only [tokens, htrim]
    exact tokenize_ne_nil _ hc
  · have hsplit := sentenceGroups_eq_splitBy tokens ▸ hgroup
    have hne := List.ne_nil_of_mem_splitBy hsplit
    refine ⟨hne, joinTexts_ne_nil hne fun token htoken hnil => ?_⟩
    have hmem : token ∈ tokens := flatten_sentenceGroups tokens ▸ List.mem_flatten_of_mem hgroup htoken
    have hink := ink_of_mem_tokenize hmem
    rw [hnil] at hink
    cases hink
  · intro front token next back heq
    rw [sentenceGroups_eq_splitBy, heq, splitBy_cut_iff]
    simp [Token.stays, Token.beginsBlock]

/-- Two marks of a quotation that are sentences themselves are both taken up by
the line before them; the next sentence begins a line. -/
theorem lines_end_where_sentences_do_quoted :
    let config : Config := { sentencePerLine := .given true }
    let options : Options := { Options.default with sentencePerLine := true }
    let text : Text := " A。>。>。B".toList
    let word (text : Text) (sentenceEnd : Bool) : Token := ⟨text, text.length, false, sentenceEnd⟩
    let start := word "A。".toList true
    let mark := word ">。".toList true
    let last := word "B".toList false
    (config.accept false).result = .ok options ∧ options.sentencePerLine = true ∧
      (∃ c ∈ text, Text.isBlank c = false) ∧
      ∃ groups : List (List Token),
        (wrapTextLine config text).result =
          .ok (groups.map fun group => List.intercalate [' '] (group.map Token.text)) ∧
        groups.flatten = [start, mark, mark, last] ∧
        (¬∃ earlier later, groups = earlier ++ later ∧ earlier.flatten = [start]) ∧
        (¬∃ earlier later, groups = earlier ++ later ∧ earlier.flatten = [start, mark]) ∧
        ∃ earlier later, groups = earlier ++ later ∧ earlier.flatten = [start, mark, mark] := by
  intro config options text word start mark last
  have hoptions : (config.accept false).result = .ok options := by decide +kernel
  have htext : ∃ c ∈ text, Text.isBlank c = false := ⟨'A', by decide, by decide⟩
  have htokens : tokenize options.style.lengthMode (.ofList (options.abbreviations.getD [])) .split (Text.trim text) =
      [start, mark, mark, last] := by decide +kernel
  obtain ⟨groups, hlines, -, hflatten, -, hbreak⟩ :=
    lines_end_where_sentences_do config false options text hoptions rfl htext
  rw [htokens] at hflatten hbreak
  have hmark : ¬(start.sentenceEnd = true ∧ Line.beginsBlock mark.text = false) := by decide +kernel
  have hmark' : ¬(mark.sentenceEnd = true ∧ Line.beginsBlock mark.text = false) := by decide +kernel
  have hlast : mark.sentenceEnd = true ∧ Line.beginsBlock last.text = false := by decide +kernel
  exact ⟨hoptions, rfl, htext, groups, hlines, hflatten, mt (hbreak [] start mark [mark, last] rfl).mp hmark,
    mt (hbreak [start] mark mark [last] rfl).mp hmark', (hbreak [start, mark] mark last [] rfl).mpr hlast⟩

end ProseWrap
