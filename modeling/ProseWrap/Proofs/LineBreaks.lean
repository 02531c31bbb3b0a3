import ProseWrap.Proofs.LineWidths

/-!
# Where packed lines are broken

A line is ended only where it has to be (`EndForced`): the next token is too
wide for it, or the next two are and have to stay together. These tokens are
found by looking past the end of the line, since the token that was too wide
may have taken the last token of the line along. The second of them need not
even stand on the next line: it may have been taken along by the third.

What follows a finished line only grows, so `Packing.EndsForced` is kept by
every step.
-/

namespace ProseWrap

/-- Whether the two tokens that follow a line have to stay together: the first
begins a sentence that the line has no part of, or ends with a backslash, or
the second would be read as the start of a block. -/
def KeptTogether (breakOnSentences : Bool) (group : List Token) (first second : Token) : Prop :=
  (breakOnSentences = true ∧ (∃ last, group.getLast? = some last ∧ last.sentenceEnd = true) ∧
      first.sentenceEnd = false) ∨
    second.beginsBlock = true ∨ first.endsWithBackslash = true

/-- Whether the second token that follows a line is on the next line with the
first; or else this line is the first token alone, and the second is further
down, where it has to stay together with the third. -/
def SecondPlaced (next : List (List Token)) (first second : Token) (rest : List Token) : Prop :=
  (∃ more, next.head? = some (first :: second :: more)) ∨
    next.head? = some [first] ∧
      ∃ third more, rest = third :: more ∧ (third.beginsBlock = true ∨ second.endsWithBackslash = true)

/-- Why a line is ended where it is, with the lines `next` after it: the next
token makes it too wide, or the next two do, which have to stay together. -/
inductive EndForced (admits : Int → Bool) (breakOnSentences : Bool) (lead : Int) (group : List Token)
    (next : List (List Token)) : Prop
  | token {first : Token} {rest : List Token} (hnext : next.flatten = first :: rest)
      (hwide : admits (lead + Token.lineWidth (group ++ [first])) = false) :
      EndForced admits breakOnSentences lead group next
  | pair {first second : Token} {rest : List Token} (hnext : next.flatten = first :: second :: rest)
      (hwide : admits (lead + Token.lineWidth (group ++ [first, second])) = false)
      (hkept : KeptTogether breakOnSentences group first second) (hplaced : SecondPlaced next first second rest) :
      EndForced admits breakOnSentences lead group next

namespace EndForced

variable {admits : Int → Bool} {breakOnSentences : Bool} {lead : Int} {group : List Token}
  {next : List (List Token)}

/-- More tokens after a line change nothing about its end, as long as the
second of them keeps its place. -/
theorem grow {other : List (List Token)} (h : EndForced admits breakOnSentences lead group next) (token : Token)
    (hflatten : other.flatten = next.flatten ++ [token])
    (hplaced : ∀ first second rest, next.flatten = first :: second :: rest → SecondPlaced next first second rest →
      SecondPlaced other first second (rest ++ [token])) :
    EndForced admits breakOnSentences lead group other := by
  cases h with
  | @token first rest hnext hwide =>
    have hgrown : other.flatten = first :: (rest ++ [token]) := by rw [hflatten, hnext, List.cons_append]
    exact .token hgrown hwide
  | @pair first second rest hnext hwide hkept hsecond =>
    have hgrown : other.flatten = first :: second :: (rest ++ [token]) := by
      rw [hflatten, hnext, List.cons_append, List.cons_append]
    exact .pair hgrown hwide hkept (hplaced _ _ _ hnext hsecond)

/-- Where less is admitted, a line is all the more forced to end. -/
theorem imp {admits' : Int → Bool} (h : EndForced admits breakOnSentences lead group next)
    (hless : ∀ width, admits width = false → admits' width = false) :
    EndForced admits' breakOnSentences lead group next := by
  cases h with
  | token hnext hwide => exact .token hnext (hless _ hwide)
  | pair hnext hwide hkept hplaced => exact .pair hnext (hless _ hwide) hkept hplaced

end EndForced

/-- The second token keeps its place if the next line stays as it is. -/
theorem SecondPlaced.of_head?_eq {next other : List (List Token)} {first second : Token} {rest : List Token}
    (h : SecondPlaced next first second rest) (hhead : other.head? = next.head?) (token : Token) :
    SecondPlaced other first second (rest ++ [token]) := by
  unfold SecondPlaced at h ⊢
  rw [hhead]
  refine h.imp_right ?_
  rintro ⟨hnext, third, more, rfl, hkept⟩
  exact ⟨hnext, third, more ++ [token], rfl, hkept⟩

namespace Packing

variable {shape : LineShape} {packing next : Packing shape} {token : Token}

/-- Every finished line was forced to end. -/
def EndsForced (packing : Packing shape) : Prop :=
  ∀ later group earlier, packing.done = later ++ group :: earlier →
    EndForced shape.limit.admits shape.breakOnSentences (shape.leadAt earlier.length) group
      (later.reverse ++ [packing.line.reverse])

theorem endsForced_empty (shape : LineShape) : (empty shape).EndsForced := by
  intro later group earlier heq
  simp [empty] at heq

theorem EndsForced.append (h : packing.EndsForced) (token : Token) : (packing.append token).EndsForced := by
  intro later group earlier hdone
  refine (h later group earlier hdone).grow token (by simp [Packing.append]) fun first second rest hnext hplaced => ?_
  cases hlater : later.reverse with
  | cons line lines =>
    rw [hlater] at hplaced
    exact hplaced.of_head?_eq rfl token
  | nil =>
    -- the next line is the current one, which holds both tokens
    have hline : packing.line.reverse = first :: second :: rest := by simpa [hlater] using hnext
    exact .inl ⟨rest ++ [token], by simp [Packing.append, hline]⟩

/-- A line that is finished leaves those before it forced to end, and is forced
to end itself. -/
theorem EndsForced.finish (h : packing.EndsForced) (token : Token) {finished : List Token}
    (hdone : next.done = finished :: packing.done)
    (hheld : finished ++ next.line.reverse = packing.line.reverse ++ [token])
    (hplaced : ∀ first second rest, packing.line.reverse = first :: second :: rest →
      SecondPlaced [finished] first second (rest ++ [token]))
    (hforced : EndForced shape.limit.admits shape.breakOnSentences (shape.leadAt packing.done.length) finished
      [next.line.reverse]) : next.EndsForced := by
  intro later group earlier hsplit
  rw [hdone] at hsplit
  cases later with
  | nil =>
    obtain ⟨rfl, rfl⟩ := List.cons.inj hsplit
    exact hforced
  | cons other later =>
    obtain ⟨rfl, hbefore⟩ : finished = other ∧ packing.done = later ++ group :: earlier := by simpa using hsplit
    refine (h later group earlier hbefore).grow token (by simp [hheld]) fun first second rest hnext hsecond => ?_
    cases hlater : later.reverse with
    | cons line lines =>
      rw [hlater] at hsecond
      exact hsecond.of_head?_eq (by simp [hlater]) token
    | nil =>
      -- the next line is the one that is finished
      have hline : packing.line.reverse = first :: second :: rest := by simpa [hlater] using hnext
      have hhead := hplaced first second rest hline
      unfold SecondPlaced at hhead ⊢
      simpa [hlater] using hhead

/-- A token that is taken along stays with the one that takes it, and leaves
another one alone on its line only if it has to. -/
theorem secondPlaced_of_carried {last : Token} {others : List Token}
    (hcarried : carriesSentence shape last others token = true ∨ token.beginsBlock = true ∨
      last.endsWithBackslash = true)
    {first second : Token} {rest : List Token} (hline : (last :: others).reverse = first :: second :: rest) :
    SecondPlaced [others.reverse] first second (rest ++ [token]) := by
  rw [List.reverse_cons] at hline
  rcases List.eq_nil_or_concat rest with rfl | ⟨rest, final, rfl⟩
  · obtain ⟨hfirst, hlast⟩ := List.append_inj' (show others.reverse ++ [last] = [first] ++ [second] from hline) rfl
    obtain rfl : last = second := by simpa using hlast
    refine .inr ⟨congrArg some hfirst, token, [], rfl, hcarried.resolve_left fun hsentence => ?_⟩
    obtain ⟨previous, before, more, rfl, -⟩ := carriesSentence_eq_true.mp hsentence
    have := congrArg List.length hfirst
    simp at this
  · rw [List.concat_eq_append] at hline
    obtain ⟨hfirst, -⟩ := List.append_inj'
      (show others.reverse ++ [last] = (first :: second :: rest) ++ [final] from hline) rfl
    exact .inl ⟨rest, congrArg some hfirst⟩

theorem keptTogether_of_carried {last : Token} {others : List Token}
    (hcarried : carriesSentence shape last others token = true ∨ token.beginsBlock = true ∨
      last.endsWithBackslash = true) : KeptTogether shape.breakOnSentences others.reverse last token := by
  refine hcarried.imp_left fun hsentence => ?_
  obtain ⟨previous, before, more, rfl, hbreak, hend, hopen, -⟩ := carriesSentence_eq_true.mp hsentence
  exact ⟨hbreak, ⟨previous, by simp, hend⟩, hopen⟩

/-- A step ends a line only because its token is too wide for it. -/
theorem EndsForced.step (h : packing.EndsForced) (hstep : Step packing token next) :
    next.EndsForced := by
  cases hstep with
  | begins => exact h.append token
  | joins => exact h.append token
  | overflows => exact h.append token
  | @carries last others hline hfits _ _ hcarried =>
    rw [fits_token hline] at hfits
    refine h.finish token rfl (by simp [hline, Packing.append, Packing.finish])
      (fun first second rest hsplit => ?_) (.pair rfl hfits ?_ ?_)
    · rw [hline] at hsplit
      exact secondPlaced_of_carried hcarried hsplit
    · exact keptTogether_of_carried hcarried
    · exact .inl ⟨[], rfl⟩
  | @breaks last others hline hfits =>
    rw [fits_token hline] at hfits
    refine h.finish token rfl rfl (fun first second rest hsplit => .inl ⟨rest ++ [], ?_⟩) (.token rfl ?_)
    · simp [hsplit]
    · simpa [hline] using hfits

end Packing

variable {shape : LineShape} {tokens group next : List Token} {earlier later : List (List Token)}

/-- Every full line but the last was forced to end. -/
theorem endForced_of_pack (h : pack shape tokens = earlier ++ group :: next :: later) :
    EndForced shape.limit.admits shape.breakOnSentences (shape.leadAt earlier.length) group (next :: later) := by
  have hrun := Packing.foldl_add_induction (fun _ _ h => Packing.EndsForced.step h (Packing.step_add ..)) tokens
    (Packing.endsForced_empty shape)
  have htokens : tokens ≠ [] := by
    rintro rfl
    have hnone : [] = earlier ++ group :: next :: later := h
    simp at hnone
  rw [pack, Packing.lines_eq (Packing.line_foldl_add_ne_nil (.empty shape) htokens)] at h
  generalize tokens.foldl Packing.add (.empty shape) = packing at h hrun
  rcases List.eq_nil_or_concat (next :: later) with hnil | ⟨front, last, hlater⟩
  · cases hnil
  · rw [List.concat_eq_append] at hlater
    rw [hlater] at h ⊢
    obtain ⟨hdone, hline⟩ := List.append_inj' (h.trans (List.append_assoc earlier (group :: front) [last]).symm) rfl
    obtain rfl : packing.line.reverse = last := by simpa using hline
    rw [List.reverse_eq_iff] at hdone
    simpa using hrun front.reverse group earlier.reverse (by simpa using hdone)

/-- Lines are ended only where they have to be, whichever number they are
packed for. A line is too wide with the next token; or it is too wide with the
next two, and these have to stay together. The second of these two is on the
next line, unless it was itself taken along by the third. -/
theorem lines_end_only_where_forced (leads : Leads) (mode : LengthMode) (number : Number) (breakOnSentences : Bool)
    (tokens : List Token) :
    let shape := leads.shape mode (.ofNumber number) breakOnSentences
    let groups := pack shape tokens
    leads.Lays groups (leads.render groups) ∧ groups.flatten = tokens ∧ (∀ group ∈ groups, group ≠ []) ∧
      ∀ earlier group next later, groups = earlier ++ group :: next :: later →
        EndForced number.covers breakOnSentences (shape.leadAt earlier.length) group (next :: later) := by
  intro shape groups
  refine ⟨leads.lays_render groups, flatten_pack shape tokens, fun _ => ne_nil_of_mem_pack,
    fun earlier group next later hsplit => ?_⟩
  refine (endForced_of_pack hsplit).imp fun width hwide => Bool.of_not_eq_true fun hcovers => ?_
  rw [show shape.limit.admits width = true from Limit.admits_of_covers hcovers] at hwide
  cases hwide

/-- The first word of the second sentence is moved down, since the next word
fits beside it. Then the hyphen takes that word along, and the first one stays
alone on a line, though there is room for it on the line before. -/
theorem sentence_start_left_alone :
    let word (text : Text) (sentenceEnd : Bool) : Token := ⟨text, text.length, false, sentenceEnd⟩
    let shape := Leads.shape ⟨[], []⟩ .chars (.ofNumber (.ofNat 6)) true
    let group := [word ['a'] false, word ['b', '.'] true]
    let next := [word ['C'] false]
    let last := [word ['d', 'd', 'd', 'd'] false, word ['-'] false]
    pack shape (group ++ next ++ last) = [group, next, last] ∧
      ∀ c, c = 0 ∨ c = 1 →
        (Number.ofNat 6).covers (shape.leadAt 0 + Token.lineWidth (group ++ next.take (c + 1))) = true := by
  intro word shape group next last
  refine ⟨by decide +kernel, fun c hc => ?_⟩
  rcases hc with rfl | rfl <;> decide +kernel

end ProseWrap
