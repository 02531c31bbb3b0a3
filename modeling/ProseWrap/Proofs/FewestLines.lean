import ProseWrap.Proofs.LineBreaks

/-!
# Packing makes the fewest lines

If no token has to stay with another one, full lines are as few as lines can be
(`pack_makes_fewest_lines`). Full lines stay ahead of every other layout: they
hold at least as many tokens as the same number of its lines. For if a line of
the layout went on past the full line that has as many lines before it, it
would hold that line and the next token, which is too wide; and both lines have
the same lead.
-/

namespace ProseWrap

/-- Lines for tokens: groups of successive tokens that are not empty, each of
which is a single token or not too wide. -/
structure IsLayout (shape : LineShape) (admits : Int → Bool) (tokens : List Token) (groups : List (List Token)) :
    Prop where
  flatten_eq : groups.flatten = tokens
  ne_nil : ∀ group ∈ groups, group ≠ []
  fits : ∀ earlier group later, groups = earlier ++ group :: later →
    group.length = 1 ∨ admits (shape.leadAt earlier.length + Token.lineWidth group) = true

/-! ## Staying ahead -/

/-- What holds of each of some lines, with the number of lines before it and
with the lines after it. The number `before` counts the lines that come before
all of them. -/
def EachLine (P : Nat → List Token → List (List Token) → Prop) (before : Nat) (groups : List (List Token)) : Prop :=
  ∀ earlier group later, groups = earlier ++ group :: later → P (before + earlier.length) group later

namespace EachLine

variable {P : Nat → List Token → List (List Token) → Prop} {before : Nat} {group : List Token}
  {groups : List (List Token)}

theorem head (h : EachLine P before (group :: groups)) : P before group groups := h [] group groups rfl

theorem tail (h : EachLine P before (group :: groups)) : EachLine P (before + 1) groups := by
  intro earlier other later hsplit
  have hother := h (group :: earlier) other later (congrArg (group :: ·) hsplit)
  have hcount : before + (group :: earlier).length = before + 1 + earlier.length := by
    rw [List.length_cons]
    omega
  rwa [hcount] at hother

end EachLine

/-- A line is full if it is too wide with the next token. -/
def FullLine (shape : LineShape) (before : Nat) (group : List Token) (later : List (List Token)) : Prop :=
  ∀ first rest, later.flatten = first :: rest →
    shape.limit.admits (shape.leadAt before + Token.lineWidth (group ++ [first])) = false

/-- A line fits if it is a single token or not too wide. -/
def FittingLine (shape : LineShape) (before : Nat) (group : List Token) (_ : List (List Token)) : Prop :=
  group.length = 1 ∨ shape.limit.admits (shape.leadAt before + Token.lineWidth group) = true

variable {shape : LineShape}

/-- A line that fits does not go on past a full line with the same lead that it
holds the end of. -/
theorem FittingLine.not_past {before : Nat} {extra group past : List Token} {first : Token}
    {later lines : List (List Token)} (h : FittingLine shape before (extra ++ group ++ first :: past) lines)
    (hfull : FullLine shape before group later) (hlater : later.flatten = first :: past ++ lines.flatten)
    (hgroup : group ≠ []) (hwidths : ∀ token ∈ extra ++ group ++ first :: past, 0 ≤ token.width) : False := by
  have hwide := hfull first (past ++ lines.flatten) hlater
  rcases h with hone | hadmits
  · have := List.length_pos_iff.mpr hgroup
    simp only [List.length_append, List.length_cons] at hone
    omega
  · have hpart : group ++ [first] <:+: extra ++ group ++ first :: past := ⟨extra, past, by simp⟩
    have hle := Token.lineWidth_le_of_infix hpart hwidths
    rw [Limit.admits_of_le (by omega) hadmits] at hwide
    cases hwide

/-- Full lines that are ahead of fitting lines, by the tokens `extra`, are at
most as many. -/
theorem length_le_of_ahead {groups lines : List (List Token)} (before : Nat) (extra : List Token)
    (hfull : EachLine (FullLine shape) before groups) (hne : ∀ group ∈ groups, group ≠ [])
    (hfits : EachLine (FittingLine shape) before lines) (hwidths : ∀ token ∈ lines.flatten, 0 ≤ token.width)
    (hahead : lines.flatten = extra ++ groups.flatten) : groups.length ≤ lines.length := by
  induction groups generalizing lines before extra with
  | nil => exact Nat.zero_le _
  | cons group groups ih =>
    obtain ⟨hgroup, hgroups⟩ := List.forall_mem_cons.mp hne
    cases lines with
    | nil =>
      have hnone : extra = [] ∧ group = [] ∧ groups.flatten = [] := by simpa using hahead.symm
      exact absurd hnone.2.1 hgroup
    | cons line lines =>
      rw [List.flatten_cons] at hwidths
      obtain ⟨hline, hlines⟩ := List.forall_mem_append.mp hwidths
      have hnext (extra : List Token) (h : lines.flatten = extra ++ groups.flatten) :
          groups.length + 1 ≤ lines.length + 1 :=
        Nat.succ_le_succ (ih (before + 1) extra hfull.tail hgroups hfits.tail hlines h)
      have hsplit : line ++ lines.flatten = extra ++ group ++ groups.flatten := by simpa using hahead
      -- either the full line ends no earlier than the other one, or that one
      -- goes on past it
      rcases List.append_eq_append_iff.mp hsplit with ⟨extra, -, h⟩ | ⟨past, rfl, h⟩
      · exact hnext extra h
      · cases past with
        | nil => exact hnext [] h.symm
        | cons first past => exact (hfits.head.not_past hfull.head h hgroup hline).elim

/-! ## Packing -/

/-- If no two tokens have to stay together, all lines but the last are full. -/
theorem eachLine_full_pack {tokens : List Token} (hsentences : shape.breakOnSentences = false)
    (hplain : ∀ token ∈ tokens, token.beginsBlock = false ∧ token.endsWithBackslash = false) :
    EachLine (FullLine shape) 0 (pack shape tokens) := by
  intro earlier group later hsplit first rest hlater
  have hmem : ∀ token ∈ later.flatten, token ∈ tokens := by
    intro token htoken
    rw [← flatten_pack shape tokens, hsplit]
    simp [htoken]
  rw [Nat.zero_add]
  cases later with
  | nil => cases hlater
  | cons next later =>
    cases endForced_of_pack hsplit with
    | token hnext hwide =>
      obtain ⟨rfl, -⟩ := List.cons.inj (hnext.symm.trans hlater)
      exact hwide
    | @pair first second _ hnext _ hkept _ =>
      rw [hnext] at hmem
      rcases hkept with ⟨hbreak, -⟩ | hblock | hslash
      · rw [hsentences] at hbreak
        cases hbreak
      · rw [(hplain second (hmem second (by simp))).1] at hblock
        cases hblock
      · rw [(hplain first (hmem first (by simp))).2] at hslash
        cases hslash

/-- If no token has to stay with another one, packing for a number other than 0
makes lines that fit wherever they have more than one token, and no other such
lines for the tokens are fewer. -/
theorem pack_makes_fewest_lines (leads : Leads) (mode : LengthMode) (number : Number) (tokens : List Token)
    (hnumber : number ≠ .finite 0)
    (hplain : ∀ token ∈ tokens,
      0 ≤ token.width ∧ token.beginsBlock = false ∧ token.endsWithBackslash = false) :
    let shape := leads.shape mode (.ofNumber number) false
    IsLayout shape number.covers tokens (pack shape tokens) ∧
      ∀ groups, IsLayout shape number.covers tokens groups →
        (leads.render (pack shape tokens)).length ≤ groups.length := by
  intro shape
  have hwidths : ∀ token ∈ tokens, 0 ≤ token.width := fun token htoken => (hplain token htoken).1
  have hfree : ∀ token ∈ tokens, token.beginsBlock = false ∧ token.endsWithBackslash = false :=
    fun token htoken => (hplain token htoken).2
  have hadmits : shape.limit.admits = number.covers := funext (Limit.admits_ofNumber hnumber)
  have hflatten := flatten_pack shape tokens
  rw [← hadmits]
  refine ⟨⟨hflatten, fun _ => ne_nil_of_mem_pack, fun earlier group later hsplit => ?_⟩, fun groups hgroups => ?_⟩
  · have hmem : group ∈ pack shape tokens := by simp [hsplit]
    have hpos := List.length_pos_iff.mpr (ne_nil_of_mem_pack hmem)
    by_cases hone : group.length = 1
    · exact .inl hone
    · refine .inr ((excused_of_pack hsplit).admits_of_plain (by omega) fun token htoken => hfree token ?_)
      rw [← hflatten]
      exact List.mem_flatten_of_mem hmem htoken
  · rw [(leads.lays_render (pack shape tokens)).length_eq]
    refine length_le_of_ahead 0 [] (eachLine_full_pack rfl hfree) (fun _ => ne_nil_of_mem_pack) ?_ ?_ ?_
    · intro earlier group later hsplit
      rw [Nat.zero_add]
      exact hgroups.fits earlier group later hsplit
    · rwa [hgroups.flatten_eq]
    · rw [hgroups.flatten_eq, hflatten]
      rfl

/-- A word that is too wide for the first line stands alone on it, and the
other two share the second line. One line for each word is a layout too, and
has more lines. -/
theorem pack_makes_fewest_lines_narrow :
    let word (text : Text) : Token := ⟨text, text.length, false, false⟩
    let leads : Leads := ⟨['-', ' '], []⟩
    let shape := leads.shape .chars (.ofNumber (.ofNat 5)) false
    let tokens := [word ['a', 'a', 'a', 'a'], word ['b', 'b'], word ['c', 'c']]
    pack shape tokens = [[word ['a', 'a', 'a', 'a']], [word ['b', 'b'], word ['c', 'c']]] ∧
      (Number.ofNat 5).covers (shape.leadAt 0 + Token.lineWidth [word ['a', 'a', 'a', 'a']]) = false ∧
      IsLayout shape (Number.ofNat 5).covers tokens (tokens.map ([·])) ∧
      (leads.render (pack shape tokens)).length ≤ (tokens.map ([·])).length := by
  intro word leads shape tokens
  have hlayout : IsLayout shape (Number.ofNat 5).covers tokens (tokens.map ([·])) := by
    refine ⟨by decide, by decide, fun earlier group later hsplit => .inl ?_⟩
    have hgroup : group ∈ tokens.map ([·]) := by simp [hsplit]
    obtain ⟨token, -, rfl⟩ := List.mem_map.mp hgroup
    rfl
  obtain ⟨-, hfewest⟩ := pack_makes_fewest_lines leads .chars (.ofNat 5) tokens (by decide) (by decide +kernel)
  exact ⟨by decide +kernel, by decide +kernel, hlayout, hfewest _ hlayout⟩

end ProseWrap
