import ProseWrap.Proofs.LineWidths
import ProseWrap.Proofs.Widths

/-!
# Widths of written lines

A packing never measures a line. It keeps a width, to which each token adds its
own and that of the space before it (`Packing.width`), and the line is written
only when it is done. Widths of texts do not add up in general, since an emoji
selector that begins the second text widens a pictograph that ends the first.
Here nothing of the kind happens: a space or a tab is no pictograph, so nothing
is widened after the lead or after a space (`measureWith_append_of_indented`),
and a space is no selector, so nothing is widened by it. What a packing keeps
is therefore the width of the line as it is written.

Nothing is asked of the table of wide characters but that the space is not
among them.
-/

namespace ProseWrap

variable {wide : Nat → Bool} {mode : LengthMode} {lead : Text} {tokens : List Token}

/-! ## Where texts meet -/

/-- An indent character is no pictograph of one column, for it is no
pictograph. -/
theorem narrowAfter_of_isIndent (wide : Nat → Bool) (narrow : Bool) {c : Char} (hc : Text.isIndent c = true) :
    narrowAfter wide narrow c = false := by
  have hplain : Unicode.isPictographic c.toNat = false := by
    obtain rfl | rfl : c = ' ' ∨ c = '\t' := by simpa [Text.isIndent] using hc
    · decide +kernel
    · decide +kernel
  rw [narrowAfter, hplain, Bool.and_false, Bool.and_false]

/-- A text after an indent character has the width that it has alone. -/
theorem measureWith_append_of_indented (wide : Nat → Bool) (mode : LengthMode)
    (hlead : ∀ c, lead.getLast? = some c → Text.isIndent c = true) (rest : Text) :
    measureWith wide mode (lead ++ rest) = measureWith wide mode lead + measureWith wide mode rest := by
  have hnarrow : lead.foldl (narrowAfter wide) false = false := by
    rcases List.eq_nil_or_concat lead with rfl | ⟨front, c, rfl⟩
    · rfl
    · rw [List.concat_eq_append, List.foldl_append]
      exact narrowAfter_of_isIndent wide _ (hlead c (by simp))
  simp only [← measureAfter_false_eq_measureWith]
  rw [measureAfter_append_foldl, hnarrow]

/-- After a pictograph, a selector takes a column that it does not take
alone. -/
example : measure .visual ['\u2764', '\uFE0F'] = measure .visual ['\u2764'] + measure .visual ['\uFE0F'] + 1 := by
  decide +kernel

/-- A space before a text takes one character, one byte or one column. -/
theorem measureWith_space_cons (hspace : wide ' '.toNat = false) (mode : LengthMode) (rest : Text) :
    measureWith wide mode (' ' :: rest) = 1 + measureWith wide mode rest := by
  have hcolumn : codeColumnsWith wide ' '.toNat = 1 := by
    have hzero : Unicode.isZeroWidth ' '.toNat = false := by decide +kernel
    rw [codeColumnsWith, hzero, hspace]
    rfl
  have hone : measureWith wide mode [' '] = 1 := by
    cases mode with
    | chars => rfl
    | visual => exact congrArg (· + 0) hcolumn
    | bytes => rfl
  have hindent : ∀ c, [' '].getLast? = some c → Text.isIndent c = true := by simp [Text.isIndent]
  rw [← List.singleton_append, measureWith_append_of_indented wide mode hindent, hone]

namespace Token

/-- The widths of tokens added up, without anything between them. -/
def totalWidth : List Token → Int
  | [] => 0
  | token :: rest => token.width + totalWidth rest

/-- A line has one space fewer than tokens. -/
theorem lineWidth_eq_totalWidth (hne : tokens ≠ []) :
    lineWidth tokens = totalWidth tokens + (tokens.length - 1) := by
  induction tokens with
  | nil => exact absurd rfl hne
  | cons token rest ih =>
    by_cases hrest : rest = []
    · subst hrest
      simp [lineWidth, totalWidth]
    · rw [lineWidth_cons token hrest, ih hrest, totalWidth, List.length_cons]
      omega

theorem joinTexts_cons (token : Token) {rest : List Token} (hrest : rest ≠ []) :
    joinTexts (token :: rest) = token.text ++ ' ' :: joinTexts rest := by
  obtain ⟨next, others, rfl⟩ := List.exists_cons_of_ne_nil hrest
  simp [joinTexts, List.intercalate]

/-- The texts of tokens with a space between each two are as wide as the tokens
on one line. -/
theorem measureWith_joinTexts (hspace : wide ' '.toNat = false)
    (hwidths : ∀ token ∈ tokens, token.width = measureWith wide mode token.text) :
    (measureWith wide mode (joinTexts tokens) : Int) = lineWidth tokens := by
  induction tokens with
  | nil => cases mode <;> rfl
  | cons token rest ih =>
    obtain ⟨htoken, hmore⟩ := List.forall_mem_cons.mp hwidths
    by_cases hrest : rest = []
    · subst hrest
      rw [joinTexts, List.map_singleton, List.intercalate_singleton]
      exact htoken.symm
    · -- the space neither widens the token before it nor lets the one after it be widened
      have hhead : (' ' :: joinTexts rest).head? ≠ some emojiSelector := by simp [emojiSelector]
      have hmeasure : measureWith wide mode (joinTexts (token :: rest)) =
          measureWith wide mode token.text + (1 + measureWith wide mode (joinTexts rest)) := by
        rw [joinTexts_cons token hrest, ← measureAfter_false_eq_measureWith, measureAfter_append _ hhead,
          measureAfter_false_eq_measureWith, measureAfter_false_eq_measureWith, measureWith_space_cons hspace]
      rw [hmeasure, lineWidth_cons token hrest, htoken, ← ih hmore]
      omega

end Token

/-- A line is as wide as its lead and its tokens together. -/
theorem measureWith_lead_append (hspace : wide ' '.toNat = false)
    (hlead : ∀ c, lead.getLast? = some c → Text.isIndent c = true)
    (hwidths : ∀ token ∈ tokens, token.width = measureWith wide mode token.text) :
    (measureWith wide mode (lead ++ Token.joinTexts tokens) : Int) =
      measureWith wide mode lead + Token.lineWidth tokens := by
  rw [measureWith_append_of_indented wide mode hlead, ← Token.measureWith_joinTexts hspace hwidths,
    Int.natCast_add]

/-! ## Packings -/

namespace Packing

variable {leads : Leads} {width : Text → Nat} {limit : Limit} {breakOnSentences : Bool}

/-- The width kept for the current line is that of its lead and its tokens. -/
theorem width_eq_lead (packing : Packing (leads.shapeBy width limit breakOnSentences)) :
    packing.width = width packing.lead + Token.lineWidth packing.line := by
  rw [packing.width_eq, packing.lead_eq, LineShape.leadAt, LineShape.leadText]
  split <;> rfl

/-- A token fits just if the line is narrow enough with it. -/
theorem fits_eq_admits_width {shape : LineShape} (packing : Packing shape) (token : Token) :
    packing.fits token.width = shape.limit.admits (packing.append token).width := by
  rw [fits_eq, append, Int.add_assoc]

/-- The current line is written as its lead and the texts of its tokens. -/
theorem getLast?_render_lines {shape : LineShape} (packing : Packing shape) (hline : packing.line ≠ []) :
    (shape.leads.render packing.lines).getLast? =
      some (packing.lead ++ Token.joinTexts packing.line.reverse) := by
  have hlines : packing.lines = packing.done.reverse ++ [packing.line.reverse] := by
    rw [lines, flush, if_neg (by simpa using hline), finish, List.reverse_cons]
  rw [hlines, packing.lead_eq, LineShape.leadText]
  cases hdone : packing.done.reverse with
  | nil =>
    have hnone : packing.done.length = 0 := by simpa using congrArg List.length hdone
    rw [if_pos hnone]
    rfl
  | cons group rest =>
    have hsome : packing.done.length ≠ 0 := by
      rw [← List.length_reverse, hdone]
      exact Nat.succ_ne_zero _
    rw [if_neg hsome, List.cons_append, Leads.render, List.map_append, ← List.cons_append]
    exact List.getLast?_concat

end Packing

/-- The width that is kept for a line is the width of the line as it is
written, whichever characters are wide as long as the space is not. After a
lead that is empty or ends with a space or a tab, tokens with a space between
each two are as wide as the lead, the tokens and the spaces. Hence the width of
the current line of a packing, to which each token adds its own and that of the
space before it, is the width of what will be written, and a token fits just if
the limit admits the written line. With `Unicode.isWide` for the table these
are the packings that texts are laid out with (`Leads.shape`). -/
theorem packed_width_eq_written_width (wide : Nat → Bool) (mode : LengthMode) (lead : Text) (tokens : List Token)
    (hspace : wide ' '.toNat = false) (hlead : ∀ c, lead.getLast? = some c → c = ' ' ∨ c = '\t') (hne : tokens ≠ [])
    (hwidths : ∀ token ∈ tokens, token.width = measureWith wide mode token.text) :
    let written : Int := measureWith wide mode (lead ++ Token.joinTexts tokens)
    written = measureWith wide mode lead + Token.totalWidth tokens + (tokens.length - 1) ∧
      ∀ (leads : Leads) (limit : Limit) (breakOnSentences : Bool)
        (packing : Packing (leads.shapeBy (measureWith wide mode) limit breakOnSentences)) (next : Token),
        packing.lead = lead → packing.line.reverse ++ [next] = tokens →
        (packing.append next).width = written ∧
          packing.width + Token.gapAfter packing.line + next.width = written ∧
          packing.fits next.width = limit.admits written ∧
          (leads.render (packing.append next).lines).getLast? = some (lead ++ Token.joinTexts tokens) := by
  intro written
  have hindent : ∀ c, lead.getLast? = some c → Text.isIndent c = true := by
    intro c hc
    rcases hlead c hc with rfl | rfl <;> rfl
  have hwritten : written = measureWith wide mode lead + Token.lineWidth tokens :=
    measureWith_lead_append hspace hindent hwidths
  refine ⟨?_, ?_⟩
  · rw [hwritten, Token.lineWidth_eq_totalWidth hne, Int.add_assoc]
  · intro leads limit breakOnSentences packing next hleads htokens
    have hline : (packing.append next).line.reverse = tokens := by simp [← htokens, Packing.append]
    have hpacked : (packing.append next).width = written := by
      rw [Packing.width_eq_lead, ← Token.lineWidth_reverse, hline, hwritten, ← hleads]
      rfl
    refine ⟨hpacked, ?_, ?_, ?_⟩
    · rw [← hpacked, Packing.append, Int.add_assoc]
    · rw [Packing.fits_eq_admits_width, hpacked]
      rfl
    · have hlast := (packing.append next).getLast?_render_lines (List.cons_ne_nil next packing.line)
      rwa [hline, show (packing.append next).lead = lead from hleads] at hlast

/-- A selector that begins the first token stands after a tab, and one that
begins the second after a pictograph and a space. Neither widens anything, and
the second line takes all of its four columns. -/
theorem packed_width_eq_written_width_selectors :
    let heart : Token := ⟨['\uFE0F', '\u2764'], 1, false, false⟩
    let smile : Token := ⟨['\uFE0F', '😀'], 2, false, false⟩
    let leads : Leads := ⟨['-', ' '], ['\t']⟩
    let packing := ((Packing.empty (leads.shape .visual (.atMost 4) true)).finish [smile]).append heart
    (∀ c, leads.further.getLast? = some c → c = ' ' ∨ c = '\t') ∧
      (∀ token ∈ [heart, smile], token.width = measure .visual token.text) ∧
      (measure .visual (leads.further ++ Token.joinTexts [heart, smile]) : Int) = 0 + (1 + 2) + (2 - 1) ∧
      packing.fits smile.width = true := by
  intro heart smile leads packing
  have hspace : Unicode.isWide ' '.toNat = false := by decide +kernel
  have hlead : ∀ c, leads.further.getLast? = some c → c = ' ' ∨ c = '\t' := by simp [leads]
  have hwidths : ∀ token ∈ [heart, smile], token.width = measure .visual token.text := by decide +kernel
  obtain ⟨hsum, hpacked⟩ := packed_width_eq_written_width Unicode.isWide .visual leads.further [heart, smile]
    hspace hlead (List.cons_ne_nil _ _) hwidths
  have htab : measureWith Unicode.isWide .visual leads.further = 0 := by decide +kernel
  rw [htab] at hsum
  refine ⟨hlead, hwidths, hsum, ?_⟩
  have hfits := (hpacked leads (.atMost 4) true packing smile rfl rfl).2.2.1
  rw [hsum] at hfits
  exact hfits

end ProseWrap
