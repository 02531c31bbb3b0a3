import Mathlib.Data.List.Chain
import ProseWrap.Proofs.Tokens

/-!
# Words that stand apart for good

Gluing puts punctuation to the word before it and an opening bracket to the
word behind it. A list of words is settled (`Settled`) if no word of it is left
to be glued to its neighbour: punctuation alone stands first or behind the end
of a sentence, and opening brackets alone stand last or end a sentence
themselves. One pass of gluing settles any words (`settled_glue`), although a
bracket that waits may take up further brackets and a glued word may end a
sentence that its first part did not; and settled words are what gluing leaves
alone (`glue_eq_self`).
-/

namespace ProseWrap

/-! ## Punctuation -/

theorem isTrailing_of_append {front back : Text} (h : isTrailing (front ++ back) = true) (hne : front ≠ []) :
    isTrailing front = true := by
  simp only [isTrailing, Bool.and_eq_true, List.all_append] at h ⊢
  exact ⟨by simpa using hne, h.2.1⟩

/-- No character is both punctuation of this kind and an opening bracket. -/
theorem not_isTrailing_and_isOpening {c : Char} (htrailing : isTrailing [c] = true) (hopening : isOpening [c] = true) :
    False := by
  simp only [isTrailing, isOpening, List.all_cons, List.all_nil, Bool.and_true, Bool.and_eq_true] at htrailing hopening
  have hdisjoint : [',', '.', ':', ';', '!', '?', ')', ']', '\x7d'].all fun c => !(['(', '[', '\x7b'].contains c) := by
    decide
  have hno := List.all_eq_true.mp hdisjoint c (List.contains_iff_mem.mp htrailing.2)
  rw [hopening.2] at hno
  cases hno

theorem isTrailing_singleton {c : Char} {text : Text} (h : isTrailing text = true) (hc : c ∈ text) :
    isTrailing [c] = true := by
  rw [isTrailing, Bool.and_eq_true, List.all_eq_true] at h
  simpa [isTrailing] using h.2 c hc

theorem isOpening_singleton {c : Char} {text : Text} (h : isOpening text = true) (hc : c ∈ text) :
    isOpening [c] = true := by
  rw [isOpening, Bool.and_eq_true, List.all_eq_true] at h
  simpa [isOpening] using h.2 c hc

theorem ne_nil_of_isTrailing {text : Text} (h : isTrailing text = true) : text ≠ [] := by
  rintro rfl
  cases h

theorem ne_nil_of_isOpening {text : Text} (h : isOpening text = true) : text ≠ [] := by
  rintro rfl
  cases h

theorem isOpening_append_of_isTrailing (front : Text) {back : Text} (h : isTrailing back = true) :
    isOpening (front ++ back) = false := by
  obtain ⟨c, hc⟩ := List.exists_mem_of_ne_nil back (ne_nil_of_isTrailing h)
  refine Bool.eq_false_iff.mpr fun hopening => ?_
  exact not_isTrailing_and_isOpening (isTrailing_singleton h hc)
    (isOpening_singleton hopening (List.mem_append_right _ hc))

theorem isTrailing_append_of_isOpening {front : Text} (h : isOpening front = true) (back : Text) :
    isTrailing (front ++ back) = false := by
  obtain ⟨c, hc⟩ := List.exists_mem_of_ne_nil front (ne_nil_of_isOpening h)
  refine Bool.eq_false_iff.mpr fun htrailing => ?_
  exact not_isTrailing_and_isOpening (isTrailing_singleton htrailing (List.mem_append_left _ hc))
    (isOpening_singleton h hc)

/-! ## Settled words -/

/-- Two neighbours are apart: the second is no punctuation that belongs to the
first, and the first is no bracket that belongs to the second. -/
structure Word.Apart (left right : Word) : Prop where
  trailing : isTrailing right.text = true → left.sentenceEnd = true
  opening : isOpening left.text = true → left.sentenceEnd = true

/-- All neighbours are apart. -/
def Settled (words : List Word) : Prop := words.IsChain Word.Apart

theorem Settled.apart {words : List Word} (h : Settled words) {k : Nat} {left right : Word}
    (hleft : words[k]? = some left) (hright : words[k + 1]? = some right) : left.Apart right := by
  obtain ⟨hk, rfl⟩ := List.getElem?_eq_some_iff.mp hleft
  obtain ⟨hnext, rfl⟩ := List.getElem?_eq_some_iff.mp hright
  exact List.isChain_iff_getElem.mp h k hnext

/-- Whether gluing makes a word wait for the next one. -/
def Word.waits (word : Word) : Bool := isOpening word.text && !word.sentenceEnd

/-- What gluing has done: the words `out`, the last one first, and the bracket
`opener` that waits for the next word. -/
structure Gluing (out : List Word) (opener : Option Word) : Prop where
  settled : out.IsChain fun right left => left.Apart right
  done : ∀ word ∈ out, word.text ≠ [] ∧ word.waits = false
  waits : ∀ word ∈ opener, word.waits = true

namespace Gluing

variable {out before : List Word} {opener : Option Word} {word last : Word}

theorem sentenceEnd_of_opening (h : word.waits = false) : isOpening word.text = true → word.sentenceEnd = true := by
  intro hopening
  simpa [Word.waits, hopening] using h

/-- A word that does not wait is put behind the others if it is no punctuation
that belongs to the last of them. -/
theorem push (h : Gluing out opener) (hne : word.text ≠ []) (hwaits : word.waits = false)
    (htrailing : ∀ last ∈ out.head?, isTrailing word.text = true → last.sentenceEnd = true) :
    Gluing (word :: out) none := by
  refine ⟨?_, List.forall_mem_cons.mpr ⟨⟨hne, hwaits⟩, h.done⟩, by simp⟩
  refine List.isChain_cons.mpr ⟨fun last hlast => ?_, h.settled⟩
  exact ⟨htrailing last hlast, sentenceEnd_of_opening (h.done last (List.mem_of_mem_head? hlast)).2⟩

/-- Punctuation goes to the last of the words. -/
theorem attach (h : Gluing (last :: before) none) (htrailing : isTrailing word.text = true) :
    Gluing (last.append word :: before) none := by
  obtain ⟨⟨hne, -⟩, hdone⟩ := List.forall_mem_cons.mp h.done
  obtain ⟨hapart, hsettled⟩ := List.isChain_cons.mp h.settled
  have hbefore : Gluing before none := ⟨hsettled, hdone, by simp⟩
  refine hbefore.push (by simp [Word.append, hne]) ?_ fun other hother hglued => ?_
  · rw [Word.waits, Word.text_append, isOpening_append_of_isTrailing _ htrailing]
    rfl
  · exact (hapart other hother).trailing (isTrailing_of_append hglued hne)

/-- A word, together with the bracket that waits for it if one does, is no
punctuation that belongs to the last of the words. -/
theorem ne_nil_and_trailing (h : Gluing out opener) (hne : word.text ≠ [])
    (hcase : ∀ last before, opener = none → out = last :: before → False) :
    ((opener.map fun left => left.append word).getD word).text ≠ [] ∧
      ∀ last ∈ out.head?, isTrailing ((opener.map fun left => left.append word).getD word).text = true →
        last.sentenceEnd = true := by
  cases opener with
  | none =>
    refine ⟨hne, fun last hlast => ?_⟩
    obtain ⟨before, hout⟩ := List.head?_eq_some_iff.mp hlast
    exact (hcase last before rfl hout).elim
  | some left =>
    have hwaits := h.waits left rfl
    rw [Word.waits, Bool.and_eq_true] at hwaits
    refine ⟨by simp [hne], fun last _ htrailing => ?_⟩
    rw [Option.map_some, Option.getD_some, Word.text_append, isTrailing_append_of_isOpening hwaits.1] at htrailing
    cases htrailing

/-- In the end the words that are done are settled, also if a bracket still
waits. -/
theorem finish (h : Gluing out opener) : Settled (opener.toList ++ out).reverse := by
  rw [Settled, List.isChain_reverse]
  cases opener with
  | none => exact h.settled
  | some left =>
    have hwaits := h.waits left rfl
    rw [Word.waits, Bool.and_eq_true] at hwaits
    refine List.isChain_cons.mpr ⟨fun last hlast => ⟨fun htrailing => ?_, ?_⟩, h.settled⟩
    · have hno := isTrailing_append_of_isOpening hwaits.1 []
      rw [List.append_nil] at hno
      cases hno.symm.trans htrailing
    · exact sentenceEnd_of_opening (h.done last (List.mem_of_mem_head? hlast)).2

end Gluing

/-- Gluing keeps what is done settled, word by word. -/
theorem settled_glueFrom {out : List Word} {opener : Option Word} {words : List Word} (h : Gluing out opener)
    (hwords : ∀ word ∈ words, word.text ≠ []) : Settled (glueFrom out opener words) := by
  fun_induction glueFrom out opener words with
  | case1 out opener => exact h.finish
  | case2 word rest last before hglue ih =>
    rw [Bool.and_eq_true] at hglue
    exact ih (h.attach hglue.2) (List.forall_mem_cons.mp hwords).2
  | case3 word rest last before hglue hwaits ih =>
    exact ih ⟨h.settled, h.done, by rintro _ ⟨⟩; exact hwaits⟩ (List.forall_mem_cons.mp hwords).2
  | case4 word rest last before hglue hwaits ih =>
    obtain ⟨hne, hrest⟩ := List.forall_mem_cons.mp hwords
    refine ih (h.push hne (by simpa [Word.waits] using hwaits) fun other hother htrailing => ?_) hrest
    cases hother
    simpa [htrailing] using hglue
  | case5 out opener word rest glued hwaits hcase ih =>
    dsimp only
    rw [if_pos hwaits]
    exact ih ⟨h.settled, h.done, by rintro _ ⟨⟩; exact hwaits⟩ (List.forall_mem_cons.mp hwords).2
  | case6 out opener word rest glued hwaits hcase ih =>
    obtain ⟨hne, hrest⟩ := List.forall_mem_cons.mp hwords
    obtain ⟨hglued, htrailing⟩ := h.ne_nil_and_trailing hne hcase
    dsimp only
    rw [if_neg hwaits]
    exact ih (h.push hglued (by simpa [Word.waits] using hwaits) htrailing) hrest

/-- Gluing settles words. -/
theorem settled_glue {words : List Word} (h : ∀ word ∈ words, word.text ≠ []) : Settled (glue words) :=
  settled_glueFrom ⟨.nil, by simp, by simp⟩ h

/-! ## Settled words are left alone -/

theorem glueFrom_cons_of_apart {out : List Word} {word : Word} (rest : List Word)
    (h : ∀ last ∈ out.head?, last.Apart word) :
    glueFrom out none (word :: rest) =
      if word.waits then glueFrom out (some word) rest else glueFrom (word :: out) none rest := by
  cases out with
  | nil => rfl
  | cons last before =>
    have hno : (!last.sentenceEnd && isTrailing word.text) = false := by
      have htrailing := (h last rfl).trailing
      cases hword : isTrailing word.text <;> simp_all
    rw [glueFrom, hno]
    rfl

theorem glueFrom_of_settled (out : List Word) {words : List Word} (h : Settled words)
    (hfirst : ∀ last ∈ out.head?, ∀ first ∈ words.head?, last.Apart first) :
    glueFrom out none words = out.reverse ++ words := by
  induction words generalizing out with
  | nil => simp [glueFrom]
  | cons word rest ih =>
    obtain ⟨hnext, hrest⟩ := List.isChain_cons.mp h
    rw [glueFrom_cons_of_apart rest fun last hlast => hfirst last hlast word rfl]
    split
    · rename_i hwaits
      -- a bracket that waits is apart from nothing that comes behind it
      cases rest with
      | nil => simp [glueFrom]
      | cons next rest =>
        rw [Word.waits, Bool.and_eq_true, (hnext next rfl).opening (by simp_all)] at hwaits
        cases hwaits.2
    · have hglued := ih (word :: out) hrest fun last hlast first hfirst => by
        cases hlast
        exact hnext first hfirst
      rw [hglued, List.reverse_cons, List.append_assoc, List.singleton_append]

/-- Gluing leaves settled words alone. -/
theorem glue_eq_self {words : List Word} (h : Settled words) : glue words = words :=
  glueFrom_of_settled [] h (by simp)

/-! ## Tokens -/

/-- The word that a token is of. -/
def Token.word (token : Token) : Word := ⟨token.text, token.atomic, token.sentenceEnd⟩

theorem words_ne_nil (set : Abbreviations) (mode : SentenceHandling) (text : Text) :
    ∀ word ∈ words set mode text, word.text ≠ [] := by
  refine forall_mem_words (P := (· ≠ [])) (fun ha _ => List.append_ne_nil_of_left_ne_nil ha _) (by simp) ?_
  intro tree ht piece hp hnil
  obtain ⟨c, hhead, -⟩ := head?_of_mem_spanPieces ht hp
  rw [hnil] at hhead
  cases hhead

theorem map_word_tokenize (lengthMode : LengthMode) (set : Abbreviations) (mode : SentenceHandling) (text : Text) :
    (tokenize lengthMode set mode text).map Token.word = glue (words set mode text) := by
  rw [tokenize, List.map_map]
  exact List.map_id _

/-- The tokens of a text are settled. Punctuation alone stands first or behind
the end of a sentence, opening brackets alone stand last or end a sentence
themselves, and gluing the tokens again does not change them. -/
theorem tokens_reach_normal_form (lengthMode : LengthMode) (set : Abbreviations) (mode : SentenceHandling)
    (text : Text) :
    let tokens := tokenize lengthMode set mode text
    (∀ k left right, tokens[k]? = some left → tokens[k + 1]? = some right → isTrailing right.text = true →
        left.sentenceEnd = true) ∧
      (∀ k token, tokens[k]? = some token → isOpening token.text = true → token.sentenceEnd = false →
        k + 1 = tokens.length) ∧
      glue (tokens.map Token.word) = tokens.map Token.word := by
  intro tokens
  have hsettled : Settled (tokens.map Token.word) := by
    rw [map_word_tokenize]
    exact settled_glue (words_ne_nil set mode text)
  have hapart {k : Nat} {left right : Token} (hleft : tokens[k]? = some left) (hright : tokens[k + 1]? = some right) :
      left.word.Apart right.word :=
    hsettled.apart (by rw [List.getElem?_map, hleft]; rfl) (by rw [List.getElem?_map, hright]; rfl)
  refine ⟨fun k left right hleft hright => (hapart hleft hright).trailing, fun k token hget hopening hend => ?_,
    glue_eq_self hsettled⟩
  obtain ⟨hlt, -⟩ := List.getElem?_eq_some_iff.mp hget
  by_contra hne
  have hnext : tokens[k + 1]? = some tokens[k + 1] := List.getElem?_eq_getElem (by omega)
  cases hend.symm.trans ((hapart hget hnext).opening hopening)

/-- Punctuation behind the end of a sentence and brackets at the end of a text
are left to themselves. -/
theorem tokens_reach_normal_form_sentence :
    let tokens := tokenize .chars (.ofList []) .split "( 好。 ) , ( [".toList
    let first : Token := ⟨"(好。".toList, 3, false, true⟩
    let second : Token := ⟨"),".toList, 2, false, false⟩
    let third : Token := ⟨"([".toList, 2, false, false⟩
    tokens[0]? = some first ∧ tokens[1]? = some second ∧ tokens[2]? = some third ∧
      isTrailing second.text = true ∧ first.sentenceEnd = true ∧
      isOpening third.text = true ∧ third.sentenceEnd = false ∧ 2 + 1 = tokens.length := by
  intro tokens first second third
  obtain ⟨htrailing, hopening, -⟩ := tokens_reach_normal_form .chars (.ofList []) .split "( 好。 ) , ( [".toList
  have hfirst : tokens[0]? = some first := by decide +kernel
  have hsecond : tokens[1]? = some second := by decide +kernel
  have hthird : tokens[2]? = some third := by decide +kernel
  exact ⟨hfirst, hsecond, hthird, by decide, htrailing 0 first second hfirst hsecond (by decide), by decide, rfl,
    hopening 2 third hthird (by decide) rfl⟩

end ProseWrap
