import ProseWrap.Layout.Token
import ProseWrap.Proofs.Fragments

/-!
# Tokens and the text they come from

The tokens of a text, written one after the other, are the text without its
gaps, and in which emphasis that was taken apart has more markers
(`tokenize_without`). A text that begins with something other than a gap has
tokens (`tokenize_ne_nil`), and every token has a character that is no gap
(`ink_of_mem_tokenize`) and none that is not in the text
(`mem_of_mem_tokenize`).
-/

namespace ProseWrap

namespace Draft

/-- What a draft has read: its words and the characters of the next one. -/
def written (draft : Draft) : Text := draft.words.reverse.flatMap Word.text ++ draft.current.reverse

@[simp] theorem written_empty : empty.written = [] := rfl

theorem written_addChar (draft : Draft) (c : Char) :
    (draft.addChar c).written = draft.written ++ [c] := by
  simp [written, addChar]

theorem written_addPiece (draft : Draft) (piece : Text) :
    (draft.addPiece piece).written = draft.written ++ piece := by
  simp [written, addPiece]

theorem written_finish (draft : Draft) (sentenceEnd : Bool) :
    (draft.finish sentenceEnd).written = draft.written := by
  unfold finish
  split
  · rename_i hempty
    have hcurrent := List.isEmpty_iff.mp hempty
    split
    · rename_i last before hwords
      simp [written, hwords, hcurrent]
    · rename_i hwords
      simp [written, hwords, hcurrent, empty]
  · simp [written]

theorem written_ite_finish (draft : Draft) (ended : Bool) :
    (if ended then draft.finish true else draft).written = draft.written := by
  split
  · exact written_finish draft true
  · rfl

@[simp] theorem finish_current (draft : Draft) (sentenceEnd : Bool) :
    (draft.finish sentenceEnd).current = [] := by
  unfold finish
  split
  · split <;> rfl
  · rfl

theorem written_addPieces (draft : Draft) (pieces : List Text) :
    (draft.addPieces pieces).written = draft.written ++ pieces.flatten := by
  have hrest : ∀ (rest : List Text) (d : Draft),
      (rest.foldl (fun d more => (d.finish true).addPiece more) d).written = d.written ++ rest.flatten := by
    intro rest
    induction rest with
    | nil => simp
    | cons piece rest ih =>
      intro d
      rw [List.foldl_cons, ih, written_addPiece, written_finish, List.flatten_cons, List.append_assoc]
  cases pieces with
  | nil => simp [addPieces]
  | cons piece rest => rw [addPieces, hrest, written_addPiece, List.flatten_cons, List.append_assoc]

end Draft

/-! ## Words -/

theorem treeAt?_eq_some {i : Nat} {trees : List (Span × Forest)} {tree : Span × Forest}
    (h : treeAt? i trees = some tree) : trees = tree :: trees.drop 1 ∧ tree.1.start = i := by
  cases trees with
  | nil => cases h
  | cons other trees =>
    simp only [treeAt?] at h
    split at h
    · cases h
      exact ⟨rfl, by assumption⟩
    · cases h

theorem mem_of_treeAt? {i : Nat} {trees : List (Span × Forest)} {tree : Span × Forest}
    (h : treeAt? i trees = some tree) : tree ∈ trees ∧ tree.1.start = i := by
  obtain ⟨htrees, hstart⟩ := treeAt?_eq_some h
  rw [htrees]
  exact ⟨List.mem_cons_self, hstart⟩

variable {set : Abbreviations} {mode : SentenceHandling} {text : Text}

/-- Reading on adds to what has been read. -/
theorem written_prefix_wordsFrom (trees : List (Span × Forest)) (ends : List Nat) (resume i : Nat)
    (draft : Draft) (rest : Text) :
    draft.written <+: (wordsFrom set mode text trees ends resume i draft rest).written := by
  fun_induction wordsFrom set mode text trees ends resume i draft rest with
  | case1 trees ends resume i draft =>
    exact ⟨[], by rw [List.append_nil, Draft.written_finish]⟩
  | case2 trees ends resume i draft c rest _ ih => exact ih
  | case3 trees ends resume i draft c rest _ left ended draft' span children _ ih =>
    have hended : draft'.written = draft.written := Draft.written_ite_finish draft ended
    refine List.IsPrefix.trans ?_ ih
    rw [Draft.written_addPieces, hended]
    exact List.prefix_append _ _
  | case4 trees ends resume i draft c rest _ left ended draft' _ draft'' ih =>
    have hended : draft'.written = draft.written := Draft.written_ite_finish draft ended
    refine List.IsPrefix.trans ?_ ih
    simp only [draft'']
    split
    · exact ⟨[], by rw [List.append_nil, Draft.written_finish, hended]⟩
    · rw [Draft.written_addChar, hended]
      exact List.prefix_append _ _

theorem wordsFrom_current (trees : List (Span × Forest)) (ends : List Nat) (resume i : Nat)
    (draft : Draft) (rest : Text) :
    (wordsFrom set mode text trees ends resume i draft rest).current = [] := by
  fun_induction wordsFrom set mode text trees ends resume i draft rest <;> simp_all

/-- The pieces of a span hold what the span holds, as far as `p` tells. -/
def KeepsPieces (set : Abbreviations) (mode : SentenceHandling) (text : Text) (p : Char → Bool)
    (tree : Span × Forest) : Prop :=
  tree.1.start < tree.1.stop ∧
    (spanPieces set mode text tree.1 tree.2).flatMap (Text.without p) =
      Text.without p (Text.slice text tree.1.start tree.1.stop)

/-- From offset `resume` on, nothing but what `p` holds of is lost, repeated or
moved. -/
theorem wordsFrom_without {p : Char → Bool} (hgap : ∀ c, Text.isGap c → p c)
    (trees : List (Span × Forest)) (htrees : ∀ tree ∈ trees, KeepsPieces set mode text p tree)
    (ends : List Nat) (resume i : Nat) (draft : Draft) (rest : Text) (hrest : text.drop i = rest) :
    Text.without p (wordsFrom set mode text trees ends resume i draft rest).written =
      Text.without p draft.written ++ Text.without p (rest.drop (resume - i)) := by
  fun_induction wordsFrom set mode text trees ends resume i draft rest with
  | case1 trees ends resume i draft => simp [Draft.written_finish]
  | case2 trees ends resume i draft c rest hlt ih =>
    rw [ih htrees (Text.drop_add_one hrest),
      show resume - i = resume - (i + 1) + 1 by omega, List.drop_succ_cons]
  | case3 trees ends resume i draft c rest hlt left ended draft' span children htree ih =>
    have hended : draft'.written = draft.written := Draft.written_ite_finish draft ended
    obtain ⟨hmem, hstart⟩ := mem_of_treeAt? htree
    obtain ⟨hne, hpieces⟩ := htrees _ hmem
    simp only at hstart hne hpieces
    have hsub : ∀ tree ∈ trees.drop 1, KeepsPieces set mode text p tree :=
      fun tree ht => htrees tree (List.mem_of_mem_drop ht)
    -- the span and what comes after it are the text from `i` on
    have hcut : Text.slice text i span.stop ++ rest.drop (span.stop - (i + 1)) = c :: rest := by
      rw [Text.slice, hrest, show span.stop - i = span.stop - (i + 1) + 1 by omega, List.take_succ_cons,
        List.cons_append, List.take_append_drop]
    rw [ih hsub (Text.drop_add_one hrest), Draft.written_addPieces, hended,
      Text.without_append, Text.without_flatten, hpieces, hstart, List.append_assoc,
      ← Text.without_append, hcut, Nat.sub_eq_zero_of_le (by omega), List.drop_zero]
  | case4 trees ends resume i draft c rest hlt left ended draft' htree draft'' ih =>
    have hended : draft'.written = draft.written := Draft.written_ite_finish draft ended
    have hstep : Text.without p draft''.written = Text.without p draft.written ++ Text.without p [c] := by
      simp only [draft'']
      split
      · rename_i hc
        have hnone : Text.without p [c] = [] := Text.without_eq_nil (by simpa using hgap c hc)
        rw [Draft.written_finish, hended, hnone, List.append_nil]
      · rw [Draft.written_addChar, hended, Text.without_append]
    rw [ih htrees (Text.drop_add_one hrest), hstep, List.append_assoc,
      Nat.sub_eq_zero_of_le (show resume ≤ i by omega), Nat.sub_eq_zero_of_le (show resume ≤ i + 1 by omega),
      List.drop_zero, List.drop_zero, ← Text.without_cons]

theorem flatMap_text_words (set : Abbreviations) (mode : SentenceHandling) (text : Text) :
    ∃ ends, (words set mode text).flatMap Word.text =
      (wordsFrom set mode text (Forest.ofText text).trees ends 0 0 .empty text).written := by
  refine ⟨if mode = .ignored then []
    else Sentence.boundaries set text (Forest.ofText text).roots 0 text.length, ?_⟩
  rw [words, Draft.written, wordsFrom_current, List.reverse_nil, List.append_nil]

/-- The pieces of every span of a text hold what it holds, but for blanks and
markers if emphasis is taken apart. -/
theorem keepsPieces_ofText {p : Char → Bool}
    (hsplit : mode = .split → (∀ c, Text.isBlank c → p c) ∧ ∀ marker : Marker, p marker.toChar) :
    ∀ tree ∈ (Forest.ofText text).trees, KeepsPieces set mode text p tree := by
  intro tree ht
  obtain ⟨hne, -, hmarked⟩ := Forest.trees_ofText ht
  refine ⟨hne, ?_⟩
  unfold spanPieces
  split
  · rename_i hmode
    exact Sentence.fragments_without (hsplit hmode).1 (hsplit hmode).2 hmarked
  · simp

theorem words_without {p : Char → Bool} (hgap : ∀ c, Text.isGap c → p c)
    (hsplit : mode = .split → (∀ c, Text.isBlank c → p c) ∧ ∀ marker : Marker, p marker.toChar) :
    Text.without p ((words set mode text).flatMap Word.text) = Text.without p text := by
  obtain ⟨ends, hwords⟩ := flatMap_text_words set mode text
  rw [hwords, wordsFrom_without hgap _ (keepsPieces_ofText hsplit) ends 0 0 .empty text rfl]
  simp

/-! ## Pieces of spans -/

theorem spanPieces_ne_nil (set : Abbreviations) (mode : SentenceHandling) (text : Text) (span : Span)
    (children : Forest) : spanPieces set mode text span children ≠ [] := by
  unfold spanPieces
  split
  · exact Sentence.fragments_ne_nil set text span children
  · exact List.cons_ne_nil _ _

/-- The pieces of a span begin with something other than a gap. -/
theorem head?_of_mem_spanPieces {tree : Span × Forest} (ht : tree ∈ (Forest.ofText text).trees)
    {piece : Text} (h : piece ∈ spanPieces set mode text tree.1 tree.2) :
    ∃ c, piece.head? = some c ∧ Text.isGap c = false := by
  obtain ⟨hlt, ⟨c, hget, hc⟩, hmarked⟩ := Forest.trees_ofText ht
  refine ⟨c, ?_, hc⟩
  unfold spanPieces at h
  split at h
  · rw [Sentence.head?_of_mem_fragments hlt hmarked h, hget]
  · rw [List.mem_singleton.mp h, Text.head?_slice _ hlt, hget]

theorem mem_of_mem_spanPieces {span : Span} {children : Forest} {piece : Text}
    (h : piece ∈ spanPieces set mode text span children) {c : Char} (hc : c ∈ piece) : c ∈ text := by
  unfold spanPieces at h
  split at h
  · exact Sentence.mem_of_mem_fragments h hc
  · exact (Text.slice_sublist text _ _).subset (List.mem_singleton.mp h ▸ hc)

/-! ## What words are made of -/

theorem flatMap_text_words_ne_nil {c : Char} {rest : Text} (hc : Text.isGap c = false) :
    (words set mode (c :: rest)).flatMap Word.text ≠ [] := by
  obtain ⟨ends, hwords⟩ := flatMap_text_words set mode (c :: rest)
  rw [hwords, wordsFrom]
  simp only [Nat.lt_irrefl, if_false]
  -- the first character, or the span that it begins, is in the first word
  split
  · rename_i span children htree
    obtain ⟨hmem, -⟩ := mem_of_treeAt? htree
    have hpieces : (spanPieces set mode (c :: rest) span children).flatten ≠ [] := by
      obtain ⟨piece, others, hcons⟩ := List.exists_cons_of_ne_nil
        (spanPieces_ne_nil set mode (c :: rest) span children)
      obtain ⟨d, hd, -⟩ := head?_of_mem_spanPieces hmem (hcons ▸ List.mem_cons_self)
      obtain ⟨more, rfl⟩ := List.head?_eq_some_iff.mp hd
      rw [hcons]
      exact List.cons_ne_nil _ _
    refine List.IsPrefix.ne_nil (written_prefix_wordsFrom ..) ?_
    rw [Draft.written_addPieces]
    exact List.append_ne_nil_of_right_ne_nil _ hpieces
  · refine List.IsPrefix.ne_nil (written_prefix_wordsFrom ..) ?_
    rw [if_neg (by simp [hc]), Draft.written_addChar]
    simp

/-! ## Properties of words -/

section

variable {P : Text → Prop} (happend : ∀ {a b : Text}, P a → P b → P (a ++ b))

/-- Every word of a draft has a property, and so has the current one unless it
is empty. -/
structure Draft.Holds (P : Text → Prop) (draft : Draft) : Prop where
  words : ∀ word ∈ draft.words, P word.text
  current : draft.current ≠ [] → P draft.current.reverse

theorem Draft.Holds.finish {draft : Draft} (h : draft.Holds P) (sentenceEnd : Bool) :
    (draft.finish sentenceEnd).Holds P := by
  refine ⟨fun word hw => ?_, by simp⟩
  unfold Draft.finish at hw
  split at hw
  · split at hw
    · rename_i last before hwords
      rcases List.mem_cons.mp hw with rfl | hw
      · exact h.words last (hwords ▸ List.mem_cons_self)
      · exact h.words word (hwords ▸ List.mem_cons_of_mem _ hw)
    · cases hw
  · rename_i hne
    rcases List.mem_cons.mp hw with rfl | hw
    · exact h.current (by simpa using hne)
    · exact h.words word hw

include happend

theorem Draft.Holds.addPiece {draft : Draft} (h : draft.Holds P) {piece : Text} (hp : P piece) :
    (draft.addPiece piece).Holds P := by
  refine ⟨h.words, fun _ => ?_⟩
  rw [Draft.addPiece, List.reverse_append, List.reverse_reverse]
  by_cases hnil : draft.current = []
  · rwa [hnil]
  · exact happend (h.current hnil) hp

theorem Draft.Holds.addPieces {draft : Draft} (h : draft.Holds P) {pieces : List Text}
    (hp : ∀ piece ∈ pieces, P piece) : (draft.addPieces pieces).Holds P := by
  cases pieces with
  | nil => exact h
  | cons first rest =>
    have hfirst := h.addPiece happend (hp first List.mem_cons_self)
    rw [Draft.addPieces]
    generalize draft.addPiece first = draft at hfirst
    induction rest generalizing draft with
    | nil => exact hfirst
    | cons piece rest ih =>
      refine ih (fun other ho => hp other ?_) _ ((hfirst.finish true).addPiece happend (hp piece (by simp)))
      rcases List.mem_cons.mp ho with rfl | ho
      · exact List.mem_cons_self
      · exact List.mem_cons_of_mem _ (List.mem_cons_of_mem _ ho)

/-- What holds of the pieces of spans and of characters that are no gaps, and
of two texts together if it does of each, holds of every word. -/
theorem holds_wordsFrom (trees : List (Span × Forest))
    (htrees : ∀ tree ∈ trees, ∀ piece ∈ spanPieces set mode text tree.1 tree.2, P piece) (ends : List Nat)
    (resume i : Nat) (draft : Draft) (rest : Text)
    (hrest : ∀ c ∈ rest, Text.isGap c = false → P [c]) (h : draft.Holds P) :
    (wordsFrom set mode text trees ends resume i draft rest).Holds P := by
  have hended {draft : Draft} (h : draft.Holds P) (ended : Bool) :
      (if ended then draft.finish true else draft).Holds P := by
    split
    · exact h.finish true
    · exact h
  fun_induction wordsFrom set mode text trees ends resume i draft rest with
  | case1 trees ends resume i draft => exact h.finish false
  | case2 trees ends resume i draft c rest _ ih =>
    exact ih htrees (fun d hd => hrest d (List.mem_cons_of_mem _ hd)) h
  | case3 trees ends resume i draft c rest _ left ended draft' span children htree ih =>
    refine ih (fun tree ht => htrees tree (List.mem_of_mem_drop ht))
      (fun d hd => hrest d (List.mem_cons_of_mem _ hd)) ?_
    exact (hended h ended).addPieces happend (htrees _ (mem_of_treeAt? htree).1)
  | case4 trees ends resume i draft c rest _ left ended draft' _ draft'' ih =>
    refine ih htrees (fun d hd => hrest d (List.mem_cons_of_mem _ hd)) ?_
    simp only [draft'']
    split
    · exact (hended h ended).finish false
    · rename_i hc
      have hchar := hrest c List.mem_cons_self (by simpa using hc)
      exact ⟨(hended h ended).words, ((hended h ended).addPiece happend hchar).current⟩

end

/-! ## Glue -/

@[simp] theorem Word.text_append (left right : Word) :
    (left.append right).text = left.text ++ right.text := rfl

/-- What is glued together is written as it was. -/
theorem flatMap_text_glueFrom (out : List Word) (opener : Option Word) (words : List Word) :
    (glueFrom out opener words).flatMap Word.text =
      out.reverse.flatMap Word.text ++ opener.toList.flatMap Word.text ++ words.flatMap Word.text := by
  fun_induction glueFrom out opener words with
  | case1 out opener => cases opener <;> simp
  | case2 word rest last before _ ih => simp [ih]
  | case3 word rest last before _ _ ih => simp [ih]
  | case4 word rest last before _ _ ih => simp [ih]
  | case5 out opener word rest glued hopen _ ih =>
    dsimp only
    rw [if_pos hopen, ih]
    cases opener <;> simp [glued]
  | case6 out opener word rest glued hopen _ ih =>
    dsimp only
    rw [if_neg hopen, ih]
    cases opener <;> simp [glued]

theorem flatMap_text_glue (words : List Word) :
    (glue words).flatMap Word.text = words.flatMap Word.text := by
  rw [glue, flatMap_text_glueFrom]
  simp

theorem forall_glueFrom {P : Text → Prop} (happend : ∀ {a b : Text}, P a → P b → P (a ++ b))
    (out : List Word) (opener : Option Word) (words : List Word) (hout : ∀ word ∈ out, P word.text)
    (hopener : ∀ word ∈ opener, P word.text) (hwords : ∀ word ∈ words, P word.text) :
    ∀ word ∈ glueFrom out opener words, P word.text := by
  have hglue {opener : Option Word} {word : Word} (hopener : ∀ left ∈ opener, P left.text)
      (hword : P word.text) : P ((opener.map fun left => left.append word).getD word).text := by
    cases opener with
    | none => exact hword
    | some left => exact happend (hopener left rfl) hword
  fun_induction glueFrom out opener words with
  | case1 out opener =>
    intro word hw
    rcases List.mem_append.mp (List.mem_reverse.mp hw) with hw | hw
    · exact hopener word (Option.mem_toList.mp hw)
    · exact hout word hw
  | case2 word rest last before _ ih =>
    obtain ⟨hlast, hbefore⟩ := List.forall_mem_cons.mp hout
    obtain ⟨hword, hrest⟩ := List.forall_mem_cons.mp hwords
    exact ih (List.forall_mem_cons.mpr ⟨happend hlast hword, hbefore⟩) (by simp) hrest
  | case3 word rest last before _ _ ih =>
    obtain ⟨hword, hrest⟩ := List.forall_mem_cons.mp hwords
    exact ih hout (by simpa using hword) hrest
  | case4 word rest last before _ _ ih =>
    obtain ⟨hword, hrest⟩ := List.forall_mem_cons.mp hwords
    exact ih (List.forall_mem_cons.mpr ⟨hword, hout⟩) (by simp) hrest
  | case5 out opener word rest glued hopen _ ih =>
    obtain ⟨hword, hrest⟩ := List.forall_mem_cons.mp hwords
    dsimp only
    rw [if_pos hopen]
    exact ih hout (by simpa using hglue hopener hword) hrest
  | case6 out opener word rest glued hopen _ ih =>
    obtain ⟨hword, hrest⟩ := List.forall_mem_cons.mp hwords
    dsimp only
    rw [if_neg hopen]
    exact ih (List.forall_mem_cons.mpr ⟨hglue hopener hword, hout⟩) (by simp) hrest

/-! ## Tokens -/

theorem flatMap_text_tokenize (lengthMode : LengthMode) (set : Abbreviations) (mode : SentenceHandling)
    (text : Text) :
    (tokenize lengthMode set mode text).flatMap Token.text = (words set mode text).flatMap Word.text := by
  rw [tokenize, List.flatMap_map, ← flatMap_text_glue]
  rfl

/-- The tokens of a text hold what it holds but for gaps, and for blanks and
markers if emphasis is taken apart. -/
theorem tokenize_without {p : Char → Bool} (lengthMode : LengthMode) (hgap : ∀ c, Text.isGap c → p c)
    (hsplit : mode = .split → (∀ c, Text.isBlank c → p c) ∧ ∀ marker : Marker, p marker.toChar) :
    (tokenize lengthMode set mode text).flatMap (fun token => Text.without p token.text) =
      Text.without p text := by
  rw [← Text.without_flatMap, flatMap_text_tokenize, words_without hgap hsplit]

/-- A text that does not begin with a gap has tokens. -/
theorem tokenize_ne_nil {c : Char} {rest : Text} (lengthMode : LengthMode) (hc : Text.isGap c = false) :
    tokenize lengthMode set mode (c :: rest) ≠ [] := by
  intro h
  have := flatMap_text_tokenize lengthMode set mode (c :: rest)
  rw [h] at this
  exact flatMap_text_words_ne_nil hc this.symm

/-- What holds of the pieces of spans and of characters that are no gaps, and
of two texts together if it does of each, holds of every word. -/
theorem forall_mem_words {P : Text → Prop} (happend : ∀ {a b : Text}, P a → P b → P (a ++ b))
    (hchar : ∀ c ∈ text, Text.isGap c = false → P [c])
    (hpiece : ∀ tree ∈ (Forest.ofText text).trees,
      ∀ piece ∈ spanPieces set mode text tree.1 tree.2, P piece) :
    ∀ word ∈ words set mode text, P word.text := by
  intro word hw
  have hempty : Draft.empty.Holds P := ⟨by simp [Draft.empty], by simp [Draft.empty]⟩
  exact (holds_wordsFrom happend _ hpiece _ 0 0 .empty text hchar hempty).words word (List.mem_reverse.mp hw)

/-- What holds of every word in this way holds of every token. -/
theorem forall_mem_tokenize {P : Text → Prop} (lengthMode : LengthMode)
    (happend : ∀ {a b : Text}, P a → P b → P (a ++ b))
    (hchar : ∀ c ∈ text, Text.isGap c = false → P [c])
    (hpiece : ∀ tree ∈ (Forest.ofText text).trees,
      ∀ piece ∈ spanPieces set mode text tree.1 tree.2, P piece) :
    ∀ token ∈ tokenize lengthMode set mode text, P token.text := by
  intro token ht
  obtain ⟨word, hw, rfl⟩ := List.mem_map.mp ht
  exact forall_glueFrom happend [] none _ (by simp) (by simp) (forall_mem_words happend hchar hpiece) word hw

/-- Every token has a character that is no gap. -/
theorem ink_of_mem_tokenize {lengthMode : LengthMode} {token : Token}
    (h : token ∈ tokenize lengthMode set mode text) : 0 < Text.ink token.text := by
  refine forall_mem_tokenize (P := fun text => 0 < Text.ink text) lengthMode (fun ha _ => ?_)
    (fun c _ hc => Text.ink_pos List.mem_cons_self hc) (fun tree ht piece hp => ?_) token h
  · rw [Text.ink_append]
    omega
  · obtain ⟨c, hhead, hc⟩ := head?_of_mem_spanPieces ht hp
    exact Text.ink_pos (List.mem_of_mem_head? hhead) hc

/-- The characters of a token are characters of the text. -/
theorem mem_of_mem_tokenize {lengthMode : LengthMode} {token : Token}
    (h : token ∈ tokenize lengthMode set mode text) {c : Char} (hc : c ∈ token.text) : c ∈ text := by
  refine forall_mem_tokenize (P := fun piece => ∀ c ∈ piece, c ∈ text) lengthMode (fun ha hb d hd => ?_)
    (fun d hd _ e he => List.mem_singleton.mp he ▸ hd) (fun tree _ piece hp d hd => ?_) token h c hc
  · exact (List.mem_append.mp hd).elim (ha d) (hb d)
  · exact mem_of_mem_spanPieces hp hd

end ProseWrap
