import ProseWrap.Proofs.Pairing

/-!
# The spans of a text form a forest

Leaf spans and emphasis never cross: of two spans of a text, one comes before
the other or lies inside its content (`pairwise_spans`). So in the order of the
text a span is followed by what it encloses and then by what comes after it
(`pairwise_sort_spans`), and dividing such a list at the end of each span puts
every span under the one that encloses it (`nested_ofSorted`).
`spans_form_forest` says this of the forest of a text.
-/

namespace ProseWrap

namespace Span

/-! ## The order of the text -/

theorem comesBefore_iff {a b : Span} :
    a.comesBefore b = true ↔ a.start < b.start ∨ a.start = b.start ∧ b.stop ≤ a.stop := by
  simp [comesBefore]

/-- Sorting puts spans into the order of the text. -/
theorem pairwise_sort (spans : List Span) : (sort spans).Pairwise fun a b => a.comesBefore b = true := by
  have htotal : Std.Total fun a b : Span => a.comesBefore b = true := ⟨fun a b => by
    rw [comesBefore_iff, comesBefore_iff]
    omega⟩
  have htrans : IsTrans Span fun a b => a.comesBefore b = true := ⟨fun a b c hab hbc => by
    rw [comesBefore_iff] at *
    omega⟩
  rw [sort, sortBy_eq_insertionSort]
  exact List.pairwise_insertionSort _ spans

/-! ## Spans do not cross -/

/-- One of two spans comes before the other or lies inside its content. -/
def Uncrossed (a b : Span) : Prop := (a.stop ≤ b.start ∨ a.LiesIn b) ∨ (b.stop ≤ a.start ∨ b.LiesIn a)

theorem Uncrossed.symm {a b : Span} (h : a.Uncrossed b) : b.Uncrossed a := Or.symm h

theorem pairwise_leaf_starts (text : Text) :
    ((leaves text).map fun leaf => (leaf.start, leaf.stop)).Pairwise fun a b => a.1 ≤ b.1 := by
  refine List.pairwise_map.mpr ((pairwise_leaves text).imp_of_mem fun {a b} ha _ hab => ?_)
  have := (isLeaf_of_mem_leaves ha).proper.start_lt
  omega

/-- A leaf span does not cross emphasis, since it touches no marker. -/
theorem uncrossed_of_clear {leaf span : Span} {ranges : List (Nat × Nat)} (hspan : span.Clear ranges)
    (hleaf : (leaf.start, leaf.stop) ∈ ranges) (hemphasis : span.isEmphasis = true) : leaf.Uncrossed span := by
  obtain ⟨hopener, hcloser⟩ := hspan _ hleaf
  rcases hopener with hafter | hbefore
  · rcases hcloser with hlater | hinside
    · exact .inr (.inl hlater)
    · exact .inl (.inr ⟨hemphasis, hafter, hinside⟩)
  · exact .inl (.inl hbefore)

/-- The spans of a text do not cross. -/
theorem pairwise_spans (text : Text) :
    (leaves text ++ emphasisAround text (leaves text)).Pairwise Uncrossed := by
  obtain ⟨hnested, hclear⟩ := pairwise_emphasis text (pairwise_leaf_starts text)
  refine List.pairwise_append.mpr ⟨?_, hnested.imp .inl, fun leaf hl span hs => ?_⟩
  · exact (pairwise_leaves text).imp fun hab => .inl (.inl hab)
  · obtain ⟨hemphasis, hspan⟩ := hclear span hs
    exact uncrossed_of_clear hspan (List.mem_map_of_mem hl) hemphasis

/-- Every span of a text lies in it, and emphasis begins before its content. -/
theorem proper_of_mem_spans {text : Text} {span : Span}
    (h : span ∈ leaves text ++ emphasisAround text (leaves text)) :
    span.Proper text.length ∧ (span.isEmphasis = true → span.start < span.contentStart) := by
  rcases List.mem_append.mp h with h | h
  · have hleaf := isLeaf_of_mem_leaves h
    exact ⟨hleaf.proper, by simp [hleaf.isEmphasis]⟩
  · have hmarked := marked_of_mem_emphasis h
    exact ⟨hmarked.proper, fun _ => hmarked.start_lt⟩

/-- What is emphasis among the spans of a text is no leaf span. -/
theorem mem_emphasis_of_mem_spans {text : Text} {span : Span}
    (h : span ∈ leaves text ++ emphasisAround text (leaves text)) (hkind : span.isEmphasis = true) :
    span ∈ emphasisAround text (leaves text) := by
  refine (List.mem_append.mp h).resolve_left fun hleaf => ?_
  rw [(isLeaf_of_mem_leaves hleaf).isEmphasis] at hkind
  cases hkind

theorem mem_leaves_of_mem_spans {text : Text} {span : Span}
    (h : span ∈ leaves text ++ emphasisAround text (leaves text)) (hkind : span.isEmphasis = false) :
    span ∈ leaves text := by
  refine (List.mem_append.mp h).resolve_right fun hemphasis => ?_
  rw [((pairwise_emphasis text (pairwise_leaf_starts text)).2 span hemphasis).1] at hkind
  cases hkind

/-- In the order of the text, a span that is not enclosed by the one before it
comes after it. -/
theorem pairwise_sort_spans (text : Text) :
    (sort (leaves text ++ emphasisAround text (leaves text))).Pairwise
      fun a b => a.stop ≤ b.start ∨ b.LiesIn a := by
  have hspans := (sort_perm _).symm.pairwise (pairwise_spans text) fun h => Uncrossed.symm h
  refine (hspans.and (pairwise_sort _)).imp_of_mem fun {a b} ha hb hab => ?_
  obtain ⟨-, ha⟩ := proper_of_mem_spans ((sort_perm _).mem_iff.mp ha)
  obtain ⟨hproper, hb⟩ := proper_of_mem_spans ((sort_perm _).mem_iff.mp hb)
  obtain ⟨huncrossed, horder⟩ := hab
  have hnonempty := hproper.start_lt
  rw [comesBefore_iff] at horder
  rcases huncrossed with (hbefore | hin) | (hafter | hin)
  · exact .inl hbefore
  · have := hb hin.isEmphasis
    have := hin.le_start
    omega
  · omega
  · exact .inr hin

end Span

/-! ## Forests -/

namespace Forest

/-- Trees side by side, one after the other, with the children of each inside
its content; no span is empty. -/
def Nested : Forest → Prop
  | nil => True
  | cons span children rest =>
    span.start < span.stop ∧ (∀ child ∈ children.roots, child.LiesIn span) ∧
      (∀ next ∈ rest.roots, span.stop ≤ next.start) ∧ children.Nested ∧ rest.Nested

theorem roots_divide_fst (stop : Nat) (forest : Forest) :
    ∀ root ∈ (forest.divide stop).1.roots, root ∈ forest.roots ∧ root.start < stop := by
  induction forest with
  | nil => simp [divide, roots]
  | cons span children rest _ ih =>
    simp only [divide]
    split
    · rename_i hlt
      refine List.forall_mem_cons.mpr ⟨⟨List.mem_cons_self, hlt⟩, fun root hr => ?_⟩
      exact ⟨List.mem_cons_of_mem _ (ih root hr).1, (ih root hr).2⟩
    · simp [roots]

/-- Where trees come one after the other, those after the first that starts
past an offset do so too. -/
theorem roots_divide_snd (stop : Nat) {forest : Forest} (h : forest.Nested) :
    ∀ root ∈ (forest.divide stop).2.roots, stop ≤ root.start := by
  induction forest with
  | nil => simp [divide, roots]
  | cons span children rest _ ih =>
    obtain ⟨hlt, -, hnext, -, hrest⟩ := h
    simp only [divide]
    split
    · exact ih hrest
    · rename_i hstop
      refine List.forall_mem_cons.mpr ⟨by omega, fun root hr => ?_⟩
      have := hnext root hr
      omega

theorem Nested.divide {forest : Forest} (h : forest.Nested) (stop : Nat) :
    (forest.divide stop).1.Nested ∧ (forest.divide stop).2.Nested := by
  induction forest with
  | nil => exact ⟨trivial, trivial⟩
  | cons span children rest _ ih =>
    obtain ⟨hlt, hchildren, hnext, hinner, hrest⟩ := h
    simp only [Forest.divide]
    split
    · obtain ⟨hfront, hback⟩ := ih hrest
      refine ⟨⟨hlt, hchildren, fun next hn => hnext next ?_, hinner, hfront⟩, hback⟩
      exact (roots_divide_fst stop rest next hn).1
    · exact ⟨trivial, hlt, hchildren, hnext, hinner, hrest⟩

/-- Spans in the order of the text, each followed by what it encloses and then
by what comes after it, make a nested forest. -/
theorem nested_ofSorted {spans : List Span} (hproper : ∀ span ∈ spans, span.start < span.stop)
    (h : spans.Pairwise fun a b => a.stop ≤ b.start ∨ b.LiesIn a) : (ofSorted spans).Nested := by
  induction spans with
  | nil => trivial
  | cons first rest ih =>
    obtain ⟨hfirst, hrest⟩ := List.pairwise_cons.mp h
    obtain ⟨hlt, hproper⟩ := List.forall_mem_cons.mp hproper
    have hnested := ih hproper hrest
    obtain ⟨hfront, hback⟩ := hnested.divide first.stop
    refine ⟨hlt, fun child hc => ?_, roots_divide_snd first.stop hnested, hfront, hback⟩
    obtain ⟨hroot, hlt⟩ := roots_divide_fst first.stop _ child hc
    rcases hfirst child (mem_roots_ofSorted hroot) with hafter | hin
    · omega
    · exact hin

theorem Nested.pairwise_roots {forest : Forest} (h : forest.Nested) :
    forest.roots.Pairwise fun a b => a.start ≤ b.start ∧ a.stop ≤ b.start := by
  induction forest with
  | nil => exact .nil
  | cons span children rest _ ih =>
    obtain ⟨hlt, -, hnext, -, hrest⟩ := h
    refine List.pairwise_cons.mpr ⟨fun next hn => ?_, ih hrest⟩
    have := hnext next hn
    omega

/-- What holds of the top of a nested forest holds below every span of it. -/
theorem Nested.of_mem_flatten {forest : Forest} (h : forest.Nested) {tree : Span × Forest}
    (ht : tree ∈ forest.flatten) : tree.2.Nested ∧ ∀ child ∈ tree.2.roots, child.LiesIn tree.1 := by
  induction forest with
  | nil => cases ht
  | cons span children rest ihchildren ihrest =>
    obtain ⟨-, hchildren, -, hinner, hrest⟩ := h
    rcases List.mem_cons.mp ht with rfl | ht
    · exact ⟨hinner, hchildren⟩
    · rcases List.mem_append.mp ht with ht | ht
      · exact ihchildren hinner ht
      · exact ihrest hrest ht

theorem flatten_divide (stop : Nat) (forest : Forest) :
    (forest.divide stop).1.flatten ++ (forest.divide stop).2.flatten = forest.flatten := by
  induction forest with
  | nil => rfl
  | cons span children rest _ ih =>
    simp only [divide]
    split
    · simp [flatten, ih]
    · rfl

/-- A forest of spans holds each of them once, in the order in which they were
given. -/
theorem flatten_ofSorted (spans : List Span) : (ofSorted spans).flatten.map Prod.fst = spans := by
  induction spans with
  | nil => rfl
  | cons first rest ih =>
    rw [ofSorted, List.foldr_cons, enclose, flatten, flatten_divide, List.map_cons]
    exact congrArg (first :: ·) ih

theorem exists_mem_roots {forest : Forest} (h : forest ≠ nil) : ∃ root, root ∈ forest.roots := by
  cases forest with
  | nil => exact absurd rfl h
  | cons span => exact ⟨span, List.mem_cons_self⟩

end Forest

/-- The spans of a text form a forest. Every span lies in the text, is not
empty, and has its content inside itself. Spans side by side, at the top or
under the same span, are disjoint and in the order of the text. What is under a
span lies inside its content, and only emphasis has anything under it. The
spans are the leaf spans and the emphasis around them, each of them once, and
no two of them cross. -/
theorem spans_form_forest (text : Text) :
    let forest := Forest.ofText text
    let spans := forest.flatten.map Prod.fst
    (∀ span ∈ spans, span.start ≤ span.contentStart ∧ span.contentStart ≤ span.contentStop ∧
        span.contentStop ≤ span.stop ∧ span.stop ≤ text.length ∧ span.start < span.stop) ∧
      (∀ siblings ∈ forest :: forest.flatten.map Prod.snd,
        siblings.roots.Pairwise fun a b => a.start ≤ b.start ∧ a.stop ≤ b.start) ∧
      (∀ tree ∈ forest.flatten, ∀ child ∈ tree.2.roots,
        tree.1.contentStart ≤ child.start ∧ child.stop ≤ tree.1.contentStop) ∧
      (∀ tree ∈ forest.flatten, tree.2 ≠ .nil → tree.1.isEmphasis = true) ∧
      spans.Perm (Span.leaves text ++ Span.emphasisAround text (Span.leaves text)) ∧
      spans.Pairwise fun a b => a.stop ≤ b.start ∨ a.contentStart ≤ b.start ∧ b.stop ≤ a.contentStop := by
  intro forest spans
  have hspans : spans = Span.sort (Span.leaves text ++ Span.emphasisAround text (Span.leaves text)) :=
    Forest.flatten_ofSorted _
  have hproper : ∀ span ∈ spans, span.Proper text.length := by
    intro span hs
    rw [hspans] at hs
    exact (Span.proper_of_mem_spans ((Span.sort_perm _).mem_iff.mp hs)).1
  have hsorted := Span.pairwise_sort_spans text
  have hnested : forest.Nested :=
    Forest.nested_ofSorted (fun span hs => (hproper span (hspans ▸ hs)).start_lt) hsorted
  refine ⟨fun span hs => ?_, fun siblings hsiblings => ?_, fun tree ht child hc => ?_,
    fun tree ht hne => ?_, ?_, ?_⟩
  · obtain ⟨hstart, hcontent, hstop, hlength, hlt⟩ := hproper span hs
    exact ⟨hstart, hcontent, hstop, hlength, hlt⟩
  · have hsiblings : siblings.Nested := by
      rcases List.mem_cons.mp hsiblings with rfl | hsiblings
      · exact hnested
      · obtain ⟨tree, ht, rfl⟩ := List.mem_map.mp hsiblings
        exact (hnested.of_mem_flatten ht).1
    exact hsiblings.pairwise_roots
  · obtain ⟨-, hstart, hstop⟩ := (hnested.of_mem_flatten ht).2 child hc
    exact ⟨hstart, hstop⟩
  · obtain ⟨child, hc⟩ := Forest.exists_mem_roots hne
    exact ((hnested.of_mem_flatten ht).2 child hc).isEmphasis
  · rw [hspans]
    exact Span.sort_perm _
  · rw [hspans]
    exact hsorted.imp (Or.imp_right fun hin => ⟨hin.le_start, hin.stop_le⟩)

end ProseWrap
