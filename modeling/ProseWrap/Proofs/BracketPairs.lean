import Mathlib.Data.List.Find
import Mathlib.Data.List.Nodup
import ProseWrap.Proofs.ActiveCharacters

/-!
# Bracket partners by counting

The closing partner of a bracket is found with a stack, in one pass over the
active characters of a text. `Span.partner?` says the same without a stack: the
partner is the first closing bracket behind the opening one such that between
the two just as many brackets are opened as closed
(`bracket_partners_balance`). Brackets that nothing opens, and those that
nothing closes, do not get in the way of the others.

A bracket that lies on the stack below `depth` others is closed by the first
closing bracket that finds all of these closed (`Span.closing`), and up to
there `depth` more brackets are closed than opened
(`Span.closing_activeChars`).
-/

namespace ProseWrap

namespace Span

/-! ## Partners -/

/-- How often a character is active from offset `i` up to offset `j`. -/
def activeCount (text : Text) (c : Char) (i j : Nat) : Nat :=
  (List.range' i (j - i)).countP fun k => isActive text k && text[k]? == some c

/-- The closing partner of the bracket at an offset: the first active closing
bracket behind it such that as many brackets are opened as closed between the
two. -/
def partner? (opener closer : Char) (text : Text) (i : Nat) : Option Nat :=
  if isActive text i && text[i]? == some opener then
    (List.range' (i + 1) (text.length - (i + 1))).find? fun j =>
      isActive text j && text[j]? == some closer &&
        activeCount text opener (i + 1) j == activeCount text closer (i + 1) j
  else none

variable {text : Text} {opener closer : Char}

/-! ## The stack -/

/-- Where a bracket that lies below `depth` others on the stack is closed among
some characters: at the first closing bracket that closes neither one of these
nor one that is opened among the characters. -/
def closing (opener closer : Char) (depth : Nat) : List (Nat × Char) → Option Nat
  | [] => none
  | (i, c) :: rest =>
    if c == opener then closing opener closer (depth + 1) rest
    else if c == closer then
      if depth = 0 then some i else closing opener closer (depth - 1) rest
    else closing opener closer depth rest

/-- A bracket on the stack is closed when as many brackets are closed as lie
above it. -/
theorem lookup_pairsFrom_of_stack {stack : List Nat} {characters : List (Nat × Char)}
    (hnodup : (stack ++ characters.map Prod.fst).Nodup) {depth i : Nat} (hi : stack[depth]? = some i) :
    (pairsFrom opener closer stack characters).lookup i = closing opener closer depth characters := by
  fun_induction pairsFrom opener closer stack characters generalizing depth with
  | case1 stack => rfl
  | case2 stack k c rest hc ih =>
    rw [closing, if_pos hc]
    exact ih (List.nodup_middle.mp hnodup) hi
  | case3 k c rest hopen hc ih => cases hi
  | case4 k c rest hopen hc first outer ih =>
    rw [closing, if_neg hopen, if_pos hc]
    obtain ⟨hfirst, hnodup⟩ := List.nodup_cons.mp hnodup
    cases depth with
    | zero =>
      cases hi
      rw [if_pos rfl, List.lookup_cons_self]
    | succ depth =>
      -- the bracket that is closed here lies above the one in question
      have hne : i ≠ first := fun h => hfirst (List.mem_append_left _ (List.mem_of_getElem? (h ▸ hi)))
      rw [if_neg (by omega), List.lookup_cons, beq_eq_false_iff_ne.mpr hne]
      exact ih (List.nodup_cons.mp (List.nodup_middle.mp hnodup)).2 hi
  | case5 stack k c rest hopen hc ih =>
    rw [closing, if_neg hopen, if_neg hc]
    exact ih (List.nodup_cons.mp (List.nodup_middle.mp hnodup)).2 hi

/-- A bracket that is opened among some characters is closed among those behind
it. -/
theorem lookup_pairsFrom_of_opener {stack : List Nat} {front back : List (Nat × Char)} {i : Nat}
    (hnodup : (stack ++ (front ++ (i, opener) :: back).map Prod.fst).Nodup) :
    (pairsFrom opener closer stack (front ++ (i, opener) :: back)).lookup i = closing opener closer 0 back := by
  generalize hcharacters : front ++ (i, opener) :: back = characters at hnodup ⊢
  have hlater {front rest : List (Nat × Char)} {k : Nat} {c : Char} (hopen : ¬(c == opener) = true)
      (h : front ++ (i, opener) :: back = (k, c) :: rest) : ∃ front, front ++ (i, opener) :: back = rest := by
    cases front with
    | nil =>
      cases h
      exact absurd (beq_self_eq_true opener) hopen
    | cons first front =>
      cases h
      exact ⟨front, rfl⟩
  fun_induction pairsFrom opener closer stack characters generalizing front with
  | case1 stack => simp at hcharacters
  | case2 stack k c rest hc ih =>
    have hnodup := List.nodup_middle.mp hnodup
    cases front with
    | nil =>
      cases hcharacters
      exact lookup_pairsFrom_of_stack hnodup rfl
    | cons first front =>
      cases hcharacters
      exact ih rfl hnodup
  | case3 k c rest hopen hc ih =>
    obtain ⟨front, hrest⟩ := hlater hopen hcharacters
    exact ih hrest (List.nodup_cons.mp hnodup).2
  | case4 k c rest hopen hc first outer ih =>
    obtain ⟨front, hrest⟩ := hlater hopen hcharacters
    obtain ⟨hfirst, hnodup⟩ := List.nodup_cons.mp hnodup
    have hne : i ≠ first := by
      rintro rfl
      exact hfirst (List.mem_append_right _ (List.mem_cons_of_mem _ (by simp [← hrest])))
    rw [List.lookup_cons, beq_eq_false_iff_ne.mpr hne]
    exact ih hrest (List.nodup_cons.mp (List.nodup_middle.mp hnodup)).2
  | case5 stack k c rest hopen hc ih =>
    obtain ⟨front, hrest⟩ := hlater hopen hcharacters
    exact ih hrest (List.nodup_cons.mp (List.nodup_middle.mp hnodup)).2

/-- The first bracket of a pair is an opening one. -/
theorem opener_of_mem_pairsFrom {stack : List Nat} {characters : List (Nat × Char)} {j i : Nat}
    (h : (j, i) ∈ pairsFrom opener closer stack characters) : j ∈ stack ∨ (j, opener) ∈ characters := by
  fun_induction pairsFrom opener closer stack characters with
  | case1 => cases h
  | case2 stack k c rest hc ih =>
    rcases ih h with hstack | hrest
    · rcases List.mem_cons.mp hstack with rfl | hstack
      · exact .inr (beq_iff_eq.mp hc ▸ List.mem_cons_self)
      · exact .inl hstack
    · exact .inr (List.mem_cons_of_mem _ hrest)
  | case3 k c rest _ _ ih => exact (ih h).imp_right (List.mem_cons_of_mem _)
  | case4 k c rest _ _ first outer ih =>
    rcases List.mem_cons.mp h with heq | h
    · cases heq
      exact .inl List.mem_cons_self
    · exact (ih h).imp (List.mem_cons_of_mem _) (List.mem_cons_of_mem _)
  | case5 stack k c rest _ _ ih => exact (ih h).imp_right (List.mem_cons_of_mem _)

/-! ## Counting -/

theorem activeCount_self (text : Text) (c : Char) (i : Nat) : activeCount text c i i = 0 := by
  rw [activeCount, Nat.sub_self]
  rfl

theorem activeCount_step (c : Char) {i j : Nat} (h : i < j) :
    activeCount text c i j =
      activeCount text c (i + 1) j + if isActive text i && text[i]? == some c then 1 else 0 := by
  rw [activeCount, show j - i = j - (i + 1) + 1 by omega, List.range'_succ, List.countP_cons]
  rfl

/-- Whether at an active closing bracket, from offset `i` on, `depth` more
brackets have been closed than opened. -/
def isClosing (opener closer : Char) (text : Text) (depth i j : Nat) : Bool :=
  isActive text j && text[j]? == some closer &&
    depth + activeCount text opener i j == activeCount text closer i j

/-- The search for a closing bracket goes on behind a character with the depth
that it leads to. -/
theorem find?_isClosing_later {depth depth' i n : Nat}
    (h : depth + (if isActive text i && text[i]? == some opener then 1 else 0) =
      depth' + if isActive text i && text[i]? == some closer then 1 else 0) :
    (List.range' (i + 1) n).find? (isClosing opener closer text depth i) =
      (List.range' (i + 1) n).find? (isClosing opener closer text depth' (i + 1)) := by
  refine List.find?_congr fun j hj => ?_
  have hlt : i < j := (List.mem_range'_1.mp hj).1
  rw [isClosing, isClosing, activeCount_step opener hlt, activeCount_step closer hlt]
  congr 1
  rw [Bool.eq_iff_iff, beq_iff_eq, beq_iff_eq]
  omega

/-- Among the active characters of a stretch of text, the closing bracket below
`depth` open ones is the first one up to which `depth` more brackets are closed
than opened. -/
theorem closing_activeChars (hne : opener ≠ closer) (depth i n : Nat) (hn : i + n ≤ text.length) :
    closing opener closer depth (activeChars text i n) =
      (List.range' i n).find? (isClosing opener closer text depth i) := by
  induction n generalizing depth i with
  | zero => rfl
  | succ n ih =>
    have hrest (depth : Nat) := ih depth (i + 1) (by omega)
    rw [List.range'_succ]
    cases hactive : isActive text i with
    | false =>
      rw [activeChars_of_inactive hactive, List.find?_cons_of_neg (by simp [isClosing, hactive]), hrest]
      exact (find?_isClosing_later (by simp [hactive])).symm
    | true =>
      obtain ⟨c, hget⟩ : ∃ c, text[i]? = some c := ⟨_, List.getElem?_eq_getElem (by omega)⟩
      rw [activeChars_of_active hactive hget, closing]
      by_cases hopen : c = opener
      · subst hopen
        rw [if_pos (beq_self_eq_true c), List.find?_cons_of_neg (by simp [isClosing, hget, hne]), hrest]
        exact (find?_isClosing_later (by simp [hactive, hget, hne])).symm
      · rw [if_neg (by simpa using hopen)]
        by_cases hclose : c = closer
        · subst hclose
          rw [if_pos (beq_self_eq_true c)]
          by_cases hdepth : depth = 0
          · rw [if_pos hdepth, List.find?_cons_of_pos (by simp [isClosing, hactive, hget, hdepth, activeCount_self])]
          · rw [if_neg hdepth, List.find?_cons_of_neg (by simp [isClosing, hdepth, activeCount_self]), hrest]
            refine (find?_isClosing_later ?_).symm
            simp only [hactive, hget, Bool.true_and, beq_iff_eq, Option.some.injEq, hopen, if_false, if_true]
            omega
        · rw [if_neg (by simpa using hclose), List.find?_cons_of_neg (by simp [isClosing, hget, hclose]), hrest]
          exact (find?_isClosing_later (by simp [hget, hopen, hclose])).symm

/-! ## The pass over a text -/

theorem activeChars_append (text : Text) (i m n : Nat) :
    activeChars text i (m + n) = activeChars text i m ++ activeChars text (i + m) n := by
  rw [activeChars, ← List.range'_append_1, List.filterMap_append]
  rfl

theorem mem_activeChars {entry : Nat × Char} {i n : Nat} (h : entry ∈ activeChars text i n) :
    isActive text entry.1 = true ∧ text[entry.1]? = some entry.2 := by
  obtain ⟨k, -, hk⟩ := List.mem_filterMap.mp h
  split at hk
  · rename_i hactive
    obtain ⟨c, hget, rfl⟩ := Option.map_eq_some_iff.mp hk
    exact ⟨hactive, hget⟩
  · cases hk

theorem nodup_active (codes : List Span) (text : Text) : ((active codes text).map Prod.fst).Nodup :=
  List.pairwise_map.mpr ((pairwise_activeFrom codes 0 0 text).2.imp Nat.ne_of_lt)

/-- The stack finds the partners that counting finds. -/
theorem lookup_pairsFrom_active (hne : opener ≠ closer) (text : Text) (i : Nat) :
    (pairsFrom opener closer [] (active (codeSpans text) text)).lookup i = partner? opener closer text i := by
  have hnodup := nodup_active (codeSpans text) text
  rw [active_eq_activeChars] at hnodup ⊢
  unfold partner?
  split
  · rename_i hi
    rw [Bool.and_eq_true, beq_iff_eq] at hi
    obtain ⟨hactive, hget⟩ := hi
    obtain ⟨hlt, -⟩ := List.getElem?_eq_some_iff.mp hget
    have hchars : activeChars text 0 text.length =
        activeChars text 0 i ++ (i, opener) :: activeChars text (i + 1) (text.length - (i + 1)) := by
      rw [show text.length = i + (text.length - (i + 1) + 1) by omega, activeChars_append, Nat.zero_add,
        activeChars_of_active hactive hget, ← show text.length = i + (text.length - (i + 1) + 1) by omega]
    rw [hchars] at hnodup ⊢
    rw [lookup_pairsFrom_of_opener hnodup, closing_activeChars hne _ _ _ (by omega)]
    refine List.find?_congr fun j _ => ?_
    rw [isClosing, Nat.zero_add]
  · rename_i hi
    refine List.lookup_eq_none_iff.mpr fun pair hpair => ?_
    rcases opener_of_mem_pairsFrom hpair with hstack | hmem
    · cases hstack
    · obtain ⟨hactive, hget⟩ := mem_activeChars hmem
      refine bne_iff_ne.mpr ?_
      rintro rfl
      exact hi (by rw [hactive, hget, beq_self_eq_true]; rfl)

end Span

/-- The closing partner of a bracket is the first active closing bracket behind
it such that as many brackets are opened as closed between the two, and a
bracket that is not active has none. -/
theorem bracket_partners_balance (text : Text) (i : Nat) :
    (Site.ofText text).brackets.squareClose? i = Span.partner? '[' ']' text i ∧
      (Site.ofText text).brackets.roundClose? i = Span.partner? '(' ')' text i :=
  ⟨Span.lookup_pairsFrom_active (by decide) text i, Span.lookup_pairsFrom_active (by decide) text i⟩

end ProseWrap
