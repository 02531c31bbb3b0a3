import ProseWrap.Table
import ProseWrap.Text.Basic

/-!
# Searching a text

`indexOf` is the first place at or after an offset where a needle stands. A
`Finder` answers the same question and remembers, for each needle, the last
answer: as long as the questions move forward through the text, each stretch of
it is searched once. What a finder remembers is true of its text, so its
answers are those of `indexOf` (`find_fst`).
-/

namespace ProseWrap.Text

variable {α : Type} [DecidableEq α]

/-- The first place at which `needle` stands in `rest`, where `rest` begins at
offset `k`. -/
def searchAt (needle : List α) (k : Nat) : List α → Option Nat
  | [] => if needle.isEmpty then some k else none
  | c :: rest => if needle.isPrefixOf (c :: rest) then some k else searchAt needle (k + 1) rest

/-- The first offset not before `origin` at which `needle` stands in `text`. An
origin before the text means its start; the empty needle stands everywhere, at
the end of the text at the latest. -/
def indexOf (text needle : List α) (origin : Int) : Option Nat :=
  let k := min origin.toNat text.length
  searchAt needle k (text.drop k)

theorem le_of_searchAt {needle : List α} {k m : Nat} {l : List α}
    (h : searchAt needle k l = some m) : k ≤ m := by
  induction l generalizing k with
  | nil =>
    simp only [searchAt] at h
    split at h <;> simp_all
  | cons c rest ih =>
    simp only [searchAt] at h
    split at h
    · simp_all
    · have := ih h
      omega

/-- A search that begins anywhere up to the first find has the same answer. -/
theorem searchAt_drop {needle : List α} {k m j : Nat} {l : List α}
    (h : searchAt needle k l = some m) (hj : k + j ≤ m) :
    searchAt needle (k + j) (l.drop j) = some m := by
  induction j generalizing k l with
  | zero => simpa using h
  | succ j ih =>
    cases l with
    | nil =>
      simp only [searchAt] at h
      split at h
      · simp only [Option.some.injEq] at h; omega
      · simp at h
    | cons c rest =>
      simp only [searchAt] at h
      split at h
      · simp only [Option.some.injEq] at h; omega
      · have := ih h (by omega)
        rw [List.drop_succ_cons]
        rw [show k + (j + 1) = k + 1 + j by omega]
        exact this

/-- A search that finds nothing finds nothing further on either. -/
theorem searchAt_drop_none {needle : List α} {k j : Nat} {l : List α}
    (h : searchAt needle k l = none) : searchAt needle (k + j) (l.drop j) = none := by
  induction j generalizing k l with
  | zero => simpa using h
  | succ j ih =>
    cases l with
    | nil =>
      simp only [searchAt] at h
      split at h
      · simp at h
      · simp_all [searchAt]
    | cons c rest =>
      simp only [searchAt] at h
      split at h
      · simp at h
      · have := ih h
        rw [List.drop_succ_cons]
        rw [show k + (j + 1) = k + 1 + j by omega]
        exact this

/-- Between an origin and what was found from there, the answer does not
change. -/
theorem indexOf_between {text needle : List α} {origin later : Int} {m : Nat}
    (h : indexOf text needle origin = some m) (ho : origin ≤ later) (hm : later ≤ m) :
    indexOf text needle later = some m := by
  simp only [indexOf] at h ⊢
  have hk := le_of_searchAt h
  have hj : min origin.toNat text.length + (min later.toNat text.length - min origin.toNat text.length) =
      min later.toNat text.length := by omega
  have := searchAt_drop (j := min later.toNat text.length - min origin.toNat text.length) h (by omega)
  rw [hj, List.drop_drop, hj] at this
  exact this

/-- Past an origin from which nothing was found, nothing is found. -/
theorem indexOf_after_none {text needle : List α} {origin later : Int}
    (h : indexOf text needle origin = none) (ho : origin ≤ later) :
    indexOf text needle later = none := by
  simp only [indexOf] at h ⊢
  have hj : min origin.toNat text.length + (min later.toNat text.length - min origin.toNat text.length) =
      min later.toNat text.length := by omega
  have := searchAt_drop_none (j := min later.toNat text.length - min origin.toNat text.length) h
  rw [hj, List.drop_drop, hj] at this
  exact this

/-- What was asked last of a needle: from where, and what was found. -/
structure Lookup where
  origin : Int
  found : Option Nat

/-- Whether a remembered lookup settles the same question asked from
`origin`. -/
def Lookup.covers (last : Lookup) (origin : Int) : Bool :=
  last.origin ≤ origin && (last.found.map fun m => decide (origin ≤ m)).getD true

/-- A search that remembers the last lookup of each needle; what it remembers
is right. -/
structure Finder (text : List α) where
  last : Table (List α) Lookup
  sound : ∀ needle (l : Lookup), last.get? needle = some l → indexOf text needle l.origin = l.found

namespace Finder

variable {text : List α}

/-- A finder that has not been asked anything. -/
def fresh (text : List α) : Finder text := ⟨[], by simp⟩

/-- The finder that also remembers the answer to one more question. -/
def remember (finder : Finder text) (needle : List α) (origin : Int) : Finder text where
  last := finder.last.set needle ⟨origin, indexOf text needle origin⟩
  sound := by
    intro other l h
    rw [Table.get?_set] at h
    split at h
    · rename_i heq
      simp only [Option.some.injEq] at h
      subst h heq
      rfl
    · exact finder.sound other l h

/-- The first offset not before `origin` at which `needle` stands, and the
finder that remembers it. -/
def find (finder : Finder text) (needle : List α) (origin : Int) : Option Nat × Finder text :=
  match finder.last.get? needle with
  | some l =>
    if l.covers origin then (l.found, finder)
    else (indexOf text needle origin, finder.remember needle origin)
  | none => (indexOf text needle origin, finder.remember needle origin)

/-- A finder answers as `indexOf` does. -/
@[simp] theorem find_fst (finder : Finder text) (needle : List α) (origin : Int) :
    (finder.find needle origin).1 = indexOf text needle origin := by
  unfold find
  split
  · rename_i l hl
    split
    · rename_i hc
      have hs := finder.sound needle l hl
      simp only [Lookup.covers, Bool.and_eq_true, decide_eq_true_eq] at hc
      obtain ⟨ho, hm⟩ := hc
      cases hf : l.found with
      | none => rw [hf] at hs; exact (indexOf_after_none hs ho).symm
      | some m =>
        rw [hf] at hs hm
        have hm : origin ≤ m := by simpa using hm
        exact (indexOf_between hs ho hm).symm
    · rfl
  · rfl

/-- The answers to a list of questions, asked in order. -/
def findAll (finder : Finder text) : List (List α × Int) → List (Option Nat)
  | [] => []
  | (needle, origin) :: rest =>
    let answer := finder.find needle origin
    answer.1 :: answer.2.findAll rest

end Finder

end ProseWrap.Text
