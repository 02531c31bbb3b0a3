import ProseWrap.Sorting
import ProseWrap.Text.Blank
import ProseWrap.Text.Units
import ProseWrap.Unicode.Lowercase

/-!
# Abbreviations

A full stop after an abbreviation ends no sentence. An `Abbreviations` holds
the abbreviations in a normal form (`normalize`), without the full stop and in
lower case. The ones that are always there are words that something always
follows, such as titles; a word that can also end a sentence has to be added.
-/

namespace ProseWrap

namespace Sentence

/-- The normal form of an abbreviation: without full stops at its end, trimmed,
and in lower case. -/
def normalize (word : Text) : Text :=
  Unicode.lowercase (Text.trim (Text.dropEndWhile (· == '.') word))

/-- The last word of a text, without the gaps after it. -/
def finalWord (text : Text) : Text :=
  (((Text.dropEndWhile Text.isGap text).reverse).takeWhile fun c => !Text.isGap c).reverse

end Sentence

/-- Abbreviations in their normal form, without repetition. -/
structure Abbreviations where
  entries : List Text

namespace Abbreviations

open Sentence

/-- The abbreviations that are always known. -/
def common : List Text :=
  [['m', 'r'], ['m', 'r', 's'], ['m', 's'], ['d', 'r'], ['p', 'r', 'o', 'f'], ['s', 'r'], ['j', 'r'],
    ['i', '.', 'e'], ['e', '.', 'g']]

/-- Adds an abbreviation unless nothing is left of it in normal form. -/
def add (set : Abbreviations) (word : Text) : Abbreviations :=
  let entry := normalize word
  if entry.isEmpty || set.entries.contains entry then set else ⟨set.entries ++ [entry]⟩

/-- The common abbreviations and the given ones. -/
def ofList (words : List Text) : Abbreviations := words.foldl add ⟨common⟩

/-- How many abbreviations there are. -/
def size (set : Abbreviations) : Nat := set.entries.length

/-- Whether a word is an abbreviation, with or without its full stop and in any
case. -/
def contains (set : Abbreviations) (word : Text) : Bool :=
  let entry := normalize word
  !entry.isEmpty && set.entries.contains entry

/-- Whether a text ends with an abbreviation and its full stop. -/
def endsText (set : Abbreviations) (text : Text) : Bool :=
  text.getLast? == some '.' && set.contains (finalWord text)

/-- The abbreviations, sorted by 16-bit units. -/
def sorted (set : Abbreviations) : List Text :=
  sortBy (fun entry other => Text.unitsLe (Text.units entry) (Text.units other)) set.entries

end Abbreviations

end ProseWrap
