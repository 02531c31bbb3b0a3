import ProseWrap.Fault
import ProseWrap.Text.Basic
import ProseWrap.Unicode.Pictographic
import ProseWrap.Unicode.Wide
import ProseWrap.Unicode.ZeroWidth

/-!
# The width of a text

A text is measured in characters, in bytes, or in the columns of a display
(`measure`). On a display a character takes no column, one or two, and a
pictograph of one column takes two once an emoji selector follows it.

Which characters take two columns is a matter of a table. `measureWith`
measures with any table, and `measure` with that of East Asian typography.
-/

namespace ProseWrap

/-- What the width of a text counts. -/
inductive LengthMode where
  | chars
  | visual
  | bytes
  deriving DecidableEq, Repr

/-- The columns that a code point takes on a display, where `wide` tells which
take two. Medial vowels and final consonants of Hangul take none, because they
are written into the syllable before them. -/
def codeColumnsWith (wide : Nat → Bool) (n : Nat) : Nat :=
  if Unicode.isZeroWidth n then 0
  else if 0x1160 ≤ n ∧ n ≤ 0x11FF then 0
  else if wide n then 2
  else 1

/-- The columns that a code point takes on a display. -/
def codeColumns (n : Nat) : Nat := codeColumnsWith Unicode.isWide n

/-- The columns that the code point with a given number takes, if there is
one. -/
def numberColumns (n : Number) : Except Fault Nat :=
  match n.toNat? with
  | some k => if k ≤ 0x10FFFF then .ok (codeColumns k) else .error (.codePoint n)
  | none => .error (.codePoint n)

/-- The columns of a text on a display, where `narrow` says that the character
before it is a pictograph of one column. -/
def displayWidthAfter (wide : Nat → Bool) (narrow : Bool) : Text → Nat
  | [] => 0
  | c :: rest =>
    if c == '\uFE0F' && narrow then 1 + displayWidthAfter wide false rest
    else
      let width := codeColumnsWith wide c.toNat
      width + displayWidthAfter wide (width == 1 && Unicode.isPictographic c.toNat) rest

/-- The bytes of a text in UTF-8. -/
def byteWidth : Text → Nat
  | [] => 0
  | c :: rest => c.utf8Size + byteWidth rest

/-- The width of a text, where `wide` tells which code points take two
columns. -/
def measureWith (wide : Nat → Bool) (mode : LengthMode) (text : Text) : Nat :=
  match mode with
  | .chars => text.length
  | .visual => displayWidthAfter wide false text
  | .bytes => byteWidth text

/-- The width of a text. -/
def measure (mode : LengthMode) (text : Text) : Nat := measureWith Unicode.isWide mode text

/-- The width of a text where there may be no mode to measure it in. Then only
the empty text has one. -/
def measure? (mode : Option LengthMode) (text : Text) : Option Nat :=
  if text.isEmpty then some 0 else mode.map fun mode => measure mode text

end ProseWrap
