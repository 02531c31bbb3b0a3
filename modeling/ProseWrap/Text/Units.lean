import ProseWrap.Text.Ascii

/-!
# Offsets in 16-bit units

Editors and interchange formats count text in 16-bit units, where a character
beyond the basic plane takes two. `unitOffset` and `charOffset` convert between
such offsets and offsets in characters, and `units` is the text as its units,
for questions about an offset that may fall inside a character.
-/

namespace ProseWrap.Text

/-- How many units a character takes. -/
def unitWidth (c : Char) : Nat := if c.toNat < 0x10000 then 1 else 2

/-- How many units a text takes. -/
def unitCount : Text → Nat
  | [] => 0
  | c :: rest => unitWidth c + unitCount rest

/-- The offset in units of the character at offset `k`. -/
def unitOffset (text : Text) (k : Nat) : Nat := unitCount (text.take k)

/-- The offsets in units of all characters of a text and of its end, if it
starts at `base`. -/
def unitOffsetsFrom (base : Nat) : Text → List Nat
  | [] => [base]
  | c :: rest => base :: unitOffsetsFrom (base + unitWidth c) rest

/-- The offsets in units of all characters of a text and of its end. -/
def unitOffsets (text : Text) : List Nat := unitOffsetsFrom 0 text

theorem unitOffsetsFrom_getElem? (base : Nat) (text : Text) {k : Nat} (hk : k ≤ text.length) :
    (unitOffsetsFrom base text)[k]? = some (base + unitOffset text k) := by
  induction text generalizing base k with
  | nil =>
    obtain rfl : k = 0 := by simpa using hk
    rfl
  | cons c rest ih =>
    cases k with
    | zero => rfl
    | succ k =>
      have hk' : k ≤ rest.length := by simpa using hk
      simp [unitOffsetsFrom, ih _ hk', unitOffset, unitCount, Nat.add_assoc]

/-- The table of offsets agrees with the offsets one by one. -/
theorem unitOffsets_getElem? (text : Text) {k : Nat} (hk : k ≤ text.length) :
    (unitOffsets text)[k]? = some (unitOffset text k) := by
  simp [unitOffsets, unitOffsetsFrom_getElem? 0 text hk]

/-- How many characters begin before the offset `u` in units. -/
def charOffset : Text → Nat → Nat
  | [], _ => 0
  | _ :: _, 0 => 0
  | c :: rest, u + 1 => 1 + charOffset rest (u + 1 - unitWidth c)

/-- The signed offset in characters that a signed offset in units stands for. A
negative one counts from the end of the text, and one past the end lies as far
past it. -/
def signedCharOffset (text : Text) (u : Int) : Int :=
  let count := unitCount text
  if u < 0 then charOffset text (count + u).toNat - text.length
  else if count < u then text.length + (u - count)
  else charOffset text u.toNat

/-- The units of a character: itself, or a high and a low surrogate. -/
def charUnits (c : Char) : List Nat :=
  let n := c.toNat
  if n < 0x10000 then [n] else [0xD800 + (n - 0x10000) / 0x400, 0xDC00 + (n - 0x10000) % 0x400]

/-- The units of a text. -/
def units (text : Text) : List Nat := text.flatMap charUnits

/-- Whether a unit is the first of two. -/
def isHighSurrogate (u : Nat) : Bool := 0xD800 ≤ u && u ≤ 0xDBFF

/-- Whether a unit is the second of two. -/
def isLowSurrogate (u : Nat) : Bool := 0xDC00 ≤ u && u ≤ 0xDFFF

/-- The code point that a high and a low surrogate stand for. -/
def joinSurrogates (high low : Nat) : Nat := (high - 0xD800) * 0x400 + (low - 0xDC00) + 0x10000

/-- The unit at a signed offset. -/
def unitAt? (us : List Nat) (i : Int) : Option Nat := if i < 0 then none else us[i.toNat]?

/-- The code point that begins at an offset, or the lone unit there. -/
def codePointAt? (us : List Nat) (i : Int) : Option Nat :=
  match unitAt? us i, unitAt? us (i + 1) with
  | some u, some v => some (if isHighSurrogate u && isLowSurrogate v then joinSurrogates u v else u)
  | some u, none => some u
  | none, _ => none

/-- The code point that ends at an offset, or the lone unit before it. -/
def codePointBefore? (us : List Nat) (i : Int) : Option Nat :=
  match unitAt? us (i - 1), unitAt? us (i - 2) with
  | some v, some u => some (if isHighSurrogate u && isLowSurrogate v then joinSurrogates u v else v)
  | some v, none => some v
  | none, _ => none

/-- Whether the unit at an offset is a backslash that escapes the punctuation
after it. -/
def escapesAt (us : List Nat) (i : Int) : Bool :=
  unitAt? us i == some 0x5C && ((unitAt? us (i + 1)).map isAsciiPunctuationCode).getD false

/-- Whether the units of one text come before those of another, position by
position. -/
def unitsLe : List Nat → List Nat → Bool
  | [], _ => true
  | _ :: _, [] => false
  | u :: us, v :: vs => u < v || (u == v && unitsLe us vs)

end ProseWrap.Text
