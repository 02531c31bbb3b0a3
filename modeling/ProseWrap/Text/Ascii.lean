import ProseWrap.Text.Basic

/-!
# ASCII characters

The grammar of Markdown is written in ASCII. Letters and digits are
`Char.isAlpha`, `Char.isDigit` and `Char.isAlphanum`; this module adds
punctuation and the backslash escape.
-/

namespace ProseWrap.Text

/-- Whether a code is that of an ASCII punctuation character. -/
def isAsciiPunctuationCode (n : Nat) : Bool :=
  (0x21 ≤ n && n ≤ 0x2F) || (0x3A ≤ n && n ≤ 0x40) || (0x5B ≤ n && n ≤ 0x60)
    || (0x7B ≤ n && n ≤ 0x7E)

/-- Whether a character is ASCII punctuation. -/
def isAsciiPunctuation (c : Char) : Bool := isAsciiPunctuationCode c.toNat

/-- Whether a text starts with a backslash that escapes the punctuation
character after it. -/
def startsEscape : Text → Bool
  | '\\' :: c :: _ => isAsciiPunctuation c
  | _ => false

/-- Whether a character is a hexadecimal digit. -/
def isHexDigit (c : Char) : Bool :=
  c.isDigit || ('a' ≤ c && c ≤ 'f') || ('A' ≤ c && c ≤ 'F')

end ProseWrap.Text
