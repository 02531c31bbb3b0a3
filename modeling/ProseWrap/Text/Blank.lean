import ProseWrap.Text.Basic

/-!
# Blank characters

Three classes of white space matter here. A *blank* is any white space of any
script and is what `trim` removes. A *gap* separates words; the no-break space
is a blank and no gap. An *indent* character is a space or a tab.
-/

namespace ProseWrap.Text

/-- Whether a character is white space: the ASCII controls from tab to carriage
return, the space separators, the line and paragraph separators, and the byte
order mark. -/
def isBlank (c : Char) : Bool :=
  let n := c.toNat
  (0x09 ≤ n && n ≤ 0x0D) || n == 0x20 || n == 0xA0 || n == 0x1680 || (0x2000 ≤ n && n ≤ 0x200A)
    || n == 0x2028 || n == 0x2029 || n == 0x202F || n == 0x205F || n == 0x3000 || n == 0xFEFF

/-- Whether a character separates words. -/
def isGap (c : Char) : Bool :=
  c == ' ' || c == '\t' || c == '\n' || c == '\r' || c == '\x0C' || c == '\x0B'

/-- Whether a character can indent a line. -/
def isIndent (c : Char) : Bool := c == ' ' || c == '\t'

/-- Whether a character ends a line in the sense that no pattern of a single
line reaches over it. -/
def isLineEnd (c : Char) : Bool :=
  c == '\n' || c == '\r' || c == '\u2028' || c == '\u2029'

/-- The list without the longest run at its end whose members satisfy `p`. -/
def dropEndWhile (p : α → Bool) (l : List α) : List α := (l.reverse.dropWhile p).reverse

/-- The text without the blanks at its start. -/
def trimStart (text : Text) : Text := text.dropWhile isBlank

/-- The text without the blanks at its end. -/
def trimEnd (text : Text) : Text := dropEndWhile isBlank text

/-- The text without the blanks at both ends. -/
def trim (text : Text) : Text := trimEnd (trimStart text)

end ProseWrap.Text
