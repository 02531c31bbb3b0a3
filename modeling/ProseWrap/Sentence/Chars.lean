import ProseWrap.Text.Blank
import ProseWrap.Unicode.Uppercase

/-!
# Characters that matter to sentences

The marks that end a sentence, the quotation marks and brackets that may follow
or precede it, and the scripts that have no letter case.
-/

namespace ProseWrap.Sentence

/-- Whether a character ends a sentence when a space and a capital letter
follow. -/
def isTerminator (c : Char) : Bool := c == '.' || c == '!' || c == '?'

/-- Whether a character ends a sentence of a script that is written without
spaces. -/
def isUnspacedTerminator (c : Char) : Bool := c == '。' || c == '！' || c == '？'

/-- Whether a character may close a quotation. -/
def mayCloseQuote (c : Char) : Bool :=
  c == '"' || c == '\'' || c == '”' || c == '’' || c == '»' || c == '›'

/-- Whether a character may open a quotation. -/
def mayOpenQuote (c : Char) : Bool :=
  c == '"' || c == '\'' || c == '“' || c == '‘' || c == '«' || c == '‹'

/-- Whether a character may follow the mark that ends a sentence without
spaces. -/
def isUnspacedCloser (c : Char) : Bool :=
  c == '」' || c == '』' || c == '）' || c == '】' || c == '〉' || c == '》' || mayCloseQuote c

/-- Whether a character is a marker to be passed over before the first letter
of a sentence. -/
def isLeadingMarker (c : Char) : Bool := c == '*' || c == '_' || c == '~'

/-- Whether a code point is an ideograph or a syllable of Japanese or
Korean. -/
def isUnspacedCode (n : Nat) : Bool :=
  (0x4E00 ≤ n && n ≤ 0x9FFF) || (0x3400 ≤ n && n ≤ 0x4DBF) || (0x3040 ≤ n && n ≤ 0x309F)
    || (0x30A0 ≤ n && n ≤ 0x30FF) || (0xAC00 ≤ n && n ≤ 0xD7AF)

/-- Whether a sentence can begin with a character. -/
def opensSentence (c : Char) : Bool := Unicode.isUppercase c || isUnspacedCode c.toNat

end ProseWrap.Sentence
