import ProseWrap.Sentence.Split
import ProseWrap.Width

/-!
# Tokens

A token is what stands between two possible line breaks: a word, with every
span that it touches kept whole. `tokenize` cuts a text into tokens and tells
after which of them a sentence ends.

Punctuation that stands apart from its word, and an opening bracket that stands
apart from the next one, are glued to it (`glue`), so that no line begins or
ends with them.
-/

namespace ProseWrap

/-- A token before it is measured. -/
structure Word where
  text : Text
  /-- Whether the word holds a span. -/
  atomic : Bool
  /-- Whether a sentence ends after the word. -/
  sentenceEnd : Bool
  deriving DecidableEq, Repr

/-- A word and its width. The width is measured (`Word.measured`), so it is a
whole number. -/
structure Token where
  text : Text
  width : Int
  atomic : Bool
  sentenceEnd : Bool
  deriving DecidableEq, Repr

/-- What is done about sentences: nothing; marking the words that end one; or
also cutting where a sentence ends without a gap and taking emphasis of several
sentences apart. -/
inductive SentenceHandling where
  | ignored
  | marked
  | split
  deriving DecidableEq, Repr

/-! ## Words -/

/-- Words that have been read, the last one first, and the characters of the
next one, in reverse. -/
structure Draft where
  words : List Word
  current : Text
  atomic : Bool

namespace Draft

/-- Nothing read yet. -/
def empty : Draft := ⟨[], [], false⟩

/-- Adds a character to the current word. -/
def addChar (draft : Draft) (c : Char) : Draft := { draft with current := c :: draft.current }

/-- Adds a piece that must stay whole to the current word. -/
def addPiece (draft : Draft) (piece : Text) : Draft :=
  { draft with current := piece.reverse ++ draft.current, atomic := draft.atomic || !piece.isEmpty }

/-- Ends the current word. If there is none, the end of a sentence is that of
the word before. -/
def finish (draft : Draft) (sentenceEnd : Bool) : Draft :=
  if draft.current.isEmpty then
    match draft.words with
    | last :: before =>
      ⟨{ last with sentenceEnd := last.sentenceEnd || sentenceEnd } :: before, [], false⟩
    | [] => empty
  else ⟨⟨draft.current.reverse, draft.atomic, sentenceEnd⟩ :: draft.words, [], false⟩

/-- Adds the pieces of a span, between which sentences end. -/
def addPieces (draft : Draft) : List Text → Draft
  | [] => draft
  | piece :: rest => rest.foldl (fun d more => (d.finish true).addPiece more) (draft.addPiece piece)

end Draft

/-- The pieces that a span is kept in. -/
def spanPieces (set : Abbreviations) (mode : SentenceHandling) (text : Text) (span : Span)
    (children : Forest) : List Text :=
  if mode = .split then Sentence.fragments set text span children
  else [Text.slice text span.start span.stop]

/-- The span at the front of a list, with what it encloses, if it starts at
offset `i`. -/
def treeAt? (i : Nat) : List (Span × Forest) → Option (Span × Forest)
  | [] => none
  | tree :: _ => if tree.1.start = i then some tree else none

/-- Reads the words of the text `rest`, which begins at offset `i`, from offset
`resume` on. The spans `trees` and the sentence ends `ends` have not been
passed yet. -/
def wordsFrom (set : Abbreviations) (mode : SentenceHandling) (text : Text) (trees : List (Span × Forest))
    (ends : List Nat) (resume i : Nat) (draft : Draft) : Text → Draft
  | [] => draft.finish false
  | c :: rest =>
    if i < resume then wordsFrom set mode text trees ends resume (i + 1) draft rest
    else
      let ends := ends.dropWhile (· < i)
      let ended := ends.head? == some i && (mode == .split || Text.isGap c)
      let draft := if ended then draft.finish true else draft
      match treeAt? i trees with
      | some (span, children) =>
        wordsFrom set mode text (trees.drop 1) ends span.stop (i + 1)
          (draft.addPieces (spanPieces set mode text span children)) rest
      | none =>
        let draft := if Text.isGap c then draft.finish false else draft.addChar c
        wordsFrom set mode text trees ends resume (i + 1) draft rest

/-- The words of a text. -/
def words (set : Abbreviations) (mode : SentenceHandling) (text : Text) : List Word :=
  let forest := Forest.ofText text
  let ends :=
    if mode = .ignored then [] else Sentence.boundaries set text forest.roots 0 text.length
  (wordsFrom set mode text forest.trees ends 0 0 .empty text).words.reverse

/-! ## Punctuation -/

/-- Two words written together. -/
def Word.append (left right : Word) : Word :=
  ⟨left.text ++ right.text, left.atomic || right.atomic, right.sentenceEnd⟩

/-- Whether a word is punctuation that must not begin a line. -/
def isTrailing (text : Text) : Bool :=
  !text.isEmpty && text.all fun c =>
    [',', '.', ':', ';', '!', '?', ')', ']', '\x7d'].contains c

/-- Whether a word is brackets that must not end a line. -/
def isOpening (text : Text) : Bool :=
  !text.isEmpty && text.all fun c => ['(', '[', '\x7b'].contains c

/-- Glues words together. Those done are `out`, the last one first, and
`opener` waits for the next word. -/
def glueFrom (out : List Word) (opener : Option Word) : List Word → List Word
  | [] => (opener.toList ++ out).reverse
  | word :: rest =>
    match opener, out with
    | none, last :: before =>
      if !last.sentenceEnd && isTrailing word.text then glueFrom (last.append word :: before) none rest
      else if isOpening word.text && !word.sentenceEnd then glueFrom out (some word) rest
      else glueFrom (word :: out) none rest
    | _, _ =>
      let word := (opener.map fun left => left.append word).getD word
      if isOpening word.text && !word.sentenceEnd then glueFrom out (some word) rest
      else glueFrom (word :: out) none rest

/-- The words with punctuation and brackets glued to their neighbours. -/
def glue (words : List Word) : List Word := glueFrom [] none words

/-! ## Tokens -/

/-- A word with its width. -/
def Word.measured (mode : LengthMode) (word : Word) : Token :=
  ⟨word.text, measure mode word.text, word.atomic, word.sentenceEnd⟩

/-- The tokens of a text. -/
def tokenize (lengthMode : LengthMode) (set : Abbreviations) (mode : SentenceHandling) (text : Text) :
    List Token :=
  (glue (words set mode text)).map (Word.measured lengthMode)

end ProseWrap
