import ProseWrap.Layout.Limit
import ProseWrap.Layout.Token
import ProseWrap.Line.Markup

/-!
# Packing tokens into lines

`pack` puts as many tokens on each line as the limit admits. A token that is
too wide for a line stands alone on it. A token that would be read as the start
of a block never begins a line after the first, and a token that ends with a
backslash is kept from the end of a line before the last, since that would be a
hard break; such tokens take their neighbour along, or stay on a line that is
then too wide.

`packClauses` is for a single sentence: it stays on one line if it fits, and is
broken after its clauses otherwise, and between words only where a clause is
too wide.

Both yield the groups of tokens of the lines, and `render` writes the lines.
While lines are packed, the beginning and the width of the current line are
kept up to date (`Packing`); neither is worked out again from its tokens.
-/

namespace ProseWrap

/-- What the lines of a text begin with: the first one, and the further
ones. -/
structure Leads where
  first : Text
  further : Text
  deriving DecidableEq, Repr

/-- How lines are packed: which widths they may have, what the first line and
the further lines begin with and how wide that is, and whether the first word
of a sentence is kept from the end of a line. -/
structure LineShape where
  limit : Limit
  leads : Leads
  firstLead : Int
  furtherLead : Int
  breakOnSentences : Bool

namespace LineShape

variable (shape : LineShape) (before : Nat)

/-- What a line begins with that has some number of lines before it. -/
def leadText : Text := if before = 0 then shape.leads.first else shape.leads.further

/-- How wide the beginning of a line is that has some number of lines before
it. -/
def leadAt : Int := if before = 0 then shape.firstLead else shape.furtherLead

end LineShape

namespace Token

/-- The width of tokens on one line, with a space between each two. -/
def lineWidth : List Token → Int
  | [] => 0
  | [token] => token.width
  | token :: rest => token.width + 1 + lineWidth rest

/-- The width of the space before the next token of a line. -/
def gapAfter (tokens : List Token) : Int := if tokens.isEmpty then 0 else 1

theorem lineWidth_cons_eq (token : Token) (tokens : List Token) :
    lineWidth (token :: tokens) = lineWidth tokens + (gapAfter tokens + token.width) := by
  cases tokens with
  | nil => simp [lineWidth, gapAfter]
  | cons next rest =>
    simp only [lineWidth, gapAfter, List.isEmpty_cons, Bool.false_eq_true, if_false]
    omega

/-- Whether a token ends with a backslash. -/
def endsWithBackslash (token : Token) : Bool := token.text.getLast? == some '\\'

/-- Whether a line that begins with a token would be read as something other
than prose. -/
def beginsBlock (token : Token) : Bool := Line.beginsBlock token.text

/-- Whether a token ends a clause. -/
def endsClause (token : Token) : Bool :=
  (token.text.getLast?.map fun c => c == ',' || c == ';' || c == ':').getD false

/-- The texts of tokens with a space between each two. -/
def joinTexts (tokens : List Token) : Text := List.intercalate [' '] (tokens.map Token.text)

end Token

/-- Lines that are finished, the last one first, and the current line: its
tokens, the last one first, what it begins with, and how wide it is so far. -/
structure Packing (shape : LineShape) where
  done : List (List Token)
  line : List Token
  lead : Text
  width : Int
  lead_eq : lead = shape.leadText done.length
  width_eq : width = shape.leadAt done.length + Token.lineWidth line

namespace Packing

variable {shape : LineShape}

/-- No line begun. -/
def empty (shape : LineShape) : Packing shape where
  done := []
  line := []
  lead := shape.leads.first
  width := shape.firstLead
  lead_eq := rfl
  width_eq := (Int.add_zero _).symm

/-- Whether content of a width fits at the end of the current line. -/
def fits (packing : Packing shape) (width : Int) : Bool :=
  shape.limit == .unlimited
    || shape.limit.admits (packing.width + Token.gapAfter packing.line + width)

/-- The packing with one more token on the current line. -/
def append (packing : Packing shape) (token : Token) : Packing shape where
  done := packing.done
  line := token :: packing.line
  lead := packing.lead
  width := packing.width + (Token.gapAfter packing.line + token.width)
  lead_eq := packing.lead_eq
  width_eq := by rw [packing.width_eq, Token.lineWidth_cons_eq, Int.add_assoc]

/-- Finishes the current line with the tokens that stay on it, and begins the
next one. -/
def finish (packing : Packing shape) (group : List Token) : Packing shape where
  done := group :: packing.done
  line := []
  lead := shape.leads.further
  width := shape.furtherLead
  lead_eq := rfl
  width_eq := (Int.add_zero _).symm

/-- Finishes the current line if it has tokens. -/
def flush (packing : Packing shape) : Packing shape :=
  if packing.line.isEmpty then packing else packing.finish packing.line.reverse

/-- Whether the last token `last` of a line is moved down to `next`: it begins
a sentence that the token before it does not belong to, the line keeps two
tokens, and both fit on the next line. -/
def carriesSentence (shape : LineShape) (last : Token) (others : List Token) (next : Token) : Bool :=
  match others with
  | previous :: _ :: _ =>
    shape.breakOnSentences && previous.sentenceEnd && !last.sentenceEnd && !last.beginsBlock
      && shape.limit.admits (shape.furtherLead + last.width + 1 + next.width)
  | _ => false

/-- Adds a token: to the current line if it fits there, or else to a new one,
together with the last token of the current line where that is needed. -/
def add (packing : Packing shape) (token : Token) : Packing shape :=
  match packing.line with
  | [] => packing.append token
  | last :: others =>
    if packing.fits token.width then packing.append token
    else if carriesSentence shape last others token then
      ((packing.finish others.reverse).append last).append token
    else if token.beginsBlock || last.endsWithBackslash then
      if others.isEmpty || last.beginsBlock then packing.append token
      else ((packing.finish others.reverse).append last).append token
    else (packing.finish packing.line.reverse).append token

/-- Ends the current line before a token, unless the token may not begin a
line. -/
def endLineBefore (packing : Packing shape) (token : Token) : Packing shape :=
  if token.beginsBlock then packing else packing.flush

/-- The tokens of each line, from the first line to the last. -/
def lines (packing : Packing shape) : List (List Token) := packing.flush.done.reverse

end Packing

/-- The tokens of each line when as many as fit are put on a line. -/
def pack (shape : LineShape) (tokens : List Token) : List (List Token) :=
  (tokens.foldl Packing.add (.empty shape)).lines

/-- The clauses of tokens: each ends with a comma, a semicolon or a colon, or
with the last token. -/
def clauses : List Token → List (List Token)
  | [] => []
  | token :: rest =>
    if token.endsClause then [token] :: clauses rest
    else
      match clauses rest with
      | [] => [[token]]
      | clause :: others => (token :: clause) :: others

/-- Adds a clause, on a new line if it does not fit on the current one. -/
def Packing.addClause {shape : LineShape} (packing : Packing shape) (clause : List Token) : Packing shape :=
  match clause with
  | [] => packing
  | first :: _ =>
    let packing := if packing.fits (Token.lineWidth clause) then packing else packing.endLineBefore first
    clause.foldl Packing.add packing

/-- The tokens of each line of a sentence: one line if it fits, and else lines
that end with clauses. -/
def packClauses (shape : LineShape) (tokens : List Token) : List (List Token) :=
  let shape := { shape with breakOnSentences := false }
  if (Packing.empty shape).fits (Token.lineWidth tokens) then
    if tokens.isEmpty then [] else [tokens]
  else ((clauses tokens).foldl Packing.addClause (.empty shape)).lines

namespace Leads

/-- How lines with these beginnings are packed, if texts have certain
widths. -/
def shapeBy (leads : Leads) (width : Text → Nat) (limit : Limit) (breakOnSentences : Bool) : LineShape where
  limit
  leads
  firstLead := width leads.first
  furtherLead := width leads.further
  breakOnSentences

/-- How lines with these beginnings are packed. -/
def shape (leads : Leads) (mode : LengthMode) (limit : Limit) (breakOnSentences : Bool) : LineShape :=
  leads.shapeBy (measure mode) limit breakOnSentences

/-- The lines that groups of tokens make. -/
def render (leads : Leads) : List (List Token) → List Text
  | [] => []
  | group :: rest =>
    (leads.first ++ Token.joinTexts group) ::
      rest.map fun group => leads.further ++ Token.joinTexts group

end Leads

end ProseWrap
