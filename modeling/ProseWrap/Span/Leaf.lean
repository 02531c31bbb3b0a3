import ProseWrap.Span.Bracket
import ProseWrap.Text.Blank
import ProseWrap.Text.Search

/-!
# Leaf spans

Leaf spans are the inline constructs that enclose no other span: code, links,
images, footnotes, template tags, HTML tags and entities, formulas and emoji
names. `leaves` finds them from left to right: a construct that begins at an
offset is recognised by its first character (`construct?`), and the search goes
on after it.

Brackets are paired beforehand and the closers of tags and formulas are looked
up through a `Finder`, so no part of the text is searched again and again.
-/

namespace ProseWrap

/-- A text with its code spans and bracket pairs. -/
structure Site where
  text : Text
  codes : List Span
  brackets : Brackets

namespace Site

/-- What is known of a text before its leaf spans are looked for. -/
def ofText (text : Text) : Site :=
  let codes := Span.codeSpans text
  ⟨text, codes, .ofText codes text⟩

/-- Whether a character stands at an offset. -/
def has (site : Site) (i : Nat) (c : Char) : Bool := site.text[i]? == some c

/-! ## Links, images and footnotes -/

/-- Whether the text between the parentheses of a link is a destination:
nothing, a run without gaps, or either of these and a title; a destination that
begins with an angle bracket may hold anything. -/
def isDestination (inner : Text) : Bool :=
  match inner.dropWhile Text.isGap with
  | [] => true
  | '<' :: _ => true
  | destination =>
    match (destination.dropWhile fun c => !Text.isGap c).dropWhile Text.isGap with
    | [] => true
    | c :: _ => c == '"' || c == '\'' || c == '('

/-- The offset of the parenthesis that ends the destination opened at offset
`i`. -/
def destinationEnd? (site : Site) (i : Nat) : Option Nat :=
  match site.brackets.roundClose? i with
  | some close => if isDestination (Text.slice site.text (i + 1) close) then some close else none
  | none => none

/-- What the square bracket at offset `i` begins: where it ends and of what
form it is. An image needs no care about footnotes. -/
def bracketed? (site : Site) (i : Nat) (image : Bool) : Option (Nat × BracketForm) :=
  match site.brackets.squareClose? i with
  | none => none
  | some close =>
    let after := close + 1
    let shortcut :=
      if close = i + 1 then none
      else if !image && site.has (i + 1) '^' then none
      else some (close + 1, .shortcut)
    if site.has after '(' then
      match site.destinationEnd? after with
      | some stop => some (stop + 1, .inline)
      | none => shortcut
    else if site.has after '[' then
      match site.brackets.squareClose? after with
      | some stop =>
        let label := Text.slice site.text (after + 1) stop
        some (stop + 1, if label.all Text.isGap then .collapsed else .reference)
      | none => shortcut
    else shortcut

/-- The image that fills the brackets of a link which begins at offset `i`. -/
def imageLink? (site : Site) (i : Nat) : Option Span :=
  match site.brackets.squareClose? i, site.bracketed? (i + 2) true with
  | some close, some (stop, form) =>
    if stop = close then
      let source : TargetForm := if form = .inline then .inline else .reference
      let after := close + 1
      if site.has after '(' then
        (site.destinationEnd? after).map fun stop => .whole (.linkedImage source .inline) i (stop + 1)
      else if site.has after '[' then
        (site.brackets.squareClose? after).map fun stop =>
          .whole (.linkedImage source .reference) i (stop + 1)
      else none
    else none
  | _, _ => none

/-- The wiki link that begins at offset `i`: two brackets on each side. -/
def wikiLink? (site : Site) (i : Nat) : Option Span :=
  match site.brackets.squareClose? (i + 1), site.brackets.squareClose? i with
  | some inner, some outer =>
    if outer = inner + 1 then some (.whole (.link .wiki) i (outer + 1)) else none
  | _, _ => none

/-- The footnote that is referred to at offset `i`, by a number or by a name
without gaps. -/
def footnoteMention? (site : Site) (i : Nat) : Option Span :=
  match site.brackets.squareClose? i with
  | none => none
  | some close =>
    let name := Text.slice site.text (i + 2) close
    if name.isEmpty || name.any Text.isGap then none
    else some (.whole (.footnote (if name.all Char.isDigit then .numeric else .named)) i (close + 1))

/-- What begins with the square bracket at offset `i`. -/
def squareSpan? (site : Site) (i : Nat) : Option Span :=
  let linked := if site.has (i + 1) '!' && site.has (i + 2) '[' then site.imageLink? i else none
  let wiki := if site.has (i + 1) '[' then site.wikiLink? i else none
  linked.or (wiki.or
    (match site.bracketed? i false with
      | some (stop, form) => some (.whole (.link (.bracket form)) i stop)
      | none => if site.has (i + 1) '^' then site.footnoteMention? i else none))

/-- The image that begins with the exclamation mark at offset `i`. -/
def image? (site : Site) (i : Nat) : Option Span :=
  if site.has (i + 1) '[' then
    (site.bracketed? (i + 1) true).map fun target => .whole (.image target.2) i target.1
  else none

/-- The footnote written in place that begins with the caret at offset `i`. -/
def footnoteInPlace? (site : Site) (i : Nat) : Option Span :=
  if site.has (i + 1) '[' then
    (site.brackets.squareClose? (i + 1)).map fun close =>
      ⟨.footnote .inline, i, close + 1, i + 2, close⟩
  else none

/-! ## Automatic links and HTML -/

/-- Whether a character may stand in the scheme of an address. -/
def isSchemeChar (c : Char) : Bool := c.isAlphanum || c == '+' || c == '.' || c == '-'

/-- Whether a character may stand in an automatic link after its scheme. -/
def isAddressChar (c : Char) : Bool := c != '<' && c != '>' && 0x20 < c.toNat

/-- Whether a character may stand before the at sign of a mail address. -/
def isMailNameChar (c : Char) : Bool :=
  c.isAlphanum || [ '.', '!', '#', '$', '%', '&', '\'', '*', '+', '/', '=', '?', '^', '_', '\x60',
    '\x7b', '|', '\x7d', '~', '-'].contains c

/-- Whether a character may stand after the at sign of a mail address. -/
def isMailHostChar (c : Char) : Bool := c.isAlphanum || c == '.' || c == '-'

/-- If `rest` is not empty and begins with `c`, the length of what comes before
it and of `c`. -/
def closedBy (c : Char) (before : Nat) (rest : Text) : Option Nat :=
  if rest.head? == some c then some (before + 1) else none

/-- The length of a mail address and the angle bracket that ends it. -/
def mailLength? (rest : Text) : Option Nat :=
  let name := rest.takeWhile isMailNameChar
  match rest.drop name.length with
  | '@' :: after =>
    let host := after.takeWhile isMailHostChar
    if name.isEmpty || host.isEmpty then none
    else closedBy '>' (name.length + 1 + host.length) (after.drop host.length)
  | _ => none

/-- The length of an address or a mail address and the angle bracket that ends
it. A scheme begins with a letter and has 2 to 32 characters; what has one is
no mail address. -/
def autolinkLength? (rest : Text) : Option Nat :=
  let scheme := (rest.take 32).takeWhile isSchemeChar
  let lettered := (rest.head?.map Char.isAlpha).getD false
  match rest.drop scheme.length with
  | ':' :: after =>
    if lettered && 2 ≤ scheme.length then
      let body := after.takeWhile isAddressChar
      closedBy '>' (scheme.length + 1 + body.length) (after.drop body.length)
    else mailLength? rest
  | _ => mailLength? rest

/-- The automatic link that begins with the angle bracket at offset `i`. -/
def autolink? (site : Site) (i : Nat) : Option Span :=
  (autolinkLength? (site.text.drop (i + 1))).map fun length =>
    .whole (.link .autolink) i (i + 1 + length)

/-- The length of the rest of a tag, after its name, up to and with the angle
bracket that ends it. A quoted attribute may hold that bracket; an opening
angle bracket is in no tag. -/
def attributesLength? (quote : Option Char) : Text → Option Nat
  | [] => none
  | c :: rest =>
    if c == '<' then none
    else
      match quote with
      | some q => (attributesLength? (if c == q then none else some q) rest).map (· + 1)
      | none =>
        if c == '"' || c == '\'' then (attributesLength? (some c) rest).map (· + 1)
        else if c == '>' then some 1
        else (attributesLength? none rest).map (· + 1)

/-- The length of a tag from its name on, or from the slash before it. -/
def tagLength? (rest : Text) : Option Nat :=
  let slash := if rest.head? == some '/' then 1 else 0
  let named := rest.drop slash
  let name := named.takeWhile fun c => c.isAlphanum || c == '-'
  if (named.head?.map Char.isAlpha).getD false then
    let after := named.drop name.length
    match after with
    | c :: _ =>
      if c == '>' || c == '/' || Text.isGap c then
        (attributesLength? none after).map fun length => slash + name.length + length
      else none
    | [] => none
  else none

/-- The tag or comment that begins with the angle bracket at offset `i`. -/
def tag? (site : Site) (finder : Text.Finder site.text) (i : Nat) :
    Option Span × Text.Finder site.text :=
  let rest := site.text.drop i
  if ['<', '!', '-', '-'].isPrefixOf rest then
    let answer := finder.find ['-', '-', '>'] (i + 4 : Nat)
    (answer.1.map fun close => .whole .htmlTag i (close + 3), answer.2)
  else ((tagLength? (rest.drop 1)).map fun length => .whole .htmlTag i (i + 1 + length), finder)

/-! ## Template tags, formulas, entities and emoji -/

/-- The first of the tags that begins at offset `i` and is closed. -/
def templateTag? (site : Site) (finder : Text.Finder site.text) (i : Nat) :
    List TemplateTag → Option Span × Text.Finder site.text
  | [] => (none, finder)
  | tag :: others =>
    if tag.opener.isPrefixOf (site.text.drop i) then
      let inner := i + tag.opener.length
      let answer := finder.find tag.closer inner
      match answer.1 with
      | some close => (some ⟨.template tag, i, close + tag.closer.length, inner, close⟩, answer.2)
      | none => site.templateTag? answer.2 i others
    else site.templateTag? finder i others

/-- The formula that begins with the dollar sign at offset `i`. A formula in
the line does not begin or end with a gap, and no digit follows it, so that
prices are no formulas. -/
def formula? (site : Site) (finder : Text.Finder site.text) (i : Nat) :
    Option Span × Text.Finder site.text :=
  match site.text[i + 1]? with
  | none => (none, finder)
  | some first =>
    if first == '$' then
      let answer := finder.find ['$', '$'] (i + 2 : Nat)
      match answer.1 with
      | some close =>
        (if close ≤ i + 2 then none else some ⟨.math true, i, close + 2, i + 2, close⟩, answer.2)
      | none => (none, answer.2)
    else if Text.isGap first then (none, finder)
    else
      let answer := finder.find ['$'] (i + 1 : Nat)
      match answer.1 with
      | some close =>
        let gapped := (site.text[close - 1]?.map Text.isGap).getD false
        let priced := (site.text[close + 1]?.map Char.isDigit).getD false
        (if gapped || priced then none else some ⟨.math false, i, close + 1, i + 1, close⟩, answer.2)
      | none => (none, answer.2)

/-- The length of an entity after its ampersand, with the semicolon: a number
of up to 7 digits, a hexadecimal number of up to 6, or a name of 2 to 32
letters and digits that begins with a letter. -/
def entityLength? : Text → Option Nat
  | '#' :: rest =>
    let digits := rest.takeWhile Char.isDigit
    if digits.isEmpty then
      match rest with
      | x :: rest =>
        let hex := rest.takeWhile Text.isHexDigit
        if (x == 'x' || x == 'X') && !hex.isEmpty && hex.length ≤ 6 then
          closedBy ';' (2 + hex.length) (rest.drop hex.length)
        else none
      | [] => none
    else if digits.length ≤ 7 then closedBy ';' (1 + digits.length) (rest.drop digits.length)
    else none
  | rest =>
    let name := rest.takeWhile Char.isAlphanum
    if (rest.head?.map Char.isAlpha).getD false && 2 ≤ name.length && name.length ≤ 32 then
      closedBy ';' name.length (rest.drop name.length)
    else none

/-- The entity that begins with the ampersand at offset `i`. -/
def entity? (site : Site) (i : Nat) : Option Span :=
  (entityLength? (site.text.drop (i + 1))).map fun length => .whole .htmlEntity i (i + 1 + length)

/-- Whether a character may stand in the name of an emoji. -/
def isEmojiChar (c : Char) : Bool := c.isAlphanum || c == '_' || c == '+' || c == '-'

/-- The emoji name that begins with the colon at offset `i`: it has a letter,
and the colon does not follow a letter or digit. -/
def emojiName? (site : Site) (i : Nat) : Option Span :=
  let attached := i != 0 && (site.text[i - 1]?.map Char.isAlphanum).getD false
  let rest := site.text.drop (i + 1)
  let name := rest.takeWhile isEmojiChar
  if attached || !name.any Char.isAlpha then none
  else (closedBy ':' name.length (rest.drop name.length)).map fun length =>
    .whole .emoji i (i + 1 + length)

/-! ## The scan -/

/-- What begins with the character `c` at offset `i`. -/
def construct? (site : Site) (finder : Text.Finder site.text) (i : Nat) (c : Char) :
    Option Span × Text.Finder site.text :=
  match c with
  | '[' => (site.squareSpan? i, finder)
  | '!' => (site.image? i, finder)
  | '^' => (site.footnoteInPlace? i, finder)
  | '<' =>
    match site.autolink? i with
    | some link => (some link, finder)
    | none => site.tag? finder i
  | '\x7b' => site.templateTag? finder i TemplateTag.all
  | '$' => site.formula? finder i
  | '&' => (site.entity? i, finder)
  | ':' => (site.emojiName? i, finder)
  | _ => (none, finder)

/-- The leaf spans of the text `rest`, which begins at offset `i`, from offset
`resume` on; `codes` are the code spans that have not been passed yet. -/
def leavesFrom (site : Site) (codes : List Span) (finder : Text.Finder site.text) (resume i : Nat) :
    Text → List Span
  | [] => []
  | c :: rest =>
    if i < resume then site.leavesFrom codes finder resume (i + 1) rest
    else
      let codes := codes.dropWhile fun code => code.start < i
      match Span.startingAt? i codes with
      | some code => code :: site.leavesFrom codes finder code.stop (i + 1) rest
      | none =>
        if Text.startsEscape (c :: rest) then site.leavesFrom codes finder (i + 2) (i + 1) rest
        else
          match site.construct? finder i c with
          | (some span, finder) => span :: site.leavesFrom codes finder span.stop (i + 1) rest
          | (none, finder) => site.leavesFrom codes finder resume (i + 1) rest

end Site

/-- The leaf spans of a text, from left to right. -/
def Span.leaves (text : Text) : List Span :=
  let site := Site.ofText text
  site.leavesFrom site.codes (.fresh site.text) 0 0 text

end ProseWrap
