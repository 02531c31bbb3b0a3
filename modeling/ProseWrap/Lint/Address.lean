import ProseWrap.Text.Blank
import ProseWrap.Text.Units

/-!
# Web addresses

An address cannot be broken, so a line is not too long only because of one.
`shorten` gives each address of a line a fixed small size: the address of a
link becomes a short word if it is longer than a placeholder, and an address in
the text becomes a row of letters no longer than a placeholder.
-/

namespace ProseWrap.Lint

/-- How many units the placeholder of an address has. -/
def placeholderLength : Nat := 15

/-- The length of `http://` or `https://` at the start of a text; 0 if there is
neither. -/
def schemeLength (text : Text) : Nat :=
  if ['h', 't', 't', 'p', ':', '/', '/'].isPrefixOf text then 7
  else if ['h', 't', 't', 'p', 's', ':', '/', '/'].isPrefixOf text then 8
  else 0

/-- The length of the address at the start of a text, whose characters after
the scheme satisfy `p`; 0 if there is none. -/
def addressLength (p : Char → Bool) (text : Text) : Nat :=
  let scheme := schemeLength text
  let more := ((text.drop scheme).takeWhile p).length
  if scheme = 0 ∨ more = 0 then 0 else scheme + more

/-! ## Links -/

/-- Whether a character can be in the address of a link. -/
def isLinkChar (c : Char) : Bool := !Text.isBlank c && c != '(' && c != ')'

/-- A link: its label and its address. -/
structure Link where
  label : Text
  address : Text
  deriving DecidableEq, Repr

/-- The length of a link as it is written. -/
def Link.length (link : Link) : Nat := link.label.length + link.address.length + 4

/-- A link as it is written. -/
def Link.source (link : Link) : Text :=
  '[' :: link.label ++ [']', '('] ++ link.address ++ [')']

/-- The link to an address at the start of a text. There are no brackets in its
label. -/
def linkAt? (text : Text) : Option Link :=
  match text with
  | '[' :: rest =>
    let label := rest.takeWhile fun c => c != '[' && c != ']'
    match rest.drop label.length with
    | ']' :: '(' :: target =>
      let address := target.take (addressLength isLinkChar target)
      if !address.isEmpty && (target.drop address.length).head? == some ')' then some ⟨label, address⟩
      else none
    | _ => none
  | _ => none

/-- The link with a short word for its address if that is longer than a
placeholder. -/
def Link.shortened (link : Link) : Link :=
  if placeholderLength < Text.unitCount link.address then ⟨link.label, ['u', 'r', 'l']⟩ else link

/-- Shortens the links of a text, from its character number `skip` on. -/
def shortenLinksFrom (skip : Nat) : Text → Text
  | [] => []
  | c :: rest =>
    match skip with
    | skip + 1 => shortenLinksFrom skip rest
    | 0 =>
      match linkAt? (c :: rest) with
      | some link => link.shortened.source ++ shortenLinksFrom (link.length - 1) rest
      | none => c :: shortenLinksFrom 0 rest

/-- Shortens the links of a text. -/
def shortenLinks (text : Text) : Text := shortenLinksFrom 0 text

/-! ## Addresses in the text -/

/-- Whether a character can be in an address in the text. -/
def isAddressChar (c : Char) : Bool :=
  isLinkChar c && c != '<' && c != '>' && c != '[' && c != ']'

/-- Whether an address after a character is left alone, because it is that of a
link or stands between angle brackets. -/
def isGuard (before : Option Char) : Bool := before == some '(' || before == some '<'

/-- Puts placeholders for the addresses of a text, from its character number
`skip` on. The character before the text is `before`. -/
def shortenAddressesFrom (before : Option Char) (skip : Nat) : Text → Text
  | [] => []
  | c :: rest =>
    match skip with
    | skip + 1 => shortenAddressesFrom (some c) skip rest
    | 0 =>
      let length := if isGuard before then 0 else addressLength isAddressChar (c :: rest)
      if length = 0 then c :: shortenAddressesFrom (some c) 0 rest
      else
        let size := min placeholderLength (Text.unitCount ((c :: rest).take length))
        List.replicate size 'x' ++ shortenAddressesFrom (some c) (length - 1) rest

/-- Puts placeholders for the addresses of a text. -/
def shortenAddresses (text : Text) : Text := shortenAddressesFrom none 0 text

/-- The text with its addresses shortened. -/
def shorten (text : Text) : Text := shortenAddresses (shortenLinks text)

/-- Whether a text is one address, with or without angle brackets. -/
def isAddress (text : Text) : Bool :=
  let text := if text.head? == some '<' then text.drop 1 else text
  let scheme := schemeLength text
  0 < scheme && scheme < text.length && !(text.drop scheme).any Text.isBlank

end ProseWrap.Lint
