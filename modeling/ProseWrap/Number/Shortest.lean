import ProseWrap.Number.Basic

/-!
# The shortest text of a number

`Number.text` writes a number with the fewest digits that still tell it from
every other 64-bit floating point number, and of those the nearest. Numbers
from 10⁻⁶ up to 10²¹ are written in place; smaller and larger ones have an
exponent.
-/

namespace ProseWrap

namespace Number

/-- The decimal number `digits · 10 ^ scale`. -/
structure Decimal where
  digits : Nat
  scale : Int

/-- The power of ten with a signed exponent. -/
def tenPow (e : Int) : Rat := if 0 ≤ e then Nat.pow 10 e.toNat else mkRat 1 (Nat.pow 10 (-e).toNat)

/-- The largest `e` with `2 ^ e ≤ value`, for a positive value. -/
def floorLogTwo (value : Rat) : Int :=
  let e : Int := (Nat.log2 value.num.toNat : Int) - Nat.log2 value.den
  if twoPow e ≤ value then e else e - 1

/-- The largest `e` with `10 ^ e ≤ value`, for a positive value. -/
def floorLogTen (value : Rat) : Int :=
  let e : Int := ((Nat.toDigits 10 value.num.toNat).length : Int) - (Nat.toDigits 10 value.den).length
  if tenPow e ≤ value then e else e - 1

/-- The numbers that are rounded to one floating point number. -/
structure Rounding where
  low : Rat
  high : Rat
  closed : Bool

/-- The numbers that are rounded to a positive floating point number. -/
def Rounding.of (value : Rat) : Rounding :=
  let e := floorLogTwo value
  let step := twoPow (max (e - 52) (-1074))
  let below := if value = twoPow e ∧ -1022 < e then step / 4 else step / 2
  ⟨value - below, value + step / 2, (value / step).num % 2 == 0⟩

/-- Whether a number is rounded to the floating point number in question. -/
def Rounding.holds (r : Rounding) (x : Rat) : Bool :=
  if r.closed then r.low ≤ x && x ≤ r.high else r.low < x && x < r.high

/-- Of the two neighbours of `value` on the grid of multiples of `unit`, the
one that is rounded to `value`: if both are, the nearer, and the even one if
they are equally near. -/
def gridPoint? (value : Rat) (r : Rounding) (unit : Rat) : Option Nat :=
  let low := (value / unit).floor.toNat
  let high := low + 1
  match r.holds (low * unit), r.holds (high * unit) with
  | true, true =>
    let down := value - low * unit
    let up := high * unit - value
    some (if down < up then low else if up < down then high else if low % 2 = 0 then low else high)
  | true, false => some low
  | false, true => some high
  | false, false => none

/-- The first of the grids with `count`, `count + 1`, … digits that has a point
for `value`; at most `more` further grids are tried. -/
def firstGrid (value : Rat) (r : Rounding) (count : Nat) : Nat → Decimal
  | 0 => ⟨0, 0⟩
  | more + 1 =>
    let scale := floorLogTen value + 1 - count
    match gridPoint? value r (tenPow scale) with
    | some digits => ⟨digits, scale⟩
    | none => firstGrid value r (count + 1) more

/-- The same decimal number without zeros at the end of its digits; at most
`fuel` are removed. -/
def Decimal.strip (d : Decimal) : Nat → Decimal
  | 0 => d
  | fuel + 1 =>
    if d.digits ≠ 0 ∧ d.digits % 10 = 0 then Decimal.strip ⟨d.digits / 10, d.scale + 1⟩ fuel else d

/-- The shortest decimal number that is rounded to a positive floating point
number. Seventeen digits are enough for every one of them. -/
def shortest (value : Rat) : Decimal := (firstGrid value (.of value) 1 17).strip 18

/-- The text of a decimal number: in place if the point lies at most 21 digits
to the right of the first digit or at most 6 places to its left, and with an
exponent otherwise. -/
def Decimal.text (d : Decimal) : String :=
  let digits := Nat.toDigits 10 d.digits
  let count := digits.length
  let point : Int := count + d.scale
  if count ≤ point ∧ point ≤ 21 then
    String.ofList (digits ++ List.replicate (point.toNat - count) '0')
  else if 0 < point ∧ point ≤ 21 then
    String.ofList (digits.take point.toNat ++ '.' :: digits.drop point.toNat)
  else if -6 < point ∧ point ≤ 0 then
    String.ofList ('0' :: '.' :: List.replicate (-point).toNat '0' ++ digits)
  else
    let exponent := point - 1
    let sign := if exponent < 0 then '-' else '+'
    let power := 'e' :: sign :: Nat.toDigits 10 exponent.natAbs
    String.ofList (digits.take 1 ++ (if count = 1 then [] else '.' :: digits.drop 1) ++ power)

/-- The text of a number. -/
def text : Number → String
  | .nan => "NaN"
  | .infinite negative => if negative then "-Infinity" else "Infinity"
  | .finite value =>
    if value = 0 then "0"
    else if value < 0 then "-" ++ (shortest (-value)).text
    else (shortest value).text

end Number

end ProseWrap
