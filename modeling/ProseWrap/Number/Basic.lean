/-!
# Numbers of a configuration

A number in a configuration is a binary floating point number: a rational, an
infinity, or no number at all. `ofBits` reads the 64 bits of such a number, and
`toNat?` is the test for a count.
-/

namespace ProseWrap

/-- A number as a configuration can give it. -/
inductive Number where
  | finite (value : Rat)
  | infinite (negative : Bool)
  | nan
  deriving DecidableEq

namespace Number

/-- A count as a number. -/
def ofNat (n : Nat) : Number := .finite n

/-- An integer as a number. -/
def ofInt (n : Int) : Number := .finite n

/-- The count that a number is, if it is a whole number and not negative. -/
def toNat? : Number → Option Nat
  | .finite q => if q.den = 1 ∧ 0 ≤ q.num then some q.num.toNat else none
  | _ => none

/-- The power of two with a signed exponent. -/
def twoPow (e : Int) : Rat := if 0 ≤ e then Nat.pow 2 e.toNat else mkRat 1 (Nat.pow 2 (-e).toNat)

/-- The number with the given 64 bits: one for the sign, 11 for the exponent,
52 for the fraction. -/
def ofBits (bits : UInt64) : Number :=
  let n := bits.toNat
  let negative := n / Nat.pow 2 63 == 1
  let exponent : Nat := n / Nat.pow 2 52 % Nat.pow 2 11
  let fraction : Nat := n % Nat.pow 2 52
  if exponent = 2047 then (if fraction = 0 then .infinite negative else .nan)
  else
    let size : Rat :=
      if exponent = 0 then (fraction : Rat) * twoPow (-1074)
      else ((fraction + Nat.pow 2 52 : Nat) : Rat) * twoPow ((exponent : Int) - 1075)
    .finite (if negative then -size else size)

end Number

end ProseWrap
