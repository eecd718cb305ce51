import GraphicScore.Number.Rounding

/-!
# Decimals

`significand * 10 ^ exponent`, its rounding to double precision, and its positional text.
-/

namespace GraphicScore

structure Decimal where
  significand : Nat
  exponent : Int
deriving DecidableEq, Repr

namespace Decimal

def numerator (d : Decimal) : Nat := d.significand * Nat.pow 10 d.exponent.toNat

def denominator (d : Decimal) : Nat := Nat.pow 10 (-d.exponent).toNat

/--
The rank nearest to the decimal. An exponent of 342 or more overflows by itself, since `10 ^ 342`
exceeds `2 ^ 1024`, and a value below half a unit is zero; neither power is worked out.
-/
def nearestRank (d : Decimal) : Nat :=
  if d.significand = 0 then 0
  else if 342 ≤ d.exponent then Binary64.magnitudes
  else if d.significand.log2 + 1076 + 3 * d.exponent ≤ 0 then 0
  else Binary64.nearestRank (d.numerator * Binary64.unitsPerOne) d.denominator

def toBinary64 (negative : Bool) (d : Decimal) : Binary64 :=
  Binary64.ofRank negative d.nearestRank

/-- All digits written out, with a point only when there are places behind it. -/
def positional (d : Decimal) : List Char :=
  let digits := Nat.toDigits 10 d.significand
  if 0 ≤ d.exponent then
    digits ++ List.replicate d.exponent.toNat '0'
  else
    let places := (-d.exponent).toNat
    let padded := List.replicate (places + 1 - digits.length) '0' ++ digits
    padded.take (padded.length - places) ++ '.' :: padded.drop (padded.length - places)

end Decimal

end GraphicScore
