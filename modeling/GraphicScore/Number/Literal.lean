import GraphicScore.Number.Numeral

/-!
# Literals

The values of number texts, where the text has one: within a bound, as a 64-bit integer, or as a
finite double.
-/

namespace GraphicScore.Literal

/-- The value of a digit text, if it is at most `limit`. -/
def upTo? (limit : Nat) (digits : List Char) : Option Nat :=
  let value := Nat.ofDigitChars 10 digits 0
  if value ≤ limit then some value else none

def uint32? (digits : List Char) : Option UInt32 := (upTo? (UInt32.size - 1) digits).map UInt32.ofNat

def int64? (digits : List Char) : Option Int64 :=
  (upTo? (UInt64.size / 2 - 1) digits).map fun (value : Nat) => Int64.ofInt value

/-- The value with a minus in front of the digits, which reaches one further than without. -/
def negInt64? (digits : List Char) : Option Int64 :=
  (upTo? (UInt64.size / 2) digits).map fun (value : Nat) => Int64.ofInt (-value)

/-- The nearest double, unless the text is beyond the largest. -/
def binary64? (text : List Char) : Option Binary64 :=
  let value := (Numeral.scan text).1.value.toBinary64 false
  if value.isFinite then some value else none

end GraphicScore.Literal
