import GraphicScore.Number.Decimal

/-!
# Numerals

A numeral is `digit+ ['.' digit+] [('e' | 'E') ['+' | '-'] digit+]`. `Numeral.scan` splits the
longest one off the front of a text that starts with a digit.
-/

namespace GraphicScore

structure Numeral.Exponent where
  mark : Char
  sign : Option Char
  digits : List Char
deriving DecidableEq, Repr

structure Numeral where
  whole : List Char
  fraction : Option (List Char)
  exponent : Option Numeral.Exponent
deriving DecidableEq, Repr

namespace Numeral

def Exponent.spelling (e : Exponent) : List Char := e.mark :: e.sign.toList ++ e.digits

def Exponent.value (e : Exponent) : Int :=
  let size := Nat.ofDigitChars 10 e.digits 0
  if e.sign = some '-' then -size else size

def spelling (n : Numeral) : List Char :=
  n.whole ++ (n.fraction.elim [] ('.' :: ·)) ++ n.exponent.elim [] Exponent.spelling

/-- A numeral with a fraction or an exponent stands for a floating point value. -/
def isFloat (n : Numeral) : Bool := n.fraction.isSome || n.exponent.isSome

def value (n : Numeral) : Decimal :=
  let places := n.fraction.getD []
  ⟨Nat.ofDigitChars 10 (n.whole ++ places) 0, n.exponent.elim 0 Exponent.value - places.length⟩

/-- A point without a digit behind it is no fraction. -/
def scanFraction : List Char → Option (List Char) × List Char
  | '.' :: c :: cs =>
    if c.isDigit then
      (some ((c :: cs).takeWhile Char.isDigit), (c :: cs).dropWhile Char.isDigit)
    else (none, '.' :: c :: cs)
  | cs => (none, cs)

/-- A mark without a digit behind it or behind its sign is no exponent. -/
def scanExponent : List Char → Option Exponent × List Char
  | mark :: c :: cs =>
    if mark = 'e' || mark = 'E' then
      if c.isDigit then
        (some ⟨mark, none, (c :: cs).takeWhile Char.isDigit⟩, (c :: cs).dropWhile Char.isDigit)
      else if (c = '+' || c = '-') && cs.head?.any Char.isDigit then
        (some ⟨mark, some c, cs.takeWhile Char.isDigit⟩, cs.dropWhile Char.isDigit)
      else (none, mark :: c :: cs)
    else (none, mark :: c :: cs)
  | cs => (none, cs)

def scan (cs : List Char) : Numeral × List Char :=
  let (fraction, afterFraction) := scanFraction (cs.dropWhile Char.isDigit)
  let (exponent, rest) := scanExponent afterFraction
  (⟨cs.takeWhile Char.isDigit, fraction, exponent⟩, rest)

/-! ## nothing is lost -/

theorem scanFraction_append (cs : List Char) :
    (scanFraction cs).1.elim [] ('.' :: ·) ++ (scanFraction cs).2 = cs := by
  fun_cases scanFraction cs <;> simp_all

theorem scanExponent_append (cs : List Char) :
    (scanExponent cs).1.elim [] Exponent.spelling ++ (scanExponent cs).2 = cs := by
  fun_cases scanExponent cs <;> simp_all [Exponent.spelling]

theorem scan_append (cs : List Char) : (scan cs).1.spelling ++ (scan cs).2 = cs := by
  simp [scan, spelling, scanExponent_append, scanFraction_append]

end Numeral

end GraphicScore
