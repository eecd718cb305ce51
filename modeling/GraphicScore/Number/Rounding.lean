import GraphicScore.Number.Binary64

/-!
# Rounding to double precision

A nonnegative rational, given as a quotient of units, goes to the nearest finite magnitude, and half
way to the one of even rank. Beyond the largest it goes to infinity.
-/

namespace GraphicScore

/-- The integer nearest to `num / den`; a half goes to the even neighbour. -/
def roundHalfEven (num den : Nat) : Nat :=
  let floor := num / den
  let twice := 2 * (num % den)
  if twice < den then floor
  else if den < twice then floor + 1
  else floor + floor % 2

namespace Binary64

/-- The rank that `num / den` units round to, without an upper bound. -/
def nearestRank (num den : Nat) : Nat :=
  let scale := (num / den).log2 - 52
  scale * fractions + roundHalfEven num (den * Nat.pow 2 scale)

def ofRank (negative : Bool) (rank : Nat) : Binary64 :=
  if h : rank < magnitudes then .finite negative ⟨rank, h⟩ else .infinite negative

def ofUnits (negative : Bool) (num den : Nat) : Binary64 :=
  ofRank negative (nearestRank num den)

def ofInt (n : Int) : Binary64 := ofUnits (n < 0) (n.natAbs * unitsPerOne) 1

end Binary64

end GraphicScore
