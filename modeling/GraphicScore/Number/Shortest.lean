import GraphicScore.Number.Decimal

/-!
# Shortest decimals

The decimal with the fewest digits that rounds to a given magnitude, and of those the nearest to
it. Grids of steps `10 ^ p`, `10 ^ (p - 1)`, … are tried in turn, where `10 ^ p` is above the
magnitude; on each grid only the two neighbours of the magnitude can be nearest.
-/

namespace GraphicScore.Shortest

/-- The quotient of a rank's magnitude by `10 ^ step`, as numerator and denominator. -/
def quotient (rank : Nat) (step : Int) : Nat × Nat :=
  (Binary64.units rank * Nat.pow 10 (-step).toNat, Binary64.unitsPerOne * Nat.pow 10 step.toNat)

/--
Of the two neighbours of `num / den` on the grid of `10 ^ step`, the one that rounds to the rank: the
nearer if both do.
-/
def neighbour? (rank : Nat) (step : Int) (num den : Nat) : Option Decimal :=
  let lower : Decimal := ⟨num / den, step⟩
  let upper : Decimal := ⟨num / den + 1, step⟩
  match lower.nearestRank == rank, upper.nearestRank == rank with
  | true, true => some (if den ≤ 2 * (num % den) then upper else lower)
  | true, false => some lower
  | false, true => some upper
  | false, false => none

def onGrid? (rank : Nat) (step : Int) : Option Decimal :=
  neighbour? rank step (quotient rank step).1 (quotient rank step).2

/--
The exponent of a power of ten above the magnitude, and no more than a hundred times as large. The
magnitude is less than `2 ^ (log2 + 1)`, and `30103 / 100000` is close above the logarithm of two.
-/
def top (rank : Nat) : Int :=
  ((Binary64.units rank).log2 + 1 - 1074 : Int) * 30103 / 100000 + 1

/-- Every digit of the magnitude, a unit being `5 ^ 1074 * 10 ^ -1074`. -/
def exact (rank : Nat) : Decimal := ⟨Binary64.units rank * Nat.pow 5 1074, -1074⟩

/-- Seventeen digits always suffice, and `top` is at most one place in front of the first. -/
def decimal (rank : Nat) : Decimal :=
  if rank = 0 then ⟨0, 0⟩
  else ((List.range 19).findSome? fun (n : Nat) => onGrid? rank (top rank - n)).getD (exact rank)

end GraphicScore.Shortest

namespace GraphicScore.Binary64

def text : Binary64 → List Char
  | .nan => ['N', 'a', 'N']
  | .infinite negative => signed negative ['i', 'n', 'f']
  | .finite negative rank => signed negative (Shortest.decimal rank).positional
where
  signed (negative : Bool) (magnitude : List Char) : List Char :=
    if negative then '-' :: magnitude else magnitude

end GraphicScore.Binary64
