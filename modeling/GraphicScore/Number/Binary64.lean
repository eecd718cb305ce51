/-!
# Double precision

The finite magnitudes of the format, numbered upwards from zero: rank `r` is the magnitude whose
exponent and fraction bits, read as one integer, are `r`. A value is a sign and a rank, or one of
the special values.
-/

namespace GraphicScore

namespace Binary64

def fractions : Nat := Nat.pow 2 52

/-- The number of finite magnitudes: the last of the 2048 exponents is for the special values. -/
def magnitudes : Nat := 2047 * fractions

def signBit : Nat := Nat.pow 2 63

/-- The number of units in one, where a unit is the least magnitude above zero. -/
def unitsPerOne : Nat := Nat.pow 2 1074

def units (rank : Nat) : Nat :=
  let scale := rank / fractions - 1
  (rank - scale * fractions) * Nat.pow 2 scale

end Binary64

inductive Binary64 where
  | nan
  | infinite (negative : Bool)
  | finite (negative : Bool) (rank : Fin Binary64.magnitudes)

namespace Binary64

def zero (negative : Bool) : Binary64 := .finite negative ⟨0, by decide⟩

def isFinite : Binary64 → Bool
  | .finite _ _ => true
  | _ => false

def neg : Binary64 → Binary64
  | .nan => .nan
  | .infinite negative => .infinite !negative
  | .finite negative rank => .finite (!negative) rank

instance : Neg Binary64 := ⟨neg⟩

/-- Numeric equality: the two zeros are equal, and no value equals `nan`. -/
def beq : Binary64 → Binary64 → Bool
  | .infinite s, .infinite t => s == t
  | .finite s a, .finite t b => a == b && (s == t || a.val == 0)
  | _, _ => false

instance : BEq Binary64 := ⟨beq⟩

/-- The sign bit is the top one, then come exponent and fraction. -/
def ofBits (bits : UInt64) : Binary64 :=
  let negative := signBit ≤ bits.toNat
  let rank := bits.toNat % signBit
  if h : rank < magnitudes then .finite negative ⟨rank, h⟩
  else if rank = magnitudes then .infinite negative
  else .nan

def toBits : Binary64 → UInt64
  | .nan => 0x7ff8000000000000
  | .infinite negative => UInt64.ofNat ((if negative then signBit else 0) + magnitudes)
  | .finite negative rank => UInt64.ofNat ((if negative then signBit else 0) + rank.val)

end Binary64

end GraphicScore
