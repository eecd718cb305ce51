/-!
# Positions

Places in a text: lines and columns, both counted from one, a column for each character.
-/

namespace GraphicScore

structure Position where
  line : Nat
  column : Nat
deriving DecidableEq, Repr

namespace Position

def start : Position := ⟨1, 1⟩

def after (p : Position) (c : Char) : Position :=
  if c = '\n' then ⟨p.line + 1, 1⟩ else ⟨p.line, p.column + 1⟩

def past (p : Position) (cs : List Char) : Position := cs.foldl after p

end Position

/-- A value and the place it was found at. -/
structure Located (α : Type) where
  position : Position
  value : α
deriving DecidableEq, Repr

end GraphicScore
