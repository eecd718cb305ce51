import GraphicScore.Feature

/-!
# Definitions

The instruments of a score. A block declares one instrument under several numbers; blocks and the
numbers in them keep their order. An instrument is found by its key, the number in decimal.
-/

namespace GraphicScore

structure Block where
  numbers : List UInt32
  instrument : Instrument

structure Definitions where
  blocks : List Block

def instrumentKey (number : UInt32) : String := toString number.toNat

namespace Definitions

def empty : Definitions := ⟨[]⟩

def append (d : Definitions) (block : Block) : Definitions := ⟨d.blocks ++ [block]⟩

def numbers (d : Definitions) : List UInt32 := d.blocks.flatMap Block.numbers

def declares (d : Definitions) (number : UInt32) : Bool := d.numbers.contains number

def toList (d : Definitions) : List (String × Instrument) :=
  d.blocks.flatMap fun block => block.numbers.map fun number => (instrumentKey number, block.instrument)

def keys (d : Definitions) : List String := d.toList.map Prod.fst

def size (d : Definitions) : Nat := d.toList.length

def isEmpty (d : Definitions) : Bool := d.toList.isEmpty

def get? (d : Definitions) (key : String) : Option Instrument := d.toList.lookup key

def contains (d : Definitions) (key : String) : Bool := d.keys.contains key

/-- The same keys in the same order with equal instruments, however they are put into blocks. -/
def beq (a b : Definitions) : Bool := a.toList == b.toList

instance : BEq Definitions := ⟨beq⟩

end Definitions

end GraphicScore
