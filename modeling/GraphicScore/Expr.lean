import GraphicScore.Converter
import GraphicScore.Number.Binary64

/-!
# Expressions

What a coordinate or an option is worked out from: constants, p-fields of the score event that is
played, and operators over them. A p-field or an operator carries the converters that apply to its
value, the outermost first.
-/

namespace GraphicScore

/-- A literal keeps whether it was written as an integer. -/
inductive Constant where
  | int (value : Int64)
  | float (value : Binary64)
deriving BEq

inductive Operator where
  | plus | minus | times | divide
deriving DecidableEq, Repr

namespace Operator

def symbol : Operator → Char
  | .plus => '+'
  | .minus => '-'
  | .times => '*'
  | .divide => '/'

/-- The operator with the greater precedence binds tighter. -/
def precedence : Operator → Nat
  | .plus => 1
  | .minus => 1
  | .times => 2
  | .divide => 2

end Operator

inductive Expr where
  | constant (value : Constant)
  | pField (number : UInt32) (converters : List Converter)
  | binary (operator : Operator) (left right : Expr) (converters : List Converter)
deriving BEq

namespace Expr

def converters : Expr → List Converter
  | .constant _ => []
  | .pField _ converters => converters
  | .binary _ _ _ converters => converters

/-- Applies one more converter outside all others; a constant takes none. -/
def convert? (c : Converter) : Expr → Option Expr
  | .constant _ => none
  | .pField number converters => some (.pField number (c :: converters))
  | .binary operator left right converters => some (.binary operator left right (c :: converters))

end Expr

end GraphicScore
