import GraphicScore.Expr
import GraphicScore.Number.Literal
import GraphicScore.Reading.Basic

/-!
# Reading expressions

Sums of products of operands, each level grouped from the left. Each reading takes the reading of
what stands in parentheses as an argument; `expressionWithin` ties the knot, with fuel that only
opening parentheses use up.
-/

namespace GraphicScore

/-- The digits in a p-field's name: a letter and an ASCII number. -/
def pFieldDigits? (name : String) : Option (List Char) :=
  match name.toList with
  | 'p' :: digits => if !digits.isEmpty && digits.all Char.isDigit then some digits else none
  | _ => none

def Operator.additive? : Token → Option Operator
  | .plus => some .plus
  | .minus => some .minus
  | _ => none

def Operator.multiplicative? : Token → Option Operator
  | .star => some .times
  | .slash => some .divide
  | _ => none

namespace Reading

variable {ν : Type} [Record ν]

def chainStep (operator? : Token → Option Operator) (operand : Recording ν Expr) (left : Expr) :
    Recording ν (ForInStep Expr) := do
  skipInsignificant
  match operator? (← token) with
  | none => return .done left
  | some operator =>
    advance
    skipNewlines
    let right ← operand
    return .yield (.binary operator left right [])

def chain (operator? : Token → Option Operator) (operand : Recording ν Expr) : Recording ν Expr := do
  let first ← operand
  loop (chainStep operator? operand) first

def literal (value? : Option Constant) (text : String) : Recording ν Expr := do
  match value? with
  | none => fault (.invalidNumber text)
  | some value =>
    advance
    return .constant value

/-- What follows a unary minus; it belongs to the literal, so that the least integer can be written. -/
def negated : Recording ν Expr := do
  match ← token with
  | .integer digits => literal ((Literal.negInt64? digits.toList).map .int) ("-" ++ digits)
  | .float text => literal ((Literal.binary64? text.toList).map fun value => .float (-value)) text
  | found => fault (.danglingMinus found)

/-- The rest of a parenthesis whose opening has been read. -/
def parenthesized (inner : Recording ν Expr) : Recording ν Expr := do
  enter
  skipNewlines
  let e ← leaving inner
  skipNewlines
  expect .closing .closeParen
  return e

def pField (name : String) (digits : List Char) : Recording ν Expr := do
  match Literal.uint32? digits with
  | none => fault (.pFieldOutOfRange name)
  | some number =>
    require (number != 0) .pFieldZero
    advance
    return .pField number []

/-- A converter call; the converter goes to the expression that is called, which is no constant. -/
def call (config : Config) (inner : Recording ν Expr) (name : String) : Recording ν Expr := do
  let position := (← current).position
  require (config.admits name) (.unknownConverter name)
  advance
  expect .opening .openParen
  match (← parenthesized inner).convert? ⟨name⟩ with
  | some e => return e
  | none => faultAt position (.convertedConstant name)

def named (config : Config) (inner : Recording ν Expr) (name : String) : Recording ν Expr := do
  let called := (← peek) == .openParen
  match pFieldDigits? name with
  | some digits => if called then fault (.calledPField name) else pField name digits
  | none => if called then call config inner name else fault (.bareIdentifier (.identifier name))

def primary (config : Config) (inner : Recording ν Expr) : Recording ν Expr := do
  match ← token with
  | .integer digits => literal ((Literal.int64? digits.toList).map .int) digits
  | .float text => literal ((Literal.binary64? text.toList).map .float) text
  | .openParen =>
    advance
    parenthesized inner
  | .identifier name => named config inner name
  | _ => unexpected .expression

def unary (config : Config) (inner : Recording ν Expr) : Recording ν Expr := do
  if (← token) = .minus then
    advance
    negated
  else primary config inner

def product (config : Config) (inner : Recording ν Expr) : Recording ν Expr :=
  chain Operator.multiplicative? (unary config inner)

def sum (config : Config) (inner : Recording ν Expr) : Recording ν Expr :=
  chain Operator.additive? (product config inner)

/-- Reads an expression with at most one parenthesis inside another for each of the answers. -/
def expressionWithin (config : Config) : List Answer → Recording ν Expr
  | [] => sum config (unexpected .expression)
  | _ :: fuel => sum config (expressionWithin config fuel)

/-- Reads an expression. Opening a parenthesis is a move, so what remains is fuel enough. -/
def expression (config : Config) : Recording ν Expr := do
  expressionWithin config (← get).remaining

end Reading

end GraphicScore
