import GraphicScore.Position
import GraphicScore.Token

/-!
# Faults

Everything that can be wrong with a score, as a cause and the place that is blamed for it.
-/

namespace GraphicScore

/-- What the grammar asked for where it found another token. -/
inductive Wanted where
  | endOfLine
  | block
  | instrumentNumber
  | body
  | endOfStatement
  | feature
  | arrow
  | opening
  | closing
  | expression
deriving DecidableEq, Repr

def Wanted.description : Wanted → String
  | .endOfLine => "end of line"
  | .block => "'instr' block"
  | .instrumentNumber => "instrument number"
  | .body => "'do' or '\x7b'"
  | .endOfStatement => "end of statement"
  | .feature => "a feature"
  | .arrow => "'=>'"
  | .opening => "'('"
  | .closing => "')'"
  | .expression => "an expression"

inductive Cause where
  | loneEquals
  | namelessSymbol
  | unexpectedCharacter (c : Char)
  | expected (wanted : Wanted) (found : Token)
  | instrumentOutOfRange (digits : String)
  | duplicateInstrument (number : UInt32)
  | unterminatedBlock (openedAt : Nat)
  | emptyBlock
  | unknownFeature (keyword : String)
  | duplicateOption (name : String)
  | positionalAfterOption
  | coordinateCount (keyword : String) (wanted got : Nat)
  | danglingMinus (found : Token)
  | calledPField (name : String)
  | bareIdentifier (found : Token)
  | unknownConverter (name : String)
  | convertedConstant (name : String)
  | invalidNumber (text : String)
  | pFieldZero
  | pFieldOutOfRange (name : String)
deriving DecidableEq, Repr

def Cause.message : Cause → String
  | .loneEquals => "expected '=>' after '='"
  | .namelessSymbol => "expected a symbol name after ':'"
  | .unexpectedCharacter c => s!"unexpected character '{c}'"
  | .expected wanted found => s!"expected {wanted.description}, found {found.shown}"
  | .instrumentOutOfRange digits => s!"instrument number {digits} is out of range"
  | .duplicateInstrument number => s!"duplicate instrument {number}"
  | .unterminatedBlock openedAt => s!"unterminated instrument block opened at line {openedAt}"
  | .emptyBlock => "instrument block declares no features"
  | .unknownFeature keyword => s!"unknown feature type '{keyword}'"
  | .duplicateOption name => s!"duplicate option '{name}'"
  | .positionalAfterOption => "positional argument after keyword options"
  | .coordinateCount keyword wanted got => s!"'{keyword}' expects {wanted} coordinates, got {got}"
  | .danglingMinus found => s!"'-' must be followed by a number, found {found.shown}"
  | .calledPField name => s!"p-field {name} cannot be called as a converter"
  | .bareIdentifier found => s!"unexpected {found.shown} in expression"
  | .unknownConverter name => s!"unknown converter '{name}'"
  | .convertedConstant name => s!"converter '{name}' cannot be applied to a constant"
  | .invalidNumber text => s!"invalid number {text}"
  | .pFieldZero => "p-fields are numbered from p1"
  | .pFieldOutOfRange name => s!"p-field {name} is out of range"

abbrev Fault := Located Cause

end GraphicScore
