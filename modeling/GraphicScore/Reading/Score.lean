import GraphicScore.Definitions
import GraphicScore.Reading.Expression

/-!
# Reading scores

Statements, the blocks around them, and whole scores. A check is made as soon as what it is about
has been read, so that the first of several faults is the one reported.
-/

namespace GraphicScore

structure Arguments where
  coordinates : List Expr := []
  options : Options := .empty

/-- How a block is closed: `do … end`, or braces. -/
inductive Closer where
  | keyword
  | brace
deriving DecidableEq, Repr

def Closer.token : Closer → Token
  | .keyword => .identifier "end"
  | .brace => .closeBrace

namespace Reading

variable {ν : Type} [Record ν]

def optionName? : Recording ν (Option String) := do
  match ← token with
  | .symbol name => return some name
  | .identifier name => return if (← peek) = .arrow then some name else none
  | _ => return none

/-- An option behind its name, which may not come twice. -/
def option (config : Config) (read : Arguments) (name : String) : Recording ν Arguments := do
  let position := (← current).position
  advance
  expect .arrow .arrow
  skipNewlines
  let value ← expression config
  if read.options.contains name then faultAt position (.duplicateOption name)
  else return { read with options := read.options.insert name value }

/-- A coordinate, which may not follow an option. -/
def coordinate (config : Config) (read : Arguments) : Recording ν Arguments := do
  require read.options.isEmpty .positionalAfterOption
  let value ← expression config
  return { read with coordinates := read.coordinates ++ [value] }

def argument (config : Config) (read : Arguments) : Recording ν Arguments := do
  match ← optionName? with
  | some name => option config read name
  | none => coordinate config read

def arguments (config : Config) : Recording ν Arguments := list (argument config) {}

/-- Whether the token behind a keyword leaves the statement without arguments. -/
def endsBare (t : Token) : Bool :=
  t.isSeparator || t == .endOfInput || t == .closeBrace || t == .identifier "end"

def statement (config : Config) (position : Position) (kind : FeatureKind) : Recording ν Feature := do
  let read ← if endsBare (← token) then pure {} else arguments config
  match kind.feature? read.coordinates read.options with
  | some feature => return feature
  | none =>
    let got := read.coordinates.length
    faultAt position (.coordinateCount kind.keyword kind.coordinateCount got)

def feature (config : Config) : Recording ν Feature := do
  match ← current with
  | ⟨position, .identifier keyword⟩ =>
    match FeatureKind.ofKeyword? keyword with
    | none => fault (.unknownFeature keyword)
    | some kind =>
      advance
      statement config position kind
  | _ => unexpected .feature

/-- One more instrument number, which may not be taken yet. -/
def instrumentNumber (defined : Definitions) (numbers : List UInt32) : Recording ν (List UInt32) := do
  match ← current with
  | ⟨position, .integer digits⟩ =>
    advance
    match Literal.uint32? digits.toList with
    | none => faultAt position (.instrumentOutOfRange digits)
    | some number =>
      if numbers.contains number || defined.declares number then
        faultAt position (.duplicateInstrument number)
      else return numbers ++ [number]
  | _ => unexpected .instrumentNumber

def instrumentNumbers (defined : Definitions) : Recording ν (List UInt32) :=
  list (instrumentNumber defined) []

def opener : Recording ν Closer := do
  match ← token with
  | .identifier "do" =>
    advance
    return .keyword
  | .openBrace =>
    advance
    return .brace
  | _ => unexpected .body

/-- One more statement of a block, which has to be closed before the end of input. -/
def bodyItem (config : Config) (openedAt : Nat) (features : List Feature) : Recording ν (List Feature) := do
  require ((← token) != .endOfInput) (.unterminatedBlock openedAt)
  return features ++ [← feature config]

def body (config : Config) (closer : Closer) (openedAt : Nat) : Recording ν (List Feature) := do
  let features ← sequence (· == closer.token) .endOfStatement (bodyItem config openedAt) []
  advance
  return features

def block (config : Config) (defined : Definitions) : Recording ν Block := do
  let position := (← current).position
  expect .block (.identifier "instr")
  let numbers ← instrumentNumbers defined
  let closer ← opener
  let features ← body config closer position.line
  if features.isEmpty then faultAt position .emptyBlock
  else return ⟨numbers, ⟨features⟩⟩

def scoreItem (config : Config) (defined : Definitions) : Recording ν Definitions := do
  return defined.append (← block config defined)

def score (config : Config) : Recording ν Definitions :=
  sequence (· == .endOfInput) .endOfLine (scoreItem config) .empty

end Reading

/-- Reads a score from where the reader stands, and gives the reader back for another try. -/
def Reader.parse {ν : Type} [Record ν] (config : Config) (r : Reader ν) : Except Fault Definitions × Reader ν :=
  match Reading.score config r with
  | .ok definitions r => (.ok definitions, r)
  | .error fault r => (.error fault, r)

def parse (source : String) (config : Config := {}) : Except Fault Definitions :=
  ((Reader.ofFeed (.ofString source)).parse config).1

end GraphicScore
